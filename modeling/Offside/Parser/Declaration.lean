import Offside.Parser.Basic

/-!
# Reading declarations

Types, prototypes, aliases and structs. An alias or a struct is declared as soon as it is read as
a whole; nothing is resolved here.

```text
type      ::= builtin | name | "ptr" "[" type "]"
prototype ::= name "(" [binding ("," binding)*] ")" "->" type
binding   ::= name ":" type
alias     ::= "type" name "=" type
struct    ::= "struct" name ":" line-end indent (binding line-end)+ dedent
```

## Main definitions

* `Offside.Parse.typeExpr`, `Offside.Parse.prototype`: read the parts of a declaration.
* `Offside.Parse.typeAlias`, `Offside.Parse.struct`: read a declaration and enter it in the tables.
-/

namespace Offside.Parse

/-- Read a type. The word `ptr` is special only before a bracket. -/
def typeExpr : Nat → Parse TypeExpr
  | 0 => throw .tooDeep
  | fuel + 1 => do
    let name ← expectName .type
    if name = "ptr" ∧ (← kind) = .symbol .openBracket then
      advance
      let element ← typeExpr fuel
      expect (.symbol .closeBracket) .pointerEnd
      return .pointer element
    else return .ofName name

/-- Read parameters after those in `before`, up to a closing parenthesis, which is not read. -/
def parameters : Nat → List Binding → Parse (List Binding)
  | 0, _ => throw .tooDeep
  | fuel + 1, before => do
    let place ← place
    let name ← expectName .parameter
    if before.any (·.name = name) then fail (.duplicateParameter name) place
    expectColon .parameterName
    let type ← typeExpr fuel
    let before := before ++ [⟨name, type⟩]
    if ← accept? (.symbol .comma) then parameters fuel before
    else if (← kind) = .symbol .closeParen then return before
    else refuse .parameterSeparator

/-- Read the name, parameters and result of a function. -/
def prototype (fuel : Nat) : Parse Prototype := do
  let place ← place
  let name ← expectName .function
  expectOpen .functionName
  let params ←
    if (← kind) = .symbol .closeParen then pure [] else parameters fuel []
  expectClose .parameters
  expect (.symbol .arrow) .returnType
  let result ← typeExpr fuel
  return ⟨name, params, result, place⟩

/-- Read an alias whose first word has been read. An alias may replace an alias, not a struct. -/
def typeAlias (fuel : Nat) : Parse Item.Shape := do
  let place ← place
  let name ← expectName .typeAlias
  if (← get).types.hasStruct name then fail (.namesStruct name) place
  expect (.symbol .assign) .aliasTarget
  let target ← typeExpr fuel
  expectStatementEnd .typeAlias
  note (.aliasDeclared name target)
  modify fun p => { p with types := p.types.declareAlias name target }
  return .typeAlias name target

/-- Read the fields of the struct `struct` after those in `before`, up to the end of the block. -/
def fields (struct : String) : Nat → List Binding → Parse (List Binding)
  | 0, _ => throw .tooDeep
  | fuel + 1, before => do
    modify Parser.skipLineEnds
    if (← get).atBlockEnd then return before
    let place ← place
    let name ← expectName .field
    if before.any (·.name = name) then fail (.duplicateField name struct) place
    expectColon .structFieldName
    let type ← typeExpr fuel
    match ← kind with
    | .endOfLine | .dedent => fields struct fuel (before ++ [⟨name, type⟩])
    | _ => refuse (.lineEnd .structField)

/-- Read a struct whose first word, at `start`, has been read. -/
def struct (fuel : Nat) (start : Location) : Parse Item.Shape := do
  let place ← place
  let name ← expectName .struct
  let types := (← get).types
  if types.hasStruct name then fail (.structTaken name) place
  if (types.alias? name).isSome then fail (.namesAlias name) place
  expectColon .structName
  expect .endOfLine (.lineEnd .structHeader)
  expect .indent (.blockStart .fields)
  let fields ← fields name fuel []
  if fields.isEmpty then fail (.emptyStruct name) place
  expect .dedent (.blockEnd .fields)
  note (.structDeclared name fields.length)
  modify fun p => { p with types := p.types.declareStruct ⟨name, fields, start⟩ }
  return .struct name

end Offside.Parse
