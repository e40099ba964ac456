import Offside.Journal.Note
import Offside.Types.Resolution
import Offside.Typing.Hint

/-!
# Checking items

Every item is checked once, when it has been read: its type expressions have to resolve, its
expressions must not contradict known types, jumps have to stand in a loop, and the cases of a
`match` have to be distinct integer literals. A function or a global is declared only if its item
passes.

Scopes, loops and the function being checked are entered by combinators that leave them again
whether or not the check inside succeeds.

## Main definitions

* `Offside.Check`: checks.
* `Offside.Check.withScope`, `Offside.Check.withLoop`, `Offside.Check.withFunction`: checks
  inside a construct.
* `Offside.checkStmt`, `Offside.checkSuite`: check statements.
* `Offside.checkItem`: check an item and declare its name.
-/

namespace Offside

/-- A check in progress: what an expression sees, the number of loops around it, and the events so
far, newest first. -/
structure CheckState extends Context where
  loops : Nat
  notes : List Note

/-- Checks. -/
abbrev Check := EStateM Diagnostic CheckState

namespace Check

/-- Refuse a construct at a place. -/
def fail {α : Type} (error : SemanticError) (place : Location) : Check α :=
  throw (semanticError error place)

/-- The type of an expression as far as it is known. -/
def hint (e : Expr) : Check (Option ResolvedType) := fun s =>
  match s.toContext.hint e with
  | .ok type => .ok type s
  | .error d => .error d s

/-- Look for contradictions in several expressions. -/
def hintAll (es : List Expr) : Check Unit := fun s =>
  match s.toContext.hintAll es with
  | .ok () => .ok () s
  | .error d => .error d s

/-- Resolve a type that is written at a place. -/
def resolve (type : TypeExpr) (place : Location) : Check ResolvedType := fun s =>
  let r := s.types.resolve type
  let s := { s with types := r.env, notes := r.notes.reverse ++ s.notes }
  match r.answer with
  | .ok type => .ok type s
  | .error error => .error (semanticError (.badType error) place) s

/-- Bind a variable in the innermost scope. -/
def declare (name : String) (type : ResolvedType) : Check Unit :=
  modify fun s =>
    match s.scopes with
    | [] => s
    | scope :: outer => { s with scopes := scope.insert name type :: outer }

/-- Check inside a new scope, and give what the scope binds in the end. -/
def withScope {α : Type} (scope : Scope) (inside : Check α) : Check (α × Scope) := fun s =>
  let leave (s : CheckState) : CheckState := { s with scopes := s.scopes.tail }
  match inside { s with scopes := scope :: s.scopes } with
  | .ok a s => .ok (a, s.scopes.headD Table.empty) (leave s)
  | .error d s => .error d (leave s)

/-- Check inside a new scope. -/
def inScope (scope : Scope) (inside : Check Unit) : Check Unit := do
  let _ ← withScope scope inside

/-- Check inside a loop. -/
def withLoop {α : Type} (inside : Check α) : Check α := fun s =>
  let leave (s : CheckState) : CheckState := { s with loops := s.loops - 1 }
  match inside { s with loops := s.loops + 1 } with
  | .ok a s => .ok a (leave s)
  | .error d s => .error d (leave s)

/-- Check inside the body of a function. -/
def withFunction {α : Type} (name : String) (signature : Signature) (inside : Check α) :
    Check α := fun s =>
  let leave (s : CheckState) : CheckState := { s with function := none }
  match inside { s with function := some (name, signature) } with
  | .ok a s => .ok a (leave s)
  | .error d s => .error d (leave s)

end Check

open Check

/-- The value that a case accepts: an integer or character literal, which may be negated. -/
def caseConstant (e : Expr) : Except SemanticError Int :=
  match e with
  | .number _ (.int n) => .ok n
  | .unary _ .neg (.number _ (.int n)) => .ok (-n)
  | .number _ (.float _) | .unary _ .neg (.number _ (.float _)) => .error .floatCase
  | _ => .error .nonLiteralCase

/-- Check what a case accepts against the values of the cases before it, and add its own. -/
def checkPattern (seen : List Int) : Pattern → Check (List Int)
  | .wildcard => return seen
  | .value e =>
    match caseConstant e with
    | .error error => fail error e.location
    | .ok value => do
      if seen.contains value then fail (.duplicateCase value) e.location
      return value :: seen

/-- Check what a `match` compares. -/
def checkScrutinee (e : Expr) : Check Unit := do
  match ← hint e with
  | none => return
  | some type =>
    if !type.isIntegerLike then fail (.scrutinee ((← get).types.describe type)) e.location

/-- Look for contradictions in an expression that may be missing. -/
def checkOptional : Option Expr → Check Unit
  | none => return
  | some e => do
    let _ ← hint e

/-- The scope of the body of a counting loop, which binds the counter if its type is known. -/
def counterScope (counter : String) : Option ResolvedType → Scope
  | some type => Table.empty.insert counter type
  | none => Table.empty

mutual

/-- Check a statement. -/
def checkStmt : Stmt → Check Unit
  | .expr _ value => checkOptional (some value)
  | .declare tag name type init => do
    let resolved ← resolve type tag.location
    checkOptional init
    declare name resolved
  | .assign _ target value => do
    checkOptional (some target)
    checkOptional (some value)
  | .ret _ value => checkOptional value
  | .print _ args => hintAll args
  | .branch _ condition thenSuite elseSuite => do
    checkOptional (some condition)
    checkSuite thenSuite
    checkElse elseSuite
  | .forRange _ counter start stop step body => do
    let type ← hint start
    checkOptional (some stop)
    checkOptional step
    inScope (counterScope counter type) (withLoop (checkSuite body))
  | .whileLoop _ condition body => do
    checkOptional (some condition)
    withLoop (checkSuite body)
  | .doWhile _ body condition => do
    withLoop (checkSuite body)
    checkOptional (some condition)
  | .jump tag jump => do
    if (← get).loops = 0 then fail (.outsideLoop jump) tag.location
  | .select _ scrutinee arms => do
    checkScrutinee scrutinee
    checkArms [] arms

/-- Check a body in a scope of its own. -/
def checkSuite : Suite → Check Unit
  | .mk _ stmts => inScope Table.empty (checkStmts stmts)

/-- Check statements in order. -/
def checkStmts : List Stmt → Check Unit
  | [] => return
  | s :: ss => do
    checkStmt s
    checkStmts ss

/-- Check the other branch, if there is one. -/
def checkElse : Option Suite → Check Unit
  | none => return
  | some suite => checkSuite suite

/-- Check cases in order; `seen` holds the values of those before them. -/
def checkArms (seen : List Int) : List Arm → Check Unit
  | [] => return
  | .mk _ pattern body :: arms => do
    let seen ← checkPattern seen pattern
    checkSuite body
    checkArms seen arms

end

/-- Resolve the types of parameters in order. -/
def resolveParams (place : Location) : List Binding → Check (List ResolvedType)
  | [] => return []
  | param :: params => do
    let type ← resolve param.type place
    return type :: (← resolveParams place params)

/-- Resolve the types of a function. -/
def resolveSignature (proto : Prototype) : Check Signature := do
  let params ← resolveParams proto.location proto.params
  return ⟨params, ← resolve proto.result proto.location⟩

/-- The scope of the parameters of a function. -/
def paramScope (proto : Prototype) (signature : Signature) : Scope :=
  Table.ofList ((proto.params.map (·.name)).zip signature.params)

/-- Declare a function for the items that follow. -/
def declareFunction (name : String) (signature : Signature) : Check Unit :=
  modify fun s =>
    { s with symbols := { s.symbols with
        functions := s.symbols.functions.insert name signature } }

/-- Declare globals for the items that follow. -/
def declareGlobals (scope : Scope) : Check Unit :=
  modify fun s =>
    { s with symbols := { s.symbols with globals := s.symbols.globals.merge scope } }

/-- Check an item and declare its name. Aliases and structs are resolved where they are used. -/
def checkItem (item : Item) : Check Unit :=
  match item.shape with
  | .function proto body => do
    let signature ← resolveSignature proto
    withFunction proto.name signature (inScope (paramScope proto signature) (checkSuite body))
    declareFunction proto.name signature
  | .external proto => do
    let signature ← resolveSignature proto
    declareFunction proto.name signature
  | .typeAlias _ _ | .struct _ => return
  | .statement stmt => do
    let (_, scope) ← withScope Table.empty (checkStmt stmt)
    declareGlobals scope

/-- A check that starts outside any item. -/
def CheckState.initial (types : TypeEnv) (symbols : Symbols) : CheckState :=
  ⟨Context.topLevel types symbols, 0, []⟩

end Offside
