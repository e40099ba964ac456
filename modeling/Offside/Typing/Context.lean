import Offside.Types.Env

/-!
# What names mean

The functions and globals that earlier items declared, and what an expression inside an item sees
of them: the scopes around it come first, and the function that is being checked hides an earlier
one of its name.

## Main definitions

* `Offside.Signature`: the resolved types of a function.
* `Offside.Symbols`: functions and globals of a session.
* `Offside.Context`: what an expression sees.
* `Offside.Context.lookup?`, `Offside.Context.signature?`: the meaning of a name.
-/

namespace Offside

/-- The resolved types of the parameters and of the result of a function. -/
structure Signature where
  params : List ResolvedType
  result : ResolvedType
  deriving DecidableEq, Repr

/-- The functions and globals that earlier items declared. -/
structure Symbols where
  functions : Table Signature
  globals : Table ResolvedType
  deriving DecidableEq, Repr

/-- No function and no global. -/
def Symbols.empty : Symbols := ⟨Table.empty, Table.empty⟩

instance : Inhabited Symbols := ⟨Symbols.empty⟩

/-- The variables of one scope. -/
abbrev Scope := Table ResolvedType

/-- What an expression sees. -/
structure Context where
  types : TypeEnv
  symbols : Symbols
  /-- The scopes around the expression, innermost first. -/
  scopes : List Scope
  /-- The function whose body is being checked. -/
  function : Option (String × Signature)
  deriving Repr

namespace Context

/-- What an expression outside any item sees. -/
def topLevel (types : TypeEnv) (symbols : Symbols) : Context := ⟨types, symbols, [], none⟩

/-- The type of a variable: that of the innermost scope that binds it, or of a global. -/
def lookup? (context : Context) (name : String) : Option ResolvedType :=
  (context.scopes.findSome? (·.get? name)).or (context.symbols.globals.get? name)

/-- The types of a function: those of the function being checked, or of an earlier one. -/
def signature? (context : Context) (name : String) : Option Signature :=
  match context.function with
  | some (current, signature) =>
    if current = name then some signature else context.symbols.functions.get? name
  | none => context.symbols.functions.get? name

end Context

end Offside
