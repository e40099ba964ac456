import Offside.Tree.Stmt

/-!
# Items

The constructs of the top level of a text.

## Main definitions

* `Offside.Prototype`: the name, parameters and result of a function.
* `Offside.StructDecl`: a struct as declared.
* `Offside.Item`: an item at its place.
-/

namespace Offside

/-- A name with the type that it is declared to have: a parameter of a function or a field of a
struct. -/
structure Binding where
  name : String
  type : TypeExpr
  deriving DecidableEq, Repr

/-- The name, parameters and result of a function. -/
structure Prototype where
  name : String
  params : List Binding
  result : TypeExpr
  location : Location
  deriving DecidableEq, Repr

/-- A struct as declared. -/
structure StructDecl where
  name : String
  fields : List Binding
  location : Location
  deriving DecidableEq, Repr

/-- The field of a given name. -/
def StructDecl.field? (decl : StructDecl) (name : String) : Option Binding :=
  decl.fields.find? fun field => field.name == name

/-- What an item is. The declaration of a struct stands in the type tables under its name. -/
inductive Item.Shape
  | function (proto : Prototype) (body : Suite)
  | external (proto : Prototype)
  | typeAlias (name : String) (target : TypeExpr)
  | struct (name : String)
  | statement (stmt : Stmt)
  deriving Repr

/-- A construct of the top level at its place. -/
structure Item where
  shape : Item.Shape
  location : Location
  deriving Repr

end Offside
