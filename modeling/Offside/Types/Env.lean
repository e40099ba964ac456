import Offside.Table
import Offside.Types.Resolved

/-!
# Type tables

The aliases and structs declared in a session, and the layouts computed so far. Declaring an alias
again replaces its target; a struct is declared once. Every table starts with the same aliases.

## Main definitions

* `Offside.TypeEnv`: the tables.
* `Offside.TypeEnv.declareAlias`, `Offside.TypeEnv.declareStruct`: declare a name.
* `Offside.TypeEnv.sizeOf`, `Offside.TypeEnv.alignOf`: size and alignment of a resolved type.
* `Offside.TypeEnv.describe`: the printed form of a resolved type.
-/

namespace Offside

/-- A declared struct, with the number of its layout once it has one. -/
structure StructEntry where
  decl : StructDecl
  layout : Option StructId
  deriving DecidableEq, Repr

/-- Aliases, structs and layouts. -/
structure TypeEnv where
  aliases : Table TypeExpr
  structs : Table StructEntry
  layouts : Array StructLayout
  deriving DecidableEq, Repr

namespace TypeEnv

/-- The size and alignment of a pointer. -/
def pointerSize : Nat := 8

/-- The aliases that every session starts with. -/
def defaultAliases : List (String × Builtin) :=
  [("int", .i32), ("char", .i8), ("float", .f32), ("double", .f64), ("long", .i64),
    ("size_t", .u64)]

/-- Tables that declare nothing. -/
def empty : TypeEnv := ⟨Table.empty, Table.empty, #[]⟩

/-- Declare an alias, or replace its target. -/
def declareAlias (env : TypeEnv) (name : String) (target : TypeExpr) : TypeEnv :=
  { env with aliases := env.aliases.insert name target }

/-- Tables that declare the default aliases only. -/
def initial : TypeEnv :=
  defaultAliases.foldl (fun env entry => env.declareAlias entry.1 (.builtin entry.2)) empty

instance : Inhabited TypeEnv := ⟨initial⟩

/-- The target of an alias. -/
def alias? (env : TypeEnv) (name : String) : Option TypeExpr := env.aliases.get? name

/-- Whether a struct is declared. -/
def hasStruct (env : TypeEnv) (name : String) : Bool := env.structs.contains name

/-- The declaration of a struct. -/
def structDecl? (env : TypeEnv) (name : String) : Option StructDecl :=
  (env.structs.get? name).map (·.decl)

/-- Declare a struct. A name declared before keeps its declaration. -/
def declareStruct (env : TypeEnv) (decl : StructDecl) : TypeEnv :=
  if env.hasStruct decl.name then env
  else { env with structs := env.structs.insert decl.name ⟨decl, none⟩ }

/-- The layout of a given number. -/
def layout (env : TypeEnv) (id : StructId) : StructLayout := env.layouts.getD id.index default

/-- The layout of a struct that has been resolved. -/
def layoutOf? (env : TypeEnv) (name : String) : Option StructLayout :=
  (env.structs.get? name).bind fun entry => entry.layout.map env.layout

/-- The size of a type, a number without a bound. In words of 64 bits sizes and offsets come out
modulo `2 ^ 64`, since every alignment divides that; those that fit in a word are the same. -/
def sizeOf (env : TypeEnv) : ResolvedType → Nat
  | .void => 0
  | .bool => 1
  | .int bits _ | .float bits => bits / 8
  | .pointer _ => pointerSize
  | .struct id => (env.layout id).size

/-- The alignment of a type. -/
def alignOf (env : TypeEnv) : ResolvedType → Nat
  | .struct id => (env.layout id).align
  | type => max (env.sizeOf type) 1

/-- The printed form of a type. -/
def describe (env : TypeEnv) : ResolvedType → String
  | .void => "void"
  | .bool => "bool"
  | .int bits true => s!"i{bits}"
  | .int bits false => s!"u{bits}"
  | .float bits => s!"f{bits}"
  | .pointer element => s!"ptr[{env.describe element}]"
  | .struct id => (env.layout id).name

@[simp] theorem alias?_declareAlias (env : TypeEnv) (name other : String) (target : TypeExpr) :
    (env.declareAlias name target).alias? other =
      if name = other then some target else env.alias? other :=
  Table.get?_insert _ _ _ _

@[simp] theorem structDecl?_declareAlias (env : TypeEnv) (name other : String)
    (target : TypeExpr) : (env.declareAlias name target).structDecl? other = env.structDecl? other :=
  rfl

end TypeEnv

end Offside
