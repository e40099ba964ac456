/-!
# Type expressions

Types as they are written: a builtin name, another name, or a pointer to a type. Names of aliases
and structs are looked up later.

## Main definitions

* `Offside.Builtin`: the builtin scalar types and `void`.
* `Offside.TypeExpr`: types as written.
* `Offside.TypeExpr.text`: their spelling.

## Main results

* `Offside.Builtin.ofName?_name`: a builtin type is found by its name.
-/

namespace Offside

/-- The builtin scalar types and `void`. -/
inductive Builtin
  | void | i8 | i16 | i32 | i64 | u8 | u16 | u32 | u64 | f32 | f64
  deriving DecidableEq, Repr

namespace Builtin

/-- Every builtin type. -/
def all : List Builtin := [void, i8, i16, i32, i64, u8, u16, u32, u64, f32, f64]

/-- The name of a builtin type. -/
def name : Builtin → String
  | void => "void"
  | i8 => "i8"
  | i16 => "i16"
  | i32 => "i32"
  | i64 => "i64"
  | u8 => "u8"
  | u16 => "u16"
  | u32 => "u32"
  | u64 => "u64"
  | f32 => "f32"
  | f64 => "f64"

/-- The builtin type with a given name. -/
def ofName? (name : String) : Option Builtin := all.find? fun builtin => builtin.name == name

theorem ofName?_name (builtin : Builtin) : ofName? builtin.name = some builtin := by
  cases builtin <;> decide

theorem name_of_ofName? {name : String} {builtin : Builtin} (h : ofName? name = some builtin) :
    builtin.name = name := by
  simpa using List.find?_some h

end Builtin

/-- A type as written. -/
inductive TypeExpr
  | builtin (builtin : Builtin)
  /-- A name that is not builtin: an alias or a struct. -/
  | named (name : String)
  | pointer (element : TypeExpr)
  deriving DecidableEq, Repr

namespace TypeExpr

/-- The type that a single name denotes. -/
def ofName (name : String) : TypeExpr :=
  match Builtin.ofName? name with
  | some b => .builtin b
  | none => .named name

/-- The spelling of a type. -/
def text : TypeExpr → String
  | builtin b => b.name
  | named name => name
  | pointer element => s!"ptr[{element.text}]"

end TypeExpr

end Offside
