import Offside.Tree.Item

/-!
# Resolved types and layouts

A resolved type has no aliases left; a struct in it is the number of a layout. Sizes and
alignments are in bytes, and they are numbers without a bound.

## Main definitions

* `Offside.ResolvedType`: types without names.
* `Offside.StructLayout`: where the fields of a struct lie.
* `Offside.alignUp`: the next multiple of an alignment.

## Main results

* `Offside.le_alignUp`, `Offside.dvd_alignUp`, `Offside.alignUp_le_of_dvd`: it is the least
  multiple that is not below.
-/

namespace Offside

/-- The number of a layout. -/
structure StructId where
  index : Nat
  deriving DecidableEq, Repr, Inhabited

/-- A type without aliases. -/
inductive ResolvedType
  | void
  /-- The type of comparisons and logical operators. -/
  | bool
  | int (bits : Nat) (signed : Bool)
  | float (bits : Nat)
  | pointer (element : ResolvedType)
  | struct (id : StructId)
  deriving DecidableEq, Repr, Inhabited

namespace ResolvedType

/-- The type of a builtin name. -/
def ofBuiltin : Builtin → ResolvedType
  | .void => void
  | .i8 => int 8 true
  | .i16 => int 16 true
  | .i32 => int 32 true
  | .i64 => int 64 true
  | .u8 => int 8 false
  | .u16 => int 16 false
  | .u32 => int 32 false
  | .u64 => int 64 false
  | .f32 => float 32
  | .f64 => float 64

/-- Integers and truth values. -/
def isIntegerLike : ResolvedType → Bool
  | int _ _ | bool => true
  | _ => false

/-- Floating-point types. -/
def isFloat : ResolvedType → Bool
  | float _ => true
  | _ => false

/-- Pointers. -/
def isPointer : ResolvedType → Bool
  | pointer _ => true
  | _ => false

end ResolvedType

/-- A field of a struct with its type and its offset. -/
structure LayoutField where
  name : String
  type : ResolvedType
  offset : Nat
  deriving DecidableEq, Repr, Inhabited

/-- Where the fields of a struct lie. A layout is complete unless its fields are still being laid
out. -/
structure StructLayout where
  name : String
  fields : List LayoutField
  size : Nat
  align : Nat
  complete : Bool
  deriving DecidableEq, Repr, Inhabited

namespace StructLayout

/-- The layout of a struct whose fields are still to be laid out. -/
def unfinished (name : String) : StructLayout := ⟨name, [], 0, 1, false⟩

/-- The field of a given name. -/
def field? (layout : StructLayout) (name : String) : Option LayoutField :=
  layout.fields.find? fun field => field.name == name

end StructLayout

/-- The least multiple of `align` that is not below `offset`. -/
def alignUp (offset align : Nat) : Nat :=
  if align ≤ 1 then offset else (offset + align - 1) / align * align

theorem le_alignUp (offset align : Nat) : offset ≤ alignUp offset align := by
  unfold alignUp
  split
  · exact Nat.le_refl _
  · have := Nat.lt_div_mul_add (a := offset + align - 1) (b := align) (by omega)
    omega

theorem dvd_alignUp (offset : Nat) {align : Nat} (h : 0 < align) : align ∣ alignUp offset align := by
  unfold alignUp
  split
  · have : align = 1 := by omega
    subst this
    exact Nat.one_dvd _
  · exact Nat.dvd_mul_left _ _

theorem alignUp_le_of_dvd {offset align bound : Nat} (h : align ∣ bound) (hb : offset ≤ bound) :
    alignUp offset align ≤ bound := by
  unfold alignUp
  split
  · exact hb
  · obtain ⟨k, rfl⟩ := h
    have : (offset + align - 1) / align ≤ k := by
      have : (offset + align - 1) / align < k + 1 := by
        rw [Nat.div_lt_iff_lt_mul (by omega), Nat.add_mul, Nat.mul_comm k]
        omega
      omega
    rw [Nat.mul_comm]
    exact Nat.mul_le_mul_left _ this

end Offside
