import Offside.Proofs.Types.Graph
import Offside.Types.Resolution

/-!
# Sizes and alignments that follow from the declarations

The size and the alignment of a type that is held by value follow from the declarations alone, by
laying the fields of a struct one after the other, each at the next multiple of its alignment. A
type has a size only if it holds no struct that holds itself.

## Main definitions

* `Offside.Extent`: a size with an alignment.
* `Offside.Placing`: where fields of given extents lie.
* `Offside.TypeEnv.HasExtent`: the extent of a type.

## Main results

* `Offside.TypeEnv.HasExtent.unique`: a type has at most one extent.
* `Offside.TypeEnv.HasExtent.not_holding`: a struct that holds itself has none.
-/

namespace Offside

open Relation

/-- How many bytes a builtin type takes. -/
def Builtin.size : Builtin → Nat
  | .void => 0
  | .i8 | .u8 => 1
  | .i16 | .u16 => 2
  | .i32 | .u32 | .f32 => 4
  | .i64 | .u64 | .f64 => 8

/-- A size with an alignment. -/
@[ext]
structure Extent where
  size : Nat
  align : Nat
  deriving DecidableEq, Repr

/-- The extent of a type of a given size that is not a struct. -/
def Extent.scalar (size : Nat) : Extent := ⟨size, max size 1⟩

/-- Fields that lie one after the other: their offsets, the end of the last one, and the largest
alignment. -/
@[ext]
structure Placing where
  offsets : List Nat
  stop : Nat
  align : Nat
  deriving DecidableEq, Repr

namespace Placing

/-- One more field, at the next multiple of its alignment. -/
def add (placing : Placing) (x : Extent) : Placing :=
  let offset := alignUp placing.stop x.align
  ⟨placing.offsets ++ [offset], offset + x.size, max placing.align x.align⟩

/-- Fields of the given extents. -/
def ofExtents (xs : List Extent) : Placing := xs.foldl add ⟨[], 0, 1⟩

/-- The extent of a struct with these fields. -/
def extent (placing : Placing) : Extent := ⟨alignUp placing.stop placing.align, placing.align⟩

end Placing

namespace TypeEnv

variable {env env' : TypeEnv} {t : TypeExpr} {x y : Extent} {name : String}

/-- The extent of a type that is held by value. -/
inductive HasExtent (env : TypeEnv) : TypeExpr → Extent → Prop
  | builtin (b : Builtin) : HasExtent env (.builtin b) (.scalar b.size)
  | pointer (element : TypeExpr) : HasExtent env (.pointer element) (.scalar pointerSize)
  | target {name : String} {target : TypeExpr} {x : Extent}
    (known : env.alias? name = some target) (h : HasExtent env target x) :
    HasExtent env (.named name) x
  | struct {name : String} {decl : StructDecl} (struct : env.IsStruct name decl)
    (extent : Binding → Extent) (h : ∀ f ∈ decl.fields, HasExtent env f.type (extent f)) :
    HasExtent env (.named name) (Placing.ofExtents (decl.fields.map extent)).extent

theorem IsStruct.unique {decl decl' : StructDecl} (h : env.IsStruct name decl)
    (h' : env.IsStruct name decl') : decl = decl' := by
  have := h.2.symm.trans h'.2
  exact Option.some.inj this

theorem IsStruct.not_target {decl : StructDecl} {target : TypeExpr} (h : env.IsStruct name decl) :
    env.alias? name ≠ some target := by
  rw [h.1]
  exact nofun

theorem HasExtent.unique (h : env.HasExtent t x) (h' : env.HasExtent t y) : x = y := by
  induction h generalizing y with
  | builtin b =>
    cases h'
    rfl
  | pointer element =>
    cases h'
    rfl
  | target known h ih =>
    cases h' with
    | target known' h' =>
      rw [known, Option.some.injEq] at known'
      exact ih (known' ▸ h')
    | struct struct => exact absurd known struct.not_target
  | struct struct extent h ih =>
    cases h' with
    | target known => exact absurd known struct.not_target
    | struct struct' extent' h' =>
      obtain rfl := struct.unique struct'
      have hsame : List.map extent _ = List.map extent' _ :=
        List.map_congr_left fun f hf => ih f hf (h' f hf)
      rw [hsame]

theorem SameDecls.hasExtent (h : env.SameDecls env') (ht : env.HasExtent t x) :
    env'.HasExtent t x := by
  induction ht with
  | builtin b => exact .builtin b
  | pointer element => exact .pointer element
  | target known _ ih => exact .target (by rw [h.alias?, known]) ih
  | struct struct extent _ ih => exact .struct (h.isStruct.2 struct) extent ih

/-- A type with an extent holds no infinite path of structs. -/
theorem HasExtent.acc (h : env.HasExtent t x) : Acc (fun b a => env.Holding a b) t := by
  induction h with
  | builtin b =>
    refine ⟨_, fun t ht => ?_⟩
    rcases ht with ht | ht <;> cases ht
  | pointer element =>
    refine ⟨_, fun t ht => ?_⟩
    rcases ht with ht | ht <;> cases ht
  | target known _ ih =>
    refine ⟨_, fun t ht => ?_⟩
    rcases ht with ht | ht
    · cases ht with
      | target known' =>
        rw [known, Option.some.injEq] at known'
        exact known' ▸ ih
    · cases ht with
      | field struct => exact absurd known struct.not_target
  | struct struct extent _ ih =>
    refine ⟨_, fun t ht => ?_⟩
    rcases ht with ht | ht
    · cases ht with
      | target known => exact absurd known struct.not_target
    · cases ht with
      | field struct' mem =>
        obtain rfl := struct.unique struct'
        exact ih _ mem

theorem HasExtent.not_holding (h : env.HasExtent (.named name) x) :
    ¬ TransGen env.Holding (.named name) (.named name) := not_transGen_of_acc h.acc

/-- The extents of several fields and of one more, chosen together. -/
theorem exists_extents_cons {field : Binding} {fields : List Binding} {extent : Binding → Extent}
    (hx : env.HasExtent field.type x) (h : ∀ f ∈ fields, env.HasExtent f.type (extent f)) :
    ∃ extent' : Binding → Extent, (∀ f ∈ field :: fields, env.HasExtent f.type (extent' f)) ∧
      (field :: fields).map extent' = x :: fields.map extent := by
  have hsame {f : Binding} (hf : f ∈ fields) (he : f = field) : extent f = x := by
    subst he
    exact (h f hf).unique hx
  classical
  refine ⟨fun f => if f = field then x else extent f, fun f hf => ?_, ?_⟩
  · by_cases he : f = field
    · simp only [if_pos he]
      rwa [he]
    · simp only [if_neg he]
      exact h f ((List.mem_cons.1 hf).resolve_left he)
  · rw [List.map_cons, if_pos rfl]
    refine congrArg _ (List.map_congr_left fun f hf => ?_)
    by_cases he : f = field
    · rw [if_pos he, hsame hf he]
    · rw [if_neg he]

/-! ### The extents that resolved types have -/

/-- The extent of a resolved type. -/
def extentOf (env : TypeEnv) (type : ResolvedType) : Extent := ⟨env.sizeOf type, env.alignOf type⟩

theorem extentOf_ofBuiltin (b : Builtin) : env.extentOf (.ofBuiltin b) = .scalar b.size := by
  cases b <;> rfl

theorem extentOf_pointer (element : ResolvedType) :
    env.extentOf (.pointer element) = .scalar pointerSize := rfl

end TypeEnv

/-- Where the fields of a run lie. -/
def FieldRun.placing (run : FieldRun) : Placing :=
  ⟨run.fields.map (·.offset), run.stop, run.align⟩

theorem FieldRun.placing_add (run : FieldRun) (env : TypeEnv) (name : String)
    (type : ResolvedType) : (run.add env name type).placing = run.placing.add (env.extentOf type) := by
  ext1
  · simp [placing, add, Placing.add, TypeEnv.extentOf]
  · rfl
  · rfl

end Offside
