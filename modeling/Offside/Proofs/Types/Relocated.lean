import Offside.Proofs.Tree.Erased
import Offside.Proofs.Tree.Relocated
import Offside.Proofs.Types.Declared

/-!
# Declarations at other places

Two sessions that read the same declarations at different places of their texts have the same
aliases and structs, but for the places of the structs. What both declared before they went apart
stands at the same places.

## Main definitions

* `Offside.TypeEnv.Relocated`: tables that declare the same, some structs at other places.
* `Offside.TypeEnv.relocate`: tables with all structs at other places, and the same layouts.

## Main results

* `Offside.TypeEnv.Relocated.declareAlias`, `Offside.TypeEnv.Relocated.declareStruct`: declaring the
  same in both.
-/

namespace Offside

/-- A name that is not bound yet is bound at the end. -/
theorem Table.entries_insert_of_get? {α : Type} {table : Table α} {name : String} {value : α}
    (h : table.get? name = none) :
    (table.insert name value).entries = table.entries ++ [(name, value)] := by
  obtain ⟨entries⟩ := table
  simp only [Table.insert, Table.get?] at h ⊢
  induction entries with
  | nil => rfl
  | cons entry entries ih =>
    obtain ⟨key, old⟩ := entry
    rw [Table.get?.find] at h
    split at h
    · cases h
    · next hk => rw [Table.insert.place, if_neg hk, ih h, List.cons_append]

namespace TypeEnv

/-- The same declarations at other places. -/
def relocateDecls (f : Location → Location) (decls : List (String × StructDecl)) :
    List (String × StructDecl) :=
  decls.map fun entry => (entry.1, entry.2.relocate f)

@[simp] theorem relocateDecls_nil (f : Location → Location) : relocateDecls f [] = [] := rfl

@[simp] theorem relocateDecls_down_zero (decls : List (String × StructDecl)) :
    relocateDecls (Location.down 0) decls = decls := List.map_id decls

/-- Tables that declare the same, where the structs declared after those in `before` stand at other
places. -/
structure Relocated (f : Location → Location) (before : List (String × StructDecl))
    (env env' : TypeEnv) : Prop where
  aliases : env'.aliases = env.aliases
  structDecls : ∃ new, env.structDecls = before ++ new ∧
    env'.structDecls = before ++ relocateDecls f new

variable {f : Location → Location} {before : List (String × StructDecl)} {env env' : TypeEnv}

theorem relocated_self (env : TypeEnv) : Relocated f env.structDecls env env :=
  ⟨rfl, [], by simp [relocateDecls]⟩

/-- The name and the fields of a declaration are the same everywhere. -/
theorem Relocated.structDecl? (h : Relocated f before env env') (name : String) :
    (env'.structDecl? name).map (fun decl => (decl.name, decl.fields)) =
      (env.structDecl? name).map fun decl => (decl.name, decl.fields) := by
  obtain ⟨new, hnew, hnew'⟩ := h.structDecls
  rw [structDecl?_eq, structDecl?_eq, hnew, hnew', ← Table.find_map, ← Table.find_map,
    List.map_append, List.map_append, relocateDecls, List.map_map]
  rfl

theorem Relocated.alias? (h : Relocated f before env env') (name : String) :
    env'.alias? name = env.alias? name := by
  rw [TypeEnv.alias?, h.aliases, TypeEnv.alias?]

theorem Relocated.hasStruct (h : Relocated f before env env') (name : String) :
    env'.hasStruct name = env.hasStruct name := by
  have hdecl := congrArg Option.isSome (h.structDecl? name)
  rwa [Option.isSome_map, Option.isSome_map, ← hasStruct_eq, ← hasStruct_eq] at hdecl

theorem Relocated.declareAlias (h : Relocated f before env env') (name : String)
    (target : TypeExpr) :
    Relocated f before (env.declareAlias name target) (env'.declareAlias name target) :=
  ⟨by rw [TypeEnv.declareAlias, TypeEnv.declareAlias, h.aliases], h.structDecls⟩

theorem structDecls_declareStruct {decl : StructDecl} (h : env.hasStruct decl.name = false) :
    (env.declareStruct decl).structDecls = env.structDecls ++ [(decl.name, decl)] := by
  have hnone : env.structs.get? decl.name = none := by
    rw [TypeEnv.hasStruct, Table.contains] at h
    simpa using h
  rw [TypeEnv.declareStruct, h, if_neg Bool.false_ne_true, TypeEnv.structDecls,
    Table.entries_insert_of_get? hnone, List.map_append, TypeEnv.structDecls]
  rfl

/-- No two structs have one name. -/
theorem nodup_declareStruct (nodup : (env.structDecls.map Prod.fst).Nodup) (decl : StructDecl) :
    ((env.declareStruct decl).structDecls.map Prod.fst).Nodup := by
  cases hused : env.hasStruct decl.name with
  | true => rwa [TypeEnv.declareStruct, if_pos hused]
  | false =>
    rw [structDecls_declareStruct hused, List.map_append]
    refine List.nodup_append.2 ⟨nodup, by simp, ?_⟩
    rintro name hold _ hmem rfl
    obtain rfl := List.mem_singleton.1 hmem
    have hsome := Table.isSome_find hold
    rw [← structDecl?_eq, ← hasStruct_eq, hused] at hsome
    cases hsome

theorem Relocated.declareStruct (h : Relocated f before env env') (decl : StructDecl) :
    Relocated f before (env.declareStruct decl) (env'.declareStruct (decl.relocate f)) := by
  have hsame : env'.hasStruct (decl.relocate f).name = env.hasStruct decl.name :=
    h.hasStruct decl.name
  cases hused : env.hasStruct decl.name with
  | true =>
    rw [hused] at hsame
    rw [TypeEnv.declareStruct, TypeEnv.declareStruct, if_pos hused, if_pos hsame]
    exact h
  | false =>
    rw [hused] at hsame
    refine ⟨?_, ?_⟩
    · rw [TypeEnv.declareStruct, TypeEnv.declareStruct, hused, hsame, if_neg Bool.false_ne_true,
        if_neg Bool.false_ne_true]
      exact h.aliases
    · obtain ⟨new, hnew, hnew'⟩ := h.structDecls
      refine ⟨new ++ [(decl.name, decl)], ?_, ?_⟩
      · rw [structDecls_declareStruct hused, hnew, List.append_assoc]
      · rw [structDecls_declareStruct hsame, hnew', List.append_assoc, relocateDecls, relocateDecls,
          List.map_append]
        rfl

/-- What has been laid out makes no difference. -/
theorem Relocated.congr {env₁ env₁' : TypeEnv} (h : Relocated f before env env')
    (same : env.SameDecls env₁) (same' : env'.SameDecls env₁') :
    Relocated f before env₁ env₁' := by
  refine ⟨by rw [same'.aliases, h.aliases, same.aliases], ?_⟩
  rw [same.structDecls, same'.structDecls]
  exact h.structDecls

end TypeEnv

/-! ### All structs at other places -/

/-- A declared struct at another place. -/
def StructEntry.relocate (f : Location → Location) (entry : StructEntry) : StructEntry :=
  { entry with decl := entry.decl.relocate f }

theorem Table.map_eq_self {α : Type} {f : α → α} (hf : ∀ a, f a = a) (table : Table α) :
    table.map f = table := by
  obtain ⟨entries⟩ := table
  simp [Table.map, hf]

namespace TypeEnv

/-- Tables with their structs at other places, and the same layouts. -/
def relocate (f : Location → Location) (env : TypeEnv) : TypeEnv :=
  { env with structs := env.structs.map (StructEntry.relocate f) }

variable (f : Location → Location)

@[simp] theorem relocate_id (env : TypeEnv) : env.relocate id = env := by
  rw [relocate, Table.map_eq_self (f := StructEntry.relocate id) fun _ => rfl]

theorem get?_structs_relocate (env : TypeEnv) (name : String) :
    (env.relocate f).structs.get? name = (env.structs.get? name).map (StructEntry.relocate f) :=
  Table.get?_map _ _ _

theorem relocated_relocate (env : TypeEnv) : Relocated f [] env (env.relocate f) := by
  refine ⟨rfl, env.structDecls, rfl, ?_⟩
  rw [List.nil_append, structDecls, relocate, structDecls, relocateDecls, Table.map, List.map_map,
    List.map_map]
  rfl

theorem relocate_declareAlias (env : TypeEnv) (name : String) (target : TypeExpr) :
    (env.declareAlias name target).relocate f = (env.relocate f).declareAlias name target := rfl

theorem relocate_declareStruct (env : TypeEnv) (decl : StructDecl) :
    (env.declareStruct decl).relocate f = (env.relocate f).declareStruct (decl.relocate f) := by
  have hname : (env.relocate f).hasStruct (decl.relocate f).name = env.hasStruct decl.name :=
    (env.relocated_relocate f).hasStruct decl.name
  rw [declareStruct, declareStruct, hname]
  split
  · rfl
  · rw [relocate, ← Table.insert_map]
    rfl

@[simp] theorem describe_relocate (env : TypeEnv) (type : ResolvedType) :
    (env.relocate f).describe type = env.describe type := by
  induction type with
  | pointer element ih => rw [describe, describe, ih]
  | int bits signed => cases signed <;> rfl
  | void | bool | float | struct => rfl

end TypeEnv

end Offside
