import Offside.Proofs.Types.Closed
import Offside.Proofs.Types.Relocated

/-!
# What a resolution does to tables

Whatever has been declared and resolved before, and even if an alias has taken the name of a struct
that is laid out, a resolution that fails leaves the very tables that it found. One that succeeds
leaves all that was there where it was, and appends a finished layout for every struct that it meets
for the first time.

## Main definitions

* `Offside.TypeEnv.Reachable`: tables after any calls.
* `Offside.TypeEnv.Extended`: tables with finished layouts after those of before.

## Main results

* `Offside.TypeEnv.Reachable.resolve_env`: what a resolution does to tables.
-/

namespace Offside

/-- A table that binds no name twice binds each name as its entry does. -/
theorem Table.find_of_mem {α : Type} {entries : List (String × α)}
    (nodup : (entries.map Prod.fst).Nodup) {entry : String × α} (h : entry ∈ entries) :
    Table.get?.find entry.1 entries = some entry.2 := by
  induction entries with
  | nil => cases h
  | cons head entries ih =>
    obtain ⟨hhead, hrest⟩ := List.nodup_cons.1 nodup
    rw [Table.get?.find]
    rcases List.mem_cons.1 h with rfl | hmem
    · rw [if_pos rfl]
    · rw [if_neg, ih hrest hmem]
      rintro heq
      exact hhead (heq ▸ List.mem_map_of_mem hmem)

theorem Table.mem_of_find {α : Type} {name : String} {value : α} {entries : List (String × α)}
    (h : Table.get?.find name entries = some value) : (name, value) ∈ entries := by
  induction entries with
  | nil => cases h
  | cons head entries ih =>
    rw [Table.get?.find] at h
    split at h
    · next hkey =>
      obtain rfl := Option.some.inj h
      exact hkey ▸ List.mem_cons_self
    · exact List.mem_cons_of_mem _ (ih h)

namespace TypeEnv

variable {env : TypeEnv}

/-- Tables after any calls since they were new. An alias may have been given another target, or the
name of a struct. -/
inductive Reachable : TypeEnv → Prop
  | empty : Reachable .empty
  | initial : Reachable .initial
  | call {env : TypeEnv} (h : Reachable env) (call : Call) : Reachable (call.run env)

/-- Later tables that declare the same. The layouts of before are the first ones and belong to the
same structs. The others are finished, and each belongs to a struct that `type` reaches and that had
none. -/
structure Extended (env : TypeEnv) (type : TypeExpr) (after : TypeEnv) : Prop
    extends env.SameDecls after where
  layouts : env.layouts.toList <+: after.layouts.toList
  numbers : ∀ name id, env.idOf? name = some id → after.idOf? name = some id
  given : ∀ name id, env.idOf? name = none → after.idOf? name = some id →
    env.layouts.size ≤ id.index ∧ id.index < after.layouts.size
  finished : ∀ id, env.layouts.size ≤ id.index → id.index < after.layouts.size →
    (after.layout id).complete = true ∧ ∃ name decl, env.IsStruct name decl ∧
      env.Reaches type (.named name) ∧ env.idOf? name = none ∧ after.idOf? name = some id ∧
      (after.layout id).name = name

/-- The structs are declared once each, under their own names. -/
structure Keyed (env : TypeEnv) : Prop where
  nodup : (env.structDecls.map Prod.fst).Nodup
  named : ∀ entry ∈ env.structDecls, entry.2.name = entry.1

theorem Keyed.congr {env' : TypeEnv} (keyed : env.Keyed)
    (same : env'.structDecls = env.structDecls) : env'.Keyed :=
  ⟨same ▸ keyed.nodup, same ▸ keyed.named⟩

theorem Keyed.declareStruct (keyed : env.Keyed) (decl : StructDecl) :
    (env.declareStruct decl).Keyed := by
  refine ⟨nodup_declareStruct keyed.nodup decl, ?_⟩
  cases hused : env.hasStruct decl.name with
  | true =>
    rw [TypeEnv.declareStruct, if_pos hused]
    exact keyed.named
  | false =>
    rw [structDecls_declareStruct hused]
    exact List.forall_mem_append.2 ⟨keyed.named, List.forall_mem_singleton.2 rfl⟩

theorem Keyed.nodup_names (keyed : env.Keyed) : env.structs.names.Nodup := by
  have := keyed.nodup
  rwa [structDecls, List.map_map] at this

theorem Keyed.decl_name (keyed : env.Keyed) {name : String} {decl : StructDecl}
    (h : env.structDecl? name = some decl) : decl.name = name := by
  rw [structDecl?_eq] at h
  exact keyed.named (name, decl) (Table.mem_of_find h)

theorem keyed_initial : initial.Keyed := ⟨List.nodup_nil, List.forall_mem_nil _⟩

namespace Reachable

theorem closed (reachable : env.Reachable) : env.Closed [] := by
  induction reachable with
  | empty => exact unresolved_empty.closed
  | initial => exact unresolved_initial.closed
  | call _ call ih =>
    cases call with
    | declareStruct decl => exact ih.declareStruct decl
    | declareAlias name target => exact ih.declareAlias name target
    | resolve type => exact (ih.resolve type).1
    | resolveStructId name =>
      rw [Call.run, env_resolveStructId]
      exact (ih.resolve _).1
    | reset => exact unresolved_initial.closed

theorem keyed (reachable : env.Reachable) : env.Keyed := by
  induction reachable with
  | empty => exact ⟨List.nodup_nil, List.forall_mem_nil _⟩
  | initial => exact keyed_initial
  | @call env _ call ih =>
    cases call with
    | declareStruct decl => exact ih.declareStruct decl
    | declareAlias name target => exact ih.congr rfl
    | resolve type => exact ih.congr (env.sameDecls_resolve type).structDecls
    | resolveStructId name =>
      rw [Call.run, env_resolveStructId]
      exact ih.congr (env.sameDecls_resolve _).structDecls
    | reset => exact keyed_initial

/-- No entry has the number of a layout that is not there. -/
theorem layouts_below (reachable : env.Reachable) : ∀ entry ∈ env.structs.entries, ∀ id,
    entry.2.layout = some id → id.index < env.layouts.size := by
  intro entry hentry id hid
  have hfind : env.structs.get? entry.1 = some entry.2 :=
    Table.find_of_mem reachable.keyed.nodup_names hentry
  exact reachable.closed.numbers entry.1 id (by rw [idOf?, hfind]; exact hid)

/-- If a type cannot be resolved, the tables are afterwards what they were before. If it can be, all
that was there is still there, and the layouts that are appended are finished and belong to structs
that the type reaches and that had none. -/
theorem resolve_env (reachable : env.Reachable) (type : TypeExpr) :
    (∀ error, (env.resolve type).answer = .error error → (env.resolve type).env = env) ∧
      ∀ r, (env.resolve type).answer = .ok r → env.Extended type (env.resolve type).env := by
  have rested := reachable.closed.rested
  refine ⟨fun error h => rested.resolve_env_of_error reachable.layouts_below h, fun r h => ?_⟩
  have happends := (rested.appends_resolve h).1
  have hclosed := (reachable.closed.resolve type).1
  refine ⟨happends.sameDecls, happends.layouts, fun _ _ => happends.idOf?_of_some,
    fun name id hnone hid => ?_, fun id hmark hlt => ?_⟩
  · rcases happends.idOf?_eq name with heq | ⟨-, id', hid', hmark⟩
    · rw [heq, hnone] at hid
      cases hid
    · obtain rfl : id = id' := Option.some.inj (hid.symm.trans hid')
      exact ⟨hmark, (happends.numbered name id hid hmark).1⟩
  · obtain ⟨name, hid⟩ := happends.owned id hmark hlt
    obtain ⟨-, hreaches, decl, hstruct, hname⟩ := happends.numbered name id hid hmark
    have hnone : env.idOf? name = none := by
      rcases happends.idOf?_eq name with heq | ⟨hnone, -⟩
      · rw [hid] at heq
        exact absurd (reachable.closed.numbers name id heq.symm) (Nat.not_lt.2 hmark)
      · exact hnone
    have hkey : decl.name = name := by
      have hfind := hstruct.2
      rw [structDecl?_eq] at hfind
      exact reachable.keyed.named (name, decl) (Table.mem_of_find hfind)
    exact ⟨(hclosed.finished hlt).2, name, decl, hstruct, hreaches, hnone, hid, hname.trans hkey⟩

end Reachable

/-- A struct that points to one that holds itself. -/
def holder : TypeEnv :=
  (initial.declareStruct ⟨"Holder", [⟨"p", .pointer (.named "Self")⟩], ⟨1, 1⟩⟩).declareStruct
    ⟨"Self", [⟨"next", .named "Self"⟩], ⟨3, 1⟩⟩

theorem Reachable.resolve_env_holder :
    holder.Reachable ∧ (holder.resolve (.named "Holder")).answer = .error (.recursiveStruct "Self") ∧
      (holder.resolve (.named "Holder")).env = holder ∧ linkedNodes.Reachable ∧
      (linkedNodes.resolve (.named "Node")).answer = .ok (.struct ⟨0⟩) ∧
      linkedNodes.Extended (.named "Node") (linkedNodes.resolve (.named "Node")).env := by
  have hholder : holder.Reachable :=
    .call (.call .initial (.declareStruct _)) (.declareStruct _)
  have hlinked : linkedNodes.Reachable :=
    .call (.call .initial (.declareAlias "NodePtr" _)) (.declareStruct _)
  have herror : (holder.resolve (.named "Holder")).answer = .error (.recursiveStruct "Self") := by
    cbv
  have hok : (linkedNodes.resolve (.named "Node")).answer = .ok (.struct ⟨0⟩) := by cbv
  exact ⟨hholder, herror, (hholder.resolve_env _).1 _ herror, hlinked, hok,
    (hlinked.resolve_env _).2 _ hok⟩

end TypeEnv

end Offside
