import Offside.Proofs.Ensures
import Offside.Types.Resolution

/-!
# What is declared

Of the type tables, layouts and the numbers of structs come and go with resolution; the aliases
and the declarations of structs are what a text declares. Resolution leaves these alone.

## Main definitions

* `Offside.TypeEnv.structDecls`: the declared structs.
* `Offside.TypeEnv.SameDecls`: tables that declare the same aliases and structs.
* `Offside.TypeEnv.ResolveFrame`: relations between tables that allow what resolution does.

## Main results

* `Offside.TypeEnv.sameDecls_resolve`: resolution declares nothing.
-/

namespace Offside

/-- Replacing a value by one that looks the same to `f`. -/
theorem Table.map_insert {α β : Type} {table : Table α} {name : String} {old new : α}
    (f : α → β) (h : table.get? name = some old) (hf : f new = f old) :
    (table.insert name new).entries.map (fun entry => (entry.1, f entry.2)) =
      table.entries.map fun entry => (entry.1, f entry.2) := by
  obtain ⟨entries⟩ := table
  simp only [Table.insert, Table.get?] at h ⊢
  induction entries with
  | nil => cases h
  | cons entry entries ih =>
    obtain ⟨key, value⟩ := entry
    rw [Table.get?.find] at h
    rw [Table.insert.place]
    by_cases hk : key = name
    · rw [if_pos hk, Option.some.injEq] at h
      rw [if_pos hk, List.map_cons, List.map_cons, hk, hf, h]
    · rw [if_neg hk] at h
      rw [if_neg hk, List.map_cons, List.map_cons, ih h]

/-- Reading a table whose values have been replaced. -/
theorem Table.find_map {α β : Type} (f : α → β) (name : String) (entries : List (String × α)) :
    Table.get?.find name (entries.map fun entry => (entry.1, f entry.2)) =
      (Table.get?.find name entries).map f := by
  induction entries with
  | nil => rfl
  | cons entry entries ih =>
    obtain ⟨key, value⟩ := entry
    rw [List.map_cons, Table.get?.find, Table.get?.find]
    split
    · rfl
    · exact ih

/-- A name with an entry is bound. -/
theorem Table.isSome_find {α : Type} {name : String} {entries : List (String × α)}
    (h : name ∈ entries.map Prod.fst) : (Table.get?.find name entries).isSome := by
  induction entries with
  | nil => cases h
  | cons entry entries ih =>
    obtain ⟨key, value⟩ := entry
    rw [Table.get?.find]
    split
    · rfl
    · next hne => exact ih ((List.mem_cons.1 h).resolve_left (Ne.symm hne))

theorem Table.insert_of_get? {α : Type} {table : Table α} {name : String} {value : α}
    (h : table.get? name = some value) : table.insert name value = table := by
  have h := table.map_insert id h rfl
  simp only [id_eq, List.map_id'] at h
  cases table
  exact congrArg Table.mk h

namespace TypeEnv

/-- The declared structs, in order. -/
def structDecls (env : TypeEnv) : List (String × StructDecl) :=
  env.structs.entries.map fun entry => (entry.1, entry.2.decl)

/-- Tables that declare the same aliases, with the same targets, and the same structs. -/
structure SameDecls (env env' : TypeEnv) : Prop where
  aliases : env'.aliases = env.aliases
  structDecls : env'.structDecls = env.structDecls

instance : IsPreorder TypeEnv SameDecls where
  refl _ := ⟨rfl, rfl⟩
  trans _ _ _ h k := ⟨k.aliases.trans h.aliases, k.structDecls.trans h.structDecls⟩

theorem structDecl?_eq (env : TypeEnv) (name : String) :
    env.structDecl? name = Table.get?.find name env.structDecls :=
  (Table.find_map StructEntry.decl name env.structs.entries).symm

theorem hasStruct_eq (env : TypeEnv) (name : String) :
    env.hasStruct name = (env.structDecl? name).isSome := by
  rw [hasStruct, Table.contains, structDecl?, Option.isSome_map]

theorem SameDecls.structDecl? {env env' : TypeEnv} (h : env.SameDecls env') (name : String) :
    env'.structDecl? name = env.structDecl? name := by
  rw [structDecl?_eq, structDecl?_eq, h.structDecls]

theorem structDecl?_declareStruct {env : TypeEnv} {decl : StructDecl}
    (h : env.hasStruct decl.name = false) (name : String) :
    (env.declareStruct decl).structDecl? name =
      if decl.name = name then some decl else env.structDecl? name := by
  rw [declareStruct, h, if_neg Bool.false_ne_true, TypeEnv.structDecl?, Table.get?_insert]
  split <;> rfl

/-- Declaring an alias changes nothing only if it has this target already. -/
theorem sameDecls_declareAlias {env : TypeEnv} {name : String} {target : TypeExpr} :
    env.SameDecls (env.declareAlias name target) ↔ env.alias? name = some target := by
  constructor
  · intro h
    rw [alias?, ← h.aliases]
    exact Table.get?_insert_self _ _ _
  · intro h
    exact ⟨Table.insert_of_get? h, rfl⟩

end TypeEnv

/-! ### Resolution -/

/-- Resolutions in progress whose tables declare the same. -/
def ResolveState.SameDecls (s t : ResolveState) : Prop := s.env.SameDecls t.env

instance : IsPreorder ResolveState ResolveState.SameDecls where
  refl _ := refl_of TypeEnv.SameDecls _
  trans _ _ _ := trans_of TypeEnv.SameDecls

namespace Resolve

theorem ensures_env : Ensures ResolveState.SameDecls (fun _ => True) env :=
  fun s => ⟨refl s, trivial⟩

theorem ensuresAt_env {s : ResolveState} {α : Type} {R : ResolveState → ResolveState → Prop}
    {Q : α → Prop} {f : TypeEnv → Resolve α} (h : EnsuresAt s R Q (f s.env)) :
    EnsuresAt s R Q (env >>= f) := h

/-- A struct gets its number beside its declaration. -/
theorem ensuresAt_register {s : ResolveState} {name : String} {entry : StructEntry}
    (h : s.env.structs.get? name = some entry) :
    EnsuresAt s ResolveState.SameDecls (fun _ => True) (register name entry) :=
  ⟨⟨rfl, Table.map_insert StructEntry.decl h rfl⟩, trivial⟩

theorem ensures_await (name : String) :
    Ensures ResolveState.SameDecls (fun _ => True) (await name) :=
  ensures_modify fun _ => ⟨rfl, rfl⟩

theorem ensures_complete (name : String) (id : StructId) (layout : StructLayout) :
    Ensures ResolveState.SameDecls (fun _ => True) (complete name id layout) :=
  ensures_modify fun _ => ⟨rfl, rfl⟩

end Resolve

/-- Every function of the recursion declares nothing. -/
private theorem ensures_resolution :
    (∀ structs aliases behind type, Ensures ResolveState.SameDecls (fun _ => True)
      (resolveType structs aliases behind type)) ∧
    (∀ structs behind name, Ensures ResolveState.SameDecls (fun _ => True)
      (resolveStruct structs behind name)) ∧
    (∀ structs aliases decl id, Ensures ResolveState.SameDecls (fun _ => True)
      (layOut structs aliases decl id)) ∧
    ∀ structs aliases fields run, Ensures ResolveState.SameDecls (fun _ => True)
      (layFields structs aliases fields run) := by
  apply resolveType.mutual_induct
  case case1 =>
    intro structs aliases behind b
    rw [resolveType]
    exact ensures_pure trivial
  case case2 =>
    intro structs aliases behind element ih
    rw [resolveType]
    exact ensures_seq ih fun _ => ensures_pure trivial
  case case3 =>
    intro structs aliases behind name ihAlias ihStruct
    rw [resolveType]
    refine ensures_seq Resolve.ensures_env fun env => ?_
    split
    · split
      · exact ihAlias _ ‹_›
      · exact ensures_throw _
    · exact ihStruct
  case case4 =>
    intro structs behind name ih s
    rw [resolveStruct]
    refine Resolve.ensuresAt_env ?_
    split
    · exact ensures_throw _ s
    · next entry hentry =>
      have register := Resolve.ensuresAt_register hentry
      split
      · split
        · exact ensures_pure trivial s
        · refine register.bind fun id _ => ?_
          exact ensures_seq (Resolve.ensures_await name) fun _ => ensures_pure trivial
      · split
        · next hmem =>
          split
          · split
            · exact ensures_pure trivial s
            · exact ih _ _ hmem _ s
          · exact register.bind fun id _ => ih s.env entry hmem id
        · exact ensures_throw _ s
  case case5 =>
    intro structs aliases decl id ih
    rw [layOut]
    refine ensures_seq ih fun run => ?_
    exact ensures_seq (Resolve.ensures_complete _ _ _) fun _ => ensures_pure trivial
  case case6 =>
    intro structs aliases run
    rw [layFields]
    exact ensures_pure trivial
  case case7 =>
    intro structs aliases field fields run ihType ihFields
    rw [layFields]
    refine ensures_seq ihType fun type => ?_
    exact ensures_seq Resolve.ensures_env fun env => ihFields type env

private theorem ensures_layOutWaiting (fuel : Nat) :
    Ensures ResolveState.SameDecls (fun _ => True) (layOutWaiting fuel) := by
  induction fuel with
  | zero => exact ensures_pure trivial
  | succ fuel ih =>
    intro s
    rw [layOutWaiting]
    refine ensuresAt_get ?_
    split
    · exact ensures_pure trivial s
    · next name rest _ =>
      have hset : EnsuresAt s ResolveState.SameDecls (fun _ => True)
          (set { s with waiting := rest } : Resolve PUnit) := ⟨⟨rfl, rfl⟩, trivial⟩
      refine hset.bind fun _ _ => ?_
      exact ensures_seq (ensures_resolution.2.1 _ _ _) fun _ => ih

theorem StructEntry.decl_rollback (mark : Nat) (entry : StructEntry) :
    (entry.rollback mark).decl = entry.decl := by
  rw [rollback]
  split <;> rfl

/-- Forgetting layouts forgets no declaration. -/
theorem TypeEnv.sameDecls_rollback (env : TypeEnv) (mark : Nat) :
    env.SameDecls (env.rollback mark) := by
  refine ⟨rfl, ?_⟩
  rw [structDecls, rollback, Table.map, List.map_map, structDecls]
  exact List.map_congr_left fun entry _ => Prod.ext rfl (entry.2.decl_rollback mark)

/-- Resolving a type declares nothing, whether or not it succeeds. -/
theorem TypeEnv.sameDecls_resolve (env : TypeEnv) (type : TypeExpr) :
    env.SameDecls (env.resolve type).env := by
  have hall : Ensures ResolveState.SameDecls (fun _ => True) (resolveAll type) := by
    refine ensures_seq Resolve.ensures_env fun env => ?_
    refine ensures_seq (ensures_resolution.1 _ _ _ _) fun resolved => ?_
    exact ensures_seq (ensures_layOutWaiting _) fun _ => ensures_pure trivial
  rw [resolve]
  split
  · next h => exact ((hall _).ok h).1
  · next h => exact trans_of SameDecls ((hall _).error h) (sameDecls_rollback _ _)

/-- Relations between an earlier and a later table that allow what resolution does. -/
class TypeEnv.ResolveFrame (R : TypeEnv → TypeEnv → Prop) : Prop extends IsPreorder TypeEnv R where
  resolve (env : TypeEnv) (type : TypeExpr) : R env (env.resolve type).env

instance : TypeEnv.ResolveFrame TypeEnv.SameDecls where
  resolve := TypeEnv.sameDecls_resolve

end Offside
