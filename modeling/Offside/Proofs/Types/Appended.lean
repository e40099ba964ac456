import Offside.Proofs.Types.Layout

/-!
# What a resolution leaves untouched

A resolution gives numbers to structs and finishes their layouts long before it is known whether it
succeeds. All of this can be taken back by looking at numbers alone. A struct that had a number at
the start had a finished layout as well and is not laid out again, so every number that is given and
every layout that is written comes after those of before.

## Main definitions

* `Offside.TypeEnv.Rested`: tables between two resolutions.
* `Offside.TypeEnv.Appends`: tables with more layouts, for structs that had none.
* `Offside.TypeEnv.Restores`: tables in which everything is found as before.

## Main results

* `Offside.TypeEnv.Rested.appends_resolve`: a resolution that succeeds only appends layouts.
* `Offside.TypeEnv.Rested.restores_resolve`: one that fails takes back what it did.
* `Offside.TypeEnv.Rested.resolve_env_of_error`: then the tables are the same.
-/

namespace Offside

/-- A struct that may have been given a number, which is not below `mark`. -/
inductive StructEntry.Numbers (mark : Nat) : StructEntry → StructEntry → Prop
  | same (entry : StructEntry) : Numbers mark entry entry
  | new (decl : StructDecl) {id : StructId} (h : mark ≤ id.index) :
    Numbers mark ⟨decl, none⟩ ⟨decl, some id⟩

theorem StructEntry.Numbers.decl_eq {mark : Nat} {old new : StructEntry}
    (h : old.Numbers mark new) : new.decl = old.decl := by
  cases h <;> rfl

/-- Forgetting the numbers from `mark` on takes back what has been given. -/
theorem StructEntry.Numbers.rollback_eq {mark : Nat} {old new : StructEntry}
    (h : old.Numbers mark new) (below : ∀ id, old.layout = some id → id.index < mark) :
    new.rollback mark = old := by
  cases h with
  | same =>
    rw [rollback, if_neg]
    rw [Option.any_eq_true]
    rintro ⟨id, hid, hmark⟩
    have := below id hid
    simp only [decide_eq_true_eq] at hmark
    omega
  | new decl hmark =>
    rw [rollback, if_pos]
    simpa using hmark

namespace TypeEnv

variable {base env : TypeEnv} {root : TypeExpr} {mark : Nat} {name other : String} {id : StructId}
  {entry : StructEntry} {decl : StructDecl} {layout : StructLayout}

/-- Every struct with a number has a finished layout, as it is between two resolutions. -/
def Rested (env : TypeEnv) : Prop :=
  ∀ name id, env.idOf? name = some id →
    id.index < env.layouts.size ∧ (env.layout id).complete = true

/-- Entries of structs, some of which have been given numbers. -/
def EntriesAppend (mark : Nat) (old new : List (String × StructEntry)) : Prop :=
  List.Forall₂ (fun old new => new.1 = old.1 ∧ old.2.Numbers mark new.2) old new

/-- Tables with layouts after those of `base`, each for a struct that is reached from `root` and had
none. -/
structure Appends (base : TypeEnv) (root : TypeExpr) (env : TypeEnv) : Prop where
  aliases : env.aliases = base.aliases
  entries : EntriesAppend base.layouts.size base.structs.entries env.structs.entries
  layouts : base.layouts.toList <+: env.layouts.toList
  numbered : ∀ name id, env.idOf? name = some id → base.layouts.size ≤ id.index →
    id.index < env.layouts.size ∧ base.Reaches root (.named name) ∧
      ∃ decl, base.IsStruct name decl ∧ (env.layout id).name = decl.name
  owned : ∀ id, base.layouts.size ≤ id.index → id.index < env.layouts.size →
    ∃ name, env.idOf? name = some id

/-- Tables in which all that can be looked up is found as in `base`. -/
structure Restores (base env : TypeEnv) : Prop extends base.SameDecls env where
  idOf? : ∀ name, env.idOf? name = base.idOf? name
  layouts : env.layouts = base.layouts

/-! ### Entries -/

theorem entriesAppend_refl (entries : List (String × StructEntry)) :
    EntriesAppend mark entries entries := by
  induction entries with
  | nil => exact .nil
  | cons entry entries ih => exact .cons ⟨rfl, .same _⟩ ih

theorem EntriesAppend.find {old new : List (String × StructEntry)} (h : EntriesAppend mark old new)
    (name : String) : Option.Rel (StructEntry.Numbers mark) (Table.get?.find name old)
      (Table.get?.find name new) := by
  induction h with
  | nil => exact .none
  | @cons old new _ _ hentry _ ih =>
    obtain ⟨key, value⟩ := old
    obtain ⟨key', value'⟩ := new
    obtain ⟨rfl, hvalue⟩ := hentry
    rw [Table.get?.find, Table.get?.find]
    split
    · exact .some hvalue
    · exact ih

/-- A struct without a number is given one. -/
theorem EntriesAppend.place {old new : List (String × StructEntry)} (h : EntriesAppend mark old new)
    (hentry : Table.get?.find name new = some entry) (hnew : entry.layout = none)
    (hid : mark ≤ id.index) :
    EntriesAppend mark old (Table.insert.place name { entry with layout := some id } new) := by
  induction h with
  | nil => cases hentry
  | @cons old new olds news hhead hrest ih =>
    obtain ⟨key, value⟩ := old
    obtain ⟨key', value'⟩ := new
    obtain ⟨rfl, hvalue⟩ := hhead
    rw [Table.get?.find] at hentry
    rw [Table.insert.place]
    split at hentry
    · next hkey =>
      obtain rfl := Option.some.inj hentry
      rw [if_pos hkey]
      refine .cons ⟨hkey.symm, ?_⟩ hrest
      cases hvalue with
      | same =>
        obtain ⟨decl, layout⟩ := value
        obtain rfl : layout = none := hnew
        exact .new decl hid
      | new => cases hnew
    · next hkey =>
      rw [if_neg hkey]
      exact .cons ⟨rfl, hvalue⟩ (ih hentry)

/-! ### Tables with more layouts -/

theorem appends_refl (rested : base.Rested) (root : TypeExpr) : base.Appends root base := by
  refine ⟨rfl, entriesAppend_refl _, List.prefix_refl _, fun name id hid hmark => ?_,
    fun id hmark hid => ?_⟩
  · exact absurd (rested name id hid).1 (Nat.not_lt.2 hmark)
  · exact absurd hid (Nat.not_lt.2 hmark)

namespace Appends

variable (h : base.Appends root env)
include h

theorem sameDecls : base.SameDecls env := by
  refine ⟨h.aliases, ?_⟩
  rw [structDecls, structDecls]
  have hentries := h.entries
  generalize base.structs.entries = old at hentries
  generalize env.structs.entries = new at hentries
  induction hentries with
  | nil => rfl
  | cons hentry _ ih => rw [List.map_cons, List.map_cons, ih, hentry.1, hentry.2.decl_eq]

theorem size_le : base.layouts.size ≤ env.layouts.size := h.layouts.length_le

theorem layout_eq (hid : id.index < base.layouts.size) : env.layout id = base.layout id := by
  have hget : env.layouts[id.index]? = base.layouts[id.index]? := by
    rw [← Array.getElem?_toList, ← Array.getElem?_toList,
      List.prefix_iff_getElem?.1 h.layouts id.index hid, List.getElem?_eq_getElem]
  rw [TypeEnv.layout, TypeEnv.layout, Array.getD_eq_getD_getElem?, Array.getD_eq_getD_getElem?,
    hget]

theorem take_layouts : env.layouts.take base.layouts.size = base.layouts := by
  rw [← Array.toList_inj, Array.take_eq_extract, Array.toList_extract, List.extract_eq_take_drop]
  exact (List.prefix_iff_eq_take.1 h.layouts).symm

/-- The number of a struct is its old one, or a new one if it had none. -/
theorem idOf?_eq (name : String) : env.idOf? name = base.idOf? name ∨
    base.idOf? name = none ∧ ∃ id, env.idOf? name = some id ∧ base.layouts.size ≤ id.index := by
  have hfind := h.entries.find name
  rw [TypeEnv.idOf?, TypeEnv.idOf?, Table.get?, Table.get?]
  generalize Table.get?.find name base.structs.entries = old at hfind
  generalize Table.get?.find name env.structs.entries = new at hfind
  cases hfind with
  | none => exact .inl rfl
  | some hentry =>
    cases hentry with
    | same => exact .inl rfl
    | new decl hid => exact .inr ⟨rfl, _, rfl, hid⟩

theorem idOf?_of_some (hid : base.idOf? name = some id) : env.idOf? name = some id := by
  rcases h.idOf?_eq name with heq | ⟨hnone, -⟩
  · rwa [heq]
  · rw [hid] at hnone
    cases hnone

/-- A struct whose layout is not finished has a new number. -/
theorem size_le_of_unfinished (rested : base.Rested) (hid : env.idOf? name = some id)
    (hc : (env.layout id).complete = false) : base.layouts.size ≤ id.index := by
  rcases h.idOf?_eq name with heq | ⟨-, id', hid', hmark⟩
  · obtain ⟨hlt, hcomplete⟩ := rested name id (heq ▸ hid)
    rw [← h.layout_eq hlt, hc] at hcomplete
    cases hcomplete
  · obtain rfl : id = id' := Option.some.inj (hid.symm.trans hid')
    exact hmark

/-- A struct that is reached gets the next number. -/
theorem enroll (reaches : base.Reaches root (.named name)) (visible : base.alias? name = none)
    (hentry : env.structs.get? name = some entry) (hnew : entry.layout = none) :
    base.Appends root (env.enroll name entry) := by
  have hstruct : base.IsStruct name entry.decl :=
    ⟨visible, h.sameDecls.structDecl?_of_get? hentry⟩
  have hsize : (env.enroll name entry).layouts.size = env.layouts.size + 1 := Array.size_push _
  refine ⟨h.aliases, h.entries.place hentry hnew h.size_le, ?_, fun other id hid hmark => ?_,
    fun id hmark hlt => ?_⟩
  · rw [TypeEnv.enroll, Array.toList_push]
    exact h.layouts.trans (List.prefix_append _ _)
  · rw [idOf?_enroll] at hid
    split at hid
    · next he =>
      cases hid
      subst he
      rw [layout_enroll_self, hsize]
      exact ⟨Nat.lt_succ_self _, reaches, entry.decl, hstruct, rfl⟩
    · obtain ⟨hlt, hreaches, hdecl⟩ := h.numbered other id hid hmark
      rw [layout_enroll_of_lt hlt, hsize]
      exact ⟨Nat.lt_succ_of_lt hlt, hreaches, hdecl⟩
  · rw [hsize] at hlt
    rcases Nat.lt_succ_iff_lt_or_eq.1 hlt with hlt | heq
    · exact (h.owned id hmark hlt).imp fun _ hid => idOf?_enroll_of_some hentry hnew hid
    · exact ⟨name, by rw [idOf?_enroll, if_pos rfl, ← heq]⟩

/-- A new layout is finished. -/
theorem finish (hstruct : base.IsStruct name decl) (hid : env.idOf? name = some id)
    (hmark : base.layouts.size ≤ id.index) (hname : layout.name = decl.name) :
    base.Appends root (env.finish id layout) := by
  have hsize : (env.finish id layout).layouts.size = env.layouts.size :=
    Array.size_setIfInBounds
  obtain ⟨hlt, -, decl', hstruct', hnamed⟩ := h.numbered name id hid hmark
  obtain rfl := hstruct.unique hstruct'
  refine ⟨h.aliases, h.entries, ?_, fun other id' hid' hmark' => ?_, fun id' hmark' hlt' => ?_⟩
  · obtain ⟨new, hnew⟩ := h.layouts
    rw [TypeEnv.finish, Array.toList_setIfInBounds, ← hnew, List.set_append_right _ _ hmark]
    exact List.prefix_append _ _
  · obtain ⟨hlt', hreaches, decl', hstruct', hnamed'⟩ := h.numbered other id' hid' hmark'
    refine ⟨by rwa [hsize], hreaches, decl', hstruct', ?_⟩
    by_cases he : id' = id
    · subst he
      rw [layout_finish_self layout hlt', hname, ← hnamed, hnamed']
    · rw [layout_finish_of_ne he, hnamed']
  · rw [hsize] at hlt'
    exact h.owned id' hmark' hlt'

/-- Forgetting the new layouts takes back all that can be looked up. -/
theorem restores_rollback (rested : base.Rested) :
    base.Restores (env.rollback base.layouts.size) := by
  refine ⟨trans_of SameDecls h.sameDecls (env.sameDecls_rollback _), fun name => ?_,
    h.take_layouts⟩
  have hfind := h.entries.find name
  have hbelow (entry : StructEntry) (hentry : Table.get?.find name base.structs.entries = some entry)
      (id : StructId) (hid : entry.layout = some id) : id.index < base.layouts.size :=
    (rested name id (Option.bind_eq_some_iff.2 ⟨entry, hentry, hid⟩)).1
  rw [TypeEnv.idOf?, rollback, Table.get?_map, TypeEnv.idOf?, Table.get?, Table.get?]
  generalize Table.get?.find name base.structs.entries = old at hfind hbelow
  generalize Table.get?.find name env.structs.entries = new at hfind
  cases hfind with
  | none => rfl
  | some hentry => rw [Option.map_some, hentry.rollback_eq (hbelow _ rfl)]

/-- If all entries have old numbers, forgetting the new layouts gives the same tables. -/
theorem rollback_eq (below : ∀ entry ∈ base.structs.entries, ∀ id, entry.2.layout = some id →
    id.index < base.layouts.size) : env.rollback base.layouts.size = base := by
  have hentries : env.structs.map (StructEntry.rollback base.layouts.size) = base.structs := by
    have hentries := h.entries
    rw [Table.map, Table.mk.injEq]
    generalize base.structs.entries = old at hentries below
    generalize env.structs.entries = new at hentries
    induction hentries with
    | nil => rfl
    | @cons old new _ _ hentry _ ih =>
      obtain ⟨hhead, hrest⟩ := List.forall_mem_cons.1 below
      rw [List.map_cons, ih hrest, hentry.1, hentry.2.rollback_eq hhead]
  rw [rollback, hentries, h.take_layouts, h.aliases]

end Appends

namespace Restores

variable (h : base.Restores env)
include h

theorem layout_eq (id : StructId) : env.layout id = base.layout id := by
  rw [TypeEnv.layout, h.layouts, TypeEnv.layout]

theorem grows : base.Grows env :=
  ⟨h.toSameDecls, fun name _ hid => (h.idOf? name).trans hid, fun _ id _ _ => h.layout_eq id⟩

theorem sound {pending : List String} (sound : base.Sound pending) : env.Sound pending := by
  refine ⟨fun name decl hdecl => ?_, ?_, ?_, ?_, ?_, ?_⟩
  · rw [h.structDecl?] at hdecl
    exact sound.keyed name decl hdecl
  all_goals
    intro name id
    simp only [h.idOf?, h.layout_eq, h.layouts, h.alias?, h.structDecl?]
  · exact sound.valid name id
  · exact sound.named name id
  · exact sound.visible name id
  · exact fun decl hid hc hd => h.grows.laidOut (sound.laidOut name id decl hid hc hd)
  · exact sound.pending name id

end Restores

end TypeEnv

/-! ### The recursion -/

namespace ResolveState

variable {base : TypeEnv} {root : TypeExpr} {s t u : ResolveState} {name : String}
  {entry : StructEntry} {id : StructId} {decl : StructDecl} {layout : StructLayout}

/-- A resolution in progress that has only appended layouts. The structs that wait are reached. -/
structure Appends (base : TypeEnv) (root : TypeExpr) (s : ResolveState) : Prop where
  env : base.Appends root s.env
  waits : ∀ name ∈ s.waiting, base.Reaches root (.named name) ∧ base.alias? name = none

/-- A later state of such a resolution, in which structs have their numbers still. -/
structure Onward (base : TypeEnv) (root : TypeExpr) (s t : ResolveState) : Prop where
  appends : t.Appends base root
  keeps : ∀ name id, s.env.idOf? name = some id → t.env.idOf? name = some id

theorem Onward.refl (h : s.Appends base root) : Onward base root s s := ⟨h, fun _ _ hid => hid⟩

theorem Onward.trans (h : Onward base root s t) (k : Onward base root t u) : Onward base root s u :=
  ⟨k.appends, fun name id hid => k.keeps name id (h.keeps name id hid)⟩

theorem Appends.register (h : s.Appends base root) (reaches : base.Reaches root (.named name))
    (visible : base.alias? name = none) (hentry : s.env.structs.get? name = some entry)
    (hnew : entry.layout = none) :
    Onward base root s { s with env := s.env.enroll name entry } :=
  ⟨⟨h.env.enroll reaches visible hentry hnew, h.waits⟩,
    fun _ _ hid => TypeEnv.idOf?_enroll_of_some hentry hnew hid⟩

theorem Appends.await (h : s.Appends base root) (reaches : base.Reaches root (.named name))
    (visible : base.alias? name = none) :
    s.Onward base root { s with waiting := name :: s.waiting } :=
  ⟨⟨h.env, List.forall_mem_cons.2 ⟨⟨reaches, visible⟩, h.waits⟩⟩, fun _ _ hid => hid⟩

theorem Appends.complete (h : s.Appends base root) (hstruct : base.IsStruct name decl)
    (hid : s.env.idOf? name = some id) (hmark : base.layouts.size ≤ id.index)
    (hname : layout.name = decl.name) (notes : List Note) :
    Onward base root s { s with env := s.env.finish id layout, notes } :=
  ⟨⟨h.env.finish hstruct hid hmark hname, h.waits⟩, fun _ _ hid => hid⟩

end ResolveState

section

open ResolveState

/-- What is true after a part of a resolution, whether or not it succeeds; `Q` is true of its
result. -/
def StaysAppended {α : Type} (base : TypeEnv) (root : TypeExpr) (s : ResolveState) (x : Resolve α)
    (Q : α → TypeEnv → Prop) : Prop :=
  Yields s x (fun a t => Onward base root s t ∧ Q a t.env) fun _ t => base.Appends root t.env

variable {α β : Type} {base : TypeEnv} {root : TypeExpr} {s t : ResolveState} {x : Resolve α}
  {f : α → Resolve β} {Q : α → TypeEnv → Prop} {Q' : β → TypeEnv → Prop}

theorem stays_bind (hx : StaysAppended base root s x Q)
    (hf : ∀ a t, Onward base root s t → Q a t.env → StaysAppended base root t (f a) Q') :
    StaysAppended base root s (x >>= f) Q' := by
  refine yields_bind (hx.mono (fun a t ht => ?_) fun _ _ h => h)
  exact (hf a t ht.1 ht.2).mono (fun _ _ hu => ⟨ht.1.trans hu.1, hu.2⟩) fun _ _ h => h

theorem stays_pure {a : α} (h : s.Appends base root) (ha : Q a s.env) :
    StaysAppended base root s (pure a : Resolve α) Q := ⟨.refl h, ha⟩

theorem stays_throw (h : s.Appends base root) (e : TypeError) :
    StaysAppended base root s (throw e : Resolve α) Q := h.env

theorem stays_env {f : TypeEnv → Resolve α} (h : StaysAppended base root s (f s.env) Q) :
    StaysAppended base root s (Resolve.env >>= f) Q := h

theorem stays_get {f : ResolveState → Resolve α} (h : StaysAppended base root s (f s) Q) :
    StaysAppended base root s (get >>= f) Q := h

variable {structs aliases : List String} {behind : Bool}

/-- Resolving a type that is reached only appends layouts, and gives what the type denotes. -/
def TypeAppends (base : TypeEnv) (root : TypeExpr) (structs aliases : List String) (behind : Bool)
    (type : TypeExpr) : Prop :=
  ∀ s, s.Appends base root → base.Reaches root type →
    StaysAppended base root s (resolveType structs aliases behind type) fun r env =>
      env.Denotes type r

/-- So does resolving the name of a struct. -/
def StructAppends (base : TypeEnv) (root : TypeExpr) (structs : List String) (behind : Bool)
    (name : String) : Prop :=
  ∀ s, s.Appends base root → base.Reaches root (.named name) → base.alias? name = none →
    StaysAppended base root s (resolveStruct structs behind name) fun r env =>
      env.Denotes (.named name) r

/-- So does laying out the fields of a struct that has a new number. -/
def LayoutAppends (base : TypeEnv) (root : TypeExpr) (structs aliases : List String)
    (decl : StructDecl) (id : StructId) : Prop :=
  ∀ name s, s.Appends base root → base.IsStruct name decl → base.Reaches root (.named name) →
    s.env.idOf? name = some id → base.layouts.size ≤ id.index →
    StaysAppended base root s (layOut structs aliases decl id) fun r env =>
      env.Denotes (.named name) r

/-- So does laying out fields after others. -/
def FieldsAppend (base : TypeEnv) (root : TypeExpr) (structs aliases : List String)
    (fields : List Binding) (run : FieldRun) : Prop :=
  ∀ s, s.Appends base root → (∀ f ∈ fields, base.Reaches root f.type) →
    StaysAppended base root s (layFields structs aliases fields run) fun _ _ => True

theorem typeAppends_builtin (b : Builtin) :
    TypeAppends base root structs aliases behind (.builtin b) := by
  intro s hs _
  rw [resolveType]
  exact stays_pure hs (TypeEnv.denotes_builtin b)

theorem typeAppends_pointer {element : TypeExpr}
    (ih : TypeAppends base root structs aliases true element) :
    TypeAppends base root structs aliases behind (.pointer element) := by
  intro s hs reaches
  rw [resolveType]
  have helement := ih s hs (reaches.trans (TypeEnv.Leads.pointer _).reaches)
  exact stays_bind helement fun _ t ht hr => stays_pure ht.appends hr.pointer

theorem typeAppends_named {name : String}
    (ihAlias : ∀ target, name ∈ aliases →
      TypeAppends base root structs (aliases.erase name) behind target)
    (ihStruct : StructAppends base root structs behind name) :
    TypeAppends base root structs aliases behind (.named name) := by
  intro s hs reaches
  rw [resolveType]
  refine stays_env ?_
  rw [hs.env.sameDecls.alias?]
  split
  · next target known =>
    split
    · next hmem =>
      have htarget := ihAlias target hmem s hs (reaches.trans (TypeEnv.Leads.target known).reaches)
      refine htarget.mono (fun r t ht => ⟨ht.1, ht.2.target ?_⟩) fun _ _ h => h
      rw [ht.1.appends.env.sameDecls.alias?, known]
    · exact stays_throw hs _
  · next visible => exact ihStruct s hs reaches visible

/-- A struct is laid out under a new number, unless it has a finished layout. -/
theorem structAppends_of_layoutAppends (rested : base.Rested) {name : String}
    (ih : ∀ (env : TypeEnv) (entry : StructEntry), name ∈ structs → ∀ id,
      LayoutAppends base root (structs.erase name) env.aliases.names entry.decl id) :
    StructAppends base root structs behind name := by
  intro s hs reaches visible
  rw [resolveStruct]
  refine stays_env ?_
  split
  · exact stays_throw hs _
  · next entry hentry =>
    have hstruct : base.IsStruct name entry.decl :=
      ⟨visible, hs.env.sameDecls.structDecl?_of_get? hentry⟩
    have hid : s.env.idOf? name = entry.layout := by
      rw [TypeEnv.idOf?, hentry]
      rfl
    have hdenotes {id : StructId} (hlayout : entry.layout = some id) :
        s.env.Denotes (.named name) (.struct id) :=
      TypeEnv.denotes_struct ((hs.env.sameDecls.alias? name).trans visible) (hid.trans hlayout)
    have hnumber : (s.env.enroll name entry).idOf? name = some ⟨s.env.layouts.size⟩ :=
      TypeEnv.idOf?_enroll.trans (if_pos rfl)
    split
    · split
      · next hlayout => exact stays_pure hs (hdenotes hlayout)
      · next hnew =>
        have hregister := hs.register reaches visible hentry hnew
        have hawait := hregister.trans (hregister.appends.await reaches visible)
        exact ⟨hawait, TypeEnv.denotes_struct
          ((hawait.appends.env.sameDecls.alias? name).trans visible) hnumber⟩
    · split
      · next hmem =>
        split
        · next id hlayout =>
          split
          · exact stays_pure hs (hdenotes hlayout)
          · next hc =>
            exact ih s.env entry hmem id name s hs hstruct reaches (hid.trans hlayout)
              (hs.env.size_le_of_unfinished rested (hid.trans hlayout) (Bool.eq_false_iff.2 hc))
        · next hnew =>
          have hregister := hs.register reaches visible hentry hnew
          have hlay := ih s.env entry hmem ⟨s.env.layouts.size⟩ name _ hregister.appends hstruct
            reaches hnumber hs.env.size_le
          exact hlay.mono (fun _ _ ht => ⟨hregister.trans ht.1, ht.2⟩) fun _ _ h => h
      · exact stays_throw hs _

theorem layoutAppends_of_fieldsAppend {decl : StructDecl} {id : StructId}
    (ih : FieldsAppend base root structs aliases decl.fields .empty) :
    LayoutAppends base root structs aliases decl id := by
  intro name s hs hstruct reaches hid hmark
  rw [layOut]
  have hfields : ∀ f ∈ decl.fields, base.Reaches root f.type :=
    fun f hf => reaches.trans (TypeEnv.Leads.field hstruct hf).reaches
  refine stays_bind (ih s hs hfields) fun run t ht _ => ?_
  have hnumber := ht.keeps name id hid
  have hname : (run.layout decl.name).name = decl.name := rfl
  have hdone := ht.appends.complete hstruct hnumber hmark hname
    (.structLaidOut decl.name (run.layout decl.name).size (run.layout decl.name).align :: t.notes)
  exact ⟨hdone, TypeEnv.denotes_struct
    ((hdone.appends.env.sameDecls.alias? name).trans hstruct.1) hnumber⟩

theorem fieldsAppend_nil {run : FieldRun} : FieldsAppend base root structs aliases [] run := by
  intro s hs _
  rw [layFields]
  exact stays_pure hs trivial

theorem fieldsAppend_cons {field : Binding} {fields : List Binding} {run : FieldRun}
    (ihType : TypeAppends base root structs aliases false field.type)
    (ihFields : ∀ type env,
      FieldsAppend base root structs aliases fields (run.add env field.name type)) :
    FieldsAppend base root structs aliases (field :: fields) run := by
  intro s hs reaches
  rw [layFields]
  obtain ⟨hreach, hreaches⟩ := List.forall_mem_cons.1 reaches
  refine stays_bind (ihType s hs hreach) fun type t ht _ => ?_
  exact stays_env (ihFields type t.env t ht.appends hreaches)

private theorem appends_resolution (rested : base.Rested) :
    (∀ structs aliases behind type, TypeAppends base root structs aliases behind type) ∧
    (∀ structs behind name, StructAppends base root structs behind name) ∧
    (∀ structs aliases decl id, LayoutAppends base root structs aliases decl id) ∧
    ∀ structs aliases fields run, FieldsAppend base root structs aliases fields run := by
  apply resolveType.mutual_induct
  case case1 => exact fun _ _ _ b => typeAppends_builtin b
  case case2 => exact fun _ _ _ _ ih => typeAppends_pointer ih
  case case3 => exact fun _ _ _ _ ihAlias ihStruct => typeAppends_named ihAlias ihStruct
  case case4 => exact fun _ _ _ ih => structAppends_of_layoutAppends rested ih
  case case5 => exact fun _ _ _ _ ih => layoutAppends_of_fieldsAppend ih
  case case6 => exact fun _ _ _ => fieldsAppend_nil
  case case7 => exact fun _ _ _ _ _ ihType ihFields => fieldsAppend_cons ihType ihFields

theorem stays_layOutWaiting (rested : base.Rested) (fuel : Nat) (hs : s.Appends base root) :
    StaysAppended base root s (layOutWaiting fuel) fun _ _ => True := by
  induction fuel generalizing s with
  | zero => exact stays_pure hs trivial
  | succ fuel ih =>
    rw [layOutWaiting]
    refine stays_get ?_
    split
    · exact stays_pure hs trivial
    · next name rest hwaiting =>
      obtain ⟨⟨reaches, visible⟩, hrest⟩ := List.forall_mem_cons.1 (hwaiting ▸ hs.waits)
      have hset : StaysAppended base root s (set { s with waiting := rest } : Resolve PUnit)
          fun _ _ => True := ⟨⟨⟨hs.env, hrest⟩, fun _ _ hid => hid⟩, trivial⟩
      refine stays_bind hset fun _ t ht _ => ?_
      have hstruct := (appends_resolution rested).2.1 s.env.structs.names false name t ht.appends
        reaches visible
      exact stays_bind hstruct fun _ u hu _ => ih hu.appends

theorem stays_resolveAll (rested : base.Rested) (type : TypeExpr) :
    StaysAppended base type ⟨base, [], []⟩ (resolveAll type) fun r env => env.Denotes type r := by
  have hstart : ResolveState.Appends base type ⟨base, [], []⟩ :=
    ⟨TypeEnv.appends_refl rested type, List.forall_mem_nil _⟩
  have htype := (appends_resolution rested).1 base.structs.names base.aliases.names false type _
    hstart .refl
  refine stays_env (stays_bind htype fun r t ht hr => ?_)
  refine stays_bind (stays_layOutWaiting rested _ ht.appends) fun _ u hu _ => ?_
  have hsame : t.env.SameDecls u.env :=
    trans_of TypeEnv.SameDecls ht.appends.env.sameDecls.symm hu.appends.env.sameDecls
  exact stays_pure hu.appends (hr.later hsame hu.keeps)

end

namespace TypeEnv

variable {base : TypeEnv} {type : TypeExpr}

/-- A resolution that succeeds appends layouts, does nothing else to the tables, and gives what the
type denotes. -/
theorem Rested.appends_resolve (rested : base.Rested) {r : ResolvedType}
    (h : (base.resolve type).answer = .ok r) :
    base.Appends type (base.resolve type).env ∧ (base.resolve type).env.Denotes type r := by
  have hall := stays_resolveAll rested type
  rw [resolve] at h ⊢
  split at h
  · next hrun =>
    cases h
    exact ⟨(hall.ok hrun).1.appends.env, (hall.ok hrun).2⟩
  · cases h

/-- After a resolution that fails, all is found as before. -/
theorem Rested.restores_resolve (rested : base.Rested) {error : TypeError}
    (h : (base.resolve type).answer = .error error) : base.Restores (base.resolve type).env := by
  have hall := stays_resolveAll rested type
  rw [resolve] at h ⊢
  split at h
  · cases h
  · next hrun => exact (hall.error hrun).restores_rollback rested

/-- It leaves the same tables, if each of their entries has the number of a layout or none. -/
theorem Rested.resolve_env_of_error (rested : base.Rested)
    (below : ∀ entry ∈ base.structs.entries, ∀ id, entry.2.layout = some id →
      id.index < base.layouts.size) {error : TypeError}
    (h : (base.resolve type).answer = .error error) : (base.resolve type).env = base := by
  have hall := stays_resolveAll rested type
  rw [resolve] at h ⊢
  split at h
  · cases h
  · next hrun => exact (hall.error hrun).rollback_eq below

/-- Whether or not it succeeds, structs keep their numbers. -/
theorem Rested.idOf?_resolve (rested : base.Rested) (type : TypeExpr) {name : String}
    {id : StructId} (hid : base.idOf? name = some id) :
    (base.resolve type).env.idOf? name = some id := by
  cases h : (base.resolve type).answer with
  | ok r => exact (rested.appends_resolve h).1.idOf?_of_some hid
  | error e => rw [(rested.restores_resolve h).idOf?, hid]

end TypeEnv

end Offside
