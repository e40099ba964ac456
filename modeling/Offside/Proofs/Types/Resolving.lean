import Offside.Proofs.Types.Appended

/-!
# What the recursion of resolution does

Resolving a type either lays out what it holds by value, gives a number to every struct that it
points to, and lets those wait, or it fails and blames a name that is a reason to fail. In both
cases the free names that it is given tell which aliases and structs are being entered: the others
lead to the type at hand.

## Main definitions

* `Offside.ResolveState.Sound`: a resolution in progress whose unfinished structs are being laid
  out or wait.
* `Offside.ResolveState.Progress`: what may change while a type is being resolved.
* `Offside.TypeEnv.FreeAliases`, `Offside.TypeEnv.FreeStructs`: names that are not free are being
  entered.

## Main results

* `Offside.yields_resolveType`, `Offside.yields_resolveStruct`: the outcomes of the recursion.
-/

namespace Offside

open Relation

namespace TypeEnv

variable {env : TypeEnv} {name other : String} {id : StructId} {entry : StructEntry}
  {layout : StructLayout} {pending : List String}

/-- How far the layout of a struct is: it has no number, or whether it is finished. -/
def status (env : TypeEnv) (name : String) : Option Bool :=
  (env.idOf? name).map fun id => (env.layout id).complete

/-- How many structs have no number. -/
def unnumbered (env : TypeEnv) : Nat := env.structs.entries.countP fun entry => entry.2.layout.isNone

theorem unnumbered_le (env : TypeEnv) : env.unnumbered ≤ env.structs.size := List.countP_le_length

theorem countP_place {entries : List (String × StructEntry)}
    (h : Table.get?.find name entries = some entry) (hnew : entry.layout = none) :
    (Table.insert.place name { entry with layout := some id } entries).countP
      (fun entry => entry.2.layout.isNone) + 1 =
        entries.countP fun entry => entry.2.layout.isNone := by
  induction entries with
  | nil => cases h
  | cons head entries ih =>
    obtain ⟨key, value⟩ := head
    rw [Table.get?.find] at h
    rw [Table.insert.place]
    by_cases hk : key = name
    · rw [if_pos hk, Option.some.injEq] at h
      subst h
      rw [if_pos hk, List.countP_cons, List.countP_cons]
      simp [hnew]
    · rw [if_neg hk] at h
      rw [if_neg hk, List.countP_cons, List.countP_cons, ← ih h]
      omega

theorem unnumbered_enroll (h : env.structs.get? name = some entry) (hnew : entry.layout = none) :
    (env.enroll name entry).unnumbered + 1 = env.unnumbered := countP_place h hnew

theorem Sound.status_enroll (sound : env.Sound pending) :
    (env.enroll name entry).status other = if name = other then some false else env.status other := by
  rw [status, idOf?_enroll]
  split
  · rw [Option.map_some, layout_enroll_self]
    rfl
  · rw [status]
    cases hid : env.idOf? other with
    | none => rfl
    | some id => rw [Option.map_some, Option.map_some, layout_enroll_of_lt (sound.valid other id hid)]

theorem Sound.status_finish (sound : env.Sound pending) (hid : env.idOf? name = some id)
    (hc : layout.complete = true) :
    (env.finish id layout).status other = if name = other then some true else env.status other := by
  rw [status, show (env.finish id layout).idOf? other = env.idOf? other from rfl]
  split
  · next he =>
    subst he
    rw [hid, Option.map_some, layout_finish_self _ (sound.valid name id hid), hc]
  · next hne =>
    rw [status]
    cases hid' : env.idOf? other with
    | none => rfl
    | some id' =>
      have hids : id' ≠ id := by
        rintro rfl
        exact hne (sound.idOf?_injective hid hid')
      rw [Option.map_some, Option.map_some, layout_finish_of_ne hids]

/-- The aliases that are not free are being expanded to the type. -/
def FreeAliases (env : TypeEnv) (aliases : List String) (type : TypeExpr) : Prop :=
  ∀ name target, env.alias? name = some target → name ∉ aliases →
    TransGen env.Expanding (.named name) type

/-- The structs that are not free hold the type by value. -/
def FreeStructs (env : TypeEnv) (structs : List String) (type : TypeExpr) : Prop :=
  ∀ name decl, env.IsStruct name decl → name ∉ structs → TransGen env.Holding (.named name) type

theorem FreeAliases.of_pointer {aliases : List String} {element : TypeExpr}
    (h : env.FreeAliases aliases (.pointer element)) : env.FreeAliases aliases element :=
  fun name target known hfree => (h name target known hfree).tail (.inr (.pointer element))

theorem FreeAliases.of_target {aliases : List String} {target : TypeExpr}
    (h : env.FreeAliases aliases (.named name)) (known : env.alias? name = some target) :
    env.FreeAliases (aliases.erase name) target := by
  intro other target' known' hfree
  by_cases he : other = name
  · subst he
    exact .single (.inl (.target known))
  · rw [List.mem_erase_of_ne he] at hfree
    exact (h other target' known' hfree).tail (.inl (.target known))

theorem FreeStructs.of_target {structs : List String} {target : TypeExpr}
    (h : env.FreeStructs structs (.named name)) (known : env.alias? name = some target) :
    env.FreeStructs structs target :=
  fun other decl hstruct hfree => (h other decl hstruct hfree).tail (.inl (.target known))

theorem FreeStructs.of_field {structs : List String} {decl : StructDecl} {field : Binding}
    (h : env.FreeStructs structs (.named name)) (hstruct : env.IsStruct name decl)
    (mem : field ∈ decl.fields) : env.FreeStructs (structs.erase name) field.type := by
  have hstep : env.Holding (.named name) field.type := .inr (.field hstruct mem)
  intro other decl' hstruct' hfree
  by_cases he : other = name
  · subst he
    exact .single hstep
  · rw [List.mem_erase_of_ne he] at hfree
    exact (h other decl' hstruct' hfree).tail hstep

/-- All names are free at the start. -/
theorem mem_names {α : Type} {table : Table α} {value : α} (h : table.get? name = some value) :
    name ∈ table.names := by
  obtain ⟨entries⟩ := table
  rw [Table.get?] at h
  rw [Table.names]
  induction entries with
  | nil => cases h
  | cons head entries ih =>
    rw [Table.get?.find] at h
    rw [List.map_cons, List.mem_cons]
    split at h
    · next he => exact .inl he.symm
    · exact .inr (ih h)

end TypeEnv

namespace ResolveState

variable {env : TypeEnv} {path : List String} {root root' : TypeExpr} {s t u : ResolveState}
  {name : String} {entry : StructEntry} {id : StructId} {decl : StructDecl} {layout : StructLayout}

/-- A resolution in progress: `env` declares what the tables declare, and the structs with an
unfinished layout are those in `path`, which are being laid out, or wait. -/
structure Sound (env : TypeEnv) (path : List String) (s : ResolveState) : Prop where
  decls : env.SameDecls s.env
  sound : s.env.Sound (path ++ s.waiting)
  visible : ∀ name ∈ s.waiting, env.alias? name = none

/-- What may change while `root` is being resolved: only structs that it reaches get numbers,
layouts or wait, and a struct that begins to wait gets a number. Those that waited before still do. -/
structure Progress (env : TypeEnv) (path : List String) (root : TypeExpr) (s t : ResolveState) :
    Prop where
  sound : t.Sound env path
  grows : s.env.Grows t.env
  waits : ∃ begun, t.waiting = begun ++ s.waiting ∧ ∀ name ∈ begun, env.Reaches root (.named name)
  status : ∀ name, ¬ env.Reaches root (.named name) → t.env.status name = s.env.status name
  budget : t.env.unnumbered + t.waiting.length ≤ s.env.unnumbered + s.waiting.length

theorem Sound.weaken (h : s.Sound env path) (name : String) : s.Sound env (name :: path) :=
  ⟨h.decls, h.sound.mono fun _ _ _ hmem => List.mem_cons_of_mem _ hmem, h.visible⟩

/-- A struct with a finished layout is not pending. -/
theorem Sound.drop (h : s.Sound env (name :: path)) (hid : s.env.idOf? name = some id)
    (hc : (s.env.layout id).complete = true) : s.Sound env path := by
  refine ⟨h.decls, ⟨h.sound.keyed, h.sound.valid, h.sound.named, h.sound.visible, h.sound.laidOut,
    fun other id' hid' hc' => ?_⟩, h.visible⟩
  have hmem := h.sound.pending other id' hid' hc'
  rw [List.cons_append, List.mem_cons] at hmem
  refine hmem.resolve_left ?_
  rintro rfl
  obtain rfl : id' = id := Option.some.inj (hid'.symm.trans hid)
  rw [hc] at hc'
  cases hc'

theorem Progress.refl (h : s.Sound env path) : Progress env path root s s :=
  ⟨h, refl_of TypeEnv.Grows _, ⟨[], rfl, fun _ h => absurd h List.not_mem_nil⟩, fun _ _ => rfl,
    Nat.le_refl _⟩

theorem Progress.trans {path' : List String} (h : Progress env path' root s t)
    (k : Progress env path root t u) : Progress env path root s u := by
  obtain ⟨first, hfirst, hreach⟩ := h.waits
  obtain ⟨second, hsecond, hreach'⟩ := k.waits
  refine ⟨k.sound, trans_of TypeEnv.Grows h.grows k.grows, ⟨second ++ first, ?_, fun name hname => ?_⟩,
    fun name hname => (k.status name hname).trans (h.status name hname), Nat.le_trans k.budget h.budget⟩
  · rw [hsecond, hfirst, List.append_assoc]
  · exact (List.mem_append.1 hname).elim (hreach' name) (hreach name)

/-- What a type does is done by every type that reaches it. -/
theorem Progress.of_reaches (reaches : env.Reaches root root') (h : Progress env path root' s t) :
    Progress env path root s t := by
  obtain ⟨begun, hbegun, hreach⟩ := h.waits
  exact ⟨h.sound, h.grows, ⟨begun, hbegun, fun name hname => reaches.trans (hreach name hname)⟩,
    fun name hname => h.status name fun hn => hname (reaches.trans hn), h.budget⟩

/-- If the structs that wait before are reached, so are those that wait after. -/
theorem Progress.waiting_reaches (h : Progress env path root s t) {other : String}
    (waits : ∀ name ∈ s.waiting, env.Reaches root (.named name)) (hother : other ∈ t.waiting) :
    env.Reaches root (.named other) := by
  obtain ⟨begun, hbegun, hreach⟩ := h.waits
  rw [hbegun] at hother
  exact (List.mem_append.1 hother).elim (hreach other) (waits other)

/-! ### The steps -/

theorem Sound.register (h : s.Sound env (name :: path)) (visible : env.alias? name = none)
    (hentry : s.env.structs.get? name = some entry) (hnew : entry.layout = none) :
    Progress env (name :: path) (.named name) s { s with env := s.env.enroll name entry } := by
  have hgrows := h.sound.grows_enroll hentry hnew
  refine ⟨⟨trans_of TypeEnv.SameDecls h.decls hgrows.toSameDecls,
    (h.sound.enroll hentry hnew (by rw [h.decls.alias?, visible])).mono fun other _ _ hmem => ?_,
    h.visible⟩, hgrows, ⟨[], rfl, fun _ h => absurd h List.not_mem_nil⟩, fun other hother => ?_, ?_⟩
  · simpa using hmem
  · rw [h.sound.status_enroll, if_neg]
    rintro rfl
    exact hother .refl
  · have := TypeEnv.unnumbered_enroll hentry hnew
    dsimp only
    omega

theorem Sound.await (h : s.Sound env path) (visible : env.alias? name = none)
    (hentry : s.env.structs.get? name = some entry) (hnew : entry.layout = none) :
    Progress env path (.named name) s
      { s with env := s.env.enroll name entry, waiting := name :: s.waiting } := by
  have hregister := (h.weaken name).register visible hentry hnew
  refine ⟨⟨hregister.sound.decls, hregister.sound.sound.mono fun other _ _ hmem => ?_,
    fun other hother => ?_⟩, hregister.grows, ⟨[name], rfl, fun other hother => ?_⟩,
    hregister.status, ?_⟩
  · simpa [List.mem_append, or_left_comm] using hmem
  · rcases List.mem_cons.1 hother with rfl | hold
    · exact visible
    · exact h.visible other hold
  · rw [List.mem_singleton.1 hother]
    exact .refl
  · have := TypeEnv.unnumbered_enroll hentry hnew
    rw [List.length_cons]
    dsimp only
    omega

theorem Sound.complete (h : s.Sound env (name :: path)) (hstruct : env.IsStruct name decl)
    (hid : s.env.idOf? name = some id) (hl : s.env.LaidOut decl layout) (notes : List Note) :
    Progress env path (.named name) s { s with env := s.env.finish id layout, notes } := by
  have hdecl : s.env.structDecl? name = some decl := by rw [h.decls.structDecl?, hstruct.2]
  have hgrows := h.sound.grows_finish hid hdecl hl
  refine ⟨⟨trans_of TypeEnv.SameDecls h.decls hgrows.toSameDecls,
    (h.sound.finish hid hdecl hl).mono fun other _ _ hmem => ?_, h.visible⟩, hgrows,
    ⟨[], rfl, fun _ h => absurd h List.not_mem_nil⟩, fun other hother => ?_, Nat.le_refl _⟩
  · obtain ⟨hmem, hne⟩ := List.mem_filter.1 hmem
    rw [List.cons_append, List.mem_cons] at hmem
    exact hmem.resolve_left (by simpa using hne)
  · rw [h.sound.status_finish hid hl.complete, if_neg]
    rintro rfl
    exact hother .refl

end ResolveState

/-! ### The recursion -/

section

variable {env : TypeEnv}

/-- What a type has been resolved to: what it denotes, which has an extent if it is held by
value. -/
structure Resolved (env : TypeEnv) (behind : Bool) (type : TypeExpr) (r : ResolvedType)
    (t : ResolveState) : Prop where
  denotes : t.env.Denotes type r
  extent : behind = false → env.HasExtent type (t.env.extentOf r)

theorem Resolve.yields_env {α : Type} {s : ResolveState} {f : TypeEnv → Resolve α}
    {ok : α → ResolveState → Prop} {bad : TypeError → ResolveState → Prop}
    (h : Yields s (f s.env) ok bad) : Yields s (Resolve.env >>= f) ok bad := h

/-- The outcomes of resolving a type, by value or behind a pointer. -/
def ResolvesType (env : TypeEnv) (structs aliases : List String) (behind : Bool)
    (type : TypeExpr) : Prop :=
  ∀ path s, s.Sound env path → env.FreeAliases aliases type →
    (behind = false → env.FreeStructs structs type) →
    Yields s (resolveType structs aliases behind type)
      (fun r t => s.Progress env path type t ∧ Resolved env behind type r t)
      fun e _ => env.Culprit type e

/-- The outcomes of resolving the name of a struct; by value it may be pending. -/
def ResolvesStruct (env : TypeEnv) (structs : List String) (behind : Bool) (name : String) : Prop :=
  ∀ path s, s.Sound env (if behind then path else name :: path) → env.alias? name = none →
    (behind = false → env.FreeStructs structs (.named name)) →
    Yields s (resolveStruct structs behind name)
      (fun r t => s.Progress env path (.named name) t ∧ Resolved env behind (.named name) r t)
      fun e _ => env.Culprit (.named name) e

/-- The outcomes of laying out the fields of a struct that has a number. -/
def LaysOut (env : TypeEnv) (structs aliases : List String) (decl : StructDecl) (id : StructId) :
    Prop :=
  ∀ path s, s.Sound env (decl.name :: path) → env.IsStruct decl.name decl →
    s.env.idOf? decl.name = some id → (∀ f ∈ decl.fields, env.FreeAliases aliases f.type) →
    (∀ f ∈ decl.fields, env.FreeStructs structs f.type) →
    Yields s (layOut structs aliases decl id)
      (fun r t => s.Progress env path (.named decl.name) t ∧
        Resolved env false (.named decl.name) r t)
      fun e _ => env.Culprit (.named decl.name) e

/-- The outcomes of laying out fields after others. -/
def LaysFields (env : TypeEnv) (structs aliases : List String) (fields : List Binding)
    (run : FieldRun) : Prop :=
  ∀ path root s, s.Sound env path → (∀ f ∈ fields, env.Reaches root f.type) →
    (∀ f ∈ fields, env.FreeAliases aliases f.type) →
    (∀ f ∈ fields, env.FreeStructs structs f.type) →
    Yields s (layFields structs aliases fields run)
      (fun run' t => s.Progress env path root t ∧
        (∃ placed, run'.fields = run.fields ++ placed ∧
          List.Forall₂ (fun field place => place.name = field.name ∧
            t.env.Denotes field.type place.type) fields placed) ∧
        ∃ extent : Binding → Extent, (∀ f ∈ fields, env.HasExtent f.type (extent f)) ∧
          run'.placing = (fields.map extent).foldl Placing.add run.placing)
      fun e _ => env.Culprit root e

variable {structs aliases : List String} {behind : Bool}

/-! ### One step of resolution -/

theorem resolvesType_builtin (b : Builtin) : ResolvesType env structs aliases behind (.builtin b) := by
  intro path s hs _ _
  rw [resolveType]
  refine ⟨.refl hs, TypeEnv.denotes_builtin b, fun _ => ?_⟩
  rw [TypeEnv.extentOf_ofBuiltin]
  exact .builtin b

theorem resolvesType_pointer {element : TypeExpr}
    (ih : ResolvesType env structs aliases true element) :
    ResolvesType env structs aliases behind (.pointer element) := by
  intro path s hs haliases _
  rw [resolveType]
  have hreaches : env.Reaches (.pointer element) element := (TypeEnv.Leads.pointer _).reaches
  refine yields_bind ((ih path s hs haliases.of_pointer fun hb => Bool.noConfusion hb).mono ?_ ?_)
  · rintro r t ⟨hprogress, hr⟩
    refine ⟨hprogress.of_reaches hreaches, hr.denotes.pointer, fun _ => ?_⟩
    rw [TypeEnv.extentOf_pointer]
    exact .pointer element
  · exact fun e t he => he.of_reaches hreaches

/-- A name means what the target of its alias means, or a struct. -/
theorem resolvesType_named {name : String}
    (ihAlias : ∀ target, name ∈ aliases →
      ResolvesType env structs (aliases.erase name) behind target)
    (ihStruct : ResolvesStruct env structs behind name) :
    ResolvesType env structs aliases behind (.named name) := by
  intro path s hs haliases hstructs
  rw [resolveType]
  refine Resolve.yields_env ?_
  rw [hs.decls.alias?]
  split
  · next target known =>
    split
    · next hmem =>
      have hreaches : env.Reaches (.named name) target := (TypeEnv.Leads.target known).reaches
      refine (ihAlias target hmem path s hs (haliases.of_target known)
        fun hb => (hstructs hb).of_target known).mono ?_ ?_
      · rintro r t ⟨hprogress, hr⟩
        exact ⟨hprogress.of_reaches hreaches,
          hr.denotes.target (by rw [hprogress.sound.decls.alias?, known]),
          fun hb => .target known (hr.extent hb)⟩
      · exact fun e t he => he.of_reaches hreaches
    · next hmem => exact ⟨.refl, ⟨target, known⟩, haliases name target known hmem⟩
  · next unknown =>
    refine ihStruct path s ?_ unknown hstructs
    cases behind with
    | true => exact hs
    | false => exact hs.weaken name

/-- A struct is laid out unless it has been, or has only to be known by its number. -/
theorem resolvesStruct_of_laysOut {name : String}
    (ih : ∀ (env' : TypeEnv) (entry : StructEntry), name ∈ structs → ∀ id,
      LaysOut env (structs.erase name) env'.aliases.names entry.decl id) :
    ResolvesStruct env structs behind name := by
  intro path s hs visible hstructs
  rw [resolveStruct]
  refine Resolve.yields_env ?_
  split
  · next hnone =>
    refine ⟨.refl, visible, ?_⟩
    rw [← hs.decls.structDecl?, TypeEnv.structDecl?, hnone]
    rfl
  · next entry hentry =>
    have hdecl := hs.decls.structDecl?_of_get? hentry
    have hid : s.env.idOf? name = entry.layout := by
      rw [TypeEnv.idOf?, hentry]
      rfl
    have hvisible : s.env.alias? name = none := by rw [hs.decls.alias?, visible]
    have hstruct : env.IsStruct name entry.decl := ⟨visible, hdecl⟩
    have hkey : entry.decl.name = name :=
      hs.sound.keyed name entry.decl (TypeEnv.structDecl?_of_get? hentry)
    cases behind with
    | true =>
      have hs : s.Sound env path := hs
      rw [if_pos rfl]
      cases hlayout : entry.layout with
      | some id =>
        exact ⟨.refl hs, TypeEnv.denotes_struct hvisible (hid.trans hlayout),
          fun hb => Bool.noConfusion hb⟩
      | none =>
        have hawait := hs.await visible hentry hlayout
        exact ⟨hawait, TypeEnv.denotes_struct ((hawait.sound.decls.alias? name).trans visible)
          (TypeEnv.idOf?_enroll.trans (if_pos rfl)), fun hb => Bool.noConfusion hb⟩
    | false =>
      have hs : s.Sound env (name :: path) := hs
      -- The fields are laid out with all aliases free, and without the struct itself.
      have hlay (id : StructId) (hmem : name ∈ structs) {t : ResolveState}
          (hprogress : s.Progress env (name :: path) (.named name) t)
          (hnumber : t.env.idOf? name = some id) :
          Yields t (layOut (structs.erase name) s.env.aliases.names entry.decl id)
            (fun r u => s.Progress env path (.named name) u ∧
              Resolved env false (.named name) r u)
            fun e _ => env.Culprit (.named name) e := by
        have hfields := ih s.env entry hmem id path t
        rw [hkey] at hfields
        refine (hfields hprogress.sound hstruct hnumber ?_ ?_).mono ?_ fun e u he => he
        · intro f hf other target known hfree
          have hknown : s.env.alias? other = some target := (hs.decls.alias? other).trans known
          exact absurd (TypeEnv.mem_names hknown) hfree
        · exact fun f hf => (hstructs rfl).of_field hstruct hf
        · exact fun r u hu => ⟨hprogress.trans hu.1, hu.2⟩
      rw [if_neg Bool.false_ne_true]
      split
      · next hmem =>
        cases hlayout : entry.layout with
        | some id =>
          have hnumber := hid.trans hlayout
          dsimp only
          split
          · next hcomplete =>
            have hextent := hs.sound.hasExtent hnumber hcomplete
              (TypeEnv.structDecl?_of_get? hentry)
            exact ⟨.refl (hs.drop hnumber hcomplete), TypeEnv.denotes_struct hvisible hnumber,
              fun _ => hs.decls.symm.hasExtent hextent⟩
          · exact hlay id hmem (.refl hs) hnumber
        | none =>
          exact hlay _ hmem (hs.register visible hentry hlayout)
            (TypeEnv.idOf?_enroll.trans (if_pos rfl))
      · next hmem =>
        exact ⟨.refl, ⟨entry.decl, hstruct⟩, hstructs rfl name entry.decl hstruct hmem⟩

/-- The layout of a struct is that of its fields. -/
theorem laysOut_of_laysFields {decl : StructDecl} {id : StructId}
    (ih : LaysFields env structs aliases decl.fields .empty) :
    LaysOut env structs aliases decl id := by
  intro path s hs hstruct hid haliases hfields
  rw [layOut]
  have hreaches : ∀ f ∈ decl.fields, env.Reaches (.named decl.name) f.type :=
    fun f hf => (TypeEnv.Leads.field hstruct hf).reaches
  refine yields_bind ((ih (decl.name :: path) _ s hs hreaches haliases hfields).mono ?_
    fun e t he => he)
  rintro run t ⟨hprogress, ⟨placed, hplaced, hfit⟩, extent, hextent, hplacing⟩
  have hnumber := hprogress.grows.idOf? _ _ hid
  have hdecls := hprogress.sound.decls
  have hplacing : run.placing = Placing.ofExtents (decl.fields.map extent) := hplacing
  have hlaid : t.env.LaidOut decl (run.layout decl.name) := by
    refine ⟨rfl, rfl, ?_, extent, fun f hf => hdecls.hasExtent (hextent f hf), ?_, ?_⟩
    · rw [FieldRun.layout, hplaced]
      exact hfit
    · rw [← hplacing]
      rfl
    · rw [← hplacing]
      rfl
  have hdone := hprogress.sound.complete hstruct hnumber hlaid
    (.structLaidOut decl.name (run.layout decl.name).size (run.layout decl.name).align :: t.notes)
  have hself := TypeEnv.layout_finish_self (run.layout decl.name)
    (hprogress.sound.sound.valid _ _ hnumber)
  refine ⟨hprogress.trans hdone, TypeEnv.denotes_struct
    ((hdone.sound.decls.alias? decl.name).trans hstruct.1) hnumber, fun _ => ?_⟩
  refine hdone.sound.decls.symm.hasExtent (hdone.sound.sound.hasExtent hnumber ?_
    ((hdone.sound.decls.structDecl? decl.name).trans hstruct.2))
  rw [hself]
  rfl

theorem laysFields_nil {run : FieldRun} : LaysFields env structs aliases [] run := by
  intro path root s hs _ _ _
  rw [layFields]
  refine ⟨.refl hs, ⟨[], (List.append_nil _).symm, .nil⟩, fun _ => ⟨0, 1⟩, ?_, rfl⟩
  exact fun f hf => absurd hf List.not_mem_nil

/-- A field is placed after those before it. -/
theorem laysFields_cons {field : Binding} {fields : List Binding} {run : FieldRun}
    (ihType : ResolvesType env structs aliases false field.type)
    (ihFields : ∀ type env', LaysFields env structs aliases fields (run.add env' field.name type)) :
    LaysFields env structs aliases (field :: fields) run := by
  intro path root s hs hreaches haliases hstructs
  rw [layFields]
  obtain ⟨hreach, hreaches⟩ := List.forall_mem_cons.1 hreaches
  obtain ⟨halias, haliases⟩ := List.forall_mem_cons.1 haliases
  obtain ⟨hstruct, hstructs⟩ := List.forall_mem_cons.1 hstructs
  refine yields_bind ((ihType path s hs halias fun _ => hstruct).mono ?_
    fun e t he => he.of_reaches hreach)
  rintro type t ⟨hfirst, hr⟩
  have hfirst := hfirst.of_reaches hreach
  refine Resolve.yields_env ?_
  refine (ihFields type t.env path root t hfirst.sound hreaches haliases hstructs).mono ?_
    fun e u he => he
  rintro run' u ⟨hrest, ⟨placed, hplaced, hfit⟩, extent, hextent, hplacing⟩
  refine ⟨hfirst.trans hrest, ⟨⟨field.name, type, alignUp run.stop (t.env.alignOf type)⟩ :: placed,
    ?_, .cons ⟨rfl, ?_⟩ hfit⟩, ?_⟩
  · rw [hplaced, FieldRun.add, List.append_assoc]
    rfl
  · exact hrest.grows.denotes hr.denotes
  · obtain ⟨extent', hextent', hmap⟩ := TypeEnv.exists_extents_cons (hr.extent rfl) hextent
    refine ⟨extent', hextent', ?_⟩
    rw [hmap, List.foldl_cons, hplacing, FieldRun.placing_add]

/-! ### Resolution -/

private theorem resolves :
    (∀ structs aliases behind type, ResolvesType env structs aliases behind type) ∧
    (∀ structs behind name, ResolvesStruct env structs behind name) ∧
    (∀ structs aliases decl id, LaysOut env structs aliases decl id) ∧
    ∀ structs aliases fields run, LaysFields env structs aliases fields run := by
  apply resolveType.mutual_induct
  case case1 => exact fun _ _ _ b => resolvesType_builtin b
  case case2 => exact fun _ _ _ _ ih => resolvesType_pointer ih
  case case3 => exact fun _ _ _ _ ihAlias ihStruct => resolvesType_named ihAlias ihStruct
  case case4 => exact fun _ _ _ ih => resolvesStruct_of_laysOut ih
  case case5 => exact fun _ _ _ _ ih => laysOut_of_laysFields ih
  case case6 => exact fun _ _ _ => laysFields_nil
  case case7 => exact fun _ _ _ _ _ ihType ihFields => laysFields_cons ihType ihFields

theorem yields_resolveType (structs aliases : List String) (behind : Bool) (type : TypeExpr) :
    ResolvesType env structs aliases behind type := resolves.1 structs aliases behind type

theorem yields_resolveStruct (structs : List String) (behind : Bool) (name : String) :
    ResolvesStruct env structs behind name := resolves.2.1 structs behind name

theorem yields_layOut (structs aliases : List String) (decl : StructDecl) (id : StructId) :
    LaysOut env structs aliases decl id := resolves.2.2.1 structs aliases decl id

theorem yields_layFields (structs aliases : List String) (fields : List Binding) (run : FieldRun) :
    LaysFields env structs aliases fields run := resolves.2.2.2 structs aliases fields run

end

end Offside
