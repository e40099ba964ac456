import Offside.Proofs.Couples
import Offside.Proofs.Types.Resolvable

/-!
# Structs that have been laid out before

Resolution skips a struct whose layout is finished. Where everything that such structs reach has
been laid out as well, this changes neither which types can be resolved nor which error is found
first: with the finished layouts forgotten, the same structs are met in the same order, and between
them only those that were skipped.

The two resolutions are compared step by step. What decides their course is the status of each
struct and the order in which the structs wait; the numbers of structs do not matter.

## Main definitions

* `Offside.TypeEnv.Settles`: structs that can be resolved and reach only each other.
* `Offside.ResolveState.Elides`: two resolutions in progress, of which the first one skips some
  structs.

## Main results

* `Offside.couples_resolveAll`: both find the same error, or both succeed.
-/

namespace Offside

variable {env : TypeEnv} {known : String → Bool}

namespace TypeEnv

/-- The known names are structs that can be resolved, and so is every struct that they reach. -/
structure Settles (env : TypeEnv) (known : String → Bool) : Prop where
  isStruct : ∀ name, known name = true → ∃ decl, env.IsStruct name decl
  resolvable : ∀ name, known name = true → env.Resolvable (.named name)
  closed : ∀ name other decl, known name = true → env.Reaches (.named name) (.named other) →
    env.IsStruct other decl → known other = true

/-- A name that is no alias and is reached from a known struct is one. -/
theorem Settles.known_of_reaches (h : env.Settles known) {name other : String}
    (hname : known name = true) (reaches : env.Reaches (.named name) (.named other))
    (visible : env.alias? other = none) : known other = true := by
  have hdeclared := (h.resolvable name hname).known other reaches
  cases hdecl : env.structDecl? other with
  | none => exact absurd ⟨visible, hdecl⟩ hdeclared
  | some decl => exact h.closed name other decl hname reaches ⟨visible, hdecl⟩

/-- Nothing can be blamed in a known struct. -/
theorem Settles.not_culprit (h : env.Settles known) {name : String} {error : TypeError}
    (hname : known name = true) : ¬ env.Culprit (.named name) error :=
  fun hculprit => hculprit.not_resolvable (h.resolvable name hname)

theorem Sound.isStruct_of_status {env tables : TypeEnv} {pending : List String} {name : String}
    {b : Bool} (sound : tables.Sound pending) (same : env.SameDecls tables)
    (h : tables.status name = some b) : ∃ decl, env.IsStruct name decl := by
  obtain ⟨id, hid, -⟩ := Option.map_eq_some_iff.1 h
  obtain ⟨decl, hdecl⟩ := exists_structDecl? hid
  exact ⟨decl, same.isStruct.1 ⟨sound.visible name id hid, hdecl⟩⟩

end TypeEnv

namespace ResolveState

variable {path : List String} {s t u : ResolveState} {name : String}

/-- Two resolutions in progress that are equally far. To the first one the known structs have
finished layouts; those that wait in the second one wait in the first one unless they are known. -/
structure Abreast (known : String → Bool) (s t : ResolveState) : Prop where
  status : ∀ name, known name = false → s.env.status name = t.env.status name
  done : ∀ name, known name = true → s.env.status name = some true
  waiting : s.waiting = t.waiting.filter fun name => !known name

/-- Two resolutions in progress, of which the first one skips the known structs. -/
structure Elides (env : TypeEnv) (known : String → Bool) (path : List String)
    (s t : ResolveState) : Prop extends s.Abreast known t where
  left : s.Sound env path
  right : t.Sound env path

/-- The second resolution may deal with a known struct by itself. -/
theorem Elides.skip (settles : env.Settles known) (hname : known name = true) {path' : List String}
    (h : s.Elides env known path' t) (left : s.Sound env path)
    (k : t.Progress env path (.named name) u) : s.Elides env known path u := by
  refine ⟨⟨fun other hother => ?_, h.done, ?_⟩, left, k.sound⟩
  · rw [h.status other hother]
    by_cases hreaches : env.Reaches (.named name) (.named other)
    · -- An unknown name that is reached from a known one is no struct.
      have hnone {v : ResolveState} {pending : List String} (hv : v.env.Sound pending)
          (same : env.SameDecls v.env) : v.env.status other = none := by
        cases hstatus : v.env.status other with
        | none => rfl
        | some b =>
          obtain ⟨decl, hstruct⟩ := hv.isStruct_of_status same hstatus
          rw [settles.closed name other decl hname hreaches hstruct] at hother
          cases hother
      rw [hnone h.right.sound h.right.decls, hnone k.sound.sound k.sound.decls]
    · exact (k.status other hreaches).symm
  · obtain ⟨begun, hbegun, hreach⟩ := k.waits
    have hknown : begun.filter (fun name => !known name) = [] := by
      rw [List.filter_eq_nil_iff]
      intro other hother
      have hvisible := k.sound.visible other (hbegun ▸ List.mem_append_left _ hother)
      simp [settles.known_of_reaches hname (hreach other hother) hvisible]
    rw [hbegun, List.filter_append, hknown, List.nil_append, h.waiting]

theorem Elides.weaken (h : s.Elides env known path t) (name : String) :
    s.Elides env known (name :: path) t :=
  ⟨h.toAbreast, h.left.weaken name, h.right.weaken name⟩

variable {entry entry' : StructEntry} (hname : known name = false) (visible : env.alias? name = none)
  (hentry : s.env.structs.get? name = some entry) (hnew : entry.layout = none)
  (hentry' : t.env.structs.get? name = some entry') (hnew' : entry'.layout = none)
include hname visible hentry hnew hentry' hnew'

theorem Elides.register (h : s.Elides env known (name :: path) t) :
    Elides env known (name :: path) { s with env := s.env.enroll name entry }
      { t with env := t.env.enroll name entry' } := by
  refine ⟨⟨fun other hother => ?_, fun other hother => ?_, h.waiting⟩,
    (h.left.register visible hentry hnew).sound, (h.right.register visible hentry' hnew').sound⟩
  · rw [h.left.sound.status_enroll, h.right.sound.status_enroll, h.status other hother]
  · rw [h.left.sound.status_enroll, if_neg, h.done other hother]
    rintro rfl
    rw [hname] at hother
    cases hother

theorem Elides.await (h : s.Elides env known path t) :
    Elides env known path { s with env := s.env.enroll name entry, waiting := name :: s.waiting }
      { t with env := t.env.enroll name entry', waiting := name :: t.waiting } := by
  have hregister := (h.weaken name).register hname visible hentry hnew hentry' hnew'
  refine ⟨⟨hregister.status, hregister.done, ?_⟩, (h.left.await visible hentry hnew).sound,
    (h.right.await visible hentry' hnew').sound⟩
  rw [List.filter_cons_of_pos (by rw [hname]; rfl), h.waiting]

omit hname visible hentry hnew hentry' hnew' in
/-- Finishing the layout of the same struct keeps two resolutions equally far. -/
theorem Abreast.complete {pending pending' : List String} {id id' : StructId}
    {layout layout' : StructLayout} {notes notes' : List Note} (h : s.Abreast known t)
    (left : s.env.Sound pending) (right : t.env.Sound pending') (hid : s.env.idOf? name = some id)
    (hid' : t.env.idOf? name = some id') (hc : layout.complete = true)
    (hc' : layout'.complete = true) :
    Abreast known { s with env := s.env.finish id layout, notes }
      { t with env := t.env.finish id' layout', notes := notes' } := by
  refine ⟨fun other hother => ?_, fun other hother => ?_, h.waiting⟩
  · rw [left.status_finish hid hc, right.status_finish hid' hc', h.status other hother]
  · rw [left.status_finish hid hc, h.done other hother, ite_self]

end ResolveState

theorem Resolve.run_env {α : Type} {s : ResolveState} {f : TypeEnv → Resolve α} :
    (Resolve.env >>= f).run s = (f s.env).run s := rfl

theorem Resolve.couples_env {α β : Type} {s t : ResolveState} {f : TypeEnv → Resolve α}
    {g : TypeEnv → Resolve β} {ok : α → ResolveState → β → ResolveState → Prop}
    {bad : TypeError → ResolveState → TypeError → ResolveState → Prop}
    (h : Couples s t (f s.env) (g t.env) ok bad) :
    Couples s t (Resolve.env >>= f) (Resolve.env >>= g) ok bad := h

theorem Resolve.couples_register {α : Type} {s t : ResolveState} {name : String}
    {entry entry' : StructEntry} {f g : StructId → Resolve α}
    {ok : α → ResolveState → α → ResolveState → Prop}
    {bad : TypeError → ResolveState → TypeError → ResolveState → Prop}
    (h : Couples { s with env := s.env.enroll name entry } { t with env := t.env.enroll name entry' }
      (f ⟨s.env.layouts.size⟩) (g ⟨t.env.layouts.size⟩) ok bad) :
    Couples s t (Resolve.register name entry >>= f) (Resolve.register name entry' >>= g) ok bad := h

/-! ### The recursion -/

section

variable (env : TypeEnv) (known : String → Bool)

/-- Two resolutions of the same type stay related and fail alike. -/
def ElidesType (structs aliases : List String) (behind : Bool) (type : TypeExpr) : Prop :=
  ∀ path s t, s.Elides env known path t → env.FreeAliases aliases type →
    (behind = false → env.FreeStructs structs type) → (∀ name, known name = true → name ∈ structs) →
    Couples s t (resolveType structs aliases behind type) (resolveType structs aliases behind type)
      (fun _ s' _ t' => s'.Elides env known path t') fun e _ e' _ => e = e'

/-- Two resolutions of the same name of a struct stay related and fail alike. -/
def ElidesStruct (structs : List String) (behind : Bool) (name : String) : Prop :=
  ∀ path s t, s.Elides env known (if behind then path else name :: path) t →
    env.alias? name = none → (behind = false → env.FreeStructs structs (.named name)) →
    (∀ name, known name = true → name ∈ structs) →
    Couples s t (resolveStruct structs behind name) (resolveStruct structs behind name)
      (fun _ s' _ t' => s'.Elides env known path t') fun e _ e' _ => e = e'

/-- A struct that is not known is laid out alike, whichever numbers it has. -/
def ElidesLayout (structs aliases : List String) (decl : StructDecl) (id : StructId) : Prop :=
  ∀ path s t id', s.Elides env known (decl.name :: path) t → known decl.name = false →
    env.IsStruct decl.name decl → s.env.idOf? decl.name = some id →
    t.env.idOf? decl.name = some id' → (∀ f ∈ decl.fields, env.FreeAliases aliases f.type) →
    (∀ f ∈ decl.fields, env.FreeStructs structs f.type) →
    (∀ name, known name = true → name ∈ structs) →
    Couples s t (layOut structs aliases decl id) (layOut structs aliases decl id')
      (fun _ s' _ t' => s'.Elides env known path t') fun e _ e' _ => e = e'

/-- Fields are laid out alike, whatever the types of those before denote. -/
def ElidesFields (structs aliases : List String) (fields : List Binding) (run : FieldRun) : Prop :=
  ∀ path s t run', s.Elides env known path t → (∀ f ∈ fields, env.FreeAliases aliases f.type) →
    (∀ f ∈ fields, env.FreeStructs structs f.type) → (∀ name, known name = true → name ∈ structs) →
    Couples s t (layFields structs aliases fields run) (layFields structs aliases fields run')
      (fun _ s' _ t' => s'.Elides env known path t') fun e _ e' _ => e = e'

end

/-- A struct with a finished layout is passed over. -/
theorem resolveStruct_of_complete {structs : List String} {behind : Bool} {name : String}
    {s : ResolveState} {id : StructId} (hid : s.env.idOf? name = some id)
    (hc : (s.env.layout id).complete = true) (hfree : behind = false → name ∈ structs) :
    (resolveStruct structs behind name).run s = .ok (.struct id) s := by
  obtain ⟨entry, hentry, hlayout⟩ := Option.bind_eq_some_iff.1 hid
  rw [resolveStruct, Resolve.run_env, hentry]
  dsimp only
  cases behind with
  | true =>
    rw [if_pos rfl, hlayout]
    rfl
  | false =>
    rw [if_neg Bool.false_ne_true, dif_pos (hfree rfl), hlayout]
    dsimp only
    rw [if_pos hc]
    rfl

section

variable {path structs : List String} {behind : Bool} {name : String} {s t : ResolveState}

/-- The first resolution is done with a known struct at once; the second one succeeds by itself. -/
theorem couples_resolveStruct_of_known (settles : env.Settles known) (hname : known name = true)
    (h : s.Elides env known (if behind then path else name :: path) t)
    (visible : env.alias? name = none)
    (hstructs : behind = false → env.FreeStructs structs (.named name))
    (hfree : behind = false → name ∈ structs) :
    Couples s t (resolveStruct structs behind name) (resolveStruct structs behind name)
      (fun _ s' _ t' => s'.Elides env known path t') fun e _ e' _ => e = e' := by
  obtain ⟨id, hid, hcomplete⟩ := Option.map_eq_some_iff.1 (h.done name hname)
  have left : s.Sound env path := by
    cases behind with
    | true => exact h.left
    | false => exact ResolveState.Sound.drop h.left hid hcomplete
  refine couples_of_ok (resolveStruct_of_complete hid hcomplete hfree) ?_
  refine (yields_resolveStruct structs behind name path t h.right visible hstructs).mono ?_ ?_
  · exact fun r u hu => h.skip settles hname left hu.1
  · exact fun e u he => settles.not_culprit hname he

/-- Both resolutions do the same with a struct that is not known, if its fields are laid out
alike. -/
theorem couples_resolveStruct_of_unknown (hname : known name = false)
    (h : s.Elides env known (if behind then path else name :: path) t)
    (visible : env.alias? name = none)
    (hlay : ∀ decl id id' s' t', name ∈ structs → behind = false → env.IsStruct name decl →
      s'.Elides env known (name :: path) t' → s'.env.idOf? name = some id →
      t'.env.idOf? name = some id' →
      Couples s' t' (layOut (structs.erase name) env.aliases.names decl id)
        (layOut (structs.erase name) env.aliases.names decl id')
        (fun _ s' _ t' => s'.Elides env known path t') fun e _ e' _ => e = e') :
    Couples s t (resolveStruct structs behind name) (resolveStruct structs behind name)
      (fun _ s' _ t' => s'.Elides env known path t') fun e _ e' _ => e = e' := by
  have hstatus := h.status name hname
  have hdecl : t.env.structDecl? name = s.env.structDecl? name := by
    rw [h.left.decls.structDecl?, h.right.decls.structDecl?]
  rw [resolveStruct]
  refine Resolve.couples_env ?_
  cases hentry : s.env.structs.get? name with
  | none =>
    rw [TypeEnv.structDecl?, TypeEnv.structDecl?, hentry, Option.map_none,
      Option.map_eq_none_iff] at hdecl
    rw [hdecl]
    exact rfl
  | some entry =>
    rw [TypeEnv.structDecl?, TypeEnv.structDecl?, hentry, Option.map_some,
      Option.map_eq_some_iff] at hdecl
    obtain ⟨entry', hentry', hdecl⟩ := hdecl
    have hid : s.env.idOf? name = entry.layout := by
      rw [TypeEnv.idOf?, hentry]
      rfl
    have hid' : t.env.idOf? name = entry'.layout := by
      rw [TypeEnv.idOf?, hentry']
      rfl
    rw [TypeEnv.status, TypeEnv.status, hid, hid'] at hstatus
    rw [hentry']
    dsimp only
    cases behind with
    | true =>
      have h : s.Elides env known path t := h
      rw [if_pos rfl, if_pos rfl]
      cases hlayout : entry.layout <;> cases hlayout' : entry'.layout <;>
        rw [hlayout, hlayout'] at hstatus
      · exact h.await hname visible hentry hlayout hentry' hlayout'
      · cases hstatus
      · cases hstatus
      · exact h
    | false =>
      have h : s.Elides env known (name :: path) t := h
      have hstruct : env.IsStruct name entry.decl := ⟨visible, h.left.decls.structDecl?_of_get? hentry⟩
      rw [if_neg Bool.false_ne_true, if_neg Bool.false_ne_true, h.left.decls.aliases,
        h.right.decls.aliases, hdecl]
      by_cases hmem : name ∈ structs
      · rw [dif_pos hmem, dif_pos hmem]
        cases hlayout : entry.layout <;> cases hlayout' : entry'.layout <;>
          rw [hlayout, hlayout'] at hstatus
        · refine Resolve.couples_register ?_
          exact hlay _ _ _ _ _ hmem rfl hstruct
            (h.register hname visible hentry hlayout hentry' hlayout')
            (TypeEnv.idOf?_enroll.trans (if_pos rfl)) (TypeEnv.idOf?_enroll.trans (if_pos rfl))
        · cases hstatus
        · cases hstatus
        · next id id' =>
          have hcomplete : (s.env.layout id).complete = (t.env.layout id').complete :=
            Option.some.inj hstatus
          dsimp only
          rw [← hcomplete]
          split
          · next hc =>
            exact ⟨h.toAbreast, h.left.drop (hid.trans hlayout) hc,
              h.right.drop (hid'.trans hlayout') (hcomplete ▸ hc)⟩
          · exact hlay _ id id' s t hmem rfl hstruct h (hid.trans hlayout) (hid'.trans hlayout')
      · rw [dif_neg hmem, dif_neg hmem]
        exact rfl

end

section

variable {structs aliases : List String} {behind : Bool} {name : String}

/-- An alias leads to its target in both, and any other name to a struct. -/
theorem elidesType_named
    (ihAlias : ∀ target, name ∈ aliases →
      ElidesType env known structs (aliases.erase name) behind target)
    (ihStruct : ElidesStruct env known structs behind name) :
    ElidesType env known structs aliases behind (.named name) := by
  intro path s t h haliases hstructs hfree
  rw [resolveType]
  refine Resolve.couples_env ?_
  rw [h.left.decls.alias?, h.right.decls.alias?]
  split
  · next target hknown =>
    split
    · next hmem =>
      exact ihAlias target hmem path s t h (haliases.of_target hknown)
        (fun hb => (hstructs hb).of_target hknown) hfree
    · exact rfl
  · next unknown =>
    refine ihStruct path s t ?_ unknown hstructs hfree
    cases behind with
    | true => exact h
    | false => exact h.weaken name

/-- A known struct is skipped in the first one, and any other is laid out alike in both. -/
theorem elidesStruct_of_layout (settles : env.Settles known)
    (ihLayout : ∀ decl id, name ∈ structs →
      ElidesLayout env known (structs.erase name) env.aliases.names decl id) :
    ElidesStruct env known structs behind name := by
  intro path s t h visible hstructs hfree
  by_cases hname : known name = true
  · exact couples_resolveStruct_of_known settles hname h visible hstructs fun _ => hfree name hname
  · rw [Bool.not_eq_true] at hname
    refine couples_resolveStruct_of_unknown hname h visible ?_
    intro decl id id' s' t' hmem hb hstruct h' hid hid'
    have hkey : decl.name = name :=
      h'.left.sound.keyed name decl ((h'.left.decls.structDecl? name).trans hstruct.2)
    have hlayout := ihLayout decl id hmem path s' t' id'
    rw [hkey] at hlayout
    refine hlayout h' hname hstruct hid hid' ?_ ?_ ?_
    · exact fun f _ => TypeEnv.freeAliases_names (refl_of TypeEnv.SameDecls env) f.type
    · exact fun f hf => (hstructs hb).of_field hstruct hf
    · intro other hother
      refine (List.mem_erase_of_ne ?_).2 (hfree other hother)
      rintro rfl
      rw [hname] at hother
      cases hother

/-- Once the fields are laid out, both layouts are finished. -/
theorem elidesLayout_of_fields {decl : StructDecl} {id : StructId}
    (ihFields : ElidesFields env known structs aliases decl.fields .empty) :
    ElidesLayout env known structs aliases decl id := by
  intro path s t id' h hname hstruct hid hid' haliases hstructs hfree
  have hreaches : ∀ f ∈ decl.fields, env.Reaches (.named decl.name) f.type :=
    fun f hf => (TypeEnv.Leads.field hstruct hf).reaches
  have habreast : Couples s t (layOut structs aliases decl id) (layOut structs aliases decl id')
      (fun _ s' _ t' => s'.Abreast known t') fun e _ e' _ => e = e' := by
    rw [layOut, layOut]
    refine couples_bind (((ihFields (decl.name :: path) s t .empty h haliases hstructs
      hfree).and_yields
      (yields_layFields structs aliases decl.fields .empty _ _ s h.left hreaches haliases hstructs)
      (yields_layFields structs aliases decl.fields .empty _ _ t h.right hreaches haliases
        hstructs)).mono ?_ fun _ _ _ _ he => he.1)
    rintro run s' run' t' ⟨hfields, ⟨hs', -⟩, ht', -⟩
    exact hfields.complete hs'.sound.sound ht'.sound.sound (hs'.grows.idOf? _ _ hid)
      (ht'.grows.idOf? _ _ hid') rfl rfl
  refine (habreast.and_yields (yields_layOut structs aliases decl id path s h.left hstruct hid
    haliases hstructs) (yields_layOut structs aliases decl id' path t h.right hstruct hid'
      haliases hstructs)).mono ?_ fun _ _ _ _ he => he.1
  rintro r s' r' t' ⟨hlaid, ⟨hs', -⟩, ht', -⟩
  exact ⟨hlaid, hs'.sound, ht'.sound⟩

end

private theorem elides (settles : env.Settles known) :
    (∀ structs aliases behind type, ElidesType env known structs aliases behind type) ∧
    (∀ structs behind name, ElidesStruct env known structs behind name) ∧
    (∀ structs aliases decl id, ElidesLayout env known structs aliases decl id) ∧
    ∀ structs aliases fields run, ElidesFields env known structs aliases fields run := by
  apply resolveType.mutual_induct
  case case1 =>
    intro structs aliases behind b path s t h _ _ _
    rw [resolveType]
    exact h
  case case2 =>
    intro structs aliases behind element ih path s t h haliases _ hfree
    rw [resolveType]
    exact couples_bind ((ih path s t h haliases.of_pointer (fun hb => Bool.noConfusion hb) hfree).mono
      (fun _ _ _ _ h => h) fun _ _ _ _ h => h)
  case case3 => exact fun _ _ _ _ ihAlias ihStruct => elidesType_named ihAlias ihStruct
  case case4 =>
    exact fun _ _ _ ih => elidesStruct_of_layout settles fun decl id hmem =>
      ih env ⟨decl, none⟩ hmem id
  case case5 => exact fun _ _ _ _ ih => elidesLayout_of_fields ih
  case case6 =>
    intro structs aliases run path s t run' h _ _ _
    rw [layFields, layFields]
    exact h
  case case7 =>
    intro structs aliases field fields run ihType ihFields path s t run' h haliases hstructs hfree
    rw [layFields, layFields]
    obtain ⟨halias, haliases⟩ := List.forall_mem_cons.1 haliases
    obtain ⟨hstruct, hstructs⟩ := List.forall_mem_cons.1 hstructs
    refine couples_bind ((ihType path s t h halias (fun _ => hstruct) hfree).mono ?_
      fun _ _ _ _ h => h)
    intro type s' type' t' h'
    exact Resolve.couples_env (ihFields type s'.env path s' t' _ h' haliases hstructs hfree)

/-! ### The structs that wait, and whole resolutions -/

theorem TypeEnv.SameDecls.names {tables : TypeEnv} (h : env.SameDecls tables) :
    tables.structs.names = env.structs.names := by
  have hnames := congrArg (List.map Prod.fst) h.structDecls
  rw [TypeEnv.structDecls, TypeEnv.structDecls, List.map_map, List.map_map] at hnames
  exact hnames

theorem ResolveState.Elides.mem_names {path : List String} {s t : ResolveState} {name : String}
    (h : s.Elides env known path t) (hname : known name = true) :
    name ∈ t.env.structs.names := by
  obtain ⟨id, hid, -⟩ := Option.map_eq_some_iff.1 (h.done name hname)
  obtain ⟨entry, hentry, -⟩ := Option.bind_eq_some_iff.1 hid
  rw [h.right.decls.names, ← h.left.decls.names]
  exact TypeEnv.mem_names hentry

theorem layOutWaiting_of_none {s : ResolveState} (h : s.waiting = []) (fuel : Nat) :
    (layOutWaiting fuel).run s = .ok () s := by
  cases fuel with
  | zero => rfl
  | succ fuel =>
    rw [layOutWaiting, EStateM.run, get_bind_apply, h]
    rfl

theorem layOutWaiting_of_cons {s : ResolveState} {name : String} {rest : List String}
    (h : s.waiting = name :: rest) (fuel : Nat) :
    layOutWaiting (fuel + 1) s =
      (resolveStruct s.env.structs.names false name >>= fun _ => layOutWaiting fuel)
        { s with waiting := rest } := by
  rw [layOutWaiting, get_bind_apply, h]
  rfl

theorem couples_layOutWaiting (settles : env.Settles known) (fuel : Nat) :
    ∀ fuel' s t, s.Elides env known [] t → s.env.unnumbered + s.waiting.length ≤ fuel' →
      t.env.unnumbered + t.waiting.length ≤ fuel →
      Couples s t (layOutWaiting fuel') (layOutWaiting fuel) (fun _ _ _ _ => True)
        fun e _ e' _ => e = e' := by
  have hnone (fuel' fuel : Nat) {s t : ResolveState} (h : s.Elides env known [] t)
      (hwaiting : t.waiting = []) :
      Couples s t (layOutWaiting fuel') (layOutWaiting fuel) (fun _ _ _ _ => True)
        fun e _ e' _ => e = e' := by
    have hwaiting' : s.waiting = [] := by rw [h.waiting, hwaiting, List.filter_nil]
    have hleft : layOutWaiting fuel' s = .ok () s := layOutWaiting_of_none hwaiting' fuel'
    have hright : layOutWaiting fuel t = .ok () t := layOutWaiting_of_none hwaiting fuel
    rw [Couples, hleft, hright]
    trivial
  induction fuel with
  | zero =>
    intro fuel' s t h _ enough
    exact hnone fuel' 0 h (List.length_eq_zero_iff.1 (by omega))
  | succ fuel ih =>
    intro fuel' s t h enough' enough
    cases hwaiting : t.waiting with
    | nil => exact hnone fuel' (fuel + 1) h hwaiting
    | cons name rest =>
      have hvisible : env.alias? name = none := h.right.visible name (hwaiting ▸ List.mem_cons_self)
      have hright := h.right.pop hwaiting
      rw [hwaiting, List.length_cons] at enough
      have hfilter := h.waiting
      rw [hwaiting] at hfilter
      have hstep := (yields_resolveStruct t.env.structs.names false name [] _ hright hvisible
        fun _ => TypeEnv.freeStructs_names h.right.decls _)
      by_cases hname : known name = true
      · -- A known struct waits in the second resolution only.
        rw [List.filter_cons_of_neg (by simp [hname])] at hfilter
        have hpopped : s.Elides env known [name] { t with waiting := rest } :=
          ⟨⟨h.status, h.done, hfilter⟩, h.left.weaken name, hright⟩
        have hself : layOutWaiting fuel' s = layOutWaiting fuel' s := rfl
        refine couples_congr hself (layOutWaiting_of_cons hwaiting fuel)
          (couples_bind_right (hstep.mono ?_ ?_))
        · rintro r u ⟨hu, -⟩
          have hbudget : u.env.unnumbered + u.waiting.length ≤ t.env.unnumbered + rest.length :=
            hu.budget
          exact ih fuel' s u (hpopped.skip settles hname h.left hu) enough' (by omega)
        · exact fun e u he => settles.not_culprit hname he
      · rw [Bool.not_eq_true] at hname
        rw [List.filter_cons_of_pos (by simp [hname])] at hfilter
        have hleft := h.left.pop hfilter
        rw [hfilter, List.length_cons] at enough'
        obtain ⟨fuel', rfl⟩ : ∃ n, fuel' = n + 1 := ⟨fuel' - 1, by omega⟩
        have hpopped : ResolveState.Elides env known [name]
            { s with waiting := rest.filter fun name => !known name } { t with waiting := rest } :=
          ⟨⟨h.status, h.done, rfl⟩, hleft, hright⟩
        have hstep' := (yields_resolveStruct t.env.structs.names false name [] _ hleft hvisible
          fun _ => TypeEnv.freeStructs_names h.right.decls _)
        have hnames : s.env.structs.names = t.env.structs.names := by
          rw [h.left.decls.names, h.right.decls.names]
        refine couples_congr (layOutWaiting_of_cons hfilter fuel')
          (layOutWaiting_of_cons hwaiting fuel) ?_
        rw [hnames]
        refine couples_bind (((elides settles).2.1 t.env.structs.names false name [] _ _ hpopped
          hvisible (fun _ => TypeEnv.freeStructs_names h.right.decls _)
          (fun other hother => h.mem_names hother)).and_yields hstep' hstep |>.mono ?_
            fun _ _ _ _ he => he.1)
        rintro r s' r' t' ⟨helides, ⟨hs', -⟩, ht', -⟩
        have hbudget : s'.env.unnumbered + s'.waiting.length ≤
          s.env.unnumbered + (rest.filter fun name => !known name).length := hs'.budget
        have hbudget' : t'.env.unnumbered + t'.waiting.length ≤ t.env.unnumbered + rest.length :=
          ht'.budget
        exact ih fuel' s' t' helides (by omega) (by omega)

namespace TypeEnv

variable {tables : TypeEnv}

/-- Where every layout is finished, the structs that have one can be resolved and reach only each
other. -/
theorem Sound.settles (sound : tables.Sound []) (same : env.SameDecls tables) :
    env.Settles fun name => (tables.idOf? name).isSome := by
  have hnumber {name : String} (hname : (tables.idOf? name).isSome = true) :
      ∃ id, tables.idOf? name = some id ∧ tables.Denotes (.named name) (.struct id) := by
    obtain ⟨id, hid⟩ := Option.isSome_iff_exists.1 hname
    exact ⟨id, hid, denotes_struct (sound.visible name id hid) hid⟩
  refine ⟨fun name hname => ?_, fun name hname => ?_, fun name other decl hname hreaches hstruct => ?_⟩
  · obtain ⟨id, hid, -⟩ := hnumber hname
    obtain ⟨decl, hdecl⟩ := exists_structDecl? hid
    exact ⟨decl, same.isStruct.1 ⟨sound.visible name id hid, hdecl⟩⟩
  · obtain ⟨id, -, hdenotes⟩ := hnumber hname
    exact same.resolvable.1 (sound.resolvable hdenotes)
  · obtain ⟨id, -, hdenotes⟩ := hnumber hname
    rw [← same.reaches] at hreaches
    obtain ⟨r, hr⟩ := sound.denotes_of_reaches hdenotes hreaches
    obtain ⟨id', hid', -⟩ := exists_idOf? (same.isStruct.2 hstruct) hr
    exact Option.isSome_iff_exists.2 ⟨id', hid'⟩

theorem Sound.elides (sound : tables.Sound []) (same : env.SameDecls tables)
    (unresolved : env.Unresolved) :
    ResolveState.Elides env (fun name => (tables.idOf? name).isSome) [] ⟨tables, [], []⟩
      ⟨env, [], []⟩ := by
  refine ⟨⟨fun name hname => ?_, fun name hname => ?_, rfl⟩,
    ⟨same, sound, fun _ h => absurd h List.not_mem_nil⟩, unresolved.sound.start⟩
  · have hnone := Option.isNone_iff_eq_none.1 (Option.isSome_eq_false_iff.1 hname)
    rw [status, status, unresolved.idOf?, hnone]
    rfl
  · obtain ⟨id, hid⟩ := Option.isSome_iff_exists.1 hname
    rw [status, hid, Option.map_some, sound.complete hid]

/-- Tables in which structs have been laid out, and tables with the same declarations in which none
has: both find the same error, or both resolve the type. -/
theorem Sound.couples_resolveAll (sound : tables.Sound []) (same : env.SameDecls tables)
    (unresolved : env.Unresolved) (type : TypeExpr) :
    Couples ⟨tables, [], []⟩ ⟨env, [], []⟩ (resolveAll type) (resolveAll type) (fun _ _ _ _ => True)
      fun e _ e' _ => e = e' := by
  have settles := sound.settles same
  have helides := sound.elides same unresolved
  refine Resolve.couples_env ?_
  dsimp only
  rw [same.names, same.aliases]
  have haliases := freeAliases_names (refl_of SameDecls env) type
  have hstructs := freeStructs_names (refl_of SameDecls env) type
  refine couples_bind ((((Offside.elides settles).1 _ _ false type [] _ _ helides haliases
    (fun _ => hstructs) fun name hname => helides.mem_names hname).and_yields
      (yields_resolveType _ _ false type [] _ helides.left haliases fun _ => hstructs)
      (yields_resolveType _ _ false type [] _ helides.right haliases fun _ => hstructs)).mono ?_
    fun _ _ _ _ he => he.1)
  rintro r s r' t ⟨hst, ⟨hs, -⟩, ht, -⟩
  have hbudget : s.env.unnumbered + s.waiting.length ≤ tables.unnumbered := hs.budget
  have hbudget' : t.env.unnumbered + t.waiting.length ≤ env.unnumbered := ht.budget
  refine couples_bind ((couples_layOutWaiting settles env.structs.size tables.structs.size s t hst
    (Nat.le_trans hbudget tables.unnumbered_le)
    (Nat.le_trans hbudget' env.unnumbered_le)).mono ?_ fun _ _ _ _ he => he)
  exact fun _ _ _ _ _ => trivial

end TypeEnv

end Offside
