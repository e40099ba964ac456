import Offside.Proofs.Types.Returns

/-!
# What a resolution looks at and what it blames

A resolution looks up the structs that its type reaches, and no others. Two tables with the same
layouts and declarations, in which these structs have the same numbers, give the same answer.

A resolution that fails names an unknown type, a cycle of aliases or a struct that contains itself,
and what it names is a reason to fail that the type reaches. This needs nothing of the layouts that
the tables hold: a resolution may take over one that is out of date, but it goes wrong only at names
that it has followed. The invariant along a course is that the aliases being expanded and the structs
being laid out lead to the type at hand, so that what is met again lies on a cycle.

## Main definitions

* `Offside.ResolveTask.Within`: parts of a resolution that stay inside what a type reaches.
* `Offside.Alongside`: states that differ in other structs only.
* `Offside.ResolveTask.Below`: parts of a resolution to which all that is in progress leads.

## Main results

* `Offside.Course.alongside`: a course can be followed in the other state.
* `Offside.TypeEnv.answer_resolve_of_entries`: the answers are the same.
* `Offside.Course.culprit`: what a part of a resolution blames.
* `Offside.TypeEnv.Reachable.culprit`: what a resolution blames.
* `Offside.TypeEnv.Culprit.exists_field`: what is blamed for a struct is blamed for one of its fields.
-/

namespace Offside

open TypeEnv

variable {env : TypeEnv} {root : TypeExpr} {entered expanding : List String} {task : ResolveTask}
  {s s' t : ResolveState} {events : List ResolveEvent} {out : Except TypeError ResolvedType}
  {name : String} {entry : StructEntry}

/-- A struct that `root` reaches. -/
def TypeEnv.ReachesStruct (env : TypeEnv) (root : TypeExpr) (name : String) : Prop :=
  env.Reaches root (.named name) ∧ env.alias? name = none

/-- The types and structs of a part of a resolution are reached from `root`. -/
def ResolveTask.Within (env : TypeEnv) (root : TypeExpr) : ResolveTask → Prop
  | .type _ expr => env.Reaches root expr
  | .struct _ name => env.ReachesStruct root name
  | .layout name decl _ => env.ReachesStruct root name ∧ env.structDecl? name = some decl
  | .fields _ _ bindings _ => ∀ field ∈ bindings, env.Reaches root field.type

/-- Two states of a resolution that differ only in structs that `root` does not reach. -/
structure Alongside (env : TypeEnv) (root : TypeExpr) (s s' : ResolveState) : Prop where
  decls : env.SameDecls s.env
  decls' : env.SameDecls s'.env
  layouts : s'.env.layouts = s.env.layouts
  waiting : s'.waiting = s.waiting
  within : ∀ name ∈ s.waiting, env.ReachesStruct root name
  entries : ∀ name, env.ReachesStruct root name →
    s'.env.structs.get? name = s.env.structs.get? name

theorem Alongside.self (decls : env.SameDecls s.env)
    (within : ∀ name ∈ s.waiting, env.ReachesStruct root name) : Alongside env root s s :=
  ⟨decls, decls, rfl, rfl, within, fun _ _ => rfl⟩

namespace Alongside

variable (h : Alongside env root s s')
include h

theorem alias?_eq (name : String) : s'.env.alias? name = s.env.alias? name := by
  rw [h.decls'.alias?, h.decls.alias?]

theorem layout_eq (id : StructId) : s'.env.layout id = s.env.layout id := by
  rw [TypeEnv.layout, TypeEnv.layout, h.layouts]

theorem add_eq (run : FieldRun) (name : String) (type : ResolvedType) :
    run.add s'.env name type = run.add s.env name type := by
  have halign : s'.env.alignOf type = s.env.alignOf type := by
    cases type <;> simp [TypeEnv.alignOf, TypeEnv.sizeOf, h.layout_eq]
  have hsize : s'.env.sizeOf type = s.env.sizeOf type := by
    cases type <;> simp [TypeEnv.sizeOf, h.layout_eq]
  rw [FieldRun.add, FieldRun.add, halign, hsize]

/-- A struct that is reached gets the same number in both. -/
theorem enroll (hreached : env.ReachesStruct root name)
    (hentry : s.env.structs.get? name = some entry) :
    Alongside env root { s with env := s.env.enroll name entry }
      { s' with env := s'.env.enroll name entry } := by
  refine ⟨trans_of SameDecls h.decls (sameDecls_enroll hentry), ?_, ?_, h.waiting, h.within,
    fun other hother => ?_⟩
  · exact trans_of SameDecls h.decls' (sameDecls_enroll ((h.entries name hreached).trans hentry))
  · dsimp only [TypeEnv.enroll]
    rw [h.layouts]
  · dsimp only [TypeEnv.enroll]
    rw [Table.get?_insert, Table.get?_insert, h.entries other hother, h.layouts]

theorem await (hreached : env.ReachesStruct root name)
    (hentry : s.env.structs.get? name = some entry) :
    Alongside env root { s with env := s.env.enroll name entry, waiting := name :: s.waiting }
      { s' with env := s'.env.enroll name entry, waiting := name :: s'.waiting } := by
  have henroll := h.enroll hreached hentry
  exact ⟨henroll.decls, henroll.decls', henroll.layouts, congrArg (name :: ·) h.waiting,
    List.forall_mem_cons.2 ⟨hreached, h.within⟩, henroll.entries⟩

theorem finish (id : StructId) (layout : StructLayout) (notes notes' : List Note) :
    Alongside env root { s with env := s.env.finish id layout, notes }
      { s' with env := s'.env.finish id layout, notes := notes' } := by
  refine ⟨⟨h.decls.aliases, h.decls.structDecls⟩, ⟨h.decls'.aliases, h.decls'.structDecls⟩, ?_,
    h.waiting, h.within, h.entries⟩
  dsimp only [TypeEnv.finish]
  rw [h.layouts]

theorem pop {rest : List String} (waits : s.waiting = name :: rest) :
    env.ReachesStruct root name ∧
      Alongside env root { s with waiting := rest } { s' with waiting := rest } := by
  have hwithin := h.within
  rw [waits] at hwithin
  obtain ⟨hname, hrest⟩ := List.forall_mem_cons.1 hwithin
  exact ⟨hname, h.decls, h.decls', h.layouts, rfl, hrest, h.entries⟩

end Alongside

/-- A course can be followed in another state in which the structs that are reached are the same. -/
theorem Course.alongside (h : Course entered expanding task s events out t)
    (within : task.Within env root) (beside : Alongside env root s s') :
    ∃ t', Course entered expanding task s' events out t' ∧ Alongside env root t t' := by
  induction h generalizing s' with
  | builtin b => exact ⟨s', .builtin b, beside⟩
  | pointer _ ih =>
    obtain ⟨t', hcourse, ht⟩ := ih (within.tail ⟨_, .pointer _⟩) beside
    exact ⟨t', .pointer hcourse, ht⟩
  | cycle known again => exact ⟨s', .cycle ((beside.alias?_eq _).trans known) again, beside⟩
  | target known first _ ih =>
    have hleads := Leads.target ((beside.decls.alias? _).symm.trans known)
    obtain ⟨t', hcourse, ht⟩ := ih (within.tail ⟨_, hleads⟩) beside
    exact ⟨t', .target ((beside.alias?_eq _).trans known) first hcourse, ht⟩
  | named visible _ ih =>
    obtain ⟨t', hcourse, ht⟩ :=
      ih ⟨within, (beside.decls.alias? _).symm.trans visible⟩ beside
    exact ⟨t', .named ((beside.alias?_eq _).trans visible) hcourse, ht⟩
  | unknown missing => exact ⟨s', .unknown ((beside.entries _ within).trans missing), beside⟩
  | recursive found again =>
    exact ⟨s', .recursive ((beside.entries _ within).trans found) again, beside⟩
  | finished found number known =>
    refine ⟨s', .finished ((beside.entries _ within).trans found) number ?_, beside⟩
    rwa [beside.layout_eq]
  | await found new =>
    refine ⟨_, ?_, beside.await within found⟩
    rw [← beside.layouts]
    exact .await ((beside.entries _ within).trans found) new
  | resume found number unfinished _ ih =>
    have hdecl := beside.decls.structDecl?_of_get? found
    obtain ⟨t', hcourse, ht⟩ := ih ⟨within, hdecl⟩ beside
    refine ⟨t', .resume ((beside.entries _ within).trans found) number ?_ hcourse, ht⟩
    rwa [beside.layout_eq]
  | start found new _ ih =>
    have hdecl := beside.decls.structDecl?_of_get? found
    obtain ⟨t', hcourse, ht⟩ := ih ⟨within, hdecl⟩ (beside.enroll within found)
    rw [← beside.layouts] at hcourse
    exact ⟨t', .start ((beside.entries _ within).trans found) new hcourse, ht⟩
  | layout first _ ih =>
    obtain ⟨⟨hreaches, visible⟩, hdecl⟩ := within
    obtain ⟨t', hcourse, ht⟩ :=
      ih (fun field hfield => hreaches.tail ⟨_, .field ⟨visible, hdecl⟩ hfield⟩) beside
    exact ⟨t', .layout first hcourse, ht⟩
  | done => exact ⟨_, .done, beside.finish _ _ _ _⟩
  | stop _ ih =>
    obtain ⟨t', hcourse, ht⟩ := ih (within _ List.mem_cons_self) beside
    exact ⟨t', .stop hcourse, ht⟩
  | next _ _ ih ihRest =>
    obtain ⟨hfield, hfields⟩ := List.forall_mem_cons.1 within
    obtain ⟨t', hcourse, ht⟩ := ih hfield beside
    obtain ⟨u', hrest, hu⟩ := ihRest hfields ht
    rw [← ht.add_eq] at hrest
    exact ⟨u', .next hcourse hrest, hu⟩

theorem Clearing.alongside {cleared : Except TypeError Unit} (h : Clearing s events cleared t)
    (beside : Alongside env root s s') :
    ∃ t', Clearing s' events cleared t' ∧ Alongside env root t t' := by
  induction h generalizing s' with
  | done empty => exact ⟨s', .done (beside.waiting.trans empty), beside⟩
  | stop waits h =>
    obtain ⟨hreached, hpop⟩ := beside.pop waits
    obtain ⟨t', hcourse, ht⟩ := h.alongside hreached hpop
    exact ⟨t', .stop (beside.waiting.trans waits) hcourse, ht⟩
  | next waits h _ ih =>
    obtain ⟨hreached, hpop⟩ := beside.pop waits
    obtain ⟨t', hcourse, ht⟩ := h.alongside hreached hpop
    obtain ⟨u', hlater, hu⟩ := ih ht
    exact ⟨u', .next (beside.waiting.trans waits) hcourse hlater, hu⟩

namespace TypeEnv

variable {env' : TypeEnv} {type : TypeExpr}

/-- Tables with the same layouts answer alike if the structs that the type reaches are the same. -/
theorem answer_resolve_of_entries (unambiguous : env.Unambiguous) (same : env.SameDecls env')
    (layouts : env'.layouts = env.layouts) (entries : ∀ name, env.ReachesStruct type name →
      env'.structs.get? name = env.structs.get? name) :
    (env'.resolve type).answer = (env.resolve type).answer := by
  have hstart : Alongside env type ⟨env, [], []⟩ ⟨env', [], []⟩ :=
    ⟨refl_of SameDecls env, same, layouts, rfl, List.forall_mem_nil _, entries⟩
  have hwithin (h : Relation.ReflTransGen env.Mentions type type) :
      (ResolveTask.type false type).Within env type := h
  obtain ⟨events, h⟩ := unambiguous.resolving type
  obtain ⟨events', h'⟩ := (same.unambiguous unambiguous).resolving type
  suffices hsuffices : ∃ resolution, env'.Resolving type events resolution ∧
      resolution.answer = (env.resolve type).answer by
    obtain ⟨resolution, hresolving, hanswer⟩ := hsuffices
    rw [← hanswer, (h'.unique hresolving).2]
  generalize env.resolve type = resolution at *
  cases h with
  | refused h =>
    obtain ⟨t', hcourse, -⟩ := h.alongside (hwithin .refl) hstart
    exact ⟨_, .refused hcourse, rfl⟩
  | stuck h clearing =>
    obtain ⟨t', hcourse, ht⟩ := h.alongside (hwithin .refl) hstart
    obtain ⟨u', hclearing, -⟩ := clearing.alongside ht
    exact ⟨_, .stuck hcourse hclearing, rfl⟩
  | resolved h clearing =>
    obtain ⟨t', hcourse, ht⟩ := h.alongside (hwithin .refl) hstart
    obtain ⟨u', hclearing, -⟩ := clearing.alongside ht
    exact ⟨_, .resolved hcourse hclearing, rfl⟩

end TypeEnv

/-! ### Blame -/

open Relation

variable {type : TypeExpr} {names : List String}

/-- All of the names lead to the type, by one step or more. -/
def AllLead (step : TypeExpr → TypeExpr → Prop) (names : List String) (type : TypeExpr) : Prop :=
  ∀ name ∈ names, TransGen step (.named name) type

theorem allLead_nil {step : TypeExpr → TypeExpr → Prop} : AllLead step [] type :=
  List.forall_mem_nil _

theorem AllLead.tail {step : TypeExpr → TypeExpr → Prop} {next : TypeExpr}
    (h : AllLead step names type) (last : step type next) : AllLead step names next :=
  fun name hname => (h name hname).tail last

/-- One name more, of which the type at hand is made up. -/
theorem AllLead.cons {step : TypeExpr → TypeExpr → Prop} {next : TypeExpr}
    (h : AllLead step names (.named name)) (last : step (.named name) next) :
    AllLead step (name :: names) next :=
  List.forall_mem_cons.2 ⟨.single last, h.tail last⟩

/-- The aliases that are being expanded are short for the part at hand, and the structs that are being
laid out hold it unless it stands behind a pointer. -/
def ResolveTask.Below (env : TypeEnv) (entered expanding : List String) : ResolveTask → Prop
  | .type behind type =>
    AllLead env.Expanding expanding type ∧ (behind = false → AllLead env.Holding entered type)
  | .struct behind name => behind = false → AllLead env.Holding entered (.named name)
  | .layout name _ _ => AllLead env.Holding entered (.named name)
  | .fields _ _ bindings _ => ∀ field ∈ bindings,
    AllLead env.Expanding expanding field.type ∧ AllLead env.Holding entered field.type

/-- A part of a resolution blames something that `root` reaches. -/
theorem Course.culprit (h : Course entered expanding task s events out t) (decls : env.SameDecls s.env)
    (within : task.Within env root) (below : task.Below env entered expanding) {error : TypeError}
    (failed : out = .error error) : env.Culprit root error := by
  induction h generalizing error with
  | builtin b => cases failed
  | @pointer _ _ _ element _ _ _ out _ ih =>
    have hstep : env.Leads .pointer (.pointer element) element := .pointer element
    refine ih decls (within.tail ⟨_, hstep⟩) ⟨below.1.tail (.inr hstep), nofun⟩ ?_
    cases out with
    | ok => cases failed
    | error => exact failed
  | cycle known again =>
    cases failed
    exact ⟨within, ⟨_, (decls.alias? _).symm.trans known⟩, below.1 _ again⟩
  | target known _ _ ih =>
    have hstep := Leads.target ((decls.alias? _).symm.trans known)
    exact ih decls (within.tail ⟨_, hstep⟩)
      ⟨below.1.cons (.inl hstep), fun hvalue => (below.2 hvalue).tail (.inl hstep)⟩ failed
  | named visible _ ih =>
    exact ih decls ⟨within, (decls.alias? _).symm.trans visible⟩ below.2 failed
  | unknown missing =>
    cases failed
    refine ⟨within.1, within.2, ?_⟩
    rw [← decls.structDecl?, structDecl?, missing, Option.map_none]
  | recursive found again =>
    cases failed
    have hdecl := decls.structDecl?_of_get? found
    exact ⟨within.1, ⟨_, within.2, hdecl⟩, below rfl _ again⟩
  | finished | await | done => cases failed
  | resume found _ _ _ ih =>
    have hdecl := decls.structDecl?_of_get? found
    exact ih decls ⟨within, hdecl⟩ (below rfl) failed
  | start found _ _ ih =>
    have hdecl := decls.structDecl?_of_get? found
    exact ih (trans_of SameDecls decls (sameDecls_enroll found)) ⟨within, hdecl⟩ (below rfl) failed
  | layout _ _ ih =>
    obtain ⟨⟨hreaches, visible⟩, hdecl⟩ := within
    have hstep {field : Binding} (hfield : field ∈ _) := Leads.field ⟨visible, hdecl⟩ hfield
    exact ih decls (fun field hfield => hreaches.tail ⟨_, hstep hfield⟩)
      (fun field hfield => ⟨allLead_nil, below.cons (.inr (hstep hfield))⟩) failed
  | stop _ ih =>
    cases failed
    have hbelow := below _ List.mem_cons_self
    exact ih decls (within _ List.mem_cons_self) ⟨hbelow.1, fun _ => hbelow.2⟩ rfl
  | next h _ _ ihRest =>
    exact ihRest (trans_of SameDecls decls h.onward.decls) (List.forall_mem_cons.1 within).2
      (List.forall_mem_cons.1 below).2 failed

/-- So does laying out the structs that wait. -/
theorem Clearing.culprit {cleared : Except TypeError Unit} (h : Clearing s events cleared t)
    (decls : env.SameDecls s.env) (within : ∀ name ∈ s.waiting, env.ReachesStruct root name)
    {error : TypeError} (failed : cleared = .error error) : env.Culprit root error := by
  have hbelow (name : String) : (ResolveTask.struct false name).Below env [] [] :=
    fun _ => allLead_nil
  induction h with
  | done => cases failed
  | stop waits h =>
    cases failed
    rw [waits] at within
    exact h.culprit decls (List.forall_mem_cons.1 within).1 (hbelow _) rfl
  | next waits h _ ih =>
    rw [waits] at within
    obtain ⟨hreached, hrest⟩ := List.forall_mem_cons.1 within
    -- Only structs that are reached have begun to wait.
    obtain ⟨_, -, hafter⟩ := h.alongside hreached (.self decls hrest)
    exact ih hafter.decls hafter.within failed

namespace TypeEnv

variable {resolution : Resolution} {error : TypeError}

theorem Resolving.culprit (h : env.Resolving type events resolution)
    (failed : resolution.answer = .error error) : env.Culprit type error := by
  have hwithin : (ResolveTask.type false type).Within env type := .refl
  have hbelow : (ResolveTask.type false type).Below env [] [] := ⟨allLead_nil, fun _ => allLead_nil⟩
  have hsame : env.SameDecls env := refl_of SameDecls env
  cases h with
  | refused h =>
    cases failed
    exact h.culprit hsame hwithin hbelow rfl
  | stuck h clearing =>
    cases failed
    obtain ⟨_, -, hafter⟩ := h.alongside hwithin (.self hsame (List.forall_mem_nil _))
    exact clearing.culprit hafter.decls hafter.within rfl
  | resolved => cases failed

/-- A resolution that fails blames something that the type reaches. -/
theorem Reachable.culprit (reachable : env.Reachable)
    (failed : (env.resolve type).answer = .error error) : env.Culprit type error := by
  obtain ⟨events, h⟩ := reachable.unambiguous.resolving type
  exact h.culprit failed

theorem Holding.mentions {next : TypeExpr} (h : env.Holding type next) : env.Mentions type next :=
  h.elim (⟨_, ·⟩) (⟨_, ·⟩)

/-- From a struct one gets to its fields only. -/
theorem IsStruct.exists_field {decl : StructDecl} {edge : Edge} (h : env.IsStruct name decl)
    (leads : env.Leads edge (.named name) type) : ∃ field ∈ decl.fields, field.type = type := by
  cases leads with
  | target known => cases known.symm.trans h.1
  | field struct mem =>
    cases struct.2.symm.trans h.2
    exact ⟨_, mem, rfl⟩

/-- What is blamed for a struct is blamed for one of its fields. -/
theorem Culprit.exists_field {decl : StructDecl} (h : env.Culprit (.named name) error)
    (struct : env.IsStruct name decl) : ∃ field ∈ decl.fields, env.Culprit field.type error := by
  have hreaches {other : String} (hreach : env.Reaches (.named name) (.named other))
      (hne : name ≠ other) : ∃ field ∈ decl.fields, env.Reaches field.type (.named other) := by
    rcases hreach.cases_head with heq | ⟨next, ⟨edge, hstep⟩, hrest⟩
    · exact absurd (TypeExpr.named.inj heq) hne
    · obtain ⟨field, hfield, rfl⟩ := struct.exists_field hstep
      exact ⟨field, hfield, hrest⟩
  cases error with
  | unknownType other =>
    obtain ⟨hreach, hunknown⟩ := h
    have hne : name ≠ other := by
      rintro rfl
      cases hunknown.2.symm.trans struct.2
    obtain ⟨field, hfield, hrest⟩ := hreaches hreach hne
    exact ⟨field, hfield, hrest, hunknown⟩
  | aliasCycle other =>
    obtain ⟨hreach, ⟨target, known⟩, hcycle⟩ := h
    have hne : name ≠ other := by
      rintro rfl
      cases known.symm.trans struct.1
    obtain ⟨field, hfield, hrest⟩ := hreaches hreach hne
    exact ⟨field, hfield, hrest, ⟨target, known⟩, hcycle⟩
  | recursiveStruct other =>
    obtain ⟨hreach, hrecursive⟩ := h
    by_cases hsame : name = other
    · -- The struct holds itself, so it does through one of its fields.
      subst hsame
      obtain ⟨next, hstep | hstep, hrest⟩ := TransGen.head'_iff.1 hrecursive.2
      · cases hstep with
        | target known => cases known.symm.trans struct.1
      · obtain ⟨field, hfield, rfl⟩ := struct.exists_field hstep
        exact ⟨field, hfield, hrest.lift id fun _ _ => Holding.mentions, hrecursive⟩
    · obtain ⟨field, hfield, hrest⟩ := hreaches hreach hsame
      exact ⟨field, hfield, hrest, hrecursive⟩

end TypeEnv

end Offside
