import Offside.Proofs.Types.Events
import Offside.Proofs.Types.Rollback

/-!
# Every resolution returns

A resolution has a finite course, however the declarations refer to each other. The names that are
free to be entered are the ones that are not in progress, so they are fewer the deeper the recursion
is; and every struct that waits has taken one number from those that are left, so the queue of these
structs empties.

## Main definitions

* `Offside.Leaves`: the free names are those that are not in progress.
* `Offside.TypeEnv.InOrder`: what is true of the events of a resolution.

## Main results

* `Offside.TypeEnv.Unambiguous.resolving`: a resolution has a course.
* `Offside.TypeEnv.Resolving.inOrder`: in every course, no struct is met twice where it must not be.
* `Offside.TypeEnv.resolving_of_reachable`: both together, for all tables.
-/

namespace Offside

/-! ### Every resolution has a course -/

/-- The free ones of the names are those that are not in progress. -/
structure Leaves (names progress free : List String) : Prop where
  nodup : free.Nodup
  mem_iff : ∀ name ∈ names, name ∈ free ↔ name ∉ progress

theorem leaves_nil {names : List String} (nodup : names.Nodup) : Leaves names [] names :=
  ⟨nodup, fun _ hmem => iff_of_true hmem List.not_mem_nil⟩

theorem Leaves.erase {names progress free : List String} (h : Leaves names progress free)
    (name : String) : Leaves names (name :: progress) (free.erase name) := by
  refine ⟨h.nodup.erase name, fun other hother => ?_⟩
  rw [h.nodup.mem_erase_iff, h.mem_iff other hother, List.mem_cons, not_or]

/-- Names that are declared once each. -/
structure TypeEnv.Unambiguous (env : TypeEnv) : Prop where
  structs : env.structs.names.Nodup
  aliases : env.aliases.names.Nodup

theorem TypeEnv.SameDecls.unambiguous {env env' : TypeEnv} (same : env.SameDecls env')
    (h : env.Unambiguous) : env'.Unambiguous :=
  ⟨same.names ▸ h.structs, same.aliases ▸ h.aliases⟩

section

open TypeEnv

/-- Resolving a type has a course if the free names are those that are not in progress. -/
def TypeCourse (structs aliases : List String) (behind : Bool) (type : TypeExpr) : Prop :=
  ∀ entered expanding s, s.env.Unambiguous → Leaves s.env.structs.names entered structs →
    Leaves s.env.aliases.names expanding aliases →
    Yields s (resolveType structs aliases behind type)
      (fun r t => ∃ events, Course entered expanding (.type behind type) s events (.ok r) t)
      fun e t => ∃ events, Course entered expanding (.type behind type) s events (.error e) t

/-- So has resolving the name of a struct. -/
def StructCourse (structs : List String) (behind : Bool) (name : String) : Prop :=
  ∀ entered expanding s, s.env.Unambiguous → Leaves s.env.structs.names entered structs →
    Yields s (resolveStruct structs behind name)
      (fun r t => ∃ events, Course entered expanding (.struct behind name) s events (.ok r) t)
      fun e t => ∃ events, Course entered expanding (.struct behind name) s events (.error e) t

/-- So has laying out a struct. -/
def LayoutCourse (structs aliases : List String) (decl : StructDecl) (id : StructId) : Prop :=
  ∀ entered s, s.env.Unambiguous → Leaves s.env.structs.names entered structs →
    Leaves s.env.aliases.names [] aliases →
    Yields s (layOut structs aliases decl id)
      (fun r t => ∃ events,
        Course entered [] (.fields decl id decl.fields .empty) s events (.ok r) t)
      fun e t => ∃ events,
        Course entered [] (.fields decl id decl.fields .empty) s events (.error e) t

/-- So has laying out some fields, whatever comes after them. -/
def FieldsCourse (structs aliases : List String) (fields : List Binding) (run : FieldRun) : Prop :=
  ∀ entered decl id s, s.env.Unambiguous → Leaves s.env.structs.names entered structs →
    Leaves s.env.aliases.names [] aliases →
    Yields s (layFields structs aliases fields run)
      (fun run' t => ∀ events out u, Course entered [] (.fields decl id [] run') t events out u →
        ∃ events', Course entered [] (.fields decl id fields run) s events' out u)
      fun e t => ∃ events, Course entered [] (.fields decl id fields run) s events (.error e) t

variable {structs aliases : List String} {behind : Bool}

/-- What is known of the events of both outcomes may be replaced at once. -/
theorem Yields.events {α : Type} {x : Resolve α} {s : ResolveState}
    {A B : List ResolveEvent → Except TypeError α → ResolveState → Prop}
    (h : Yields s x (fun r t => ∃ events, A events (.ok r) t)
      fun e t => ∃ events, A events (.error e) t)
    (f : ∀ events out t, A events out t → ∃ events', B events' out t) :
    Yields s x (fun r t => ∃ events, B events (.ok r) t)
      fun e t => ∃ events, B events (.error e) t := by
  refine h.mono ?_ ?_
  · rintro r t ⟨events, h⟩
    exact f events _ t h
  · rintro e t ⟨events, h⟩
    exact f events _ t h

theorem typeCourse_builtin (b : Builtin) : TypeCourse structs aliases behind (.builtin b) := by
  intro entered expanding s _ _ _
  rw [resolveType]
  exact ⟨[], .builtin b⟩

theorem typeCourse_pointer {element : TypeExpr} (ih : TypeCourse structs aliases true element) :
    TypeCourse structs aliases behind (.pointer element) := by
  intro entered expanding s unambiguous hstructs haliases
  rw [resolveType]
  refine yields_bind ((ih entered expanding s unambiguous hstructs haliases).mono ?_ ?_)
  · rintro r t ⟨events, h⟩
    exact ⟨events, .pointer h⟩
  · rintro e t ⟨events, h⟩
    exact ⟨events, .pointer h⟩

theorem typeCourse_named {name : String}
    (ihAlias : ∀ target, name ∈ aliases → TypeCourse structs (aliases.erase name) behind target)
    (ihStruct : StructCourse structs behind name) :
    TypeCourse structs aliases behind (.named name) := by
  intro entered expanding s unambiguous hstructs haliases
  rw [resolveType]
  refine Resolve.yields_env ?_
  split
  · next target known =>
    have hmem : name ∈ aliases ↔ name ∉ expanding :=
      haliases.mem_iff name (mem_names known)
    split
    · next hfree =>
      exact (ihAlias target hfree entered (name :: expanding) s unambiguous hstructs
        (haliases.erase name)).events fun _ _ _ h => ⟨_, .target known (hmem.1 hfree) h⟩
    · next hfree => exact ⟨[], .cycle known (Decidable.not_not.1 fun hnot => hfree (hmem.2 hnot))⟩
  · next visible =>
    exact (ihStruct entered expanding s unambiguous hstructs).events
      fun events _ _ h => ⟨events, .named visible h⟩

theorem structCourse_of_layoutCourse {name : String}
    (ih : ∀ (env : TypeEnv) (entry : StructEntry), name ∈ structs → ∀ id,
      LayoutCourse (structs.erase name) env.aliases.names entry.decl id) :
    StructCourse structs behind name := by
  intro entered expanding s unambiguous hstructs
  rw [resolveStruct]
  refine Resolve.yields_env ?_
  split
  · next missing => exact ⟨[], .unknown missing⟩
  · next entry found =>
    have hmem : name ∈ structs ↔ name ∉ entered := hstructs.mem_iff name (mem_names found)
    cases behind with
    | true =>
      rw [if_pos rfl]
      cases number : entry.layout with
      | some id => exact ⟨[], .finished found number (.inl rfl)⟩
      | none => exact ⟨_, .await found number⟩
    | false =>
      rw [if_neg Bool.false_ne_true]
      split
      · next hfree =>
        have hlayout := ih s.env entry hfree
        cases number : entry.layout with
        | some id =>
          dsimp only
          split
          · next hcomplete => exact ⟨[], .finished found number (.inr ⟨hmem.1 hfree, hcomplete⟩)⟩
          · next hcomplete =>
            have unfinished := Bool.eq_false_iff.2 hcomplete
            exact (hlayout id (name :: entered) s unambiguous (hstructs.erase name)
              (leaves_nil unambiguous.aliases)).events fun _ _ _ h =>
                ⟨_, .resume found number unfinished (.layout (hmem.1 hfree) h)⟩
        | none =>
          have hsame : s.env.SameDecls (s.env.enroll name entry) := sameDecls_enroll found
          have hleaves : Leaves (s.env.enroll name entry).structs.names (name :: entered)
              (structs.erase name) := by
            rw [hsame.names]
            exact hstructs.erase name
          exact (hlayout _ (name :: entered) { s with env := s.env.enroll name entry }
            (hsame.unambiguous unambiguous) hleaves (leaves_nil unambiguous.aliases)).events
              fun _ _ _ h => ⟨_, .start found number (.layout (hmem.1 hfree) h)⟩
      · next hfree =>
        exact ⟨[], .recursive found (Decidable.not_not.1 fun hnot => hfree (hmem.2 hnot))⟩

theorem layoutCourse_of_fieldsCourse {decl : StructDecl} {id : StructId}
    (ih : FieldsCourse structs aliases decl.fields .empty) :
    LayoutCourse structs aliases decl id := by
  intro entered s unambiguous hstructs haliases
  rw [layOut]
  refine yields_bind ((ih entered decl id s unambiguous hstructs haliases).mono ?_ fun _ _ h => h)
  exact fun run t h => h [] _ _ .done

theorem fieldsCourse_nil {run : FieldRun} : FieldsCourse structs aliases [] run := by
  intro entered decl id s _ _ _
  rw [layFields]
  exact fun events out u h => ⟨events, h⟩

theorem fieldsCourse_cons {field : Binding} {fields : List Binding} {run : FieldRun}
    (ihType : TypeCourse structs aliases false field.type)
    (ihFields : ∀ type env, FieldsCourse structs aliases fields (run.add env field.name type)) :
    FieldsCourse structs aliases (field :: fields) run := by
  intro entered decl id s unambiguous hstructs haliases
  rw [layFields]
  refine yields_bind ((ihType entered [] s unambiguous hstructs haliases).mono ?_ ?_)
  · rintro type t ⟨events, h⟩
    have hsame := h.onward.decls
    refine Resolve.yields_env ((ihFields type t.env entered decl id t
      (hsame.unambiguous unambiguous) ?_ ?_).mono ?_ ?_)
    · rwa [hsame.names]
    · rwa [hsame.aliases]
    · intro run' u hrest events' out v hdone
      obtain ⟨events'', hfields⟩ := hrest events' out v hdone
      exact ⟨_, .next h hfields⟩
    · rintro e u ⟨events', hfields⟩
      exact ⟨_, .next h hfields⟩
  · rintro e t ⟨events, h⟩
    exact ⟨events, .stop h⟩

private theorem course_resolution :
    (∀ structs aliases behind type, TypeCourse structs aliases behind type) ∧
    (∀ structs behind name, StructCourse structs behind name) ∧
    (∀ structs aliases decl id, LayoutCourse structs aliases decl id) ∧
    ∀ structs aliases fields run, FieldsCourse structs aliases fields run := by
  apply resolveType.mutual_induct
  case case1 => exact fun _ _ _ b => typeCourse_builtin b
  case case2 => exact fun _ _ _ _ ih => typeCourse_pointer ih
  case case3 => exact fun _ _ _ _ ihAlias ihStruct => typeCourse_named ihAlias ihStruct
  case case4 => exact fun _ _ _ ih => structCourse_of_layoutCourse ih
  case case5 => exact fun _ _ _ _ ih => layoutCourse_of_fieldsCourse ih
  case case6 => exact fun _ _ _ => fieldsCourse_nil
  case case7 => exact fun _ _ _ _ _ ihType ihFields => fieldsCourse_cons ihType ihFields

/-- With fuel for the structs that wait and for those that may begin to, all that wait are laid out
or one of them cannot be. -/
theorem clearing_layOutWaiting (fuel : Nat) (s : ResolveState) (unambiguous : s.env.Unambiguous)
    (enough : s.env.unnumbered + s.waiting.length ≤ fuel) :
    Yields s (layOutWaiting fuel) (fun _ t => ∃ events, Clearing s events (.ok ()) t)
      fun e t => ∃ events, Clearing s events (.error e) t := by
  induction fuel generalizing s with
  | zero => exact ⟨[], .done (List.length_eq_zero_iff.1 (by omega))⟩
  | succ fuel ih =>
    rw [layOutWaiting]
    refine yields_get ?_
    split
    · next empty => exact ⟨[], .done empty⟩
    · next name rest waits =>
      rw [waits, List.length_cons] at enough
      refine yields_bind
        (show Yields s (set { s with waiting := rest } : Resolve PUnit) _ _ from ?_)
      refine yields_bind ((course_resolution.2.1 s.env.structs.names false name [] []
        { s with waiting := rest } unambiguous (leaves_nil unambiguous.structs)).mono ?_ ?_)
      · rintro r t ⟨events, h⟩
        have hbudget : t.env.unnumbered + t.waiting.length ≤ s.env.unnumbered + rest.length :=
          h.budget
        exact (ih t (h.onward.decls.unambiguous unambiguous) (by omega)).events
          fun _ _ _ hlater => ⟨_, .next waits h hlater⟩
      · rintro e t ⟨events, h⟩
        exact ⟨_, .stop waits h⟩

end

namespace TypeEnv

variable {env : TypeEnv} {type : TypeExpr} {events : List ResolveEvent} {resolution : Resolution}

/-- A resolution has a course. -/
theorem Unambiguous.resolving (unambiguous : env.Unambiguous) (type : TypeExpr) :
    ∃ events, env.Resolving type events (env.resolve type) := by
  have hall : Yields ⟨env, [], []⟩ (resolveAll type)
      (fun r t => ∃ events, env.Resolving type events ⟨.ok r, t.env, t.notes.reverse⟩)
      fun e t => ∃ events, env.Resolving type events ⟨.error e, t.env.rollback env.layouts.size,
        (.resolutionFailed type e :: t.notes).reverse⟩ := by
    refine Resolve.yields_env (yields_bind ((course_resolution.1 env.structs.names
      env.aliases.names false type [] [] ⟨env, [], []⟩ unambiguous
      (leaves_nil unambiguous.structs) (leaves_nil unambiguous.aliases)).mono ?_ ?_))
    · rintro r t ⟨events, h⟩
      have hbudget : t.env.unnumbered + t.waiting.length ≤ env.unnumbered + 0 := h.budget
      refine yields_bind ((clearing_layOutWaiting env.structs.size t
        (h.onward.decls.unambiguous unambiguous)
        (Nat.le_trans hbudget env.unnumbered_le)).mono ?_ ?_)
      · rintro _ u ⟨events', hclearing⟩
        exact ⟨_, .resolved h hclearing⟩
      · rintro e u ⟨events', hclearing⟩
        exact ⟨_, .stuck h hclearing⟩
    · rintro e t ⟨events, h⟩
      exact ⟨events, .refused h⟩
  rw [TypeEnv.resolve]
  split
  · next hrun => exact hall.ok hrun
  · next hrun => exact hall.error hrun

/-- What is true of the events of a resolution with a given answer: no struct is given a number,
begins to wait or is entered twice, nothing begins again while it is in progress, and if the
resolution succeeds, every struct that has begun to wait is taken. -/
structure InOrder (answer : Except TypeError ResolvedType) (events : List ResolveEvent) : Prop where
  register : ∀ name, events.count (.register name) ≤ 1
  await : ∀ name, events.count (.await name) ≤ 1
  enter : ∀ name, events.count (.enter name) ≤ 1
  nests : events.foldlM ResolveEvent.next [] = some []
  take : ∀ r, answer = .ok r → ∀ name, events.count (.take name) = events.count (.await name)

/-- The events of a type and those of the structs that wait. -/
theorem inOrder_append {events' : List ResolveEvent} {r : ResolvedType} {t u : ResolveState}
    {cleared : Except TypeError Unit} {answer : Except TypeError ResolvedType}
    (numbered : env.Numbered) (h : Course [] [] (.type false type) ⟨env, [], []⟩ events (.ok r) t)
    (clearing : Clearing t events' cleared u) (hanswer : ∀ r, answer = .ok r → cleared = .ok ()) :
    InOrder answer (events ++ events') := by
  have hregister (name : String) := (h.once_register name).append (clearing.once_register name)
  have henter (name : String) : Once (.enter name) (events ++ events') _ True :=
    ((h.once_enter numbered trivial name).mono .inr fun hdone =>
      (hdone r rfl).resolve_left List.not_mem_nil).append
        (clearing.once_enter (h.onward.numbered numbered) name)
  refine ⟨fun name => (hregister name).count_le, fun name => ?_, fun name => (henter name).count_le,
    ?_, fun r hr name => ?_⟩
  · have hcount := (hregister name).count_le
    have := (h.count_waiting name).2.2
    have := (clearing.count_waiting name).2
    rw [List.count_append] at hcount ⊢
    omega
  · rw [List.foldlM_append, h.nests [] rfl rfl]
    exact clearing.nests
  · have hwaits := h.count_waiting name
    have htaken := (clearing.count_waiting name).1
    rw [clearing.waiting (hanswer r hr), hwaits.1, List.count_nil] at htaken
    rw [List.count_append, List.count_append, hwaits.2.1]
    omega

theorem Resolving.inOrder (h : env.Resolving type events resolution) (numbered : env.Numbered) :
    InOrder resolution.answer events := by
  cases h with
  | refused h =>
    refine ⟨fun name => (h.once_register name).count_le, fun name => ?_,
      fun name => (h.once_enter numbered trivial name).count_le, h.nests [] rfl rfl, nofun⟩
    exact Nat.le_trans (h.count_waiting name).2.2 (h.once_register name).count_le
  | stuck h clearing => exact inOrder_append numbered h clearing nofun
  | resolved h clearing => exact inOrder_append numbered h clearing fun _ _ => rfl

end TypeEnv

theorem Table.nodup_insert {α : Type} {table : Table α} (nodup : table.names.Nodup) (name : String)
    (value : α) : (table.insert name value).names.Nodup := by
  cases h : table.get? name with
  | none =>
    rw [Table.names, Table.entries_insert_of_get? h, List.map_append]
    refine List.nodup_append.2 ⟨nodup, List.nodup_singleton _, ?_⟩
    rintro other hold _ hnew rfl
    rw [List.map_singleton, List.mem_singleton] at hnew
    subst hnew
    have hsome := Table.isSome_find hold
    rw [show Table.get?.find other table.entries = none from h] at hsome
    cases hsome
  | some old =>
    have hsame : (table.insert name value).entries.map (fun entry => (entry.1, ())) =
        table.entries.map fun entry => (entry.1, ()) := Table.map_insert (fun _ => ()) h rfl
    have hnames : (table.insert name value).names = table.names := by
      have := congrArg (List.map Prod.fst) hsame
      rw [List.map_map, List.map_map] at this
      exact this
    rw [hnames]
    exact nodup

namespace TypeEnv

variable {env : TypeEnv}

theorem Reachable.unambiguous (reachable : env.Reachable) : env.Unambiguous := by
  refine ⟨reachable.keyed.nodup_names, ?_⟩
  induction reachable with
  | empty => exact List.nodup_nil
  | initial => decide
  | @call env _ call ih =>
    cases call with
    | declareStruct decl =>
      have hsame : (env.declareStruct decl).aliases = env.aliases := by
        rw [TypeEnv.declareStruct]
        split <;> rfl
      rw [Call.run, hsame]
      exact ih
    | declareAlias name target => exact Table.nodup_insert ih name target
    | resolve type =>
      rw [Call.run, (env.sameDecls_resolve type).aliases]
      exact ih
    | resolveStructId name =>
      rw [Call.run, env_resolveStructId, (env.sameDecls_resolve _).aliases]
      exact ih
    | reset =>
      show TypeEnv.initial.aliases.names.Nodup
      decide

/-- Every resolution has a course, and no other one: it returns. On the way each struct is given a
number, waits and is entered once at most, no struct is entered inside its own layout, no alias
inside its own expansion in one layout, and the queue of the structs that wait empties. -/
theorem resolving_of_reachable (reachable : env.Reachable) (type : TypeExpr) :
    ∃ events, env.Resolving type events (env.resolve type) ∧
      InOrder (env.resolve type).answer events ∧
      ∀ events' resolution, env.Resolving type events' resolution →
        events' = events ∧ resolution = env.resolve type := by
  obtain ⟨events, h⟩ := reachable.unambiguous.resolving type
  exact ⟨events, h, h.inOrder reachable.closed.numbers, fun _ _ h' => h'.unique h⟩

/-- The nodes of a list are laid out once they are met behind a pointer. -/
theorem resolving_of_reachable_linkedNodes : linkedNodes.Reachable ∧ ∃ events,
    linkedNodes.Resolving (.named "NodePtr") events (linkedNodes.resolve (.named "NodePtr")) ∧
      InOrder (linkedNodes.resolve (.named "NodePtr")).answer events := by
  have hlinked : linkedNodes.Reachable :=
    .call (.call .initial (.declareAlias "NodePtr" _)) (.declareStruct _)
  obtain ⟨events, hresolving, horder, -⟩ := resolving_of_reachable hlinked (.named "NodePtr")
  exact ⟨hlinked, events, hresolving, horder⟩

end TypeEnv

end Offside
