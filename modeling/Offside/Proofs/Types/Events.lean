import Offside.Proofs.Types.Course
import Offside.Proofs.Types.Closed

/-!
# Events of a resolution

Along the course of a resolution a struct that has been given a number has it from then on, and one
that is being laid out is not entered again before its layout is finished, nor afterwards. So each
struct is given a number, waits, and is entered at most once. Nothing begins again while it is in
progress, and every struct that waits is taken before the resolution ends well.

## Main definitions

* `Offside.Once`: an event that happens at most once.
* `Offside.TypeEnv.Onward`: later tables of a resolution.

## Main results

* `Offside.Course.nests`: nothing begins again while it is in progress.
* `Offside.Course.once_register`, `Offside.Course.once_enter`: no struct is given a number, or
  entered, twice.
* `Offside.Course.count_waiting`, `Offside.Clearing.count_waiting`: what waits is taken.
* `Offside.Course.budget`: every struct that waits takes a number from those that are left.
-/

namespace Offside

/-! ### Events that happen once -/

/-- Of the events, `event` is one at most, and none if `before` is true. If `before` is true, or
once it has happened, `after` is true. -/
structure Once (event : ResolveEvent) (events : List ResolveEvent) (before after : Prop) :
    Prop where
  count_le : events.count event ≤ 1
  absent : before → event ∉ events
  after : before ∨ event ∈ events → after

namespace Once

variable {event other : ResolveEvent} {events events' : List ResolveEvent}
  {before middle after before' after' : Prop}

theorem nil (h : before → after) : Once event [] before after :=
  ⟨Nat.zero_le _, fun _ => List.not_mem_nil, fun hor => h (hor.resolve_right List.not_mem_nil)⟩

theorem mono (h : Once event events before after) (hbefore : before' → before)
    (hafter : after → after') : Once event events before' after' :=
  ⟨h.count_le, fun hb => h.absent (hbefore hb), fun hor => hafter (h.after (hor.imp_left hbefore))⟩

theorem append (h : Once event events before middle) (k : Once event events' middle after) :
    Once event (events ++ events') before after := by
  refine ⟨?_, fun hbefore => ?_, fun hor => ?_⟩
  · rw [List.count_append]
    by_cases hmem : event ∈ events
    · rw [List.count_eq_zero_of_not_mem (k.absent (h.after (.inr hmem)))]
      exact h.count_le
    · rw [List.count_eq_zero_of_not_mem hmem, Nat.zero_add]
      exact k.count_le
  · exact List.not_mem_append (h.absent hbefore) (k.absent (h.after (.inl hbefore)))
  · rw [List.mem_append, ← or_assoc] at hor
    exact k.after (hor.imp_left h.after)

/-- Another event. -/
theorem of_ne (hne : event ≠ other) (h : before → after) : Once event [other] before after :=
  ⟨by rw [List.count_eq_zero_of_not_mem (by simpa using hne)]; exact Nat.zero_le 1,
    fun _ => by simpa using hne, fun hor => h (hor.resolve_right (by simpa using hne))⟩

theorem self (hnot : ¬ before) (h : after) : Once event [event] before after :=
  ⟨by simp, fun hbefore => absurd hbefore hnot, fun _ => h⟩

theorem cons_other (hne : event ≠ other) (h : Once event events before after) :
    Once event (other :: events) before after := (of_ne hne id).append h

theorem concat_other (hne : event ≠ other) (h : Once event events before after) :
    Once event (events ++ [other]) before after := h.append (of_ne hne id)

end Once

/-! ### What a course keeps -/

namespace TypeEnv

variable {env env' : TypeEnv} {name : String} {id : StructId} {entry : StructEntry}
  {layout : StructLayout}

/-- The numbers of structs are those of layouts. -/
def Numbered (env : TypeEnv) : Prop :=
  ∀ name id, env.idOf? name = some id → id.index < env.layouts.size

/-- A struct with a finished layout. -/
def IsFinished (env : TypeEnv) (name : String) : Prop :=
  ∃ id, env.idOf? name = some id ∧ env.Finished id

/-- Later tables of a resolution, in which numbers are kept and finished layouts are finished. -/
structure Onward (env env' : TypeEnv) : Prop where
  decls : env.SameDecls env'
  numbers : env.KeepsNumbers env'
  numbered : env.Numbered → env'.Numbered
  finished : ∀ id, env.Finished id → env'.Finished id

instance : IsPreorder TypeEnv Onward where
  refl _ := ⟨refl_of SameDecls _, refl_of KeepsNumbers _, fun h => h, fun _ h => h⟩
  trans _ _ _ h k := ⟨trans_of SameDecls h.decls k.decls, trans_of KeepsNumbers h.numbers k.numbers,
    fun hn => k.numbered (h.numbered hn), fun id hid => k.finished id (h.finished id hid)⟩

theorem Onward.isFinished (h : env.Onward env') (hname : env.IsFinished name) :
    env'.IsFinished name := by
  obtain ⟨id, hid, hfinished⟩ := hname
  exact ⟨id, h.numbers name id hid, h.finished id hfinished⟩

theorem onward_enroll (hentry : env.structs.get? name = some entry) (hnew : entry.layout = none) :
    env.Onward (env.enroll name entry) := by
  have hsize : (env.enroll name entry).layouts.size = env.layouts.size + 1 := Array.size_push _
  refine ⟨sameDecls_enroll hentry, fun _ _ => idOf?_enroll_of_some hentry hnew,
    fun hnumbered other id hid => ?_, fun id hid => ⟨?_, ?_⟩⟩
  · rw [idOf?_enroll] at hid
    rw [hsize]
    split at hid
    · cases hid
      exact Nat.lt_succ_self _
    · exact Nat.lt_succ_of_lt (hnumbered other id hid)
  · rw [hsize]
    exact Nat.lt_succ_of_lt hid.1
  · rw [layout_enroll_of_lt hid.1]
    exact hid.2

theorem finished_finish (hcomplete : layout.complete = true) (h : id.index < env.layouts.size) :
    (env.finish id layout).Finished id := by
  refine ⟨?_, ?_⟩
  · rw [finish, Array.size_setIfInBounds]
    exact h
  · rw [layout_finish_self layout h]
    exact hcomplete

theorem onward_finish (hcomplete : layout.complete = true) :
    env.Onward (env.finish id layout) := by
  have hsize : (env.finish id layout).layouts.size = env.layouts.size := Array.size_setIfInBounds
  refine ⟨⟨rfl, rfl⟩, fun _ _ h => h, fun hnumbered name id hid => ?_, fun other hother => ?_⟩
  · rw [hsize]
    exact hnumbered name id hid
  · by_cases he : other = id
    · exact he ▸ finished_finish hcomplete (he ▸ hother.1)
    · refine ⟨hsize.symm ▸ hother.1, ?_⟩
      rw [layout_finish_of_ne he]
      exact hother.2

end TypeEnv

section

variable {entered expanding : List String} {task : ResolveTask} {s t u : ResolveState}
  {events : List ResolveEvent} {out : Except TypeError ResolvedType}
  {cleared : Except TypeError Unit}

open TypeEnv

theorem Course.onward (h : Course entered expanding task s events out t) : s.env.Onward t.env := by
  induction h with
  | builtin | cycle | unknown | recursive | finished => exact refl_of Onward _
  | pointer _ ih | target _ _ _ ih | named _ _ ih | resume _ _ _ _ ih | layout _ _ ih
    | stop _ ih => exact ih
  | await found new => exact onward_enroll found new
  | start found new _ ih => exact trans_of Onward (onward_enroll found new) ih
  | done => exact onward_finish rfl
  | next _ _ ih ihRest => exact trans_of Onward ih ihRest

/-- Every struct that waits has taken a number, and the number of these is bounded. -/
theorem Course.budget (h : Course entered expanding task s events out t) :
    t.env.unnumbered + t.waiting.length ≤ s.env.unnumbered + s.waiting.length := by
  induction h with
  | builtin | cycle | unknown | recursive | finished | done => exact Nat.le_refl _
  | pointer _ ih | target _ _ _ ih | named _ _ ih | resume _ _ _ _ ih | layout _ _ ih
    | stop _ ih => exact ih
  | await found new =>
    have := unnumbered_enroll found new
    rw [List.length_cons]
    dsimp only
    omega
  | start found new _ ih =>
    have := unnumbered_enroll found new
    dsimp only at ih
    omega
  | next _ _ ih ihRest => exact Nat.le_trans ihRest ih

/-- Nothing begins again while it is in progress, and all that begins ends. -/
theorem Course.nests (h : Course entered expanding task s events out t)
    (progress : List InProgress) (hstructs : InProgress.structs progress = entered)
    (haliases : InProgress.aliases progress = expanding) :
    events.foldlM ResolveEvent.next progress = some progress := by
  induction h generalizing progress with
  | builtin | cycle | unknown | recursive | finished | done => rfl
  | pointer _ ih | named _ _ ih | resume _ _ _ _ ih | stop _ ih =>
    exact ih progress hstructs haliases
  | target _ first _ ih =>
    have hbegin := ih (.alias _ :: progress) hstructs (congrArg _ haliases)
    rw [← haliases] at first
    simp [ResolveEvent.next, first, hbegin]
  | await => rfl
  | start _ _ _ ih =>
    rw [List.foldlM_cons]
    exact ih progress hstructs haliases
  | layout first _ ih =>
    have hbegin := ih (.layout _ :: progress) (congrArg _ hstructs) rfl
    rw [← hstructs] at first
    simp [ResolveEvent.next, first, hbegin]
  | next _ _ ih ihRest =>
    rw [List.foldlM_append, ih progress hstructs haliases]
    exact ihRest progress hstructs haliases

/-- The structs that begin to wait are the ones that have to be taken. -/
theorem Course.count_waiting (h : Course entered expanding task s events out t) (name : String) :
    t.waiting.count name = s.waiting.count name + events.count (.await name) ∧
      events.count (.take name) = 0 ∧
      events.count (.await name) ≤ events.count (.register name) := by
  induction h with
  | builtin | cycle | unknown | recursive | finished | done => simp
  | pointer _ ih | named _ _ ih | resume _ _ _ _ ih | stop _ ih => exact ih
  | target _ _ _ ih | layout _ _ ih => simpa using ih
  | await => simp [List.count_cons]
  | start _ _ _ ih =>
    simp only [List.count_cons] at ih ⊢
    simp only [beq_iff_eq, reduceCtorEq, if_false] at ih ⊢
    omega
  | next _ _ ih ihRest =>
    simp only [List.count_append]
    omega

theorem once_enroll {name : String} {entry : StructEntry} (other : String)
    (hentry : s.env.structs.get? name = some entry) (hnew : entry.layout = none) :
    Once (.register other) [.register name] ((s.env.idOf? other).isSome)
      (((s.env.enroll name entry).idOf? other).isSome) := by
  by_cases he : other = name
  · subst he
    refine .self ?_ ?_
    · rw [idOf?, hentry, Option.bind_some, hnew]
      exact Bool.false_ne_true
    · rw [idOf?_enroll, if_pos rfl]
      rfl
  · refine .of_ne (fun heq => he (ResolveEvent.register.inj heq)) fun hsome => ?_
    rwa [idOf?_enroll, if_neg (Ne.symm he)]

/-- A struct is given a number once only. -/
theorem Course.once_register (h : Course entered expanding task s events out t) (name : String) :
    Once (.register name) events ((s.env.idOf? name).isSome) ((t.env.idOf? name).isSome) := by
  induction h with
  | builtin | cycle | unknown | recursive | finished | done => exact .nil fun h => h
  | pointer _ ih | named _ _ ih | resume _ _ _ _ ih | stop _ ih => exact ih
  | target _ _ _ ih | layout _ _ ih => exact (ih.concat_other (by simp)).cons_other (by simp)
  | await found new => exact (once_enroll name found new).concat_other (by simp)
  | start found new _ ih => exact (once_enroll name found new).append ih
  | next _ _ ih ihRest => exact ih.append ihRest

/-- Laying out fields to the end finishes the layout. -/
theorem Course.isFinished {decl : StructDecl} {id : StructId} {fields : List Binding}
    {run : FieldRun} {r : ResolvedType} {name : String}
    (h : Course entered expanding (.fields decl id fields run) s events (.ok r) t)
    (numbered : s.env.Numbered) (hid : s.env.idOf? name = some id) : t.env.IsFinished name := by
  induction fields generalizing s events run with
  | nil =>
    cases h with
    | done => exact ⟨id, hid, finished_finish rfl (numbered name id hid)⟩
  | cons field fields ih =>
    cases h with
    | next h rest => exact ih rest (h.onward.numbered numbered) (h.onward.numbers name id hid)

/-- What has to be known of a struct when it is to be laid out. -/
def ResolveTask.Ready (env : TypeEnv) : ResolveTask → Prop
  | .layout name _ id => env.idOf? name = some id ∧ (env.layout id).complete = false
  | .type .. | .struct .. | .fields .. => True

/-- A struct is entered once only: it is not entered while it is in progress, nor when its layout is
finished. -/
theorem Course.once_enter (h : Course entered expanding task s events out t)
    (numbered : s.env.Numbered) (ready : task.Ready s.env) (name : String) :
    Once (.enter name) events (name ∈ entered ∨ s.env.IsFinished name)
      (∀ r, out = .ok r → name ∈ entered ∨ t.env.IsFinished name) := by
  induction h with
  | builtin | cycle | unknown | recursive | finished => exact .nil fun h _ _ => h
  | @pointer _ _ _ _ _ _ _ out _ ih =>
    refine (ih numbered trivial).mono id fun hdone r hr => ?_
    cases out with
    | ok r => exact hdone r rfl
    | error => cases hr
  | named _ _ ih => exact ih numbered trivial
  | target _ _ _ ih => exact ((ih numbered trivial).concat_other (by simp)).cons_other (by simp)
  | @await _ _ _ _ s found new =>
    have honward : s.env.Onward _ := onward_enroll found new
    refine ((Once.nil ?_).cons_other (by simp)).cons_other (by simp)
    exact fun hdone _ _ => hdone.imp_right honward.isFinished
  | resume found number unfinished _ ih =>
    refine ih numbered ⟨?_, unfinished⟩
    rw [idOf?, found]
    exact number
  | @start _ _ _ _ s _ _ _ found new _ ih =>
    have honward : s.env.Onward _ := onward_enroll found new
    refine ((ih (honward.numbered numbered) ⟨?_, ?_⟩).mono
      (fun hdone => hdone.imp_right honward.isFinished) id).cons_other (by simp)
    · rw [idOf?_enroll, if_pos rfl]
    · rw [layout_enroll_self]
      rfl
  | @layout entered _ other decl id s t events out first h ih =>
    have hinner : Once (.enter name) (events ++ [.leave other]) _ _ :=
      (ih numbered trivial).concat_other (by simp)
    by_cases he : name = other
    · -- It is in progress until its layout is finished.
      subst he
      refine (Once.self ?_ trivial).append
        (hinner.mono (fun _ => .inl List.mem_cons_self) fun _ r hr => .inr ?_)
      · rintro (hmem | ⟨id', hid', hfinished⟩)
        · exact first hmem
        · cases ready.1.symm.trans hid'
          rw [TypeEnv.Finished, ready.2] at hfinished
          cases hfinished.2
      · subst hr
        exact h.isFinished numbered ready.1
    · refine (hinner.mono (fun hdone => hdone.imp_left (List.mem_cons_of_mem _))
        fun hdone r hr => (hdone r hr).imp_left fun hmem => ?_).cons_other
          fun heq => he (ResolveEvent.enter.inj heq)
      exact (List.mem_cons.1 hmem).resolve_left he
  | done => exact .nil fun hdone _ _ => hdone.imp_right (onward_finish rfl).isFinished
  | stop _ ih =>
    refine (ih numbered trivial).mono id fun _ r hr => ?_
    cases hr
  | next h _ ih ihRest =>
    exact ((ih numbered trivial).mono id fun hdone => hdone _ rfl).append
      (ihRest (h.onward.numbered numbered) trivial)

/-! ### Structs that wait -/

theorem Clearing.nests (h : Clearing s events cleared t) :
    events.foldlM ResolveEvent.next [] = some [] := by
  induction h with
  | done => rfl
  | stop _ h => exact h.nests [] rfl rfl
  | next _ h _ ih =>
    rw [List.foldlM_cons]
    show List.foldlM ResolveEvent.next [] _ = _
    rw [List.foldlM_append, h.nests [] rfl rfl]
    exact ih

/-- Whatever waits at some time is taken or waits at the end. -/
theorem Clearing.count_waiting (h : Clearing s events cleared t) (name : String) :
    s.waiting.count name + events.count (.await name) =
        events.count (.take name) + t.waiting.count name ∧
      events.count (.await name) ≤ events.count (.register name) := by
  induction h with
  | done => simp
  | stop waits h =>
    have := h.count_waiting name
    rw [waits]
    simp [List.count_cons] at this ⊢
    omega
  | next waits h _ ih =>
    have := h.count_waiting name
    rw [waits]
    simp [List.count_cons] at this ⊢
    omega

theorem Clearing.waiting (h : Clearing s events cleared t) (ok : cleared = .ok ()) :
    t.waiting = [] := by
  induction h with
  | done empty => exact empty
  | stop => cases ok
  | next _ _ _ ih => exact ih ok

theorem Clearing.once_register (h : Clearing s events cleared t) (name : String) :
    Once (.register name) events ((s.env.idOf? name).isSome) ((t.env.idOf? name).isSome) := by
  induction h with
  | done => exact .nil fun h => h
  | stop _ h => exact (h.once_register name).cons_other (by simp)
  | next _ h _ ih => exact ((h.once_register name).append ih).cons_other (by simp)

theorem Clearing.once_enter (h : Clearing s events cleared t) (numbered : s.env.Numbered)
    (name : String) : Once (.enter name) events (s.env.IsFinished name) True := by
  induction h with
  | done => exact .nil fun _ => trivial
  | stop _ h =>
    exact ((h.once_enter numbered trivial name).mono .inr fun _ => trivial).cons_other (by simp)
  | next _ h _ ih =>
    refine (((h.once_enter numbered trivial name).mono .inr fun hdone => ?_).append
      (ih (h.onward.numbered numbered))).cons_other (by simp)
    exact (hdone _ rfl).resolve_left List.not_mem_nil

end

end Offside
