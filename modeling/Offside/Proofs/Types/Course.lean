import Offside.Proofs.Types.Layout

/-!
# The course of a resolution

Resolution follows names, and nothing in a type or in a declaration grows smaller on the way. What
it does is told here step by step, with no bound on the depth of the recursion or on the number of
structs that wait, and only with a record of what is in progress: the structs that have been
entered, and the aliases that are being expanded since the innermost of these was entered. A course
is finite, so a resolution that has one returns.

Along a course events happen. They nest if nothing begins again while it is in progress.

## Main definitions

* `Offside.ResolveEvent`: what happens while a type is resolved.
* `Offside.ResolveEvent.next`: what is in progress after an event, unless the event must not happen.
* `Offside.Course`: the course of a part of a resolution, and its events.
* `Offside.Clearing`: the course of laying out the structs that wait.
* `Offside.TypeEnv.Resolving`: the course of a whole resolution.

## Main results

* `Offside.TypeEnv.Resolving.unique`: a resolution has at most one course.
-/

namespace Offside

/-- What happens while a type is resolved. -/
inductive ResolveEvent
  /-- A struct is given a number. -/
  | register (name : String)
  /-- A struct begins to wait for its fields to be laid out. -/
  | await (name : String)
  /-- A struct that waits is taken out of the queue. -/
  | take (name : String)
  /-- The fields of a struct are being laid out from here on. -/
  | enter (name : String)
  /-- They no longer are. -/
  | leave (name : String)
  /-- An alias is being expanded from here on. -/
  | expand (name : String)
  /-- It no longer is. -/
  | expanded (name : String)
  deriving DecidableEq, Repr

/-- What is in progress. -/
inductive InProgress
  | layout (name : String)
  | alias (name : String)
  deriving DecidableEq, Repr

namespace InProgress

/-- The structs whose fields are being laid out, the innermost first. -/
def structs : List InProgress → List String
  | [] => []
  | .layout name :: rest => name :: structs rest
  | .alias _ :: rest => structs rest

/-- The aliases that are being expanded since the innermost struct was entered. -/
def aliases : List InProgress → List String
  | .alias name :: rest => name :: aliases rest
  | _ => []

end InProgress

/-- What is in progress after an event, innermost first. A struct must not be entered inside its own
layout, nor an alias inside its own expansion in one layout; only what is innermost ends; and
structs are taken out of the queue when nothing is in progress. -/
def ResolveEvent.next : List InProgress → ResolveEvent → Option (List InProgress)
  | progress, .register _ | progress, .await _ => some progress
  | [], .take _ => some []
  | progress, .enter name =>
    if name ∈ InProgress.structs progress then none else some (.layout name :: progress)
  | .layout other :: rest, .leave name => if other = name then some rest else none
  | progress, .expand name =>
    if name ∈ InProgress.aliases progress then none else some (.alias name :: progress)
  | .alias other :: rest, .expanded name => if other = name then some rest else none
  | _, _ => none

/-- Parts of a resolution. -/
inductive ResolveTask
  | type (behind : Bool) (type : TypeExpr)
  | struct (behind : Bool) (name : String)
  /-- Lay out a struct that has a number. -/
  | layout (name : String) (decl : StructDecl) (id : StructId)
  /-- Lay out fields after those of a run, and finish the layout. -/
  | fields (decl : StructDecl) (id : StructId) (fields : List Binding) (run : FieldRun)

/-- The course of a part of a resolution while the structs in `entered` are being laid out and the
aliases in `expanding` are being expanded, with its events in order and its outcome. -/
inductive Course : (entered expanding : List String) → ResolveTask → ResolveState →
    List ResolveEvent → Except TypeError ResolvedType → ResolveState → Prop
  | builtin {entered expanding : List String} {behind : Bool} {s : ResolveState} (b : Builtin) :
    Course entered expanding (.type behind (.builtin b)) s [] (.ok (.ofBuiltin b)) s
  | pointer {entered expanding : List String} {behind : Bool} {element : TypeExpr}
    {s t : ResolveState} {events : List ResolveEvent} {out : Except TypeError ResolvedType}
    (h : Course entered expanding (.type true element) s events out t) :
    Course entered expanding (.type behind (.pointer element)) s events (out.map .pointer) t
  | cycle {entered expanding : List String} {behind : Bool} {name : String} {target : TypeExpr}
    {s : ResolveState} (known : s.env.alias? name = some target) (again : name ∈ expanding) :
    Course entered expanding (.type behind (.named name)) s [] (.error (.aliasCycle name)) s
  | target {entered expanding : List String} {behind : Bool} {name : String} {target : TypeExpr}
    {s t : ResolveState} {events : List ResolveEvent} {out : Except TypeError ResolvedType}
    (known : s.env.alias? name = some target) (first : name ∉ expanding)
    (h : Course entered (name :: expanding) (.type behind target) s events out t) :
    Course entered expanding (.type behind (.named name)) s
      (.expand name :: (events ++ [.expanded name])) out t
  | named {entered expanding : List String} {behind : Bool} {name : String} {s t : ResolveState}
    {events : List ResolveEvent} {out : Except TypeError ResolvedType}
    (visible : s.env.alias? name = none)
    (h : Course entered expanding (.struct behind name) s events out t) :
    Course entered expanding (.type behind (.named name)) s events out t
  | unknown {entered expanding : List String} {behind : Bool} {name : String} {s : ResolveState}
    (missing : s.env.structs.get? name = none) :
    Course entered expanding (.struct behind name) s [] (.error (.unknownType name)) s
  | recursive {entered expanding : List String} {name : String} {entry : StructEntry}
    {s : ResolveState} (found : s.env.structs.get? name = some entry) (again : name ∈ entered) :
    Course entered expanding (.struct false name) s [] (.error (.recursiveStruct name)) s
  | finished {entered expanding : List String} {behind : Bool} {name : String}
    {entry : StructEntry} {id : StructId} {s : ResolveState}
    (found : s.env.structs.get? name = some entry) (number : entry.layout = some id)
    (known : behind = true ∨ name ∉ entered ∧ (s.env.layout id).complete = true) :
    Course entered expanding (.struct behind name) s [] (.ok (.struct id)) s
  | await {entered expanding : List String} {name : String} {entry : StructEntry}
    {s : ResolveState} (found : s.env.structs.get? name = some entry)
    (new : entry.layout = none) :
    Course entered expanding (.struct true name) s [.register name, .await name]
      (.ok (.struct ⟨s.env.layouts.size⟩))
      { s with env := s.env.enroll name entry, waiting := name :: s.waiting }
  | resume {entered expanding : List String} {name : String} {entry : StructEntry} {id : StructId}
    {s t : ResolveState} {events : List ResolveEvent} {out : Except TypeError ResolvedType}
    (found : s.env.structs.get? name = some entry) (number : entry.layout = some id)
    (unfinished : (s.env.layout id).complete = false)
    (h : Course entered expanding (.layout name entry.decl id) s events out t) :
    Course entered expanding (.struct false name) s events out t
  | start {entered expanding : List String} {name : String} {entry : StructEntry}
    {s t : ResolveState} {events : List ResolveEvent} {out : Except TypeError ResolvedType}
    (found : s.env.structs.get? name = some entry) (new : entry.layout = none)
    (h : Course entered expanding (.layout name entry.decl ⟨s.env.layouts.size⟩)
      { s with env := s.env.enroll name entry } events out t) :
    Course entered expanding (.struct false name) s (.register name :: events) out t
  | layout {entered expanding : List String} {name : String} {decl : StructDecl} {id : StructId}
    {s t : ResolveState} {events : List ResolveEvent} {out : Except TypeError ResolvedType}
    (first : name ∉ entered)
    (h : Course (name :: entered) [] (.fields decl id decl.fields .empty) s events out t) :
    Course entered expanding (.layout name decl id) s
      (.enter name :: (events ++ [.leave name])) out t
  | done {entered expanding : List String} {decl : StructDecl} {id : StructId} {run : FieldRun}
    {s : ResolveState} :
    Course entered expanding (.fields decl id [] run) s [] (.ok (.struct id))
      { s with
        env := s.env.finish id (run.layout decl.name)
        notes := .structLaidOut decl.name (run.layout decl.name).size
          (run.layout decl.name).align :: s.notes }
  | stop {entered expanding : List String} {decl : StructDecl} {id : StructId} {field : Binding}
    {fields : List Binding} {run : FieldRun} {s t : ResolveState} {events : List ResolveEvent}
    {error : TypeError}
    (h : Course entered expanding (.type false field.type) s events (.error error) t) :
    Course entered expanding (.fields decl id (field :: fields) run) s events (.error error) t
  | next {entered expanding : List String} {decl : StructDecl} {id : StructId} {field : Binding}
    {fields : List Binding} {run : FieldRun} {s t u : ResolveState}
    {events events' : List ResolveEvent} {type : ResolvedType}
    {out : Except TypeError ResolvedType}
    (h : Course entered expanding (.type false field.type) s events (.ok type) t)
    (rest : Course entered expanding
      (.fields decl id fields (run.add t.env field.name type)) t events' out u) :
    Course entered expanding (.fields decl id (field :: fields) run) s (events ++ events') out u

/-- The course of laying out the structs that wait, the one that came last first. It ends well only
when none is left. -/
inductive Clearing : ResolveState → List ResolveEvent → Except TypeError Unit → ResolveState → Prop
  | done {s : ResolveState} (empty : s.waiting = []) : Clearing s [] (.ok ()) s
  | stop {name : String} {rest : List String} {s t : ResolveState} {events : List ResolveEvent}
    {error : TypeError} (waits : s.waiting = name :: rest)
    (h : Course [] [] (.struct false name) { s with waiting := rest } events (.error error) t) :
    Clearing s (.take name :: events) (.error error) t
  | next {name : String} {rest : List String} {s t u : ResolveState}
    {events events' : List ResolveEvent} {r : ResolvedType} {out : Except TypeError Unit}
    (waits : s.waiting = name :: rest)
    (h : Course [] [] (.struct false name) { s with waiting := rest } events (.ok r) t)
    (later : Clearing t events' out u) : Clearing s (.take name :: (events ++ events')) out u

/-- The course of a whole resolution, which fails if the type cannot be resolved or a struct that
waits cannot be laid out. -/
inductive TypeEnv.Resolving (env : TypeEnv) (type : TypeExpr) :
    List ResolveEvent → Resolution → Prop
  | refused {events : List ResolveEvent} {error : TypeError} {t : ResolveState}
    (h : Course [] [] (.type false type) ⟨env, [], []⟩ events (.error error) t) :
    Resolving env type events ⟨.error error, t.env.rollback env.layouts.size,
      (.resolutionFailed type error :: t.notes).reverse⟩
  | stuck {events events' : List ResolveEvent} {r : ResolvedType} {error : TypeError}
    {t u : ResolveState} (h : Course [] [] (.type false type) ⟨env, [], []⟩ events (.ok r) t)
    (clearing : Clearing t events' (.error error) u) :
    Resolving env type (events ++ events') ⟨.error error, u.env.rollback env.layouts.size,
      (.resolutionFailed type error :: u.notes).reverse⟩
  | resolved {events events' : List ResolveEvent} {r : ResolvedType} {t u : ResolveState}
    (h : Course [] [] (.type false type) ⟨env, [], []⟩ events (.ok r) t)
    (clearing : Clearing t events' (.ok ()) u) :
    Resolving env type (events ++ events') ⟨.ok r, u.env, u.notes.reverse⟩

section

variable {entered expanding : List String} {task : ResolveTask} {s t t' : ResolveState}
  {events events' : List ResolveEvent} {out out' : Except TypeError ResolvedType}

/-! ### What follows from where a struct stands -/

section

variable {behind : Bool} {name : String} {entry : StructEntry} {decl : StructDecl} {id : StructId}

/-- A struct whose fields are being laid out is not laid out again. -/
theorem Course.first (h : Course entered expanding (.layout name decl id) s events out t) :
    name ∉ entered := by
  cases h with
  | layout first => exact first

theorem Course.eq_of_missing (h : Course entered expanding (.struct behind name) s events out t)
    (missing : s.env.structs.get? name = none) :
    events = [] ∧ out = .error (.unknownType name) ∧ t = s := by
  cases h with
  | unknown => exact ⟨rfl, rfl, rfl⟩
  | recursive found | finished found | await found | resume found | start found =>
    cases found.symm.trans missing

theorem Course.eq_of_again (h : Course entered expanding (.struct false name) s events out t)
    (found : s.env.structs.get? name = some entry) (again : name ∈ entered) :
    events = [] ∧ out = .error (.recursiveStruct name) ∧ t = s := by
  cases h with
  | unknown missing => cases found.symm.trans missing
  | recursive => exact ⟨rfl, rfl, rfl⟩
  | finished _ _ known => exact absurd again (known.resolve_left Bool.false_ne_true).1
  | resume _ _ _ h | start _ _ h => exact absurd again h.first

theorem Course.eq_of_known (h : Course entered expanding (.struct behind name) s events out t)
    (found : s.env.structs.get? name = some entry) (number : entry.layout = some id)
    (known : behind = true ∨ name ∉ entered ∧ (s.env.layout id).complete = true) :
    events = [] ∧ out = .ok (.struct id) ∧ t = s := by
  cases h with
  | unknown missing => cases found.symm.trans missing
  | recursive _ again => exact absurd again (known.resolve_left Bool.false_ne_true).1
  | finished found' number' =>
    cases found.symm.trans found'
    cases number.symm.trans number'
    exact ⟨rfl, rfl, rfl⟩
  | resume found' number' unfinished =>
    cases found.symm.trans found'
    cases number.symm.trans number'
    cases (known.resolve_left Bool.false_ne_true).2.symm.trans unfinished
  | await found' new | start found' new =>
    cases found.symm.trans found'
    cases number.symm.trans new

theorem Course.eq_of_await (h : Course entered expanding (.struct true name) s events out t)
    (found : s.env.structs.get? name = some entry) (new : entry.layout = none) :
    events = [.register name, .await name] ∧ out = .ok (.struct ⟨s.env.layouts.size⟩) ∧
      t = { s with env := s.env.enroll name entry, waiting := name :: s.waiting } := by
  cases h with
  | unknown missing => cases found.symm.trans missing
  | finished found' number =>
    cases found.symm.trans found'
    cases new.symm.trans number
  | await found' =>
    cases found.symm.trans found'
    exact ⟨rfl, rfl, rfl⟩

theorem Course.of_unfinished (h : Course entered expanding (.struct false name) s events out t)
    (found : s.env.structs.get? name = some entry) (number : entry.layout = some id)
    (unfinished : (s.env.layout id).complete = false) (first : name ∉ entered) :
    Course entered expanding (.layout name entry.decl id) s events out t := by
  cases h with
  | unknown missing => cases found.symm.trans missing
  | recursive _ again => exact absurd again first
  | finished found' number' known =>
    cases found.symm.trans found'
    cases number.symm.trans number'
    cases (known.resolve_left Bool.false_ne_true).2.symm.trans unfinished
  | resume found' number' _ h =>
    cases found.symm.trans found'
    cases number.symm.trans number'
    exact h
  | start found' new =>
    cases found.symm.trans found'
    cases number.symm.trans new

theorem Course.of_new (h : Course entered expanding (.struct false name) s events out t)
    (found : s.env.structs.get? name = some entry) (new : entry.layout = none)
    (first : name ∉ entered) :
    ∃ events', events = .register name :: events' ∧
      Course entered expanding (.layout name entry.decl ⟨s.env.layouts.size⟩)
        { s with env := s.env.enroll name entry } events' out t := by
  cases h with
  | unknown missing => cases found.symm.trans missing
  | recursive _ again => exact absurd again first
  | finished found' number | resume found' number =>
    cases found.symm.trans found'
    cases new.symm.trans number
  | start found' _ h =>
    cases found.symm.trans found'
    exact ⟨_, rfl, h⟩

end

/-! ### There is no other course -/

theorem Course.unique (h : Course entered expanding task s events out t)
    (h' : Course entered expanding task s events' out' t') :
    events = events' ∧ out = out' ∧ t = t' := by
  induction h generalizing events' out' t' with
  | builtin | done =>
    cases h'
    exact ⟨rfl, rfl, rfl⟩
  | pointer _ ih =>
    cases h' with
    | pointer h' =>
      obtain ⟨rfl, rfl, rfl⟩ := ih h'
      exact ⟨rfl, rfl, rfl⟩
  | cycle known again =>
    cases h' with
    | cycle => exact ⟨rfl, rfl, rfl⟩
    | target _ first => exact absurd again first
    | named visible => cases known.symm.trans visible
  | target known first _ ih =>
    cases h' with
    | cycle _ again => exact absurd again first
    | target known' _ h' =>
      cases known.symm.trans known'
      obtain ⟨rfl, rfl, rfl⟩ := ih h'
      exact ⟨rfl, rfl, rfl⟩
    | named visible => cases known.symm.trans visible
  | named visible _ ih =>
    cases h' with
    | cycle known | target known => cases known.symm.trans visible
    | named _ h' => exact ih h'
  | unknown missing =>
    obtain ⟨rfl, rfl, rfl⟩ := h'.eq_of_missing missing
    exact ⟨rfl, rfl, rfl⟩
  | recursive found again =>
    obtain ⟨rfl, rfl, rfl⟩ := h'.eq_of_again found again
    exact ⟨rfl, rfl, rfl⟩
  | finished found number known =>
    obtain ⟨rfl, rfl, rfl⟩ := h'.eq_of_known found number known
    exact ⟨rfl, rfl, rfl⟩
  | await found new =>
    obtain ⟨rfl, rfl, rfl⟩ := h'.eq_of_await found new
    exact ⟨rfl, rfl, rfl⟩
  | resume found number unfinished h ih =>
    exact ih (h'.of_unfinished found number unfinished h.first)
  | start found new h ih =>
    obtain ⟨_, rfl, rest⟩ := h'.of_new found new h.first
    obtain ⟨rfl, rfl, rfl⟩ := ih rest
    exact ⟨rfl, rfl, rfl⟩
  | layout _ _ ih =>
    cases h' with
    | layout _ h' =>
      obtain ⟨rfl, rfl, rfl⟩ := ih h'
      exact ⟨rfl, rfl, rfl⟩
  | stop _ ih =>
    cases h' with
    | stop h' => exact ih h'
    | next h' =>
      obtain ⟨-, hout, -⟩ := ih h'
      cases hout
  | next _ _ ih ihRest =>
    cases h' with
    | stop h' =>
      obtain ⟨-, hout, -⟩ := ih h'
      cases hout
    | next h' rest' =>
      obtain ⟨rfl, hout, rfl⟩ := ih h'
      cases hout
      obtain ⟨rfl, rfl, rfl⟩ := ihRest rest'
      exact ⟨rfl, rfl, rfl⟩

theorem Clearing.unique {out out' : Except TypeError Unit} (h : Clearing s events out t)
    (h' : Clearing s events' out' t') : events = events' ∧ out = out' ∧ t = t' := by
  induction h generalizing events' out' t' with
  | done empty =>
    cases h' with
    | done => exact ⟨rfl, rfl, rfl⟩
    | stop waits | next waits => cases empty.symm.trans waits
  | stop waits h =>
    cases h' with
    | done empty => cases empty.symm.trans waits
    | stop waits' h' =>
      cases waits.symm.trans waits'
      obtain ⟨rfl, hout, rfl⟩ := h.unique h'
      cases hout
      exact ⟨rfl, rfl, rfl⟩
    | next waits' h' =>
      cases waits.symm.trans waits'
      obtain ⟨-, hout, -⟩ := h.unique h'
      cases hout
  | next waits h _ ih =>
    cases h' with
    | done empty => cases empty.symm.trans waits
    | stop waits' h' =>
      cases waits.symm.trans waits'
      obtain ⟨-, hout, -⟩ := h.unique h'
      cases hout
    | next waits' h' later' =>
      cases waits.symm.trans waits'
      obtain ⟨rfl, -, rfl⟩ := h.unique h'
      obtain ⟨rfl, rfl, rfl⟩ := ih later'
      exact ⟨rfl, rfl, rfl⟩

end

/-- A resolution goes one way only. -/
theorem TypeEnv.Resolving.unique {env : TypeEnv} {type : TypeExpr}
    {events events' : List ResolveEvent} {resolution resolution' : Resolution}
    (h : env.Resolving type events resolution) (h' : env.Resolving type events' resolution') :
    events = events' ∧ resolution = resolution' := by
  cases h with
  | refused h =>
    cases h' with
    | refused h' =>
      obtain ⟨rfl, hout, rfl⟩ := h.unique h'
      cases hout
      exact ⟨rfl, rfl⟩
    | stuck h' | resolved h' =>
      obtain ⟨-, hout, -⟩ := h.unique h'
      cases hout
  | stuck h clearing =>
    cases h' with
    | refused h' =>
      obtain ⟨-, hout, -⟩ := h.unique h'
      cases hout
    | stuck h' clearing' =>
      obtain ⟨rfl, -, rfl⟩ := h.unique h'
      obtain ⟨rfl, hout, rfl⟩ := clearing.unique clearing'
      cases hout
      exact ⟨rfl, rfl⟩
    | resolved h' clearing' =>
      obtain ⟨rfl, -, rfl⟩ := h.unique h'
      obtain ⟨-, hout, -⟩ := clearing.unique clearing'
      cases hout
  | resolved h clearing =>
    cases h' with
    | refused h' =>
      obtain ⟨-, hout, -⟩ := h.unique h'
      cases hout
    | stuck h' clearing' =>
      obtain ⟨rfl, -, rfl⟩ := h.unique h'
      obtain ⟨-, hout, -⟩ := clearing.unique clearing'
      cases hout
    | resolved h' clearing' =>
      obtain ⟨rfl, hout, rfl⟩ := h.unique h'
      cases hout
      obtain ⟨rfl, -, rfl⟩ := clearing.unique clearing'
      exact ⟨rfl, rfl⟩

end Offside
