import Offside.Proofs.Ensures
import Offside.Proofs.Lowering.Work

/-!
# The calls that lowering makes

Lowering asks the backend what there is to ask about a tree, question by question. With each it
passes the answers to earlier ones, as the tree says, and it stops at the first question that the
backend does not answer and at the first node that is rejected.

So the calls that are made depend on the backend only by its answers. Two backends that give the
same answers are asked the same, up to the first question that one of them does not answer.

## Main definitions

* `Offside.Backend.recorded`: a backend with a log of what it is asked and what it answers.
* `Offside.Backend.CarriesOut`: carrying out what there is to do about a tree.
* `Offside.Backend.Gives`: a backend gives some answers.

## Main results

* `Offside.Backend.performs_lowerItem`: lowering an item is carrying out what there is to do.
* `Offside.Backend.CarriesOut.stopped`: a backend that fails where another one answers.
-/

namespace Offside

variable {σ σ' ε ε' V α β : Type}

/-- A call about the node at a place, with the answer if one was given. -/
structure Exchange (V : Type) where
  call : Call V
  place : Location
  answer : Option V

/-- The answer with a given number, if it was given. -/
def answer? (log : List (Exchange V)) (k : Nat) : Option V := log[k]?.bind Exchange.answer

theorem answer?_append {log : List (Exchange V)} {k : Nat} (hk : k < log.length)
    (more : List (Exchange V)) : answer? (log ++ more) k = answer? log k := by
  rw [answer?, List.getElem?_append_left hk, answer?]

theorem answer?_length (log : List (Exchange V)) (x : Exchange V) :
    answer? (log ++ [x]) log.length = x.answer := by
  rw [answer?, List.getElem?_concat_length, Option.bind_some]

namespace Work

variable {ws ws' : List Work} {n : Nat}

theorem stepsAll_append (n : Nat) (ws ws' : List Work) :
    stepsAll n (ws ++ ws') = stepsAll n ws ++ stepsAll (n + sizeAll ws) ws' := by
  induction ws generalizing n with
  | nil => rfl
  | cons w ws ih =>
    rw [List.cons_append, stepsAll, stepsAll, sizeAll, ih, List.append_assoc, Nat.add_assoc]

theorem roots_append (n : Nat) (ws ws' : List Work) :
    roots n (ws ++ ws') = roots n ws ++ roots (n + sizeAll ws) ws' := by
  induction ws generalizing n with
  | nil => rfl
  | cons w ws ih =>
    rw [List.cons_append, roots, roots, sizeAll, ih, List.cons_append, Nat.add_assoc]

end Work

namespace Backend

/-- A backend with a log of what it is asked and what it answers. -/
def recorded (backend : Backend σ ε V) : Backend (σ × List (Exchange V)) ε V where
  perform call place state :=
    match backend.perform call place state.1 with
    | .ok v s => .ok v (s, state.2 ++ [⟨call, place, some v⟩])
    | .error e s => .error e (s, state.2 ++ [⟨call, place, none⟩])
  reject := backend.reject

/-- A backend gives the answers of a log, and its state is then another one. -/
inductive Gives (backend : Backend σ ε V) : σ → List (Exchange V) → σ → Prop
  | nil (s : σ) : Gives backend s [] s
  | cons {s t u : σ} {call : Call V} {place : Location} {v : V} {log : List (Exchange V)}
    (answered : backend.perform call place s = .ok v t) (rest : Gives backend t log u) :
    Gives backend s (⟨call, place, some v⟩ :: log) u

/-- Carrying out some steps, from a state of the backend and the log of what came before, up to
the first failure if there is one. The values that are passed are answers in this log. -/
inductive CarriesOut (backend : Backend σ ε V) : List Work.Step → σ × List (Exchange V) →
    Option ε → σ × List (Exchange V) → Prop
  | done (state : σ × List (Exchange V)) : CarriesOut backend [] state none state
  | answered {call : Call V} {place : Location} {args : List Nat} {steps : List Work.Step} {s t : σ}
    {log : List (Exchange V)} {v : V} {failure : Option ε} {state : σ × List (Exchange V)}
    (values : call.values.map some = args.map (answer? log))
    (answer : backend.perform call place s = .ok v t)
    (rest : CarriesOut backend steps (t, log ++ [⟨call, place, some v⟩]) failure state) :
    CarriesOut backend (.ask call.head place args :: steps) (s, log) failure state
  | failed {call : Call V} {place : Location} {args : List Nat} {steps : List Work.Step} {s t : σ}
    {log : List (Exchange V)} {e : ε} (values : call.values.map some = args.map (answer? log))
    (failure : backend.perform call place s = .error e t) :
    CarriesOut backend (.ask call.head place args :: steps) (s, log) (some e)
      (t, log ++ [⟨call, place, none⟩])
  | rejected (error : LowerError) (steps : List Work.Step) (state : σ × List (Exchange V)) :
    CarriesOut backend (.reject error :: steps) state (some (backend.reject error)) state

namespace CarriesOut

variable {backend : Backend σ ε V} {backend' : Backend σ' ε' V} {xs ys steps : List Work.Step}
  {state state' state'' : σ × List (Exchange V)} {failure failure' : Option ε}

theorem append (h : backend.CarriesOut xs state none state')
    (k : backend.CarriesOut ys state' failure state'') :
    backend.CarriesOut (xs ++ ys) state failure state'' := by
  generalize hnone : (none : Option ε) = first at h
  induction h with
  | done => exact k
  | answered values answer _ ih => exact .answered values answer (ih k hnone)
  | failed => cases hnone
  | rejected => cases hnone

/-- What comes after a failure does not matter. -/
theorem append_failed {e : ε} (h : backend.CarriesOut xs state (some e) state') :
    backend.CarriesOut (xs ++ ys) state (some e) state' := by
  generalize hsome : some e = first at h ⊢
  induction h with
  | done => cases hsome
  | answered values answer _ ih => exact .answered values answer (ih hsome)
  | failed values failure => exact .failed values failure
  | rejected => exact .rejected _ _ _

/-- Calls are added to the log, one for each step if none fails. -/
theorem exists_log (h : backend.CarriesOut steps state failure state') :
    ∃ more, state'.2 = state.2 ++ more ∧ (failure = none → more.length = steps.length) := by
  induction h with
  | done => exact ⟨[], (List.append_nil _).symm, fun _ => rfl⟩
  | answered _ _ _ ih =>
    obtain ⟨more, hmore, hlength⟩ := ih
    rw [List.append_assoc, List.singleton_append] at hmore
    exact ⟨_, hmore, fun hnone => by rw [List.length_cons, List.length_cons, hlength hnone]⟩
  | failed => exact ⟨_, rfl, fun hnone => nomatch hnone⟩
  | rejected => exact ⟨[], (List.append_nil _).symm, fun hnone => nomatch hnone⟩

theorem length_log (h : backend.CarriesOut steps state none state') :
    state'.2.length = state.2.length + steps.length := by
  obtain ⟨more, hmore, hlength⟩ := h.exists_log
  rw [hmore, List.length_append, hlength rfl]

/-- A call is known from what there is to ask and from the answers so far. -/
theorem call_eq {call call' : Call V} {args : List Nat} {log : List (Exchange V)}
    (hhead : call.head = call'.head) (h : call.values.map some = args.map (answer? log))
    (h' : call'.values.map some = args.map (answer? log)) : call = call' :=
  Call.eq_of_head hhead ((List.map_inj_right fun _ _ => Option.some.inj).1 (h.trans h'.symm))

/-- Carrying out steps has one outcome. -/
theorem unique (h : backend.CarriesOut steps state failure state')
    (k : backend.CarriesOut steps state failure' state'') :
    failure = failure' ∧ state' = state'' := by
  induction h generalizing failure' state'' with
  | done =>
    cases k
    exact ⟨rfl, rfl⟩
  | @answered call place args steps s t log v failure state values answer _ ih =>
    generalize hstep : Work.Step.ask call.head place args = step at k
    cases k with
    | answered values' answer' rest' =>
      injection hstep with hhead hplace hargs
      subst hplace hargs
      cases call_eq hhead values values'
      cases answer.symm.trans answer'
      exact ih rest'
    | failed values' failure' =>
      injection hstep with hhead hplace hargs
      subst hplace hargs
      cases call_eq hhead values values'
      cases answer.symm.trans failure'
    | rejected => cases hstep
  | @failed call place args steps s t log e values failure =>
    generalize hstep : Work.Step.ask call.head place args = step at k
    cases k with
    | answered values' answer' rest' =>
      injection hstep with hhead hplace hargs
      subst hplace hargs
      cases call_eq hhead values values'
      cases failure.symm.trans answer'
    | failed values' failure' =>
      injection hstep with hhead hplace hargs
      subst hplace hargs
      cases call_eq hhead values values'
      cases failure.symm.trans failure'
      exact ⟨rfl, rfl⟩
    | rejected => cases hstep
  | rejected =>
    cases k
    exact ⟨rfl, rfl⟩

/-- A backend that gives the same answers up to some call, and fails there, is asked the same up to
this call, which is the last one. -/
theorem stopped {log more rest : List (Exchange V)} {x : Exchange V} {s : σ} {s' t' u' : σ'}
    {e : ε'} (h : backend.CarriesOut steps (s, log) failure state)
    (hlog : state.2 = log ++ (more ++ x :: rest)) (gives : backend'.Gives s' more t')
    (fails : backend'.perform x.call x.place t' = .error e u') :
    backend'.CarriesOut steps (s', log) (some e)
      (u', log ++ more ++ [⟨x.call, x.place, none⟩]) := by
  generalize hstart : (s, log) = start at h
  induction h generalizing s log more s' with
  | done =>
    cases hstart
    simp at hlog
  | @answered call place args steps s₁ t log₁ v failure state values answer later ih =>
    obtain ⟨rfl, rfl⟩ := Prod.mk.inj hstart
    obtain ⟨new, hnew, -⟩ := later.exists_log
    rw [hlog, List.append_assoc, List.append_cancel_left_eq, List.singleton_append] at hnew
    cases gives with
    | nil =>
      cases hnew
      rw [List.append_nil]
      exact .failed values fails
    | cons answered gives =>
      cases hnew
      refine .answered values answered ?_
      simpa using ih (by simp [hlog]) gives rfl
  | failed values failure =>
    cases hstart
    have hlog := List.append_cancel_left hlog
    cases gives with
    | nil =>
      cases hlog
      rw [List.append_nil]
      exact .failed values fails
    | cons => simp at hlog
  | rejected =>
    cases hstart
    simp at hlog

end CarriesOut

/-! ### Lowering as carrying out steps -/

/-- The first computation is the second one with a log, and carries out what there is to do about
some trees. Their answers, as they stand in the log, make up its result in the way given. -/
def Performs (backend : Backend σ ε V) (ws : List Work) (Q : α → List V → Prop)
    (x : EStateM ε (σ × List (Exchange V)) α) (y : EStateM ε σ α) : Prop :=
  ∀ state, Yields state x
    (fun a state' => y.run state.1 = .ok a state'.1 ∧
      backend.CarriesOut (Work.stepsAll state.2.length ws) state none state' ∧
      ∃ vs, vs.map some = (Work.roots state.2.length ws).map (answer? state'.2) ∧ Q a vs)
    fun e state' => y.run state.1 = .error e state'.1 ∧
      backend.CarriesOut (Work.stepsAll state.2.length ws) state (some e) state'

section

variable {backend : Backend σ ε V} {ws ws' : List Work} {Q : α → List V → Prop}
  {x : EStateM ε (σ × List (Exchange V)) α} {y : EStateM ε σ α}

theorem performs_pure {a : α} (ha : Q a []) : backend.Performs [] Q (pure a) (pure a) :=
  fun state => ⟨rfl, .done state, [], rfl, ha⟩

theorem performs_reject (error : LowerError) :
    backend.Performs [.reject error] Q (throw (backend.recorded.reject error))
      (throw (backend.reject error)) :=
  fun state => ⟨rfl, .rejected error [] state⟩

theorem performs_bind {Q' : β → List V → Prop} {f : α → EStateM ε (σ × List (Exchange V)) β}
    {g : α → EStateM ε σ β} (hx : backend.Performs ws Q x y)
    (hf : ∀ a vs, Q a vs → backend.Performs ws' (fun b vs' => Q' b (vs ++ vs')) (f a) (g a)) :
    backend.Performs (ws ++ ws') Q' (x >>= f) (y >>= g) := by
  intro state
  have first {a : α} {s : σ} (h : y.run state.1 = .ok a s) :
      (y >>= g).run state.1 = (g a).run s := by
    rw [EStateM.run_bind, h]
  refine yields_bind ((hx state).mono ?_ ?_)
  · rintro a state' ⟨hrun, hsteps, vs, hvs, ha⟩
    have hlength := hsteps.length_log
    rw [Work.length_stepsAll] at hlength
    refine (hf a vs ha state').mono ?_ ?_
    · rintro b state'' ⟨hrun', hsteps', vs', hvs', hb⟩
      obtain ⟨more, hmore, -⟩ := hsteps'.exists_log
      rw [hlength] at hsteps' hvs'
      refine ⟨(first hrun).trans hrun', ?_, vs ++ vs', ?_, hb⟩
      · rw [Work.stepsAll_append]
        exact hsteps.append hsteps'
      · rw [List.map_append, hvs, hvs', Work.roots_append, List.map_append]
        refine congrArg (· ++ _) (List.map_congr_left fun k hk => ?_)
        have := Work.lt_of_mem_roots hk
        rw [hmore, answer?_append (by omega)]
    · rintro e state'' ⟨hrun', hsteps'⟩
      rw [hlength] at hsteps'
      refine ⟨(first hrun).trans hrun', ?_⟩
      rw [Work.stepsAll_append]
      exact hsteps.append hsteps'
  · rintro e state' ⟨hrun, hsteps⟩
    refine ⟨by rw [EStateM.run_bind, hrun], ?_⟩
    rw [Work.stepsAll_append]
    exact hsteps.append_failed

theorem performs_map {Q' : β → List V → Prop} {f : α → β} (hx : backend.Performs ws Q x y)
    (hQ : ∀ a vs, Q a vs → Q' (f a) vs) :
    backend.Performs ws Q' (do return f (← x)) (do return f (← y)) := by
  have last (a : α) (vs : List V) (ha : Q a vs) :
      backend.Performs [] (fun b vs' => Q' b (vs ++ vs')) (pure (f a)) (pure (f a)) :=
    performs_pure (by rw [List.append_nil]; exact hQ a vs ha)
  have := performs_bind hx last
  rwa [List.append_nil] at this

/-- A node about which the backend is asked after what is below it. -/
theorem performs_node {head : Call Unit} {x : EStateM ε (σ × List (Exchange V)) (Call V)}
    {y : EStateM ε σ (Call V)} (place : Location)
    (hx : backend.Performs ws (fun call vs => call.head = head ∧ call.values = vs) x y) :
    backend.Performs [.ask head place ws] (fun v vs => vs = [v])
      (x >>= fun call => backend.recorded.perform call place)
      (y >>= fun call => backend.perform call place) := by
  intro state
  have hroots (n : Nat) : Work.roots n [.ask head place ws] = [n + Work.sizeAll ws] := rfl
  have hsteps (n : Nat) : Work.stepsAll n [.ask head place ws] =
      Work.stepsAll n ws ++ [.ask head place (Work.roots n ws)] := List.append_nil _
  rw [hroots, hsteps]
  refine yields_bind ((hx state).mono ?_ ?_)
  · rintro call ⟨s, log⟩ ⟨hrun, hbelow, vs, hvs, rfl, rfl⟩
    have hlength := hbelow.length_log
    rw [Work.length_stepsAll] at hlength
    rw [Yields, recorded, ← hlength]
    dsimp only
    cases hperform : backend.perform call place s with
    | ok v t =>
      refine ⟨?_, hbelow.append (.answered hvs hperform (.done _)), [v], ?_, rfl⟩
      · rw [EStateM.run_bind, hrun]
        exact hperform
      · rw [List.map_singleton, List.map_singleton, answer?_length]
    | error e t =>
      refine ⟨?_, hbelow.append (.failed hvs hperform)⟩
      rw [EStateM.run_bind, hrun]
      exact hperform
  · rintro e state' ⟨hrun, hbelow⟩
    refine ⟨?_, hbelow.append_failed⟩
    rw [EStateM.run_bind, hrun]

end

/-! ### Expressions -/

/-- What there is to do about an expression is done by a computation of its value. -/
abbrev PerformsOne (backend : Backend σ ε V) (w : Work) :
    EStateM ε (σ × List (Exchange V)) V → EStateM ε σ V → Prop :=
  backend.Performs [w] fun v vs => vs = [v]

variable {backend : Backend σ ε V}

/-- A node below which there is nothing. -/
theorem performs_leaf {call : Call V} {place : Location} (h : call.values = []) :
    backend.PerformsOne (.ask call.head place []) (backend.recorded.perform call place)
      (backend.perform call place) :=
  performs_node place (performs_pure ⟨rfl, h⟩)

/-- A node below which there is one. -/
theorem performs_unary {call : V → Call V} {head : Call Unit} {place : Location} {w : Work}
    {x : EStateM ε (σ × List (Exchange V)) V} {y : EStateM ε σ V} (hx : backend.PerformsOne w x y)
    (hcall : ∀ v, (call v).head = head ∧ (call v).values = [v]) :
    backend.PerformsOne (.ask head place [w])
      (do backend.recorded.perform (call (← x)) place) (do backend.perform (call (← y)) place) := by
  have := performs_node place (performs_map hx fun v vs hv =>
    ⟨(hcall v).1, (hcall v).2.trans hv.symm⟩)
  simpa only [bind_assoc, pure_bind] using this

/-- A node below which there are two. -/
theorem performs_binary {call : V → V → Call V} {head : Call Unit} {place : Location}
    {w w' : Work} {x x' : EStateM ε (σ × List (Exchange V)) V} {y y' : EStateM ε σ V}
    (hx : backend.PerformsOne w x y) (hx' : backend.PerformsOne w' x' y')
    (hcall : ∀ v v', (call v v').head = head ∧ (call v v').values = [v, v']) :
    backend.PerformsOne (.ask head place [w, w'])
      (do
        let v ← x
        let v' ← x'
        backend.recorded.perform (call v v') place)
      (do
        let v ← y
        let v' ← y'
        backend.perform (call v v') place) := by
  have := performs_node place (performs_bind hx fun v vs hv =>
    performs_map hx' fun v' vs' hv' =>
      ⟨(hcall v v').1, (hcall v v').2.trans (by rw [hv, hv']; rfl)⟩)
  simpa only [bind_assoc, pure_bind] using! this

/-- A node below which there are the nodes of a list. -/
theorem performs_many {c : List V → Call V} {head : Call Unit} {place : Location}
    {ws : List Work} {shape : List Unit} {x : EStateM ε (σ × List (Exchange V)) (List V)}
    {y : EStateM ε σ (List V)}
    (hx : backend.Performs ws (fun vs vs' => blanks vs = shape ∧ vs' = vs) x y)
    (hcall : ∀ vs, blanks vs = shape → (c vs).head = head ∧ (c vs).values = vs) :
    backend.PerformsOne (.ask head place ws)
      (do backend.recorded.perform (c (← x)) place) (do backend.perform (c (← y)) place) := by
  have := performs_node place (performs_map hx fun vs vs' hvs =>
    ⟨(hcall vs hvs.1).1, (hcall vs hvs.1).2.trans hvs.2.symm⟩)
  simpa only [bind_assoc, pure_bind] using this

mutual

theorem performs_lowerExpr :
    (e : Expr) → backend.PerformsOne e.work (lowerExpr backend.recorded e) (lowerExpr backend e)
  | .number tag value => by
    rw [lowerExpr, lowerExpr]
    exact performs_leaf rfl
  | .var tag name => by
    rw [lowerExpr, lowerExpr]
    exact performs_leaf rfl
  | .addressOf tag place => by
    rw [lowerExpr, lowerExpr]
    exact performs_unary (performs_lowerPlace place) fun _ => ⟨rfl, rfl⟩
  | .index tag base position => by
    rw [lowerExpr, lowerExpr]
    exact performs_binary (performs_lowerExpr base) (performs_lowerExpr position)
      fun _ _ => ⟨rfl, rfl⟩
  | .member tag object field => by
    rw [lowerExpr, lowerExpr]
    exact performs_unary (performs_lowerExpr object) fun _ => ⟨rfl, rfl⟩
  | .unary tag op operand => by
    rw [lowerExpr, lowerExpr]
    exact performs_unary (performs_lowerExpr operand) fun _ => ⟨rfl, rfl⟩
  | .binary tag op left right => by
    rw [lowerExpr, lowerExpr]
    exact performs_binary (performs_lowerExpr left) (performs_lowerExpr right)
      fun _ _ => ⟨rfl, rfl⟩
  | .call tag callee args => by
    rw [lowerExpr, lowerExpr]
    exact performs_many (c := Call.call callee) (performs_lowerExprs args)
      fun _ h => ⟨by rw [Call.head, h], rfl⟩

theorem performs_lowerPlace : (e : Expr) →
    backend.PerformsOne e.placeWork (lowerPlace backend.recorded e) (lowerPlace backend e)
  | .var tag name => by
    rw [lowerPlace, lowerPlace]
    exact performs_leaf rfl
  | .index tag base position => by
    rw [lowerPlace, lowerPlace]
    exact performs_binary (performs_lowerExpr base) (performs_lowerExpr position)
      fun _ _ => ⟨rfl, rfl⟩
  | .member tag object field => by
    rw [lowerPlace, lowerPlace]
    exact performs_unary (performs_lowerPlace object) fun _ => ⟨rfl, rfl⟩
  | .number tag _ | .addressOf tag _ | .unary tag _ _ | .binary tag _ _ _ | .call tag _ _ => by
    rw [lowerPlace, lowerPlace]
    exact performs_reject _

theorem performs_lowerExprs : (es : List Expr) →
    backend.Performs (Expr.works es) (fun vs vs' => blanks vs = blanks es ∧ vs' = vs)
      (lowerExprs backend.recorded es) (lowerExprs backend es)
  | [] => performs_pure ⟨rfl, rfl⟩
  | e :: es => by
    rw [lowerExprs, lowerExprs]
    exact performs_bind (performs_lowerExpr e) fun v vs hv =>
      performs_map (performs_lowerExprs es) fun rest rest' hrest =>
        ⟨congrArg (() :: ·) hrest.1, by rw [hv, hrest.2]; rfl⟩

end

theorem performs_lowerOptional (e : Option Expr) :
    backend.Performs (Expr.works e.toList)
      (fun v vs => v.map (fun _ => ()) = e.map (fun _ => ()) ∧ vs = v.toList)
      (lowerOptional backend.recorded e) (lowerOptional backend e) := by
  cases e with
  | none => exact performs_pure ⟨rfl, rfl⟩
  | some e => exact performs_map (performs_lowerExpr e) fun v vs hv => ⟨rfl, hv⟩

theorem performs_lowerPattern (pattern : Pattern) :
    backend.Performs (Expr.works pattern.exprs)
      (fun v vs => v.map (fun _ => ()) = pattern.blank ∧ vs = v.toList)
      (lowerPattern backend.recorded pattern) (lowerPattern backend pattern) := by
  cases pattern with
  | wildcard => exact performs_pure ⟨rfl, rfl⟩
  | value e => exact performs_map (performs_lowerExpr e) fun v vs hv => ⟨rfl, hv⟩

/-! ### Statements -/

mutual

theorem performs_lowerStmt :
    (s : Stmt) → backend.PerformsOne s.work (lowerStmt backend.recorded s) (lowerStmt backend s)
  | .expr tag value => by
    rw [lowerStmt, lowerStmt]
    exact performs_unary (performs_lowerExpr value) fun _ => ⟨rfl, rfl⟩
  | .declare tag name type init => by
    rw [lowerStmt, lowerStmt]
    have : backend.PerformsOne (Stmt.declare tag name type init).work _ _ :=
      performs_node tag.location (performs_map (performs_lowerOptional init)
        (f := Call.declare name type) fun v vs hv => ⟨by rw [Call.head, hv.1], hv.2.symm⟩)
    simpa only [bind_assoc, pure_bind] using this
  | .assign tag target value => by
    rw [lowerStmt, lowerStmt]
    exact performs_binary (performs_lowerPlace target) (performs_lowerExpr value)
      fun _ _ => ⟨rfl, rfl⟩
  | .ret tag value => by
    rw [lowerStmt, lowerStmt]
    have : backend.PerformsOne (Stmt.ret tag value).work _ _ :=
      performs_node tag.location (performs_map (performs_lowerOptional value)
        (f := Call.ret) fun v vs hv => ⟨by rw [Call.head, hv.1], hv.2.symm⟩)
    simpa only [bind_assoc, pure_bind] using this
  | .print tag args => by
    rw [lowerStmt, lowerStmt]
    exact performs_many (c := Call.print) (performs_lowerExprs args) fun _ h =>
      ⟨by rw [Call.head, h], rfl⟩
  | .branch tag condition thenSuite elseSuite => by
    rw [lowerStmt, lowerStmt]
    have := performs_node tag.location (performs_bind (performs_lowerExpr condition)
      fun c vs hc => performs_bind (performs_lowerSuite thenSuite) fun t ts ht =>
        performs_map (performs_lowerElse elseSuite) (f := Call.branch c t) fun e es he =>
          ⟨by rw [Call.head, ht.1, he.1], by rw [hc, ht.2, he.2]; rfl⟩)
    simpa only [bind_assoc, pure_bind] using! this
  | .forRange tag counter start stop step body => by
    rw [lowerStmt, lowerStmt]
    have := performs_node tag.location (performs_bind (performs_lowerExpr start)
      fun a as ha => performs_bind (performs_lowerExpr stop) fun b bs hb =>
        performs_bind (performs_lowerOptional step) fun c cs hc =>
          performs_map (performs_lowerSuite body) (f := Call.forRange counter a b c)
            fun d ds hd => ⟨by rw [Call.head, hc.1, hd.1], by rw [ha, hb, hc.2, hd.2]; rfl⟩)
    simpa only [bind_assoc, pure_bind] using! this
  | .whileLoop tag condition body => by
    rw [lowerStmt, lowerStmt]
    have := performs_node tag.location (performs_bind (performs_lowerExpr condition)
      fun c cs hc => performs_map (performs_lowerSuite body) (f := Call.whileLoop c)
        fun b bs hb => ⟨by rw [Call.head, hb.1], by rw [hc, hb.2]; rfl⟩)
    simpa only [bind_assoc, pure_bind] using! this
  | .doWhile tag body condition => by
    rw [lowerStmt, lowerStmt]
    have := performs_node tag.location (performs_bind (performs_lowerSuite body)
      fun b bs hb => performs_map (performs_lowerExpr condition) (f := Call.doWhile b)
        fun c cs hc => ⟨by rw [Call.head, hb.1], by rw [hb.2, hc]; rfl⟩)
    simpa only [bind_assoc, pure_bind] using! this
  | .jump tag jump => by
    rw [lowerStmt, lowerStmt]
    exact performs_leaf rfl
  | .select tag scrutinee arms => by
    rw [lowerStmt, lowerStmt]
    have := performs_node tag.location (performs_bind (performs_lowerExpr scrutinee)
      fun s ss hs => performs_map (performs_lowerArms arms) (f := Call.select s)
        fun as vs has => ⟨by rw [Call.head, has.1], by rw [hs, has.2]; rfl⟩)
    simpa only [bind_assoc, pure_bind] using! this

theorem performs_lowerSuite : (suite : Suite) →
    backend.Performs suite.works (fun vs vs' => blanks vs = blanks suite.stmts ∧ vs' = vs)
      (lowerSuite backend.recorded suite) (lowerSuite backend suite)
  | .mk _ stmts => performs_lowerStmts stmts

theorem performs_lowerStmts : (ss : List Stmt) →
    backend.Performs (Stmt.works ss) (fun vs vs' => blanks vs = blanks ss ∧ vs' = vs)
      (lowerStmts backend.recorded ss) (lowerStmts backend ss)
  | [] => performs_pure ⟨rfl, rfl⟩
  | s :: ss => by
    rw [lowerStmts, lowerStmts]
    exact performs_bind (performs_lowerStmt s) fun v vs hv =>
      performs_map (performs_lowerStmts ss) fun rest rest' hrest =>
        ⟨congrArg (() :: ·) hrest.1, by rw [hv, hrest.2]; rfl⟩

theorem performs_lowerElse : (suite : Option Suite) →
    backend.Performs (Suite.worksElse suite)
      (fun v vs => v.map blanks = suite.map (fun s => blanks s.stmts) ∧ vs = v.getD [])
      (lowerElse backend.recorded suite) (lowerElse backend suite)
  | none => performs_pure ⟨rfl, rfl⟩
  | some suite => performs_map (performs_lowerSuite suite) fun _ _ h => ⟨congrArg some h.1, h.2⟩

theorem performs_lowerArms : (arms : List Arm) →
    backend.Performs (Arm.works arms)
      (fun as vs => as.map LoweredArm.head = arms.map Arm.head ∧
        vs = as.flatMap LoweredArm.values)
      (lowerArms backend.recorded arms) (lowerArms backend arms)
  | [] => performs_pure ⟨rfl, rfl⟩
  | .mk _ pattern body :: arms => by
    rw [lowerArms, lowerArms, Arm.works, List.append_assoc]
    exact performs_bind (performs_lowerPattern pattern) fun p ps hp =>
      performs_bind (performs_lowerSuite body) fun b bs hb =>
        performs_map (performs_lowerArms arms) fun rest rest' hrest =>
          ⟨by rw [List.map_cons, List.map_cons, hrest.1, LoweredArm.head, hp.1, hb.1]; rfl,
            by rw [hp.2, hb.2, hrest.2, List.flatMap_cons, LoweredArm.values, List.append_assoc]⟩

end

/-- Lowering an item is carrying out what there is to do about it. -/
theorem performs_lowerItem (types : TypeEnv) (item : Item) :
    backend.PerformsOne (item.work types) (lowerItem backend.recorded types item)
      (lowerItem backend types item) := by
  unfold lowerItem Item.work
  cases item.shape with
  | function proto body =>
    exact performs_many (c := Call.function proto) (performs_lowerSuite body)
      fun _ h => ⟨by rw [Call.head, h], rfl⟩
  | external proto => exact performs_leaf rfl
  | typeAlias name target => exact performs_leaf rfl
  | struct name =>
    dsimp only
    cases types.structDecl? name with
    | none => exact performs_reject _
    | some decl => exact performs_leaf rfl
  | statement stmt => exact performs_unary (performs_lowerStmt stmt) fun _ => ⟨rfl, rfl⟩

end Backend

end Offside
