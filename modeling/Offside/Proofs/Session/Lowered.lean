import Offside.Proofs.Lowering.Calls
import Offside.Proofs.Session.Accepted

/-!
# How accepted items are lowered

About an accepted item there is a question for each node and one for the item itself, unless it
has a place that is not rooted, where lowering stops. Up to there, or up to the first call that it
does not answer, any backend is asked in the order of the tree, each node after those below it.

## Main definitions

* `Offside.Backend.callsFor`: what a backend is asked about an item.

## Main results

* `Offside.Session.reject_notMem_iff_of_reachable`: an accepted item with a node that is rejected.
* `Offside.Session.calls_of_reachable`: the calls for an accepted item.
-/

namespace Offside

variable {σ ε V : Type}

namespace Backend

variable {backend : Backend σ ε V} {types : TypeEnv} {item : Item} {steps : List Work.Step}
  {state state' : σ × List (Exchange V)}

/-- What a backend is asked about an item, and what it answers. -/
def callsFor (backend : Backend σ ε V) (types : TypeEnv) (item : Item) (start : σ) :
    List (Exchange V) :=
  match (lowerItem backend.recorded types item).run (start, []) with
  | .ok _ state => state.2
  | .error _ state => state.2

theorem CarriesOut.reject_notMem (h : backend.CarriesOut steps state none state') :
    ∀ error, .reject error ∉ steps := by
  generalize hnone : (none : Option ε) = failure at h
  induction h with
  | done => exact fun _ => List.not_mem_nil
  | answered _ _ _ ih =>
    intro error hmem
    rcases List.mem_cons.1 hmem with hhead | hrest
    · cases hhead
    · exact ih hnone error hrest
  | failed => cases hnone
  | rejected => cases hnone

/-- A backend whose methods do not fail stops only at a rejection. -/
theorem CarriesOut.exists_reject (total : backend.Total) {e : ε}
    (h : backend.CarriesOut steps state (some e) state') : ∃ error, .reject error ∈ steps := by
  generalize hsome : some e = failure at h
  induction h with
  | done => cases hsome
  | answered _ _ _ ih =>
    obtain ⟨error, hmem⟩ := ih hsome
    exact ⟨error, List.mem_cons_of_mem _ hmem⟩
  | @failed call place _ _ s _ _ _ _ failure =>
    obtain ⟨v, t, hanswer⟩ := total call place s
    cases failure.symm.trans hanswer
  | rejected error => exact ⟨error, List.mem_cons_self⟩

/-- Lowering an item is the same whether its calls are recorded or not. What is asked is what there
is to ask, and the last answer is the value of the item. -/
theorem yields_lowerItem (backend : Backend σ ε V) (types : TypeEnv) (item : Item) (start : σ) :
    Yields (start, []) (lowerItem backend.recorded types item)
      (fun v state => (lowerItem backend types item).run start = .ok v state.1 ∧
        backend.CarriesOut ((item.work types).steps 0) (start, []) none state ∧
        answer? state.2 (state.2.length - 1) = some v)
      fun e state => (lowerItem backend types item).run start = .error e state.1 ∧
        backend.CarriesOut ((item.work types).steps 0) (start, []) (some e) state := by
  have hsteps : Work.stepsAll 0 [item.work types] = (item.work types).steps 0 :=
    List.append_nil _
  refine (performs_lowerItem types item (start, [])).mono ?_ ?_
  · rintro v state ⟨hrun, hcarried, vs, hvs, rfl⟩
    rw [List.length_nil, hsteps] at hcarried
    refine ⟨hrun, hcarried, ?_⟩
    have hlength := hcarried.length_log
    rw [Work.length_steps, List.length_nil, Nat.zero_add] at hlength
    have hroot : [answer? state.2 (0 + (item.work types).size - 1)] = [some v] := hvs.symm
    rw [hlength]
    rwa [Nat.zero_add, List.cons.injEq, eq_self, and_true] at hroot
  · rintro e state ⟨hrun, hcarried⟩
    rw [List.length_nil, hsteps] at hcarried
    exact ⟨hrun, hcarried⟩

/-- What a backend is asked about an item is what there is to ask. -/
theorem exists_carriesOut (backend : Backend σ ε V) (types : TypeEnv) (item : Item) (start : σ) :
    ∃ failure finish, backend.CarriesOut ((item.work types).steps 0) (start, []) failure
      (finish, backend.callsFor types item start) := by
  have h := (yields_lowerItem backend types item start).run
  rw [callsFor]
  cases hrun : (lowerItem backend.recorded types item).run (start, []) with
  | ok v state => exact ⟨none, state.1, (h.ok hrun).2.2.1⟩
  | error e state => exact ⟨some e, state.1, (h.error hrun).2.2⟩

/-- If another backend gives the same answers up to some call, and fails there, it is asked the same
up to this call, and its error is the result. -/
theorem run_of_stopped {σ' ε' : Type} {backend' : Backend σ' ε' V} {start : σ} {s' t' u' : σ'}
    {e : ε'} {first rest : List (Exchange V)} {x : Exchange V}
    (hcalls : backend.callsFor types item start = first ++ x :: rest)
    (gives : backend'.Gives s' first t')
    (fails : backend'.perform x.call x.place t' = .error e u') :
    (lowerItem backend'.recorded types item).run (s', []) =
      .error e (u', first ++ [⟨x.call, x.place, none⟩]) := by
  obtain ⟨failure, finish, hcarried⟩ := backend.exists_carriesOut types item start
  have hstopped := hcarried.stopped hcalls gives fails
  have h := yields_lowerItem backend' types item s'
  cases hrun : (lowerItem backend'.recorded types item).run (s', []) with
  | ok v state => exact nomatch (hstopped.unique (h.ok hrun).2.1).1
  | error e' state =>
    obtain ⟨herror, rfl⟩ := hstopped.unique (h.error hrun).2
    cases herror
    rfl

end Backend

namespace Session

variable {s : Session} {item : Item}

/-- There is a question about every node of an accepted item exactly if its places are rooted. -/
theorem reject_notMem_iff_of_reachable (reachable : s.Reachable) (accepted : item ∈ s.items) :
    (∀ error, .reject error ∉ (item.work s.types).steps 0) ↔
      ∀ place ∈ item.places, place.IsRooted := by
  have haccepted := accepted_of_reachable reachable item accepted
  have hlowers := lowers_lowerItem checkingBackend_total haccepted.declared ()
  have h := Backend.yields_lowerItem checkingBackend s.types item ()
  cases hrun : (lowerItem checkingBackend.recorded s.types item).run ((), []) with
  | ok v state =>
    obtain ⟨hplain, hcarried, -⟩ := h.ok hrun
    exact iff_of_true hcarried.reject_notMem (hlowers.ok hplain)
  | error e state =>
    obtain ⟨hplain, hcarried⟩ := h.error hrun
    obtain ⟨error, hreject⟩ := hcarried.exists_reject checkingBackend_total
    obtain ⟨place, hplace, hnot, -⟩ := hlowers.error hplain
    exact iff_of_false (fun h => h error hreject) fun h => hnot (h place hplace)

/-- What there is to ask about an accepted item is asked in the order of the tree, each node after
those right below it, whose answers are passed with it. No answer but the last is left over, and
none is passed twice. There is a question for each node and one for the item, exactly if the places
of the item are rooted. Whatever the backend, it is asked this up to the first failure or
rejection, which is the result; and if it gives the answers of another one up to some call and
fails there, it is asked the same up to this call. -/
theorem calls_of_reachable (reachable : s.Reachable) (accepted : item ∈ s.items) :
    let steps := (item.work s.types).steps 0
    (∀ k, k + 1 < steps.length → ∃ j, k < j ∧ ∀ i step, steps[i]? = some step →
      step.args.count k = if i = j then 1 else 0) ∧
    ((∀ error, .reject error ∉ steps) ↔ ∀ place ∈ item.places, place.IsRooted) ∧
    ∀ {σ ε V : Type} (backend : Backend σ ε V) (start : σ),
      Yields (start, []) (lowerItem backend.recorded s.types item)
        (fun v state => (lowerItem backend s.types item).run start = .ok v state.1 ∧
          backend.CarriesOut steps (start, []) none state ∧
          state.2.length = item.nodes.exprs.length + item.nodes.stmts.length + 1 ∧
          answer? state.2 (state.2.length - 1) = some v)
        (fun e state => (lowerItem backend s.types item).run start = .error e state.1 ∧
          backend.CarriesOut steps (start, []) (some e) state) ∧
      ∀ {σ' ε' : Type} (backend' : Backend σ' ε' V) (first rest : List (Exchange V))
        (x : Exchange V) (s' t' u' : σ') (e : ε'),
        backend.callsFor s.types item start = first ++ x :: rest →
        backend'.Gives s' first t' → backend'.perform x.call x.place t' = .error e u' →
        (lowerItem backend'.recorded s.types item).run (s', []) =
          .error e (u', first ++ [⟨x.call, x.place, none⟩]) := by
  intro steps
  refine ⟨fun k => (item.work s.types).exists_passed,
    reject_notMem_iff_of_reachable reachable accepted, fun backend start => ⟨?_, ?_⟩⟩
  · refine (backend.yields_lowerItem s.types item start).mono ?_ fun _ _ => id
    rintro v state ⟨hplain, hcarried, hvalue⟩
    refine ⟨hplain, hcarried, ?_, hvalue⟩
    rw [hcarried.length_log, List.length_nil, Nat.zero_add]
    exact Item.length_steps hcarried.reject_notMem
  · exact fun backend' first rest x s' t' u' e => Backend.run_of_stopped

/-- A session that has accepted a sum with a place that is not rooted. -/
def sumWithPlace : Session :=
  (ofInput (.ofString "1 + 2 * addr(f().x)\n") ⟨.file, defaultPrompt⟩).step.2

/-- The sum has been accepted. Two calls are made for it, and the answer to the first is not passed
with the second, although no call fails. -/
theorem callsFor_sumWithPlace :
    sumWithPlace.items.size = 1 ∧ sumWithPlace.items.toList.all fun item =>
      (checkingBackend.callsFor sumWithPlace.types item ()).map
        (fun x => (x.call.values, x.answer)) = [([], some ()), ([], some ())] := by
  decide +kernel

theorem calls_of_reachable_sumWithPlace :
    ∃ item, sumWithPlace.items[0]? = some item ∧
      (let steps := (item.work sumWithPlace.types).steps 0
      (∀ k, k + 1 < steps.length → ∃ j, k < j ∧ ∀ i step, steps[i]? = some step →
        step.args.count k = if i = j then 1 else 0) ∧
      ((∀ error, .reject error ∉ steps) ↔ ∀ place ∈ item.places, place.IsRooted)) := by
  have hsize : 0 < sumWithPlace.items.size := by decide +kernel
  have hcalls := calls_of_reachable (.step (.start _ _)) (Array.getElem_mem hsize)
  exact ⟨sumWithPlace.items[0], Array.getElem?_eq_getElem hsize, hcalls.1, hcalls.2.1⟩

end Session

end Offside
