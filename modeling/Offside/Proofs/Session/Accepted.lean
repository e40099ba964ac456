import Offside.Proofs.Lowering.Places
import Offside.Proofs.Session.Step

/-!
# Accepted items and lowering

What a session has accepted can be lowered at any time until the session is restarted, except for
members of what is no place: an assignment and `addr` take any member for a place, whatever it is a
member of.

## Main definitions

* `Offside.Item.Accepted`: what reading and checking guarantee of an item.

## Main results

* `Offside.Session.accepted_of_reachable`: they do so at any later time.
* `Offside.Session.lowerItem_of_reachable`: exactly when an accepted item can be lowered.
-/

namespace Offside

/-- What reading and checking guarantee of an item, given the type tables. -/
structure Item.Accepted (types : TypeEnv) (item : Item) : Prop where
  formed : Stmt.AllFormed item.statements
  addressed : Stmt.AddressPlaces item.statements
  declared : ∀ name, item.shape = .struct name → (types.structDecl? name).isSome

/-- Every expression that has to be a place looks like one at its root. -/
theorem Item.Accepted.isAddressable {types : TypeEnv} {item : Item} (h : item.Accepted types) :
    ∀ place ∈ item.places, place.isAddressable := by
  intro place hplace
  obtain ⟨s, hs, hplace⟩ := List.mem_flatMap.1 hplace
  rcases List.mem_append.1 hplace with htarget | haddressed
  · have hformed := h.formed s hs
    cases s <;> simp_all [Stmt.target?, Stmt.Formed]
  · exact h.addressed s hs place haddressed

/-- Tables in which the declared structs keep their declarations. -/
def TypeEnv.KeepsStructs (env env' : TypeEnv) : Prop :=
  ∀ name, (env.structDecl? name).isSome → env'.structDecl? name = env.structDecl? name

theorem TypeEnv.SameDecls.keepsStructs {env env' : TypeEnv} (h : env.SameDecls env') :
    env.KeepsStructs env' := fun name _ => h.structDecl? name

theorem Item.Shape.Declares.keepsStructs {shape : Item.Shape} {env env' : TypeEnv}
    (h : shape.Declares env env') : env.KeepsStructs env' := by
  intro name hname
  unfold Declares at h
  split at h
  · rw [h, TypeEnv.structDecl?_declareAlias]
  · obtain ⟨hnew, decl, rfl, rfl⟩ := h
    rw [TypeEnv.structDecl?_declareStruct hnew, if_neg]
    rintro rfl
    rw [TypeEnv.hasStruct, Table.contains] at hnew
    rw [TypeEnv.structDecl?, Option.isSome_map, hnew] at hname
    cases hname
  all_goals rw [h]

theorem TypeEnv.KeepsStructs.trans {a b c : TypeEnv} (h : a.KeepsStructs b)
    (k : b.KeepsStructs c) : a.KeepsStructs c := by
  intro name hname
  have hb := h name hname
  rw [k name (by rwa [hb]), hb]

theorem Item.Accepted.mono {types types' : TypeEnv} {item : Item} (h : item.Accepted types)
    (hkeeps : types.KeepsStructs types') : item.Accepted types' := by
  refine ⟨h.formed, h.addressed, fun name hshape => ?_⟩
  have hdeclared := h.declared name hshape
  rwa [hkeeps name hdeclared]

namespace Session

/-- The item of a step, once it has been read and checked, and the tables after that. -/
theorem keepsStructs_of_read {s : Session} {item : Item} {q : Parser} {types : TypeEnv}
    (read : s.atItem.parseItem = (some item, q)) (same : q.types.SameDecls types) :
    s.types.KeepsStructs types := by
  obtain ⟨hitem, -⟩ := Parser.parseItem_some read
  have hdeclares := hitem.declares
  rw [types_atItem] at hdeclares
  exact hdeclares.keepsStructs.trans same.keepsStructs

/-- A step keeps the declared structs. -/
theorem keepsStructs_step (s : Session) : s.types.KeepsStructs s.step.2.types := by
  have hsame := refl_of TypeEnv.SameDecls s.types
  have hstepped := stepped_step s
  generalize s.step = outcome at *
  cases hstepped with
  | halted => exact hsame.keepsStructs
  | ended =>
    show s.types.KeepsStructs s.atItem.types
    rw [types_atItem]
    exact hsame.keepsStructs
  | unread q _ _ read =>
    rw [types_fail]
    show s.types.KeepsStructs q.types
    obtain ⟨name, target, -, htypes⟩ | htypes := (Parser.parseItem_none read).cases
    · rw [htypes, types_atItem]
      exact fun _ _ => TypeEnv.structDecl?_declareAlias _ _ _ _
    · rw [htypes, types_atItem]
      exact hsame.keepsStructs
  | refused item q d c _ _ read checked =>
    rw [types_fail]
    exact keepsStructs_of_read read ((ensures_checkItem item _).error checked)
  | accepted item q c _ _ read checked =>
    exact keepsStructs_of_read read ((ensures_checkItem item _).ok checked).1

/-- An item is accepted with what reading and checking guarantee. -/
theorem accepted_of_checked {s : Session} {item : Item} {q : Parser} {c : CheckState}
    (read : s.atItem.parseItem = (some item, q))
    (checked : (checkItem item).run (.initial q.types s.symbols) = .ok () c) :
    item.Accepted c.types := by
  obtain ⟨hitem, -⟩ := Parser.parseItem_some read
  obtain ⟨hsame, haddressed⟩ := (ensures_checkItem (R := TypeEnv.SameDecls) item _).ok checked
  refine ⟨hitem.formed.statements, haddressed, fun name hshape => ?_⟩
  have hdeclares := hitem.declares
  rw [hshape] at hdeclares
  obtain ⟨hnew, decl, rfl, htypes⟩ := hdeclares
  have hdecl := TypeEnv.SameDecls.structDecl? hsame decl.name
  rw [show (CheckState.initial q.types s.symbols).types = q.types from rfl, htypes,
    TypeEnv.structDecl?_declareStruct hnew, if_pos rfl] at hdecl
  rw [hdecl]
  rfl

/-- At any time before a restart, the accepted items are as reading and checking left them. -/
theorem accepted_of_reachable {s : Session} (h : s.Reachable) :
    ∀ item ∈ s.items, item.Accepted s.types := by
  induction h with
  | start lexer options => exact fun _ hitem => absurd hitem (Array.not_mem_empty _)
  | restart h lexer ih => exact fun _ hitem => absurd hitem (Array.not_mem_empty _)
  | @step s h ih =>
    intro item hitem
    have hkeeps := keepsStructs_step s
    have hstepped := stepped_step s
    generalize s.step = outcome at *
    cases hstepped with
    | halted => exact (ih item hitem).mono hkeeps
    | ended => exact (ih item hitem).mono hkeeps
    | unread =>
      rw [items_fail] at hitem
      exact (ih item hitem).mono hkeeps
    | refused =>
      rw [items_fail] at hitem
      exact (ih item hitem).mono hkeeps
    | accepted new q c _ _ read checked =>
      rcases Array.mem_push.1 hitem with hold | rfl
      · exact (ih item hold).mono hkeeps
      · exact accepted_of_checked read checked

/-- With a backend whose methods do not fail, an accepted item can be lowered at any time before a
restart, from any state of the backend, exactly if its places are rooted; and where it cannot, one
of them is to blame. -/
theorem lowerItem_of_reachable {σ ε V : Type} {s : Session} (reachable : s.Reachable) {item : Item}
    (accepted : item ∈ s.items) {backend : Backend σ ε V} (total : backend.Total) (state : σ) :
    (∀ place ∈ item.places, place.isAddressable) ∧
      ((∃ v state', (lowerItem backend s.types item).run state = .ok v state') ↔
        ∀ place ∈ item.places, place.IsRooted) ∧
      ∀ e state', (lowerItem backend s.types item).run state = .error e state' →
        ∃ place ∈ item.places, ¬ place.IsRooted ∧
          e = backend.reject (.notAddressable place.root.location) := by
  have haccepted := accepted_of_reachable reachable item accepted
  have hlowers := lowers_lowerItem total haccepted.declared state
  refine ⟨haccepted.isAddressable, ⟨?_, fun hrooted => ?_⟩, fun e state' => hlowers.error⟩
  · rintro ⟨v, state', hrun⟩
    exact hlowers.ok hrun
  · cases hrun : (lowerItem backend s.types item).run state with
    | ok v state' => exact ⟨v, state', rfl⟩
    | error e state' =>
      obtain ⟨place, hplace, hnot, -⟩ := hlowers.error hrun
      exact absurd (hrooted place hplace) hnot

/-- A backend that only keeps the error. -/
def checkingBackend : Backend Unit LowerError Unit := ⟨fun _ _ => pure (), id⟩

theorem checkingBackend_total : checkingBackend.Total := fun _ _ _ => ⟨(), (), rfl⟩

/-- A session that has accepted an assignment to a member of a call. -/
def memberOfCall : Session :=
  (ofInput (.ofString "f().x = 1\n") ⟨.file, defaultPrompt⟩).step.2

theorem memberOfCall_reachable : memberOfCall.Reachable := .step (.start _ _)

/-- The assignment has been accepted and cannot be lowered. -/
theorem lowerItem_memberOfCall :
    memberOfCall.items.size = 1 ∧ memberOfCall.items.toList.any fun item =>
      match (lowerItem checkingBackend memberOfCall.types item).run () with
      | .ok _ _ => false
      | .error e _ => e = .notAddressable ⟨1, 1⟩ := by
  decide +kernel

theorem lowerItem_of_reachable_memberOfCall :
    ∃ item, memberOfCall.items[0]? = some item ∧
      ((∃ v state', (lowerItem checkingBackend memberOfCall.types item).run () = .ok v state') ↔
        ∀ place ∈ item.places, place.IsRooted) := by
  have hsize : 0 < memberOfCall.items.size := by decide +kernel
  refine ⟨memberOfCall.items[0], Array.getElem?_eq_getElem hsize, ?_⟩
  exact (lowerItem_of_reachable memberOfCall_reachable (Array.getElem_mem hsize)
    checkingBackend_total ()).2.1

end Session

end Offside
