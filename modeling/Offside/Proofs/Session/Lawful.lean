import Offside.Proofs.Session.Permanent
import Offside.Proofs.Token.Ordinary
import Offside.Proofs.Typing.Visits

/-!
# Accepted items keep the laws

An item is accepted at some step, which reads and checks it. Reading guarantees that its bodies are
not empty, that a `match` has a case and at most one that accepts everything, and that parameters
have different names. Checking comes to every statement of the item and guarantees the rest.

## Main definitions

* `Offside.Session.AcceptedAt`: the moment at which an item was accepted.

## Main results

* `Offside.Session.exists_acceptedAt`: there is one for each accepted item.
* `Offside.Session.lawful_of_reachable`: accepted items keep the laws.
-/

namespace Offside.Session

variable {s t : Session} {i : Nat} {item : Item}

/-! ### The moment of acceptance -/

/-- The state in which the item that a session handles next is checked. -/
def checkStart (s : Session) : CheckState := .initial s.atItem.parseItem.2.types s.symbols

/-- The next step of the session `t` accepts an item as number `i`. -/
structure AcceptedAt (t : Session) (i : Nat) (item : Item) : Prop where
  step : t.step.1 = .item i
  read : t.atItem.parseItem.1 = some item
  passes : ∃ c, (checkItem item).run t.checkStart = .ok () c

/-- A step adds the item that it accepts, if it accepts one. -/
theorem items_step (s : Session) : s.step.2.items = s.items ∨
    ∃ item, s.AcceptedAt s.items.size item ∧ s.step.2.items = s.items.push item := by
  have hstepped := stepped_step s
  generalize houtcome : s.step = outcome at hstepped ⊢
  cases hstepped with
  | halted | ended => exact .inl rfl
  | unread | refused => exact .inl (items_fail _)
  | accepted item q c _ _ read checked =>
    refine .inr ⟨item, ⟨?_, ?_, c, ?_⟩, rfl⟩
    · rw [houtcome]
    · rw [read]
    · rwa [checkStart, read]

/-- Every accepted item was accepted at some moment since the session was started. -/
theorem exists_acceptedAt (reachable : s.Reachable) (h : s.items[i]? = some item) :
    ∃ (t : Session) (n : Nat), t.Reachable ∧ s = t.after (n + 1) ∧ t.AcceptedAt i item := by
  induction reachable with
  | start lexer options => cases h
  | restart _ lexer => cases h
  | @step s hs ih =>
    have earlier (hold : s.items[i]? = some item) : ∃ (t : Session) (n : Nat),
        t.Reachable ∧ s.step.2 = t.after (n + 1) ∧ t.AcceptedAt i item := by
      obtain ⟨t, n, ht, rfl, haccepted⟩ := ih hold
      exact ⟨t, n + 1, ht, rfl, haccepted⟩
    rcases items_step s with hsame | ⟨new, haccepted, hpush⟩
    · exact earlier (hsame ▸ h)
    · rw [hpush, Array.getElem?_push] at h
      split at h
      · next hi =>
        cases h
        exact ⟨s, 0, hs, rfl, hi ▸ haccepted⟩
      · exact earlier h

namespace AcceptedAt

variable (h : t.AcceptedAt i item)
include h

/-- What reading guarantees. -/
theorem formed : item.shape.Formed := (Parser.parseItem_some (Prod.ext h.read rfl)).1.formed

/-- Checking comes to every statement of the item, counts the loops around it, and lets it pass. -/
theorem visits :
    (item.visits t.checkStart).map Visit.level = item.nested ∧
      ∀ v ∈ item.visits t.checkStart, v.Passes := by
  obtain ⟨c, hpasses⟩ := h.passes
  obtain ⟨hvisits, hlevel⟩ := Item.visits_of_run hpasses
  exact ⟨hlevel rfl, hvisits⟩

theorem exists_visit {loops : Nat} {stmt : Stmt} (hmem : (loops, stmt) ∈ item.nested) :
    ∃ v : Visit, v.Passes ∧ v.state.loops = loops ∧ v.stmt = stmt := by
  obtain ⟨hlevel, hpasses⟩ := h.visits
  rw [← hlevel] at hmem
  obtain ⟨v, hv, hsame⟩ := List.mem_map.1 hmem
  cases hsame
  exact ⟨v, hpasses v hv, rfl, rfl⟩

end AcceptedAt

/-! ### Literals -/

/-- The number tokens of every text have values that fit. -/
theorem fits_of_mem_kinds {lexer : Lexer} {text : String} {value : Number}
    (h : .number text value ∈ (Parser.ofLexer lexer).kinds) : value.Fits := by
  rcases List.mem_cons.1 h with hfirst | hmem
  · cases hfirst
  · obtain ⟨x, hx, hkind⟩ := List.mem_map.1 hmem
    exact Lexer.fits_of_mem_lexemes hx text value hkind

/-- The literals of accepted items have values that fit, and so have their negations. -/
theorem natAbs_lt_of_reachable (reachable : s.Reachable) {e : Expr} (he : e ∈ s.nodes.exprs)
    {value : Int} (h : e.integer? = some value) : value.natAbs < Number.intBound := by
  have hlists := lists_of_reachable (Q := Number.Fits) (fun _ _ _ => fits_of_mem_kinds) reachable
  have hforest := hlists.arena.forest (Item.whole_nodesAll _)
  unfold Expr.integer? at h
  split at h
  · next n =>
    cases h
    simpa using! hlists.literals _ _ he
  · next n =>
    cases h
    have hliteral := (hforest.exprChildren _ he _ (List.mem_singleton.2 rfl)).1
    simpa using! hlists.literals _ _ hliteral
  · cases h

/-- So do the values of the cases of a `match`. -/
theorem natAbs_lt_of_accepted (reachable : s.Reachable) (hitem : item ∈ s.items) {tag : Tag}
    {scrutinee : Expr} {arms : List Arm} (hs : .select tag scrutinee arms ∈ item.statements)
    {values : List Int} (h : (Arm.accepted arms).map Expr.integer? = values.map some) :
    ∀ n ∈ values, n.natAbs < Number.intBound := by
  intro n hn
  have hmem : some n ∈ (Arm.accepted arms).map Expr.integer? :=
    h ▸ List.mem_map.2 ⟨n, hn, rfl⟩
  obtain ⟨e, he, hvalue⟩ := List.mem_map.1 hmem
  have hwhole : s.nodes.Whole := Item.whole_nodesAll _
  have hinside := (hwhole.stmts _ (mem_stmts_nodes hitem hs)).exprs.subset
  refine natAbs_lt_of_reachable reachable (hinside (List.mem_append_left _ ?_)) hvalue
  exact Stmt.exprs_subset_inside _ (List.mem_cons_of_mem _ he)

/-! ### Laws -/

/-- Accepted items keep the laws. Each was accepted at some moment since the session was started,
and the check came to each of its statements. The number of loops in the state was then that of the
loops in whose bodies the statement stands, and what a `match` compares was of an integer type, of
type `bool`, or of no known type. -/
theorem lawful_of_reachable (reachable : s.Reachable) (h : s.items[i]? = some item) :
    item.Lawful ∧ ∃ (t : Session) (n : Nat), t.Reachable ∧ s = t.after (n + 1) ∧
      t.AcceptedAt i item ∧ (item.visits t.checkStart).map Visit.level = item.nested ∧
      ∀ v ∈ item.visits t.checkStart, v.Passes ∧ ∀ tag scrutinee arms,
        v.stmt = .select tag scrutinee arms → v.state.toContext.Matchable scrutinee := by
  obtain ⟨t, n, ht, hs, haccepted⟩ := exists_acceptedAt reachable h
  have hformed := haccepted.formed
  obtain ⟨hlevel, hpasses⟩ := haccepted.visits
  have hlawful : item.Lawful := by
    refine ⟨fun loops tag jump hjump => ?_, fun tag scrutinee arms hselect => ?_, hformed.suites,
      hformed.params⟩
    · obtain ⟨v, hv, rfl, hstmt⟩ := haccepted.exists_visit hjump
      exact hv.loops_ne_zero hstmt
    · obtain ⟨hne, -, hwildcards⟩ := hformed.statements _ hselect
      have hnested := hselect
      rw [← item.map_snd_nested] at hnested
      obtain ⟨⟨loops, _⟩, hnested, rfl⟩ := List.mem_map.1 hnested
      obtain ⟨v, hv, -, hstmt⟩ := haccepted.exists_visit hnested
      obtain ⟨values, hvalues, hnodup⟩ := hv.values hstmt
      have hitem : item ∈ s.items := Array.mem_of_getElem? h
      exact ⟨hne, hwildcards, values, hvalues, hnodup,
        natAbs_lt_of_accepted reachable hitem hselect hvalues⟩
  exact ⟨hlawful, t, n, ht, hs, haccepted, hlevel, fun v hv =>
    ⟨hpasses v hv, fun tag scrutinee arms => (hpasses v hv).matchable⟩⟩

/-- The jumps stand in the cases of a `match` inside a loop, and one case is for a negated
character. -/
theorem lawful_of_reachable_loopAndSum :
    let s := loopAndSum.after 1
    s.Reachable ∧ ∃ item, s.items[0]? = some item ∧ item.Lawful ∧
      (item.statements.flatMap Stmt.exprs).filterMap Expr.integer? = [1, -97] ∧
      ∃ (t : Session) (n : Nat), s = t.after (n + 1) ∧ t.AcceptedAt 0 item ∧
        (item.visits t.checkStart).map (·.state.loops) = [0, 1, 1, 1, 1] := by
  intro s
  have hreachable : s.Reachable := reachable_loopAndSum 1
  have hshape : s.items[0]?.map (fun item => (item.nested.map Prod.fst,
      (item.statements.flatMap Stmt.exprs).filterMap Expr.integer?)) =
        some ([0, 1, 1, 1, 1], [1, -97]) := by decide +kernel
  obtain ⟨item, hitem, hshape⟩ := Option.map_eq_some_iff.1 hshape
  obtain ⟨hlevels, hvalues⟩ := Prod.mk.inj hshape
  obtain ⟨hlawful, t, n, -, hs, haccepted, hlevel, -⟩ := lawful_of_reachable hreachable hitem
  refine ⟨hreachable, item, hitem, hlawful, hvalues, t, n, hs, haccepted, ?_⟩
  rw [← hlevels, ← hlevel, List.map_map]
  rfl

end Offside.Session
