import Offside.Proofs.Session.Ends

/-!
# Failed steps

An item may fail when nodes of any depth have been finished for it, or inside the scopes of its check.
Either way its nodes are dropped, and the check has not declared any function or global yet. A parser
that cannot read an item has gone on to the end of a line.

## Main definitions

* `Offside.Session.Undone`: the same items, nodes, functions and globals.

## Main results

* `Offside.Parser.Bounded.endsLine_of_unread`: where reading goes on after an item that cannot be read.
* `Offside.Session.undone_of_failed`: what a failed step leaves behind.
-/

namespace Offside

namespace Parser

variable {p q : Parser}

/-- Tokens are skipped up to one at which reading can go on, if there is any. -/
theorem stop_skipUntil (stop : Kind → Bool) (p : Parser) :
    stop (p.skipUntil stop).2.current.kind = true ∨ (p.skipUntil stop).2.rest = [] := by
  induction hn : p.rest.length using Nat.strongRecOn generalizing p with
  | _ n ih =>
    rw [skipUntil]
    split
    · next hgo =>
      have := List.length_pos_iff.2 hgo.2
      exact ih _ (by rw [length_rest_advance]; omega) p.advance rfl
    · next hstop =>
      by_cases hkind : stop p.current.kind = true
      · exact .inl hkind
      · exact .inr (by simpa [hkind] using hstop)

/-- Recovery stops at the end of a line or of the input. -/
theorem Bounded.endsLine_recover (h : (p.recover endsLine).Bounded) :
    endsLine (p.recover endsLine).current.kind = true := by
  by_cases hend : (p.recover endsLine).current.kind = .endOfInput
  · rw [hend]
    rfl
  · exact (stop_skipUntil endsLine p).resolve_right (h.rest_ne_nil hend)

/-- After an item that cannot be read the parser is on a line end or at the end of the input. -/
theorem Bounded.endsLine_of_unread (bounded : p.Bounded) (h : p.parseItem = (none, q)) :
    endsLine q.current.kind = true := by
  have hq : p.parseItem.2.Bounded := (TokenFrame.parseItem (R := ReadsOn) p).bounded bounded
  rw [h] at hq
  rw [parseItem] at h
  split at h
  · cases h
  · obtain rfl := (Prod.mk.inj h).2
    exact hq.endsLine_recover

end Parser

namespace Session

variable {s : Session}

/-- The same accepted items, nodes, functions and globals. -/
structure Undone (s t : Session) : Prop where
  items : t.items = s.items
  arena : t.parser.arena = s.parser.arena
  functions : t.symbols.functions = s.symbols.functions
  globals : t.symbols.globals = s.symbols.globals

theorem Undone.fail {t : Session} (h : s.Undone t) : s.Undone t.fail.2 := by
  rw [Session.fail]
  split <;> exact ⟨h.items, h.arena, h.functions, h.globals⟩

theorem current_fail (s : Session) : s.fail.2.parser.current = s.parser.current := by
  rw [Session.fail]
  split <;> rfl

/-- A failed step leaves the items, nodes, functions and globals as they were. If the item could not
be read, the parser is on a line end or at the end of the input; if it was refused, its check had not
declared anything. -/
theorem undone_of_failed (reachable : s.Reachable) (failed : s.step.1 = .failed) :
    s.Undone s.step.2 ∧
      (s.atItem.parseItem.1 = none → Parser.endsLine s.step.2.parser.current.kind = true) ∧
      ∀ item q d c, s.atItem.parseItem = (some item, q) →
        (checkItem item).run (.initial q.types s.symbols) = .error d c → c.symbols = s.symbols := by
  have bounded : s.atItem.Bounded := (readsOn_atItem s).bounded reachable.bounded
  have harena := arena_atItem s
  have hchecks : ∀ item q d c, s.atItem.parseItem = (some item, q) →
      (checkItem item).run (.initial q.types s.symbols) = .error d c → c.symbols = s.symbols :=
    fun item q d c _ hchecked => symbols_of_checkItem_error hchecked
  have hstepped := stepped_step s
  generalize s.step = outcome at *
  cases hstepped with
  | halted => cases failed
  | ended => cases failed
  | accepted => cases failed
  | unread q _ _ hread =>
    have hundone : s.Undone { s with parser := q } :=
      ⟨rfl, (Parser.arena_of_unread hread).trans harena, rfl, rfl⟩
    refine ⟨hundone.fail, fun _ => ?_, hchecks⟩
    rw [current_fail]
    exact bounded.endsLine_of_unread hread
  | refused item q d c _ _ hread hchecked =>
    have hundone : s.Undone
        { s with parser := ((afterCheck q c).emit d).rollback s.atItem.arena.mark } :=
      ⟨rfl, (Parser.keepsNodes_of_read hread).rollback.trans harena, rfl, rfl⟩
    refine ⟨hundone.fail, fun hnone => ?_, hchecks⟩
    rw [hread] at hnone
    cases hnone

/-- An indented line at the top level cannot be read. -/
theorem undone_of_failed_aliasInOpenBlock :
    let s := aliasInOpenBlock.step.2
    s.step.1 = .failed ∧ s.atItem.parseItem.1 = none ∧ s.Undone s.step.2 ∧
      Parser.endsLine s.step.2.parser.current.kind = true := by
  intro s
  have hreachable : s.Reachable := .step (.start _ _)
  have hfailed : s.step.1 = .failed := by decide +kernel
  have hunread : s.atItem.parseItem.1 = none :=
    Option.isNone_iff_eq_none.1 (by decide +kernel)
  obtain ⟨hundone, hends, -⟩ := undone_of_failed hreachable hfailed
  exact ⟨hfailed, hunread, hundone, hends hunread⟩

end Session

end Offside
