import Offside.Proofs.Parser.Depth
import Offside.Proofs.Session.Kept

/-!
# Sessions come to an end

A step that finds something to do reads at least one token: an item that can be read has one, and
where none can be read, recovery skips the token that was refused. So as many steps as there are
tokens are enough to handle a text, and a run comes to the last step.

## Main results

* `Offside.Session.length_step_lt`: every step but the last reads a token.
* `Offside.Session.exists_steps`: a run with enough fuel ends at the first step that is the last.
* `Offside.Session.rest_of_finished`: unless the session has halted, nothing is left then.
-/

namespace Offside

namespace Parser

variable {p q : Parser} {stop : Kind → Bool}

theorem Bounded.rest_ne_nil (h : p.Bounded) (hk : p.current.kind ≠ .endOfInput) : p.rest ≠ [] := by
  rintro hrest
  have hkinds := (h.advance hk).1
  have hlength := congrArg List.length hkinds
  rw [length_kinds, hrest, List.length_cons] at hlength
  have := List.length_pos_iff.2 (kinds_ne_nil (p := p.advance))
  simp only [List.length_nil] at hlength
  omega

theorem Bounded.rest_of_end (h : p.Bounded) (hk : p.current.kind = .endOfInput) : p.rest = [] := by
  have hkinds := congrArg List.length (h.kinds_of_end hk)
  rw [length_kinds] at hkinds
  exact List.length_eq_zero_iff.1 (Nat.succ.inj hkinds)

/-- Recovery skips a token at which reading cannot go on. -/
theorem length_recover_lt (hrest : p.rest ≠ []) (hstop : stop p.current.kind = false) :
    (p.recover stop).rest.length < p.rest.length := by
  show (p.skipUntil stop).2.rest.length < p.rest.length
  rw [skipUntil, if_pos ⟨by simp [hstop], hrest⟩]
  have hreads : p.advance.ReadsOn (p.advance.skipUntil stop).2 := Frame.skipUntil stop p.advance
  refine Nat.lt_of_le_of_lt hreads.length_le ?_
  have := List.length_pos_iff.2 hrest
  rw [length_rest_advance]
  omega

/-- Whatever comes of an item, at least one token is read, unless there is none to start with. -/
theorem length_parseItem_lt (bounded : p.Bounded) (more : p.current.kind ≠ .endOfInput)
    (inside : p.current.kind ≠ .endOfLine) : p.parseItem.2.rest.length < p.rest.length := by
  have hfits := Parse.fits_item bounded
  rw [Parser.parseItem]
  split
  · next item q hrun =>
    have hlength := (hfits.ok hrun).length
    rw [length_kinds, length_kinds] at hlength
    exact Nat.lt_of_succ_lt_succ hlength
  · next failure q hrun =>
    have hreads : p.ReadsOn q := (Parse.ensures_item p.fuel p).error hrun
    have hreport : ((q.report failure).rollback p.arena.mark).rest = q.rest ∧
        ((q.report failure).rollback p.arena.mark).current = q.current := by
      cases failure <;> exact ⟨rfl, rfl⟩
    have hskips : ((q.report failure).rollback p.arena.mark).ReadsOn
        (((q.report failure).rollback p.arena.mark).recover endsLine) :=
      trans_of ReadsOn (Frame.skipUntil endsLine _) (Frame.note _ _)
    cases hreads with
    | on before x _ _ rest =>
      refine Nat.lt_of_le_of_lt hskips.length_le ?_
      rw [hreport.1, rest, List.length_append, List.length_cons]
      omega
    | here current _ rest =>
      -- Nothing has been read, so the parser still stands on the first token.
      rw [← rest, ← hreport.1]
      refine length_recover_lt ?_ ?_
      · rw [hreport.1, rest]
        exact bounded.rest_ne_nil more
      · rw [hreport.2, current, endsLine]
        simp [more, inside]

end Parser

namespace Session

variable {s : Session} {options : SessionOptions}

/-- No line end is left before an item. -/
theorem kind_skipToItem_ne (p : Parser) (hrest : (skipToItem options p).rest ≠ []) :
    (skipToItem options p).current.kind ≠ .endOfLine := by
  fun_induction skipToItem options p with
  | case1 p h ih => exact ih hrest
  | case2 p h₁ h₂ ih => exact ih hrest
  | case3 p h₁ h₂ => exact fun hk => h₁ ⟨hk, hrest⟩

theorem bounded_ofInput (input : Source.Input) (options : SessionOptions) :
    (ofInput input options).parser.Bounded :=
  Parser.bounded_beforeFirst _

theorem bounded_after (h : s.parser.Bounded) (n : Nat) : (s.after n).parser.Bounded :=
  (readsOn_after n s).bounded h

/-- The input of every session ends. -/
theorem Reachable.bounded (h : s.Reachable) : s.parser.Bounded := by
  induction h with
  | start lexer => exact Parser.bounded_beforeFirst lexer
  | step _ ih => exact (readsOn_step _).bounded ih
  | restart _ lexer =>
    exact (Parser.ReadsOn.here rfl rfl rfl).bounded (Parser.bounded_beforeFirst lexer)

theorem step_of_halted (h : s.halted = true) : s.step = (.finished, s) := by
  rw [step, if_pos h]

/-- There is nothing to do in a halted session and at the end of the input. -/
theorem finished_iff :
    s.step.1 = .finished ↔ s.halted = true ∨ s.atItem.current.kind = .endOfInput := by
  have failed (t : Session) : t.fail.1 ≠ .finished := by
    rw [outcome_fail]
    exact Step.noConfusion
  have not_iff (running : s.halted = false) (more : s.atItem.current.kind ≠ .endOfInput) :
      ¬ (s.halted = true ∨ s.atItem.current.kind = .endOfInput) :=
    not_or.2 ⟨by simp [running], more⟩
  have hstepped := stepped_step s
  generalize s.step = outcome at *
  cases hstepped with
  | halted hhalted => exact iff_of_true rfl (.inl hhalted)
  | ended _ hend => exact iff_of_true rfl (.inr hend)
  | unread _ running more => exact iff_of_false (failed _) (not_iff running more)
  | refused _ _ _ _ running more => exact iff_of_false (failed _) (not_iff running more)
  | accepted _ _ _ running more => exact iff_of_false Step.noConfusion (not_iff running more)

/-- Every step but the last reads a token. -/
theorem length_step_lt (bounded : s.parser.Bounded) (h : s.step.1 ≠ .finished) :
    s.step.2.parser.rest.length < s.parser.rest.length := by
  obtain ⟨hrunning, hmore⟩ := not_or.1 (mt finished_iff.2 h)
  rw [Bool.not_eq_true] at hrunning
  have hatItem := readsOn_atItem s
  have hbounded := hatItem.bounded bounded
  have hread := Parser.length_parseItem_lt hbounded hmore
    (kind_skipToItem_ne _ (hbounded.rest_ne_nil hmore))
  have hafter := (readsOn_step_of_parseItem hrunning hmore).length_le
  have := hatItem.length_le
  omega

/-- At the last step nothing is left, unless the session has halted. -/
theorem rest_of_finished (bounded : s.parser.Bounded) (h : s.step.1 = .finished)
    (running : s.halted = false) : s.step.2.parser.rest = [] := by
  have hend := (finished_iff.1 h).resolve_left (by simp [running])
  rw [step_of_running running, if_pos hend]
  exact ((readsOn_atItem s).bounded bounded).rest_of_end hend

/-- Whichever step finds that there is nothing to do, the session after it is the same. -/
theorem after_eq_of_finished {m n : Nat} (hm : (s.after m).step.1 = .finished)
    (hn : (s.after n).step.1 = .finished) : s.after (m + 1) = s.after (n + 1) := by
  rcases Nat.le_total m n with hle | hle
  · rw [show n + 1 = m + 1 + (n - m) by omega, after_of_finished hm]
  · rw [show m + 1 = n + 1 + (m - n) by omega, after_of_finished hn]

/-- A run with enough fuel ends at the first step that is the last. -/
theorem exists_steps {fuel : Nat} (bounded : s.parser.Bounded) (enough : s.parser.rest.length < fuel) :
    ∃ n, (∀ m < n, (s.after m).step.1 ≠ .finished) ∧ (s.after n).step.1 = .finished ∧
      (steps fuel s).2 = s.after (n + 1) := by
  induction fuel generalizing s with
  | zero => exact absurd enough (Nat.not_lt_zero _)
  | succ fuel ih =>
    rw [steps]
    by_cases hend : s.step.1 = .finished
    · exact ⟨0, fun m hm => absurd hm (Nat.not_lt_zero m), hend, by simp [hend, after]⟩
    · have hlt := length_step_lt bounded hend
      obtain ⟨n, hbefore, hn, hsteps⟩ :=
        ih ((readsOn_step s).bounded bounded) (Nat.lt_of_lt_of_le hlt (Nat.le_of_lt_succ enough))
      have hshift (m : Nat) : s.after (m + 1) = s.step.2.after m := by
        rw [Nat.add_comm, after_add]
        rfl
      refine ⟨n + 1, fun m hm => ?_, ?_, ?_⟩
      · cases m with
        | zero => exact hend
        | succ m =>
          rw [hshift]
          exact hbefore m (Nat.lt_of_succ_lt_succ hm)
      · rw [hshift]
        exact hn
      · rw [hshift]
        simpa [hend] using hsteps

/-- The run of a session ends so. -/
theorem exists_trace (bounded : s.parser.Bounded) :
    ∃ n, (∀ m < n, (s.after m).step.1 ≠ .finished) ∧ (s.after n).step.1 = .finished ∧
      s.trace.2 = s.after (n + 1) :=
  exists_steps bounded (by rw [fuel]; omega)

end Session

end Offside
