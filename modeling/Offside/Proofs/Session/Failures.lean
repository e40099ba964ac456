import Offside.CommandLine
import Offside.Proofs.Session.Modes

/-!
# Failed steps and diagnostics

The diagnostic of a refused token is shown when the parser comes to stand on the token, which may be
at the end of a step that accepts an item. It then stands for the next step, which is going to fail
over this token: reading passes over no refused token, and recovery does so only after a failure. Not
counting such a diagnostic, a step that fails shows at least one more, and every other step none.

## Main definitions

* `Offside.Parser.Settled`: the number of diagnostics that stand for earlier failures.
* `Offside.Session.failures`: the number of steps that have failed.
* `Offside.Session.Mirrors`: sessions that differ in prompts and notes only, and run alike.

## Main results

* `Offside.Session.exists_settled_step`: what a step adds to the diagnostics.
* `Offside.Session.failures_iff_errors`: failed steps, diagnostics and the exit code agree.
-/

namespace Offside

namespace Parser

variable {p q : Parser} {n : Nat}

/-- The number of diagnostics that stand for a failure to come. -/
def pending (p : Parser) : Nat := if p.current.kind.isInvalid then 1 else 0

/-- `n` diagnostics have been shown besides that of the token in hand. -/
def Settled (n : Nat) (p : Parser) : Prop := p.journal.shown.length = n + p.pending

theorem Settled.le (h : p.Settled n) : n ≤ p.journal.shown.length := by
  rw [Settled] at h
  omega

theorem settled_ofLexer (l : Lexer) : (ofLexer l).Settled 0 := rfl

theorem Settled.same (h : p.Settled n) (current : q.current = p.current)
    (shown : q.journal.shown = p.journal.shown) : q.Settled n := by
  rw [Settled, pending, current, shown]
  exact h

theorem Settled.note (h : p.Settled n) (note : Note) : (p.note note).Settled n :=
  h.same rfl (Journal.shown_note _ _)

theorem Settled.emit (h : p.Settled n) (d : Diagnostic) : (p.emit d).Settled (n + 1) := by
  rw [Settled] at h
  rw [Settled, Parser.emit, Journal.shown_emit, List.length_append, h]
  show n + p.pending + 1 = n + 1 + p.pending
  omega

/-- Once another token has been read, the diagnostic of the last one no longer stands for a failure
to come. -/
theorem Settled.advance_of_rest (h : p.Settled n) (hrest : p.rest ≠ []) :
    p.advance.Settled (n + p.pending) := by
  obtain ⟨x, rest, hrest⟩ := List.exists_cons_of_ne_nil hrest
  have hx : x.shown?.toList.length = if x.token.kind.isInvalid then 1 else 0 := by
    rw [← x.isSome_shown?]
    cases x.shown? <;> rfl
  have hlength : (p.journal.lexeme x).shown.length = n + p.pending + x.shown?.toList.length := by
    rw [Journal.shown_lexeme, List.length_append, h]
  rw [hx] at hlength
  rw [Parser.advance, hrest]
  exact hlength

theorem Settled.advance (h : p.Settled n) (accepted : p.current.kind.isInvalid = false) :
    p.advance.Settled n := by
  by_cases hrest : p.rest = []
  · refine h.same ?_ ?_ <;> rw [Parser.advance, hrest]
  · have hadvance := h.advance_of_rest hrest
    rwa [pending, accepted] at hadvance

theorem upheld_settled (n : Nat) : Upheld (Settled n) where
  advance h := h.advance
  same h current _ _ shown := h.same current shown

/-- Recovery may pass over refused tokens. -/
theorem Settled.exists_recover (h : p.Settled n) (stop : Kind → Bool) :
    ∃ m, n ≤ m ∧ (p.recover stop).Settled m := by
  have hskip : ∃ m, n ≤ m ∧ (p.skipUntil stop).2.Settled m := by
    induction hlen : p.rest.length using Nat.strongRecOn generalizing p n with
    | _ l ih =>
      rw [skipUntil]
      split
      · next hgo =>
        have := List.length_pos_iff.2 hgo.2
        obtain ⟨m, hm, hsettled⟩ :=
          ih _ (by rw [length_rest_advance]; omega) (h.advance_of_rest hgo.2) rfl
        exact ⟨m, by omega, hsettled⟩
      · exact ⟨n, Nat.le_refl n, h⟩
  obtain ⟨m, hm, hsettled⟩ := hskip
  exact ⟨m, hm, hsettled.note _⟩

/-- Where a refused token is to blame, recovery passes over this token. -/
theorem Settled.exists_recover_of_invalid (h : p.Settled n) (refused : p.current.kind.isInvalid)
    (hrest : p.rest ≠ []) : ∃ m, n + 1 ≤ m ∧ (p.recover endsLine).Settled m := by
  have hstop : endsLine p.current.kind = false := by
    cases hk : p.current.kind <;> simp_all [endsLine, Kind.isInvalid]
  have hadvance := h.advance_of_rest hrest
  rw [pending, if_pos refused] at hadvance
  obtain ⟨m, hm, hsettled⟩ := hadvance.exists_recover endsLine
  refine ⟨m, hm, hsettled.same ?_ ?_⟩
  · rw [recover, skipUntil.eq_def endsLine p, if_pos ⟨by simp [hstop], hrest⟩]
    rfl
  · rw [recover, skipUntil.eq_def endsLine p, if_pos ⟨by simp [hstop], hrest⟩]
    simp [recover, Parser.note]

/-- An item that can be read shows nothing but a diagnostic that stands for a failure to come. If
none can be read, at least one diagnostic stands for that. -/
theorem Settled.parseItem (h : p.Settled n) (bounded : p.Bounded) :
    (∀ item q, p.parseItem = (some item, q) → q.Settled n) ∧
      ∀ q, p.parseItem = (none, q) → ∃ m, n + 1 ≤ m ∧ q.Settled m := by
  have hread := (upheld_settled n).yields_item h bounded
  rw [Parser.parseItem]
  cases hrun : (Parse.item p.fuel).run p with
  | ok item q =>
    refine ⟨fun _ _ he => ?_, fun _ he => by cases he⟩
    obtain rfl := (Prod.mk.inj he).2
    exact hread.ok hrun
  | error failure q =>
    refine ⟨fun _ _ he => (by cases he), fun r he => ?_⟩
    obtain rfl := (Prod.mk.inj he).2
    obtain ⟨hq, harises, hne⟩ := hread.error hrun
    have hbounded : q.Bounded :=
      ((Parse.ensures_item (R := ReadsOn) p.fuel p).error hrun).bounded bounded
    cases failure with
    | diagnostic d =>
      have hshown : ((q.emit d).rollback p.arena.mark).Settled (n + 1) := (hq.emit d).same rfl rfl
      exact hshown.exists_recover endsLine
    | shown =>
      have hinvalid : q.current.kind.isInvalid := harises
      refine Settled.exists_recover_of_invalid (hq.same rfl rfl) hinvalid ?_
      exact hbounded.rest_ne_nil fun hend => by simp [hend, Kind.isInvalid] at hinvalid
    | tooDeep => exact absurd rfl hne

end Parser

namespace Session

variable {s s' : Session} {n : Nat}

/-! ### Steps -/

theorem settled_atItem (h : s.parser.Settled n) : s.atItem.Settled n := by
  rw [atItem]
  generalize s.parser = p at h
  fun_induction skipToItem s.options p with
  | case1 p hline ih =>
    refine ih (Parser.Settled.advance ?_ ?_)
    · refine h.same (current_prompt _ _) ?_
      rw [prompt]
      split
      · rfl
      · exact Journal.shown_prompt _ _
    · rw [current_prompt, hline.1]
      rfl
  | case2 p _ hblock ih => exact ih (h.advance (by rw [hblock.1]; rfl))
  | case3 p => exact h

theorem settled_fail (h : s.parser.Settled n) : s.fail.2.parser.Settled n := by
  rw [fail]
  split
  · exact h.note _
  · exact h

/-- A step that fails adds at least one diagnostic to those that stand for earlier failures, and
every other step adds none. -/
theorem exists_settled_step (h : s.parser.Settled n) (bounded : s.parser.Bounded) :
    ∃ m, s.step.2.parser.Settled m ∧
      if s.step.1 = .failed then n + 1 ≤ m else m = n := by
  have hitem := settled_atItem h
  obtain ⟨hsome, hnone⟩ := hitem.parseItem ((readsOn_atItem s).bounded bounded)
  have hafter {q : Parser} (c : CheckState) (hq : q.Settled n) : (afterCheck q c).Settled n :=
    hq.same rfl (Journal.shown_notes _ _)
  have hfail {t : Session} {m : Nat} (hm : n + 1 ≤ m) (ht : t.parser.Settled m) :
      ∃ m, t.fail.2.parser.Settled m ∧ if t.fail.1 = .failed then n + 1 ≤ m else m = n := by
    refine ⟨m, settled_fail ht, ?_⟩
    rwa [if_pos (outcome_fail t)]
  have hstepped := stepped_step s
  generalize s.step = outcome at *
  cases hstepped with
  | halted => exact ⟨n, h, rfl⟩
  | ended => exact ⟨n, hitem, rfl⟩
  | unread q _ _ read =>
    obtain ⟨m, hm, hq⟩ := hnone q read
    exact hfail hm hq
  | refused item q d c _ _ read =>
    exact hfail (Nat.le_refl _) (((hafter c (hsome item q read)).emit d).same rfl rfl)
  | accepted item q c _ _ read => exact ⟨n, (hafter c (hsome item q read)).note _, rfl⟩

/-- The number of the first `n` steps that have failed. -/
def failures (s : Session) (n : Nat) : Nat :=
  (List.range n).countP fun m => (s.after m).step.1 = .failed

theorem failures_succ (s : Session) (n : Nat) :
    s.failures (n + 1) = s.failures n + if (s.after n).step.1 = .failed then 1 else 0 := by
  rw [failures, List.range_succ, List.countP_append, List.countP_singleton]
  simp [failures]

theorem failures_pos_iff : 0 < s.failures n ↔ ∃ m < n, (s.after m).step.1 = .failed := by
  rw [failures, List.countP_pos_iff]
  simp

/-- No step fails after the last one. -/
theorem failures_of_finished (h : (s.after n).step.1 = .finished) (k : Nat) :
    s.failures (n + k) = s.failures n := by
  induction k with
  | zero => rfl
  | succ k ih => rw [← Nat.add_assoc, failures_succ, ih, finished_after h k]; rfl

/-- The diagnostics that stand for earlier failures are at least as many as these, and none if there
are none. -/
theorem exists_settled_after (h : s.parser.Settled 0) (bounded : s.parser.Bounded) (n : Nat) :
    ∃ m, (s.after n).parser.Settled m ∧ s.failures n ≤ m ∧ (s.failures n = 0 → m = 0) := by
  induction n with
  | zero => exact ⟨0, h, Nat.le_refl 0, fun _ => rfl⟩
  | succ n ih =>
    obtain ⟨m, hm, hle, hzero⟩ := ih
    obtain ⟨m', hm', hstep⟩ := exists_settled_step hm (bounded_after bounded n)
    refine ⟨m', hm', ?_⟩
    rw [failures_succ]
    split
    · next hfailed =>
      rw [if_pos hfailed] at hstep
      exact ⟨by omega, fun hno => absurd hno (Nat.succ_ne_zero _)⟩
    · next haccepted =>
      rw [if_neg haccepted] at hstep
      exact ⟨by omega, fun hno => hstep.trans (hzero hno)⟩

/-- A session that has not halted before is halted by a failure in file mode. -/
theorem halted_after_iff (running : s.halted = false) (n : Nat) :
    (s.after n).halted = true ↔ s.options.mode = .file ∧ 0 < s.failures n := by
  induction n with
  | zero => simp [after, running, failures]
  | succ n ih =>
    rw [after_succ, halted_step, ih, options_after, failures_succ]
    split
    · next hfailed =>
      simp only [hfailed, true_and]
      refine ⟨fun h => ⟨?_, Nat.succ_pos _⟩, fun h => .inr h.1⟩
      exact h.elim And.left id
    · next hfailed => simp [hfailed]

/-- Once a session has finished, a diagnostic has been shown exactly if a step has failed. -/
theorem hasErrors_iff_failures (h : s.parser.Settled 0) (bounded : s.parser.Bounded)
    (running : s.halted = false) (finished : (s.after n).step.1 = .finished) :
    (s.after (n + 1)).journal.hasErrors = true ↔ 0 < s.failures n := by
  obtain ⟨m, hm, hle, hzero⟩ := exists_settled_after h bounded (n + 1)
  rw [failures_of_finished finished 1] at hle hzero
  rw [Journal.hasErrors_iff, ← List.length_pos_iff]
  refine ⟨fun herrors => ?_, fun hfailed => Nat.lt_of_lt_of_le hfailed (Nat.le_trans hle hm.le)⟩
  by_contra hno
  have hno : s.failures n = 0 := Nat.eq_zero_of_not_pos hno
  have hrunning : (s.after n).halted = false := by
    rw [← Bool.not_eq_true, halted_after_iff running, hno]
    simp
  have hend : (s.after (n + 1)).parser.current.kind = .endOfInput := by
    rw [after_succ, step_of_running hrunning,
      if_pos ((finished_iff.1 finished).resolve_left (by simp [hrunning]))]
    exact (finished_iff.1 finished).resolve_left (by simp [hrunning])
  rw [hzero hno, Parser.Settled, Parser.pending, hend] at hm
  exact absurd hm (Nat.ne_of_gt herrors)

/-! ### Runs of the program -/

/-- Two sessions that run alike and differ in prompts and notes only. -/
structure Mirrors (s s' : Session) : Prop extends Replays s s' where
  options : s'.options = s.options
  halted : s'.halted = s.halted

theorem mirrors_note (s : Session) (note : Note) : Mirrors s (s.note note) :=
  ⟨⟨Parser.replays_note _ _, rfl, rfl⟩, rfl, rfl⟩

namespace Mirrors

theorem trans {s'' : Session} (h : Mirrors s s') (k : Mirrors s' s'') : Mirrors s s'' :=
  ⟨h.toReplays.trans k.toReplays, k.options.trans h.options, k.halted.trans h.halted⟩

/-- Both do the same at every step. -/
theorem step (h : Mirrors s s') (bounded : s.parser.Bounded) :
    s'.step.1 = s.step.1 ∧ Mirrors s.step.2 s'.step.2 := by
  cases hhalted : s.halted with
  | true =>
    rw [step_of_halted hhalted, step_of_halted (h.halted.trans hhalted)]
    exact ⟨rfl, h⟩
  | false =>
    obtain ⟨houtcome, hnext⟩ := h.toReplays.step bounded hhalted (h.halted.trans hhalted)
    refine ⟨houtcome, hnext, by rw [options_step, options_step, h.options], ?_⟩
    rw [Bool.eq_iff_iff, halted_step, halted_step, houtcome, h.halted, h.options]

theorem steps (h : Mirrors s s') (bounded : s.parser.Bounded) (fuel : Nat) :
    Mirrors (steps fuel s).2 (steps fuel s').2 := by
  induction fuel generalizing s s' with
  | zero => exact h
  | succ fuel ih =>
    obtain ⟨houtcome, hnext⟩ := h.step bounded
    rw [Session.steps, Session.steps]
    dsimp only
    rw [houtcome]
    split
    · exact hnext
    · exact ih hnext ((readsOn_step s).bounded bounded)

/-- Printing the accepted items makes no difference. -/
theorem printItems (h : Mirrors s s') (bounded : s.parser.Bounded) (fuel : Nat) :
    Mirrors (Session.steps fuel s).2 (CommandLine.printItems fuel s').2 := by
  induction fuel generalizing s s' with
  | zero => exact h
  | succ fuel ih =>
    obtain ⟨houtcome, hnext⟩ := h.step bounded
    have hbounded := (readsOn_step s).bounded bounded
    rw [Session.steps, CommandLine.printItems]
    cases hstep : s.step with
    | mk outcome t =>
      cases hstep' : s'.step with
      | mk outcome' t' =>
        rw [hstep, hstep'] at houtcome hnext
        rw [hstep] at hbounded
        obtain rfl : outcome' = outcome := houtcome
        cases outcome' with
        | finished => exact hnext
        | failed => exact ih hnext hbounded
        | item index =>
          dsimp only
          rw [if_neg Step.noConfusion]
          split
          · exact ih hnext hbounded
          · exact ih (hnext.trans (mirrors_note _ _)) hbounded
          · exact ih hnext hbounded

end Mirrors

/-- The exit code tells what a session in file mode has shown in the end. -/
theorem code_execute (a : CommandLine.Arguments) (input : Source.Input) (terminal : Bool)
    (listing : a.emit ≠ .tokens)
    (finished : ((ofInput input (a.options terminal)).after n).step.1 = .finished) :
    (a.execute input terminal).code =
      if a.mode terminal = .file ∧
          ((ofInput input (a.options terminal)).after (n + 1)).journal.hasErrors then 1
      else 0 := by
  let s := ofInput input (a.options terminal)
  have hbounded := bounded_ofInput input (a.options terminal)
  let started := s.note (.sessionStarted (a.mode terminal))
  let last := if a.emit = .trees then CommandLine.printItems started.fuel started
    else ("", started.trace.2)
  have henough : s.parser.rest.length < started.fuel := Nat.lt_add_of_pos_right (by decide)
  obtain ⟨k, -, hk, hsteps⟩ := exists_steps hbounded henough
  have hmirrors : Mirrors s started := mirrors_note s _
  have hlast : Mirrors (s.after (n + 1)) last.2 := by
    rw [after_eq_of_finished finished hk, ← hsteps]
    unfold last
    split
    · exact hmirrors.printItems hbounded _
    · exact hmirrors.steps hbounded _
  have hcode : (a.execute input terminal).code =
      if a.mode terminal = .file ∧ (last.2.journal.note
        (.sessionFinished last.2.items.size last.2.journal.errorCount)).hasErrors then 1
      else 0 := by
    rw [CommandLine.Arguments.execute, if_neg listing]
    rfl
  have herrors : (last.2.journal.note
      (.sessionFinished last.2.items.size last.2.journal.errorCount)).hasErrors =
        (s.after (n + 1)).journal.hasErrors := by
    rw [Bool.eq_iff_iff, Journal.hasErrors_iff, Journal.hasErrors_iff, Journal.shown_note,
      show last.2.journal.shown = _ from hlast.parser.shown]
    rfl
  rw [hcode, herrors]

/-- Failed steps and diagnostics agree. In a new session, the steps that have failed are at any time
at most as many as the diagnostics shown. The session comes to an end, and at the end a diagnostic
has been shown exactly if a step has failed. In file mode this is so exactly if the session has
halted, and in interactive mode it never halts. The program, unless it is to list the tokens, exits
with 1 if the session has halted, and only then; in which mode it runs may depend on whether it
reads from a terminal. -/
theorem failures_iff_errors (a : CommandLine.Arguments) (input : Source.Input) (terminal : Bool) :
    let s := ofInput input (a.options terminal)
    (∀ n, s.failures n ≤ (s.after n).journal.errorCount) ∧
      (∃ n, (s.after n).step.1 = .finished) ∧
      ∀ n, (s.after n).step.1 = .finished →
        ((s.after (n + 1)).journal.hasErrors = true ↔ ∃ m < n, (s.after m).step.1 = .failed) ∧
        ((s.after (n + 1)).halted = true ↔
          a.mode terminal = .file ∧ (s.after (n + 1)).journal.hasErrors = true) ∧
        (a.emit ≠ .tokens →
          ((a.execute input terminal).code = 1 ↔ (s.after (n + 1)).halted = true)) := by
  intro s
  have hbounded : s.parser.Bounded := bounded_ofInput input (a.options terminal)
  have hsettled : s.parser.Settled 0 := Parser.settled_ofLexer _
  refine ⟨fun n => ?_, ?_, fun n hn => ?_⟩
  · obtain ⟨m, hm, hle, -⟩ := exists_settled_after hsettled hbounded n
    rw [Journal.errorCount_eq]
    exact Nat.le_trans hle hm.le
  · obtain ⟨n, -, hn, -⟩ := exists_trace hbounded
    exact ⟨n, hn⟩
  have herrors : (s.after (n + 1)).journal.hasErrors = true ↔ 0 < s.failures n :=
    hasErrors_iff_failures hsettled hbounded rfl hn
  have hhalted : (s.after (n + 1)).halted = true ↔
      a.mode terminal = .file ∧ (s.after (n + 1)).journal.hasErrors = true := by
    rw [halted_after_iff rfl, herrors, failures_succ, hn]
    rfl
  refine ⟨herrors.trans failures_pos_iff, hhalted, fun hemit => ?_⟩
  rw [hhalted, code_execute a input terminal hemit hn]
  split
  · next h => simpa using h
  · next h => simpa using h

/-- A jump that leaves no loop halts the session, and is the one thing that is reported. The program
exits with 1, unless it has read the text from a terminal. -/
theorem failures_iff_errors_jump :
    let a := CommandLine.Arguments.default
    let input := Source.Input.ofString "x = 1\nbreak\ny = 2\n"
    ((jumpBetween .file).after 2).step.1 = .finished ∧ (jumpBetween .file).failures 2 = 1 ∧
      ((jumpBetween .file).after 3).halted = true ∧ (a.execute input false).code = 1 ∧
      ((jumpBetween .interactive).after 3).step.1 = .finished ∧
        (jumpBetween .interactive).failures 3 = 1 ∧ (a.execute input true).code ≠ 1 := by
  intro a input
  have hn : ((jumpBetween .file).after 2).step.1 = .finished := by decide +kernel
  have hn' : ((jumpBetween .interactive).after 3).step.1 = .finished := by decide +kernel
  obtain ⟨-, -, hend⟩ := failures_iff_errors a input false
  obtain ⟨-, -, hend'⟩ := failures_iff_errors a input true
  obtain ⟨herrors, hhalted, hcode⟩ := hend 2 hn
  obtain ⟨-, hhalted', hcode'⟩ := hend' 3 hn'
  have halted := hhalted.2 ⟨rfl, herrors.2 ⟨1, by decide, by decide +kernel⟩⟩
  have running (h : ((jumpBetween .interactive).after 4).halted = true) : False :=
    Mode.noConfusion (hhalted'.1 h).1
  exact ⟨hn, by decide +kernel, halted, (hcode (by decide)).2 halted, hn', by decide +kernel,
    fun h => running ((hcode' (by decide)).1 h)⟩

end Session

end Offside
