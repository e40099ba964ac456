import Offside.Proofs.Parser.Ended
import Offside.Proofs.Session.Closed
import Offside.Proofs.Session.Failures
import Offside.Proofs.Session.LineEndStyle

/-!
# Sessions on a text without a last line end

A session makes no difference between a text and the text with a line feed after it, as long as no
item is refused: every item is read in the same way, its check depends on what has been declared, and
between items line ends are skipped. The item that is refused first is the same in both.

## Main definitions

* `Offside.Session.Unended`: sessions that have done the same so far.
* `Offside.Session.StepsUnended`: steps that do the same, or fail in both.

## Main results

* `Offside.Session.Unended.step`, `Offside.Session.Unended.after`: what steps keep until one fails.
* `Offside.Session.run_lineFeed`: a last line end makes no difference to what is accepted.
-/

namespace Offside

open Source

/-! ### Tokens -/

/-- A line feed after a text adds at most one line end to its tokens. -/
theorem Lexer.unended_lineFeed (text : List Char) (broken : Bool) :
    Token.Unended (ofInput ⟨text, broken⟩).tokens (ofInput ⟨text ++ ['\n'], broken⟩).tokens := by
  by_cases h : text.getLast? = some '\r'
  · -- The line feed belongs to the carriage return before it.
    have hsame : normalise (Input.mk (text ++ ['\n']) broken).text =
        normalise (Input.mk text broken).text := by
      rw [normalise_append, if_pos h]
      exact List.append_nil _
    have htokens : (ofInput ⟨text ++ ['\n'], broken⟩).tokens = (ofInput ⟨text, broken⟩).tokens :=
      (same_listing hsame).1
    obtain ⟨before, hkinds, -⟩ := (ofInput ⟨text, broken⟩).exists_tokens
    rw [htokens]
    exact .refl (by rw [hkinds, List.getLast?_append]; rfl)
  · exact unended_ofInput h broken

/-! ### Between items -/

namespace Parser.Unended

variable {p p' : Parser}

/-- What has been written makes no difference. -/
theorem withJournal (h : p.Unended p') (journal journal' : Journal) :
    Unended { p with journal } { p' with journal := journal' } :=
  h.same rfl rfl rfl rfl rfl rfl h.arena h.types

/-- Where no block is open, both get to the first token of the next item, or to the end of the
input. -/
theorem skipToItem {ι : Type} {P : List ι → Parser → Prop} (h : p.Unended p')
    (hP : Parser.Nesting P) (outside : ∀ q, P [] q → q.current.kind ≠ .dedent) (hp : P [] p)
    (options : SessionOptions) :
    (Session.skipToItem options p).Level (Session.skipToItem options p') ∧
      P [] (Session.skipToItem options p) := by
  fun_induction Session.skipToItem options p generalizing p' with
  | case1 p hline ih =>
    obtain ⟨journal, hprompt, -⟩ := Session.exists_prompt options p
    obtain ⟨journal', hprompt', -⟩ := Session.exists_prompt options p'
    have hlevel := (h.withJournal journal journal').level_of_endOfLine hline.1
    obtain ⟨-, hne, hnext⟩ := hlevel.advance (hline.1.trans_ne Kind.noConfusion)
    rw [Session.skipToItem.eq_def options p', if_pos ⟨hlevel.kind.trans hline.1, hne⟩, hprompt']
    rw [hprompt] at ih ⊢
    exact ih hnext (hP.plain (hP.same hp rfl rfl rfl) (hline.1 ▸ rfl))
  | case2 p _ hblock => exact absurd hblock.1 (outside p hp)
  | case3 p hnone =>
    have hline : p.current.kind ≠ .endOfLine := fun hk =>
      hnone ⟨hk, ((h.level_of_endOfLine hk).advance (hk.trans_ne Kind.noConfusion)).1⟩
    have hstop {q : Parser} (hq : q.current.kind = p.current.kind) :
        Session.skipToItem options q = q := by
      rw [Session.skipToItem, if_neg fun h => hline (hq ▸ h.1),
        if_neg fun h => outside p hp (hq ▸ h.1)]
    refine ⟨?_, hp⟩
    rcases h.kind_eq_or with hkind | ⟨n, hkinds, hline', hclosing⟩
    · rw [hstop hkind]
      exact ⟨h, hkind⟩
    · -- The line end that one of the texts lacks is skipped in the other.
      obtain ⟨journal', hprompt', -⟩ := Session.exists_prompt options p'
      obtain ⟨hne, hlevel⟩ := (h.withJournal p.journal journal').advance_lineEnd hkinds hclosing
      rw [Session.skipToItem.eq_def options p', if_pos ⟨hline', hne⟩, hprompt', hstop hlevel.kind]
      exact hlevel

end Parser.Unended

namespace Session

variable {l : Lexer} {s s' : Session}

/-- Sessions on a text, with the tokens of the lexer `l`, and on the text with a line feed after it.
Both are between two items, and have done the same so far. -/
structure Unended (l : Lexer) (s s' : Session) : Prop where
  parser : s.parser.Unended s'.parser
  outside : s.parser.Within l []
  bounded : s.parser.Bounded
  symbols : s'.symbols = s.symbols
  items : s'.items = s.items
  options : s'.options = s.options
  running : s.halted = false
  running' : s'.halted = false

/-- Both steps do the same, or both fail. -/
inductive StepsUnended (l : Lexer) (x x' : Step × Session) : Prop
  | same (outcome : x'.1 = x.1) (accepted : x.1 ≠ .failed) (after : x.2.Unended l x'.2)
  | failed (outcome : x.1 = .failed) (outcome' : x'.1 = .failed)

namespace Unended

section

variable (hs : l.stream.LineWise) (hl : l.Holds [])
include hs hl

/-- Notes make no difference. -/
theorem note (h : s.Unended l s') (n n' : Note) : (s.note n).Unended l (s'.note n') :=
  ⟨h.parser.same rfl rfl rfl rfl rfl rfl h.parser.arena h.parser.types,
    (Parser.nesting_within hs hl).same h.outside rfl rfl rfl, h.bounded, h.symbols, h.items,
    h.options, h.running, h.running'⟩

/-- An item that has been read in both is accepted in both, or refused in both. -/
theorem check (h : s.Unended l s') (mark mark' : Arena.Mark) (item : Item) :
    StepsUnended l (s.check mark item) (s'.check mark' item) := by
  rw [Session.check, Session.check, h.symbols, show s'.types = s.types from h.parser.types]
  dsimp only
  split
  · next c hc =>
    refine .same ?_ Step.noConfusion ⟨?_, ?_, h.bounded, rfl, ?_, h.options, h.running, h.running'⟩
    · show Step.item _ = Step.item _
      rw [h.items]
    · exact h.parser.same rfl rfl rfl rfl rfl rfl h.parser.arena rfl
    · exact (Parser.nesting_within hs hl).same h.outside rfl rfl rfl
    · show s'.items.push item = s.items.push item
      rw [h.items]
  · next d c hc => exact .failed (outcome_fail _) (outcome_fail _)

/-- Both do the same at a step, or both fail. -/
theorem step (h : s.Unended l s') : StepsUnended l s.step s'.step := by
  have hP := Parser.nesting_within hs hl
  have outside (q : Parser) (hq : q.Within l []) : q.current.kind ≠ .dedent :=
    hq.kind_ne_dedent hs hl
  have hskip := h.parser.skipToItem hP outside h.outside s.options
  rw [← atItem, ← h.options, ← atItem] at hskip
  obtain ⟨hitem, hwithin⟩ := hskip
  have bounded := (readsOn_atItem s).bounded h.bounded
  rw [step_of_running h.running, step_of_running h.running', hitem.kind]
  split
  · exact .same rfl Step.noConfusion
      ⟨hitem.toUnended, hwithin, bounded, h.symbols, h.items, h.options, h.running, h.running'⟩
  · next hmore =>
    have hline := kind_skipToItem_ne s.parser (bounded.rest_ne_nil hmore)
    have hinside : s.atItem.Inside s'.atItem := by
      refine ⟨hitem.toUnended, Bool.eq_false_iff.2 fun hend => ?_⟩
      rcases Kind.eq_of_isEnd hend with hk | hk | hk
      · exact hline hk
      · exact outside _ hwithin hk
      · exact hmore hk
    have hread := hinside.couples_item hP outside hwithin bounded
    rw [Couples] at hread
    rw [Parser.parseItem, Parser.parseItem, EStateM.run, EStateM.run]
    split at hread
    · next item q item' q' hrun hrun' =>
      have hread' : (Parse.item s.atItem.fuel).run s.atItem = .ok item q := hrun
      have hkeeps := (Parse.attains_item hP s.atItem.fuel hwithin).ok hread'
      have hreads := (Parse.ensures_item (R := Parser.ReadsOn) s.atItem.fuel s.atItem).ok hread'
      rw [hrun, hrun']
      obtain ⟨rfl, hq⟩ := hread
      have hafter : Unended l { s with parser := q } { s' with parser := q' } :=
        ⟨hq, hkeeps, hreads.1.bounded bounded, h.symbols, h.items, h.options, h.running, h.running'⟩
      exact hafter.check hs hl _ _ _
    · next hrun hrun' =>
      rw [hrun, hrun']
      exact .failed (outcome_fail _) (outcome_fail _)
    · exact hread.elim
    · exact hread.elim

/-- Until a step has failed both have done the same, and the step that fails first is the same. -/
theorem after (h : s.Unended l s') (n : Nat) :
    (s.after n).Unended l (s'.after n) ∧ s.failures n = 0 ∧ s'.failures n = 0 ∨
      0 < s.failures n ∧ 0 < s'.failures n := by
  induction n with
  | zero => exact .inl ⟨h, rfl, rfl⟩
  | succ n ih =>
    rw [failures_succ, failures_succ, after_succ, after_succ]
    rcases ih with ⟨hn, hnone, hnone'⟩ | ⟨hfailed, hfailed'⟩
    · cases hn.step hs hl with
      | same outcome accepted after =>
        left
        rw [outcome, if_neg accepted, hnone, hnone']
        exact ⟨after, rfl, rfl⟩
      | failed outcome outcome' =>
        right
        rw [outcome, outcome', if_pos rfl]
        exact ⟨Nat.succ_pos _, Nat.succ_pos _⟩
    · exact .inr ⟨by omega, by omega⟩

/-- When both have finished, they have done the same, or a step has failed in both. -/
theorem after_of_finished (h : s.Unended l s') {m n : Nat} (hm : (s.after m).step.1 = .finished)
    (hn : (s'.after n).step.1 = .finished) :
    (s.after (m + 1)).Unended l (s'.after (n + 1)) ∧ s.failures m = 0 ∧ s'.failures n = 0 ∨
      0 < s.failures m ∧ 0 < s'.failures n := by
  have hafter := h.after hs hl (m + n + 1)
  rw [after_eq_of_finished (finished_after hm n) hm, failures_succ, finished_after hm n,
    failures_of_finished hm] at hafter
  rw [Nat.add_comm m n, after_eq_of_finished (finished_after hn m) hn, failures_succ,
    finished_after hn m, failures_of_finished hn] at hafter
  simpa using hafter

end

end Unended

/-! ### Whole texts -/

theorem unended_ofInput (text : List Char) (broken : Bool) (options : SessionOptions) :
    (ofInput ⟨text, broken⟩ options).Unended (.ofInput ⟨text, broken⟩)
      (ofInput ⟨text ++ ['\n'], broken⟩ options) where
  parser := ⟨.cons Parser.beforeFirst (Lexer.unended_lineFeed text broken), fun _ => rfl, rfl, rfl⟩
  outside := ⟨0, .start rfl rfl rfl, rfl⟩
  bounded := Parser.bounded_beforeFirst _
  symbols := rfl
  items := rfl
  options := rfl
  running := rfl
  running' := rfl

/-- A run reports nothing exactly if no step has failed. -/
theorem exists_run (input : Input) (options : SessionOptions) :
    let s := (ofInput input options).note (.sessionStarted options.mode)
    ∃ n, (s.after n).step.1 = .finished ∧
      (ofInput input options).run.items = (s.after (n + 1)).items ∧
      (ofInput input options).run.types = (s.after (n + 1)).types ∧
      (ofInput input options).run.symbols = (s.after (n + 1)).symbols ∧
      ((ofInput input options).run.journal.diagnostics = [] ↔ s.failures n = 0) := by
  intro s
  have bounded : s.parser.Bounded := Parser.bounded_beforeFirst _
  obtain ⟨n, -, hfinished, htrace⟩ := exists_trace bounded
  have hrun : (ofInput input options).run = (s.after (n + 1)).note
      (.sessionFinished (s.after (n + 1)).items.size (s.after (n + 1)).journal.errorCount) := by
    rw [← htrace]
    rfl
  have herrors := hasErrors_iff_failures ((Parser.settled_ofLexer (.ofInput input)).note
    (.sessionStarted options.mode)) bounded rfl hfinished
  refine ⟨n, hfinished, by rw [hrun]; rfl, by rw [hrun]; rfl, by rw [hrun]; rfl, ?_⟩
  have hdiagnostics : (ofInput input options).run.journal.diagnostics =
      (s.after (n + 1)).journal.diagnostics := by
    rw [hrun]
    exact Journal.diagnostics_note _ _
  rw [hdiagnostics]
  have hshown : (s.after (n + 1)).journal.diagnostics ≠ [] ↔ 0 < s.failures n := by
    rw [← herrors, Journal.hasErrors]
    simp
  exact not_iff_not.1 (hshown.trans Nat.pos_iff_ne_zero)

/-- A missing last line end makes no difference. In either mode, a session on a text reports nothing
exactly if the session on the text with a line feed after it reports nothing; and then the two accept
the same items, at the same places, and end with the same aliases, structs, layouts, functions and
globals. -/
theorem run_lineFeed (text : List Char) (broken : Bool) (options : SessionOptions) :
    let s := (ofInput ⟨text, broken⟩ options).run
    let s' := (ofInput ⟨text ++ ['\n'], broken⟩ options).run
    (s.journal.diagnostics = [] ↔ s'.journal.diagnostics = []) ∧
      (s.journal.diagnostics = [] →
        s'.items = s.items ∧ s'.types = s.types ∧ s'.symbols = s.symbols) := by
  intro s s'
  have hs := Stream.lineWise_ofInput ⟨text, broken⟩
  have hl := Lexer.holds_ofInput ⟨text, broken⟩
  obtain ⟨m, hm, hitems, htypes, hsymbols, hclean⟩ := exists_run ⟨text, broken⟩ options
  obtain ⟨n, hn, hitems', htypes', hsymbols', hclean'⟩ := exists_run ⟨text ++ ['\n'], broken⟩ options
  have hstart := (unended_ofInput text broken options).note hs hl (.sessionStarted options.mode)
    (.sessionStarted options.mode)
  rw [hclean, hclean']
  rcases hstart.after_of_finished hs hl hm hn with ⟨hend, hnone, hnone'⟩ | ⟨hfailed, hfailed'⟩
  · refine ⟨iff_of_true hnone hnone', fun _ => ⟨?_, ?_, ?_⟩⟩
    · rw [hitems, hitems', hend.items]
    · rw [htypes, htypes']
      exact hend.parser.types
    · rw [hsymbols, hsymbols', hend.symbols]
  · refine ⟨iff_of_false (by omega) (by omega), fun hnone => ?_⟩
    omega

/-- A conditional whose block ends with the text is accepted, as with a line feed after it. -/
theorem run_lineFeed_block :
    let text := "if 1 < 2:\n  print(3)".toList
    let s := (ofInput ⟨text, false⟩ ⟨.file, defaultPrompt⟩).run
    let s' := (ofInput ⟨text ++ ['\n'], false⟩ ⟨.file, defaultPrompt⟩).run
    s.journal.diagnostics = [] ∧ s'.journal.diagnostics = [] ∧ s'.items = s.items ∧
      s.items.size = 1 := by
  intro text s s'
  have hclean : s.journal.diagnostics = [] := by decide +kernel
  obtain ⟨hreports, haccepted⟩ := run_lineFeed text false ⟨.file, defaultPrompt⟩
  exact ⟨hclean, hreports.1 hclean, (haccepted hclean).1, by decide +kernel⟩

end Session

end Offside
