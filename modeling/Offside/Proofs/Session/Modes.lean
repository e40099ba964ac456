import Offside.Proofs.Parser.Replay
import Offside.Proofs.Session.Ends

/-!
# One text in two modes

The mode of a session decides whether prompts are written and whether an error halts the session.
Neither has an effect on what is read, so up to the first error a session does in one mode what it
does in the other. In file mode it does nothing after that.

## Main definitions

* `Offside.Session.Replays`: sessions that differ in prompts and notes only.
* `Offside.Session.SameBesidesPrompts`: what two sessions have in common then.

## Main results

* `Offside.Session.Replays.step`: while neither has halted, both do the same.
* `Offside.Session.sameBesidesPrompts_after`: the two modes agree up to the first failure.
-/

namespace Offside

namespace Parser

variable {p p' : Parser}

/-! ### Between items -/

theorem Replays.prompt (h : Replays p p') (options options' : SessionOptions) :
    Replays (Session.prompt options p) (Session.prompt options' p') := by
  have silent (options : SessionOptions) (q : Parser) : Replays q (Session.prompt options q) := by
    rw [Session.prompt]
    split
    · exact replays_self q
    · exact ⟨rfl, rfl, rfl, rfl, rfl, rfl, Journal.shown_prompt _ _⟩
  exact ((silent options p).symm.trans h).trans (silent options' p')

theorem Replays.skipToItem (h : Replays p p') (options options' : SessionOptions) :
    Replays (Session.skipToItem options p) (Session.skipToItem options' p') :=
  Session.skipToItem_related options (fun _ _ h => by rw [h.current]) (fun _ _ h => by rw [h.rest])
    (fun _ _ h => h.prompt options options') (fun _ _ h => h.advance) h

/-! ### Prompts -/

/-- Reading that writes no prompt. -/
def Promptless (p q : Parser) : Prop :=
  p.journal.unprompted = p.journal → q.journal.unprompted = q.journal

theorem promptless_note (p : Parser) (n : Note) : p.Promptless (p.note n) := by
  intro h
  rw [note, Journal.unprompted_note, h]

theorem promptless_emit (p : Parser) (d : Diagnostic) : p.Promptless (p.emit d) := by
  intro h
  rw [emit, Journal.unprompted_emit, h]

instance : TableFrame Promptless where
  refl _ h := h
  trans _ _ _ h k hp := k (h hp)
  advance p h := by
    rw [advance]
    split
    · exact h
    · rw [Journal.unprompted_lexeme, h]
  note := promptless_note
  addExpr _ _ _ h := h
  addStmt _ _ _ h := h
  setTypes _ _ h := h

theorem promptless_parseItem (p : Parser) : p.Promptless p.parseItem.2 :=
  TableFrame.parseItem promptless_emit (fun p _ => refl_of Promptless p) p

end Parser

namespace Session

variable {s s' : Session}

/-! ### What a step changes -/

@[simp] theorem options_step (s : Session) : s.step.2.options = s.options := by
  have hfail (t : Session) : t.fail.2.options = t.options := by
    rw [fail]
    split <;> rfl
  have hstepped := stepped_step s
  generalize s.step = outcome at *
  cases hstepped with
  | halted | ended | accepted => rfl
  | unread => exact hfail _
  | refused => exact hfail _

@[simp] theorem options_after (s : Session) (n : Nat) : (s.after n).options = s.options := by
  induction n with
  | zero => rfl
  | succ n ih => rw [after_succ, options_step, ih]

/-- A session halts at a failure in file mode, and then only. -/
theorem halted_step (s : Session) :
    s.step.2.halted = true ↔
      s.halted = true ∨ s.step.1 = .failed ∧ s.options.mode = .file := by
  have hfail (t : Session) (running : t.halted = false) :
      t.fail.2.halted = true ↔
        t.halted = true ∨ t.fail.1 = .failed ∧ t.options.mode = .file := by
    rw [fail]
    cases hmode : t.options.mode <;> simp [running]
  have hstepped := stepped_step s
  generalize s.step = outcome at *
  cases hstepped with
  | halted hhalted => exact iff_of_true hhalted (.inl hhalted)
  | ended => simp
  | accepted => simp
  | unread _ running => exact hfail _ running
  | refused _ _ _ _ running => exact hfail _ running

/-- A session that has not failed goes on. -/
theorem running_after (running : s.halted = false) {n : Nat}
    (h : ∀ m < n, (s.after m).step.1 ≠ .failed) : (s.after n).halted = false := by
  induction n with
  | zero => exact running
  | succ n ih =>
    have hn := ih fun m hm => h m (Nat.lt_succ_of_lt hm)
    rw [after_succ, ← Bool.not_eq_true, halted_step]
    exact not_or.2 ⟨by simp [hn], fun hfailed => h n (Nat.lt_succ_self n) hfailed.1⟩

/-! ### Two sessions on one text -/

/-- Two sessions that differ in the prompts and the notes of their journals only, and perhaps in
how they are to run. -/
structure Replays (s s' : Session) : Prop where
  parser : s.parser.Replays s'.parser
  symbols : s'.symbols = s.symbols
  items : s'.items = s.items

theorem replays_ofInput (input : Source.Input) (options options' : SessionOptions) :
    Replays (ofInput input options) (ofInput input options') :=
  ⟨Parser.replays_self _, rfl, rfl⟩

namespace Replays

theorem atItem (h : Replays s s') : s.atItem.Replays s'.atItem :=
  h.parser.skipToItem s.options s'.options

theorem symm (h : Replays s s') : Replays s' s :=
  ⟨h.parser.symm, h.symbols.symm, h.items.symm⟩

theorem trans {s'' : Session} (h : Replays s s') (k : Replays s' s'') : Replays s s'' :=
  ⟨h.parser.trans k.parser, k.symbols.trans h.symbols, k.items.trans h.items⟩

/-- The two may refuse an item in different modes. -/
theorem fail (h : Replays s s') : s'.fail.1 = s.fail.1 ∧ Replays s.fail.2 s'.fail.2 := by
  have silent (t : Session) : Replays t t.fail.2 := by
    rw [Session.fail]
    split
    · exact ⟨Parser.replays_note _ _, rfl, rfl⟩
    · exact ⟨Parser.replays_self _, rfl, rfl⟩
  exact ⟨(outcome_fail s').trans (outcome_fail s).symm,
    ((silent s).symm.trans h).trans (silent s')⟩

theorem check (h : Replays s s') (mark : Arena.Mark) (item : Item) :
    (s'.check mark item).1 = (s.check mark item).1 ∧
      Replays (s.check mark item).2 (s'.check mark item).2 := by
  have hnotes (c : CheckState) : (afterCheck s.parser c).Replays (afterCheck s'.parser c) :=
    ⟨h.parser.current, h.parser.lexer, h.parser.rest, h.parser.afterDedent, h.parser.arena, rfl,
      by simp [afterCheck, h.parser.shown]⟩
  rw [Session.check, Session.check, show s'.types = s.types from h.parser.types, h.symbols, h.items]
  dsimp only
  split
  · next c _ => exact ⟨rfl, (hnotes c).note _ _, rfl, rfl⟩
  · next d c _ =>
    exact fail ⟨((hnotes c).emit d).rollback mark, rfl, rfl⟩

/-- While neither session has halted, both do the same. -/
theorem step (h : Replays s s') (bounded : s.parser.Bounded) (running : s.halted = false)
    (running' : s'.halted = false) :
    s'.step.1 = s.step.1 ∧ Replays s.step.2 s'.step.2 := by
  have hitem := h.atItem
  rw [step_of_running running, step_of_running running', hitem.current]
  split
  · exact ⟨rfl, hitem, h.symbols, h.items⟩
  obtain ⟨hfound, hread⟩ := hitem.parseItem ((readsOn_atItem s).bounded bounded)
  rw [hitem.arena]
  cases hparse : s.atItem.parseItem with
  | mk found q =>
    cases hparse' : s'.atItem.parseItem with
    | mk found' q' =>
      rw [hparse, hparse'] at hfound hread
      obtain rfl : found' = found := hfound
      have hq : Replays { s with parser := q } { s' with parser := q' } :=
        ⟨hread, h.symbols, h.items⟩
      cases found' with
      | none => exact hq.fail
      | some item => exact hq.check _ item

/-- Up to the first failure both do the same. -/
theorem after (h : Replays s s') (bounded : s.parser.Bounded) (running : s.halted = false)
    (running' : s'.halted = false) {n : Nat} (accepted : ∀ m < n, (s.after m).step.1 ≠ .failed) :
    Replays (s.after n) (s'.after n) ∧ ∀ m < n, (s'.after m).step.1 = (s.after m).step.1 := by
  induction n with
  | zero => exact ⟨h, fun m hm => absurd hm (Nat.not_lt_zero m)⟩
  | succ n ih =>
    have haccepted (m : Nat) (hm : m < n) := accepted m (Nat.lt_succ_of_lt hm)
    obtain ⟨hn, houtcomes⟩ := ih haccepted
    obtain ⟨houtcome, hnext⟩ := hn.step (bounded_after bounded n)
      (running_after running haccepted)
      (running_after running' fun m hm => houtcomes m hm ▸ haccepted m hm)
    refine ⟨hnext, fun m hm => ?_⟩
    rcases Nat.lt_succ_iff_lt_or_eq.1 hm with hm | rfl
    · exact houtcomes m hm
    · exact houtcome

end Replays

/-! ### Prompts -/

/-- A session in file mode writes no prompt. -/
theorem unprompted_step (file : s.options.mode = .file)
    (h : s.journal.unprompted = s.journal) : s.step.2.journal.unprompted = s.step.2.journal := by
  have hprompt (p : Parser) : p.Promptless (prompt s.options p) := by
    rw [prompt, file]
    exact refl_of Parser.Promptless p
  have hitem : s.atItem.journal.unprompted = s.atItem.journal :=
    frame_skipToItem s.options hprompt s.parser h
  have hread := Parser.promptless_parseItem s.atItem hitem
  have hnotes {q : Parser} (c : CheckState) (hq : q.journal.unprompted = q.journal) :
      (afterCheck q c).journal.unprompted = (afterCheck q c).journal := by
    rw [afterCheck, Journal.unprompted_notes, hq]
  have hfail {t : Session} (ht : t.journal.unprompted = t.journal) :
      t.fail.2.journal.unprompted = t.fail.2.journal := by
    rw [fail]
    split
    · exact Parser.promptless_note _ _ ht
    · exact ht
  have hstepped := stepped_step s
  generalize s.step = outcome at *
  cases hstepped with
  | halted => exact h
  | ended => exact hitem
  | unread q _ _ read =>
    rw [read] at hread
    exact hfail hread
  | refused item q d c _ _ read =>
    rw [read] at hread
    exact hfail (Parser.promptless_emit (afterCheck q c) d (hnotes c hread))
  | accepted item q c _ _ read =>
    rw [read] at hread
    exact Parser.promptless_note (afterCheck q c) _ (hnotes c hread)

theorem unprompted_after (file : s.options.mode = .file)
    (h : s.journal.unprompted = s.journal) (n : Nat) :
    (s.after n).journal.unprompted = (s.after n).journal := by
  induction n with
  | zero => exact h
  | succ n ih => exact unprompted_step ((options_after s n).symm ▸ file) ih

/-! ### The two modes -/

/-- Two sessions have done the same, but for the prompts that the second one has written. -/
structure SameBesidesPrompts (s s' : Session) : Prop where
  items : s'.items = s.items
  sexprs : s'.items.map (Item.sexpr s'.types) = s.items.map (Item.sexpr s.types)
  arena : s'.parser.arena = s.parser.arena
  types : s'.types = s.types
  symbols : s'.symbols = s.symbols
  tokens : s'.parser.current = s.parser.current ∧ s'.parser.rest = s.parser.rest
  shown : s'.journal.shown = s.journal.shown
  output : s'.journal.unprompted.output = s.journal.output

theorem Replays.sameBesidesPrompts (h : Replays s s')
    (promptless : s.journal.unprompted = s.journal) : SameBesidesPrompts s s' where
  items := h.items
  sexprs := by rw [h.items, show s'.types = s.types from h.parser.types]
  arena := h.parser.arena
  types := h.parser.types
  symbols := h.symbols
  tokens := ⟨h.parser.current, h.parser.rest⟩
  shown := h.parser.shown
  output := by
    rw [← promptless, Journal.output_unprompted, Journal.output_unprompted]
    exact congrArg (fun shown => String.join (shown.map Prod.snd)) h.parser.shown

/-- The two modes agree up to the first failure. Up to and including its first step that fails, a
session in file mode has the same outcomes as one in interactive mode on the same text, and has then
accepted, declared and shown the same; what the two have written differs by the prompts. After that
step the session in file mode answers every time that it has finished, and does not change. -/
theorem sameBesidesPrompts_after (input : Source.Input) (promptText promptText' : String) (n : Nat)
    (accepted : ∀ m < n, ((ofInput input ⟨.file, promptText⟩).after m).step.1 ≠ .failed) :
    let s := ofInput input ⟨.file, promptText⟩
    let s' := ofInput input ⟨.interactive, promptText'⟩
    (s'.after n).step.1 = (s.after n).step.1 ∧
      SameBesidesPrompts (s.after n) (s'.after n) ∧
      SameBesidesPrompts (s.after (n + 1)) (s'.after (n + 1)) ∧
      ((s.after n).step.1 = .failed →
        ∀ m, (s.after (n + 1 + m)).step = (.finished, s.after (n + 1 + m)) ∧
          s.after (n + 1 + m) = s.after (n + 1)) := by
  intro s s'
  have hbounded := bounded_ofInput input ⟨.file, promptText⟩
  obtain ⟨hn, houtcomes⟩ :=
    (replays_ofInput input ⟨.file, promptText⟩ ⟨.interactive, promptText'⟩).after hbounded rfl rfl
      accepted
  have running : (s.after n).halted = false := running_after rfl accepted
  have running' : (s'.after n).halted = false :=
    running_after rfl fun m hm => houtcomes m hm ▸ accepted m hm
  obtain ⟨houtcome, hnext⟩ := hn.step (bounded_after hbounded n) running running'
  have promptless (n : Nat) : (s.after n).journal.unprompted = (s.after n).journal :=
    unprompted_after rfl rfl n
  refine ⟨houtcome, hn.sameBesidesPrompts (promptless n),
    hnext.sameBesidesPrompts (promptless (n + 1)), fun hfailed => ?_⟩
  have hhalted : (s.after (n + 1)).halted = true := by
    rw [after_succ, halted_step]
    exact .inr ⟨hfailed, by rw [options_after]; rfl⟩
  have hfinished := step_of_halted hhalted
  have hstays (m : Nat) : s.after (n + 1 + m) = s.after (n + 1) := by
    cases m with
    | zero => rfl
    | succ m =>
      rw [show n + 1 + (m + 1) = n + 1 + 1 + m by omega,
        after_of_finished (n := n + 1) (congrArg Prod.fst hfinished), after_succ, hfinished]
  intro m
  rw [hstays, hfinished]
  exact ⟨rfl, rfl⟩

/-- An assignment, a jump that leaves no loop, and another assignment. -/
def jumpBetween (mode : Mode) : Session :=
  ofInput (.ofString "x = 1\nbreak\ny = 2\n") ⟨mode, defaultPrompt⟩

theorem sameBesidesPrompts_after_jump :
    (∀ m < 1, ((jumpBetween .file).after m).step.1 ≠ .failed) ∧
      ((jumpBetween .interactive).after 1).step.1 = .failed ∧
      SameBesidesPrompts ((jumpBetween .file).after 2) ((jumpBetween .interactive).after 2) ∧
      (jumpBetween .file).after 4 = (jumpBetween .file).after 2 := by
  have accepted : ∀ m < 1, ((jumpBetween .file).after m).step.1 ≠ .failed := by
    intro m hm
    obtain rfl : m = 0 := by omega
    decide +kernel
  have hfailed : ((jumpBetween .file).after 1).step.1 = .failed := by decide +kernel
  obtain ⟨houtcome, -, hsame, hstays⟩ :=
    sameBesidesPrompts_after (.ofString "x = 1\nbreak\ny = 2\n") defaultPrompt defaultPrompt 1 accepted
  exact ⟨accepted, houtcome.trans hfailed, hsame, (hstays hfailed 2).2⟩

end Session

end Offside
