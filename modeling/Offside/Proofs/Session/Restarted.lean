import Offside.Proofs.Parser.Replay
import Offside.Proofs.Session.Ends
import Offside.Proofs.Session.Modes

/-!
# Starting over

A session that starts over on another text keeps its options and its journal, and nothing that it has
read or declared. As no step looks into the journal, it does from there on what a new session with
these options does on that text, and what it writes follows what it had written before.

## Main definitions

* `Offside.Session.resuming`: a session with an earlier journal before its own.
* `Offside.Session.SameUnder`: what a session has in common with one under an earlier journal.

## Main results

* `Offside.Session.step_resuming`: an earlier journal has no influence on a step.
* `Offside.Session.sameUnder_after_restart`: a session that starts over goes on as a new one.
-/

namespace Offside.Session

variable {s : Session} (earlier : Journal)

/-- A session with an earlier journal before its own. -/
def resuming (s : Session) : Session := { s with parser := s.parser.resuming earlier }

/-- A session that starts over is a new session under the journal that it has kept. -/
theorem restart_eq (s : Session) (lexer : Lexer) :
    s.restart lexer = (ofLexer lexer s.options).resuming s.journal := by
  rw [resuming, ofLexer, Parser.ofLexer, Parser.resuming, Journal.append_empty]
  rfl

/-! ### What a step does under an earlier journal -/

theorem prompt_resuming (options : SessionOptions) (p : Parser) :
    prompt options (p.resuming earlier) = (prompt options p).resuming earlier := by
  rw [prompt, prompt]
  cases options.mode with
  | file => rfl
  | interactive =>
    dsimp only [Parser.resuming]
    rw [Journal.append_prompt]

theorem skipToItem_resuming (options : SessionOptions) (p : Parser) :
    skipToItem options (p.resuming earlier) = (skipToItem options p).resuming earlier := by
  fun_induction skipToItem options p with
  | case1 p hline ih =>
    rw [skipToItem, Parser.current_resuming, Parser.rest_resuming, if_pos hline, prompt_resuming,
      Parser.advance_resuming, ih]
  | case2 p hline hblock ih =>
    rw [skipToItem, Parser.current_resuming, Parser.rest_resuming, if_neg hline, if_pos hblock,
      Parser.advance_resuming, ih]
  | case3 p hline hblock =>
    rw [skipToItem, Parser.current_resuming, Parser.rest_resuming, if_neg hline, if_neg hblock]

theorem fail_resuming (s : Session) :
    (s.resuming earlier).fail = (s.fail.1, s.fail.2.resuming earlier) := by
  rw [fail, fail, show (s.resuming earlier).options = s.options from rfl]
  cases s.options.mode with
  | file =>
    dsimp only [resuming, Session.note]
    rw [Parser.note_resuming]
  | interactive => rfl

theorem afterCheck_resuming (q : Parser) (c : CheckState) :
    afterCheck (q.resuming earlier) c = (afterCheck q c).resuming earlier := by
  rw [afterCheck, afterCheck, Parser.resuming, Parser.resuming, Journal.append_notes]

theorem check_resuming (s : Session) (mark : Arena.Mark) (item : Item) :
    (s.resuming earlier).check mark item =
      ((s.check mark item).1, (s.check mark item).2.resuming earlier) := by
  rw [check, check, show (s.resuming earlier).types = s.types from rfl,
    show (s.resuming earlier).symbols = s.symbols from rfl]
  dsimp only
  split
  · next c _ =>
    have hread := (congrArg (Parser.note · (.itemAccepted item.location.line))
      (afterCheck_resuming earlier s.parser c)).trans (Parser.note_resuming earlier _ _)
    exact Prod.ext rfl (congrArg (fun parser => Session.mk parser c.symbols (s.items.push item)
      s.options s.halted) hread)
  · next d c _ =>
    have hread : ((afterCheck (s.parser.resuming earlier) c).emit d).rollback mark =
        (((afterCheck s.parser c).emit d).rollback mark).resuming earlier := by
      rw [afterCheck_resuming, Parser.emit_resuming, Parser.rollback_resuming]
    exact (congrArg (fun parser => fail { s with parser }) hread).trans
      (fail_resuming earlier { s with parser := ((afterCheck s.parser c).emit d).rollback mark })

/-- An earlier journal has no influence on a step. -/
theorem step_resuming (bounded : s.parser.Bounded) :
    (s.resuming earlier).step = (s.step.1, s.step.2.resuming earlier) := by
  cases hhalted : s.halted with
  | true =>
    rw [step_of_halted hhalted, step_of_halted (s := s.resuming earlier) hhalted]
  | false =>
    have hitem : (s.resuming earlier).atItem = s.atItem.resuming earlier :=
      skipToItem_resuming earlier s.options s.parser
    rw [step_of_running hhalted, step_of_running (s := s.resuming earlier) hhalted, hitem,
      Parser.current_resuming]
    split
    · rfl
    rw [Parser.parseItem_resuming earlier ((readsOn_atItem s).bounded bounded)]
    cases s.atItem.parseItem with
    | mk found q =>
      cases found with
      | none => exact fail_resuming earlier { s with parser := q }
      | some item => exact check_resuming earlier { s with parser := q } s.atItem.arena.mark item

/-- Nor has it on any number of steps. -/
theorem after_resuming (bounded : s.parser.Bounded) (n : Nat) :
    (s.resuming earlier).after n = (s.after n).resuming earlier := by
  induction n with
  | zero => rfl
  | succ n ih => rw [after_succ, after_succ, ih, step_resuming earlier (bounded_after bounded n)]

/-! ### Starting over -/

/-- The session `s'` has read, accepted and declared what the session `s` has, and is to go on in the
same way; what it has written is an earlier journal, and after that what `s` has written. -/
structure SameUnder (earlier : Journal) (s s' : Session) : Prop where
  items : s'.items = s.items
  sexprs : s'.items.map (Item.sexpr s'.types) = s.items.map (Item.sexpr s.types)
  arena : s'.parser.arena = s.parser.arena
  types : s'.types = s.types
  symbols : s'.symbols = s.symbols
  halted : s'.halted = s.halted
  options : s'.options = s.options
  tokens : s'.parser.current = s.parser.current ∧ s'.parser.rest = s.parser.rest
  journal : s'.journal = earlier ++ s.journal
  diagnostics : s'.journal.diagnostics = earlier.diagnostics ++ s.journal.diagnostics
  output : s'.journal.output = earlier.output ++ s.journal.output
  log : ∀ verbose, s'.journal.log verbose = earlier.log verbose ++ s.journal.log verbose

theorem sameUnder_resuming (s : Session) : SameUnder earlier s (s.resuming earlier) where
  items := rfl
  sexprs := rfl
  arena := rfl
  types := rfl
  symbols := rfl
  halted := rfl
  options := rfl
  tokens := ⟨rfl, rfl⟩
  journal := rfl
  diagnostics := Journal.diagnostics_append _ _
  output := Journal.output_append _ _
  log := Journal.log_append _ _

/-- Whatever a session has come to, if it starts over then each of its next steps has the outcome that
the same step of a new session has, and before and after each the two have accepted, declared and
shown the same since. -/
theorem sameUnder_after_restart (s : Session) (lexer : Lexer) (n : Nat) :
    let fresh := ofLexer lexer s.options
    let again := s.restart lexer
    (again.after n).step.1 = (fresh.after n).step.1 ∧
      SameUnder s.journal (fresh.after n) (again.after n) := by
  intro fresh again
  have bounded : fresh.parser.Bounded := Parser.bounded_beforeFirst lexer
  have hagain : again.after n = (fresh.after n).resuming s.journal := by
    rw [← after_resuming s.journal bounded n]
    exact congrArg (after n) (restart_eq s lexer)
  rw [hagain, step_resuming s.journal (bounded_after bounded n)]
  exact ⟨rfl, sameUnder_resuming s.journal (fresh.after n)⟩

end Offside.Session
