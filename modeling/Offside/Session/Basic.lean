import Offside.Lowering.SExpr
import Offside.Parser.Item
import Offside.Typing.Check

/-!
# Sessions

A session reads a text item by item. Each item is read and then checked; an item that fails either
is reported and leaves nothing behind but what the journal says and the types declared or laid out
on the way. In file mode the first failure halts the session; in interactive mode a prompt is
written before each line and the session goes on.

## Main definitions

* `Offside.Session`: a session.
* `Offside.Session.step`: handle the next item.
* `Offside.Session.run`: handle items until none is left.
* `Offside.Session.restart`: start over on another text, keeping the journal.
-/

namespace Offside

/-- How a session is to run. -/
structure SessionOptions where
  mode : Mode
  prompt : String
  deriving DecidableEq, Repr

/-- The prompt unless another one is asked for. -/
def defaultPrompt : String := "ready> "

/-- A session: what is read, what is declared, and which items were accepted. -/
structure Session where
  parser : Parser
  symbols : Symbols
  items : Array Item
  options : SessionOptions
  halted : Bool

/-- What became of a step. -/
inductive Step
  /-- An item was accepted; its index among the accepted items. -/
  | item (index : Nat)
  /-- An item was refused. -/
  | failed
  /-- The input is at its end, or the session has halted. -/
  | finished
  deriving DecidableEq, Repr

namespace Session

/-- A session before the first token of a text. -/
def ofLexer (lexer : Lexer) (options : SessionOptions) : Session :=
  ⟨.ofLexer lexer, .empty, #[], options, false⟩

/-- A session on an input. -/
def ofInput (input : Source.Input) (options : SessionOptions) : Session :=
  ofLexer (.ofInput input) options

/-- Start over on another text: only the journal and the options are kept. -/
def restart (s : Session) (lexer : Lexer) : Session :=
  { s with
    parser := { s.parser.restart lexer with types := .initial }
    symbols := .empty, items := #[], halted := false }

/-- The type tables. -/
def types (s : Session) : TypeEnv := s.parser.types

/-- The journal. -/
def journal (s : Session) : Journal := s.parser.journal

/-- Record a note. -/
def note (s : Session) (n : Note) : Session := { s with parser := s.parser.note n }

/-- Write the prompt, in interactive mode. -/
def prompt (options : SessionOptions) (p : Parser) : Parser :=
  match options.mode with
  | .file => p
  | .interactive => { p with journal := p.journal.prompt options.prompt }

/-- Read up to the first token of an item or the end of the input: line ends, each with a prompt,
and the ends of blocks that a failed item left open. -/
def skipToItem (options : SessionOptions) (p : Parser) : Parser :=
  if p.current.kind = .endOfLine ∧ p.rest ≠ [] then
    skipToItem options (prompt options p).advance
  else if p.current.kind = .dedent ∧ p.rest ≠ [] then skipToItem options p.advance
  else p
termination_by p.rest.length
decreasing_by
  all_goals
    have := List.length_pos_iff.2 (And.right ‹_›)
    rw [Parser.length_rest_advance]
  · have : (prompt options p).rest = p.rest := by
      unfold prompt
      split <;> rfl
    rw [this]
    omega
  · omega

/-- End a step in which an item was refused. -/
def fail (s : Session) : Step × Session :=
  match s.options.mode with
  | .file => (.failed, { s.note .halting with halted := true })
  | .interactive => (.failed, s)

/-- Check an item that has been read, and accept or refuse it; `mark` is the moment before it was
read. -/
def check (s : Session) (mark : Arena.Mark) (item : Item) : Step × Session :=
  let parserAfter (c : CheckState) : Parser :=
    { s.parser with types := c.types, journal := s.parser.journal.notes c.notes.reverse }
  match (checkItem item).run (.initial s.types s.symbols) with
  | .ok () c =>
    let s :=
      { s with parser := parserAfter c, symbols := c.symbols, items := s.items.push item }
    (.item (s.items.size - 1), s.note (.itemAccepted item.location.line))
  | .error d c => fail { s with parser := ((parserAfter c).emit d).rollback mark }

/-- Handle the next item. -/
def step (s : Session) : Step × Session :=
  if s.halted then (.finished, s)
  else
    let p := skipToItem s.options s.parser
    if p.current.kind = .endOfInput then (.finished, { s with parser := p })
    else
      match p.parseItem with
      | (none, q) => fail { s with parser := q }
      | (some item, q) => check { s with parser := q } p.arena.mark item

/-- Handle items until none is left, at most `fuel` of them: each step with the session after
it, and the session in the end. -/
def steps : Nat → Session → List (Step × Session) × Session
  | 0, s => ([], s)
  | fuel + 1, s =>
    let (outcome, after) := s.step
    if outcome = .finished then ([(outcome, after)], after)
    else
      let (more, last) := steps fuel after
      ((outcome, after) :: more, last)

/-- A bound on the number of steps to the end: each but the last reads a token. -/
def fuel (s : Session) : Nat := s.parser.rest.length + 2

/-- Handle items until none is left. -/
def trace (s : Session) : List (Step × Session) × Session := steps s.fuel s

/-- Handle items until none is left, with a note before and after. -/
def run (s : Session) : Session :=
  let s := (s.note (.sessionStarted s.options.mode)).trace.2
  s.note (.sessionFinished s.items.size s.journal.errorCount)

end Session

end Offside
