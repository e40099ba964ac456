import Offside.Token.Listing
import Offside.Tree.Arena
import Offside.Tree.Item
import Offside.Types.Env

/-!
# Reading a token sequence

A parser stands on a token and knows the tokens after it, each with the lexer behind it. While it
reads it finishes nodes in an arena, declares aliases and structs, and keeps a journal. It starts
on a line end before the first token, so that advancing once loads that token.

## Main definitions

* `Offside.Parser`: the state of a parser.
* `Offside.Parse`: computations that read tokens and may fail.
* `Offside.Parser.advance`: read one token.
* `Offside.Parser.skipUntil`, `Offside.Parser.skipLineEnds`: read tokens of no interest.
* `Offside.Parse.refuse`, `Offside.Parse.expect`, `Offside.Parse.accept?`: decide on a token.
* `Offside.Parse.finishExpr`, `Offside.Parse.finishStmt`: finish a node.
-/

namespace Offside

/-- A parser: the token that it stands on and what is read so far. -/
structure Parser where
  current : Token
  /-- The lexer after the current token. -/
  lexer : Lexer
  /-- The tokens after the current one. -/
  rest : List Lexeme
  /-- Whether the token before the current one closed a block. -/
  afterDedent : Bool
  arena : Arena
  types : TypeEnv
  journal : Journal

namespace Parser

/-- The line end before the first token of a text. -/
def beforeFirst : Token := ⟨.endOfLine, ⟨0, 0⟩⟩

/-- Stand before the first token of a text, with an empty arena. -/
def restart (p : Parser) (lexer : Lexer) : Parser :=
  { p with
    current := beforeFirst, lexer, rest := lexer.lexemes, afterDedent := false,
    arena := Arena.empty }

/-- A parser before the first token of a text. -/
def ofLexer (lexer : Lexer) : Parser :=
  ⟨beforeFirst, lexer, lexer.lexemes, false, Arena.empty, TypeEnv.initial, Journal.empty⟩

/-- The stream behind the current token. -/
def stream (p : Parser) : Source.Stream := p.lexer.stream

/-- Read one token. The last token, the end of the input, is never left. -/
def advance (p : Parser) : Parser :=
  let afterDedent := p.current.kind = .dedent
  match p.rest with
  | [] => { p with afterDedent }
  | x :: rest =>
    { p with
      current := x.token, lexer := x.after, rest, afterDedent, journal := p.journal.lexeme x }

@[simp] theorem length_rest_advance (p : Parser) :
    p.advance.rest.length = p.rest.length - 1 := by
  unfold advance
  cases p.rest <;> simp

/-- Show a diagnostic. -/
def emit (p : Parser) (d : Diagnostic) : Parser :=
  { p with journal := p.journal.emit d p.stream }

/-- Record a note. -/
def note (p : Parser) (n : Note) : Parser := { p with journal := p.journal.note n }

/-- Drop the nodes finished since a mark. -/
def rollback (p : Parser) (mark : Arena.Mark) : Parser :=
  { p with arena := p.arena.rollback mark }

/-- Read line ends. -/
def skipLineEnds (p : Parser) : Parser :=
  if p.current.kind = .endOfLine ∧ p.rest ≠ [] then skipLineEnds p.advance else p
termination_by p.rest.length
decreasing_by
  rw [length_rest_advance]
  have := List.length_pos_iff.2 (And.right ‹_›)
  omega

/-- Read tokens up to one at which `stop` holds. The first part is their number. -/
def skipUntil (stop : Kind → Bool) (p : Parser) : Nat × Parser :=
  if ¬ stop p.current.kind ∧ p.rest ≠ [] then
    let (skipped, p) := skipUntil stop p.advance
    (skipped + 1, p)
  else (0, p)
termination_by p.rest.length
decreasing_by
  rw [length_rest_advance]
  have := List.length_pos_iff.2 (And.right ‹_›)
  omega

/-- Kinds of token at which reading can go on after an error in an item: the next line. -/
def endsLine (kind : Kind) : Bool := kind = .endOfLine || kind = .endOfInput

/-- Kinds of token at which reading can go on after the block in hand. -/
def endsBlock (kind : Kind) : Bool := kind = .dedent || kind = .endOfInput

/-- Skip to a token where reading can go on, and note it. -/
def recover (stop : Kind → Bool) (p : Parser) : Parser :=
  let (skipped, p) := p.skipUntil stop
  p.note (.recovered skipped p.current.kind)

/-- Whether a statement may end before the current token: at the end of a line, of a block or of
the input, and right after a block that the statement itself opened. -/
def atStatementEnd (p : Parser) : Bool :=
  p.afterDedent || p.current.kind = .endOfLine || p.current.kind = .endOfInput ||
    p.current.kind = .dedent

/-- Whether an item may end before the current token. -/
def atItemEnd (p : Parser) : Bool :=
  p.afterDedent || p.current.kind = .endOfLine || p.current.kind = .endOfInput

/-- Whether the list of lines of a block is over. -/
def atBlockEnd (p : Parser) : Bool :=
  p.current.kind = .dedent || p.current.kind = .endOfInput

end Parser

/-- Why reading a construct fails. -/
inductive Failure
  /-- A diagnostic that is still to be shown. -/
  | diagnostic (d : Diagnostic)
  /-- A refused token, whose diagnostic was shown when it was read. -/
  | shown
  /-- The bound on the depth of the recursion was too low. -/
  | tooDeep
  deriving DecidableEq, Repr

/-- Computations that read tokens and may fail. -/
abbrev Parse := EStateM Failure Parser

namespace Parse

/-- The kind of the current token. -/
def kind : Parse Kind := do return (← get).current.kind

/-- The place of the current token. -/
def place : Parse Location := do return (← get).current.location

/-- Read one token. -/
def advance : Parse Unit := modify Parser.advance

/-- Record a note. -/
def note (n : Note) : Parse Unit := modify (·.note n)

/-- Fail because something else was expected at the current token. -/
def refuse {α : Type} (expected : Expectation) : Parse α := do
  let p ← get
  if p.current.kind.isInvalid then throw .shown
  else
    let place := anchor p.current.location p.current.kind p.stream
    throw (.diagnostic ⟨.syntactic expected p.current.kind, place⟩)

/-- Fail because of a semantic error at a place. -/
def fail {α : Type} (error : SemanticError) (place : Location) : Parse α :=
  throw (.diagnostic ⟨.semantic error, place⟩)

/-- Read a token if it is of a given kind. -/
def accept? (kind : Kind) : Parse Bool := do
  if (← Parse.kind) = kind then
    advance
    return true
  else return false

/-- Read a token that has to be of a given kind. -/
def expect (kind : Kind) (expected : Expectation) : Parse Unit := do
  if (← Parse.kind) = kind then advance else refuse expected

/-- Read a colon. -/
def expectColon (after : Header) : Parse Unit := expect (.symbol .colon) (.colon after)

/-- Read an opening parenthesis. -/
def expectOpen (after : Opening) : Parse Unit := expect (.symbol .openParen) (.openParen after)

/-- Read a closing parenthesis. -/
def expectClose (after : Closing) : Parse Unit := expect (.symbol .closeParen) (.closeParen after)

/-- Read a name. -/
def expectName (naming : Naming) : Parse String := do
  match ← kind with
  | .identifier name =>
    advance
    return name
  | _ => refuse (.name naming)

/-- Fail unless a statement may end here. -/
def expectStatementEnd (after : Ending) : Parse Unit := do
  if !(← get).atStatementEnd then refuse (.lineEnd after)

/-- Finish an expression node. -/
def finishExpr (place : Location) (build : Tag → Expr) : Parse Expr := fun p =>
  let (e, arena) := p.arena.addExpr place build
  .ok e { p with arena }

/-- Finish a statement node. -/
def finishStmt (place : Location) (build : Tag → Stmt) : Parse Stmt := fun p =>
  let (s, arena) := p.arena.addStmt place build
  .ok s { p with arena }

end Parse

/-- A bound on the depth of the recursion that reads one item: every token accounts for fewer than
this many steps. -/
def stepsPerToken : Nat := 16

/-- A bound on the depth of the recursion that reads what is left. -/
def Parser.fuel (p : Parser) : Nat := stepsPerToken * (p.rest.length + 2)

end Offside
