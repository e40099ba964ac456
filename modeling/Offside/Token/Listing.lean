import Offside.Journal.Basic
import Offside.Token.Lexer

/-!
# Token listings

The tokens of a text as one line of names per line of tokens. An indent shows the width of the
block that it opens. Every refused token is shown as a diagnostic when it is reached.

## Main definitions

* `Offside.Lexeme.diagnostic?`: the diagnostic of a refused token.
* `Offside.Journal.lexeme`: what a journal records of a token that is read.
* `Offside.listing`: the listing of a sequence of tokens.
-/

namespace Offside

/-- The diagnostic of a refused token. -/
def Token.diagnostic? (token : Token) : Option Diagnostic :=
  match token.kind with
  | .invalid error => some ⟨.lexical error, token.location⟩
  | _ => none

/-- Record that a token is read: its notes, and its diagnostic if it is refused. -/
def Journal.lexeme (journal : Journal) (x : Lexeme) : Journal :=
  let journal := journal.notes x.notes
  match x.token.diagnostic? with
  | some d => journal.emit d x.after.stream
  | none => journal

@[simp] theorem Journal.diagnostics_lexeme (journal : Journal) (x : Lexeme) :
    (journal.lexeme x).diagnostics = journal.diagnostics ++ x.token.diagnostic?.toList := by
  unfold lexeme
  cases x.token.diagnostic? <;> simp

/-- A token as it is listed. -/
def Lexeme.listed (x : Lexeme) : String :=
  match x.token.kind with
  | .indent => s!"<indent={x.after.lastWidth}>"
  | kind => s!"<{kind.name}>"

/-- Whether a listing breaks the line after a token. -/
def Token.endsLine (token : Token) : Bool :=
  token.kind = .endOfLine || token.kind = .endOfInput

/-- The listing of a sequence of tokens. -/
def listing (xs : List Lexeme) : String :=
  String.join (xs.map fun x => x.listed ++ if x.token.endsLine then "\n" else " ")

/-- What a journal records of a sequence of tokens. -/
def listingJournal (xs : List Lexeme) : Journal := xs.foldl Journal.lexeme Journal.empty

end Offside
