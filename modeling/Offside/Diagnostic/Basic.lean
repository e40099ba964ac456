import Offside.Diagnostic.Expectation
import Offside.Diagnostic.Semantic
import Offside.Source.Stream
import Offside.Token.Basic

/-!
# Diagnostics

A diagnostic is a cause at a place. It is shown as a header line, the text of the line it points
into, and a caret under its column; the header stands alone when that line is not known.

## Main definitions

* `Offside.Diagnostic`: a cause at a place.
* `Offside.Diagnostic.message`: the wording of the cause.
* `Offside.Diagnostic.render`: how a diagnostic is shown.
* `Offside.anchor`: where an error at a token points.
-/

namespace Offside

/-- What a diagnostic reports. -/
inductive Cause
  | lexical (error : LexicalError)
  /-- The token found where something else was expected. -/
  | syntactic (expected : Expectation) (found : Kind)
  | semantic (error : SemanticError)
  deriving DecidableEq, Repr

/-- The stage of reading that refuses a text. -/
inductive Stage
  | lexical | syntactic | semantic
  deriving DecidableEq, Repr

/-- The name of a stage in the log. -/
def Stage.name : Stage → String
  | lexical => "Lexical"
  | syntactic => "Syntax"
  | semantic => "Semantic"

namespace Cause

/-- The stage at which a cause arises. -/
def stage : Cause → Stage
  | lexical _ => .lexical
  | syntactic _ _ => .syntactic
  | semantic _ => .semantic

/-- The wording of a cause. -/
def message : Cause → String
  | lexical error => error.message
  | syntactic expected found => s!"{expected.text}, found {found.inWords}"
  | semantic error => error.message

end Cause

/-- A cause at a place. -/
structure Diagnostic where
  cause : Cause
  location : Location
  deriving DecidableEq, Repr

/-- The header of an error message at a place. -/
def errorHeader (message : String) (place : Location) : String :=
  s!"Error (Line {place.line}, Column {place.column}): {message}"

/-- An error message as it is shown: its header, the line it points into and a caret, or the
header alone if the line is not known. -/
def renderError (message : String) (place : Location) (stream : Source.Stream) : String :=
  let header := errorHeader message place ++ "\n"
  match stream.lineText place.line with
  | none => header
  | some line =>
    let caret := List.replicate (place.column - 1) ' ' ++ ['^', '~', '~', '~', '\n']
    header ++ String.ofList (line ++ '\n' :: caret)

/-- Where an error at a token points. A line end is placed on the line after it; an error there
points just past the last character of the line that it ends. -/
def anchor (place : Location) (kind : Kind) (stream : Source.Stream) : Location :=
  if kind = .endOfLine ∧ 2 ≤ place.line then
    match stream.lineText (place.line - 1) with
    | some line => ⟨place.line - 1, line.length + 1⟩
    | none => place
  else place

namespace Diagnostic

/-- The wording of the cause. -/
def message (d : Diagnostic) : String := d.cause.message

/-- The stage at which the cause arises. -/
def stage (d : Diagnostic) : Stage := d.cause.stage

/-- A diagnostic as it is shown. -/
def render (d : Diagnostic) (stream : Source.Stream) : String :=
  renderError d.message d.location stream

end Diagnostic

end Offside
