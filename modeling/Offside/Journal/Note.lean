import Offside.Diagnostic.Basic
import Offside.Lowering.Error
import Offside.Session.Mode
import Offside.Tree.TypeExpr

/-!
# Notes

Events that a reader of the log may want to know of. Each has a level and a line of text.

## Main definitions

* `Offside.Note`: the events.
* `Offside.Note.level`: how much they matter.
* `Offside.Note.logLine`: the line of the log that tells of an event.
-/

namespace Offside

/-- How much an event matters. -/
inductive Level
  | debug | info | warning
  deriving DecidableEq, Repr

/-- The name of a level, aligned to the right over five columns. -/
def Level.tag : Level → String
  | debug => "DEBUG"
  | info => " INFO"
  | warning => " WARN"

/-- Events worth a line in the log. -/
inductive Note
  | sessionStarted (mode : Mode)
  | sessionFinished (items errors : Nat)
  /-- The input met a line that cannot be decoded. -/
  | readFailed
  | blockOpened (width depth : Nat)
  | blocksClosed (width closed : Nat)
  /-- Blocks closed by the end of the input. -/
  | blocksDrained (closed : Nat)
  | tokenRefused (error : LexicalError) (place : Location)
  | diagnosticEmitted (stage : Stage) (place : Location)
  /-- Tokens skipped after an error, and the kind of the token where reading goes on. -/
  | recovered (skipped : Nat) (stop : Kind)
  | functionParsed (name : String) (statements : Nat)
  | aliasDeclared (name : String) (target : TypeExpr)
  | structDeclared (name : String) (fields : Nat)
  | resolutionFailed (type : TypeExpr) (error : TypeError)
  | structLaidOut (name : String) (size align : Nat)
  | itemAccepted (line : Nat)
  | halting
  | itemUnprintable (error : LowerError)
  deriving DecidableEq, Repr

namespace Note

/-- How much an event matters. -/
def level : Note → Level
  | sessionStarted _ | sessionFinished _ _ => .info
  | readFailed | itemUnprintable _ => .warning
  | _ => .debug

/-- The name in the log of a kind of token where recovery stops. -/
def stopName : Kind → String
  | .endOfLine => "Eol"
  | .dedent => "Dedent"
  | _ => "Eof"

/-- Hexadecimal digits in lower case. -/
def hex (n : Nat) : String := String.ofList (Nat.toDigits 16 n)

/-- How a character of a message is written in the log: those that steer a terminal are spelled
out. -/
def escapeChar (c : Char) : String :=
  let code := c.toNat
  if code = 0x07 ∨ code = 0x08 then s!"\\x0{hex code}"
  else if code = 0x0C then "\\x0c"
  else if code = 0x1B ∨ code = 0x7F then s!"\\x{hex code}"
  else if 0x80 ≤ code ∧ code ≤ 0x9F then "\\u\x7b" ++ hex code ++ "\x7d"
  else c.toString

/-- A message as it is written in the log. -/
def escape (message : String) : String := String.join (message.toList.map escapeChar)

/-- What the log says of an event. -/
def text : Note → String
  | sessionStarted mode => s!"session started mode={mode.name}"
  | sessionFinished items errors => s!"session finished items={items} errors={errors}"
  | readFailed =>
    "read failed, treating as end of input error=stream did not contain valid UTF-8"
  | blockOpened width depth => s!"indent width={width} depth={depth}"
  | blocksClosed width closed => s!"dedent width={width} closed={closed}"
  | blocksDrained closed => s!"draining indentation at end of input closed={closed}"
  | tokenRefused error place =>
    s!"lexical error line={place.line} column={place.column} {escape error.message}"
  | diagnosticEmitted stage place =>
    s!"emitting diagnostic kind={stage.name} line={place.line} column={place.column}"
  | recovered skipped kind => s!"recovered skipped={skipped} at={stopName kind}"
  | functionParsed name statements => s!"parsed function name={name} statements={statements}"
  | aliasDeclared name target => s!"declared type alias name={name} target={target.text}"
  | structDeclared name fields => s!"declared struct name={name} fields={fields}"
  | resolutionFailed type error =>
    s!"type resolution failed ty={type.text} error={error.message}"
  | structLaidOut name size align => s!"laid out struct struct_name={name} size={size} align={align}"
  | itemAccepted line => s!"accepted item line={line}"
  | halting => "halting after error"
  | itemUnprintable error => s!"could not print item error={error.message}"

/-- The line of the log that tells of an event. -/
def logLine (note : Note) : String := s!"{note.level.tag} {note.text}\n"

end Note

end Offside
