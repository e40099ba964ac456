/-!
# Lexical errors

What can be wrong with the characters of a token or with the margin of a line, and the wording of
each.

## Main definitions

* `Offside.LexicalError`: the causes.
* `Offside.LexicalError.message`: their wording.
-/

namespace Offside

/-- Why characters form no token, or a margin no block structure. -/
inductive LexicalError
  /-- A margin that holds both a space and a tab. -/
  | mixedMargin
  /-- A margin narrower than the open block and as wide as none around it. -/
  | unmatchedDedent
  /-- A run of digits and dots that denotes no number. -/
  | badNumber (run : String)
  /-- A character literal cut off by the end of the line or of the input. -/
  | unterminatedCharacter
  /-- Two quotes with nothing between them. -/
  | emptyCharacter
  /-- A backslash before a character that it does not escape. -/
  | unknownEscape (escaped : Char)
  /-- A character literal that goes on after its first character. -/
  | unclosedCharacter
  /-- A character that starts no token. -/
  | unexpected (c : Char)
  deriving DecidableEq, Repr

/-- The wording of a lexical error. -/
def LexicalError.message : LexicalError → String
  | mixedMargin => "You cannot mix tabs and spaces in indentation"
  | unmatchedDedent => "Dedent does not match any enclosing indentation level"
  | badNumber run => s!"invalid number literal '{run}'"
  | unterminatedCharacter => "Unterminated character literal"
  | emptyCharacter => "Empty character literal"
  | unknownEscape escaped => s!"Unknown escape sequence: \\{escaped}"
  | unclosedCharacter => "Expected closing quote in character literal"
  | unexpected c => s!"Unexpected character: '{c}'"

end Offside
