import Offside.Proofs.Canonical.Piece
import Offside.Proofs.Token.Abreast

/-!
# Ordinary tokens

The tokens of a text that have characters of their own are words, numbers and signs. A word is read
to its end and is a name unless it is reserved; the text of a number is a run of digits and dots with
its value, or a character between quotes, written as an escape where it has one. There are no others.
So an identifier is a name, and an integer, which is refused from `2 ^ 63` on, has 64 bits with its
sign.

## Main definitions

* `Offside.Token.characterText`: the text of a character literal.
* `Offside.Kind.IsOrdinary`: words, numbers and signs as a text can have them.

## Main results

* `Offside.Lexer.ordinary_of_mem_lexemes`: the words, numbers and signs of a text are ordinary.
* `Offside.Lexer.named_of_mem_lexemes`: the identifier tokens of a text are names.
* `Offside.Lexer.fits_of_mem_lexemes`: the number tokens of a text have values that fit.
-/

namespace Offside

open Source Token

/-- The text of a literal of the character `c`. -/
def Token.characterText (c : Char) : String := String.ofList (quote :: escapeLiteral c ++ [quote])

namespace Kind

/-- Kinds of token that have characters of their own: words, numbers and signs. -/
def isWritten : Kind → Bool
  | identifier _ | number _ _ | keyword _ | symbol _ => true
  | _ => false

/-- Words, numbers and signs as a text can have them: an identifier is a name, and a number is
denoted by its text, or has the text of a character literal and the code of that character. -/
def IsOrdinary : Kind → Prop
  | keyword _ | symbol _ => True
  | identifier name => IsName name
  | number text value =>
    Number.ofRun? text.toList = some value ∨
      ∃ c, text = characterText c ∧ value = .int c.toNat
  | _ => False

/-- If the token has characters of its own then it is ordinary. -/
def Delivered (kind : Kind) : Prop := kind.isWritten → kind.IsOrdinary

theorem delivered_invalid (error : LexicalError) : (invalid error).Delivered := nofun

theorem delivered_of_isLayout {kind : Kind} (h : kind.isLayout) : kind.Delivered := by
  cases kind with
  | identifier | number | keyword | symbol => cases h
  | endOfInput | endOfLine | indent | dedent | invalid => nofun

end Kind

/-- A run of characters of a class consists of such characters. -/
theorem Source.Stream.all_takeWhile (p : Char → Bool) (s : Stream) : (s.takeWhile p).1.all p := by
  fun_induction Stream.takeWhile p s with
  | case1 => rfl
  | case2 s c h hp run rest hr ih =>
    rw [hr] at ih
    rw [List.all_cons, hp, ih]
    rfl
  | case3 => rfl

/-! ### What is scanned -/

namespace Token

theorem delivered_scanWord {c : Char} {s : Stream} (h : s.peek = some c) (hc : isWordStart c) :
    (scanWord s).1.Delivered := by
  have hall := s.all_takeWhile isWordChar
  have hrun := Stream.takeWhile_of_peek h (isWordChar_of_isWordStart hc)
  unfold scanWord Kind.ofWord
  dsimp only
  rw [hrun] at hall ⊢
  split
  · exact fun _ => trivial
  · next hword =>
    refine fun _ => ⟨?_, ?_, hword⟩
    · simpa using hc
    · simpa using hall

theorem delivered_closeCharacter (c : Char) (s : Stream) : (closeCharacter c s).1.Delivered := by
  rw [closeCharacter]
  split
  · exact fun _ => .inr ⟨c, rfl, rfl⟩
  · exact Kind.delivered_invalid _

theorem delivered_scanCharacter (s : Stream) : (scanCharacter s).1.Delivered := by
  unfold scanCharacter
  repeat' split
  all_goals first
    | exact Kind.delivered_invalid _
    | exact delivered_closeCharacter _ _

theorem delivered_scanNumber (s : Stream) : (scanNumber s).1.Delivered := by
  unfold scanNumber
  dsimp only
  split
  · next value hvalue => exact fun _ => .inl (by rw [String.toList_ofList, hvalue])
  · exact Kind.delivered_invalid _

theorem delivered_scanSymbol (c : Char) (s : Stream) : (scanSymbol c s).1.Delivered := by
  unfold scanSymbol
  repeat' split
  · exact fun _ => trivial
  · exact fun _ => trivial
  · exact Kind.delivered_invalid _

theorem delivered_scan {c : Char} {s : Stream} (h : s.peek = some c) : (scan c s).1.Delivered := by
  rw [scan]
  split
  · exact delivered_scanCharacter _
  · split
    · exact delivered_scanNumber _
    · split
      · next hc => exact delivered_scanWord h hc
      · exact delivered_scanSymbol _ _

end Token

/-! ### What is read -/

namespace Lexer

theorem delivered_finish (l : Lexer) (place : Location) : (l.finish place).token.kind.Delivered := by
  rw [finish]
  split <;> (intro written; cases written)

theorem delivered_inLine (l : Lexer) : l.inLine.token.kind.Delivered := by
  unfold inLine
  dsimp only
  split
  · exact delivered_finish _ _
  · next hpeek =>
    split
    · nofun
    · split
      · split
        · nofun
        · exact delivered_finish _ _
      · exact delivered_scan hpeek

theorem delivered_read (l : Lexer) : l.read.token.kind.Delivered := by
  have hread := readCases_read l
  generalize l.read = x at *
  cases hread with
  | dedent => nofun
  | within => exact delivered_inLine l
  | first => exact delivered_inLine _
  | layout _ _ kind => exact Kind.delivered_of_isLayout kind

/-- The words, numbers and signs of a text are ordinary. -/
theorem ordinary_of_mem_lexemes {l : Lexer} {x : Lexeme} (hx : x ∈ l.lexemes)
    (written : x.token.kind.isWritten) : x.token.kind.IsOrdinary := by
  obtain ⟨m, -, htoken, -⟩ := exists_read (I := fun _ => True) trivial (fun _ _ => trivial) hx
  rw [htoken] at written ⊢
  exact delivered_read m written

end Lexer

/-! ### Names -/

/-- An identifier token is a name. -/
def Kind.Named (kind : Kind) : Prop := ∀ name, kind = .identifier name → IsName name

/-- The identifier tokens of a text are names. -/
theorem Lexer.named_of_mem_lexemes {l : Lexer} {x : Lexeme} (hx : x ∈ l.lexemes) :
    x.token.kind.Named := by
  intro name hname
  have hordinary := ordinary_of_mem_lexemes hx (by rw [hname]; rfl)
  rwa [hname] at hordinary

/-! ### Values of literals -/

/-- A value that a literal may have: an integer is below the bound. -/
def Number.Fits : Number → Prop
  | int value => value < intBound
  | float _ => True

/-- A number token has such a value. -/
def Kind.Fits (kind : Kind) : Prop := ∀ text value, kind = .number text value → value.Fits

theorem Number.fits_ofRun? {run : List Char} {value : Number} (h : ofRun? run = some value) :
    value.Fits := by
  unfold ofRun? at h
  dsimp only at h
  split at h
  · split at h
    · next hfits =>
      cases h
      exact hfits.2
    · cases h
  · split at h
    · cases h
      exact trivial
    · cases h
  · cases h

/-- The code of a character is far below the bound. -/
theorem Number.fits_character (c : Char) : (int c.toNat).Fits :=
  Nat.lt_of_lt_of_le c.val.toNat_lt (by decide)

/-- The number tokens of a text have values that fit. -/
theorem Lexer.fits_of_mem_lexemes {l : Lexer} {x : Lexeme} (hx : x ∈ l.lexemes) :
    x.token.kind.Fits := by
  intro text value hvalue
  have hordinary := ordinary_of_mem_lexemes hx (by rw [hvalue]; rfl)
  rw [hvalue] at hordinary
  rcases hordinary with hrun | ⟨c, -, rfl⟩
  · exact Number.fits_ofRun? hrun
  · exact Number.fits_character c

end Offside
