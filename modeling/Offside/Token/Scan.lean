import Offside.Source.Stream
import Offside.Text.Blank
import Offside.Token.Basic

/-!
# Scanning one token

Reading the token at the head of a stream: words, runs of digits and dots, quoted characters, and
signs. Every scanner takes the longest run of its class and leaves the rest of the stream.

## Main definitions

* `Offside.Token.scan`: the kind of the token at the head of a stream, and the stream after it.
* `Offside.Token.skipComment`: skip the rest of a line.
* `Offside.Token.Margin`: the blank run at the start of a line, and its width.
* `Offside.Token.firstContent`: the next line that holds more than blanks and a comment.

## Main results

* `Offside.Token.size_scan_lt`: a token uses up at least one character.
* `Offside.Token.size_firstContent_le`: so does a margin of positive width.
-/

namespace Offside.Token

open Source

/-- Characters that start a word. -/
def isWordStart (c : Char) : Bool := c.isAlpha || c = '_'

/-- Characters that continue a word. -/
def isWordChar (c : Char) : Bool := c.isAlphanum || c = '_'

/-- Characters of a number literal. -/
def isNumberChar (c : Char) : Bool := c.isDigit || c = '.'

/-- Blanks between the tokens of a line. -/
def isGap (c : Char) : Bool := c ≠ '\n' && Text.isBlank c

/-- The quote around a character literal. -/
def quote : Char := '\x27'

/-- The letter after a backslash, and the character that the two stand for. -/
def escapes : List (Char × Char) :=
  [('n', '\n'), ('t', '\t'), ('r', '\r'), ('0', Char.ofNat 0), ('\\', '\\'), (quote, quote)]

/-- The character that an escape stands for. -/
def unescape? (letter : Char) : Option Char :=
  (escapes.find? fun entry => entry.1 == letter).map (·.2)

/-- A character as it is written in a character literal. -/
def escapeLiteral (c : Char) : List Char :=
  match escapes.find? fun entry => entry.2 == c with
  | some (letter, _) => ['\\', letter]
  | none => [c]

/-- A word at the head of a stream. -/
def scanWord (s : Stream) : Kind × Stream :=
  let (word, s) := s.takeWhile isWordChar
  (Kind.ofWord (String.ofList word), s)

/-- A run of digits and dots at the head of a stream. -/
def scanNumber (s : Stream) : Kind × Stream :=
  let (run, s) := s.takeWhile isNumberChar
  let text := String.ofList run
  match Number.ofRun? run with
  | some value => (.number text value, s)
  | none => (.invalid (.badNumber text), s)

/-- The end of a literal of the character `c`. -/
def closeCharacter (c : Char) (s : Stream) : Kind × Stream :=
  if s.peek = some quote then
    let text := String.ofList (quote :: escapeLiteral c ++ [quote])
    (.number text (.int c.toNat), s.skip)
  else (.invalid .unclosedCharacter, s)

/-- A character literal whose opening quote has been read. -/
def scanCharacter (s : Stream) : Kind × Stream :=
  match s.peek with
  | none => (.invalid .unterminatedCharacter, s)
  | some c =>
    if c = '\n' then (.invalid .unterminatedCharacter, s)
    else if c = quote then (.invalid .emptyCharacter, s.skip)
    else if c = '\\' then
      match s.skip.peek with
      | none => (.invalid .unterminatedCharacter, s.skip)
      | some letter =>
        if letter = '\n' then (.invalid .unterminatedCharacter, s.skip)
        else match unescape? letter with
          | some c => closeCharacter c s.skip.skip
          | none => (.invalid (.unknownEscape letter), s.skip.skip)
    else closeCharacter c s.skip

/-- A sign whose first character `c` has been read: two characters if they form a sign. -/
def scanSymbol (c : Char) (s : Stream) : Kind × Stream :=
  match s.peek.bind (Symbol.ofPair? c) with
  | some sign => (.symbol sign, s.skip)
  | none =>
    match Symbol.ofChar? c with
    | some sign => (.symbol sign, s)
    | none => (.invalid (.unexpected c), s)

/-- The token at the head of a stream whose next character is `c`. -/
def scan (c : Char) (s : Stream) : Kind × Stream :=
  if c = quote then scanCharacter s.skip
  else if c.isDigit || c = '.' && s.peekSecond.any Char.isDigit then scanNumber s
  else if isWordStart c then scanWord s
  else scanSymbol c s.skip

/-- Skip the rest of a line with its end. The first part tells whether the line had an end. -/
def skipComment (s : Stream) : Bool × Stream :=
  let s := (s.takeWhile (· ≠ '\n')).2
  (s.peek.isSome, s.skip)

/-- The blank run at the start of a line. -/
structure Margin where
  width : Nat
  /-- Whether it holds a space. -/
  spaces : Bool
  /-- Whether it holds a tab. -/
  tabs : Bool
  deriving DecidableEq, Repr

/-- The distance between tab stops. -/
def tabWidth : Nat := 8

namespace Margin

/-- Characters of a margin. -/
def isMarginChar (c : Char) : Bool := c = ' ' || c = '\t'

/-- The margin of no characters. -/
def none : Margin := ⟨0, false, false⟩

/-- A margin with one more character: a tab goes to the next tab stop. -/
def extend (margin : Margin) (c : Char) : Margin :=
  if c = '\t' then ⟨margin.width + (tabWidth - margin.width % tabWidth), margin.spaces, true⟩
  else ⟨margin.width + 1, true, margin.tabs⟩

/-- The margin that a run of spaces and tabs forms. -/
def ofRun (run : List Char) : Margin := run.foldl extend none

/-- Whether a margin holds both a space and a tab. -/
def isMixed (margin : Margin) : Bool := margin.spaces && margin.tabs

end Margin

/-! ### What scanning uses up -/

theorem size_closeCharacter_le (c : Char) (s : Stream) : (closeCharacter c s).2.size ≤ s.size := by
  unfold closeCharacter
  split
  · exact s.size_skip_le
  · exact Nat.le_refl _

theorem size_scanCharacter_le (s : Stream) : (scanCharacter s).2.size ≤ s.size := by
  have h₁ := s.size_skip_le
  have h₂ := s.skip.size_skip_le
  unfold scanCharacter
  repeat' split
  all_goals first
    | exact Nat.le_refl _
    | exact h₁
    | exact Nat.le_trans h₂ h₁
    | exact Nat.le_trans (size_closeCharacter_le _ _) (Nat.le_trans h₂ h₁)
    | exact Nat.le_trans (size_closeCharacter_le _ _) h₁

theorem size_scanSymbol_le (c : Char) (s : Stream) : (scanSymbol c s).2.size ≤ s.size := by
  unfold scanSymbol
  repeat' split
  · exact s.size_skip_le
  · exact Nat.le_refl _
  · exact Nat.le_refl _

theorem size_scanNumber (s : Stream) :
    (scanNumber s).2 = (s.takeWhile isNumberChar).2 := by
  unfold scanNumber
  dsimp only
  split <;> rfl

theorem isWordChar_of_isWordStart {c : Char} (h : isWordStart c) : isWordChar c := by
  simp only [isWordStart, isWordChar, Char.isAlphanum, Bool.or_eq_true] at h ⊢
  rcases h with h | h <;> simp [h]

/-- A token uses up at least one character. -/
theorem size_scan_lt {c : Char} {s : Stream} (h : s.peek = some c) :
    (scan c s).2.size < s.size := by
  have skipped := Stream.size_skip_lt h
  unfold scan
  split
  · exact Nat.lt_of_le_of_lt (size_scanCharacter_le _) skipped
  · split
    · next hd =>
      rw [size_scanNumber]
      refine Stream.size_takeWhile_lt h ?_
      simp only [Bool.or_eq_true, Bool.and_eq_true, isNumberChar] at hd ⊢
      exact hd.imp id And.left
    · split
      · next hw => exact Stream.size_takeWhile_lt h (isWordChar_of_isWordStart hw)
      · exact Nat.lt_of_le_of_lt (size_scanSymbol_le _ _) skipped

theorem size_skipComment_lt {c : Char} {s : Stream} (h : s.peek = some c) :
    (skipComment s).2.size < s.size := by
  unfold skipComment
  dsimp only
  by_cases hc : c = '\n'
  · subst hc
    have : s.takeWhile (· ≠ '\n') = ([], s.fill) := by
      unfold Stream.takeWhile
      split
      · simp_all
      · simp_all
    rw [this]
    have hf : s.fill.peek = some '\n' := by
      rw [← h]
      unfold Stream.peek
      rw [Stream.fill_fill]
    exact (Stream.size_fill s) ▸ Stream.size_skip_lt hf
  · exact Nat.lt_of_le_of_lt (Stream.size_skip_le _) (Stream.size_takeWhile_lt h (by simpa using hc))

/-- The margin of the next line that holds more than blanks and a comment, and the stream after
that margin. At the end of the input the margin is that of the last line. -/
def firstContent (s : Stream) : Margin × Stream :=
  let line := s.takeWhile Margin.isMarginChar
  match _h : line.2.peek with
  | none => (Margin.ofRun line.1, line.2)
  | some c =>
    if c = '\n' then firstContent line.2.skip
    else if c = '#' then firstContent (skipComment line.2).2
    else (Margin.ofRun line.1, line.2)
termination_by s.size
decreasing_by
  · exact Nat.lt_of_lt_of_le (Stream.size_skip_lt ‹_›) (Stream.size_takeWhile_le _ _)
  · exact Nat.lt_of_lt_of_le (size_skipComment_lt ‹_›) (Stream.size_takeWhile_le _ _)

theorem Margin.min_width_le (run : List Char) : min (ofRun run).width 1 ≤ run.length := by
  cases run with
  | nil => exact Nat.le_of_eq rfl
  | cons c run =>
    rw [List.length_cons]
    omega

theorem Margin.width_foldl_extend_le (run : List Char) (margin : Margin) :
    margin.width ≤ (run.foldl extend margin).width := by
  induction run generalizing margin with
  | nil => exact Nat.le_refl _
  | cons c run ih =>
    refine Nat.le_trans ?_ (ih (margin.extend c))
    unfold extend
    split <;> dsimp only <;> omega

/-- A margin of at least one character has positive width. -/
theorem Margin.width_ofRun_pos {run : List Char} (h : run ≠ []) : 0 < (ofRun run).width := by
  cases run with
  | nil => exact absurd rfl h
  | cons c run =>
    refine Nat.lt_of_lt_of_le ?_ (width_foldl_extend_le run (none.extend c))
    unfold extend
    split <;> decide

theorem Margin.width_pos_of_isMixed {run : List Char} (h : (ofRun run).isMixed) :
    0 < (ofRun run).width := by
  refine width_ofRun_pos ?_
  rintro rfl
  exact absurd h (by decide)

/-- The margin of a line is that of some run of characters. -/
theorem exists_firstContent_eq_ofRun (s : Stream) :
    ∃ run, (firstContent s).1 = Margin.ofRun run := by
  fun_induction firstContent s with
  | case1 s line h => exact ⟨_, rfl⟩
  | case2 s line h ih => exact ih
  | case3 s line h _ ih => exact ih
  | case4 s line c h => exact ⟨_, rfl⟩

/-- A margin of positive width uses up at least one character. -/
theorem size_firstContent_le (s : Stream) :
    (firstContent s).2.size + min (firstContent s).1.width 1 ≤ s.size := by
  fun_induction firstContent s with
  | case1 s line h =>
    have : line.1.length + line.2.size ≤ s.size := Stream.length_takeWhile_add_size_le _ s
    have := Margin.min_width_le line.1
    dsimp only
    omega
  | case2 s line h ih =>
    have := Stream.size_skip_lt h
    have : line.2.size ≤ s.size := Stream.size_takeWhile_le _ s
    omega
  | case3 s line h _ ih =>
    have := size_skipComment_lt h
    have : line.2.size ≤ s.size := Stream.size_takeWhile_le _ s
    omega
  | case4 s line c h =>
    have : line.1.length + line.2.size ≤ s.size := Stream.length_takeWhile_add_size_le _ s
    have := Margin.min_width_le line.1
    dsimp only
    omega

end Offside.Token
