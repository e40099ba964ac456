import Offside.Proofs.Source.Remaining
import Offside.Token.Scan

/-!
# Tokens as functions of characters

The scanners read a stream. What they find, and what they leave, depends on the characters that
the stream has still to deliver and on nothing else, so each is a function of a list of characters.
No scanner reads past the end of a line.

## Main definitions

* `Offside.Token.tokenOf`: the token at the head of a list of characters, and the rest.
* `Offside.Token.Agrees`: a scanner has found and left what such a function says.

## Main results

* `Offside.Token.agrees_scan`: scanning a stream is `tokenOf` on its rest.
* `Offside.Token.tokenOf_append`: a token does not change when a delimiter follows it.
-/

namespace Offside.Token

open Source

/-! ### The scanners on characters -/

/-- The word at the head of `cs`. -/
def wordOf (cs : List Char) : Kind × List Char :=
  (Kind.ofWord (String.ofList (cs.takeWhile isWordChar)), cs.dropWhile isWordChar)

/-- The kind of a run of digits and dots. -/
def numberKind (run : List Char) : Kind :=
  match Number.ofRun? run with
  | some value => .number (String.ofList run) value
  | none => .invalid (.badNumber (String.ofList run))

/-- The run of digits and dots at the head of `cs`. -/
def numberOf (cs : List Char) : Kind × List Char :=
  (numberKind (cs.takeWhile isNumberChar), cs.dropWhile isNumberChar)

/-- The end of a literal of the character `c`. -/
def closeOf (c : Char) (cs : List Char) : Kind × List Char :=
  if cs.head? = some quote then
    (.number (String.ofList (quote :: escapeLiteral c ++ [quote])) (.int c.toNat), cs.tail)
  else (.invalid .unclosedCharacter, cs)

/-- An escaped character and the end of its literal. -/
def escapeOf : List Char → Kind × List Char
  | [] => (.invalid .unterminatedCharacter, [])
  | letter :: cs =>
    if letter = '\n' then (.invalid .unterminatedCharacter, letter :: cs)
    else match unescape? letter with
      | some c => closeOf c cs
      | none => (.invalid (.unknownEscape letter), cs)

/-- A character literal after its opening quote. -/
def characterOf : List Char → Kind × List Char
  | [] => (.invalid .unterminatedCharacter, [])
  | c :: cs =>
    if c = '\n' then (.invalid .unterminatedCharacter, c :: cs)
    else if c = quote then (.invalid .emptyCharacter, cs)
    else if c = '\\' then escapeOf cs
    else closeOf c cs

/-- A sign that starts with `c`. -/
def symbolOf (c : Char) (cs : List Char) : Kind × List Char :=
  match cs.head?.bind (Symbol.ofPair? c) with
  | some sign => (.symbol sign, cs.tail)
  | none =>
    match Symbol.ofChar? c with
    | some sign => (.symbol sign, cs)
    | none => (.invalid (.unexpected c), cs)

/-- Whether `c` and the characters after it start a number. -/
def startsNumber (c : Char) (cs : List Char) : Bool :=
  c.isDigit || c = '.' && cs.head?.any Char.isDigit

/-- The token at the head of `c :: cs`, and the characters after it. -/
def tokenOf (c : Char) (cs : List Char) : Kind × List Char :=
  if c = quote then characterOf cs
  else if startsNumber c cs then numberOf (c :: cs)
  else if isWordStart c then wordOf (c :: cs)
  else symbolOf c cs

/-! ### Agreement with the scanners on streams -/

/-- A scanner that started on the stream `s` has found and left what `answer` says, without reading
past the end of a line. -/
structure Agrees (s : Stream) (found : Kind × Stream) (answer : Kind × List Char) : Prop where
  kind : found.1 = answer.1
  rest : found.2.remaining = answer.2
  reads : ∃ used, '\n' ∉ used ∧ s.Reads used found.2

variable {s : Stream}

theorem Agrees.of_reads {t : Stream} {found : Kind × Stream} {answer : Kind × List Char}
    {used : List Char} (h : Agrees t found answer) (hu : '\n' ∉ used) (hr : s.Reads used t) :
    Agrees s found answer where
  kind := h.kind
  rest := h.rest
  reads := by
    obtain ⟨more, hm, hmore⟩ := h.reads
    exact ⟨used ++ more, by simp [hu, hm], hr.trans hmore⟩

theorem agrees_stay (hs : s.LineWise) (k : Kind) : Agrees s (k, s) (k, s.remaining) :=
  ⟨rfl, rfl, [], by simp, .refl hs⟩

theorem agrees_skip {c : Char} (hs : s.LineWise) (h : s.peek = some c) (hc : c ≠ '\n') (k : Kind) :
    Agrees s (k, s.skip) (k, s.remaining.tail) :=
  ⟨rfl, Stream.remaining_skip hs, [c], by simpa using hc.symm, Stream.reads_skip hs h⟩

/-- A run of characters of a class without the line feed stays on its line. -/
theorem not_mem_takeWhile {p : Char → Bool} (hp : p '\n' = false) (cs : List Char) :
    '\n' ∉ cs.takeWhile p := by
  intro h
  have := List.all_eq_true.1 List.all_takeWhile _ h
  simp [hp] at this

theorem agrees_takeWhile {p : Char → Bool} (hs : s.LineWise) (hp : p '\n' = false)
    (kindOf : List Char → Kind) :
    Agrees s (kindOf (s.takeWhile p).1, (s.takeWhile p).2)
      (kindOf (s.remaining.takeWhile p), s.remaining.dropWhile p) :=
  ⟨by rw [Stream.takeWhile_fst p hs], Stream.remaining_takeWhile p hs, _,
    not_mem_takeWhile hp _, Stream.reads_takeWhile p hs⟩

theorem agrees_scanWord (hs : s.LineWise) : Agrees s (scanWord s) (wordOf s.remaining) :=
  agrees_takeWhile hs (by decide) fun run => Kind.ofWord (String.ofList run)

theorem agrees_scanNumber (hs : s.LineWise) : Agrees s (scanNumber s) (numberOf s.remaining) := by
  have he : scanNumber s =
      (numberKind (s.takeWhile isNumberChar).1, (s.takeWhile isNumberChar).2) := by
    rw [scanNumber, numberKind]
    dsimp only
    cases Number.ofRun? (s.takeWhile isNumberChar).1 <;> rfl
  rw [he]
  exact agrees_takeWhile hs (by decide) numberKind

theorem agrees_closeCharacter (hs : s.LineWise) (c : Char) :
    Agrees s (closeCharacter c s) (closeOf c s.remaining) := by
  rw [closeCharacter, closeOf]
  rw [← Stream.peek_eq_head?]
  split
  · next h => exact agrees_skip hs h (by decide) _
  · exact agrees_stay hs _

theorem agrees_scanSymbol (hs : s.LineWise) (c : Char) :
    Agrees s (scanSymbol c s) (symbolOf c s.remaining) := by
  rw [scanSymbol, symbolOf]
  rw [← Stream.peek_eq_head?]
  cases h : s.peek.bind (Symbol.ofPair? c) with
  | some sign =>
    obtain ⟨d, hd, hpair⟩ := Option.bind_eq_some_iff.1 h
    refine agrees_skip hs hd ?_ _
    rintro rfl
    have hsign : sign.spelling.toList = [c, '\n'] := by simpa using List.find?_some hpair
    revert hsign
    cases sign <;> simp [Symbol.spelling]
  | none =>
    cases Symbol.ofChar? c with
    | some sign => exact agrees_stay hs _
    | none => exact agrees_stay hs _

theorem agrees_scanCharacter (hs : s.LineWise) :
    Agrees s (scanCharacter s) (characterOf s.remaining) := by
  rw [scanCharacter]
  cases h : s.peek with
  | none =>
    rw [Stream.peek_eq_none_iff.1 h, characterOf, ← Stream.peek_eq_none_iff.1 h]
    exact agrees_stay hs _
  | some c =>
    have hr := Stream.remaining_eq_cons h
    have hw := Stream.lineWise_skip hs
    have htail := Stream.remaining_skip hs
    rw [hr, characterOf]
    dsimp only
    split
    · rw [← hr]
      exact agrees_stay hs _
    · next hc =>
      have hread : s.Reads [c] s.skip := Stream.reads_skip hs h
      have hline : '\n' ∉ [c] := by simpa using Ne.symm hc
      split
      · exact agrees_skip hs h hc _
      · split
        · refine Agrees.of_reads ?_ hline hread
          rw [← htail]
          cases h' : s.skip.peek with
          | none =>
            rw [Stream.peek_eq_none_iff.1 h', escapeOf, ← Stream.peek_eq_none_iff.1 h']
            exact agrees_stay hw _
          | some letter =>
            have hr' := Stream.remaining_eq_cons h'
            rw [hr', escapeOf]
            dsimp only
            split
            · rw [← hr']
              exact agrees_stay hw _
            · next hl =>
              cases unescape? letter with
              | some c =>
                dsimp only
                rw [← Stream.remaining_skip hw]
                exact (agrees_closeCharacter (Stream.lineWise_skip hw) c).of_reads
                  (by simpa using Ne.symm hl) (Stream.reads_skip hw h')
              | none => exact agrees_skip hw h' hl _
        · rw [← htail]
          exact (agrees_closeCharacter hw c).of_reads hline hread

/-- Scanning a stream is a function of the characters that it has still to deliver. -/
theorem agrees_scan {c : Char} (hs : s.LineWise) (hf : s.fill = s) (h : s.peek = some c)
    (hc : c ≠ '\n') : Agrees s (scan c s) (tokenOf c s.remaining.tail) := by
  have hr := Stream.remaining_eq_cons h
  have hw := Stream.lineWise_skip hs
  have htail := Stream.remaining_skip hs
  have hread : s.Reads [c] s.skip := Stream.reads_skip hs h
  have hline : '\n' ∉ [c] := by simpa using hc.symm
  have hnum : (c.isDigit || c = '.' && s.peekSecond.any Char.isDigit) =
      startsNumber c s.remaining.tail := by
    rw [startsNumber, Stream.peekSecond_any hs hf (by decide) (by decide) hc h, hr,
      List.tail_cons, List.getElem?_cons_succ, List.head?_eq_getElem?]
  rw [scan, tokenOf]
  rw [hnum, ← hr, ← htail]
  split
  · exact (agrees_scanCharacter hw).of_reads hline hread
  · split
    · exact agrees_scanNumber hs
    · split
      · exact agrees_scanWord hs
      · exact (agrees_scanSymbol hw c).of_reads hline hread

/-! ### Tokens before a delimiter -/

/-- Characters that end every token before them: they continue no word, no number and no sign. -/
def isDelimiter (d : Char) : Bool := !isWordChar d && !isNumberChar d && d ≠ '=' && d ≠ '>'

theorem isDelimiter_iff {d : Char} : isDelimiter d ↔
    isWordChar d = false ∧ isNumberChar d = false ∧ d ≠ '=' ∧ d ≠ '>' := by
  simp [isDelimiter, and_assoc]

/-- A run of characters ends before a character outside its class. -/
theorem takeWhile_append_stop {p : Char → Bool} {d : Char} (hd : p d = false)
    (cs more : List Char) :
    (cs ++ d :: more).takeWhile p = cs.takeWhile p ∧
      (cs ++ d :: more).dropWhile p = cs.dropWhile p ++ d :: more := by
  induction cs with
  | nil => simp [hd]
  | cons c cs ih =>
    by_cases hc : p c
    · simpa [hc] using ih
    · simp [hc]

/-- No sign of two characters ends with a delimiter. -/
theorem ofPair?_of_isDelimiter {d : Char} (hd : isDelimiter d) (c : Char) :
    Symbol.ofPair? c d = none := by
  obtain ⟨-, -, h₁, h₂⟩ := isDelimiter_iff.1 hd
  rw [Symbol.ofPair?]
  rw [List.find?_eq_none]
  rintro sign - hsign
  have hsign : sign.spelling.toList = [c, d] := by simpa using hsign
  revert hsign
  cases sign <;> simp [Symbol.spelling] <;> rintro - rfl <;> contradiction

theorem closeOf_append {c : Char} {cs more : List Char}
    (h : (closeOf c cs).1.isInvalid = false) :
    closeOf c (cs ++ more) = ((closeOf c cs).1, (closeOf c cs).2 ++ more) := by
  cases cs with
  | nil => simp [closeOf, Kind.isInvalid] at h
  | cons e cs =>
    by_cases he : e = quote
    · simp [closeOf, he]
    · simp [closeOf, he, Kind.isInvalid] at h

theorem escapeOf_append {cs more : List Char} (h : (escapeOf cs).1.isInvalid = false) :
    escapeOf (cs ++ more) = ((escapeOf cs).1, (escapeOf cs).2 ++ more) := by
  cases cs with
  | nil => simp [escapeOf, Kind.isInvalid] at h
  | cons letter cs =>
    unfold escapeOf at h ⊢
    rw [List.cons_append]
    dsimp only at h ⊢
    split at h
    · simp [Kind.isInvalid] at h
    · next hl =>
      rw [if_neg hl, if_neg hl]
      cases hu : unescape? letter with
      | none => simp [hu, Kind.isInvalid] at h
      | some c =>
        rw [hu] at h
        exact closeOf_append h

theorem characterOf_append {cs more : List Char} (h : (characterOf cs).1.isInvalid = false) :
    characterOf (cs ++ more) = ((characterOf cs).1, (characterOf cs).2 ++ more) := by
  cases cs with
  | nil => simp [characterOf, Kind.isInvalid] at h
  | cons c cs =>
    unfold characterOf at h ⊢
    rw [List.cons_append]
    dsimp only at h ⊢
    split at h
    · simp [Kind.isInvalid] at h
    · next hc =>
      rw [if_neg hc, if_neg hc]
      split at h
      · simp [Kind.isInvalid] at h
      · next hq =>
        rw [if_neg hq, if_neg hq]
        split at h
        · next hb =>
          rw [if_pos hb, if_pos hb]
          exact escapeOf_append h
        · next hb =>
          rw [if_neg hb, if_neg hb]
          exact closeOf_append h

section

variable {d : Char} (hd : isDelimiter d) (more : List Char)
include hd

theorem symbolOf_append {c : Char} {cs : List Char} :
    symbolOf c (cs ++ d :: more) = ((symbolOf c cs).1, (symbolOf c cs).2 ++ d :: more) := by
  unfold symbolOf
  cases cs with
  | nil =>
    rw [List.nil_append, List.head?_cons, Option.bind_some, ofPair?_of_isDelimiter hd]
    dsimp only [List.head?_nil, Option.bind_none]
    cases Symbol.ofChar? c <;> rfl
  | cons e cs =>
    rw [List.cons_append, List.head?_cons, List.head?_cons]
    cases (some e).bind (Symbol.ofPair? c) with
    | some sign => rfl
    | none => cases Symbol.ofChar? c <;> rfl

/-- A token that is not refused does not change when a delimiter and more characters follow. -/
theorem tokenOf_append {c : Char} {cs : List Char} (h : (tokenOf c cs).1.isInvalid = false) :
    tokenOf c (cs ++ d :: more) = ((tokenOf c cs).1, (tokenOf c cs).2 ++ d :: more) := by
  obtain ⟨hw, hn, -⟩ := isDelimiter_iff.1 hd
  have hnum : startsNumber c (cs ++ d :: more) = startsNumber c cs := by
    cases cs with
    | cons e cs => rfl
    | nil =>
      have : d.isDigit = false := by
        rw [isNumberChar] at hn
        exact (Bool.or_eq_false_iff.1 hn).1
      simp [startsNumber, this]
  unfold tokenOf at h ⊢
  rw [hnum]
  split at h
  · next hq =>
    rw [if_pos hq, if_pos hq]
    exact characterOf_append h
  · next hq =>
    rw [if_neg hq, if_neg hq]
    split at h
    · next hs =>
      obtain ⟨h₁, h₂⟩ := takeWhile_append_stop hn (c :: cs) more
      rw [if_pos hs, if_pos hs, numberOf, ← List.cons_append, h₁, h₂]
      rfl
    · next hs =>
      rw [if_neg hs, if_neg hs]
      split at h
      · next hword =>
        obtain ⟨h₁, h₂⟩ := takeWhile_append_stop hw (c :: cs) more
        rw [if_pos hword, if_pos hword, wordOf, ← List.cons_append, h₁, h₂]
        rfl
      · next hword =>
        rw [if_neg hword, if_neg hword]
        exact symbolOf_append hd more

end

end Offside.Token
