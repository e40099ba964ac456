import Offside.Proofs.Canonical.Spelling
import Offside.Proofs.Token.Ordinary

/-!
# Tokens written on one line

Words, numbers and signs that are written on one line, with single spaces between them, are read back:
the tokens of the line are the ones that were written. A space ends every token, so each is read from
its own text alone. The text of a character literal is written by one table and read by another way
through it, and the two agree on every character.

The words, numbers and signs of any text are such tokens, so each of them is also the only token of
what is written of it.

## Main definitions

* `Offside.Kind.written`: the text of a word, a number or a sign.
* `Offside.Kind.line`: some tokens on one line.

## Main results

* `Offside.Token.characterOf_escapeLiteral`: the text of a character literal is read back.
* `Offside.Kind.kinds_line`: the tokens of a line are those that were written on it.
* `Offside.Lexer.written_read_back`: writing and reading are inverse to each other.
-/

namespace Offside

open Source Token

/-! ### Character literals -/

namespace Token

/-- A character has an escape, which is read as the character, or is written as it is. -/
theorem escapeLiteral_cases (c : Char) :
    (∃ letter, unescape? letter = some c ∧ (letter ≠ '\n' ∧ letter ≠ '\r') ∧
      escapeLiteral c = ['\\', letter]) ∨
    (c ≠ '\n' ∧ c ≠ '\r' ∧ c ≠ quote ∧ c ≠ '\\') ∧ escapeLiteral c = [c] := by
  have hentries : ∀ entry ∈ escapes,
      unescape? entry.1 = some entry.2 ∧ entry.1 ≠ '\n' ∧ entry.1 ≠ '\r' := by decide
  rw [escapeLiteral]
  cases hfound : escapes.find? fun entry => entry.2 == c with
  | some entry =>
    obtain ⟨letter, d⟩ := entry
    obtain rfl : d = c := by simpa using List.find?_some hfound
    obtain ⟨hread, hline⟩ := hentries _ (List.mem_of_find?_eq_some hfound)
    exact .inl ⟨letter, hread, hline, rfl⟩
  | none =>
    have hne (letter : Char) {d : Char} (h : (letter, d) ∈ escapes) : c ≠ d := fun hc => by
      simpa [hc] using List.find?_eq_none.1 hfound _ h
    exact .inr ⟨⟨hne 'n' (by decide), hne 'r' (by decide), hne quote (by decide),
      hne '\\' (by decide)⟩, rfl⟩

/-- The text of a character literal is read back. -/
theorem characterOf_escapeLiteral (c : Char) :
    characterOf (escapeLiteral c ++ [quote]) =
      (.number (characterText c) (.int c.toNat), []) := by
  have hclose : closeOf c [quote] = (.number (characterText c) (.int c.toNat), []) := by
    rw [closeOf, List.head?_cons, if_pos rfl]
    rfl
  rcases escapeLiteral_cases c with ⟨letter, hread, ⟨hn, -⟩, htext⟩ | ⟨⟨hn, -, hq, hb⟩, htext⟩
  · rw [htext, List.cons_append, characterOf, if_neg (by decide), if_neg (by decide), if_pos rfl,
      List.singleton_append, escapeOf, if_neg hn, hread]
    exact hclose
  · rw [htext, List.singleton_append, characterOf, if_neg hn, if_neg hq, if_neg hb, hclose]

theorem scans_characterText (c : Char) :
    Scans (characterText c).toList [.number (characterText c) (.int c.toNat)] [] := by
  have htoken : tokenOf quote (escapeLiteral c ++ [quote]) =
      (.number (characterText c) (.int c.toNat), []) := by
    rw [tokenOf, if_pos rfl, characterOf_escapeLiteral]
  have hscans : Scans (quote :: (escapeLiteral c ++ [quote]))
      [(tokenOf quote (escapeLiteral c ++ [quote])).1] [] :=
    .token (by decide) (by decide) (by rw [htoken]; exact .done [])
  rw [htoken] at hscans
  nth_rewrite 1 [characterText]
  rwa [String.toList_ofList]

end Token

/-! ### One token -/

namespace Kind

/-- The text of a word, a number or a sign. -/
def written : Kind → String
  | identifier name => name
  | number text _ => text
  | kind => kind.spelling?.getD ""

/-- Some tokens on one line, with single spaces between them. -/
def line (kinds : List Kind) : String := " ".intercalate (kinds.map written)

namespace IsOrdinary

variable {kind : Kind} (h : kind.IsOrdinary)
include h

theorem valid : kind.isInvalid = false := by
  cases kind with
  | invalid => cases h
  | _ => rfl

/-- A token by itself is read from its text. -/
theorem scans : Scans kind.written.toList [kind] [] := by
  cases kind with
  | keyword word => exact (Piece.scans_self (a := .keyword word) trivial).1
  | identifier name => exact (Piece.scans_self (a := .name name) h).1
  | symbol sign => exact scans_sign sign
  | number text value =>
    rcases h with hrun | ⟨c, rfl, rfl⟩
    · exact Number.IsLiteral.scans hrun
    · exact scans_characterText c
  | endOfInput | endOfLine | indent | dedent | invalid => cases h

/-- The text starts with the first character of a token. -/
theorem exists_first : ∃ c cs, kind.written.toList = c :: cs ∧ Margin.isMarginChar c = false ∧
    c ≠ '\n' ∧ c ≠ '#' := by
  cases kind with
  | keyword word => exact Piece.exists_first (a := .keyword word) trivial rfl
  | identifier name => exact Piece.exists_first (a := .name name) h rfl
  | symbol sign => cases sign <;> exact ⟨_, _, rfl, by decide⟩
  | number text value =>
    rcases h with hrun | ⟨c, rfl, rfl⟩
    · obtain ⟨hall, c, cs, htext, -⟩ := Number.IsLiteral.exists_first hrun
      obtain ⟨-, hmargin, hn, -, hc, -⟩ :=
        isNumberChar_spec (hall c (by rw [htext]; exact List.mem_cons_self))
      exact ⟨c, cs, htext, hmargin, hn, hc⟩
    · exact ⟨quote, _, String.toList_ofList, by decide⟩
  | endOfInput | endOfLine | indent | dedent | invalid => cases h

/-- The text has no carriage return: in a literal this is written as an escape. -/
theorem not_mem_written : '\r' ∉ kind.written.toList := by
  cases kind with
  | keyword word => exact Piece.not_mem_chars (a := .keyword word) trivial
  | identifier name => exact Piece.not_mem_chars (a := .name name) h
  | symbol sign => exact Piece.not_mem_chars (a := .sign sign) trivial
  | number text value =>
    rcases h with hrun | ⟨c, rfl, rfl⟩
    · intro hmem
      have hr := (Number.IsLiteral.exists_first hrun).1 _ hmem
      exact absurd hr (by decide)
    · have hquote : '\r' ≠ quote := by decide
      rw [written, characterText, String.toList_ofList]
      rcases escapeLiteral_cases c with ⟨letter, -, ⟨-, hr⟩, htext⟩ | ⟨⟨-, hr, -⟩, htext⟩
      · simp [htext, hquote, hr.symm]
      · simp [htext, hquote, hr.symm]
  | endOfInput | endOfLine | indent | dedent | invalid => cases h

end IsOrdinary

/-! ### A line of tokens -/

/-- The characters of some tokens with a space before each. -/
def spaced (kinds : List Kind) : List Char := kinds.flatMap fun kind => ' ' :: kind.written.toList

theorem spaced_cons (kind : Kind) (kinds : List Kind) :
    spaced (kind :: kinds) = ' ' :: (kind.written.toList ++ spaced kinds) := by
  rw [spaced, List.flatMap_cons, List.cons_append, spaced]

theorem toList_line (kind : Kind) (kinds : List Kind) :
    (line (kind :: kinds)).toList = kind.written.toList ++ spaced kinds := by
  simp only [line, String.toList_intercalate, List.map_map]
  induction kinds generalizing kind with
  | nil => simp [spaced]
  | cons next kinds ih =>
    rw [List.map_cons, List.intercalate_cons_of_ne_nil (by simp), ih, spaced_cons]
    simp

/-- A token and those after it, which a space divides from it. -/
private theorem scans_before_spaced {kind : Kind} {kinds : List Kind} (h : kind.IsOrdinary)
    (hkinds : Scans (spaced kinds) kinds []) :
    Scans (kind.written.toList ++ spaced kinds) (kind :: kinds) [] := by
  have hends : ∀ d ∈ (spaced kinds).head?, isDelimiter d := by
    cases kinds with
    | nil => nofun
    | cons =>
      rw [spaced_cons]
      rintro _ ⟨⟩
      decide
  exact (h.scans.append_of_head? (List.forall_mem_singleton.2 h.valid) hends).trans hkinds

theorem scans_spaced {kinds : List Kind} (h : ∀ k ∈ kinds, k.IsOrdinary) :
    Scans (spaced kinds) kinds [] := by
  induction kinds with
  | nil => exact .done []
  | cons kind kinds ih =>
    obtain ⟨hkind, hkinds⟩ := List.forall_mem_cons.1 h
    rw [spaced_cons]
    exact .gap (by decide) (scans_before_spaced hkind (ih hkinds))

/-- The tokens of a line are those that were written on it. -/
theorem kinds_line {kinds : List Kind} (h : ∀ k ∈ kinds, k.IsOrdinary) :
    (Lexer.ofInput (Input.ofString (line kinds))).tokens.map Token.kind =
      kinds ++ [.endOfInput] := by
  cases kinds with
  | nil => decide +kernel
  | cons kind kinds =>
    obtain ⟨hkind, hkinds⟩ := List.forall_mem_cons.1 h
    obtain ⟨c, cs, hwritten, hmargin, hn⟩ := hkind.exists_first
    have htext := toList_line kind kinds
    have hreturn : '\r' ∉ (line (kind :: kinds)).toList := by
      rw [htext, List.mem_append, spaced, List.mem_flatMap]
      rintro (hmem | ⟨k, hk, hmem⟩)
      · exact hkind.not_mem_written hmem
      · exact (hkinds k hk).not_mem_written (by simpa using hmem)
    have hscans := scans_before_spaced hkind (scans_spaced hkinds)
    rw [← htext] at hscans
    rw [hwritten, List.cons_append] at htext
    rw [kinds_ofText, textKinds_of_scans hreturn htext hmargin hn hscans]

end Kind

/-! ### Writing and reading -/

/-- Writing tokens and reading them are inverse to each other. Words, numbers and signs on one line
with single spaces between them are read as the tokens that were written, up to the end of the input.
And every word, number or sign of any text is ordinary, so that in particular a number carries a text
that denotes it, and is the one token of what is written of it. -/
theorem Lexer.written_read_back :
    (∀ kinds : List Kind, (∀ k ∈ kinds, k.IsOrdinary) →
      (ofInput (Input.ofString (Kind.line kinds))).tokens.map Token.kind =
        kinds ++ [.endOfInput]) ∧
    ∀ (l : Lexer) (x : Lexeme), x ∈ l.lexemes → x.token.kind.isWritten →
      x.token.kind.IsOrdinary ∧
        (ofInput (Input.ofString x.token.kind.written)).tokens.map Token.kind =
          [x.token.kind, .endOfInput] := by
  refine ⟨fun kinds h => Kind.kinds_line h, fun l x hx written => ?_⟩
  have hordinary := ordinary_of_mem_lexemes hx written
  have hread := Kind.kinds_line (List.forall_mem_singleton.2 hordinary)
  rw [Kind.line, List.map_singleton] at hread
  exact ⟨hordinary, by simpa using hread⟩

/-- A line with a word, a name, literals, and signs of one and two characters; and a character literal
with a tab, which is written as an escape. -/
theorem Lexer.written_read_back_escapes :
    let kinds : List Kind := [.keyword .ifWord, .identifier "x1", .symbol .dot,
      .number "1.5" (.float ⟨0x3FF8000000000000⟩), .number "'\\n'" (.int 10), .number "' '" (.int 32),
      .symbol .lessEqual, .symbol .assign, .number "007" (.int 7)]
    let tab := ofInput (Input.ofString "'\t'")
    Kind.line kinds = "if x1 . 1.5 '\\n' ' ' <= = 007" ∧
      (ofInput (Input.ofString (Kind.line kinds))).tokens.map Token.kind =
        kinds ++ [.endOfInput] ∧
      tab.next.token.kind = .number "'\\t'" (.int 9) ∧
      (ofInput (Input.ofString "'\\t'")).tokens.map Token.kind =
        [.number "'\\t'" (.int 9), .endOfInput] := by
  intro kinds tab
  have hkinds : ∀ k ∈ kinds, k.IsOrdinary := by
    have hname : IsName "x1" := by decide
    simp only [kinds, List.forall_mem_cons]
    exact ⟨trivial, hname, trivial, .inl (by decide +kernel), .inr ⟨'\n', by decide, rfl⟩,
      .inr ⟨' ', by decide, rfl⟩, trivial, trivial, .inl (by decide +kernel),
      List.forall_mem_nil _⟩
  have htab : tab.next.token.kind = .number "'\\t'" (.int 9) := by decide +kernel
  have hread := written_read_back.2 tab tab.next tab.next_mem_lexemes (by rw [htab]; rfl)
  rw [htab] at hread
  exact ⟨by decide +kernel, written_read_back.1 kinds hkinds, htab, hread.2⟩

end Offside
