import Mathlib.Data.List.Chain
import Mathlib.Data.List.TakeWhile
import Offside.Proofs.Parser.Derived
import Offside.Proofs.Parser.Reading
import Offside.Proofs.Parser.Recognized
import Offside.Proofs.Token.Scans

/-!
# The pieces of a line

A line of a canonical text is put together from reserved words, names, signs, gaps and the texts of
expressions. An expression may have any text on one line that the parser reads as the expression to
its end. Next to a piece that is no separator stands a separator; then the tokens of the line are
those of its pieces.

## Main definitions

* `Offside.Spells`: texts of an expression.
* `Offside.Piece`: the pieces of a line, with their characters and the kinds of their tokens.
* `Offside.Piece.Joined`: pieces of which no two run together.

## Main results

* `Offside.Spells.readsAs`, `Offside.Spells.scans`: the tokens of the text of an expression.
* `Offside.Spells.derives`, `Offside.spells_of_derives`: they are the expression by the grammar, and
  every text on one line with such tokens is a text of it.
* `Offside.Piece.scans_pieces`, `Offside.Piece.scans_line`: the tokens of a line are those of its
  pieces.
-/

namespace Offside

open Source Token

/-! ### The text of an expression -/

/-- A parser on the first token of a text. -/
def Parser.ofText (text : String) : Parser :=
  (Parser.ofLexer (Lexer.ofInput (Input.ofString text))).advance

/-- A text on one line and without a comment, read to its end as the expression `e`. -/
structure Spells (text : String) (e : Expr) : Prop where
  line : '\n' ∉ text.toList ∧ '\r' ∉ text.toList
  noComment : ¬ HasComment text.toList
  reads : ∃ e' q, (Parse.expression (Parser.ofText text).fuel).run (Parser.ofText text) = .ok e' q ∧
    e'.erase = e.erase ∧ q.current.kind = .endOfInput

/-- The kinds of the tokens of a text but for the end of the input. -/
def textKinds (text : String) : List Kind :=
  ((Lexer.ofInput (Input.ofString text)).tokens.map Token.kind).dropLast

theorem kinds_ofText (text : String) :
    (Lexer.ofInput (Input.ofString text)).tokens.map Token.kind =
      textKinds text ++ [.endOfInput] := by
  obtain ⟨before, hkinds, -⟩ := (Lexer.ofInput (Input.ofString text)).exists_tokens
  rw [textKinds, hkinds, List.dropLast_concat]

theorem Parser.kinds_ofText (text : String) :
    (ofText text).kinds = textKinds text ++ [.endOfInput] := by
  rw [ofText, kinds_ofLexer, Offside.kinds_ofText]

/-- The tokens of a text that starts with a token and falls into tokens. -/
theorem textKinds_of_scans {text : String} {kinds : List Kind} {c : Char} {cs : List Char}
    (hline : '\r' ∉ text.toList) (htext : text.toList = c :: cs)
    (hc : Margin.isMarginChar c = false) (hn : c ≠ '\n' ∧ c ≠ '#')
    (hscans : Scans text.toList kinds []) : textKinds text = kinds := by
  have hrem : (Lexer.ofInput (Input.ofString text)).stream.remaining = [] ++ c :: cs := by
    rw [List.nil_append, ← htext]
    exact normalise_of_not_mem hline
  obtain ⟨s, hs, hrest, hread⟩ :=
    Lexer.read_of_margin (l := Lexer.ofInput (Input.ofString text)) (Stream.lineWise_ofInput _)
      rfl rfl hrem (by simp) hc hn
  have hin : Lexer.InLine
      { Lexer.ofInput (Input.ofString text) with stream := s, atLineStart := false } :=
    ⟨hs, rfl, rfl⟩
  have hkinds := Lexer.kinds_of_scans_end hin (by rw [hrest, ← htext]; exact hscans)
  have htokens := Lexer.tokens_congr (hread.trans hin.read_eq.symm)
  rw [← htokens, kinds_ofText] at hkinds
  simpa [Lexer.depth, Lexer.ofInput] using hkinds

/-- A margin at the start of a text is refused or opens a block. -/
private theorem layout_nil_of_margin (line : ContentLine) (hne : line.margin ≠ [])
    (hrun : ∀ c ∈ line.margin, Margin.isMarginChar c) :
    ∃ k, line.layout [] = [⟨k, line.place⟩] ∧ k.isPlain = false := by
  rw [ContentLine.layout]
  by_cases hmixed : line.IsMixed
  · exact ⟨_, by rw [if_pos hmixed]; rfl, rfl⟩
  · have hwidth : 0 < line.width := by
      obtain ⟨c, cs, hc⟩ := List.exists_cons_of_ne_nil hne
      rw [ContentLine.width]
      rcases isMarginChar_iff.1 (hrun c (by rw [hc]; exact List.mem_cons_self)) with rfl | rfl
      · have : 0 < line.margin.count ' ' :=
          List.count_pos_iff.2 (by rw [hc]; exact List.mem_cons_self)
        omega
      · have : 0 < line.margin.count '\t' :=
          List.count_pos_iff.2 (by rw [hc]; exact List.mem_cons_self)
        rw [tabWidth]
        omega
    have hlayout := (Margins.Stacked.nil.layout_push (w := line.width) hwidth).1
    refine ⟨.indent, ?_, rfl⟩
    rw [if_neg hmixed]
    exact congrArg (List.map fun kind => (⟨kind, line.place⟩ : Token)) hlayout

namespace Spells

open Parse (ReadsAs)

variable {text : String} {e : Expr} (h : Spells text e)
include h

theorem readsAs : ReadsAs (textKinds text) e := by
  obtain ⟨e', q, hrun, he, hq⟩ := h.reads
  exact ⟨Parser.ofText text, e', q, Parser.bounded_ofLexer _, Parser.kinds_ofText text, hrun, he,
    hq⟩

/-- The tokens of the text are the expression by the grammar. -/
theorem derives : Derives (textKinds text) (.expression e.erase) := by
  obtain ⟨e', q, hrun, he, hq⟩ := h.reads
  have hbounded : (Parser.ofText text).Bounded := Parser.bounded_ofLexer _
  obtain ⟨hend, used, hused, hderives⟩ := (Parse.reads_expression hbounded _).exists hrun
  rw [hend.kinds_of_end hq, Parser.kinds_ofText] at hused
  rwa [List.append_cancel_right hused, ← he]

/-- The text starts with a token: an indent or a comment is no part of an expression. -/
theorem exists_first : ∃ c cs, text.toList = c :: cs ∧ Margin.isMarginChar c = false ∧
    c ≠ '\n' ∧ c ≠ '#' := by
  obtain ⟨k, ks, hks, -⟩ := h.readsAs.exists_head
  have hplain : k.isPlain := h.readsAs.isPlain (by rw [hks]; exact List.mem_cons_self)
  have hkinds := kinds_ofText text
  have hlaid : LaidOut [] (ContentLine.ofText 1 (normalise text.toList))
      (Lexer.ofInput (Input.ofString text)).tokens :=
    Lexer.laidOut_tokens (l := Lexer.ofInput (Input.ofString text))
      (Stream.lineWise_ofInput _) rfl rfl (.inl rfl) .nil
  rw [normalise_of_not_mem h.line.2, ContentLine.ofText_margin] at hlaid
  have hrun := List.all_eq_true.1 (List.all_takeWhile (p := Margin.isMarginChar) (l := text.toList))
  have hsplit := List.takeWhile_append_dropWhile (p := Margin.isMarginChar) (l := text.toList)
  have hstop := List.head?_dropWhile_not Margin.isMarginChar text.toList
  have hline : '\n' ∉ text.toList.dropWhile Margin.isMarginChar :=
    fun hm => h.line.1 ((List.dropWhile_sublist _).subset hm)
  have hlater := ContentLine.later_append hline 1 []
  rw [List.append_nil, ContentLine.later_nil] at hlater
  rw [hlater, List.append_nil] at hlaid
  generalize (Lexer.ofInput (Input.ofString text)).tokens = tokens at hlaid hkinds
  generalize text.toList.takeWhile Margin.isMarginChar = run at *
  generalize text.toList.dropWhile Margin.isMarginChar = rest at *
  split at hlaid
  · next hhead =>
    cases hlaid with
    | line _ _ _ body more _ _ =>
      have hempty : run = [] := by
        by_contra hne
        obtain ⟨k', hlayout, hk'⟩ := layout_nil_of_margin ⟨1, run⟩ hne hrun
        rw [hlayout, hks] at hkinds
        obtain rfl : k' = k := (List.cons.inj hkinds).1
        rw [hplain] at hk'
        cases hk'
      rw [hempty, List.nil_append] at hsplit
      cases rest with
      | nil => simp at hhead
      | cons c cs => exact ⟨c, cs, hsplit.symm, by simpa using hstop, by simpa using hhead⟩
  · cases hlaid with
    | done _ _ closing =>
      rw [hkinds, hks] at closing
      simp [Margins.openBlocks, ContentLine.widths, Margins.sinceRefusal] at closing

/-- The text falls into its tokens, wherever it stands. -/
theorem scans : Scans text.toList (textKinds text) [] := by
  obtain ⟨c, cs, htext, hc, hn⟩ := h.exists_first
  obtain ⟨kinds, hscans⟩ := exists_scans h.line.1 h.noComment
  rwa [textKinds_of_scans h.line.2 htext hc hn hscans]

theorem valid {k : Kind} (hk : k ∈ textKinds text) : k.isInvalid = false := by
  have := h.readsAs.isPlain hk
  cases k with
  | invalid => cases this
  | endOfInput | endOfLine | indent | dedent | identifier | number | keyword | symbol => rfl

end Spells

/-- A text with the tokens of an expression is a text of it. -/
theorem spells_of_derives {text : String} {e : Expr}
    (hline : '\n' ∉ text.toList ∧ '\r' ∉ text.toList) (hcomment : '#' ∉ text.toList)
    (h : Derives (textKinds text) (.expression e.erase)) : Spells text e where
  line := hline
  noComment := not_hasComment_of_not_mem hcomment
  reads := by
    have hfuel := (Parser.ofText text).enough_fuel.weaken (Nat.le_add_left 3 13)
    obtain ⟨e', q, hrun, he, hq⟩ := (h.isRead (Parser.kinds_ofText text) rfl hfuel).exists
    exact ⟨e', q, hrun, he, Parser.current_of_kinds hq⟩

/-! ### Pieces -/

/-- A name: a word that is not reserved. -/
def IsName (name : String) : Prop :=
  name.toList.head?.any isWordStart ∧ name.toList.all isWordChar ∧ Keyword.ofSpelling? name = none

instance (name : String) : Decidable (IsName name) :=
  inferInstanceAs (Decidable (_ ∧ _ ∧ _))

/-- What a line is put together from. -/
inductive Piece
  | keyword (word : Keyword)
  | name (name : String)
  | sign (sign : Symbol)
  | gap
  /-- The text of an expression. -/
  | text (text : String)
  deriving DecidableEq, Repr

namespace Piece

/-- The characters of a piece. -/
def chars : Piece → List Char
  | keyword word => word.spelling.toList
  | name n => n.toList
  | sign s => s.spelling.toList
  | gap => [' ']
  | text t => t.toList

/-- The kinds of the tokens of a piece. -/
def kinds : Piece → List Kind
  | keyword word => [.keyword word]
  | name n => [.identifier n]
  | sign s => [.symbol s]
  | gap => []
  | text t => textKinds t

/-- Pieces that may stand next to any other. -/
def isSeparator : Piece → Bool
  | gap => true
  | sign s => s ∈ [.openParen, .closeParen, .openBracket, .closeBracket, .comma, .colon]
  | keyword _ | name _ | text _ => false

/-- A name is a name, and a text that of an expression. -/
def Sound : Piece → Prop
  | name n => IsName n
  | text t => ∃ e, Spells t e
  | keyword _ | sign _ | gap => True

/-- Pieces that do not run together: of two neighbours one is a separator. -/
structure Joined (pieces : List Piece) : Prop where
  sound : ∀ a ∈ pieces, a.Sound
  spaced : pieces.IsChain fun a b => a.isSeparator ∨ b.isSeparator

/-- Pieces with which a line starts. -/
def isFirst : Piece → Bool
  | keyword _ | name _ | text _ => true
  | sign _ | gap => false

end Piece

/-! ### Words and signs -/

/-- What starts a word starts nothing else. -/
theorem isWordStart_spec {c : Char} (h : isWordStart c) :
    isGap c = false ∧ Margin.isMarginChar c = false ∧ c ≠ '\n' ∧ c ≠ '#' ∧ c ≠ quote ∧
      c.isDigit = false ∧ c ≠ '.' := by
  have hrange : 65 ≤ c.toNat ∧ c.toNat ≤ 90 ∨ 97 ≤ c.toNat ∧ c.toNat ≤ 122 ∨ c.toNat = 95 := by
    have h : (c.isUpper || c.isLower || decide (c = '_')) = true := h
    rcases Bool.or_eq_true_iff.1 h with h | h
    · rcases Bool.or_eq_true_iff.1 h with h | h
      · exact .inl (of_decide_eq_true h)
      · have h : (decide (97 ≤ c.toNat) && decide (c.toNat ≤ 122)) = true := h
        exact .inr (.inl (by simpa using h))
    · obtain rfl := of_decide_eq_true h
      exact .inr (.inr rfl)
  have hne {d : Char} (hd : d.toNat < 65) : c ≠ d := by
    rintro rfl
    omega
  have hblank : Text.isBlank c = false := by
    simp only [Text.isBlank, Text.blankRanges, List.any_cons, List.any_nil, Bool.or_false,
      Bool.or_eq_false_iff, Bool.and_eq_false_iff, decide_eq_false_iff_not]
    omega
  refine ⟨by simp [isGap, hblank], ?_, hne (by decide), hne (by decide), hne (by decide), ?_,
    hne (by decide)⟩
  · simp [Margin.isMarginChar, hne (d := ' ') (by decide), hne (d := '\t') (by decide)]
  · cases hdigit : c.isDigit with
    | false => rfl
    | true =>
      simp only [Char.isDigit, Bool.and_eq_true, decide_eq_true_eq] at hdigit
      have : c.toNat ≤ 57 := hdigit.2
      omega

/-- A word by itself. -/
theorem scans_word {word : String} (hhead : word.toList.head?.any isWordStart)
    (hall : word.toList.all isWordChar) : Scans word.toList [.ofWord word] [] := by
  cases hword : word.toList with
  | nil => simp [hword] at hhead
  | cons c cs =>
    rw [hword] at hhead hall
    have hstart : isWordStart c := by simpa using hhead
    obtain ⟨hgap, -, hn, hc, hq, hdigit, hdot⟩ := isWordStart_spec hstart
    have htoken : tokenOf c cs = (.ofWord word, []) := by
      have hnum : startsNumber c cs = false := by simp [startsNumber, hdigit, hdot]
      have hrun := List.all_eq_true.1 hall
      have htake : (c :: cs).takeWhile isWordChar = c :: cs := List.takeWhile_eq_self_iff.2 hrun
      have hdrop : (c :: cs).dropWhile isWordChar = [] := List.dropWhile_eq_nil_iff.2 hrun
      rw [tokenOf, if_neg hq, hnum, if_neg Bool.false_ne_true, if_pos hstart, wordOf, htake, hdrop,
        ← hword, String.ofList_toList]
    have hscans : Scans (c :: cs) [(tokenOf c cs).1] [] :=
      .token hgap ⟨hn, hc⟩ (by rw [htoken]; exact .done [])
    rwa [htoken] at hscans

theorem Keyword.isWord_spelling (word : Keyword) :
    word.spelling.toList.head?.any isWordStart ∧ word.spelling.toList.all isWordChar := by
  cases word <;> decide

theorem scans_sign (sign : Symbol) : Scans sign.spelling.toList [.symbol sign] [] := by
  have hsign : ∃ c cs, sign.spelling.toList = c :: cs ∧ isGap c = false ∧ c ≠ '\n' ∧ c ≠ '#' ∧
      tokenOf c cs = (.symbol sign, []) := by
    cases sign <;> exact ⟨_, _, rfl, by decide, by decide, by decide, by decide⟩
  obtain ⟨c, cs, hspelling, hgap, hn, hc, htoken⟩ := hsign
  have hscans : Scans (c :: cs) [(tokenOf c cs).1] [] :=
    .token hgap ⟨hn, hc⟩ (by rw [htoken]; exact .done [])
  rwa [htoken, ← hspelling] at hscans

namespace Piece

/-- A piece by itself falls into its tokens. -/
theorem scans_self {a : Piece} (ha : a.Sound) :
    Scans a.chars a.kinds [] ∧ ∀ k ∈ a.kinds, k.isInvalid = false := by
  cases a with
  | name name =>
    have := scans_word ha.1 ha.2.1
    rw [Kind.ofWord, ha.2.2] at this
    exact ⟨this, by simp [kinds, Kind.isInvalid]⟩
  | text text =>
    obtain ⟨e, he⟩ := ha
    exact ⟨he.scans, fun k hk => he.valid hk⟩
  | gap => exact ⟨.gap (by decide) (.done []), by simp [kinds]⟩
  | keyword word =>
    have := scans_word word.isWord_spelling.1 word.isWord_spelling.2
    rw [Kind.ofWord, Keyword.ofSpelling?_spelling] at this
    exact ⟨this, by simp [kinds, Kind.isInvalid]⟩
  | sign sign => exact ⟨scans_sign sign, by simp [kinds, Kind.isInvalid]⟩

/-- A separator ends every token before it. -/
theorem exists_delimiter {a : Piece} (ha : a.isSeparator) :
    ∃ d cs, a.chars = d :: cs ∧ isDelimiter d := by
  cases a with
  | gap => exact ⟨' ', [], rfl, by decide⟩
  | sign sign =>
    simp only [isSeparator, decide_eq_true_eq, List.mem_cons, List.not_mem_nil, or_false] at ha
    rcases ha with rfl | rfl | rfl | rfl | rfl | rfl <;> exact ⟨_, _, rfl, by decide⟩
  | keyword | name | text => cases ha

/-- Only five characters start a sign of two. -/
theorem ofPair?_eq_none {c : Char} (hc : c ∉ ['=', '!', '<', '>', '-']) (d : Char) :
    Symbol.ofPair? c d = none := by
  rw [Symbol.ofPair?]
  rw [List.find?_eq_none]
  rintro s - hs
  have hs : s.spelling.toList = [c, d] := by simpa using hs
  revert hs hc
  cases s <;> simp [Symbol.spelling] <;> grind

/-- No token goes on after a separator. -/
theorem scans_separator {a : Piece} (ha : a.isSeparator) (rest : List Char) :
    Scans (a.chars ++ rest) a.kinds rest := by
  cases a with
  | gap => exact .gap (by decide) (.done rest)
  | sign s =>
    have hsign : ∃ c, s.spelling.toList = [c] ∧ isGap c = false ∧ c ≠ '\n' ∧ c ≠ '#' ∧
        c ≠ quote ∧ c.isDigit = false ∧ c ≠ '.' ∧ isWordStart c = false ∧
        Symbol.ofChar? c = some s ∧ c ∉ ['=', '!', '<', '>', '-'] := by
      simp only [isSeparator, decide_eq_true_eq, List.mem_cons, List.not_mem_nil, or_false] at ha
      rcases ha with rfl | rfl | rfl | rfl | rfl | rfl <;> exact ⟨_, rfl, by decide⟩
    obtain ⟨c, hspelling, hgap, hn, hc, hq, hdigit, hdot, hword, hchar, hfive⟩ := hsign
    have htoken : tokenOf c rest = (.symbol s, rest) := by
      have hnum : startsNumber c rest = false := by simp [startsNumber, hdigit, hdot]
      have hpair : rest.head?.bind (Symbol.ofPair? c) = none := by
        cases rest with
        | nil => rfl
        | cons d rest => exact ofPair?_eq_none hfive d
      rw [tokenOf, if_neg hq, hnum, if_neg Bool.false_ne_true, hword, if_neg Bool.false_ne_true,
        symbolOf, hpair, hchar]
    have hscans : Scans (c :: rest) [(tokenOf c rest).1] rest :=
      .token hgap ⟨hn, hc⟩ (by rw [htoken]; exact .done rest)
    rw [htoken] at hscans
    rw [chars, hspelling]
    exact hscans
  | keyword | name | text => cases ha

/-- Pieces may be put together where a separator ends the first or starts the second part. -/
theorem Joined.append {xs ys : List Piece} (hx : Joined xs) (hy : Joined ys)
    (h : (∀ a ∈ xs.getLast?, a.isSeparator) ∨ ∀ b ∈ ys.head?, b.isSeparator) :
    Joined (xs ++ ys) where
  sound b hb := (List.mem_append.1 hb).elim (hx.sound b) (hy.sound b)
  spaced := hx.spaced.append hy.spaced fun a ha b hb => h.imp (fun h => h a ha) fun h => h b hb

/-- The tokens of pieces that end at a delimiter, or with the text, are those of the pieces. -/
theorem scans_pieces {pieces : List Piece} (h : Joined pieces) {rest : List Char}
    (hrest : ∀ d ∈ rest.head?, isDelimiter d) :
    Scans (pieces.flatMap chars ++ rest) (pieces.flatMap kinds) rest := by
  induction pieces with
  | nil => exact .done _
  | cons a pieces ih =>
    have ih := ih ⟨fun b hb => h.sound b (List.mem_cons_of_mem a hb), h.spaced.tail⟩
    obtain ⟨hself, hvalid⟩ := scans_self (h.sound a List.mem_cons_self)
    rw [List.flatMap_cons, List.flatMap_cons, List.append_assoc]
    refine Scans.trans ?_ ih
    cases ha : a.isSeparator with
    | true => exact scans_separator ha _
    | false =>
      -- A delimiter follows, if anything does: that of the rest, or the first of a separator.
      have hnext : ∀ d ∈ (pieces.flatMap chars ++ rest).head?, isDelimiter d := by
        cases pieces with
        | nil => exact hrest
        | cons b pieces =>
          have hb : b.isSeparator := by
            refine (List.isChain_cons_cons.1 h.spaced).1.resolve_left ?_
            rw [ha]
            exact Bool.false_ne_true
          obtain ⟨d, cs, hchars, hdelimiter⟩ := exists_delimiter hb
          rw [List.flatMap_cons, hchars]
          rintro _ ⟨⟩
          exact hdelimiter
      exact hself.append_of_head? hvalid hnext

/-- The tokens of a line are those of its pieces. -/
theorem scans_line {pieces : List Piece} (h : Joined pieces) (more : List Char) :
    Scans (pieces.flatMap chars ++ '\n' :: more) (pieces.flatMap kinds) ('\n' :: more) :=
  scans_pieces h (by rintro _ ⟨⟩; decide)

/-- The first piece of a line starts with the first character of a token. -/
theorem exists_first {a : Piece} (ha : a.Sound) (hfirst : a.isFirst) :
    ∃ c cs, a.chars = c :: cs ∧ Margin.isMarginChar c = false ∧ c ≠ '\n' ∧ c ≠ '#' := by
  have word {w : String} (hhead : w.toList.head?.any isWordStart) :
      ∃ c cs, w.toList = c :: cs ∧ Margin.isMarginChar c = false ∧ c ≠ '\n' ∧ c ≠ '#' := by
    cases hw : w.toList with
    | nil => simp [hw] at hhead
    | cons c cs =>
      obtain ⟨-, hmargin, hn, hc, -⟩ := isWordStart_spec (c := c) (by simpa [hw] using hhead)
      exact ⟨c, cs, rfl, hmargin, hn, hc⟩
  cases a with
  | name n => exact word ha.1
  | keyword w => exact word w.isWord_spelling.1
  | text t =>
    obtain ⟨e, he⟩ := ha
    exact he.exists_first
  | sign | gap => cases hfirst

/-- No piece has a carriage return. -/
theorem not_mem_chars {a : Piece} (h : a.Sound) : '\r' ∉ a.chars := by
  have word {w : String} (hall : w.toList.all isWordChar) : '\r' ∉ w.toList := by
    intro hmem
    have := List.all_eq_true.1 hall '\r' hmem
    exact absurd this (by decide)
  cases a with
  | keyword w => exact word w.isWord_spelling.2
  | name n => exact word h.2.1
  | sign s => cases s <;> decide
  | gap => decide
  | text t =>
    obtain ⟨e, he⟩ := h
    exact he.line.2

end Piece

end Offside
