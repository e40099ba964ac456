import Offside.Proofs.Canonical.Block
import Offside.Proofs.Parser.Recognized
import Offside.Proofs.Parser.Written
import Offside.Proofs.Tree.Rooted

/-!
# Expressions spelled out

An expression has a text in which every binary and every unary operation stands in parentheses, so
that no precedence is needed to read it. The tokens of this text are read as the expression wherever
they stand, unless a token follows with which an expression goes on.

A name may not be a reserved word, and `addr` is no name of a function, since a call of it would be
an address. A literal is any text that denotes the number; every integer below the bound has one.

## Main definitions

* `Offside.Number.IsLiteral`: the texts that denote a number.
* `Offside.Expr.IsSpellable`: expressions that have a text.
* `Offside.Expr.spelling`: the text of an expression.

## Main results

* `Offside.Expr.derives_pieces`: the tokens of the text are those of the expression.
* `Offside.Parse.run_expression_spelling`: the text is read back.
-/

namespace Offside

open Source Token

/-! ### Literals -/

/-- What a literal consists of is no blank and starts nothing else. -/
theorem isNumberChar_spec {c : Char} (h : isNumberChar c) :
    isGap c = false ∧ Margin.isMarginChar c = false ∧ c ≠ '\n' ∧ c ≠ '\r' ∧ c ≠ '#' ∧ c ≠ quote := by
  have hrange : 48 ≤ c.toNat ∧ c.toNat ≤ 57 ∨ c.toNat = 46 := by
    rcases Bool.or_eq_true_iff.1 h with h | h
    · simp only [Char.isDigit, Bool.and_eq_true, decide_eq_true_eq] at h
      exact .inl ⟨h.1, h.2⟩
    · obtain rfl := of_decide_eq_true h
      exact .inr rfl
  have hne {d : Char} (hd : d.toNat < 46) : c ≠ d := by
    rintro rfl
    omega
  have hblank : Text.isBlank c = false := by
    simp only [Text.isBlank, Text.blankRanges, List.any_cons, List.any_nil, Bool.or_false,
      Bool.or_eq_false_iff, Bool.and_eq_false_iff, decide_eq_false_iff_not]
    omega
  refine ⟨by simp [isGap, hblank], ?_, hne (by decide), hne (by decide), hne (by decide),
    hne (by decide)⟩
  simp [Margin.isMarginChar, hne (d := ' ') (by decide), hne (d := '\t') (by decide)]

namespace Number

/-- A run of digits, with at most one point, denotes a number. -/
def IsLiteral (value : Number) (text : String) : Prop := ofRun? text.toList = some value

instance (value : Number) (text : String) : Decidable (IsLiteral value text) :=
  inferInstanceAs (Decidable (_ = _))

/-- Numbers that have a literal: integers below the bound, and the values of literals with a
point. -/
def HasLiteral : Number → Prop
  | int n => n < intBound
  | float x => ∃ text, IsLiteral (float x) text

/-- The decimal digits of an integer below the bound denote it. -/
theorem isLiteral_text_int {n : Nat} (h : n < intBound) : IsLiteral (int n) (int n).text := by
  have htext : (int n).text.toList = Nat.toDigits 10 n := by
    rw [text, Nat.toString_eq_ofList_toDigits, String.toList_ofList]
  have hdigits : ∀ c ∈ Nat.toDigits 10 n, c.isDigit :=
    fun _ hc => Nat.isDigit_of_mem_toDigits (by decide) (by decide) hc
  have hvalue : ofDigits (Nat.toDigits 10 n) = n := Nat.ofDigitChars_ten_toDigits
  rw [IsLiteral, htext, ofRun?, List.dropWhile_eq_nil_iff.2 hdigits]
  dsimp only
  rw [List.takeWhile_eq_self_iff.2 hdigits, hvalue, if_pos ⟨Nat.toDigits_ne_nil, h⟩]

theorem HasLiteral.exists_isLiteral {value : Number} (h : value.HasLiteral) :
    ∃ text, IsLiteral value text := by
  cases value with
  | int n => exact ⟨_, isLiteral_text_int h⟩
  | float x => exact h

variable {text : String} {value : Number}

/-- A literal has digits and points only, and starts as a number. -/
theorem IsLiteral.exists_first (h : IsLiteral value text) :
    (∀ c ∈ text.toList, isNumberChar c) ∧ ∃ c cs, text.toList = c :: cs ∧ startsNumber c cs := by
  have hdigit {c : Char} (hc : c.isDigit) : isNumberChar c := by simp [isNumberChar, hc]
  rw [IsLiteral, ofRun?] at h
  have hsplit := List.takeWhile_append_dropWhile (p := Char.isDigit) (l := text.toList)
  have hwhole : ∀ c ∈ text.toList.takeWhile Char.isDigit, c.isDigit :=
    List.all_eq_true.1 List.all_takeWhile
  generalize text.toList.takeWhile Char.isDigit = whole at h hsplit hwhole
  generalize text.toList.dropWhile Char.isDigit = rest at h hsplit
  rw [← hsplit]
  have starts (rest : List Char) (hne : whole ≠ []) :
      ∃ c cs, whole ++ rest = c :: cs ∧ startsNumber c cs := by
    obtain ⟨c, cs, rfl⟩ := List.exists_cons_of_ne_nil hne
    exact ⟨c, cs ++ rest, rfl, by simp [startsNumber, hwhole c List.mem_cons_self]⟩
  split at h
  · rw [Option.ite_none_right_eq_some] at h
    exact ⟨by simpa using fun c hc => hdigit (hwhole c hc), starts [] h.1.1⟩
  · next fraction =>
    rw [Option.ite_none_right_eq_some, List.all_eq_true] at h
    obtain ⟨⟨hfraction, hne⟩, -⟩ := h
    refine ⟨fun c hc => ?_, ?_⟩
    · rcases List.mem_append.1 hc with hc | hc
      · exact hdigit (hwhole c hc)
      · rcases List.mem_cons.1 hc with rfl | hc
        · rfl
        · exact hdigit (hfraction c hc)
    · by_cases hwhole : whole = []
      · obtain ⟨c, cs, rfl⟩ := List.exists_cons_of_ne_nil (l := fraction) (by simpa [hwhole] using hne)
        refine ⟨'.', c :: cs, by rw [hwhole]; rfl, ?_⟩
        simp [startsNumber, hfraction c List.mem_cons_self]
      · exact starts _ hwhole
  · cases h

/-- A literal by itself falls into one token. -/
theorem IsLiteral.scans (h : IsLiteral value text) :
    Scans text.toList [.number text value] [] := by
  obtain ⟨hall, c, cs, htext, hstart⟩ := h.exists_first
  obtain ⟨hgap, -, hn, -, hc, hq⟩ :=
    isNumberChar_spec (hall c (by rw [htext]; exact List.mem_cons_self))
  have htoken : tokenOf c cs = (.number text value, []) := by
    rw [tokenOf, if_neg hq, if_pos hstart, numberOf, ← htext, List.takeWhile_eq_self_iff.2 hall,
      List.dropWhile_eq_nil_iff.2 hall, numberKind, h]
    simp
  have hscans : Scans (c :: cs) [(tokenOf c cs).1] [] :=
    .token hgap ⟨hn, hc⟩ (by rw [htoken]; exact .done [])
  rwa [htoken, ← htext] at hscans

/-- A literal is one token. -/
theorem IsLiteral.textKinds_eq (h : IsLiteral value text) :
    textKinds text = [.number text value] := by
  obtain ⟨hall, c, cs, htext, -⟩ := h.exists_first
  have hreturn : '\r' ∉ text.toList := fun hmem => by
    have hr := hall '\r' hmem
    exact absurd hr (by decide)
  obtain ⟨-, hmargin, hn, -, hc, -⟩ :=
    isNumberChar_spec (hall c (by rw [htext]; exact List.mem_cons_self))
  exact textKinds_of_scans hreturn htext hmargin ⟨hn, hc⟩ h.scans

/-- A literal is a text of the number. -/
theorem IsLiteral.spells (h : IsLiteral value text) (tag : Tag) :
    Spells text (.number tag value) := by
  have hnot {d : Char} (hd : isNumberChar d = false) : d ∉ text.toList := fun hmem => by
    rw [h.exists_first.1 d hmem] at hd
    cases hd
  refine spells_of_derives ⟨hnot rfl, hnot rfl⟩ (hnot rfl) ?_
  rw [h.textKinds_eq]
  exact (Derives.number text value).expression_of_suffixed

end Number

/-! ### Pieces of expressions -/

/-- The piece of a token that is a word or a sign. -/
def Kind.piece : Kind → Piece
  | keyword word => .keyword word
  | symbol sign => .sign sign
  | _ => .gap

theorem BinaryOp.kinds_piece (op : BinaryOp) :
    op.kind.piece.kinds = [op.kind] ∧ op.kind.piece.Sound := by
  cases op <;> exact ⟨rfl, trivial⟩

theorem UnaryOp.kinds_piece (op : UnaryOp) :
    op.kind.piece.kinds = [op.kind] ∧ op.kind.piece.Sound := by
  cases op <;> exact ⟨rfl, trivial⟩

theorem UnaryOp.ofKind?_kind (op : UnaryOp) : Parse.Sign.ofKind? op.kind = some (.apply op) := by
  cases op <;> rfl

namespace Expr

mutual

/-- Names are names, no call is one of `addr`, and the numbers have the property `P`. -/
def Regular (P : Number → Prop) : Expr → Prop
  | number _ value => P value
  | var _ name => IsName name
  | addressOf _ place => place.Regular P
  | index _ base subscript => base.Regular P ∧ subscript.Regular P
  | member _ object field => object.Regular P ∧ IsName field
  | unary _ _ operand => operand.Regular P
  | binary _ _ left right => left.Regular P ∧ right.Regular P
  | call _ callee args => IsName callee ∧ callee ≠ "addr" ∧ AllRegular P args

/-- Each of some expressions is such. -/
def AllRegular (P : Number → Prop) : List Expr → Prop
  | [] => True
  | e :: es => e.Regular P ∧ AllRegular P es

end

mutual

/-- The pieces of an expression, in which `literal` gives the texts of numbers. Operations stand in
parentheses. -/
def pieces (literal : Number → String) : Expr → List Piece
  | number _ value => [.text (literal value)]
  | var _ name => [.name name]
  | addressOf _ place =>
    [.name "addr", .sign .openParen] ++ place.pieces literal ++ [.sign .closeParen]
  | index _ base subscript =>
    base.pieces literal ++ [.sign .openBracket] ++ subscript.pieces literal ++ [.sign .closeBracket]
  | member _ object field => object.pieces literal ++ [.gap, .sign .dot, .gap, .name field]
  | unary _ op operand =>
    [.sign .openParen, op.kind.piece, .gap] ++ operand.pieces literal ++ [.sign .closeParen]
  | binary _ op left right =>
    [.sign .openParen] ++ left.pieces literal ++ [.gap, op.kind.piece, .gap] ++
      right.pieces literal ++ [.sign .closeParen]
  | call _ callee args =>
    [.name callee, .sign .openParen] ++ Piece.commas (piecesAll literal args) ++ [.sign .closeParen]

/-- The pieces of each of some expressions. -/
def piecesAll (literal : Number → String) : List Expr → List (List Piece)
  | [] => []
  | e :: es => e.pieces literal :: piecesAll literal es

end

/-- The text of an expression, in which `literal` gives the texts of numbers. -/
def spelling (literal : Number → String) (e : Expr) : String :=
  String.ofList ((e.pieces literal).flatMap Piece.chars)

/-- Expressions that have a text. -/
def IsSpellable (e : Expr) : Prop := e.Regular Number.HasLiteral

/-- Expressions in whose text `literal` gives the texts of numbers. -/
def SpelledBy (literal : Number → String) (e : Expr) : Prop :=
  e.Regular fun value => value.IsLiteral (literal value)

mutual

theorem Regular.mono {P Q : Number → Prop} (hPQ : ∀ value, P value → Q value) {e : Expr}
    (h : e.Regular P) : e.Regular Q := by
  cases e with
  | number _ value => exact hPQ value h
  | var => exact h
  | addressOf _ place => exact Regular.mono (e := place) hPQ h
  | index _ base subscript => exact ⟨h.1.mono hPQ, h.2.mono hPQ⟩
  | member _ object => exact ⟨h.1.mono hPQ, h.2⟩
  | unary _ _ operand => exact Regular.mono (e := operand) hPQ h
  | binary _ _ left right => exact ⟨h.1.mono hPQ, h.2.mono hPQ⟩
  | call _ _ args => exact ⟨h.1, h.2.1, AllRegular.mono hPQ h.2.2⟩

theorem AllRegular.mono {P Q : Number → Prop} (hPQ : ∀ value, P value → Q value) {es : List Expr}
    (h : AllRegular P es) : AllRegular Q es := by
  cases es with
  | nil => trivial
  | cons e es => exact ⟨h.1.mono hPQ, AllRegular.mono hPQ h.2⟩

end

/-- Each number has a text, so that the whole expression has one. -/
theorem IsSpellable.exists_spelledBy {e : Expr} (h : e.IsSpellable) :
    ∃ literal, e.SpelledBy literal := by
  classical
  let literal (value : Number) : String :=
    if h : ∃ text, value.IsLiteral text then h.choose else ""
  refine ⟨literal, Regular.mono (fun value hvalue => ?_) h⟩
  have hexists := hvalue.exists_isLiteral
  show value.IsLiteral (dite _ _ _)
  rw [dif_pos hexists]
  exact hexists.choose_spec

/-! ### The text falls into the pieces -/

variable {literal : Number → String}

theorem piecesAll_eq_map (es : List Expr) : piecesAll literal es = es.map (pieces literal) := by
  induction es with
  | nil => rfl
  | cons e es ih => rw [piecesAll, ih, List.map_cons]

/-- Pieces in brackets of some kind, with something before them. -/
private theorem joined_enclosed {before inside : List Piece} {closing : Symbol}
    (hbefore : Piece.Joined before) (hinside : Piece.Joined inside)
    (hlast : ∀ a ∈ before.getLast?, a.isSeparator) (hclosing : (Piece.sign closing).isSeparator) :
    Piece.Joined (before ++ inside ++ [.sign closing]) := by
  have hclose : Piece.Joined [.sign closing] := ⟨by simp [Piece.Sound], by simp⟩
  refine (hbefore.append hinside (.inl hlast)).append hclose (.inr ?_)
  rintro _ ⟨⟩
  exact hclosing

mutual

theorem SpelledBy.joined_pieces {e : Expr} (h : e.SpelledBy literal) :
    Piece.Joined (e.pieces literal) := by
  cases e with
  | number tag value => exact ⟨by simpa [pieces] using ⟨_, h.spells tag⟩, by simp [pieces]⟩
  | var _ name =>
    have hname : IsName name := h
    exact ⟨by simpa [pieces, Piece.Sound] using hname, by simp [pieces]⟩
  | addressOf _ place =>
    have hlead : Piece.Joined [.name "addr", .sign .openParen] :=
      ⟨by simp [Piece.Sound]; decide, by simp [Piece.isSeparator]⟩
    exact joined_enclosed hlead (SpelledBy.joined_pieces (e := place) h) (by simp [Piece.isSeparator]) rfl
  | index _ base subscript =>
    have hopen : Piece.Joined [.sign .openBracket] := ⟨by simp [Piece.Sound], by simp⟩
    have hbase : Piece.Joined (base.pieces literal ++ [.sign .openBracket]) :=
      (SpelledBy.joined_pieces (e := base) h.1).append hopen (.inr (by simp [Piece.isSeparator]))
    exact joined_enclosed hbase (SpelledBy.joined_pieces (e := subscript) h.2)
      (by simp [Piece.isSeparator]) rfl
  | member _ object field =>
    have hfield : Piece.Joined [.gap, .sign .dot, .gap, .name field] :=
      ⟨by simpa [Piece.Sound] using h.2, by simp [Piece.isSeparator]⟩
    exact (SpelledBy.joined_pieces (e := object) h.1).append hfield (.inr (by simp [Piece.isSeparator]))
  | unary _ op operand =>
    have hlead : Piece.Joined [.sign .openParen, op.kind.piece, .gap] :=
      ⟨by simpa [Piece.Sound] using op.kinds_piece.2, by simp [Piece.isSeparator]⟩
    exact joined_enclosed hlead (SpelledBy.joined_pieces (e := operand) h)
      (by simp [Piece.isSeparator]) rfl
  | binary _ op left right =>
    have hopen : Piece.Joined [.sign .openParen] := ⟨by simp [Piece.Sound], by simp⟩
    have hop : Piece.Joined [.gap, op.kind.piece, .gap] :=
      ⟨by simpa [Piece.Sound] using op.kinds_piece.2, by simp [Piece.isSeparator]⟩
    have hleft : Piece.Joined ([.sign .openParen] ++ left.pieces literal ++
        [.gap, op.kind.piece, .gap]) :=
      (hopen.append (SpelledBy.joined_pieces (e := left) h.1)
        (.inl (by simp [Piece.isSeparator]))).append hop (.inr (by simp [Piece.isSeparator]))
    refine joined_enclosed hleft (SpelledBy.joined_pieces (e := right) h.2) ?_ rfl
    rw [List.getLast?_append_of_ne_nil _ (List.cons_ne_nil _ _)]
    rintro _ ⟨⟩
    rfl
  | call _ callee args =>
    have hlead : Piece.Joined [.name callee, .sign .openParen] :=
      ⟨by simpa [Piece.Sound] using h.1, by simp [Piece.isSeparator]⟩
    exact joined_enclosed hlead (Piece.joined_commas (joined_piecesAll h.2.2))
      (by simp [Piece.isSeparator]) rfl

theorem joined_piecesAll {es : List Expr}
    (h : AllRegular (fun value => value.IsLiteral (literal value)) es) :
    ∀ part ∈ piecesAll literal es, Piece.Joined part := by
  cases es with
  | nil => exact List.forall_mem_nil _
  | cons e es => exact List.forall_mem_cons.2 ⟨SpelledBy.joined_pieces (e := e) h.1, joined_piecesAll h.2⟩

end

theorem exists_firstPiece (literal : Number → String) (e : Expr) :
    ∃ a rest, e.pieces literal = a :: rest ∧ (a.isFirst ∨ a = .sign .openParen) := by
  cases e with
  | number | var => exact ⟨_, _, rfl, .inl rfl⟩
  | addressOf | call => exact ⟨_, _, rfl, .inl rfl⟩
  | unary | binary => exact ⟨_, _, rfl, .inr rfl⟩
  | index _ base =>
    obtain ⟨a, rest, hpieces, ha⟩ := exists_firstPiece literal base
    exact ⟨a, _, by rw [pieces, hpieces]; rfl, ha⟩
  | member _ object =>
    obtain ⟨a, rest, hpieces, ha⟩ := exists_firstPiece literal object
    exact ⟨a, _, by rw [pieces, hpieces]; rfl, ha⟩

/-- The tokens of the text are those of the pieces. -/
theorem SpelledBy.textKinds_spelling {e : Expr} (h : e.SpelledBy literal) :
    textKinds (e.spelling literal) = (e.pieces literal).flatMap Piece.kinds := by
  have hjoined := h.joined_pieces
  have htext : (e.spelling literal).toList = (e.pieces literal).flatMap Piece.chars :=
    String.toList_ofList
  have hend : ∀ d ∈ ([] : List Char).head?, isDelimiter d := nofun
  have hscans := Piece.scans_pieces hjoined hend
  have hreturn : '\r' ∉ (e.pieces literal).flatMap Piece.chars := by
    rw [List.mem_flatMap]
    rintro ⟨a, ha, hmem⟩
    exact Piece.not_mem_chars (hjoined.sound a ha) hmem
  obtain ⟨a, rest, hpieces, ha⟩ := exists_firstPiece literal e
  obtain ⟨c, cs, hchars, hmargin, hn⟩ : ∃ c cs, a.chars = c :: cs ∧
      Margin.isMarginChar c = false ∧ c ≠ '\n' ∧ c ≠ '#' := by
    rcases ha with ha | rfl
    · exact Piece.exists_first (hjoined.sound a (by rw [hpieces]; exact List.mem_cons_self)) ha
    · exact ⟨_, _, rfl, by decide, by decide, by decide⟩
  rw [List.append_nil, ← htext] at hscans
  have hfirst : (e.spelling literal).toList = c :: (cs ++ rest.flatMap Piece.chars) := by
    rw [htext, hpieces, List.flatMap_cons, hchars, List.cons_append]
  exact textKinds_of_scans (by rwa [htext]) hfirst hmargin hn hscans

/-! ### The pieces are those of the expression -/

/-- The tokens of parts with commas between them. -/
private theorem listTokens_eq {α : Type} (f : α → List Piece) (g : α → Expr) (xs : List α) :
    Part.listTokens (xs.map fun x => ⟨(f x).flatMap Piece.kinds, g x⟩) =
      (Piece.commas (xs.map f)).flatMap Piece.kinds := by
  induction xs with
  | nil => rfl
  | cons x xs ih =>
    cases xs with
    | nil => simp [Piece.commas]
    | cons y ys =>
      rw [List.map_cons, Part.listTokens_cons _ (by simp), ih]
      simp [Piece.commas, Piece.kinds]

mutual

/-- The tokens of the text are those of the expression. -/
theorem SpelledBy.derives_pieces {e : Expr} (h : e.SpelledBy literal) :
    Derives ((e.pieces literal).flatMap Piece.kinds) (.suffixed e.erase) := by
  cases e with
  | number _ value =>
    have hkinds : textKinds (literal value) = [.number (literal value) value] := h.textKinds_eq
    rw [pieces, List.flatMap_singleton, Piece.kinds, hkinds]
    exact .number _ value
  | var _ name => exact .name name
  | addressOf _ place =>
    have hplace := (SpelledBy.derives_pieces (e := place) h).expression_of_suffixed
    simpa [pieces, erase, Piece.kinds] using Derives.addressOf hplace
  | index _ base subscript =>
    have hbase := SpelledBy.derives_pieces (e := base) h.1
    have hsubscript := (SpelledBy.derives_pieces (e := subscript) h.2).expression_of_suffixed
    simpa [pieces, erase, Piece.kinds] using Derives.index hbase hsubscript
  | member _ object field =>
    have hobject := SpelledBy.derives_pieces (e := object) h.1
    simpa [pieces, erase, Piece.kinds] using hobject.member field
  | unary _ op operand =>
    have hoperand := (SpelledBy.derives_pieces (e := operand) h).operand
    have hgroup := Derives.group (hoperand.sign op.ofKind?_kind).expression_of_operand
    simp only [pieces, List.flatMap_append, List.flatMap_cons, op.kinds_piece.1]
    simpa [erase, Piece.kinds, Parse.Sign.before] using hgroup
  | binary _ op left right =>
    let link : Link := ⟨op.kind, op, ⟨(right.pieces literal).flatMap Piece.kinds, right.erase⟩,
      BinaryOp.ofKind?_eq_some_iff.2 rfl⟩
    have hleft := (SpelledBy.derives_pieces (e := left) h.1).operand
    have hright := (SpelledBy.derives_pieces (e := right) h.2).operand
    have hchain := @Derives.expression _ _ [link] hleft (by simpa [link] using hright)
    simp only [pieces, List.flatMap_append, List.flatMap_cons, op.kinds_piece.1]
    simpa [erase, Piece.kinds, Link.tokens, group, Link.cut, link] using Derives.group hchain
  | call _ callee args =>
    let parts : List Part := args.map fun a => ⟨(a.pieces literal).flatMap Piece.kinds, a.erase⟩
    have hparts : ∀ a ∈ parts, Derives a.tokens (.expression a.expr) := by
      simpa [parts] using derives_piecesAll h.2.2
    have htokens : Part.listTokens parts =
        (Piece.commas (piecesAll literal args)).flatMap Piece.kinds := by
      rw [piecesAll_eq_map, ← listTokens_eq]
    have hexprs : parts.map Part.expr = eraseAll args := by
      simp [parts, eraseAll_eq, Function.comp_def]
    have hcallee : [Kind.identifier callee] ≠ [.identifier "addr"] := by simpa using h.2.1
    have hcall := Derives.call (.name callee) hcallee hparts
    rw [htokens, hexprs] at hcall
    simpa [pieces, erase, Piece.kinds] using hcall

theorem derives_piecesAll {es : List Expr}
    (h : AllRegular (fun value => value.IsLiteral (literal value)) es) :
    ∀ e ∈ es, Derives ((e.pieces literal).flatMap Piece.kinds) (.expression e.erase) := by
  cases es with
  | nil => exact List.forall_mem_nil _
  | cons e es =>
    exact List.forall_mem_cons.2
      ⟨(SpelledBy.derives_pieces (e := e) h.1).expression_of_suffixed, derives_piecesAll h.2⟩

end

end Expr

namespace Parse

/-- Every expression has a text with operations in parentheses, and whichever texts its numbers
have, the tokens of this text are read as the expression up to the first token after them, if this
is one with which no expression goes on. -/
theorem run_expression_spelling {e : Expr} (he : e.IsSpellable) :
    (∃ literal, e.SpelledBy literal) ∧ ∀ literal, e.SpelledBy literal →
      ∀ (p : Parser) (fuel : Nat) (k : Kind) (K : List Kind),
        p.kinds = textKinds (e.spelling literal) ++ k :: K → k.extendsExpr = false →
        p.Enough 3 fuel →
        ∃ e' q, (expression fuel).run p = .ok e' q ∧ e'.erase = e.erase ∧ q.kinds = k :: K := by
  refine ⟨he.exists_spelledBy, fun literal hspelled p fuel k K hp hk hfuel => ?_⟩
  rw [hspelled.textKinds_spelling] at hp
  have hderives := hspelled.derives_pieces.expression_of_suffixed
  exact (hderives.isRead hp hk hfuel).exists

/-- A sum with an index, a member, an address and a call. -/
def sumWithCall : Expr :=
  .binary .erased .add
    (.unary .erased .neg (.index .erased (.var .erased "a") (.number .erased (.int 7))))
    (.call .erased "f" [.member .erased (.var .erased "b") "c",
      .addressOf .erased (.var .erased "addr"), .number .erased (.float ⟨0x3FE0000000000000⟩)])

private theorem regular_sumWithCall {P : Number → Prop} (hint : P (.int 7))
    (hfloat : P (.float ⟨0x3FE0000000000000⟩)) : sumWithCall.Regular P := by
  have hnames : IsName "a" ∧ IsName "b" ∧ IsName "c" ∧ IsName "f" ∧ IsName "addr" := by decide
  obtain ⟨ha, hb, hc, hf, haddr⟩ := hnames
  exact ⟨⟨ha, hint⟩, hf, by decide, ⟨hb, hc⟩, haddr, hfloat, trivial⟩

/-- Its text is read back. -/
theorem run_expression_spelling_sumWithCall :
    sumWithCall.spelling Number.text = "((- a[7]) + f(b . c, addr(addr), 0.5))" ∧
      ∃ e q, (expression (Parser.ofText (sumWithCall.spelling Number.text)).fuel).run
          (Parser.ofText (sumWithCall.spelling Number.text)) = .ok e q ∧
        e.erase = sumWithCall ∧ q.kinds = [.endOfInput] := by
  have hspellable : sumWithCall.IsSpellable :=
    regular_sumWithCall (by show 7 < Number.intBound; decide) ⟨"0.5", by decide +kernel⟩
  have hspelled : sumWithCall.SpelledBy Number.text :=
    regular_sumWithCall (by decide +kernel) (by decide +kernel)
  refine ⟨by decide +kernel, ?_⟩
  exact (run_expression_spelling hspellable).2 Number.text hspelled _ _ .endOfInput []
    (Parser.kinds_ofText _) rfl
    ((Parser.ofText _).enough_fuel.weaken (Nat.le_add_left 3 13))

end Parse

end Offside
