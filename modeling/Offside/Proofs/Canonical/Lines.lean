import Offside.Proofs.Canonical.Piece

/-!
# The lines of a canonical text

A canonical text is a sequence of lines, each as many steps deep as it has blocks around it. A line
that is deeper than the one before opens a block and one that is shallower closes blocks, so that
the depths of the lines alone tell where the indents and dedents are.

## Main definitions

* `Offside.Line`: a line and its depth.
* `Offside.Line.text`: the text that lines make.
* `Offside.Line.layoutKinds`: the kinds of the tokens of lines, layout included.

## Main results

* `Offside.Lexer.kinds_of_lines`: the lexer reads these tokens.
-/

namespace Offside

open Source Token

/-- A line: how deep it stands and what it holds. -/
structure Line where
  depth : ℕ
  pieces : List Piece

namespace Line

/-- The kinds of the tokens of a line, without layout. -/
def kinds (line : Line) : List Kind := line.pieces.flatMap Piece.kinds

/-- The characters of a line whose margin has `unit` spaces for each level. -/
def chars (unit : ℕ) (line : Line) : List Char :=
  List.replicate (unit * line.depth) ' ' ++ line.pieces.flatMap Piece.chars ++ ['\n']

/-- The text that lines make. -/
def text (unit : ℕ) (lines : List Line) : List Char := lines.flatMap (chars unit)

/-- A line that starts with a token and whose pieces do not run together. -/
structure Sound (line : Line) : Prop where
  first : ∃ a rest, line.pieces = a :: rest ∧ a.isFirst
  joined : Piece.Joined line.pieces

/-- The layout of a line of depth `depth` where `before` blocks are open. -/
def margin (before depth : ℕ) : List Kind :=
  if before < depth then [.indent] else List.replicate (before - depth) .dedent

/-- The kinds of the tokens of lines up to the end of the input, where `before` blocks are open. -/
def layoutKinds : ℕ → List Line → List Kind
  | before, [] => List.replicate before .dedent ++ [.endOfInput]
  | before, line :: lines =>
    margin before line.depth ++ line.kinds ++ .endOfLine :: layoutKinds line.depth lines

/-- No line is more than one level deeper than the line before it. -/
def Stepwise : ℕ → List Line → Prop
  | _, [] => True
  | before, line :: lines => line.depth ≤ before + 1 ∧ Stepwise line.depth lines

/-- The widths of `depth` open blocks, innermost first. -/
def blocks (unit : ℕ) : ℕ → List ℕ
  | 0 => []
  | depth + 1 => unit * (depth + 1) :: blocks unit depth

@[simp] theorem length_blocks (unit depth : ℕ) : (blocks unit depth).length = depth := by
  induction depth with
  | zero => rfl
  | succ depth ih => rw [blocks, List.length_cons, ih]

@[simp] theorem headD_blocks (unit depth : ℕ) : (blocks unit depth).headD 0 = unit * depth := by
  cases depth <;> rfl

/-- The blocks deeper than a line are the outer ones of those open before it. -/
theorem dropWhile_blocks {unit : ℕ} (hunit : 0 < unit) {depth before : ℕ} (h : depth ≤ before) :
    (blocks unit before).dropWhile (unit * depth < ·) = blocks unit depth := by
  induction before with
  | zero =>
    obtain rfl : depth = 0 := by omega
    rfl
  | succ before ih =>
    rw [blocks]
    by_cases hd : depth = before + 1
    · rw [hd, List.dropWhile_cons_of_neg (by simp), blocks]
    · have hlt : unit * depth < unit * (before + 1) := Nat.mul_lt_mul_of_pos_left (by omega) hunit
      rw [List.dropWhile_cons_of_pos (by simpa using hlt), ih (by omega)]

/-! ### Accepted characters and tokens -/

theorem not_mem_text {unit : ℕ} {lines : List Line} (h : ∀ line ∈ lines, line.Sound) :
    '\r' ∉ text unit lines := by
  intro hmem
  obtain ⟨line, hline, hmem⟩ := List.mem_flatMap.1 hmem
  rw [chars, List.mem_append, List.mem_append, List.mem_replicate, List.mem_flatMap,
    List.mem_singleton] at hmem
  rcases hmem with (⟨-, h⟩ | ⟨piece, hpiece, hmem⟩) | h
  · exact absurd h (by decide)
  · exact Piece.not_mem_chars ((h line hline).joined.sound piece hpiece) hmem
  · exact absurd h (by decide)

/-- Lines that make sense have no refused token. -/
theorem valid_layoutKinds {lines : List Line} (h : ∀ line ∈ lines, line.Sound) (before : ℕ) :
    ∀ k ∈ layoutKinds before lines, k.isInvalid = false := by
  induction lines generalizing before with
  | nil =>
    intro k hk
    rw [layoutKinds, List.mem_append, List.mem_replicate, List.mem_singleton] at hk
    rcases hk with ⟨-, rfl⟩ | rfl <;> rfl
  | cons line lines ih =>
    obtain ⟨hline, hlines⟩ := List.forall_mem_cons.1 h
    intro k hk
    rw [layoutKinds, List.mem_append, List.mem_append, List.mem_cons, margin, kinds,
      List.mem_flatMap] at hk
    rcases hk with (hk | ⟨piece, hpiece, hk⟩) | rfl | hk
    · split at hk
      · obtain rfl := List.mem_singleton.1 hk
        rfl
      · obtain rfl := (List.mem_replicate.1 hk).2
        rfl
    · exact (Piece.scans_self (hline.joined.sound piece hpiece)).2 k hk
    · rfl
    · exact ih hlines _ k hk

end Line

namespace Lexer

variable {unit : ℕ} (hunit : 0 < unit)
include hunit

/-- The layout of a line comes first, and leaves the blocks around the line open. -/
theorem kinds_of_margin {l m : Lexer} {before depth : ℕ} (hm : m.InLine)
    (hread : l.read =
      (m.layout? (Margin.ofRun (List.replicate (unit * depth) ' '))).getD m.inLine)
    (hblocks : m.blocks = Line.blocks unit before) (hdepth : depth ≤ before + 1) :
    ∃ n : Lexer, n.InLine ∧ n.stream = m.stream ∧ n.blocks = Line.blocks unit depth ∧
      l.tokens.map Token.kind = Line.margin before depth ++ n.tokens.map Token.kind := by
  have hrun : ∀ c ∈ List.replicate (unit * depth) ' ', Margin.isMarginChar c := by
    intro c hc
    rw [(List.mem_replicate.1 hc).2]
    decide
  have hmixed : ¬ (' ' ∈ List.replicate (unit * depth) ' ' ∧
      '\t' ∈ List.replicate (unit * depth) ' ') := by
    rintro ⟨-, htab⟩
    exact absurd (List.mem_replicate.1 htab).2 (by decide)
  have hwidth : (Margin.ofRun (List.replicate (unit * depth) ' ')).width = unit * depth := by
    rw [Margin.width_ofRun hrun hmixed, List.count_replicate_self, List.count_replicate]
    simp
  have hmargin : m.margin = unit * before := by
    rw [margin, hblocks, Line.headD_blocks]
  have hcons {lexeme : Lexeme} (hl : l.read = lexeme) (hne : lexeme.token.kind ≠ .endOfInput) :
      l.tokens = lexeme.token :: lexeme.after.tokens := by
    rw [← hl]
    exact tokens_eq_cons (hl ▸ hne)
  rw [layout?, if_neg (mt (Margin.isMixed_ofRun hrun).1 hmixed)] at hread
  dsimp only at hread
  rw [hwidth, hmargin] at hread
  rcases Nat.lt_trichotomy before depth with hlt | rfl | hlt
  · obtain rfl : depth = before + 1 := by omega
    rw [if_pos (Nat.mul_lt_mul_of_pos_left hlt hunit), Option.getD_some] at hread
    refine ⟨{ m with blocks := unit * (before + 1) :: m.blocks, lastWidth := unit * (before + 1) },
      ⟨hm.lineWise, hm.paid, hm.inside⟩, rfl, by rw [hblocks]; rfl, ?_⟩
    rw [hcons hread Kind.noConfusion, Line.margin, if_pos hlt]
    rfl
  · rw [if_neg (Nat.lt_irrefl _), if_pos rfl, Option.getD_none, ← hm.read_eq] at hread
    refine ⟨m, hm, rfl, hblocks, ?_⟩
    rw [tokens_congr hread, Line.margin, if_neg (Nat.lt_irrefl _), Nat.sub_self]
    rfl
  · have hshallow : unit * depth < unit * before := Nat.mul_lt_mul_of_pos_left hlt hunit
    rw [if_neg (by omega), if_neg (by omega), hblocks, Line.dropWhile_blocks hunit hlt.le,
      if_pos (Line.headD_blocks unit depth), Option.getD_some] at hread
    refine ⟨{ m with blocks := Line.blocks unit depth }, ⟨hm.lineWise, hm.paid, hm.inside⟩, rfl,
      rfl, ?_⟩
    have hclosed : before - depth = m.depth - depth - 1 + 1 := by
      rw [Lexer.depth, hblocks, Line.length_blocks]
      omega
    rw [hcons hread Kind.noConfusion, tokens_of_owed, Line.margin, if_neg (by omega), hclosed,
      Line.length_blocks, List.replicate_succ, List.map_cons, List.map_append, List.map_replicate,
      ← hm.paid]
    rfl

/-- The lexer reads the tokens of the lines, with their layout. -/
theorem kinds_of_lines {lines : List Line} (sound : ∀ line ∈ lines, line.Sound) {before : ℕ}
    (stepwise : Line.Stepwise before lines) {l : Lexer} (hs : l.stream.LineWise) (paid : l.owed = 0)
    (start : l.atLineStart = true) (hblocks : l.blocks = Line.blocks unit before)
    (htext : l.stream.remaining = Line.text unit lines) :
    l.tokens.map Token.kind = Line.layoutKinds before lines := by
  induction lines generalizing before l with
  | nil =>
    have hread : l.read = l.startLine := by simp [read, paid, start]
    obtain ⟨hwise, hnone⟩ := firstContent_of_remaining hs htext
    rw [startLine] at hread
    dsimp only at hread
    rw [if_pos (by rw [Stream.peek_eq_none_iff.2 hnone]; rfl)] at hread
    obtain ⟨s, place, hs', hrest, he⟩ :=
      inLine_of_remaining (l := { l with stream := (firstContent l.stream).2 }) hwise hnone
    rw [kinds_of_finish (hread.trans he) hs' hrest, Line.layoutKinds]
    simp only [depth, hblocks, Line.length_blocks]
  | cons line lines ih =>
    obtain ⟨hdepth, stepwise⟩ := stepwise
    obtain ⟨⟨a, rest, hrest, ha⟩, hjoined⟩ := sound line List.mem_cons_self
    obtain ⟨c, cs, hchars, hc, hn⟩ :=
      Piece.exists_first (hjoined.sound a (by rw [hrest]; exact List.mem_cons_self)) ha
    have hscans := Piece.scans_line hjoined (Line.text unit lines)
    have hcontent : line.pieces.flatMap Piece.chars ++ '\n' :: Line.text unit lines =
        c :: (cs ++ rest.flatMap Piece.chars ++ '\n' :: Line.text unit lines) := by
      rw [hrest, List.flatMap_cons, hchars]
      simp
    have hremaining : l.stream.remaining = List.replicate (unit * line.depth) ' ' ++
        c :: (cs ++ rest.flatMap Piece.chars ++ '\n' :: Line.text unit lines) := by
      rw [htext, ← hcontent, Line.text, List.flatMap_cons, Line.chars, ← Line.text]
      simp
    have hspaces : ∀ d ∈ List.replicate (unit * line.depth) ' ', Margin.isMarginChar d := by
      intro d hd
      rw [(List.mem_replicate.1 hd).2]
      decide
    obtain ⟨s, hs', hsrem, hread⟩ := read_of_margin hs paid start hremaining hspaces hc hn
    obtain ⟨n, hnin, hstream, hnblocks, hkinds⟩ :=
      kinds_of_margin hunit (m := { l with stream := s, atLineStart := false })
        ⟨hs', paid, rfl⟩ hread hblocks hdepth
    have hstream : n.stream = s := hstream
    obtain ⟨t, ht, htrem, hline⟩ := kinds_of_scans_line hnin
      (by rw [hstream, hsrem, ← hcontent]; exact hscans)
    rw [hkinds, hline, ih (fun line hline => sound line (List.mem_cons_of_mem _ hline)) stepwise
      (l := { n with stream := t, atLineStart := true }) ht hnin.paid rfl hnblocks htrem,
      Line.layoutKinds, Line.kinds, List.append_assoc]

end Lexer

end Offside
