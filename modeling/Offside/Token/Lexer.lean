import Offside.Journal.Note
import Offside.Token.Scan

/-!
# Tokens of a text

The tokens of a text are those of its lines and, between lines, the layout that margins give: an
indent where a line is deeper than the open block, a dedent for each block that a line or the end
of the input closes, and a line end after every line with content. Lines that hold nothing but
blanks and a comment take no part.

Each token comes with the state of the lexer after it, so that whoever reads the tokens one by one
also knows how far the text has been read.

## Main definitions

* `Offside.Lexer`: a stream with its open blocks.
* `Offside.Lexeme`: a token, the notes made while it was read, and the lexer after it.
* `Offside.Lexer.next`: the next token.
* `Offside.Lexer.lexemes`: all tokens up to the end of the input.

## Main results

* `Offside.Lexer.weight_next_lt`: reading on comes to an end.
* `Offside.Lexer.length_lexemes_le`: a text of `n` characters has at most `2 * n + 1` tokens.
-/

namespace Offside

open Source Token

/-- A stream with its open blocks. -/
structure Lexer where
  stream : Stream
  /-- The widths of the open blocks, innermost first. -/
  blocks : List Nat
  /-- Dedents decided on and not yet delivered. -/
  owed : Nat
  /-- Whether the margin of the next line is still to be read. -/
  atLineStart : Bool
  /-- The width of the block opened last. -/
  lastWidth : Nat
  deriving DecidableEq, Repr, Inhabited

/-- A token, the notes made while it was read, and the lexer after it. -/
structure Lexeme where
  token : Token
  notes : List Note
  after : Lexer
  deriving DecidableEq, Repr

namespace Lexer

/-- A lexer at the start of an input. -/
def ofInput (input : Input) : Lexer := ⟨Stream.ofInput input, [], 0, true, 0⟩

/-- The number of open blocks. -/
def depth (l : Lexer) : Nat := l.blocks.length

/-- The margin of the innermost open block. -/
def margin (l : Lexer) : Nat := l.blocks.headD 0

/-- The place of the next character. -/
def place (l : Lexer) : Location := l.stream.location.following

/-- A token of kind `kind` at `place`, read up to the stream `s`; refused characters are noted. -/
def deliver (l : Lexer) (place : Location) (kind : Kind) (s : Stream) : Lexeme :=
  let notes := match kind with
    | .invalid error => [.tokenRefused error place]
    | _ => []
  ⟨⟨kind, place⟩, notes, { l with stream := s }⟩

/-- A dedent owed. -/
def payDedent (l : Lexer) : Lexeme := ⟨⟨.dedent, l.place⟩, [], { l with owed := l.owed - 1 }⟩

/-- The token at the end of the input: a dedent as long as a block is open. -/
def finish (l : Lexer) (place : Location) : Lexeme :=
  if l.blocks.isEmpty then ⟨⟨.endOfInput, place⟩, [], l⟩
  else
    ⟨⟨.dedent, place⟩, [.blocksDrained l.depth], { l with blocks := [], owed := l.depth - 1 }⟩

/-- The end of a line, whose line feed has been read. -/
def endLine (l : Lexer) : Lexeme := ⟨⟨.endOfLine, l.place⟩, [], { l with atLineStart := true }⟩

/-- The next token on the line in hand. -/
def inLine (l : Lexer) : Lexeme :=
  let s := (l.stream.takeWhile isGap).2
  let place := s.location.following
  match s.peek with
  | none => finish { l with stream := s } place
  | some c =>
    if c = '\n' then endLine { l with stream := s.skip }
    else if c = '#' then
      if (skipComment s).1 then endLine { l with stream := (skipComment s).2 }
      else finish { l with stream := (skipComment s).2 } place
    else l.deliver place (scan c s).1 (scan c s).2

/-- The layout token that a margin calls for, if any. A mixed margin is refused and otherwise
ignored. A deeper margin opens a block. A shallower one closes the blocks deeper than it; if it is
then not that of the open block, it is refused and every block is forgotten. -/
def layout? (l : Lexer) (margin : Margin) : Option Lexeme :=
  if margin.isMixed then some (l.deliver l.place (.invalid .mixedMargin) l.stream)
  else
    let width := margin.width
    if l.margin < width then
      let blocks := width :: l.blocks
      some ⟨⟨.indent, l.place⟩, [.blockOpened width blocks.length],
        { l with blocks := blocks, lastWidth := width }⟩
    else if width = l.margin then none
    else
      let kept := l.blocks.dropWhile (width < ·)
      if kept.headD 0 = width then
        let closed := l.depth - kept.length
        some ⟨⟨.dedent, l.place⟩, [.blocksClosed width closed],
          { l with blocks := kept, owed := closed - 1 }⟩
      else
        some ({ l with blocks := [] }.deliver l.place (.invalid .unmatchedDedent) l.stream)

/-- The first token of the next line with content. -/
def startLine (l : Lexer) : Lexeme :=
  let content := firstContent l.stream
  let l := { l with stream := content.2 }
  if content.2.peek.isNone then l.inLine
  else
    let l := { l with atLineStart := false }
    (l.layout? content.1).getD l.inLine

/-- The next token, without a note of a failed read. -/
def read (l : Lexer) : Lexeme :=
  if 0 < l.owed then l.payDedent
  else if l.atLineStart then l.startLine
  else l.inLine

/-- The next token. A line that cannot be decoded is noted before anything else. -/
def next (l : Lexer) : Lexeme :=
  let lexeme := l.read
  if lexeme.after.stream.failed && !l.stream.failed then
    { lexeme with notes := .readFailed :: lexeme.notes }
  else lexeme

/-! ### Termination -/

/-- A bound on the number of tokens to come: every character gives at most two, and every open
block or owed dedent one. -/
def weight (l : Lexer) : Nat := 2 * l.stream.size + l.depth + l.owed

theorem weight_finish_lt {l : Lexer} {place : Location} (paid : l.owed = 0)
    (more : (l.finish place).token.kind ≠ .endOfInput) :
    (l.finish place).after.weight < l.weight := by
  unfold finish at more ⊢
  split at more
  · exact absurd rfl more
  · next h =>
    rw [if_neg h]
    have : 0 < l.depth := by
      unfold depth
      exact List.length_pos_iff.2 (by simpa using h)
    simp only [weight, depth, List.length_nil, paid] at this ⊢
    omega

theorem weight_inLine_lt {l : Lexer} (paid : l.owed = 0)
    (more : l.inLine.token.kind ≠ .endOfInput) : l.inLine.after.weight < l.weight := by
  have blanks := Stream.size_takeWhile_le isGap l.stream
  unfold inLine at more ⊢
  dsimp only at more ⊢
  generalize (l.stream.takeWhile isGap).2 = s at blanks more ⊢
  have moved {t : Stream} {place : Location} (h : t.size ≤ l.stream.size)
      (more : (finish { l with stream := t } place).token.kind ≠ .endOfInput) :
      (finish { l with stream := t } place).after.weight < l.weight := by
    have := weight_finish_lt (l := { l with stream := t }) paid more
    simp only [weight, depth] at this ⊢
    omega
  split
  · next h =>
    simp only [h] at more
    exact moved blanks more
  · next c h =>
    have skipped := Stream.size_skip_lt h
    have comment := size_skipComment_lt h
    have scanned := size_scan_lt h
    simp only [h] at more
    split
    · simp only [endLine, weight, depth]
      omega
    · next hn =>
      rw [if_neg hn] at more
      split
      · next hc =>
        rw [if_pos hc] at more
        split
        · simp only [endLine, weight, depth]
          omega
        · next he =>
          rw [if_neg he] at more
          exact moved (by omega) more
      · simp only [deliver, weight, depth]
        omega

/-- A layout token is paid for by the margin or by the blocks that it closes. -/
theorem weight_layout?_lt {l : Lexer} {margin : Margin} {lexeme : Lexeme} (paid : l.owed = 0)
    (mixed : margin.isMixed → 0 < margin.width) (h : l.layout? margin = some lexeme) :
    lexeme.after.weight < l.weight + 2 * min margin.width 1 := by
  have nonempty (hw : margin.width < l.margin) : ∃ b bs, l.blocks = b :: bs ∧ margin.width < b := by
    cases hb : l.blocks with
    | nil => simp [Lexer.margin, hb] at hw
    | cons b bs => exact ⟨b, bs, rfl, by simpa [Lexer.margin, hb] using hw⟩
  unfold layout? at h
  dsimp only at h
  split at h
  · next hm =>
    have := mixed hm
    cases h
    simp only [deliver, weight, depth]
    omega
  · split at h
    · cases h
      simp only [weight, depth, List.length_cons]
      omega
    · split at h
      · cases h
      · obtain ⟨b, bs, hb, hw⟩ := nonempty (by omega)
        split at h
        · cases h
          have : (l.blocks.dropWhile (margin.width < ·)).length ≤ bs.length := by
            rw [hb, List.dropWhile_cons, if_pos (by simpa using hw)]
            exact (List.dropWhile_sublist _).length_le
          simp only [weight, depth, hb, List.length_cons] at this ⊢
          omega
        · cases h
          simp only [deliver, weight, depth, hb, List.length_cons, List.length_nil]
          omega

theorem weight_startLine_lt {l : Lexer} (paid : l.owed = 0)
    (more : l.startLine.token.kind ≠ .endOfInput) : l.startLine.after.weight < l.weight := by
  have used := size_firstContent_le l.stream
  obtain ⟨run, hrun⟩ := exists_firstContent_eq_ofRun l.stream
  have mixed : (firstContent l.stream).1.isMixed → 0 < (firstContent l.stream).1.width := by
    rw [hrun]
    exact Margin.width_pos_of_isMixed
  unfold startLine at more ⊢
  dsimp only at more ⊢
  generalize firstContent l.stream = content at *
  split
  · next h =>
    rw [if_pos h] at more
    have := weight_inLine_lt (l := { l with stream := content.2 }) paid more
    simp only [weight, depth] at this ⊢
    omega
  · next h =>
    rw [if_neg h] at more
    cases hl : layout? { l with stream := content.2, atLineStart := false } content.1 with
    | none =>
      rw [hl, Option.getD_none] at more
      have := weight_inLine_lt
        (l := { l with stream := content.2, atLineStart := false }) paid more
      simp only [Option.getD_none, weight, depth] at this ⊢
      omega
    | some lexeme =>
      have := weight_layout?_lt
        (l := { l with stream := content.2, atLineStart := false }) paid mixed hl
      simp only [Option.getD_some, weight, depth] at this ⊢
      omega

/-- Every token but the end of the input brings the end nearer. -/
theorem weight_next_lt {l : Lexer} (more : l.next.token.kind ≠ .endOfInput) :
    l.next.after.weight < l.weight := by
  have same : l.next.token = l.read.token ∧ l.next.after = l.read.after := by
    unfold next
    dsimp only
    split <;> simp
  rw [same.1] at more
  rw [same.2]
  unfold read at more ⊢
  split
  · simp only [payDedent, weight, depth]
    omega
  · next h =>
    rw [if_neg h] at more
    split
    · next hs =>
      rw [if_pos hs] at more
      exact weight_startLine_lt (by omega) more
    · next hs =>
      rw [if_neg hs] at more
      exact weight_inLine_lt (by omega) more

/-- All tokens from here to the end of the input, which comes last. -/
def lexemes (l : Lexer) : List Lexeme :=
  if _h : l.next.token.kind = .endOfInput then [l.next]
  else l.next :: lexemes l.next.after
termination_by l.weight
decreasing_by exact weight_next_lt ‹_›

theorem length_lexemes_le (l : Lexer) : l.lexemes.length ≤ l.weight + 1 := by
  fun_induction lexemes l with
  | case1 l h => simp
  | case2 l h ih =>
    have := weight_next_lt h
    simp only [List.length_cons]
    omega

theorem lexemes_ne_nil (l : Lexer) : l.lexemes ≠ [] := by
  unfold lexemes
  split <;> simp

end Lexer

end Offside
