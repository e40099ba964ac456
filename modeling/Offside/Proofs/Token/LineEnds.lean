import Offside.Proofs.Token.Inserted
import Offside.Proofs.Token.Layout

/-!
# The line ends of a text

A text that is written line by line has one line end among its tokens for each line with content,
and none for the other lines: these are passed together with the margin of the next line.

## Main definitions

* `Offside.Source.ofLines`: a text of complete lines.
* `Offside.ContentLine.HasContent`: lines that take part in the tokens.
* `Offside.ContentLine.lineEnd`: the token at the end of a line.

## Main results

* `Offside.Lexer.lineEnds_tokens`: the line ends among the tokens.
* `Offside.ContentLine.countP_ofText`, `Offside.ContentLine.pairwise_ofText`: how many lines with
  content there are, and that they are listed in order.
* `Offside.Lexer.line_lt_of_lineEnd`: a line end that is still to be read is further down.
-/

namespace Offside

open Source Token

/-! ### Texts of complete lines -/

namespace Source

/-- The text of the given lines, each of them ended. -/
def ofLines (lines : List (List Char)) : List Char := lines.flatMap (· ++ ['\n'])

theorem ofLines_cons (line : List Char) (lines : List (List Char)) :
    ofLines (line :: lines) = line ++ '\n' :: ofLines lines := by
  rw [ofLines, List.flatMap_cons, List.append_assoc]
  rfl

theorem getLast?_ofLines (lines : List (List Char)) : ∀ c ∈ (ofLines lines).getLast?, c = '\n' := by
  induction lines with
  | nil => simp [ofLines]
  | cons line lines ih =>
    intro c hc
    rw [ofLines_cons, List.getLast?_append_of_ne_nil _ (List.cons_ne_nil _ _),
      List.getLast?_cons] at hc
    cases hlast : (ofLines lines).getLast? with
    | none => simpa [hlast] using hc.symm
    | some d =>
      rw [hlast] at hc
      obtain rfl : d = c := by simpa using hc
      exact ih d hlast

end Source

namespace ContentLine

/-- A line with something other than its margin and a comment. -/
def HasContent (line : List Char) : Bool :=
  (line.dropWhile Margin.isMarginChar).head?.any (· ≠ '#')

/-- The token at the end of a line. It is placed at the start of the next one. -/
def lineEnd (line : ContentLine) : Token := ⟨.endOfLine, ⟨line.number + 1, 1⟩⟩

variable {n : ℕ} {lines : List (List Char)} (whole : ∀ line ∈ lines, '\n' ∉ line)
include whole

/-- The content lines of a text of complete lines, the first of which has the number `n`. -/
theorem ofText_ofLines : ofText n (ofLines lines) =
    (lines.zipIdx n).filterMap fun entry => ofLine? entry.2 entry.1 := by
  induction lines generalizing n with
  | nil => rfl
  | cons line lines ih =>
    have hline : '\n' ∉ line := whole line List.mem_cons_self
    have htake : (line ++ '\n' :: ofLines lines).takeWhile (· ≠ '\n') = line := by
      rw [(takeWhile_append_of_line hline _).1]
      simp
    rw [ofLines_cons, ofText_eq, htake, later_append hline, later_newline,
      ih fun l hl => whole l (List.mem_cons_of_mem _ hl), List.zipIdx_cons, List.filterMap_cons]
    cases ofLine? n line <;> rfl

omit whole in
private theorem le_number {line : ContentLine}
    (h : line ∈ (lines.zipIdx n).filterMap fun entry => ofLine? entry.2 entry.1) :
    n ≤ line.number := by
  obtain ⟨entry, hentry, hline⟩ := List.mem_filterMap.1 h
  rw [ofLine?] at hline
  split at hline
  · cases hline
    exact List.le_snd_of_mem_zipIdx hentry
  · cases hline

/-- How many of the first `k` lines have content. -/
theorem countP_ofText (k : ℕ) : (ofText n (ofLines lines)).countP (·.number < n + k) =
    (lines.take k).countP HasContent := by
  rw [ofText_ofLines whole]
  clear whole
  induction lines generalizing n k with
  | nil => simp
  | cons line lines ih =>
    cases k with
    | zero =>
      rw [List.take_zero, List.countP_nil, List.countP_eq_zero]
      intro line hline
      have := le_number hline
      simp only [decide_eq_true_eq]
      omega
    | succ k =>
      have hrest := ih (n := n + 1) k
      rw [show n + 1 + k = n + (k + 1) by omega] at hrest
      rw [List.take_succ_cons, List.zipIdx_cons, List.filterMap_cons, List.countP_cons, ← hrest,
        ofLine?, ← HasContent]
      cases HasContent line <;> simp

theorem length_ofText : (ofText n (ofLines lines)).length = lines.countP HasContent := by
  rw [ofText_ofLines whole]
  clear whole
  induction lines generalizing n with
  | nil => rfl
  | cons line lines ih =>
    rw [List.zipIdx_cons, List.filterMap_cons, List.countP_cons, ← ih (n := n + 1), ofLine?,
      ← HasContent]
    cases HasContent line <;> simp

/-- The lines are listed in order. -/
theorem pairwise_ofText : (ofText n (ofLines lines)).Pairwise (·.number < ·.number) := by
  rw [ofText_ofLines whole]
  clear whole
  induction lines generalizing n with
  | nil => exact List.Pairwise.nil
  | cons line lines ih =>
    rw [List.zipIdx_cons, List.filterMap_cons, ofLine?]
    cases (line.dropWhile Margin.isMarginChar).head?.any (· ≠ '#') with
    | false => exact ih
    | true => exact List.pairwise_cons.2 ⟨fun later hlater => le_number hlater, ih⟩

end ContentLine

/-! ### What is left ends with a line end -/

namespace Source.Stream

/-- What is left of the text, if anything, ends with a line end. -/
def Ended (s : Stream) : Prop := ∀ c ∈ s.remaining.getLast?, c = '\n'

/-- Reading leaves the end of the text as it is. -/
def KeepsEnded (s t : Stream) : Prop := s.LineWise ∧ s.Ended → t.LineWise ∧ t.Ended

theorem Reads.ended {s t : Stream} {used : List Char} (h : s.Reads used t) (ended : s.Ended) :
    t.Ended := by
  intro c hc
  refine ended c ?_
  rw [h.remaining, List.getLast?_append, hc]
  rfl

instance : Frame KeepsEnded where
  refl _ h := h
  trans _ _ _ h k hs := k (h hs)
  fill _ h := ⟨lineWise_fill h.1, (reads_fill h.1).ended h.2⟩
  skip s h := by
    refine ⟨lineWise_skip h.1, ?_⟩
    cases hp : s.peek with
    | none => exact (reads_skip_of_none h.1 hp).ended h.2
    | some c => exact (reads_skip h.1 hp).ended h.2

end Source.Stream

namespace Lexer

/-- The layout of a line holds no line end. -/
theorem filter_layout (before : List ContentLine) (line : ContentLine) :
    (line.layout before).filter (·.kind = .endOfLine) = [] := by
  refine List.filter_eq_nil_iff.2 fun t ht => ?_
  simpa using Kind.ne_endOfLine_of_isLayout (ContentLine.mem_layout ht).1

/-- From the start of a line there is one line end for each line with content, if the last of them
is ended. -/
theorem lineEnds_tokens {before : List ContentLine} {l : Lexer} (h : AtStart before l)
    (ended : l.stream.Ended) :
    l.tokens.filter (·.kind = .endOfLine) = l.contentLines.map ContentLine.lineEnd := by
  induction hn : l.stream.remaining.length using Nat.strongRecOn generalizing before l with
  | _ n ih =>
    have hkeeps : l.stream.KeepsEnded (firstContent l.stream).2 := frame_firstContent l.stream
    have hcontent := (hkeeps ⟨h.lineWise, ended⟩).2
    cases h.firstLine with
    | none lines closing =>
      rw [lines, List.map_nil, List.filter_eq_nil_iff]
      intro t ht
      rw [decide_eq_true_eq]
      rcases kind_of_closing closing t ht with hkind | hkind <;> rw [hkind] <;>
        exact Kind.noConfusion
    | line line words m next lines shorter holds reads tokens =>
      obtain ⟨_, hreads⟩ := reads
      have hwords : words.filter (·.kind = .endOfLine) = [] :=
        List.filter_eq_nil_iff.2 fun t ht => by simpa using (holds.isWord t ht).noEnd.1
      rw [tokens, lines, List.filter_append, List.filter_append, filter_layout, List.filter_append,
        hwords, ih _ (hn ▸ shorter) next (hreads.ended hcontent) rfl]
      rfl
    | last line words ends lines _ unended =>
      -- The line has no end, although all that is left ends with one.
      obtain ⟨hne, hnone⟩ := unended
      have hlast := List.getLast?_eq_some_getLast hne
      have := hcontent _ hlast
      exact absurd (this ▸ List.getLast_mem hne) hnone

/-- The line ends of a text of complete lines. -/
theorem lineEnds_ofInput {input : Input} {lines : List (List Char)}
    (text : normalise input.text = ofLines lines) :
    (ofInput input).tokens.filter (·.kind = .endOfLine) =
      (ContentLine.ofText 1 (ofLines lines)).map ContentLine.lineEnd := by
  have hstart : AtStart [] (ofInput input) :=
    ⟨Stream.lineWise_ofInput input, rfl, rfl, .inl rfl, .nil⟩
  rw [← text]
  exact lineEnds_tokens hstart fun c hc => getLast?_ofLines lines c (text ▸ hc)

/-! ### Lines in order -/

variable {text : List Char} {l : Lexer} {x : Lexeme}

/-- A line end that is still to be read is placed below the line that the lexer is on. -/
theorem line_lt_of_lineEnd (h : l.Of text) (hx : x ∈ l.lexemes) (ends : x.token.kind = .endOfLine) :
    l.stream.location.line < x.token.location.line := by
  obtain ⟨hstands, hof⟩ := stands_of_mem h hx
  obtain ⟨hplace, hline⟩ := hstands.lineEnd ends
  obtain ⟨_, -, hanchor⟩ := hstands.anchor_of_lineEnd hof.stream ends
  have hle := line_le_anchor h hx
  rw [hanchor] at hle
  rw [hplace]
  show _ < x.after.stream.location.line
  dsimp only at hle
  omega

/-- The end of the line that the lexer is on comes before all others. -/
theorem ne_lineEnd_of_before {before after : List Lexeme} (h : l.Of text)
    (rest : l.lexemes = before ++ x :: after) (ends : x.token.kind = .endOfLine)
    (line : x.token.location.line = l.stream.location.line + 1) :
    ∀ z ∈ before, z.token.kind ≠ .endOfLine := by
  intro z hz hends
  obtain ⟨before', after', rfl⟩ := List.append_of_mem hz
  rw [List.append_assoc, List.cons_append] at rest
  have hmem : z ∈ l.lexemes := by rw [rest]; simp
  obtain ⟨hstands, hof⟩ := stands_of_mem h hmem
  have hlater := lexemes_after_append rest (by rw [hends]; exact Kind.noConfusion)
  -- The line end `z` would stand below the line of the lexer, and `x` below `z`.
  have hz := line_lt_of_lineEnd h hmem hends
  have hx := line_lt_of_lineEnd hof (show x ∈ _ by rw [← hlater]; simp) ends
  have hplace := congrArg Location.line (hstands.lineEnd hends).1
  dsimp only [Location.following] at hplace
  omega

end Lexer

end Offside
