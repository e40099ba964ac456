import Mathlib.Data.List.Forall2
import Offside.Proofs.Token.Down

/-!
# Lines without content

Complete lines that hold a margin and perhaps a comment take no part in the tokens of a text. The
lexer passes them before it looks at the blocks that are open, so that their margins do not matter,
and wherever a lexer is at the start of a line, it reads on as if they were not there.

So two texts that differ in such lines only, at one place between two lines, have the same tokens;
those of the lines after this place stand further down in the text that has more of them.

## Main definitions

* `Offside.Location.downFrom`: a place some lines further down, from one line on.
* `Offside.Lexeme.DownFrom`: the same token, some lines further down from one line on.

## Main results

* `Offside.Token.BlankLines.exists_reads`: blank lines are passed on the way to the next content.
* `Offside.Lexer.Abreast.forall₂_downFrom`: the tokens of texts that differ in blank lines.
-/

namespace Offside

open Source Token

/-! ### Passing blank lines -/

namespace Token.BlankLines

variable {cs ds more : List Char}

theorem append (h : BlankLines cs) (k : BlankLines ds) : BlankLines (cs ++ ds) := by
  induction h with
  | nil => exact k
  | cons blank _ ih =>
    rw [List.append_assoc, List.cons_append]
    exact .cons blank ih

theorem getLast? (h : BlankLines cs) : cs = [] ∨ cs.getLast? = some '\n' := by
  induction h with
  | nil => exact .inl rfl
  | @cons line more _ _ ih =>
    right
    rcases ih with rfl | hlast
    · simp
    · rw [List.getLast?_append_of_ne_nil _ (List.cons_ne_nil _ _), List.getLast?_cons, hlast]
      rfl

theorem of_newline (h : BlankLines ('\n' :: cs)) : BlankLines cs := by
  generalize hall : '\n' :: cs = all at h
  cases h with
  | nil => cases hall
  | @cons line more blank later =>
    cases line with
    | nil =>
      cases hall
      exact later
    | cons c line =>
      obtain rfl := (List.cons.inj hall).1
      exact absurd List.mem_cons_self blank.line

/-- Blank lines lead from the start of a line to the start of a line. -/
theorem after (h : BlankLines cs) {place : Location} (start : place.column = 0) :
    place.after cs = ⟨place.line + cs.count '\n', 0⟩ := by
  rw [← Location.line_after]
  rcases h.getLast? with rfl | hlast
  · rw [← start]
    rfl
  · rw [← Location.column_after hlast]

/-- Blank lines are passed on the way to the next content. -/
theorem exists_reads (h : BlankLines cs) {s : Stream} (hs : s.LineWise)
    (hrem : s.remaining = cs ++ more) :
    ∃ t, s.Reads cs t ∧ firstContent s = firstContent t ∧
      ∀ (R : Stream → Stream → Prop) [Stream.Frame R], R s t := by
  induction h generalizing s with
  | nil => exact ⟨s, .refl hs, rfl, fun R _ => refl s⟩
  | @cons line later blank hlater ih =>
    have hmargin := Stream.reads_takeWhile Margin.isMarginChar hs
    have hsplit := List.takeWhile_append_dropWhile (p := Margin.isMarginChar) (l := line)
    obtain ⟨htake, hdrop⟩ := takeWhile_append_stop isMarginChar_newline line (later ++ more)
    have hline : '\n' ∉ line.dropWhile Margin.isMarginChar := fun hmem =>
      blank.line ((List.dropWhile_suffix _).subset hmem)
    rw [List.append_assoc, List.cons_append] at hrem
    have hmarginrem := Stream.remaining_takeWhile Margin.isMarginChar hs
    have hframe (R : Stream → Stream → Prop) [Stream.Frame R] :
        R s (s.takeWhile Margin.isMarginChar).2 := Stream.Frame.takeWhile _ s
    have hcontent := @firstContent_of_newline s
    have hcomment := @firstContent_of_comment s
    have hblank := blank.blank
    rw [hrem, htake] at hmargin
    rw [hrem, hdrop] at hmarginrem
    generalize (s.takeWhile Margin.isMarginChar).2 = u at *
    generalize line.takeWhile Margin.isMarginChar = run at *
    generalize line.dropWhile Margin.isMarginChar = body at *
    subst hsplit
    -- What is left of the line after the margin is its end, or a comment up to its end.
    obtain ⟨v, hread, hfirst, hkeeps⟩ : ∃ v, u.Reads (body ++ ['\n']) v ∧
        firstContent s = firstContent v ∧ ∀ (R : Stream → Stream → Prop) [Stream.Frame R], R u v := by
      cases body with
      | nil =>
        have hpeek : u.peek = some '\n' := by
          rw [Stream.peek_eq_head?, hmarginrem]
          rfl
        exact ⟨u.skip, Stream.reads_skip hmargin.lineWise hpeek, hcontent hpeek,
          fun R _ => Stream.Frame.skip u⟩
      | cons c body =>
        obtain rfl := hblank c rfl
        have hpeek : u.peek = some '#' := by
          rw [Stream.peek_eq_head?, hmarginrem]
          rfl
        refine ⟨(skipComment u).2, ?_, hcomment hpeek, fun R _ => frame_skipComment u⟩
        obtain ⟨htext, hend⟩ := takeWhile_append_of_line hline ('\n' :: (later ++ more))
        have hskip := reads_skipComment hmargin.lineWise
        rw [hmarginrem, htext, hend] at hskip
        rcases hskip with ⟨_, -, -, hskip⟩ | ⟨hnone, -⟩
        · simpa using hskip
        · simp at hnone
    have hall := hmargin.trans hread
    obtain ⟨t, ht, hsame, hframes⟩ := ih hread.lineWise
      (hall.rest (by rw [hrem, List.append_assoc, List.append_assoc, List.append_assoc]; rfl))
    refine ⟨t, ?_, hfirst.trans hsame, fun R _ =>
      trans_of R (hframe R) (trans_of R (hkeeps R) (hframes R))⟩
    have := hall.trans ht
    rwa [List.append_assoc, List.append_assoc, List.singleton_append, ← List.append_assoc] at this

end Token.BlankLines

/-! ### Lexers at the start of a line -/

namespace Lexer

variable {l l' m m' : Lexer} {text text' : List Char} {x x' : Lexeme}

/-- Where a margin is to be read the lexer is at the start of a line, or at the end of the input. -/
def StartsLine (l : Lexer) : Prop :=
  l.atLineStart = true → l.stream.location.column = 0 ∨ l.stream.remaining = []

theorem startsLine_inLine (hs : l.stream.LineWise)
    (ended : l.atLineStart = true → l.stream.remaining = []) : l.inLine.after.StartsLine := by
  have hgap := Stream.lineWise_takeWhile isGap hs
  have hrem := Stream.remaining_takeWhile isGap hs
  unfold inLine
  dsimp only
  generalize (l.stream.takeWhile isGap).2 = s at *
  have finish {t : Stream} {place : Location} (ht : t.remaining = []) :
      (finish { l with stream := t } place).after.StartsLine := fun _ => by
    rw [stream_finish]
    exact .inr ht
  cases hp : s.peek with
  | none => exact finish (Stream.peek_eq_none_iff.1 hp)
  | some c =>
    dsimp only
    split
    · next hn =>
      refine fun _ => .inl ?_
      show s.skip.location.column = 0
      rw [Stream.location_skip hgap hp, hn]
      rfl
    · split
      · rcases reads_skipComment hgap with ⟨_, -, hb, hread⟩ | ⟨hend, hb, hread⟩
        · rw [if_pos hb]
          refine fun _ => .inl ?_
          show (skipComment s).2.location.column = 0
          rw [hread.location]
          exact Location.column_after (by simp)
        · rw [if_neg (by simp [hb])]
          exact finish (hread.rest (by
            rw [List.append_nil]
            nth_rewrite 1 [← List.takeWhile_append_dropWhile (p := (· ≠ '\n')) (l := s.remaining)]
            rw [hend, List.append_nil]))
      · intro hstart
        rw [Stream.peek_eq_head?, hrem, ended hstart] at hp
        cases hp

theorem atLineStart_layout? {margin : Margin} (h : l.layout? margin = some x) :
    x.after.atLineStart = l.atLineStart := by
  unfold layout? at h
  dsimp only at h
  split at h
  · cases h
    rfl
  · split at h
    · cases h
      rfl
    · split at h
      · cases h
      · split at h <;> cases h <;> rfl

theorem StartsLine.read (h : l.StartsLine) (hs : l.stream.LineWise) : l.read.after.StartsLine := by
  obtain ⟨used, hcontent⟩ := reads_firstContent hs
  unfold Lexer.read
  split
  · exact h
  · split
    · unfold startLine
      dsimp only
      split
      · next hpeek =>
        refine startsLine_inLine (l := { l with stream := (firstContent l.stream).2 })
          hcontent.lineWise fun _ => ?_
        exact Stream.peek_eq_none_iff.1 (Option.isNone_iff_eq_none.1 hpeek)
      · cases hx : layout? { l with stream := (firstContent l.stream).2, atLineStart := false }
            (firstContent l.stream).1 with
        | none =>
          exact startsLine_inLine
            (l := { l with stream := (firstContent l.stream).2, atLineStart := false })
            hcontent.lineWise fun hstart => Bool.noConfusion hstart
        | some x =>
          intro hstart
          exact Bool.noConfusion ((atLineStart_layout? hx).symm.trans hstart)
    · next hstart => exact startsLine_inLine hs fun h => absurd h hstart

/-- At the start of a line a lexer reads what follows the blank lines. -/
theorem read_of_firstContent {t : Stream} (paid : l.owed = 0) (start : l.atLineStart = true)
    (h : firstContent l.stream = firstContent t) : l.read = { l with stream := t }.read := by
  simp [Lexer.read, startLine, paid, start, h]

/-- Lexers that read the same token next have the same tokens, but for the notes of the first. -/
theorem lexemes_of_read (h : l.read = m.read) :
    ∃ xs, l.lexemes = l.next :: xs ∧ m.lexemes = m.next :: xs := by
  have htoken : l.next.token = m.next.token := by rw [token_next, token_next, h]
  have hafter : l.next.after = m.next.after := by rw [after_next, after_next, h]
  by_cases hend : m.next.token.kind = .endOfInput
  · exact ⟨[], lexemes_eq_singleton (htoken ▸ hend), lexemes_eq_singleton hend⟩
  · exact ⟨m.next.after.lexemes, by rw [lexemes_eq_cons (htoken ▸ hend), hafter],
      lexemes_eq_cons hend⟩

/-- No token stands above the line that a lexer is on. -/
theorem line_le_anchor (h : l.Of text) (hx : x ∈ l.lexemes) :
    l.stream.location.line ≤ x.anchor.line := by
  obtain ⟨hstands, hof⟩ := stands_of_mem h hx
  by_cases hk : x.token.kind = .endOfLine
  · obtain ⟨used, hread, hlast⟩ := reads_of_endOfLine h.stream.lineWise hx hk
    obtain ⟨_, -, hanchor⟩ := hstands.anchor_of_lineEnd hof.stream hk
    have hcount := List.count_pos_iff.2 (List.mem_of_getLast? hlast)
    rw [hanchor, hread.location, Location.line_after]
    show _ ≤ _ - 1
    omega
  · obtain ⟨m, ⟨hm, hle⟩, -, hafter⟩ :=
      exists_read (I := fun m => m.Of text ∧ l.stream.location.line ≤ m.stream.location.line)
        ⟨h, Nat.le_refl _⟩ (fun m ⟨hm, hle⟩ =>
          have hread : Stream.ReadsIn text m.stream m.read.after.stream := frame_read m
          ⟨hm.read, Nat.le_trans hle (hread hm.stream).2.1⟩) hx
    have hread : Stream.ReadsIn text m.stream m.read.after.stream := frame_read m
    rw [Lexeme.anchor_of_ne hk, hstands.line hk, hafter]
    exact Nat.le_trans hle (hread hm.stream).2.1

end Lexer

/-! ### Tokens before and after -/

/-- The place `k` lines further down, if it is on line `b` or below. -/
def Location.downFrom (b k : Nat) (place : Location) : Location :=
  place.down (if place.line < b then 0 else k)

/-- The same token, `k` lines further down if it stands on line `b` or below. The end of a line stands
on the line that it ends. -/
def Lexeme.DownFrom (b k : Nat) (x x' : Lexeme) : Prop :=
  x.Down (if x.anchor.line < b then 0 else k) x'

variable {b k : Nat}

namespace Lexeme.DownFrom

variable {x x' y y' : Lexeme}

theorem beside (h : x.DownFrom b k x') : x.Beside (Location.downFrom b k) x' := by
  have hdown : x.Down (if x.anchor.line < b then 0 else k) x' := h
  refine ⟨hdown.kind, fun inside => ?_, hdown.anchor⟩
  rw [hdown.beside.location inside, Location.downFrom, ← Lexeme.anchor_of_ne inside]

/-- The notes of a token make no difference. -/
theorem congr (h : x.DownFrom b k x') (token : x.token = y.token) (after : x.after = y.after)
    (token' : x'.token = y'.token) (after' : x'.after = y'.after) : y.DownFrom b k y' := by
  cases x; cases x'; cases y; cases y'
  cases token; cases after; cases token'; cases after'
  exact ⟨h.token, h.anchor, h.width⟩

end Lexeme.DownFrom

namespace Lexer

variable {l l' m m' : Lexer} {text text' : List Char}

private theorem downFrom_of_read (h : l.read = m.read) (h' : l'.read = m'.read)
    (tokens : List.Forall₂ (Lexeme.DownFrom b k) m.lexemes m'.lexemes) :
    List.Forall₂ (Lexeme.DownFrom b k) l.lexemes l'.lexemes := by
  obtain ⟨xs, hl, hm⟩ := lexemes_of_read h
  obtain ⟨xs', hl', hm'⟩ := lexemes_of_read h'
  rw [hm, hm', List.forall₂_cons] at tokens
  rw [hl, hl']
  refine .cons (tokens.1.congr ?_ ?_ ?_ ?_) tokens.2
  · rw [token_next, token_next, h]
  · rw [after_next, after_next, h]
  · rw [token_next, token_next, h']
  · rw [after_next, after_next, h']

namespace Abreast

variable {blank blank' common more : List Char}

/-- Lexers at the start of the same line, before blank lines that lead to the same lines. -/
private theorem exists_past (h : l.Abreast 0 (blank ++ more) (blank' ++ more) common l')
    (hl : l.Of text) (hl' : l'.Of text') (paid : l.owed = 0) (start : l.atLineStart = true)
    (column : l.stream.location.column = 0) (hcommon : BlankLines common)
    (hblank : BlankLines blank) (hblank' : BlankLines blank')
    (hk : blank'.count '\n' = blank.count '\n' + k) :
    ∃ m m' : Lexer, m.Abreast k [] [] more m' ∧ m.Of text ∧ m'.Of text' ∧ l.read = m.read ∧
      l'.read = m'.read ∧
      l.stream.location.line + common.count '\n' ≤ m.stream.location.line := by
  have hall := hcommon.append hblank
  have hall' := hcommon.append hblank'
  have hrem : l.stream.remaining = (common ++ blank) ++ more := by
    rw [h.stream.remaining, List.append_assoc]
  have hrem' : l'.stream.remaining = (common ++ blank') ++ more := by
    rw [h.stream.remaining', List.append_assoc]
  have column' : l'.stream.location.column = 0 := by
    rw [h.stream.location]
    exact column
  obtain ⟨t, hread, hfirst, hframe⟩ := hall.exists_reads hl.stream.lineWise hrem
  obtain ⟨t', hread', hfirst', hframe'⟩ := hall'.exists_reads hl'.stream.lineWise hrem'
  have ht := hread.location.trans (hall.after column)
  have ht' := hread'.location.trans (hall'.after column')
  have hof : t.Of text := (hframe (Stream.ReadsIn text) hl.stream).1
  have hof' : t'.Of text' := (hframe' (Stream.ReadsIn text') hl'.stream).1
  have paid' : l'.owed = 0 := h.owed.trans paid
  refine ⟨{ l with stream := t }, { l' with stream := t' },
    ⟨⟨hread.lineWise, hread'.lineWise, hof.counted, hof'.counted, ?_, ?_, ?_⟩, h.blocks, h.owed,
      h.atLineStart⟩, ⟨hof, fun howed => ?_⟩, ⟨hof', fun howed => ?_⟩,
    read_of_firstContent paid start hfirst,
    read_of_firstContent paid' (h.atLineStart.trans start) hfirst', ?_⟩
  · rw [List.append_nil]
    exact hread.rest hrem
  · rw [List.append_nil]
    exact hread'.rest hrem'
  · rw [ht, ht', h.stream.location]
    simp only [Location.down, List.count_append, hk, Location.mk.injEq, and_true]
    omega
  · exact absurd howed (by simp [paid])
  · exact absurd howed (by simp [paid'])
  · rw [ht, List.count_append]
    dsimp only
    omega

/-- Where the common lines end does not change while they are read. -/
private theorem line_next {rest rest' common' : List Char} (h : l.Abreast 0 rest rest' common l')
    (hs : l.stream.LineWise) (hafter : l.next.after.Abreast 0 rest rest' common' l'.next.after) :
    l.next.after.stream.location.line + common'.count '\n' =
      l.stream.location.line + common.count '\n' := by
  obtain ⟨used, hread, -⟩ := reads_read hs
  rw [← after_next] at hread
  have hused : common = used ++ common' := by
    have hrem := hread.remaining
    rwa [h.stream.remaining, hafter.stream.remaining, ← List.append_assoc,
      List.append_cancel_right_eq] at hrem
  rw [hread.location, Location.line_after, hused, List.count_append, Nat.add_assoc]

/-- A token of the common lines stands above the line that follows them. -/
private theorem anchor_lt {rest rest' : List Char} (h : l.Abreast 0 rest rest' common l')
    (hl : l.Of text) (nonempty : rest' ≠ []) (within : ReadsWithin 0 rest rest' l.next l'.next) :
    l.next.anchor.line < l.stream.location.line + common.count '\n' := by
  obtain ⟨common', -, inside, -, hafter⟩ := within
  have hstands := stands_next hl
  rw [← h.line_next hl.stream.lineWise hafter]
  by_cases hk : l.next.token.kind = .endOfLine
  · obtain ⟨-, hpos⟩ := hstands.lineEnd hk
    obtain ⟨_, -, hanchor⟩ := hstands.anchor_of_lineEnd hl.next.stream hk
    rw [hanchor]
    show _ - 1 < _
    omega
  · have hlast := (inside hk).resolve_left fun hnil => nonempty hnil.2
    have hcount := List.count_pos_iff.2 (List.mem_of_getLast? hlast)
    rw [Lexeme.anchor_of_ne hk, hstands.line hk]
    omega

/-- Two texts that differ in the blank lines after the common lines have the same tokens, and those
after the blank lines stand further down. -/
theorem forall₂_downFrom (h : l.Abreast 0 (blank ++ more) (blank' ++ more) common l')
    (hl : l.Of text) (hl' : l'.Of text') (starts : l'.StartsLine)
    (left : Left (blank ++ more) (blank' ++ more) common)
    (inside : Whole (blank ++ more) (blank' ++ more) common ∨ l.owed = 0 ∧ l.atLineStart = true)
    (hblank : BlankLines blank) (hblank' : BlankLines blank') (inserted : blank' ≠ [])
    (hk : blank'.count '\n' = blank.count '\n' + k)
    (hb : l.stream.location.line + common.count '\n' = b) :
    List.Forall₂ (Lexeme.DownFrom b k) l.lexemes l'.lexemes := by
  have nonempty : blank' ++ more ≠ [] := by simp [inserted]
  induction hw : l.weight using Nat.strongRecOn generalizing l l' common with
  | _ w ih =>
    by_cases hpast : l.owed = 0 ∧ l.atLineStart = true ∧ BlankLines common
    · obtain ⟨paid, start, hcommon⟩ := hpast
      have column : l.stream.location.column = 0 := by
        have hcolumn := (starts (h.atLineStart.trans start)).resolve_right fun hend => by
          rw [h.stream.remaining', List.append_eq_nil_iff] at hend
          exact nonempty hend.2
        rwa [h.stream.location] at hcolumn
      obtain ⟨m, m', hm, hof, hof', hread, hread', hline⟩ :=
        h.exists_past hl hl' paid start column hcommon hblank hblank' hk
      have hbelow : ∀ x ∈ m.lexemes, b ≤ x.anchor.line := fun x hx =>
        Nat.le_trans (hb ▸ hline) (line_le_anchor hof hx)
      have hdown := hm.down_lexemes hof hof'
      refine downFrom_of_read hread hread' ?_
      refine ((List.forall₂_and_left m.lexemes m'.lexemes).2 ⟨hbelow, hdown⟩).imp ?_
      rintro x x' ⟨hx, hdown⟩
      rw [Lexeme.DownFrom, if_neg (Nat.not_lt.2 hx)]
      exact hdown
    · have within := (h.read_within left inside hpast).next
      have hdown := within.down hl hl'
      have hanchor := h.anchor_lt hl nonempty within
      have hfirst : l.next.DownFrom b k l'.next := by
        rw [Lexeme.DownFrom, if_pos (hb ▸ hanchor)]
        exact hdown
      obtain ⟨common', left', inside', -, hafter⟩ := within
      by_cases hend : l.next.token.kind = .endOfInput
      · rw [lexemes_eq_singleton hend, lexemes_eq_singleton (l := l') (hdown.kind ▸ hend)]
        exact .cons hfirst .nil
      · rw [lexemes_eq_cons hend, lexemes_eq_cons (l := l') (hdown.kind ▸ hend)]
        refine .cons hfirst (ih _ (hw ▸ weight_next_lt hend) hafter hl.next hl'.next ?_ left' ?_ ?_
          rfl)
        · rw [after_next]
          exact starts.read hl'.stream.lineWise
        · by_cases hk : l.next.token.kind = .endOfLine
          · right
            rw [after_next]
            exact start_of_lineEnd hl.stream.lineWise (token_next l ▸ hk)
          · exact .inl (inside' hk)
        · rw [h.line_next hl.stream.lineWise hafter, hb]

end Abreast

end Lexer

end Offside
