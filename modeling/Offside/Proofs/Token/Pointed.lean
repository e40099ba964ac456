import Offside.Proofs.Token.Abreast
import Offside.Proofs.Token.Complete

/-!
# Where tokens point

A token stands on the line that the stream is on after it, and something of that line has been
requested. The end of a line is placed on the line after it, of which nothing may have been requested;
but an error there points to the line that it ends. So an error at a token always points into a line
that is known in full, at that moment and at any later one.

## Main definitions

* `Offside.Lexer.Of`: a lexer of a given text.
* `Offside.Lexeme.Stands`: where a token stands.

## Main results

* `Offside.Lexer.stands_read`: where a token stands that is read.
* `Offside.Lexeme.Stands.anchor_of_lineEnd`: an error at the end of a line points just past it.
* `Offside.Lexer.pointsInto_of_before`: an error at a token points into the text ever after.
-/

namespace Offside

open Source Token

variable {text : List Char}

/-- The lexer reads `text`. As long as it owes dedents, the line after them has been requested. -/
structure Lexer.Of (text : List Char) (l : Lexer) : Prop where
  stream : l.stream.Of text
  owed : 0 < l.owed → l.stream.Requested

theorem Lexer.of_ofInput (input : Input) : (Lexer.ofInput input).Of (normalise input.text) :=
  ⟨Stream.of_ofInput input, fun h => absurd h (Nat.lt_irrefl 0)⟩

/-- Where a token stands, as seen from the stream after it. -/
structure Lexeme.Stands (x : Lexeme) : Prop where
  requested (inside : x.token.kind ≠ .endOfLine) : x.after.stream.Requested
  line (inside : x.token.kind ≠ .endOfLine) :
    x.token.location.line = x.after.stream.location.line
  column : 1 ≤ x.token.location.column ∧
    x.token.location.column ≤ x.after.stream.location.column + 1
  lineEnd (ends : x.token.kind = .endOfLine) :
    x.token.location = x.after.stream.location.following ∧ 2 ≤ x.after.stream.location.line
  owed : 0 < x.after.owed → x.after.stream.Requested

namespace Lexer

variable {l : Lexer}

/-! ### Reading a token -/

theorem stands_finish {place : Location} (requested : l.stream.Requested)
    (line : place.line = l.stream.location.line)
    (column : 1 ≤ place.column ∧ place.column ≤ l.stream.location.column + 1) :
    (l.finish place).Stands := by
  rw [finish]
  split
  · exact ⟨fun _ => requested, fun _ => line, column, fun ends => (by cases ends),
      fun _ => requested⟩
  · exact ⟨fun _ => requested, fun _ => line, column, fun ends => (by cases ends),
      fun _ => requested⟩

theorem stands_endLine {s : Stream} (paid : l.owed = 0) (line : 2 ≤ s.location.line) :
    (endLine { l with stream := s }).Stands :=
  ⟨fun inside => absurd rfl inside, fun inside => absurd rfl inside,
    ⟨Nat.le_add_left 1 _, Nat.le_refl _⟩, fun _ => ⟨rfl, line⟩,
    fun owed => absurd owed (by simp [endLine, paid])⟩

theorem stands_inLine (h : l.stream.Of text) (paid : l.owed = 0) : l.inLine.Stands := by
  have hgap : Stream.ReadsIn text l.stream (l.stream.takeWhile isGap).2 :=
    Stream.Frame.takeWhile isGap _
  have hfill := Stream.fill_takeWhile isGap h.lineWise
  unfold inLine
  dsimp only
  generalize (l.stream.takeWhile isGap).2 = s at *
  have hs : s.Of text := (hgap h).1
  have hrequested : s.Requested := Stream.requested_of_fill hfill
  have hpos : 1 ≤ s.location.line := by
    rw [hs.counted]
    exact Nat.le_add_left 1 _
  -- Up to a line feed the stream stays on its line, of which something has been requested.
  have onLine {t : Stream} {used : List Char} (hread : s.Reads used t) (hused : '\n' ∉ used)
      (hin : Stream.ReadsIn text s t) :
      t.Requested ∧ s.location.following.line = t.location.line ∧
        s.location.following.column ≤ t.location.column + 1 := by
    have hloc := hread.location
    rw [Location.after_of_line hused] at hloc
    refine ⟨(hin hs).2.2 (by rw [hloc]) hrequested, by rw [hloc]; rfl, ?_⟩
    rw [hloc]
    exact Nat.succ_le_succ (Nat.le_add_right _ _)
  have pastLine {t : Stream} {used : List Char} (hread : s.Reads (used ++ ['\n']) t) :
      2 ≤ t.location.line := by
    rw [hread.location, Location.after_append]
    exact Nat.succ_le_succ (Nat.le_trans hpos (Location.line_le_after _ used))
  split
  · exact stands_finish (l := { l with stream := s }) hrequested rfl
      ⟨Nat.le_add_left 1 _, Nat.le_refl _⟩
  · next c hp =>
    split
    · next hc =>
      subst hc
      have hread : s.Reads ([] ++ ['\n']) s.skip := Stream.reads_skip hs.lineWise hp
      exact stands_endLine paid (pastLine hread)
    · next hc =>
      split
      · rcases reads_skipComment hs.lineWise with ⟨_, -, hb, hread⟩ | ⟨-, hb, hread⟩
        · rw [hb, if_pos rfl]
          exact stands_endLine paid (pastLine hread)
        · rw [hb, if_neg Bool.false_ne_true]
          obtain ⟨hr, hline, hcolumn⟩ := onLine hread
            (not_mem_takeWhile (p := (· ≠ '\n')) (by decide) _) (frame_skipComment s)
          exact stands_finish (l := { l with stream := (skipComment s).2 }) hr hline
            ⟨Nat.le_add_left 1 _, hcolumn⟩
      · have hagree := agrees_scan hs.lineWise hfill hp hc
        obtain ⟨used, hused, hread⟩ := hagree.reads
        obtain ⟨hr, hline, hcolumn⟩ := onLine hread hused (frame_scan s c)
        refine ⟨fun _ => hr, fun _ => hline, ⟨Nat.le_add_left 1 _, hcolumn⟩, fun ends => ?_,
          fun _ => hr⟩
        exact absurd (hagree.kind.symm.trans ends) (tokenOf_ne_end _ _).1

theorem fill_firstContent {s : Stream} (hs : s.LineWise) :
    (firstContent s).2.fill = (firstContent s).2 := by
  fun_induction firstContent s with
  | case1 s line hp => exact Stream.fill_takeWhile _ hs
  | case2 s line hp ih => exact ih (Stream.lineWise_skip (Stream.lineWise_takeWhile _ hs))
  | case3 s line hp _ ih =>
    refine ih ?_
    rcases reads_skipComment (Stream.lineWise_takeWhile Margin.isMarginChar hs) with
      ⟨_, -, -, hread⟩ | ⟨-, -, hread⟩
    · exact hread.lineWise
    · exact hread.lineWise
  | case4 s line c hp => exact Stream.fill_takeWhile _ hs

/-- Where a token stands that is read. -/
theorem stands_read (h : l.Of text) : l.read.Stands := by
  have hcontent : Stream.ReadsIn text l.stream (firstContent l.stream).2 := frame_firstContent _
  have hof := (hcontent h.stream).1
  have hrequested := Stream.requested_of_fill (fill_firstContent h.stream.lineWise)
  have hread := readCases_read l
  generalize l.read = x at *
  cases hread with
  | dedent howed =>
    exact ⟨fun _ => h.owed howed, fun _ => rfl, ⟨Nat.le_add_left 1 _, Nat.le_refl _⟩,
      fun ends => (by cases ends), fun _ => h.owed howed⟩
  | within paid => exact stands_inLine h.stream paid
  | first paid stream => exact stands_inLine (stream ▸ hof) paid
  | layout stream location kind =>
    rw [← stream] at hrequested
    refine ⟨fun _ => hrequested, fun _ => ?_, ?_,
      fun ends => absurd ends (Kind.ne_endOfLine_of_isLayout kind), fun _ => hrequested⟩
    · rw [location]
      rfl
    · rw [location]
      exact ⟨Nat.le_add_left 1 _, Nat.le_refl _⟩

theorem Of.read (h : l.Of text) : l.read.after.Of text := by
  have hread : Stream.ReadsIn text l.stream l.read.after.stream := frame_read l
  exact ⟨(hread h.stream).1, (stands_read h).owed⟩

end Lexer

/-! ### Errors at tokens -/

namespace Lexeme.Stands

variable {x : Lexeme} (h : x.Stands) (hx : x.after.stream.Of text)
include h hx

/-- An error at the end of a line points just past the last character of the line that it ends. -/
theorem anchor_of_lineEnd (ends : x.token.kind = .endOfLine) :
    ∃ line, (text.splitOn '\n')[x.after.stream.location.line - 2]? = some line ∧
      x.anchor = ⟨x.after.stream.location.line - 1, line.length + 1⟩ := by
  obtain ⟨hplace, hline⟩ := h.lineEnd ends
  obtain ⟨htext, hsome⟩ := hx.lineText (n := x.after.stream.location.line - 1) (by omega)
    (.inl (by omega))
  obtain ⟨line, hknown⟩ := Option.isSome_iff_exists.1 hsome
  refine ⟨line, by rw [← htext.symm.trans hknown]; rfl, ?_⟩
  rw [Lexeme.anchor, Offside.anchor, hplace, if_pos ⟨ends, hline⟩]
  dsimp only [Location.following]
  rw [hknown]

/-- An error at a token points to a place of the text, on a line that is known in full. -/
theorem within_anchor :
    x.anchor.Within text ∧ x.after.stream.Covers x.anchor.line := by
  by_cases ends : x.token.kind = .endOfLine
  · obtain ⟨-, hline⟩ := h.lineEnd ends
    obtain ⟨line, htext, hanchor⟩ := h.anchor_of_lineEnd hx ends
    rw [hanchor]
    refine ⟨⟨Nat.le_sub_one_of_lt hline, Nat.le_add_left 1 _, line, htext, Nat.le_refl _⟩, .inl ?_⟩
    exact Nat.sub_one_lt (by omega)
  · obtain ⟨line, htext, hlength⟩ := hx.exists_line
    have hcolumn := h.column
    rw [Lexeme.anchor_of_ne ends]
    refine ⟨⟨?_, hcolumn.1, line, by rw [h.line ends, htext], by omega⟩,
      .inr ⟨h.line ends, h.requested ends⟩⟩
    rw [h.line ends, hx.counted]
    exact Nat.le_add_left 1 _

end Lexeme.Stands

namespace Lexer

variable {l : Lexer} {before after : List Lexeme} {y z : Lexeme}

theorem stands_of_mem (h : l.Of text) (hy : y ∈ l.lexemes) : y.Stands ∧ y.after.Of text := by
  obtain ⟨m, hm, htoken, hafter⟩ := exists_read (I := Lexer.Of text) h (fun _ => Of.read) hy
  have hread := stands_read hm
  refine ⟨⟨?_, ?_, ?_, ?_, ?_⟩, hafter ▸ hm.read⟩
  all_goals rw [hafter]
  · rw [htoken]
    exact hread.requested
  · rw [htoken]
    exact hread.line
  · rw [htoken]
    exact hread.column
  · rw [htoken]
    exact hread.lineEnd
  · exact hread.owed

/-- An error at a token points into the text as it is known after that token, and also as it is known
after any later one. -/
theorem pointsInto_of_before (h : l.Of text) (hcut : l.lexemes = before ++ y :: after)
    (hz : z ∈ y :: after) : y.anchor.PointsInto text z.after.stream := by
  have hy : y ∈ l.lexemes := by simp [hcut]
  obtain ⟨hstands, hof⟩ := stands_of_mem h hy
  obtain ⟨hwithin, hcovers⟩ := hstands.within_anchor hof.stream
  rcases List.mem_cons.1 hz with rfl | hz
  · exact hwithin.pointsInto hof.stream hcovers
  · have hmore : y.token.kind ≠ .endOfInput := fun hend => by
      rw [nil_of_endOfInput hcut hend] at hz
      exact absurd hz List.not_mem_nil
    rw [lexemes_after_append hcut hmore] at hz
    obtain ⟨m, ⟨hm, hknown⟩, -, hafter⟩ :=
      exists_read (I := fun m => m.Of text ∧ m.stream.Covers y.anchor.line) ⟨hof, hcovers⟩
        (fun m hm => ⟨hm.1.read, hm.2.mono hm.1.stream (frame_read m)⟩) hz
    rw [hafter]
    exact hwithin.pointsInto hm.read.stream (hknown.mono hm.stream (frame_read m))

end Lexer

end Offside
