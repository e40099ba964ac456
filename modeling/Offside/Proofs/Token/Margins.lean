import Mathlib.Data.Finset.Image
import Mathlib.Data.Finset.Card
import Offside.Token.Scan

/-!
# Margins read without a stack

Which blocks a line opens and closes is said here by its margin and those of the lines before it
alone: a block is open as long as no line after the one that opened it is narrower. The lexer keeps
a stack of open blocks instead, and the two agree.

## Main definitions

* `Offside.Margins.enclosing`: the widths of the open blocks after a run of lines.
* `Offside.Margins.Refused`: a width that closes a block without returning to an open one.
* `Offside.Margins.sinceRefusal`: the widths after the last refused one.
* `Offside.Margins.layout`: the layout of the next line.
* `Offside.Margins.Stacked`: a stack that holds the enclosing widths.

## Main results

* `Offside.Margins.mem_enclosing_append`: what one more line does to the open blocks.
* `Offside.Margins.Stacked.push`, `Offside.Margins.Stacked.pop`: what it does to the stack.
* `Offside.Margins.Stacked.layout_push`, `Offside.Margins.Stacked.layout_pop`,
  `Offside.Margins.Stacked.layout_refused`: the layout of a line, as the stack tells it.
-/

namespace Offside.Margins

open Token

/-! ### The reading of widths -/

/-- The widths of the open blocks after lines of the widths `run`: the positive widths of lines
after which no line is narrower. -/
def enclosing (run : List ℕ) : Finset ℕ :=
  ((Finset.range run.length).filter fun j =>
    0 < run.getD j 0 ∧ ∀ k < run.length, j ≤ k → run.getD j 0 ≤ run.getD k 0).image
      (run.getD · 0)

/-- A width that is below the widest open block, not zero, and not that of an open block. -/
def Refused (run : List ℕ) (w : ℕ) : Prop :=
  (∃ p ∈ enclosing run, w < p) ∧ w ≠ 0 ∧ w ∉ enclosing run

instance (run : List ℕ) (w : ℕ) : Decidable (Refused run w) :=
  inferInstanceAs (Decidable ((∃ p ∈ enclosing run, w < p) ∧ w ≠ 0 ∧ w ∉ enclosing run))

/-- The widths since the last refused one, after one more line. -/
def extend (run : List ℕ) (w : ℕ) : List ℕ := if Refused run w then [] else run ++ [w]

/-- The widths after the last refused one. -/
def sinceRefusal (widths : List ℕ) : List ℕ := widths.foldl extend []

/-- A positive width that exceeds those of all open blocks. -/
def Opens (run : List ℕ) (w : ℕ) : Prop := 0 < w ∧ ∀ p ∈ enclosing run, p < w

instance (run : List ℕ) (w : ℕ) : Decidable (Opens run w) :=
  inferInstanceAs (Decidable (0 < w ∧ ∀ p ∈ enclosing run, p < w))

/-- The open blocks that a line of width `w` closes. -/
def closed (run : List ℕ) (w : ℕ) : Finset ℕ := (enclosing run).filter (w < ·)

/-- The layout at the start of a line of width `w` after lines of the widths `run`. -/
def layout (run : List ℕ) (w : ℕ) : List Kind :=
  if Refused run w then [.invalid .unmatchedDedent]
  else (if Opens run w then [.indent] else []) ++ List.replicate (closed run w).card .dedent

/-- The number of blocks that are open after lines of the given widths. -/
def openBlocks (widths : List ℕ) : ℕ := (enclosing (sinceRefusal widths)).card

theorem mem_enclosing {run : List ℕ} {p : ℕ} :
    p ∈ enclosing run ↔
      ∃ j < run.length, run.getD j 0 = p ∧ 0 < p ∧
        ∀ k, j ≤ k → k < run.length → p ≤ run.getD k 0 := by
  simp only [enclosing, Finset.mem_image, Finset.mem_filter, Finset.mem_range]
  constructor
  · rintro ⟨j, ⟨hj, hpos, hle⟩, rfl⟩
    exact ⟨j, hj, rfl, hpos, fun k hjk hk => hle k hk hjk⟩
  · rintro ⟨j, hj, rfl, hpos, hle⟩
    exact ⟨j, ⟨hj, hpos, fun k hk hjk => hle k hjk hk⟩, rfl⟩

theorem pos_of_mem_enclosing {run : List ℕ} {p : ℕ} (h : p ∈ enclosing run) : 0 < p := by
  obtain ⟨-, -, -, hpos, -⟩ := mem_enclosing.1 h
  exact hpos

@[simp] theorem enclosing_nil : enclosing [] = ∅ := rfl

/-- One more line keeps the blocks that are not wider than it, and opens its own. -/
theorem mem_enclosing_append {run : List ℕ} {w p : ℕ} :
    p ∈ enclosing (run ++ [w]) ↔ p ∈ enclosing run ∧ p ≤ w ∨ p = w ∧ 0 < w := by
  have hlast : (run ++ [w]).getD run.length 0 = w := by simp
  have hold {j : ℕ} (hj : j < run.length) : (run ++ [w]).getD j 0 = run.getD j 0 := by
    rw [List.getD, List.getD, List.getElem?_append_left hj]
  rw [mem_enclosing, mem_enclosing, List.length_append, List.length_singleton]
  constructor
  · rintro ⟨j, hj, hp, hpos, hle⟩
    by_cases hjr : j < run.length
    · rw [hold hjr] at hp
      refine .inl ⟨⟨j, hjr, hp, hpos, fun k hjk hk => ?_⟩, ?_⟩
      · rw [← hold hk]
        exact hle k hjk (by omega)
      · rw [← hlast]
        exact hle run.length (by omega) (by omega)
    · obtain rfl : j = run.length := by omega
      rw [hlast] at hp
      exact .inr ⟨hp.symm, hp ▸ hpos⟩
  · rintro (⟨⟨j, hj, hp, hpos, hle⟩, hpw⟩ | ⟨rfl, hw⟩)
    · refine ⟨j, by omega, by rw [hold hj, hp], hpos, fun k hjk hk => ?_⟩
      by_cases hkr : k < run.length
      · rw [hold hkr]
        exact hle k hjk hkr
      · obtain rfl : k = run.length := by omega
        rwa [hlast]
    · refine ⟨run.length, by omega, hlast, hw, fun k hjk hk => ?_⟩
      obtain rfl : k = run.length := by omega
      exact hlast.ge

/-- Closing two blocks at once, and a refused width after which everything starts over. -/
example : layout [2, 4, 6] 2 = [.dedent, .dedent] ∧
    layout [2, 4] 3 = [.invalid .unmatchedDedent] ∧ sinceRefusal [2, 4, 3] = [] := by decide

/-! ### The stack of open blocks -/

/-- The stack `blocks`, innermost first, holds the enclosing widths of `run`. -/
structure Stacked (blocks run : List ℕ) : Prop where
  sorted : blocks.Pairwise (· > ·)
  mem : ∀ p, p ∈ blocks ↔ p ∈ enclosing run

theorem Stacked.nil : Stacked [] [] := ⟨.nil, by simp⟩

/-- In a decreasing list the elements above a bound come first. -/
theorem dropWhile_eq_filter {blocks : List ℕ} (h : blocks.Pairwise (· > ·)) (w : ℕ) :
    blocks.dropWhile (w < ·) = blocks.filter (· ≤ w) := by
  induction blocks with
  | nil => rfl
  | cons b blocks ih =>
    obtain ⟨hb, hblocks⟩ := List.pairwise_cons.1 h
    by_cases hw : w < b
    · rw [List.dropWhile_cons_of_pos (by simpa using hw), ih hblocks,
        List.filter_cons_of_neg (by simpa using hw)]
    · have hall : ∀ p ∈ b :: blocks, decide (p ≤ w) = true := by
        intro p hp
        rcases List.mem_cons.1 hp with rfl | hp
        · simpa using hw
        · have := hb p hp
          simp only [decide_eq_true_eq]
          omega
      rw [List.dropWhile_cons_of_neg (by simpa using hw), List.filter_eq_self.2 hall]

/-- A width below the innermost block closes that block at least. -/
theorem length_dropWhile_lt {blocks : List ℕ} {w : ℕ} (h : w < blocks.headD 0) :
    (blocks.dropWhile (w < ·)).length < blocks.length := by
  cases blocks with
  | nil => simp at h
  | cons b blocks =>
    rw [List.dropWhile_cons_of_pos (by simpa using h), List.length_cons]
    exact Nat.lt_succ_of_le (List.dropWhile_sublist _).length_le

section

variable {blocks run : List ℕ} (h : Stacked blocks run)
include h

theorem Stacked.pos {p : ℕ} (hp : p ∈ blocks) : 0 < p := pos_of_mem_enclosing ((h.mem p).1 hp)

/-- The innermost block is the widest one. -/
theorem Stacked.le_head {p : ℕ} (hp : p ∈ enclosing run) : p ≤ blocks.headD 0 := by
  rw [← h.mem] at hp
  cases blocks with
  | nil => simp at hp
  | cons b blocks =>
    rcases List.mem_cons.1 hp with rfl | hp
    · exact le_rfl
    · exact ((List.pairwise_cons.1 h.sorted).1 p hp).le

/-- The margin of the innermost block is that of an open block, or zero. -/
theorem Stacked.head_mem (hpos : 0 < blocks.headD 0) : blocks.headD 0 ∈ enclosing run := by
  rw [← h.mem]
  cases blocks with
  | nil => simp at hpos
  | cons b blocks => exact List.mem_cons_self

theorem Stacked.card_closed (w : ℕ) :
    (closed run w).card = blocks.length - (blocks.dropWhile (w < ·)).length := by
  have hset : closed run w = (blocks.filter (w < ·)).toFinset := by
    ext p
    rw [closed, Finset.mem_filter, ← h.mem, List.mem_toFinset, List.mem_filter, decide_eq_true_eq]
  have hnodup : (blocks.filter (w < ·)).Nodup :=
    (h.sorted.imp fun hab => Nat.ne_of_gt hab).filter _
  have hlen : (blocks.filter (w < ·)).length + (blocks.filter (· ≤ w)).length = blocks.length := by
    have hneg : (fun p => !decide (w < p)) = fun p => decide (p ≤ w) := by
      ext p
      simp [← decide_not]
    rw [← hneg]
    exact (List.length_eq_length_filter_add _).symm
  rw [hset, List.toFinset_card_of_nodup hnodup, dropWhile_eq_filter h.sorted]
  omega

theorem Stacked.card_enclosing : (enclosing run).card = blocks.length := by
  have hset : enclosing run = blocks.toFinset := by
    ext p
    rw [← h.mem, List.mem_toFinset]
  rw [hset, List.toFinset_card_of_nodup (h.sorted.imp fun hab => Nat.ne_of_gt hab)]

/-- A wider line goes on top of the stack. -/
theorem Stacked.push {w : ℕ} (hw : blocks.headD 0 < w) : Stacked (w :: blocks) (run ++ [w]) where
  sorted := by
    refine List.pairwise_cons.2 ⟨fun p hp => ?_, h.sorted⟩
    exact (h.le_head ((h.mem p).1 hp)).trans_lt hw
  mem p := by
    rw [List.mem_cons, mem_enclosing_append, h.mem]
    constructor
    · rintro (rfl | hp)
      · exact .inr ⟨rfl, by omega⟩
      · exact .inl ⟨hp, (h.le_head hp).trans hw.le⟩
    · rintro (⟨hp, -⟩ | ⟨rfl, -⟩)
      · exact .inr hp
      · exact .inl rfl

/-- A line that returns to an open block, or to none, takes the wider ones off the stack. -/
theorem Stacked.pop {w : ℕ} (hw : w = 0 ∨ w ∈ enclosing run) :
    Stacked (blocks.dropWhile (w < ·)) (run ++ [w]) := by
  rw [dropWhile_eq_filter h.sorted]
  refine ⟨h.sorted.filter _, fun p => ?_⟩
  rw [List.mem_filter, decide_eq_true_eq, mem_enclosing_append, h.mem]
  constructor
  · exact .inl
  · rintro (hp | ⟨rfl, hpos⟩)
    · exact hp
    · exact ⟨hw.resolve_left (by omega), le_rfl⟩

/-- After the wider blocks are taken off, the innermost one has the width of the line exactly if
the line returns to an open block or to none. -/
theorem Stacked.head_pop {w : ℕ} :
    (blocks.dropWhile (w < ·)).headD 0 = w ↔ w = 0 ∨ w ∈ enclosing run := by
  rw [dropWhile_eq_filter h.sorted, ← h.mem]
  constructor
  · intro he
    cases hf : blocks.filter (· ≤ w) with
    | nil => exact .inl (by rw [← he, hf]; rfl)
    | cons b rest =>
      rw [hf, List.headD_cons] at he
      exact .inr (List.mem_of_mem_filter (he ▸ hf ▸ List.mem_cons_self))
  · intro hw
    cases hf : blocks.filter (· ≤ w) with
    | nil =>
      rcases hw with rfl | hw
      · rfl
      · have : w ∈ blocks.filter (· ≤ w) := List.mem_filter.2 ⟨hw, by simp⟩
        rw [hf] at this
        simp at this
    | cons b rest =>
      have hb : b ∈ blocks ∧ b ≤ w := by
        have : b ∈ blocks.filter (· ≤ w) := hf ▸ List.mem_cons_self
        simpa using this
      rcases hw with rfl | hw
      · have := h.pos hb.1
        omega
      · have hmem : w ∈ b :: rest := hf ▸ List.mem_filter.2 ⟨hw, by simp⟩
        rcases List.mem_cons.1 hmem with rfl | hmem
        · rfl
        · have := (List.pairwise_cons.1 (hf ▸ h.sorted.filter _)).1 w hmem
          have := hb.2
          simp only [List.headD_cons]
          omega

theorem Stacked.zero_or_mem {w : ℕ} (hw : w = blocks.headD 0) : w = 0 ∨ w ∈ enclosing run := by
  by_cases hzero : w = 0
  · exact .inl hzero
  · rw [hw] at hzero ⊢
    exact .inr (h.head_mem (Nat.pos_of_ne_zero hzero))

theorem Stacked.lt_head {w : ℕ} (hw : w ≤ blocks.headD 0)
    (hmem : ¬ (w = 0 ∨ w ∈ enclosing run)) : w < blocks.headD 0 :=
  lt_of_le_of_ne hw fun he => hmem (h.zero_or_mem he)

theorem Stacked.layout_push {w : ℕ} (hw : blocks.headD 0 < w) :
    layout run w = [.indent] ∧ extend run w = run ++ [w] := by
  have hopens : Opens run w := ⟨by omega, fun p hp => (h.le_head hp).trans_lt hw⟩
  have hrefused : ¬ Refused run w := by
    rintro ⟨⟨p, hp, hlt⟩, -⟩
    exact absurd (hopens.2 p hp) (by omega)
  have hclosed : closed run w = ∅ := by
    refine Finset.filter_eq_empty_iff.2 fun p hp => ?_
    have := hopens.2 p hp
    omega
  rw [layout, extend, if_neg hrefused, if_neg hrefused, if_pos hopens, hclosed]
  exact ⟨rfl, rfl⟩

theorem Stacked.layout_pop {w : ℕ} (hw : w ≤ blocks.headD 0) (hmem : w = 0 ∨ w ∈ enclosing run) :
    layout run w =
        List.replicate (blocks.length - (blocks.dropWhile (w < ·)).length) .dedent ∧
      extend run w = run ++ [w] := by
  have hrefused : ¬ Refused run w := by
    rintro ⟨-, hne, hnot⟩
    exact hmem.elim hne hnot
  have hopens : ¬ Opens run w := by
    rintro ⟨hpos, hlt⟩
    exact lt_irrefl _ ((hlt _ (h.head_mem (by omega))).trans_le hw)
  rw [layout, extend, if_neg hrefused, if_neg hrefused, if_neg hopens, h.card_closed]
  exact ⟨rfl, rfl⟩

theorem Stacked.layout_refused {w : ℕ} (hw : w < blocks.headD 0)
    (hmem : ¬ (w = 0 ∨ w ∈ enclosing run)) :
    layout run w = [.invalid .unmatchedDedent] ∧ extend run w = [] := by
  obtain ⟨hne, hnot⟩ := not_or.1 hmem
  have hrefused : Refused run w := ⟨⟨_, h.head_mem (by omega), hw⟩, hne, hnot⟩
  rw [layout, extend, if_pos hrefused, if_pos hrefused]
  exact ⟨rfl, rfl⟩

end

theorem sinceRefusal_append (widths : List ℕ) (w : ℕ) :
    sinceRefusal (widths ++ [w]) = extend (sinceRefusal widths) w := by
  rw [sinceRefusal, List.foldl_append, List.foldl_cons, List.foldl_nil, ← sinceRefusal]

/-- Every run of lines has its stack. -/
theorem exists_stacked (widths : List ℕ) : ∃ blocks, Stacked blocks (sinceRefusal widths) := by
  induction widths using List.reverseRecOn with
  | nil => exact ⟨[], .nil⟩
  | append_singleton widths w ih =>
    obtain ⟨blocks, h⟩ := ih
    rw [sinceRefusal_append]
    by_cases hw : blocks.headD 0 < w
    · rw [(h.layout_push hw).2]
      exact ⟨_, h.push hw⟩
    by_cases hmem : w = 0 ∨ w ∈ enclosing (sinceRefusal widths)
    · rw [(h.layout_pop (by omega) hmem).2]
      exact ⟨_, h.pop hmem⟩
    · rw [(h.layout_refused (h.lt_head (by omega) hmem) hmem).2]
      exact ⟨[], .nil⟩

/-- The indents and dedents of a line account for the open blocks, unless the line is refused. -/
theorem openBlocks_append (widths : List ℕ) (w : ℕ) :
    layout (sinceRefusal widths) w = [.indent] ∧
        openBlocks (widths ++ [w]) = openBlocks widths + 1 ∨
      (∃ n, layout (sinceRefusal widths) w = List.replicate n .dedent ∧
        openBlocks (widths ++ [w]) + n = openBlocks widths) ∨
      layout (sinceRefusal widths) w = [.invalid .unmatchedDedent] ∧
        openBlocks (widths ++ [w]) = 0 := by
  obtain ⟨blocks, h⟩ := exists_stacked widths
  simp only [openBlocks, sinceRefusal_append, h.card_enclosing]
  by_cases hw : blocks.headD 0 < w
  · obtain ⟨hlayout, hextend⟩ := h.layout_push hw
    rw [hextend, (h.push hw).card_enclosing]
    exact .inl ⟨hlayout, rfl⟩
  by_cases hmem : w = 0 ∨ w ∈ enclosing (sinceRefusal widths)
  · obtain ⟨hlayout, hextend⟩ := h.layout_pop (by omega) hmem
    rw [hextend, (h.pop hmem).card_enclosing]
    have := (List.dropWhile_sublist (p := (w < ·)) (l := blocks)).length_le
    exact .inr (.inl ⟨_, hlayout, by omega⟩)
  · have hlt : w < blocks.headD 0 := h.lt_head (by omega) hmem
    obtain ⟨hlayout, hextend⟩ := h.layout_refused hlt hmem
    rw [hextend]
    exact .inr (.inr ⟨hlayout, rfl⟩)

end Offside.Margins
