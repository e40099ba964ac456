import Offside.Proofs.Token.Finite

/-!
# Which dedent closes which block

An indent opens a block, and each dedent closes the block opened last among those that are still
open. A refused dedent closes all of them. So it is known of the tokens alone which blocks are open.

The lexer keeps a stack of widths, and a number of dedents that it owes. The widths are those of the
open blocks but for the innermost ones, for which it owes the dedents. In particular no block is
open at the end of the input.

## Main definitions

* `Offside.OpenBlock`: a block that an indent has opened.
* `Offside.Lexer.unclosed`: the open blocks after some tokens.
* `Offside.Lexer.Shifts`: what a token does to the stack and to the dedents owed.
* `Offside.Lexer.Holds`: the stack and the dedents owed account for some open blocks.

## Main results

* `Offside.Lexer.holds_ahead`: they account for the blocks that are open.
* `Offside.Lexer.unclosed_of_endOfInput`: no block is open at the end of the input.
-/

namespace Offside

open Source Token

/-- A block that an indent has opened: the number of the indent among the tokens, and the width of
its line. -/
structure OpenBlock where
  position : Nat
  width : Nat
  deriving DecidableEq, Repr

/-- The open blocks after one more token, which has the number `n`. -/
def OpenBlock.after (n : Nat) (x : Lexeme) (blocks : List OpenBlock) : List OpenBlock :=
  match x.token.kind with
  | .indent => ⟨n, x.after.lastWidth⟩ :: blocks
  | .dedent => blocks.tail
  | .invalid .unmatchedDedent => []
  | _ => blocks

namespace Lexer

variable {l : Lexer} {x : Lexeme} {n : Nat} {blocks : List OpenBlock}

/-- The open blocks after some tokens, innermost first. -/
def unclosed (l : Lexer) : Nat → List OpenBlock
  | 0 => []
  | n + 1 => OpenBlock.after n (l.ahead n).next (unclosed l n)

theorem mem_unclosed_succ {b : OpenBlock} (hb : b ∈ l.unclosed (n + 1)) :
    b.position = n ∨ b ∈ l.unclosed n := by
  rw [unclosed, OpenBlock.after] at hb
  split at hb
  · rcases List.mem_cons.1 hb with rfl | hb
    · exact .inl rfl
    · exact .inr hb
  · exact .inr (List.mem_of_mem_tail hb)
  · cases hb
  · exact .inr hb

/-- The blocks that are open have been opened by tokens before. -/
theorem position_lt_of_mem_unclosed {b : OpenBlock} (hb : b ∈ l.unclosed n) : b.position < n := by
  induction n with
  | zero => cases hb
  | succ n ih =>
    rcases mem_unclosed_succ hb with hn | hb
    · exact Nat.lt_succ_of_le (Nat.le_of_eq hn)
    · exact Nat.lt_succ_of_lt (ih hb)

theorem ahead_succ (l : Lexer) (n : Nat) : l.ahead (n + 1) = (l.ahead n).next.after := by
  induction n generalizing l with
  | zero => rfl
  | succ n ih => exact ih l.next.after

theorem lineWise_ahead (hs : l.stream.LineWise) (n : Nat) : (l.ahead n).stream.LineWise := by
  induction n with
  | zero => exact hs
  | succ n ih =>
    rw [ahead_succ, after_next]
    obtain ⟨_, hread, -⟩ := reads_read ih
    exact hread.lineWise

/-! ### One token -/

/-- What a token does to the stack of widths and to the dedents owed. -/
inductive Shifts (widths : List Nat) (owed : Nat) (x : Lexeme) : Prop
  | opened (kind : x.token.kind = .indent) (paid : owed = 0) (still : x.after.owed = 0)
    (blocks : x.after.blocks = x.after.lastWidth :: widths)
  | closed (k : Nat) (kind : x.token.kind = .dedent) (le : k ≤ widths.length)
    (fewer : x.after.owed + 1 = owed + k) (blocks : x.after.blocks = widths.drop k)
  | forgotten (kind : x.token.kind = .invalid .unmatchedDedent) (paid : x.after.owed = 0)
    (blocks : x.after.blocks = [])
  | ended (kind : x.token.kind = .endOfInput) (paid : owed = 0) (none : widths = [])
    (still : x.after.owed = 0) (blocks : x.after.blocks = [])
  | plain (indent : x.token.kind ≠ .indent) (dedent : x.token.kind ≠ .dedent)
    (invalid : x.token.kind ≠ .invalid .unmatchedDedent) (more : x.token.kind ≠ .endOfInput)
    (still : x.after.owed = owed) (blocks : x.after.blocks = widths)

theorem shifts_finish (paid : l.owed = 0) (place : Location) :
    Shifts l.blocks l.owed (l.finish place) := by
  rw [finish]
  split
  · next hb =>
    have hnone := List.isEmpty_iff.1 hb
    exact .ended rfl paid hnone paid hnone
  · next hb =>
    have hpos := List.length_pos_iff.2 (mt List.isEmpty_iff.2 hb)
    refine .closed l.depth rfl (Nat.le_refl _) ?_ List.drop_length.symm
    show l.depth - 1 + 1 = l.owed + l.depth
    rw [depth, paid]
    omega

theorem shifts_inLine (hs : l.stream.LineWise) (paid : l.owed = 0) :
    Shifts l.blocks l.owed l.inLine := by
  have hgap := Stream.lineWise_takeWhile isGap hs
  have hfill := Stream.fill_takeWhile isGap hs
  have finish (t : Stream) (place : Location) :
      Shifts l.blocks l.owed (finish { l with stream := t } place) :=
    shifts_finish (l := { l with stream := t }) paid place
  have endLine (t : Stream) : Shifts l.blocks l.owed (endLine { l with stream := t }) :=
    .plain Kind.noConfusion Kind.noConfusion Kind.noConfusion Kind.noConfusion rfl rfl
  unfold inLine
  dsimp only
  generalize (l.stream.takeWhile isGap).2 = s at *
  split
  · exact finish _ _
  · next c hp =>
    split
    · exact endLine _
    · next hn =>
      split
      · split
        · exact endLine _
        · exact finish _ _
      · have hlayout := isLayout_tokenOf c s.remaining.tail
        have hend := (tokenOf_ne_end c s.remaining.tail).2
        rw [← (agrees_scan hgap hfill hp hn).kind] at hlayout hend
        refine .plain ?_ ?_ ?_ hend rfl rfl
        all_goals
          intro hk
          rw [show (scan c s).1 = _ from hk] at hlayout
          cases hlayout

theorem shifts_layout? (paid : l.owed = 0) {margin : Margin} (h : l.layout? margin = some x) :
    Shifts l.blocks l.owed x := by
  rw [layout?] at h
  dsimp only at h
  split at h
  · cases h
    exact .plain Kind.noConfusion Kind.noConfusion (by simp [deliver]) Kind.noConfusion rfl rfl
  · split at h
    · cases h
      exact .opened rfl paid paid rfl
    · next hdeeper =>
      split at h
      · cases h
      · next hsame =>
        split at h
        · cases h
          have hfewer := Margins.length_dropWhile_lt (show margin.width < l.blocks.headD 0 by
            rw [← Lexer.margin]; omega)
          have hkept := List.dropWhile_suffix (l := l.blocks) (margin.width < ·)
          generalize l.blocks.dropWhile (margin.width < ·) = kept at *
          refine .closed (l.depth - kept.length) rfl (Nat.sub_le _ _) ?_
            (List.suffix_iff_eq_drop.1 hkept)
          show l.depth - kept.length - 1 + 1 = l.owed + (l.depth - kept.length)
          rw [paid, depth]
          omega
        · cases h
          exact .forgotten rfl paid rfl

/-- What a token does to the stack of widths and to the dedents owed. -/
theorem shifts_next (hs : l.stream.LineWise) : Shifts l.blocks l.owed l.next := by
  have hread : Shifts l.blocks l.owed l.read := by
    obtain ⟨_, hcontent⟩ := reads_firstContent hs
    rw [read]
    split
    · next howed =>
      refine .closed 0 rfl (Nat.zero_le _) ?_ rfl
      show l.owed - 1 + 1 = l.owed + 0
      omega
    · next howed =>
      have paid : l.owed = 0 := by omega
      split
      · rw [startLine]
        dsimp only
        split
        · exact shifts_inLine (l := { l with stream := (firstContent l.stream).2 })
            hcontent.lineWise paid
        · cases hx : layout? { l with stream := (firstContent l.stream).2, atLineStart := false }
              (firstContent l.stream).1 with
          | none =>
            exact shifts_inLine
              (l := { l with stream := (firstContent l.stream).2, atLineStart := false })
              hcontent.lineWise paid
          | some x =>
            exact shifts_layout?
              (l := { l with stream := (firstContent l.stream).2, atLineStart := false }) paid hx
      · exact shifts_inLine hs paid
  have same : l.next.token = l.read.token ∧ l.next.after = l.read.after :=
    ⟨token_next l, after_next l⟩
  cases hread with
  | opened kind paid still blocks =>
    exact .opened (same.1 ▸ kind) paid (same.2 ▸ still) (same.2 ▸ blocks)
  | closed k kind le fewer blocks =>
    exact .closed k (same.1 ▸ kind) le (same.2 ▸ fewer) (same.2 ▸ blocks)
  | forgotten kind paid blocks => exact .forgotten (same.1 ▸ kind) (same.2 ▸ paid) (same.2 ▸ blocks)
  | ended kind paid none still blocks =>
    exact .ended (same.1 ▸ kind) paid none (same.2 ▸ still) (same.2 ▸ blocks)
  | plain indent dedent invalid more still blocks =>
    exact .plain (same.1 ▸ indent) (same.1 ▸ dedent) (same.1 ▸ invalid) (same.1 ▸ more)
      (same.2 ▸ still) (same.2 ▸ blocks)

/-! ### All tokens -/

/-- The stack holds the widths of the open blocks but for the innermost ones, and for these dedents
are owed. -/
structure Holds (l : Lexer) (blocks : List OpenBlock) : Prop where
  owed_le : l.owed ≤ blocks.length
  widths : l.blocks = (blocks.drop l.owed).map OpenBlock.width

theorem Holds.next (hs : l.stream.LineWise) (h : l.Holds blocks) (n : Nat) :
    l.next.after.Holds (OpenBlock.after n l.next blocks) := by
  have hshifts := shifts_next hs
  generalize l.next = x at *
  cases hshifts with
  | opened kind paid still hblocks =>
    rw [OpenBlock.after, kind]
    refine ⟨by rw [still]; exact Nat.zero_le _, ?_⟩
    have hwidths := h.widths
    rw [paid] at hwidths
    rw [still, hblocks, hwidths]
    rfl
  | closed k kind le fewer hblocks =>
    rw [OpenBlock.after, kind]
    have hle := h.owed_le
    have hlength := congrArg List.length h.widths
    rw [List.length_map, List.length_drop] at hlength
    refine ⟨by rw [List.length_tail]; omega, ?_⟩
    rw [hblocks, h.widths, ← List.map_drop, List.drop_drop, ← fewer, ← List.drop_one,
      List.drop_drop, Nat.add_comm]
  | forgotten kind paid hblocks =>
    rw [OpenBlock.after, kind]
    exact ⟨Nat.le_of_eq paid, by rw [hblocks, paid]; rfl⟩
  | ended kind paid none still hblocks =>
    rw [OpenBlock.after, kind]
    have hwidths := h.widths
    rw [paid] at hwidths
    exact ⟨by rw [still]; exact Nat.zero_le _, by rw [hblocks, still, ← hwidths, none]⟩
  | plain indent dedent invalid _ still hblocks =>
    have hsame : OpenBlock.after n x blocks = blocks := by
      rw [OpenBlock.after]
      split
      · exact absurd ‹_› indent
      · exact absurd ‹_› dedent
      · exact absurd ‹_› invalid
      · rfl
    rw [hsame]
    exact ⟨still ▸ h.owed_le, by rw [hblocks, still, h.widths]⟩

/-- A lexer that has delivered nothing has opened no block. -/
theorem holds_ofInput (input : Input) : (ofInput input).Holds [] := ⟨Nat.le_refl 0, rfl⟩

/-- The stack and the dedents owed account for the blocks that are open. -/
theorem holds_ahead (hs : l.stream.LineWise) (h : l.Holds []) (n : Nat) :
    (l.ahead n).Holds (l.unclosed n) := by
  induction n with
  | zero => exact h
  | succ n ih =>
    rw [ahead_succ, unclosed]
    exact ih.next (lineWise_ahead hs n) n

/-- No block is open at the end of the input. -/
theorem unclosed_of_endOfInput (hs : l.stream.LineWise) (h : l.Holds [])
    (hk : (l.ahead n).next.token.kind = .endOfInput) : l.unclosed n = [] := by
  have hshifts := shifts_next (lineWise_ahead hs n)
  have hholds := holds_ahead hs h n
  generalize (l.ahead n).next = x at *
  cases hshifts with
  | opened kind | closed _ kind | forgotten kind => exact nomatch hk.symm.trans kind
  | ended kind paid none =>
    have hwidths := hholds.widths
    rw [none, paid, List.drop_zero] at hwidths
    exact List.map_eq_nil_iff.1 hwidths.symm
  | plain _ _ _ more => exact absurd hk more

/-- A dedent closes a block. -/
theorem unclosed_ne_nil_of_dedent (hs : l.stream.LineWise) (h : l.Holds [])
    (hk : (l.ahead n).next.token.kind = .dedent) : l.unclosed n ≠ [] := by
  have hshifts := shifts_next (lineWise_ahead hs n)
  have hholds := holds_ahead hs h n
  generalize (l.ahead n).next = x at *
  intro hnone
  have howed := hholds.owed_le
  have hwidths := hholds.widths
  rw [hnone] at howed hwidths
  cases hshifts with
  | opened kind | forgotten kind | ended kind => cases hk.symm.trans kind
  | closed k kind le fewer =>
    rw [hwidths] at le
    simp at le howed
    omega
  | plain _ dedent => exact absurd hk dedent

end Lexer

end Offside
