import Mathlib.Algebra.Order.Field.Power
import Mathlib.Algebra.Order.Ring.Rat
import Mathlib.Data.Nat.Cast.Order.Field
import Mathlib.Order.Monotone.Basic
import Mathlib.Tactic.FieldSimp
import Mathlib.Tactic.Linarith
import Mathlib.Tactic.NormNum
import Mathlib.Tactic.Positivity
import Mathlib.Tactic.Ring
import Offside.Binary64.Shortest

/-!
# Decimals that read back

The reals that read back to a word form an interval, and the interval of each word begins where that
of the word before it ends. The end between two neighbours belongs to the one of them that is even.
So a decimal reads back to one word only.

Every interval of a positive word is wider than the grid of 17 digits around its value, so that a
neighbour of the value on this grid lies in it. So the shortest decimal of a positive word reads
back to it.

## Main definitions

* `Offside.Binary64.Decimal.value`: the value of a decimal.
* `Offside.Binary64.lower`, `Offside.Binary64.upper`: the ends of the interval of a word.

## Main results

* `Offside.Binary64.eq_of_holds`: a decimal reads back to one word only.
* `Offside.Binary64.holds_shortest`: the shortest decimal reads back.
-/

namespace Offside.Binary64

/-! ### Comparisons -/

/-- The value of a decimal. -/
def Decimal.value (d : Decimal) : ℚ := d.digits * 10 ^ d.exponent

/-- An integer power as a ratio of natural powers. -/
theorem zpow_eq_div {b : ℚ} (hb : b ≠ 0) (e : ℤ) : b ^ e = b ^ e.toNat / b ^ (-e).toNat := by
  rw [← zpow_natCast, ← zpow_natCast, ← zpow_sub₀ hb, Int.toNat_sub_toNat_neg]

private theorem scaled_eq (a : ℕ) (e : ℤ) :
    (a : ℚ) * 10 ^ e = ((a * 10 ^ e.toNat : ℕ) : ℚ) / ((10 ^ (-e).toNat : ℕ) : ℚ) := by
  rw [zpow_eq_div (by norm_num), mul_div_assoc']
  push_cast
  rfl

section

variable {a num den : ℕ} (e : ℤ) (hden : 0 < den)
include hden

theorem compareScaled_eq_lt : compareScaled a e num den = .lt ↔ (a : ℚ) * 10 ^ e < num / den := by
  rw [scaled_eq, div_lt_div_iff₀ (by positivity) (by positivity), compareScaled,
    Nat.compare_eq_lt]
  exact_mod_cast Iff.rfl

theorem compareScaled_eq_gt : compareScaled a e num den = .gt ↔ (num / den : ℚ) < a * 10 ^ e := by
  rw [scaled_eq, div_lt_div_iff₀ (by positivity) (by positivity), compareScaled,
    Nat.compare_eq_gt]
  exact_mod_cast Iff.rfl

theorem compareScaled_eq_eq : compareScaled a e num den = .eq ↔ (a : ℚ) * 10 ^ e = num / den := by
  rw [scaled_eq, div_eq_div_iff (by positivity) (by positivity), compareScaled,
    Nat.compare_eq_eq]
  exact_mod_cast Iff.rfl

end

/-! ### The interval of a word -/

/-- How far the interval of a word extends below its value, in quarters of its last place. -/
def margin (x : Binary64) : ℕ := if x.fraction = 0 ∧ 1 < x.field then 1 else 2

/-- The lower end of the interval of a word. -/
def lower (x : Binary64) : ℚ := (4 * x.significand - x.margin) * 2 ^ (x.exponent - 2)

/-- The upper end of the interval of a word. -/
def upper (x : Binary64) : ℚ := (4 * x.significand + 2) * 2 ^ (x.exponent - 2)

theorem lower_lt_upper (x : Binary64) : x.lower < x.upper := by
  have : (0 : ℚ) < 2 ^ (x.exponent - 2) := by positivity
  rw [lower, upper]
  gcongr
  have : (0 : ℚ) ≤ x.margin := by positivity
  linarith

/-- The interval of a word begins where that of the word before it ends. -/
theorem lower_succ (n : ℕ) : lower ⟨n + 1⟩ = upper ⟨n⟩ := by
  by_cases hlast : n % 2 ^ (52 : Nat) + 1 < 2 ^ (52 : Nat)
  · -- The two words have one exponent.
    have hfield : field ⟨n + 1⟩ = field ⟨n⟩ := by
      simp only [field]
      omega
    have hfraction : fraction ⟨n + 1⟩ = fraction ⟨n⟩ + 1 := by
      simp only [fraction]
      omega
    have hsignificand : significand ⟨n + 1⟩ = significand ⟨n⟩ + 1 := by
      rw [significand, significand, hfield, hfraction]
      split <;> omega
    have hmargin : margin ⟨n + 1⟩ = 2 := by
      rw [margin, hfraction, if_neg (by simp)]
    rw [lower, upper, exponent, exponent, hfield, hmargin, hsignificand]
    push_cast
    ring
  · have hfield : field ⟨n + 1⟩ = field ⟨n⟩ + 1 := by
      simp only [field]
      omega
    have hfraction : fraction ⟨n + 1⟩ = 0 := by
      simp only [fraction]
      omega
    have hbefore : fraction ⟨n⟩ = 2 ^ (52 : Nat) - 1 := by
      simp only [fraction]
      omega
    rw [lower, upper, exponent, exponent, margin, significand, significand, hfield, hfraction,
      hbefore]
    by_cases hzero : field ⟨n⟩ = 0
    · simp [hzero]
      norm_num
    · have hexponent : ((field ⟨n⟩ + 1 : ℕ) : ℤ) - 1075 - 2 = (field ⟨n⟩ - 1075 - 2) + 1 := by
        omega
      rw [if_neg (Nat.succ_ne_zero _), if_neg (Nat.succ_ne_zero _), if_neg hzero, if_neg hzero,
        if_pos ⟨rfl, by omega⟩, hexponent, zpow_add_one₀ (by norm_num)]
      norm_num
      ring

theorem strictMono_lower : StrictMono fun n => lower ⟨n⟩ :=
  strictMono_nat_of_lt_succ fun n => (lower_lt_upper _).trans_eq (lower_succ n).symm

/-- Two words next to each other are not both even. -/
theorem significand_mod_two (x : Binary64) : x.significand % 2 = x.bits % 2 := by
  rw [significand, fraction]
  split <;> omega

theorem significand_pos {x : Binary64} (hx : 0 < x.bits) : 0 < x.significand := by
  rw [significand, field, fraction]
  split <;> omega

theorem margin_le (x : Binary64) : x.margin ≤ 2 := by
  rw [margin]
  split <;> decide

theorem low_eq {x : Binary64} (hx : 0 < x.bits) :
    ((x.quarters.low * x.quarters.unitNum : ℕ) : ℚ) / x.quarters.unitDen = x.lower := by
  have hle : x.margin ≤ 4 * x.significand := by
    have := x.margin_le
    have := significand_pos hx
    omega
  rw [lower, zpow_eq_div (by norm_num), mul_div_assoc', Nat.cast_mul]
  change ((4 * x.significand - x.margin : ℕ) : ℚ) * ((2 ^ (x.exponent - 2).toNat : ℕ) : ℚ) /
    ((2 ^ (-(x.exponent - 2)).toNat : ℕ) : ℚ) = _
  push_cast [hle]
  rfl

theorem high_eq (x : Binary64) :
    ((x.quarters.high * x.quarters.unitNum : ℕ) : ℚ) / x.quarters.unitDen = x.upper := by
  rw [upper, zpow_eq_div (by norm_num), mul_div_assoc', Nat.cast_mul]
  change ((4 * x.significand + 2 : ℕ) : ℚ) * ((2 ^ (x.exponent - 2).toNat : ℕ) : ℚ) /
    ((2 ^ (-(x.exponent - 2)).toNat : ℕ) : ℚ) = _
  push_cast
  rfl

theorem unitDen_pos (x : Binary64) : 0 < x.quarters.unitDen := Nat.pow_pos (by decide)

/-- A decimal reads back to a positive word if it lies in its interval; the ends do if the word is
even. -/
theorem holds_iff {x : Binary64} (hx : 0 < x.bits) (d : Decimal) :
    x.quarters.holds d ↔
      (x.lower < d.value ∨ x.bits % 2 = 0 ∧ d.value = x.lower) ∧
        (d.value < x.upper ∨ x.bits % 2 = 0 ∧ d.value = x.upper) := by
  have hclosed : x.quarters.closed ↔ x.bits % 2 = 0 := by
    rw [← significand_mod_two]
    exact beq_iff_eq
  have hden := x.unitDen_pos
  simp only [Quarters.holds, Bool.and_eq_true, Bool.or_eq_true, beq_iff_eq, hclosed,
    compareScaled_eq_lt _ hden, compareScaled_eq_gt _ hden, compareScaled_eq_eq _ hden, low_eq hx,
    high_eq, Decimal.value]

/-- A decimal reads back to one word only. -/
theorem eq_of_holds {x y : Binary64} {d : Decimal} (hx : 0 < x.bits) (hy : 0 < y.bits)
    (h : x.quarters.holds d) (h' : y.quarters.holds d) : x = y := by
  wlog hle : x.bits ≤ y.bits generalizing x y
  · exact (this hy hx h' h (by omega)).symm
  obtain ⟨m⟩ := x
  obtain ⟨n⟩ := y
  rcases Nat.eq_or_lt_of_le hle with rfl | hlt
  · rfl
  -- What both intervals hold is the end of the first one, where the second one begins.
  obtain ⟨-, hupper⟩ := (holds_iff hx d).1 h
  obtain ⟨hlower, -⟩ := (holds_iff hy d).1 h'
  have hends : upper ⟨m⟩ ≤ lower ⟨n⟩ := by
    rw [← lower_succ]
    exact strictMono_lower.monotone hlt
  have hdm : m % 2 = 0 ∧ d.value = upper ⟨m⟩ := by
    rcases hupper with hupper | hupper
    · rcases hlower with hlower | ⟨-, hlower⟩ <;> exact absurd hlower (by linarith)
    · exact hupper
  have hdn : n % 2 = 0 ∧ d.value = lower ⟨n⟩ := by
    rcases hlower with hlower | hlower
    · exact absurd hlower (by rw [hdm.2]; exact not_lt.2 hends)
    · exact hlower
  have hnext : m + 1 = n := by
    refine strictMono_lower.injective ?_
    exact (lower_succ m).trans (hdm.2.symm.trans hdn.2)
  omega

/-! ### The shortest decimal -/

theorem holds_of_onGrid {q : Quarters} {e : ℤ} {d : Decimal} (h : q.onGrid e = some d) :
    q.holds d := by
  unfold Quarters.onGrid at h
  dsimp only at h
  split at h
  · next hbelow habove =>
    cases h
    split
    · exact hbelow
    · exact habove
  · next hbelow _ =>
    cases h
    exact hbelow
  · next _ habove =>
    cases h
    exact habove
  · cases h

theorem length_decimalDigits_pos (n : ℕ) : 0 < (decimalDigits n).length :=
  List.length_pos_of_ne_nil Nat.toDigits_ne_nil

/-- A number is not below the place of its first digit. -/
theorem pow_length_le {n : ℕ} (hn : 0 < n) :
    (10 : ℚ) ^ (((decimalDigits n).length : ℤ) - 1) ≤ n := by
  by_cases hone : (decimalDigits n).length = 1
  · rw [hone]
    norm_num
    exact hn
  · have hpos := length_decimalDigits_pos n
    have hle : ¬ n < 10 ^ ((decimalDigits n).length - 1) := by
      rw [← Nat.length_toDigits_le_iff (by decide) (by omega), ← decimalDigits]
      omega
    rw [← Int.natCast_pred_of_pos hpos, zpow_natCast]
    exact_mod_cast not_lt.1 hle

/-- A number is below the place before its first digit. -/
theorem lt_pow_length (n : ℕ) : (n : ℚ) < 10 ^ ((decimalDigits n).length : ℤ) := by
  have hlt := (Nat.length_toDigits_le_iff (b := 10) (n := n) (by decide)
    (length_decimalDigits_pos n)).1 le_rfl
  rw [zpow_natCast]
  exact_mod_cast hlt

/-- The digits of a ratio do not begin below the place that its order tells. -/
theorem pow_decimalOrder_le {num den : ℕ} (hnum : 0 < num) (hden : 0 < den) :
    (10 : ℚ) ^ (decimalOrder num den - 1) ≤ num / den := by
  rw [decimalOrder]
  split
  · -- The ratio of the numbers of digits is off by less than one.
    have hn := pow_length_le hnum
    have hd := (lt_pow_length den).le
    rw [le_div_iff₀ (by positivity)]
    calc (10 : ℚ) ^ (((decimalDigits num).length : ℤ) - (decimalDigits den).length - 1) * den
        ≤ 10 ^ (((decimalDigits num).length : ℤ) - (decimalDigits den).length - 1) *
            10 ^ ((decimalDigits den).length : ℤ) := by gcongr
      _ = 10 ^ (((decimalDigits num).length : ℤ) - 1) := by
        rw [← zpow_add₀ (by norm_num)]
        congr 1
        ring
      _ ≤ num := hn
  · next hgt =>
    rw [beq_iff_eq, compareScaled_eq_gt _ hden, not_lt] at hgt
    simpa using hgt

/-- The value of a word, between the two ends of its interval. -/
theorem value_mem {x : Binary64} :
    x.lower < 4 * x.significand * 2 ^ (x.exponent - 2) ∧
      4 * x.significand * 2 ^ (x.exponent - 2) < x.upper := by
  have hunit : (0 : ℚ) < 2 ^ (x.exponent - 2) := by positivity
  have hmargin : (0 : ℚ) < x.margin := by
    rw [margin]
    split <;> norm_num
  rw [lower, upper]
  constructor <;> nlinarith

theorem value_eq (x : Binary64) :
    ((x.quarters.value * x.quarters.unitNum : ℕ) : ℚ) / x.quarters.unitDen =
      4 * x.significand * 2 ^ (x.exponent - 2) := by
  rw [zpow_eq_div (by norm_num), mul_div_assoc', Nat.cast_mul]
  change ((4 * x.significand : ℕ) : ℚ) * ((2 ^ (x.exponent - 2).toNat : ℕ) : ℚ) /
    ((2 ^ (-(x.exponent - 2)).toNat : ℕ) : ℚ) = _
  push_cast
  rfl

/-- On a grid that is finer than the interval is wide, a neighbour of the value reads back. -/
theorem isSome_onGrid {x : Binary64} (hx : 0 < x.bits) {e : ℤ}
    (hstep : (10 : ℚ) ^ e < x.upper - x.lower) : (x.quarters.onGrid e).isSome := by
  obtain ⟨hlower, hupper⟩ := value_mem (x := x)
  have hvalue := x.value_eq
  have hden := x.unitDen_pos
  generalize 4 * (x.significand : ℚ) * 2 ^ (x.exponent - 2) = v at hlower hupper hvalue
  set num := x.quarters.value * x.quarters.unitNum * 10 ^ (-e).toNat with hnum
  set den := x.quarters.unitDen * 10 ^ e.toNat with hden'
  have hscaled : v = (num / den : ℚ) * 10 ^ e := by
    rw [← hvalue, zpow_eq_div (by norm_num) e, hnum, hden']
    push_cast
    field_simp
  set below := num / den with hbelow
  have hle : (below : ℚ) * 10 ^ e ≤ v := by
    rw [hscaled]
    gcongr
    exact Nat.cast_div_le
  have hlt : v < ((below + 1 : ℕ) : ℚ) * 10 ^ e := by
    rw [hscaled]
    gcongr
    rw [div_lt_iff₀ (by positivity)]
    exact_mod_cast Nat.lt_mul_of_div_lt (Nat.lt_succ_self _) (by positivity)
  -- If the neighbour below is not inside, then the one above is.
  have hholds : x.quarters.holds ⟨below, e⟩ ∨ x.quarters.holds ⟨below + 1, e⟩ := by
    rw [holds_iff hx, holds_iff hx, Decimal.value, Decimal.value]
    rcases lt_or_ge x.lower (below * 10 ^ e) with hinside | houtside
    · exact .inl ⟨.inl hinside, .inl (hle.trans_lt hupper)⟩
    · refine .inr ⟨.inl (hlower.trans hlt), .inl ?_⟩
      push_cast
      linarith
  rw [Quarters.onGrid]
  split
  · rfl
  · rfl
  · rfl
  · next hfirst hsecond =>
    rcases hholds with h | h
    · exact absurd (h.symm.trans hfirst) (by decide)
    · exact absurd (h.symm.trans hsecond) (by decide)

theorem significand_lt (x : Binary64) : x.significand < 2 ^ (53 : Nat) := by
  rw [significand, fraction]
  split <;> omega

/-- The interval of a word is wider than the grid on which its value has 17 digits. -/
theorem pow_lt_width {x : Binary64} (hx : 0 < x.bits) :
    (10 : ℚ) ^ (decimalOrder (x.quarters.value * x.quarters.unitNum) x.quarters.unitDen - 17) <
      x.upper - x.lower := by
  have hsignificand := significand_pos hx
  have hnum : 0 < x.quarters.value * x.quarters.unitNum :=
    Nat.mul_pos (Nat.mul_pos (by decide) hsignificand) (Nat.pow_pos (by decide))
  have horder := pow_decimalOrder_le hnum x.unitDen_pos
  rw [value_eq] at horder
  generalize decimalOrder _ _ = k at horder ⊢
  have hunit : (0 : ℚ) < 2 ^ (x.exponent - 2) := by positivity
  -- The value is less than the width taken `10 ^ 16` times.
  have hwidth : 4 * x.significand < (2 + x.margin) * 10 ^ 16 := by
    have := x.significand_lt
    rw [margin]
    split
    · next hfoot =>
      rw [significand, hfoot.1]
      split <;> norm_num
    · omega
  have hpow : (10 : ℚ) ^ (k - 17) * 10 ^ 16 = 10 ^ (k - 1) := by
    rw [← zpow_natCast, ← zpow_add₀ (by norm_num)]
    congr 1
    push_cast
    ring
  have hcast : (4 * x.significand : ℚ) < (2 + x.margin) * 10 ^ 16 := by
    exact_mod_cast hwidth
  refine lt_of_mul_lt_mul_right ?_ (by positivity : (0 : ℚ) ≤ 10 ^ 16)
  calc (10 : ℚ) ^ (k - 17) * 10 ^ 16
      ≤ 4 * x.significand * 2 ^ (x.exponent - 2) := hpow ▸ horder
    _ < (2 + x.margin) * 10 ^ 16 * 2 ^ (x.exponent - 2) := mul_lt_mul_of_pos_right hcast hunit
    _ = (x.upper - x.lower) * 10 ^ 16 := by
      rw [upper, lower]
      ring

/-- The first grid that gives a decimal gives one that reads back. -/
theorem holds_of_findSome? {q : Quarters} {order : ℤ} {n k : ℕ} (hk : k < n)
    (h : (q.onGrid (order - (k + 1 : ℕ))).isSome) :
    q.holds ((((List.range n).map fun k : ℕ => q.onGrid (order - (k + 1 : ℕ))).findSome? id).getD
      ⟨0, 0⟩) := by
  have hsome : (((List.range n).map fun k : ℕ =>
      q.onGrid (order - (k + 1 : ℕ))).findSome? id).isSome :=
    List.findSome?_isSome_iff.2 ⟨_, List.mem_map.2 ⟨k, List.mem_range.2 hk, rfl⟩, h⟩
  obtain ⟨d, hd⟩ := Option.isSome_iff_exists.1 hsome
  obtain ⟨grid, hmem, hgrid⟩ := List.exists_of_findSome?_eq_some hd
  obtain ⟨j, -, rfl⟩ := List.mem_map.1 hmem
  rw [hd, Option.getD_some]
  exact holds_of_onGrid hgrid

/-- The shortest decimal of a positive word reads back to it. -/
theorem holds_shortest {x : Binary64} (hx : 0 < x.bits) : x.quarters.holds x.shortest := by
  have hgrid := isSome_onGrid hx (pow_lt_width hx)
  rw [shortest]
  exact holds_of_findSome? (k := 16) (by decide) hgrid

end Offside.Binary64
