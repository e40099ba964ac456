/-!
# Blank characters

The characters with the Unicode property `White_Space`, as inclusive ranges of code points.

## Main definitions

* `Offside.Text.blankRanges`: the ranges, in increasing order.
* `Offside.Text.isBlank`: membership in one of them.
-/

namespace Offside.Text

/-- The code points with the property `White_Space`, as inclusive ranges in increasing order. -/
def blankRanges : List (Nat × Nat) :=
  [(0x09, 0x0D), (0x20, 0x20), (0x85, 0x85), (0xA0, 0xA0), (0x1680, 0x1680), (0x2000, 0x200A),
    (0x2028, 0x2029), (0x202F, 0x202F), (0x205F, 0x205F), (0x3000, 0x3000)]

/-- Whether `c` has the Unicode property `White_Space`. -/
def isBlank (c : Char) : Bool :=
  blankRanges.any fun (low, high) => low ≤ c.toNat && c.toNat ≤ high

theorem isBlank_of_isWhitespace {c : Char} (h : c.isWhitespace) : isBlank c := by
  simp only [Char.isWhitespace, Bool.or_eq_true, decide_eq_true_eq] at h
  rcases h with ((rfl | rfl) | rfl) | rfl <;> decide

/-- The property holds of twenty-five characters. -/
example : (blankRanges.map fun (low, high) => high + 1 - low).sum = 25 := by decide

end Offside.Text
