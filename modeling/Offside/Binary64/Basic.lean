/-!
# Nonnegative binary64 numbers

The nonnegative values of the 64-bit binary floating-point format, as their words, with correct
rounding from an exact ratio of natural numbers. All arithmetic is on natural numbers and
integers, so every value is computed exactly as it is defined.

A finite word is `significand * 2 ^ exponent` with a significand below `2 ^ 53`. The word of such
a pair is `(exponent + 1074) * 2 ^ 52 + significand`: a significand that rounding carries up to
`2 ^ 53` lands on the next binade by itself.

## Main definitions

* `Offside.Binary64`: a word whose sign bit is clear.
* `Offside.Binary64.ofRatio`: the nearest value to a ratio, ties to the even significand.
* `Offside.Binary64.significand`, `Offside.Binary64.exponent`: the value of a finite word.
-/

namespace Offside

/-- A nonnegative value of the 64-bit binary format, as its word. -/
structure Binary64 where
  bits : Nat
  deriving DecidableEq, Repr, Inhabited

/-- The integer nearest to `num / den`; of two equally near ones the even one. -/
def roundHalfEven (num den : Nat) : Nat :=
  let quotient := num / den
  let twice := 2 * (num % den)
  if twice < den then quotient
  else if den < twice then quotient + 1
  else quotient + quotient % 2

namespace Binary64

/-- Powers of natural numbers are those of the core library, whatever else is imported. -/
scoped instance (priority := high) natPow : Pow Nat Nat := instPowNat

/-- Positive infinity. -/
def infinity : Binary64 := ⟨0x7FF * 2 ^ (52 : Nat)⟩

/-- Zero. -/
def zero : Binary64 := ⟨0⟩

/-- Whether a word is that of a finite value. -/
def isFinite (x : Binary64) : Bool := x.bits < infinity.bits

/-- The biased exponent field of a word. -/
def field (x : Binary64) : Nat := x.bits / 2 ^ (52 : Nat)

/-- The fraction field of a word. -/
def fraction (x : Binary64) : Nat := x.bits % 2 ^ (52 : Nat)

/-- The integer that a power of two scales to the value of a finite word. -/
def significand (x : Binary64) : Nat :=
  if x.field = 0 then x.fraction else x.fraction + 2 ^ (52 : Nat)

/-- The power of two that scales the significand to the value of a finite word. -/
def exponent (x : Binary64) : Int :=
  if x.field = 0 then -1074 else (x.field : Int) - 1075

/-- The position of the leading binary digit of a positive ratio: the `e` with
`2 ^ e ≤ num / den < 2 ^ (e + 1)`. -/
def binaryOrder (num den : Nat) : Int :=
  let guess : Int := (num.log2 : Int) - den.log2
  if den * 2 ^ guess.toNat ≤ num * 2 ^ (-guess).toNat then guess else guess - 1

/-- The value nearest to `num / den`, ties to the even significand. A ratio beyond the largest
finite value by half a unit or more gives infinity. -/
def ofRatio (num den : Nat) : Binary64 :=
  if num = 0 then zero
  else
    let exponent := max (binaryOrder num den - 52) (-1074)
    let significand := roundHalfEven (num * 2 ^ (-exponent).toNat) (den * 2 ^ exponent.toNat)
    ⟨min ((exponent + 1074).toNat * 2 ^ (52 : Nat) + significand) infinity.bits⟩

/-- One, one tenth, the least positive value, and a ratio too large. -/
example : (ofRatio 1 1).bits = 0x3FF0000000000000 ∧ (ofRatio 1 10).bits = 0x3FB999999999999A ∧
    (ofRatio 5 (10 ^ 324)).bits = 1 ∧ ofRatio (10 ^ 309) 1 = infinity := by decide +kernel

end Binary64

end Offside
