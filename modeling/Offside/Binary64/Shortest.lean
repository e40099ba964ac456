import Offside.Binary64.Basic

/-!
# Shortest decimal text

The text of a binary64 value shows the fewest decimal digits that read back to it, and of those
digit strings the one nearest to the value. The reals that read back to a finite value form an
interval around it, half a unit wide on each side (a quarter below, at the foot of a binade), with
its ends included exactly when the significand is even. For each number of digits the two
neighbours of the value on that decimal grid are tried; the first grid with a neighbour inside the
interval wins.

## Main definitions

* `Offside.Binary64.shortest`: the digits and decimal exponent of a positive finite value.
* `Offside.Binary64.text`: the printed form.
-/

namespace Offside.Binary64

/-- The decimal number `digits * 10 ^ exponent`. -/
structure Decimal where
  digits : Nat
  exponent : Int
  deriving DecidableEq, Repr

/-- The decimal digits of a natural number, most significant first. -/
def decimalDigits (n : Nat) : List Char := Nat.toDigits 10 n

/-- Compare `a * 10 ^ e` with `num / den`. -/
def compareScaled (a : Nat) (e : Int) (num den : Nat) : Ordering :=
  compare (a * 10 ^ e.toNat * den) (num * 10 ^ (-e).toNat)

/-- The number of digits before the decimal point of a positive ratio: the `k` with
`10 ^ (k - 1) ≤ num / den < 10 ^ k`. -/
def decimalOrder (num den : Nat) : Int :=
  let guess : Int := ((decimalDigits num).length : Int) - (decimalDigits den).length
  if compareScaled 1 guess num den == .gt then guess else guess + 1

/-- A ratio written in units of a quarter of the last place of a finite value. -/
structure Quarters where
  /-- The value itself. -/
  value : Nat
  /-- The least real that may read back to it. -/
  low : Nat
  /-- The greatest real that may read back to it. -/
  high : Nat
  /-- Whether the two ends read back to it. -/
  closed : Bool
  /-- The unit is `unitNum / unitDen`. -/
  unitNum : Nat
  unitDen : Nat

/-- The interval of reals that read back to a positive finite value. -/
def quarters (x : Binary64) : Quarters :=
  let exponent := x.exponent - 2
  let margin := if x.fraction = 0 ∧ 1 < x.field then 1 else 2
  { value := 4 * x.significand
    low := 4 * x.significand - margin
    high := 4 * x.significand + 2
    closed := x.significand % 2 == 0
    unitNum := 2 ^ exponent.toNat
    unitDen := 2 ^ (-exponent).toNat }

/-- Whether `d` lies in the interval. -/
def Quarters.holds (q : Quarters) (d : Decimal) : Bool :=
  let low := compareScaled d.digits d.exponent (q.low * q.unitNum) q.unitDen
  let high := compareScaled d.digits d.exponent (q.high * q.unitNum) q.unitDen
  (low == .gt || q.closed && low == .eq) && (high == .lt || q.closed && high == .eq)

/-- The greatest number of significant digits that a value needs. -/
def maxDigits : Nat := 17

/-- The neighbour of the value on the grid of step `10 ^ exponent` that reads back to it; the
nearer one when both do, and the upper one when they are equally near. -/
def Quarters.onGrid (q : Quarters) (exponent : Int) : Option Decimal :=
  let num := q.value * q.unitNum * 10 ^ (-exponent).toNat
  let den := q.unitDen * 10 ^ exponent.toNat
  let below : Decimal := ⟨num / den, exponent⟩
  let above : Decimal := ⟨num / den + 1, exponent⟩
  match q.holds below, q.holds above with
  | true, true => some (if 2 * (num % den) < den then below else above)
  | true, false => some below
  | false, true => some above
  | false, false => none

/-- The fewest digits that read back to a positive finite value. -/
def shortest (x : Binary64) : Decimal :=
  let q := x.quarters
  let order := decimalOrder (q.value * q.unitNum) q.unitDen
  let grids := (List.range maxDigits).map fun (n : Nat) => q.onGrid (order - (n + 1 : Nat))
  (grids.findSome? id).getD ⟨0, 0⟩

/-- Digits without their trailing zeros. -/
def stripZeros (digits : List Char) : List Char := (digits.reverse.dropWhile (· = '0')).reverse

/-- Digits with a point after the first `point` of them, padded with zeros so that at least one
digit stands on each side. -/
def positional (digits : List Char) (point : Int) : List Char :=
  let padded := List.replicate (1 - point).toNat '0' ++ digits
  let whole := max point 1
  let before := padded.take whole.toNat
  let after := padded.drop whole.toNat
  before ++ List.replicate (whole.toNat - before.length) '0' ++ '.' ::
    (if after.isEmpty then ['0'] else after)

/-- One digit, a point if more follow, and the exponent of ten. -/
def scientific (digits : List Char) (exponent : Int) : List Char :=
  let mantissa := match digits with
    | [] => ['0']
    | [d] => [d]
    | d :: ds => d :: '.' :: ds
  mantissa ++ 'e' :: (if exponent < 0 then ['-'] else []) ++ decimalDigits exponent.natAbs

/-- The decimal exponents of the leading digit that are written with a point: from `-4` to `15`. -/
def isPositional (exponent : Int) : Bool := -4 ≤ exponent && exponent < 16

/-- The characters of the printed form: always with a fraction between `0.0001` and `10 ^ 16`,
otherwise with an exponent. -/
def characters (x : Binary64) : List Char :=
  if x.bits = 0 then ['0', '.', '0']
  else if !x.isFinite then ['i', 'n', 'f']
  else
    let decimal := x.shortest
    let digits := decimalDigits decimal.digits
    let order := decimal.exponent + digits.length
    if isPositional (order - 1) then positional (stripZeros digits) order
    else scientific (stripZeros digits) (order - 1)

/-- The printed form. -/
def text (x : Binary64) : String := String.ofList x.characters

/-- Where the point stands and where the exponent begins. -/
example : (ofRatio 1 10).characters = ['0', '.', '1'] ∧
    (ofRatio 2 1).characters = ['2', '.', '0'] ∧
    (ofRatio 1 10000).characters = ['0', '.', '0', '0', '0', '1'] ∧
    (ofRatio 12 1000000).characters = ['1', '.', '2', 'e', '-', '5'] ∧
    (ofRatio (10 ^ 16) 1).characters = ['1', 'e', '1', '6'] ∧
    (⟨1⟩ : Binary64).characters = ['5', 'e', '-', '3', '2', '4'] := by decide +kernel

end Offside.Binary64
