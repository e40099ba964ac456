import Offside.Binary64.Shortest

/-!
# Number literals

The value of a literal is an integer that fits in 63 bits or a correctly rounded binary64 number.
A run of digits and dots denotes an integer when it has no dot, and a floating-point number when
it has exactly one. A character literal is the integer of its code point.

## Main definitions

* `Offside.Number`: the value of a literal.
* `Offside.Number.ofRun?`: the value of a run of digits and dots.
* `Offside.Number.text`: the printed form of a value.
-/

namespace Offside

open scoped Binary64

/-- The value of a number or character literal. -/
inductive Number
  | int (value : Nat)
  | float (value : Binary64)
  deriving DecidableEq, Repr

namespace Number

/-- Integer literals are below this bound. -/
def intBound : Nat := 2 ^ (63 : Nat)

/-- The number that decimal digits denote. -/
def ofDigits (digits : List Char) : Nat :=
  digits.foldl (fun n d => 10 * n + (d.toNat - 48)) 0

/-- The value of a run of digits and dots: none for an integer out of bounds, for two dots, and
for a run without a digit. -/
def ofRun? (run : List Char) : Option Number :=
  let whole := run.takeWhile Char.isDigit
  match run.dropWhile Char.isDigit with
  | [] =>
    let value := ofDigits whole
    if whole ≠ [] ∧ value < intBound then some (.int value) else none
  | '.' :: fraction =>
    if fraction.all Char.isDigit ∧ whole ++ fraction ≠ [] then
      some (.float (Binary64.ofRatio (ofDigits (whole ++ fraction)) (10 ^ fraction.length)))
    else none
  | _ => none

/-- The printed form: decimal digits, or the shortest digits that read back. -/
def text : Number → String
  | int value => toString value
  | float value => value.text

/-- An integer, a fraction, and three runs that denote nothing. -/
example : ofRun? ['0', '4', '2'] = some (.int 42) ∧
    ofRun? ['.', '5'] = some (.float ⟨0x3FE0000000000000⟩) ∧
    ofRun? ['1', '.'] = some (.float ⟨0x3FF0000000000000⟩) ∧
    ofRun? ['1', '.', '2', '.'] = none ∧ ofRun? ['.'] = none ∧
    ofRun? (Nat.toDigits 10 intBound) = none := by decide +kernel

end Number

end Offside
