import Offside.Token.Basic

/-!
# Operators

## Main definitions

* `Offside.BinaryOp`, `Offside.UnaryOp`: the operators of expressions.
* `Offside.BinaryOp.precedence`: how tightly a binary operator binds; all associate to the left.
* `Offside.BinaryOp.ofKind?`: the binary operator that a token stands for.
-/

namespace Offside

/-- Binary operators. -/
inductive BinaryOp
  | add | sub | mul | div | mod
  | eq | ne | lt | le | gt | ge
  | and | or
  | bitAnd | bitOr | bitXor
  deriving DecidableEq, Repr

namespace BinaryOp

/-- The spelling of a binary operator. -/
def symbol : BinaryOp → String
  | add => "+"
  | sub => "-"
  | mul => "*"
  | div => "/"
  | mod => "%"
  | eq => "=="
  | ne => "!="
  | lt => "<"
  | le => "<="
  | gt => ">"
  | ge => ">="
  | and => "and"
  | or => "or"
  | bitAnd => "&"
  | bitOr => "|"
  | bitXor => "^"

/-- Comparisons yield a truth value. -/
def isComparison : BinaryOp → Bool
  | eq | ne | lt | le | gt | ge => true
  | _ => false

/-- Logical operators yield a truth value. -/
def isLogical : BinaryOp → Bool
  | and | or => true
  | _ => false

/-- How tightly a binary operator binds; a higher precedence binds tighter. -/
def precedence : BinaryOp → Nat
  | or => 5
  | and => 6
  | bitOr => 7
  | bitXor => 8
  | bitAnd => 9
  | eq | ne => 10
  | lt | gt | le | ge => 12
  | add | sub => 20
  | mul | div | mod => 40

/-- The binary operator that a token stands for. -/
def ofKind? : Kind → Option BinaryOp
  | .keyword .orWord => some or
  | .keyword .andWord => some and
  | .symbol .bar => some bitOr
  | .symbol .caret => some bitXor
  | .symbol .ampersand => some bitAnd
  | .symbol .equal => some eq
  | .symbol .notEqual => some ne
  | .symbol .less => some lt
  | .symbol .greater => some gt
  | .symbol .lessEqual => some le
  | .symbol .greaterEqual => some ge
  | .symbol .plus => some add
  | .symbol .minus => some sub
  | .symbol .star => some mul
  | .symbol .slash => some div
  | .symbol .percent => some mod
  | _ => none

/-- A binary operator is written as the token that stands for it. -/
theorem spelling_of_ofKind? {kind : Kind} {op : BinaryOp} (h : ofKind? kind = some op) :
    kind.spelling? = some op.symbol := by
  unfold ofKind? at h
  split at h <;> simp_all <;> subst h <;> rfl

end BinaryOp

/-- Unary operators. -/
inductive UnaryOp
  | neg
  | not
  | bitNot
  deriving DecidableEq, Repr

/-- The spelling of a unary operator; negation of truth values has two, of which this is one. -/
def UnaryOp.symbol : UnaryOp → String
  | neg => "-"
  | not => "not"
  | bitNot => "~"

end Offside
