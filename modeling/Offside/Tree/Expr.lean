import Offside.Location
import Offside.Tree.Operator

/-!
# Expression trees

Every node carries a tag: its number in the arena of the text that it was read from, and the place
of the token that stands for it.

## Main definitions

* `Offside.Tag`: the number and the place of a node.
* `Offside.Expr`: expressions.
* `Offside.Expr.isAddressable`: whether an expression names a place that can be written to.
-/

namespace Offside

/-- The number of a node among those of its sort, and its place. -/
structure Tag where
  id : Nat
  location : Location
  deriving DecidableEq, Repr

/-- Expressions. -/
inductive Expr
  | number (tag : Tag) (value : Number)
  | var (tag : Tag) (name : String)
  | addressOf (tag : Tag) (place : Expr)
  | index (tag : Tag) (base index : Expr)
  | member (tag : Tag) (object : Expr) (field : String)
  | unary (tag : Tag) (op : UnaryOp) (operand : Expr)
  | binary (tag : Tag) (op : BinaryOp) (left right : Expr)
  | call (tag : Tag) (callee : String) (args : List Expr)
  deriving Repr

namespace Expr

/-- The tag of the root. -/
def tag : Expr → Tag
  | number tag _ | var tag _ | addressOf tag _ | index tag _ _ | member tag _ _ | unary tag _ _
  | binary tag _ _ _ | call tag _ _ => tag

/-- The place of the root. -/
def location (e : Expr) : Location := e.tag.location

/-- Whether an expression names a place that can be written to. -/
def isAddressable : Expr → Bool
  | var _ _ | index _ _ _ | member _ _ _ => true
  | _ => false

/-- The name that an expression consists of. -/
def plainName? : Expr → Option String
  | var _ name => some name
  | _ => none

end Expr

end Offside
