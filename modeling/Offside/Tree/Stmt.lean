import Offside.Diagnostic.Semantic
import Offside.Tree.Expr
import Offside.Tree.TypeExpr

/-!
# Statement trees

## Main definitions

* `Offside.Stmt`, `Offside.Suite`, `Offside.Arm`: statements, their bodies, and the cases of a
  `match`.
-/

namespace Offside

/-- What a case of a `match` accepts. -/
inductive Pattern
  | value (value : Expr)
  | wildcard
  deriving Repr

mutual

/-- Statements. -/
inductive Stmt
  | expr (tag : Tag) (value : Expr)
  | declare (tag : Tag) (name : String) (type : TypeExpr) (init : Option Expr)
  | assign (tag : Tag) (target value : Expr)
  | ret (tag : Tag) (value : Option Expr)
  | print (tag : Tag) (args : List Expr)
  | branch (tag : Tag) (condition : Expr) (thenSuite : Suite) (elseSuite : Option Suite)
  | forRange (tag : Tag) (counter : String) (start stop : Expr) (step : Option Expr) (body : Suite)
  | whileLoop (tag : Tag) (condition : Expr) (body : Suite)
  | doWhile (tag : Tag) (body : Suite) (condition : Expr)
  | jump (tag : Tag) (jump : Jump)
  | select (tag : Tag) (scrutinee : Expr) (arms : List Arm)
  deriving Repr

/-- The body of a statement: the statements of an indented block, or one statement on the line of
its header. -/
inductive Suite
  | mk (location : Location) (stmts : List Stmt)
  deriving Repr

/-- A case of a `match`. -/
inductive Arm
  | mk (location : Location) (pattern : Pattern) (body : Suite)
  deriving Repr

end

namespace Stmt

/-- The tag of the root. -/
def tag : Stmt → Tag
  | expr tag _ | declare tag _ _ _ | assign tag _ _ | ret tag _ | print tag _ | branch tag _ _ _
  | forRange tag _ _ _ _ _ | whileLoop tag _ _ | doWhile tag _ _ | jump tag _ | select tag _ _ =>
    tag

/-- The place of the root. -/
def location (s : Stmt) : Location := s.tag.location

end Stmt

namespace Suite

/-- The place of the first statement or of the indent. -/
def location : Suite → Location
  | mk location _ => location

/-- The statements of a body. -/
def stmts : Suite → List Stmt
  | mk _ stmts => stmts

end Suite

namespace Arm

/-- The place of the word `case`. -/
def location : Arm → Location
  | mk location _ _ => location

/-- What the case accepts. -/
def pattern : Arm → Pattern
  | mk _ pattern _ => pattern

/-- What the case does. -/
def body : Arm → Suite
  | mk _ _ body => body

/-- Whether the case accepts everything. -/
def isWildcard (arm : Arm) : Bool :=
  match arm.pattern with
  | .wildcard => true
  | .value _ => false

end Arm

end Offside
