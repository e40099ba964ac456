import Offside.Tree.Item

/-!
# Statements and places inside a tree

A tree needs a place, and not a value, in two positions: as the target of an assignment and as the
operand of `addr`. An expression can be lowered to a place if it is a variable, an indexed
expression, or a member of such an expression, which is more than that it looks like a place at
its root.

## Main definitions

* `Offside.Stmt.statements`, `Offside.Item.statements`: the statements inside a statement or an
  item, at any depth.
* `Offside.Stmt.exprs`: the expressions that stand in a statement itself.
* `Offside.Item.places`: the expressions of an item that have to be places.
* `Offside.Expr.root`, `Offside.Expr.IsRooted`: what is left of a place without its members.
-/

namespace Offside

/-! ### Statements -/

mutual

/-- A statement and the statements inside it, at any depth. -/
def Stmt.statements (s : Stmt) : List Stmt :=
  s :: match s with
    | .branch _ _ thenSuite elseSuite => thenSuite.statements ++ Suite.statementsElse elseSuite
    | .forRange _ _ _ _ _ body | .whileLoop _ _ body | .doWhile _ body _ => body.statements
    | .select _ _ arms => Arm.statementsAll arms
    | _ => []

/-- The statements inside a body. -/
def Suite.statements : Suite → List Stmt
  | .mk _ stmts => Stmt.statementsAll stmts

/-- The statements inside the other branch, if there is one. -/
def Suite.statementsElse : Option Suite → List Stmt
  | none => []
  | some suite => suite.statements

/-- Statements in order, each with those inside it. -/
def Stmt.statementsAll : List Stmt → List Stmt
  | [] => []
  | s :: ss => s.statements ++ Stmt.statementsAll ss

/-- The statements inside cases. -/
def Arm.statementsAll : List Arm → List Stmt
  | [] => []
  | .mk _ _ body :: arms => body.statements ++ Arm.statementsAll arms

end

/-- The statements inside an item. -/
def Item.statements (item : Item) : List Stmt :=
  match item.shape with
  | .function _ body => body.statements
  | .statement stmt => stmt.statements
  | .external _ | .typeAlias _ _ | .struct _ => []

/-- What holds of a statement itself and of the statements inside it. -/
theorem Stmt.forall_mem_statements {P : Stmt → Prop} {s : Stmt} (h : P s)
    (hs : ∀ t ∈ s.statements.tail, P t) : ∀ t ∈ s.statements, P t := by
  rw [statements.eq_def] at hs ⊢
  exact List.forall_mem_cons.2 ⟨h, hs⟩

theorem Stmt.forall_mem_of_plain {P : Stmt → Prop} {s : Stmt} (hs : s.statements = [s])
    (h : P s) : ∀ t ∈ s.statements, P t := by
  rw [hs]
  exact List.forall_mem_singleton.2 h

theorem Stmt.mem_statementsAll {t : Stmt} {ss : List Stmt} :
    t ∈ statementsAll ss ↔ ∃ s ∈ ss, t ∈ s.statements := by
  induction ss with
  | nil => simp [statementsAll]
  | cons s ss ih => simp [statementsAll, ih]

theorem Arm.mem_statementsAll {t : Stmt} {arms : List Arm} :
    t ∈ statementsAll arms ↔ ∃ arm ∈ arms, t ∈ arm.body.statements := by
  induction arms with
  | nil => simp [statementsAll]
  | cons arm arms ih =>
    obtain ⟨place, pattern, body⟩ := arm
    simp [statementsAll, ih, Arm.body]

/-! ### Expressions -/

/-- The expression that a case accepts, if there is one. -/
def Pattern.exprs : Pattern → List Expr
  | .value e => [e]
  | .wildcard => []

/-- The expressions that stand in a statement itself. -/
def Stmt.exprs : Stmt → List Expr
  | .expr _ value => [value]
  | .declare _ _ _ init => init.toList
  | .assign _ target value => [target, value]
  | .ret _ value => value.toList
  | .print _ args => args
  | .branch _ condition _ _ | .whileLoop _ condition _ | .doWhile _ _ condition => [condition]
  | .forRange _ _ start stop step _ => [start, stop] ++ step.toList
  | .jump _ _ => []
  | .select _ scrutinee arms => scrutinee :: arms.flatMap fun arm => arm.pattern.exprs

/-- The expression that a statement itself assigns to, if it does. -/
def Stmt.target? : Stmt → Option Expr
  | .assign _ target _ => some target
  | _ => none

mutual

/-- The operands of `addr` in an expression, at any depth. -/
def Expr.addressed : Expr → List Expr
  | .number _ _ | .var _ _ => []
  | .addressOf _ place => place :: place.addressed
  | .index _ base subscript => base.addressed ++ subscript.addressed
  | .member _ object _ => object.addressed
  | .unary _ _ operand => operand.addressed
  | .binary _ _ left right => left.addressed ++ right.addressed
  | .call _ _ args => Expr.addressedAll args

/-- The operands of `addr` in several expressions. -/
def Expr.addressedAll : List Expr → List Expr
  | [] => []
  | e :: es => e.addressed ++ Expr.addressedAll es

end

theorem Expr.addressedAll_eq (es : List Expr) : addressedAll es = es.flatMap addressed := by
  induction es with
  | nil => rfl
  | cons e es ih => rw [addressedAll, ih, List.flatMap_cons]

/-! ### Places -/

/-- The expressions of a statement itself that have to be places. -/
def Stmt.places (s : Stmt) : List Expr := s.target?.toList ++ s.exprs.flatMap Expr.addressed

/-- The expressions of an item that have to be places. -/
def Item.places (item : Item) : List Expr := item.statements.flatMap Stmt.places

/-- The expression of which a chain of members is taken. -/
def Expr.root : Expr → Expr
  | .member _ object _ => object.root
  | e => e

/-- Whether an expression is a chain of members of a variable or an indexed expression. -/
def Expr.IsRooted (e : Expr) : Prop :=
  match e.root with
  | .var _ _ | .index _ _ _ => True
  | _ => False

instance (e : Expr) : Decidable e.IsRooted := by
  rw [Expr.IsRooted]
  split <;> infer_instance

/-- A place at its root need not be one below it. -/
theorem Expr.IsRooted.isAddressable {e : Expr} (h : e.IsRooted) : e.isAddressable := by
  cases e with
  | var | index | member => rfl
  | number | addressOf | unary | binary | call => exact h.elim

end Offside
