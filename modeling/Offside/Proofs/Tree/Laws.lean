import Mathlib.Data.List.Nodup
import Offside.Proofs.Tree.Places

/-!
# Laws of an item

Some laws of the language say how the parts of an item stand together: a jump stands in a loop, a
`match` has distinct cases, a body is not empty, a function has parameters of different names. They
are stated here of the tree alone, at every depth.

## Main definitions

* `Offside.Item.nested`: the statements of an item with the number of loops around each.
* `Offside.Stmt.suites`, `Offside.Item.suites`: bodies.
* `Offside.Expr.integer?`: the integer that a literal denotes.
* `Offside.Item.Lawful`: the laws of an item.
-/

namespace Offside

/-! ### Loops around statements -/

mutual

/-- A statement and the statements inside it, each with the number of loops in whose bodies it
stands if the whole stands in those of `loops`. -/
def Stmt.nested (loops : Nat) (s : Stmt) : List (Nat × Stmt) :=
  (loops, s) :: match s with
    | .branch _ _ thenSuite elseSuite =>
      thenSuite.nested loops ++ Suite.nestedElse loops elseSuite
    | .forRange _ _ _ _ _ body | .whileLoop _ _ body | .doWhile _ body _ => body.nested (loops + 1)
    | .select _ _ arms => Arm.nestedAll loops arms
    | _ => []

/-- The statements inside a body. -/
def Suite.nested (loops : Nat) : Suite → List (Nat × Stmt)
  | .mk _ stmts => Stmt.nestedAll loops stmts

/-- The statements inside the other branch, if there is one. -/
def Suite.nestedElse (loops : Nat) : Option Suite → List (Nat × Stmt)
  | none => []
  | some suite => suite.nested loops

/-- Statements in order, each with those inside it. -/
def Stmt.nestedAll (loops : Nat) : List Stmt → List (Nat × Stmt)
  | [] => []
  | s :: ss => s.nested loops ++ Stmt.nestedAll loops ss

/-- The statements inside cases. -/
def Arm.nestedAll (loops : Nat) : List Arm → List (Nat × Stmt)
  | [] => []
  | .mk _ _ body :: arms => body.nested loops ++ Arm.nestedAll loops arms

end

/-- The statements inside an item, each with the number of loops in whose bodies it stands. -/
def Item.nested (item : Item) : List (Nat × Stmt) :=
  match item.shape with
  | .function _ body => body.nested 0
  | .statement stmt => stmt.nested 0
  | .external _ | .typeAlias _ _ | .struct _ => []

mutual

/-- No statement is left out. -/
theorem Stmt.map_snd_nested (loops : Nat) :
    (s : Stmt) → (s.nested loops).map Prod.snd = s.statements
  | .expr _ _ | .declare _ _ _ _ | .assign _ _ _ | .ret _ _ | .print _ _ | .jump _ _ => rfl
  | .branch _ _ thenSuite elseSuite => by
    simp [Stmt.nested, Stmt.statements, thenSuite.map_snd_nested,
      Suite.map_snd_nestedElse loops elseSuite]
  | .forRange _ _ _ _ _ body | .whileLoop _ _ body | .doWhile _ body _ => by
    simp [Stmt.nested, Stmt.statements, body.map_snd_nested]
  | .select _ _ arms => by simp [Stmt.nested, Stmt.statements, Arm.map_snd_nestedAll loops arms]

theorem Suite.map_snd_nested (loops : Nat) :
    (suite : Suite) → (suite.nested loops).map Prod.snd = suite.statements
  | .mk _ stmts => Stmt.map_snd_nestedAll loops stmts

theorem Suite.map_snd_nestedElse (loops : Nat) : (suite : Option Suite) →
    (Suite.nestedElse loops suite).map Prod.snd = Suite.statementsElse suite
  | none => rfl
  | some suite => suite.map_snd_nested loops

theorem Stmt.map_snd_nestedAll (loops : Nat) :
    (ss : List Stmt) → (Stmt.nestedAll loops ss).map Prod.snd = Stmt.statementsAll ss
  | [] => rfl
  | s :: ss => by
    simp [Stmt.nestedAll, Stmt.statementsAll, s.map_snd_nested, Stmt.map_snd_nestedAll loops ss]

theorem Arm.map_snd_nestedAll (loops : Nat) :
    (arms : List Arm) → (Arm.nestedAll loops arms).map Prod.snd = Arm.statementsAll arms
  | [] => rfl
  | .mk _ _ body :: arms => by
    simp [Arm.nestedAll, Arm.statementsAll, body.map_snd_nested, Arm.map_snd_nestedAll loops arms]

end

theorem Item.map_snd_nested (item : Item) : item.nested.map Prod.snd = item.statements := by
  obtain ⟨shape, place⟩ := item
  cases shape with
  | function _ body => exact body.map_snd_nested 0
  | statement stmt => exact stmt.map_snd_nested 0
  | external | typeAlias | struct => rfl

/-! ### Bodies -/

/-- The bodies right below a statement. -/
def Stmt.suites : Stmt → List Suite
  | .branch _ _ thenSuite elseSuite => thenSuite :: elseSuite.toList
  | .forRange _ _ _ _ _ body | .whileLoop _ _ body | .doWhile _ body _ => [body]
  | .select _ _ arms => arms.map Arm.body
  | .expr _ _ | .declare _ _ _ _ | .assign _ _ _ | .ret _ _ | .print _ _ | .jump _ _ => []

/-- The bodies of an item, at any depth. -/
def Item.suites (item : Item) : List Suite :=
  (match item.shape with
    | .function _ body => [body]
    | .external _ | .typeAlias _ _ | .struct _ | .statement _ => []) ++
  item.statements.flatMap Stmt.suites

/-! ### Cases -/

/-- The integer that a literal denotes: a number or the code of a character, or its negation. -/
def Expr.integer? : Expr → Option Int
  | .number _ (.int n) => some n
  | .unary _ .neg (.number _ (.int n)) => some (-n)
  | _ => none

/-- The expressions that the cases of a `match` accept, in order. -/
def Arm.accepted (arms : List Arm) : List Expr := arms.flatMap fun arm => arm.pattern.exprs

/-- The laws of the cases of a `match`. -/
structure Arm.Lawful (arms : List Arm) : Prop where
  ne_nil : arms ≠ []
  wildcards : arms.countP Arm.isWildcard ≤ 1
  /-- The values are different integers that have 64 bits with their sign. -/
  values : ∃ values : List Int, (accepted arms).map Expr.integer? = values.map some ∧
    values.Nodup ∧ ∀ n ∈ values, n.natAbs < Number.intBound

/-! ### Items -/

/-- The head of a function, here or elsewhere. -/
def Item.prototype? (item : Item) : Option Prototype :=
  match item.shape with
  | .function proto _ | .external proto => some proto
  | .typeAlias _ _ | .struct _ | .statement _ => none

/-- The laws of an item. -/
structure Item.Lawful (item : Item) : Prop where
  /-- A jump stands in the body of a loop. -/
  jumps : ∀ loops tag jump, (loops, .jump tag jump) ∈ item.nested → loops ≠ 0
  selects : ∀ tag scrutinee arms, .select tag scrutinee arms ∈ item.statements → Arm.Lawful arms
  suites : ∀ suite ∈ item.suites, suite.stmts ≠ []
  params : ∀ proto, item.prototype? = some proto → (proto.params.map Binding.name).Nodup

end Offside
