import Offside.Tree.Stmt

/-!
# Arenas

An arena numbers the nodes of a text in the order in which they are finished and keeps each under
its number. Nodes finished after a mark can be dropped again.

## Main definitions

* `Offside.Arena`: the finished nodes.
* `Offside.Arena.addExpr`, `Offside.Arena.addStmt`: finish a node.
* `Offside.Arena.mark`, `Offside.Arena.rollback`: drop what was finished since.

## Main results

* `Offside.Arena.rollback_mark_addExpr`, `Offside.Arena.rollback_mark_addStmt`: dropping a node
  just finished restores the arena.
-/

namespace Offside

/-- The finished nodes of a text, each at its number. -/
structure Arena where
  exprs : Array Expr
  stmts : Array Stmt
  deriving Repr

namespace Arena

/-- No node is finished. -/
def empty : Arena := ⟨#[], #[]⟩

instance : Inhabited Arena := ⟨empty⟩

/-- Finish an expression node at a place; `build` makes it from its tag. -/
def addExpr (arena : Arena) (place : Location) (build : Tag → Expr) : Expr × Arena :=
  let e := build ⟨arena.exprs.size, place⟩
  (e, { arena with exprs := arena.exprs.push e })

/-- Finish a statement node at a place; `build` makes it from its tag. -/
def addStmt (arena : Arena) (place : Location) (build : Tag → Stmt) : Stmt × Arena :=
  let s := build ⟨arena.stmts.size, place⟩
  (s, { arena with stmts := arena.stmts.push s })

/-- How many nodes were finished at some moment. -/
structure Mark where
  exprs : Nat
  stmts : Nat
  deriving DecidableEq, Repr, Inhabited

/-- The present moment. -/
def mark (arena : Arena) : Mark := ⟨arena.exprs.size, arena.stmts.size⟩

/-- Drop every node finished after a mark. -/
def rollback (arena : Arena) (mark : Mark) : Arena :=
  ⟨arena.exprs.take mark.exprs, arena.stmts.take mark.stmts⟩

@[simp] theorem rollback_mark (arena : Arena) : arena.rollback arena.mark = arena := by
  simp [rollback, mark]

theorem rollback_mark_addExpr (arena : Arena) (place : Location) (build : Tag → Expr) :
    (arena.addExpr place build).2.rollback arena.mark = arena := by
  simp [rollback, mark, addExpr]

theorem rollback_mark_addStmt (arena : Arena) (place : Location) (build : Tag → Stmt) :
    (arena.addStmt place build).2.rollback arena.mark = arena := by
  simp [rollback, mark, addStmt]

end Arena

end Offside
