import Offside.Lowering.SExpr
import Offside.Proofs.Couples
import Offside.Proofs.Tree.Relocated

/-!
# S-expressions do not show places

An item has the same S-expression wherever it stands, and where it has none, the error is the same
one at the place that corresponds. Of the type tables nothing shows but the name and the fields of a
struct.

## Main results

* `Offside.Item.sexpr_relocate`: an item at other places.
-/

namespace Offside

variable {f : Location → Location} {α β : Type}

/-- Lowering one tree and another one: the values are the same, or the errors are the same but for
their places. -/
private def LowersAlike (f : Location → Location) (x x' : EStateM LowerError Unit α) : Prop :=
  Couples () () x x' (fun v _ v' _ => v = v') fun e _ e' _ => e' = e.relocate f

private theorem lowersAlike_pure (a : α) : LowersAlike f (pure a) (pure a) := rfl

private theorem lowersAlike_bind {x x' : EStateM LowerError Unit α}
    {g g' : α → EStateM LowerError Unit β} (hx : LowersAlike f x x')
    (hg : ∀ a, LowersAlike f (g a) (g' a)) : LowersAlike f (x >>= g) (x' >>= g') := by
  refine couples_bind (hx.mono ?_ fun _ _ _ _ h => h)
  rintro a _ _ _ rfl
  exact hg a

/-- Every node is answered without regard to its place. -/
private theorem lowersAlike_perform (call : Call SExpr) (place place' : Location) :
    LowersAlike f (sexprBackend.perform call place) (sexprBackend.perform call place') := rfl

mutual

private theorem lowersAlike_expr (e : Expr) :
    LowersAlike f (lowerExpr sexprBackend e) (lowerExpr sexprBackend (e.relocate f)) := by
  cases e with
  | number tag value | var tag name =>
    rw [Expr.relocate, lowerExpr, lowerExpr]
    exact lowersAlike_perform _ _ _
  | addressOf tag place =>
    rw [Expr.relocate, lowerExpr, lowerExpr]
    exact lowersAlike_bind (lowersAlike_place place) fun _ => lowersAlike_perform _ _ _
  | index tag base subscript =>
    rw [Expr.relocate, lowerExpr, lowerExpr]
    refine lowersAlike_bind (lowersAlike_expr base) fun _ => ?_
    exact lowersAlike_bind (lowersAlike_expr subscript) fun _ => lowersAlike_perform _ _ _
  | member tag object field =>
    rw [Expr.relocate, lowerExpr, lowerExpr]
    exact lowersAlike_bind (lowersAlike_expr object) fun _ => lowersAlike_perform _ _ _
  | unary tag op operand =>
    rw [Expr.relocate, lowerExpr, lowerExpr]
    exact lowersAlike_bind (lowersAlike_expr operand) fun _ => lowersAlike_perform _ _ _
  | binary tag op left right =>
    rw [Expr.relocate, lowerExpr, lowerExpr]
    refine lowersAlike_bind (lowersAlike_expr left) fun _ => ?_
    exact lowersAlike_bind (lowersAlike_expr right) fun _ => lowersAlike_perform _ _ _
  | call tag callee args =>
    rw [Expr.relocate, lowerExpr, lowerExpr]
    exact lowersAlike_bind (lowersAlike_exprs args) fun _ => lowersAlike_perform _ _ _

private theorem lowersAlike_place (e : Expr) :
    LowersAlike f (lowerPlace sexprBackend e) (lowerPlace sexprBackend (e.relocate f)) := by
  cases e with
  | var tag name =>
    rw [Expr.relocate, lowerPlace, lowerPlace]
    exact lowersAlike_perform _ _ _
  | index tag base subscript =>
    rw [Expr.relocate, lowerPlace, lowerPlace]
    refine lowersAlike_bind (lowersAlike_expr base) fun _ => ?_
    exact lowersAlike_bind (lowersAlike_expr subscript) fun _ => lowersAlike_perform _ _ _
  | member tag object field =>
    rw [Expr.relocate, lowerPlace, lowerPlace]
    exact lowersAlike_bind (lowersAlike_place object) fun _ => lowersAlike_perform _ _ _
  | number | addressOf | unary | binary | call =>
    rw [Expr.relocate, lowerPlace, lowerPlace]
    exact rfl

private theorem lowersAlike_exprs (es : List Expr) :
    LowersAlike f (lowerExprs sexprBackend es)
      (lowerExprs sexprBackend (Expr.relocateAll f es)) := by
  cases es with
  | nil =>
    rw [Expr.relocateAll, lowerExprs]
    exact lowersAlike_pure _
  | cons e es =>
    rw [Expr.relocateAll, lowerExprs, lowerExprs]
    refine lowersAlike_bind (lowersAlike_expr e) fun _ => ?_
    exact lowersAlike_bind (lowersAlike_exprs es) fun _ => lowersAlike_pure _

end

private theorem lowersAlike_optional (e : Option Expr) :
    LowersAlike f (lowerOptional sexprBackend e)
      (lowerOptional sexprBackend (e.map (Expr.relocate f))) := by
  cases e with
  | none => exact lowersAlike_pure _
  | some e => exact lowersAlike_bind (lowersAlike_expr e) fun _ => lowersAlike_pure _

private theorem lowersAlike_pattern (p : Pattern) :
    LowersAlike f (lowerPattern sexprBackend p) (lowerPattern sexprBackend (p.relocate f)) := by
  cases p with
  | wildcard => exact lowersAlike_pure _
  | value e => exact lowersAlike_bind (lowersAlike_expr e) fun _ => lowersAlike_pure _

mutual

private theorem lowersAlike_stmt (s : Stmt) :
    LowersAlike f (lowerStmt sexprBackend s) (lowerStmt sexprBackend (s.relocate f)) := by
  cases s with
  | expr tag value =>
    rw [Stmt.relocate, lowerStmt, lowerStmt]
    exact lowersAlike_bind (lowersAlike_expr value) fun _ => lowersAlike_perform _ _ _
  | declare tag name type init =>
    rw [Stmt.relocate, lowerStmt, lowerStmt]
    exact lowersAlike_bind (lowersAlike_optional init) fun _ => lowersAlike_perform _ _ _
  | assign tag target value =>
    rw [Stmt.relocate, lowerStmt, lowerStmt]
    refine lowersAlike_bind (lowersAlike_place target) fun _ => ?_
    exact lowersAlike_bind (lowersAlike_expr value) fun _ => lowersAlike_perform _ _ _
  | ret tag value =>
    rw [Stmt.relocate, lowerStmt, lowerStmt]
    exact lowersAlike_bind (lowersAlike_optional value) fun _ => lowersAlike_perform _ _ _
  | print tag args =>
    rw [Stmt.relocate, lowerStmt, lowerStmt]
    exact lowersAlike_bind (lowersAlike_exprs args) fun _ => lowersAlike_perform _ _ _
  | branch tag condition thenSuite elseSuite =>
    rw [Stmt.relocate, lowerStmt, lowerStmt]
    refine lowersAlike_bind (lowersAlike_expr condition) fun _ => ?_
    refine lowersAlike_bind (lowersAlike_suite thenSuite) fun _ => ?_
    exact lowersAlike_bind (lowersAlike_else elseSuite) fun _ => lowersAlike_perform _ _ _
  | forRange tag counter start stop step body =>
    rw [Stmt.relocate, lowerStmt, lowerStmt]
    refine lowersAlike_bind (lowersAlike_expr start) fun _ => ?_
    refine lowersAlike_bind (lowersAlike_expr stop) fun _ => ?_
    refine lowersAlike_bind (lowersAlike_optional step) fun _ => ?_
    exact lowersAlike_bind (lowersAlike_suite body) fun _ => lowersAlike_perform _ _ _
  | whileLoop tag condition body =>
    rw [Stmt.relocate, lowerStmt, lowerStmt]
    refine lowersAlike_bind (lowersAlike_expr condition) fun _ => ?_
    exact lowersAlike_bind (lowersAlike_suite body) fun _ => lowersAlike_perform _ _ _
  | doWhile tag body condition =>
    rw [Stmt.relocate, lowerStmt, lowerStmt]
    refine lowersAlike_bind (lowersAlike_suite body) fun _ => ?_
    exact lowersAlike_bind (lowersAlike_expr condition) fun _ => lowersAlike_perform _ _ _
  | jump tag jump =>
    rw [Stmt.relocate, lowerStmt, lowerStmt]
    exact lowersAlike_perform _ _ _
  | select tag scrutinee arms =>
    rw [Stmt.relocate, lowerStmt, lowerStmt]
    refine lowersAlike_bind (lowersAlike_expr scrutinee) fun _ => ?_
    exact lowersAlike_bind (lowersAlike_arms arms) fun _ => lowersAlike_perform _ _ _

private theorem lowersAlike_suite (suite : Suite) :
    LowersAlike f (lowerSuite sexprBackend suite)
      (lowerSuite sexprBackend (suite.relocate f)) := by
  cases suite with
  | mk place stmts =>
    rw [Suite.relocate, lowerSuite, lowerSuite]
    exact lowersAlike_stmts stmts

private theorem lowersAlike_stmts (ss : List Stmt) :
    LowersAlike f (lowerStmts sexprBackend ss)
      (lowerStmts sexprBackend (Stmt.relocateAll f ss)) := by
  cases ss with
  | nil =>
    rw [Stmt.relocateAll, lowerStmts]
    exact lowersAlike_pure _
  | cons s ss =>
    rw [Stmt.relocateAll, lowerStmts, lowerStmts]
    refine lowersAlike_bind (lowersAlike_stmt s) fun _ => ?_
    exact lowersAlike_bind (lowersAlike_stmts ss) fun _ => lowersAlike_pure _

private theorem lowersAlike_else (suite : Option Suite) :
    LowersAlike f (lowerElse sexprBackend suite)
      (lowerElse sexprBackend (Suite.relocateElse f suite)) := by
  cases suite with
  | none =>
    rw [Suite.relocateElse, lowerElse]
    exact lowersAlike_pure _
  | some suite =>
    rw [Suite.relocateElse, lowerElse, lowerElse]
    exact lowersAlike_bind (lowersAlike_suite suite) fun _ => lowersAlike_pure _

private theorem lowersAlike_arms (arms : List Arm) :
    LowersAlike f (lowerArms sexprBackend arms)
      (lowerArms sexprBackend (Arm.relocateAll f arms)) := by
  cases arms with
  | nil =>
    rw [Arm.relocateAll, lowerArms]
    exact lowersAlike_pure _
  | cons arm arms =>
    cases arm with
    | mk place pattern body =>
      rw [Arm.relocateAll, lowerArms, lowerArms]
      refine lowersAlike_bind (lowersAlike_pattern pattern) fun _ => ?_
      refine lowersAlike_bind (lowersAlike_suite body) fun _ => ?_
      exact lowersAlike_bind (lowersAlike_arms arms) fun _ => lowersAlike_pure _

end

/-- An item at other places has the same S-expression or the same error, under tables that declare
its struct with the same name and fields. -/
theorem Item.sexpr_relocate {types types' : TypeEnv} (item : Item)
    (same : ∀ name, (types'.structDecl? name).map (fun decl => (decl.name, decl.fields)) =
      (types.structDecl? name).map fun decl => (decl.name, decl.fields)) :
    (item.relocate f).sexpr types' = (item.sexpr types).mapError (LowerError.relocate f) := by
  have h : LowersAlike f (lowerItem sexprBackend types item)
      (lowerItem sexprBackend types' (item.relocate f)) := by
    obtain ⟨shape, place⟩ := item
    cases shape with
    | function proto body =>
      exact lowersAlike_bind (lowersAlike_suite body) fun _ => rfl
    | external proto => exact rfl
    | typeAlias name target => exact rfl
    | struct name =>
      have hsame := same name
      rw [Item.relocate, Item.Shape.relocate, lowerItem, lowerItem]
      dsimp only
      cases hdecl : types.structDecl? name with
      | none =>
        rw [hdecl, Option.map_none, Option.map_eq_none_iff] at hsame
        rw [hsame]
        exact rfl
      | some decl =>
        rw [hdecl, Option.map_some, Option.map_eq_some_iff] at hsame
        obtain ⟨decl', hdecl', heq⟩ := hsame
        obtain ⟨hname, hfields⟩ := Prod.mk.inj heq
        rw [hdecl']
        show SExpr.ofCall (.struct decl) = SExpr.ofCall (.struct decl')
        rw [SExpr.ofCall, SExpr.ofCall, hname, hfields]
    | statement stmt =>
      exact lowersAlike_bind (lowersAlike_stmt stmt) fun _ => rfl
  rw [LowersAlike, Couples] at h
  rw [Item.sexpr, Item.sexpr, EStateM.run, EStateM.run]
  split at h
  · next hx hx' =>
    rw [hx, hx', h]
    rfl
  · next hx hx' =>
    rw [hx, hx', h]
    rfl
  · exact h.elim
  · exact h.elim

end Offside
