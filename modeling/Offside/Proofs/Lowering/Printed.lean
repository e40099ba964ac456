import Offside.Lowering.SExpr
import Offside.Proofs.Couples
import Offside.Proofs.Ensures
import Offside.Proofs.Tree.Erased

/-!
# The S-expression of a tree

Whatever is lowered to an S-expression is lowered to the same one, whether as a value or as a place,
and wherever it stands. So the S-expression of a tree is a function of the tree; only whether there
is one depends on the places in it.

## Main definitions

* `Offside.Expr.sexpr`, `Offside.Stmt.sexpr`, `Offside.Item.shown?`: the S-expression of a tree.
* `Offside.Item.Same`: items that differ in their tags and places only.

## Main results

* `Offside.Item.shown?_of_sexpr`: an item that can be lowered is lowered to its S-expression.
* `Offside.Item.Same.shown?_eq`: items that are the same have the same S-expression.
-/

namespace Offside

/-! ### Trees as S-expressions -/

mutual

/-- An expression as an S-expression. -/
def Expr.sexpr : Expr → SExpr
  | .number _ value => .ofCall (.number value)
  | .var _ name => .ofCall (.variable name)
  | .addressOf _ place => .ofCall (.addressOf place.sexpr)
  | .index _ base subscript => .ofCall (.index base.sexpr subscript.sexpr)
  | .member _ object field => .ofCall (.member object.sexpr field)
  | .unary _ op operand => .ofCall (.unary op operand.sexpr)
  | .binary _ op left right => .ofCall (.binary op left.sexpr right.sexpr)
  | .call _ callee args => .ofCall (.call callee (Expr.sexprs args))

/-- Expressions as S-expressions. -/
def Expr.sexprs : List Expr → List SExpr
  | [] => []
  | e :: es => e.sexpr :: Expr.sexprs es

end

/-- What a case accepts, as an S-expression. -/
def Pattern.sexpr? : Pattern → Option SExpr
  | .wildcard => none
  | .value e => some e.sexpr

mutual

/-- A statement as an S-expression. -/
def Stmt.sexpr : Stmt → SExpr
  | .expr _ value => .ofCall (.exprStmt value.sexpr)
  | .declare _ name type init => .ofCall (.declare name type (init.map Expr.sexpr))
  | .assign _ target value => .ofCall (.assign target.sexpr value.sexpr)
  | .ret _ value => .ofCall (.ret (value.map Expr.sexpr))
  | .print _ args => .ofCall (.print (Expr.sexprs args))
  | .branch _ condition thenSuite elseSuite =>
    .ofCall (.branch condition.sexpr thenSuite.sexprs (Suite.sexprs? elseSuite))
  | .forRange _ counter start stop step body =>
    .ofCall (.forRange counter start.sexpr stop.sexpr (step.map Expr.sexpr) body.sexprs)
  | .whileLoop _ condition body => .ofCall (.whileLoop condition.sexpr body.sexprs)
  | .doWhile _ body condition => .ofCall (.doWhile body.sexprs condition.sexpr)
  | .jump _ jump => .ofCall (.jump jump)
  | .select _ scrutinee arms => .ofCall (.select scrutinee.sexpr (Arm.sexprs arms))

/-- The statements of a body as S-expressions. -/
def Suite.sexprs : Suite → List SExpr
  | .mk _ stmts => Stmt.sexprs stmts

/-- The statements of the other branch as S-expressions, if there is one. -/
def Suite.sexprs? : Option Suite → Option (List SExpr)
  | none => none
  | some suite => some suite.sexprs

/-- Statements as S-expressions. -/
def Stmt.sexprs : List Stmt → List SExpr
  | [] => []
  | s :: ss => s.sexpr :: Stmt.sexprs ss

/-- Cases with S-expressions. -/
def Arm.sexprs : List Arm → List (LoweredArm SExpr)
  | [] => []
  | .mk _ pattern body :: arms => ⟨pattern.sexpr?, body.sexprs⟩ :: Arm.sexprs arms

end

/-- The declaration of the struct that an item stands for. -/
def Item.Shape.declared? (types : TypeEnv) : Item.Shape → Option StructDecl
  | .struct name => types.structDecl? name
  | .function _ _ | .external _ | .typeAlias _ _ | .statement _ => none

/-- An item as an S-expression, given the declaration of its struct. -/
def Item.Shape.sexpr? (decl : Option StructDecl) : Item.Shape → Option SExpr
  | .function proto body => some (.ofCall (.function proto body.sexprs))
  | .external proto => some (.ofCall (.external proto))
  | .typeAlias name target => some (.ofCall (.typeAlias name target))
  | .struct _ => decl.map fun decl => .ofCall (.struct decl)
  | .statement stmt => some (.ofCall (.topLevel stmt.sexpr))

/-- The S-expression of an item under some type tables. -/
def Item.shown? (types : TypeEnv) (item : Item) : Option SExpr :=
  item.shape.sexpr? (item.shape.declared? types)

/-- Items that differ in their tags and places only; struct items together with their
declarations. -/
structure Item.Same (types types' : TypeEnv) (item item' : Item) : Prop where
  shape : item.shape.erase = item'.shape.erase
  declared : (item.shape.declared? types).map StructDecl.erase =
    (item'.shape.declared? types').map StructDecl.erase

/-! ### Trees at other places -/

mutual

theorem Expr.sexpr_erase : (e : Expr) → e.erase.sexpr = e.sexpr
  | .number _ _ | .var _ _ => rfl
  | .addressOf _ e | .member _ e _ | .unary _ _ e => by
    rw [Expr.erase, Expr.sexpr, Expr.sexpr, e.sexpr_erase]
  | .index _ left right | .binary _ _ left right => by
    rw [Expr.erase, Expr.sexpr, Expr.sexpr, left.sexpr_erase, right.sexpr_erase]
  | .call _ _ args => by rw [Expr.erase, Expr.sexpr, Expr.sexpr, Expr.sexprs_eraseAll args]

theorem Expr.sexprs_eraseAll : (es : List Expr) → Expr.sexprs (Expr.eraseAll es) = Expr.sexprs es
  | [] => rfl
  | e :: es => by
    rw [Expr.eraseAll, Expr.sexprs, Expr.sexprs, e.sexpr_erase, Expr.sexprs_eraseAll es]

end

theorem Expr.map_sexpr_erase (e : Option Expr) :
    (e.map Expr.erase).map Expr.sexpr = e.map Expr.sexpr := by
  cases e with
  | none => rfl
  | some e => exact congrArg some e.sexpr_erase

theorem Pattern.sexpr?_erase (pattern : Pattern) : pattern.erase.sexpr? = pattern.sexpr? := by
  cases pattern with
  | wildcard => rfl
  | value e => exact congrArg some e.sexpr_erase

mutual

theorem Stmt.sexpr_erase : (s : Stmt) → s.erase.sexpr = s.sexpr
  | .expr _ value => by rw [Stmt.erase, Stmt.sexpr, Stmt.sexpr, value.sexpr_erase]
  | .declare _ _ _ init => by rw [Stmt.erase, Stmt.sexpr, Stmt.sexpr, Expr.map_sexpr_erase init]
  | .assign _ target value => by
    rw [Stmt.erase, Stmt.sexpr, Stmt.sexpr, target.sexpr_erase, value.sexpr_erase]
  | .ret _ value => by rw [Stmt.erase, Stmt.sexpr, Stmt.sexpr, Expr.map_sexpr_erase value]
  | .print _ args => by rw [Stmt.erase, Stmt.sexpr, Stmt.sexpr, Expr.sexprs_eraseAll args]
  | .branch _ condition thenSuite elseSuite => by
    rw [Stmt.erase, Stmt.sexpr, Stmt.sexpr, condition.sexpr_erase, thenSuite.sexprs_erase,
      Suite.sexprs?_eraseElse elseSuite]
  | .forRange _ _ start stop step body => by
    rw [Stmt.erase, Stmt.sexpr, Stmt.sexpr, start.sexpr_erase, stop.sexpr_erase,
      Expr.map_sexpr_erase step, body.sexprs_erase]
  | .whileLoop _ condition body | .doWhile _ body condition => by
    rw [Stmt.erase, Stmt.sexpr, Stmt.sexpr, condition.sexpr_erase, body.sexprs_erase]
  | .jump _ _ => rfl
  | .select _ scrutinee arms => by
    rw [Stmt.erase, Stmt.sexpr, Stmt.sexpr, scrutinee.sexpr_erase, Arm.sexprs_eraseAll arms]

theorem Suite.sexprs_erase : (suite : Suite) → suite.erase.sexprs = suite.sexprs
  | .mk _ stmts => by rw [Suite.erase, Suite.sexprs, Suite.sexprs, Stmt.sexprs_eraseAll stmts]

theorem Suite.sexprs?_eraseElse : (suite : Option Suite) →
    Suite.sexprs? (Suite.eraseElse suite) = Suite.sexprs? suite
  | none => rfl
  | some suite => by rw [Suite.eraseElse, Suite.sexprs?, Suite.sexprs?, suite.sexprs_erase]

theorem Stmt.sexprs_eraseAll : (ss : List Stmt) → Stmt.sexprs (Stmt.eraseAll ss) = Stmt.sexprs ss
  | [] => rfl
  | s :: ss => by
    rw [Stmt.eraseAll, Stmt.sexprs, Stmt.sexprs, s.sexpr_erase, Stmt.sexprs_eraseAll ss]

theorem Arm.sexprs_eraseAll : (arms : List Arm) → Arm.sexprs (Arm.eraseAll arms) = Arm.sexprs arms
  | [] => rfl
  | .mk _ pattern body :: arms => by
    rw [Arm.eraseAll, Arm.sexprs, Arm.sexprs, pattern.sexpr?_erase, body.sexprs_erase,
      Arm.sexprs_eraseAll arms]

end

theorem Item.Shape.sexpr?_erase (shape : Item.Shape) (decl : Option StructDecl) :
    shape.erase.sexpr? (decl.map StructDecl.erase) = shape.sexpr? decl := by
  cases shape with
  | function proto body =>
    rw [erase, sexpr?, sexpr?, body.sexprs_erase]
    rfl
  | external | typeAlias => rfl
  | struct => cases decl <;> rfl
  | statement stmt => rw [erase, sexpr?, sexpr?, stmt.sexpr_erase]

/-- Items that are the same have the same S-expression. -/
theorem Item.Same.shown?_eq {types types' : TypeEnv} {item item' : Item}
    (same : item.Same types types' item') : item.shown? types = item'.shown? types' := by
  rw [shown?, shown?, ← Shape.sexpr?_erase, ← Shape.sexpr?_erase item'.shape, same.shape,
    same.declared]

/-! ### Lowering -/

section

variable {α β : Type} {x : EStateM LowerError Unit α} {a : α} {b : β}

/-- If `x` succeeds then with the value `a`. -/
private def Gives (x : EStateM LowerError Unit α) (a : α) : Prop :=
  Yields () x (fun v _ => v = a) fun _ _ => True

private theorem gives_bind {f : α → EStateM LowerError Unit β} (hx : Gives x a)
    (hf : Gives (f a) b) : Gives (x >>= f) b := by
  refine yields_bind (Yields.mono hx ?_ fun _ _ => id)
  rintro _ ⟨⟩ rfl
  exact hf

private theorem gives_perform (call : Call SExpr) (place : Location) :
    Gives (sexprBackend.perform call place) (.ofCall call) := rfl

mutual

private theorem gives_lowerExpr : (e : Expr) → Gives (lowerExpr sexprBackend e) e.sexpr
  | .number _ _ | .var _ _ => by
    rw [lowerExpr, Expr.sexpr]
    exact gives_perform _ _
  | .addressOf _ place => by
    rw [lowerExpr, Expr.sexpr]
    exact gives_bind (gives_lowerPlace place) (gives_perform _ _)
  | .index _ base subscript => by
    rw [lowerExpr, Expr.sexpr]
    exact gives_bind (gives_lowerExpr base)
      (gives_bind (gives_lowerExpr subscript) (gives_perform _ _))
  | .member _ object _ => by
    rw [lowerExpr, Expr.sexpr]
    exact gives_bind (gives_lowerExpr object) (gives_perform _ _)
  | .unary _ _ operand => by
    rw [lowerExpr, Expr.sexpr]
    exact gives_bind (gives_lowerExpr operand) (gives_perform _ _)
  | .binary _ _ left right => by
    rw [lowerExpr, Expr.sexpr]
    exact gives_bind (gives_lowerExpr left) (gives_bind (gives_lowerExpr right) (gives_perform _ _))
  | .call _ _ args => by
    rw [lowerExpr, Expr.sexpr]
    exact gives_bind (gives_lowerExprs args) (gives_perform _ _)

/-- A place and a value look the same. -/
private theorem gives_lowerPlace : (e : Expr) → Gives (lowerPlace sexprBackend e) e.sexpr
  | .var _ name => by
    rw [lowerPlace, Expr.sexpr]
    exact gives_perform (.variablePlace name) _
  | .index _ base subscript => by
    rw [lowerPlace, Expr.sexpr]
    exact gives_bind (gives_lowerExpr base)
      (gives_bind (gives_lowerExpr subscript) (gives_perform (.indexPlace _ _) _))
  | .member _ object field => by
    rw [lowerPlace, Expr.sexpr]
    exact gives_bind (gives_lowerPlace object) (gives_perform (.memberPlace _ field) _)
  | .number _ _ | .addressOf _ _ | .unary _ _ _ | .binary _ _ _ _ | .call _ _ _ => by
    rw [lowerPlace]
    exact trivial

private theorem gives_lowerExprs : (es : List Expr) →
    Gives (lowerExprs sexprBackend es) (Expr.sexprs es)
  | [] => by
    rw [lowerExprs, Expr.sexprs]
    exact rfl
  | e :: es => by
    rw [lowerExprs, Expr.sexprs]
    exact gives_bind (gives_lowerExpr e) (gives_bind (gives_lowerExprs es) rfl)

end

private theorem gives_lowerOptional (e : Option Expr) :
    Gives (lowerOptional sexprBackend e) (e.map Expr.sexpr) := by
  cases e with
  | none => exact rfl
  | some e => exact gives_bind (gives_lowerExpr e) rfl

private theorem gives_lowerPattern (pattern : Pattern) :
    Gives (lowerPattern sexprBackend pattern) pattern.sexpr? := by
  cases pattern with
  | wildcard => exact rfl
  | value e => exact gives_bind (gives_lowerExpr e) rfl

mutual

private theorem gives_lowerStmt : (s : Stmt) → Gives (lowerStmt sexprBackend s) s.sexpr
  | .expr _ value => by
    rw [lowerStmt, Stmt.sexpr]
    exact gives_bind (gives_lowerExpr value) (gives_perform _ _)
  | .declare _ _ _ init => by
    rw [lowerStmt, Stmt.sexpr]
    exact gives_bind (gives_lowerOptional init) (gives_perform _ _)
  | .assign _ target value => by
    rw [lowerStmt, Stmt.sexpr]
    exact gives_bind (gives_lowerPlace target)
      (gives_bind (gives_lowerExpr value) (gives_perform _ _))
  | .ret _ value => by
    rw [lowerStmt, Stmt.sexpr]
    exact gives_bind (gives_lowerOptional value) (gives_perform _ _)
  | .print _ args => by
    rw [lowerStmt, Stmt.sexpr]
    exact gives_bind (gives_lowerExprs args) (gives_perform _ _)
  | .branch _ condition thenSuite elseSuite => by
    rw [lowerStmt, Stmt.sexpr]
    exact gives_bind (gives_lowerExpr condition) (gives_bind (gives_lowerSuite thenSuite)
      (gives_bind (gives_lowerElse elseSuite) (gives_perform _ _)))
  | .forRange _ _ start stop step body => by
    rw [lowerStmt, Stmt.sexpr]
    exact gives_bind (gives_lowerExpr start) (gives_bind (gives_lowerExpr stop)
      (gives_bind (gives_lowerOptional step) (gives_bind (gives_lowerSuite body)
        (gives_perform _ _))))
  | .whileLoop _ condition body => by
    rw [lowerStmt, Stmt.sexpr]
    exact gives_bind (gives_lowerExpr condition)
      (gives_bind (gives_lowerSuite body) (gives_perform _ _))
  | .doWhile _ body condition => by
    rw [lowerStmt, Stmt.sexpr]
    exact gives_bind (gives_lowerSuite body)
      (gives_bind (gives_lowerExpr condition) (gives_perform _ _))
  | .jump _ jump => by
    rw [lowerStmt, Stmt.sexpr]
    exact gives_perform _ _
  | .select _ scrutinee arms => by
    rw [lowerStmt, Stmt.sexpr]
    exact gives_bind (gives_lowerExpr scrutinee)
      (gives_bind (gives_lowerArms arms) (gives_perform _ _))

private theorem gives_lowerSuite : (suite : Suite) →
    Gives (lowerSuite sexprBackend suite) suite.sexprs
  | .mk _ stmts => by
    rw [lowerSuite, Suite.sexprs]
    exact gives_lowerStmts stmts

private theorem gives_lowerElse : (suite : Option Suite) →
    Gives (lowerElse sexprBackend suite) (Suite.sexprs? suite)
  | none => by
    rw [lowerElse, Suite.sexprs?]
    exact rfl
  | some suite => by
    rw [lowerElse, Suite.sexprs?]
    exact gives_bind (gives_lowerSuite suite) rfl

private theorem gives_lowerStmts : (ss : List Stmt) →
    Gives (lowerStmts sexprBackend ss) (Stmt.sexprs ss)
  | [] => by
    rw [lowerStmts, Stmt.sexprs]
    exact rfl
  | s :: ss => by
    rw [lowerStmts, Stmt.sexprs]
    exact gives_bind (gives_lowerStmt s) (gives_bind (gives_lowerStmts ss) rfl)

private theorem gives_lowerArms : (arms : List Arm) →
    Gives (lowerArms sexprBackend arms) (Arm.sexprs arms)
  | [] => by
    rw [lowerArms, Arm.sexprs]
    exact rfl
  | .mk _ pattern body :: arms => by
    rw [lowerArms, Arm.sexprs]
    exact gives_bind (gives_lowerPattern pattern) (gives_bind (gives_lowerSuite body)
      (gives_bind (gives_lowerArms arms) rfl))

end

end

/-- An item that can be lowered to an S-expression is lowered to its own one. -/
theorem Item.shown?_of_sexpr {types : TypeEnv} {item : Item} {value : SExpr}
    (h : item.sexpr types = .ok value) : item.shown? types = some value := by
  have hgives : Yields () (lowerItem sexprBackend types item)
      (fun v _ => item.shown? types = some v) fun _ _ => True := by
    obtain ⟨shape, place⟩ := item
    cases shape with
    | function proto body =>
      refine Yields.mono (gives_bind (gives_lowerSuite body) (gives_perform _ _)) ?_ fun _ _ => id
      rintro _ _ rfl
      rfl
    | external | typeAlias => exact rfl
    | struct name =>
      rw [lowerItem, shown?, Shape.declared?]
      dsimp only
      cases types.structDecl? name with
      | none => exact trivial
      | some decl => exact rfl
    | statement stmt =>
      refine Yields.mono (gives_bind (gives_lowerStmt stmt) (gives_perform _ _)) ?_ fun _ _ => id
      rintro _ _ rfl
      rfl
  rw [sexpr] at h
  split at h
  · next hrun =>
    cases h
    exact hgives.ok hrun
  · cases h

end Offside
