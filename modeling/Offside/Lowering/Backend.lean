import Offside.Lowering.Error
import Offside.Types.Env

/-!
# Lowering to a backend

A code generator is a backend: it is asked once for each node, with the values that it gave for
the children of that node. The children are lowered first, from left to right. An expression that
is written to, or whose address is taken, is lowered as a place; only variables, indexed
expressions and members name one.

## Main definitions

* `Offside.Call`: what a backend is asked for.
* `Offside.Backend`: how a backend answers.
* `Offside.lowerExpr`, `Offside.lowerPlace`, `Offside.lowerStmt`, `Offside.lowerItem`: hand a
  tree to a backend.
-/

namespace Offside

/-- A case handed to a backend: the value that it accepts, or none if it accepts everything, and
the values of its body. -/
structure LoweredArm (V : Type) where
  pattern : Option V
  body : List V
  deriving Repr

/-- What a backend is asked for: a node with the values of its children. -/
inductive Call (V : Type)
  | number (value : Number)
  | variable (name : String)
  | addressOf (place : V)
  | index (base index : V)
  | member (object : V) (field : String)
  | unary (op : UnaryOp) (operand : V)
  | binary (op : BinaryOp) (left right : V)
  | call (callee : String) (args : List V)
  | variablePlace (name : String)
  | indexPlace (base index : V)
  | memberPlace (object : V) (field : String)
  | exprStmt (value : V)
  | declare (name : String) (type : TypeExpr) (init : Option V)
  | assign (target value : V)
  | ret (value : Option V)
  | print (args : List V)
  | branch (condition : V) (thenSuite : List V) (elseSuite : Option (List V))
  | forRange (counter : String) (start stop : V) (step : Option V) (body : List V)
  | whileLoop (condition : V) (body : List V)
  | doWhile (body : List V) (condition : V)
  | jump (jump : Jump)
  | select (scrutinee : V) (arms : List (LoweredArm V))
  | function (proto : Prototype) (body : List V)
  | external (proto : Prototype)
  | typeAlias (name : String) (target : TypeExpr)
  | struct (decl : StructDecl)
  | topLevel (stmt : V)
  deriving Repr

/-- A code generator with states `σ`, errors `ε` and values `V`. -/
structure Backend (σ ε V : Type) where
  /-- Answer a call about the node at a place. -/
  perform : Call V → Location → EStateM ε σ V
  /-- The backend's error for a tree that cannot be lowered. -/
  reject : LowerError → ε

section

variable {σ ε V : Type} (backend : Backend σ ε V)

mutual

/-- Lower an expression to its value. -/
def lowerExpr : Expr → EStateM ε σ V
  | .number tag value => backend.perform (.number value) tag.location
  | .var tag name => backend.perform (.variable name) tag.location
  | .addressOf tag place => do
    backend.perform (.addressOf (← lowerPlace place)) tag.location
  | .index tag base index => do
    let base ← lowerExpr base
    let index ← lowerExpr index
    backend.perform (.index base index) tag.location
  | .member tag object field => do
    backend.perform (.member (← lowerExpr object) field) tag.location
  | .unary tag op operand => do
    backend.perform (.unary op (← lowerExpr operand)) tag.location
  | .binary tag op left right => do
    let left ← lowerExpr left
    let right ← lowerExpr right
    backend.perform (.binary op left right) tag.location
  | .call tag callee args => do
    backend.perform (.call callee (← lowerExprs args)) tag.location

/-- Lower an expression to the place that it names. -/
def lowerPlace : Expr → EStateM ε σ V
  | .var tag name => backend.perform (.variablePlace name) tag.location
  | .index tag base index => do
    let base ← lowerExpr base
    let index ← lowerExpr index
    backend.perform (.indexPlace base index) tag.location
  | .member tag object field => do
    backend.perform (.memberPlace (← lowerPlace object) field) tag.location
  | .number tag _ | .addressOf tag _ | .unary tag _ _ | .binary tag _ _ _ | .call tag _ _ =>
    throw (backend.reject (.notAddressable tag.location))

/-- Lower expressions from left to right. -/
def lowerExprs : List Expr → EStateM ε σ (List V)
  | [] => return []
  | e :: es => do
    let v ← lowerExpr e
    return v :: (← lowerExprs es)

end

/-- Lower an expression that may be missing. -/
def lowerOptional : Option Expr → EStateM ε σ (Option V)
  | none => return none
  | some e => return some (← lowerExpr backend e)

/-- Lower what a case accepts. -/
def lowerPattern : Pattern → EStateM ε σ (Option V)
  | .wildcard => return none
  | .value e => return some (← lowerExpr backend e)

mutual

/-- Lower a statement. -/
def lowerStmt : Stmt → EStateM ε σ V
  | .expr tag value => do
    backend.perform (.exprStmt (← lowerExpr backend value)) tag.location
  | .declare tag name type init => do
    backend.perform (.declare name type (← lowerOptional backend init)) tag.location
  | .assign tag target value => do
    let target ← lowerPlace backend target
    let value ← lowerExpr backend value
    backend.perform (.assign target value) tag.location
  | .ret tag value => do
    backend.perform (.ret (← lowerOptional backend value)) tag.location
  | .print tag args => do
    backend.perform (.print (← lowerExprs backend args)) tag.location
  | .branch tag condition thenSuite elseSuite => do
    let condition ← lowerExpr backend condition
    let thenSuite ← lowerSuite thenSuite
    let elseSuite ← lowerElse elseSuite
    backend.perform (.branch condition thenSuite elseSuite) tag.location
  | .forRange tag counter start stop step body => do
    let start ← lowerExpr backend start
    let stop ← lowerExpr backend stop
    let step ← lowerOptional backend step
    let body ← lowerSuite body
    backend.perform (.forRange counter start stop step body) tag.location
  | .whileLoop tag condition body => do
    let condition ← lowerExpr backend condition
    let body ← lowerSuite body
    backend.perform (.whileLoop condition body) tag.location
  | .doWhile tag body condition => do
    let body ← lowerSuite body
    let condition ← lowerExpr backend condition
    backend.perform (.doWhile body condition) tag.location
  | .jump tag jump => backend.perform (.jump jump) tag.location
  | .select tag scrutinee arms => do
    let scrutinee ← lowerExpr backend scrutinee
    let arms ← lowerArms arms
    backend.perform (.select scrutinee arms) tag.location

/-- Lower the statements of a body. -/
def lowerSuite : Suite → EStateM ε σ (List V)
  | .mk _ stmts => lowerStmts stmts

/-- Lower statements in order. -/
def lowerStmts : List Stmt → EStateM ε σ (List V)
  | [] => return []
  | s :: ss => do
    let v ← lowerStmt s
    return v :: (← lowerStmts ss)

/-- Lower the other branch, if there is one. -/
def lowerElse : Option Suite → EStateM ε σ (Option (List V))
  | none => return none
  | some suite => return some (← lowerSuite suite)

/-- Lower cases in order. -/
def lowerArms : List Arm → EStateM ε σ (List (LoweredArm V))
  | [] => return []
  | .mk _ pattern body :: arms => do
    let pattern ← lowerPattern backend pattern
    let body ← lowerSuite body
    return ⟨pattern, body⟩ :: (← lowerArms arms)

end

/-- Lower an item. The declaration of a struct is looked up in the type tables. -/
def lowerItem (types : TypeEnv) (item : Item) : EStateM ε σ V :=
  match item.shape with
  | .function proto body => do
    let body ← lowerSuite backend body
    backend.perform (.function proto body) proto.location
  | .external proto => backend.perform (.external proto) proto.location
  | .typeAlias name target => backend.perform (.typeAlias name target) item.location
  | .struct name =>
    match types.structDecl? name with
    | none => throw (backend.reject (.unknownStruct name))
    | some decl => backend.perform (.struct decl) decl.location
  | .statement stmt => do
    backend.perform (.topLevel (← lowerStmt backend stmt)) item.location

end

end Offside
