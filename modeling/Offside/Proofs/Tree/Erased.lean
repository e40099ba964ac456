import Offside.Types.Env

/-!
# Trees without tags and places

Two readings of one construct in two places of a text differ in the numbers and the places of their
nodes and in nothing else. Erasing both leaves the construct itself.

## Main definitions

* `Offside.Expr.erase`, `Offside.Stmt.erase`, `Offside.Item.Shape.erase`: a tree with every number
  and place erased.
* `Offside.Expr.Same`: expressions that differ in numbers and places only.
* `Offside.TypeEnv.erase`: type tables with the places of their structs erased.
-/

namespace Offside

/-- The place that stands for every place. -/
def Location.erased : Location := ⟨0, 0⟩

/-- The tag that stands for every tag. -/
def Tag.erased : Tag := ⟨0, .erased⟩

mutual

/-- An expression with its tags erased. -/
def Expr.erase : Expr → Expr
  | .number _ value => .number .erased value
  | .var _ name => .var .erased name
  | .addressOf _ place => .addressOf .erased place.erase
  | .index _ base subscript => .index .erased base.erase subscript.erase
  | .member _ object field => .member .erased object.erase field
  | .unary _ op operand => .unary .erased op operand.erase
  | .binary _ op left right => .binary .erased op left.erase right.erase
  | .call _ callee args => .call .erased callee (Expr.eraseAll args)

/-- Expressions with their tags erased. -/
def Expr.eraseAll : List Expr → List Expr
  | [] => []
  | e :: es => e.erase :: Expr.eraseAll es

end

namespace Expr

/-- Expressions that differ in their tags only. -/
def Same (e e' : Expr) : Prop := e'.erase = e.erase

@[simp] theorem plainName?_erase (e : Expr) : e.erase.plainName? = e.plainName? := by
  cases e <;> rfl

@[simp] theorem isAddressable_erase (e : Expr) : e.erase.isAddressable = e.isAddressable := by
  cases e <;> rfl

theorem Same.plainName? {e e' : Expr} (h : e.Same e') : e'.plainName? = e.plainName? := by
  rw [← plainName?_erase, h, plainName?_erase]

theorem Same.isAddressable {e e' : Expr} (h : e.Same e') : e'.isAddressable = e.isAddressable := by
  rw [← isAddressable_erase, h, isAddressable_erase]

end Expr

/-- A pattern with its tags erased. -/
def Pattern.erase : Pattern → Pattern
  | .value e => .value e.erase
  | .wildcard => .wildcard

mutual

/-- A statement with its tags and places erased. -/
def Stmt.erase : Stmt → Stmt
  | .expr _ value => .expr .erased value.erase
  | .declare _ name type init => .declare .erased name type (init.map Expr.erase)
  | .assign _ target value => .assign .erased target.erase value.erase
  | .ret _ value => .ret .erased (value.map Expr.erase)
  | .print _ args => .print .erased (Expr.eraseAll args)
  | .branch _ condition thenSuite elseSuite =>
    .branch .erased condition.erase thenSuite.erase (Suite.eraseElse elseSuite)
  | .forRange _ counter start stop step body =>
    .forRange .erased counter start.erase stop.erase (step.map Expr.erase) body.erase
  | .whileLoop _ condition body => .whileLoop .erased condition.erase body.erase
  | .doWhile _ body condition => .doWhile .erased body.erase condition.erase
  | .jump _ jump => .jump .erased jump
  | .select _ scrutinee arms => .select .erased scrutinee.erase (Arm.eraseAll arms)

/-- A body with its tags and places erased. -/
def Suite.erase : Suite → Suite
  | .mk _ stmts => .mk .erased (Stmt.eraseAll stmts)

/-- The other branch, if there is one, with its tags and places erased. -/
def Suite.eraseElse : Option Suite → Option Suite
  | none => none
  | some suite => some suite.erase

/-- Statements with their tags and places erased. -/
def Stmt.eraseAll : List Stmt → List Stmt
  | [] => []
  | s :: ss => s.erase :: Stmt.eraseAll ss

/-- Cases with their tags and places erased. -/
def Arm.eraseAll : List Arm → List Arm
  | [] => []
  | .mk _ pattern body :: arms => .mk .erased pattern.erase body.erase :: Arm.eraseAll arms

end

theorem Stmt.eraseAll_append (ss ts : List Stmt) :
    eraseAll (ss ++ ts) = eraseAll ss ++ eraseAll ts := by
  induction ss with
  | nil => rfl
  | cons s ss ih => simp [eraseAll, ih]

theorem Arm.eraseAll_append (as bs : List Arm) :
    eraseAll (as ++ bs) = eraseAll as ++ eraseAll bs := by
  induction as with
  | nil => rfl
  | cons a as ih =>
    obtain ⟨place, pattern, body⟩ := a
    simp [eraseAll, ih]

@[simp] theorem Stmt.isEmpty_eraseAll (ss : List Stmt) : (eraseAll ss).isEmpty = ss.isEmpty := by
  cases ss <;> rfl

@[simp] theorem Arm.isEmpty_eraseAll (as : List Arm) : (eraseAll as).isEmpty = as.isEmpty := by
  cases as with
  | nil => rfl
  | cons a as =>
    obtain ⟨place, pattern, body⟩ := a
    rfl

theorem Stmt.isEmpty_congr {ss ts : List Stmt} (h : eraseAll ts = eraseAll ss) :
    ts.isEmpty = ss.isEmpty := by
  rw [← isEmpty_eraseAll, h, isEmpty_eraseAll]

theorem Arm.isEmpty_congr {as bs : List Arm} (h : eraseAll bs = eraseAll as) :
    bs.isEmpty = as.isEmpty := by
  rw [← isEmpty_eraseAll, h, isEmpty_eraseAll]

@[simp] theorem Arm.any_isWildcard_eraseAll (as : List Arm) :
    (eraseAll as).any Arm.isWildcard = as.any Arm.isWildcard := by
  induction as with
  | nil => rfl
  | cons a as ih =>
    obtain ⟨place, pattern, body⟩ := a
    rw [eraseAll, List.any_cons, List.any_cons, ih]
    cases pattern <;> rfl

/-- A prototype with its place erased. -/
def Prototype.erase (proto : Prototype) : Prototype := { proto with location := .erased }

/-- A declaration of a struct with its place erased. -/
def StructDecl.erase (decl : StructDecl) : StructDecl := { decl with location := .erased }

/-- What an item is, with its tags and places erased. -/
def Item.Shape.erase : Item.Shape → Item.Shape
  | .function proto body => .function proto.erase body.erase
  | .external proto => .external proto.erase
  | .typeAlias name target => .typeAlias name target
  | .struct name => .struct name
  | .statement stmt => .statement stmt.erase

/-! ### Type tables -/

/-- A declared struct with its place erased. -/
def StructEntry.erase (entry : StructEntry) : StructEntry := { entry with decl := entry.decl.erase }

namespace TypeEnv

/-- Type tables with the places of their structs erased. -/
def erase (env : TypeEnv) : TypeEnv := { env with structs := env.structs.map StructEntry.erase }

@[simp] theorem hasStruct_erase (env : TypeEnv) (name : String) :
    env.erase.hasStruct name = env.hasStruct name := by
  rw [hasStruct, Table.contains, erase, Table.get?_map, Option.isSome_map]
  rfl

@[simp] theorem alias?_erase (env : TypeEnv) (name : String) :
    env.erase.alias? name = env.alias? name := rfl

@[simp] theorem erase_declareAlias (env : TypeEnv) (name : String) (target : TypeExpr) :
    (env.declareAlias name target).erase = env.erase.declareAlias name target := rfl

@[simp] theorem erase_declareStruct (env : TypeEnv) (decl : StructDecl) :
    (env.declareStruct decl).erase = env.erase.declareStruct decl.erase := by
  have hname : env.erase.hasStruct decl.erase.name = env.hasStruct decl.name :=
    env.hasStruct_erase decl.name
  rw [declareStruct, declareStruct, hname]
  split
  · rfl
  · rw [erase, ← Table.insert_map]
    rfl

end TypeEnv

end Offside
