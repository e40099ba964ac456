import Offside.Parser.Basic

/-!
# Trees at other places

A construct that stands somewhere else in a text is read as the same tree at other places. The
places of a tree, and of the errors that point into it, are moved by one function of places; the
numbers of the nodes stay as they are.

## Main definitions

* `Offside.Location.down`: a place some lines further down.
* `Offside.Expr.relocate`, `Offside.Stmt.relocate`, `Offside.Item.relocate`: a tree at other places.
* `Offside.Diagnostic.relocate`, `Offside.Failure.relocate`, `Offside.LowerError.relocate`: an error
  at another place.
-/

namespace Offside

/-- The place some lines further down. -/
def Location.down (lines : Nat) (place : Location) : Location := ⟨place.line + lines, place.column⟩

@[simp] theorem Location.following_down (lines : Nat) (place : Location) :
    (place.down lines).following = place.following.down lines := rfl

@[simp] theorem Location.next_down (lines : Nat) (place : Location) (c : Char) :
    (place.down lines).next c = (place.next c).down lines := by
  unfold next
  split
  · simp only [down, Location.mk.injEq, and_true]
    omega
  · rfl

section

variable (f : Location → Location)

/-- A tag at another place. -/
def Tag.relocate (tag : Tag) : Tag := { tag with location := f tag.location }

mutual

/-- An expression at other places. -/
def Expr.relocate : Expr → Expr
  | .number tag value => .number (tag.relocate f) value
  | .var tag name => .var (tag.relocate f) name
  | .addressOf tag place => .addressOf (tag.relocate f) place.relocate
  | .index tag base subscript => .index (tag.relocate f) base.relocate subscript.relocate
  | .member tag object field => .member (tag.relocate f) object.relocate field
  | .unary tag op operand => .unary (tag.relocate f) op operand.relocate
  | .binary tag op left right => .binary (tag.relocate f) op left.relocate right.relocate
  | .call tag callee args => .call (tag.relocate f) callee (Expr.relocateAll args)

/-- Expressions at other places. -/
def Expr.relocateAll : List Expr → List Expr
  | [] => []
  | e :: es => e.relocate :: Expr.relocateAll es

end

/-- A pattern at another place. -/
def Pattern.relocate : Pattern → Pattern
  | .value e => .value (e.relocate f)
  | .wildcard => .wildcard

mutual

/-- A statement at other places. -/
def Stmt.relocate : Stmt → Stmt
  | .expr tag value => .expr (tag.relocate f) (value.relocate f)
  | .declare tag name type init =>
    .declare (tag.relocate f) name type (init.map (Expr.relocate f))
  | .assign tag target value => .assign (tag.relocate f) (target.relocate f) (value.relocate f)
  | .ret tag value => .ret (tag.relocate f) (value.map (Expr.relocate f))
  | .print tag args => .print (tag.relocate f) (Expr.relocateAll f args)
  | .branch tag condition thenSuite elseSuite =>
    .branch (tag.relocate f) (condition.relocate f) thenSuite.relocate
      (Suite.relocateElse elseSuite)
  | .forRange tag counter start stop step body =>
    .forRange (tag.relocate f) counter (start.relocate f) (stop.relocate f)
      (step.map (Expr.relocate f)) body.relocate
  | .whileLoop tag condition body =>
    .whileLoop (tag.relocate f) (condition.relocate f) body.relocate
  | .doWhile tag body condition => .doWhile (tag.relocate f) body.relocate (condition.relocate f)
  | .jump tag jump => .jump (tag.relocate f) jump
  | .select tag scrutinee arms =>
    .select (tag.relocate f) (scrutinee.relocate f) (Arm.relocateAll arms)

/-- A body at other places. -/
def Suite.relocate : Suite → Suite
  | .mk place stmts => .mk (f place) (Stmt.relocateAll stmts)

/-- The other branch, if there is one, at other places. -/
def Suite.relocateElse : Option Suite → Option Suite
  | none => none
  | some suite => some suite.relocate

/-- Statements at other places. -/
def Stmt.relocateAll : List Stmt → List Stmt
  | [] => []
  | s :: ss => s.relocate :: Stmt.relocateAll ss

/-- Cases at other places. -/
def Arm.relocateAll : List Arm → List Arm
  | [] => []
  | .mk place pattern body :: arms =>
    .mk (f place) (pattern.relocate f) body.relocate :: Arm.relocateAll arms

end

/-- A prototype at another place. -/
def Prototype.relocate (proto : Prototype) : Prototype :=
  { proto with location := f proto.location }

/-- A declaration of a struct at another place. -/
def StructDecl.relocate (decl : StructDecl) : StructDecl :=
  { decl with location := f decl.location }

/-- What an item is, at other places. -/
def Item.Shape.relocate : Item.Shape → Item.Shape
  | .function proto body => .function (proto.relocate f) (body.relocate f)
  | .external proto => .external (proto.relocate f)
  | .typeAlias name target => .typeAlias name target
  | .struct name => .struct name
  | .statement stmt => .statement (stmt.relocate f)

/-- An item at other places. -/
def Item.relocate (item : Item) : Item := ⟨item.shape.relocate f, f item.location⟩

/-- The same cause at another place. -/
def Diagnostic.relocate (d : Diagnostic) : Diagnostic := { d with location := f d.location }

/-- The same failure at another place. -/
def Failure.relocate : Failure → Failure
  | .diagnostic d => .diagnostic (d.relocate f)
  | .shown => .shown
  | .tooDeep => .tooDeep

/-- The same error at another place. -/
def LowerError.relocate : LowerError → LowerError
  | .notAddressable place => .notAddressable (f place)
  | .unknownStruct name => .unknownStruct name

end

variable {f : Location → Location}

@[simp] theorem Expr.location_relocate (e : Expr) : (e.relocate f).location = f e.location := by
  cases e <;> rfl

@[simp] theorem Expr.plainName?_relocate (e : Expr) :
    (e.relocate f).plainName? = e.plainName? := by
  cases e <;> rfl

@[simp] theorem Expr.isAddressable_relocate (e : Expr) :
    (e.relocate f).isAddressable = e.isAddressable := by
  cases e <;> rfl

@[simp] theorem Stmt.relocateAll_append (ss ts : List Stmt) :
    relocateAll f (ss ++ ts) = relocateAll f ss ++ relocateAll f ts := by
  induction ss with
  | nil => rfl
  | cons s ss ih => rw [List.cons_append, relocateAll, ih, relocateAll, List.cons_append]

@[simp] theorem Stmt.isEmpty_relocateAll (ss : List Stmt) :
    (relocateAll f ss).isEmpty = ss.isEmpty := by
  cases ss <;> rfl

theorem Stmt.length_relocateAll (ss : List Stmt) : (relocateAll f ss).length = ss.length := by
  induction ss with
  | nil => rfl
  | cons s ss ih => rw [relocateAll, List.length_cons, List.length_cons, ih]

@[simp] theorem Suite.length_stmts_relocate (suite : Suite) :
    (suite.relocate f).stmts.length = suite.stmts.length := by
  obtain ⟨place, stmts⟩ := suite
  exact Stmt.length_relocateAll stmts

@[simp] theorem Arm.relocateAll_append (as bs : List Arm) :
    relocateAll f (as ++ bs) = relocateAll f as ++ relocateAll f bs := by
  induction as with
  | nil => rfl
  | cons a as ih =>
    obtain ⟨place, pattern, body⟩ := a
    rw [List.cons_append, relocateAll, ih, relocateAll, List.cons_append]

@[simp] theorem Arm.isEmpty_relocateAll (as : List Arm) :
    (relocateAll f as).isEmpty = as.isEmpty := by
  cases as with
  | nil => rfl
  | cons a as =>
    obtain ⟨place, pattern, body⟩ := a
    rfl

/-- A case accepts everything wherever it stands. -/
@[simp] theorem Arm.any_isWildcard_relocateAll (as : List Arm) :
    (relocateAll f as).any Arm.isWildcard = as.any Arm.isWildcard := by
  induction as with
  | nil => rfl
  | cons a as ih =>
    obtain ⟨place, pattern, body⟩ := a
    rw [relocateAll, List.any_cons, List.any_cons, ih]
    cases pattern <;> rfl

/-- Nothing but the diagnostic of a failure has a place. -/
@[simp] theorem Failure.relocate_eq_tooDeep (failure : Failure) :
    failure.relocate f = .tooDeep ↔ failure = .tooDeep := by
  cases failure <;> simp [relocate]

/-! ### Trees that stay where they are -/

@[simp] theorem Expr.tag_relocate_id (tag : Tag) : tag.relocate id = tag := rfl

mutual

@[simp] theorem Expr.relocate_id (e : Expr) : e.relocate id = e := by
  cases e with
  | number | var => rfl
  | addressOf tag place => rw [Expr.relocate, place.relocate_id, Expr.tag_relocate_id]
  | index tag base subscript =>
    rw [Expr.relocate, base.relocate_id, subscript.relocate_id, Expr.tag_relocate_id]
  | member tag object field => rw [Expr.relocate, object.relocate_id, Expr.tag_relocate_id]
  | unary tag op operand => rw [Expr.relocate, operand.relocate_id, Expr.tag_relocate_id]
  | binary tag op left right =>
    rw [Expr.relocate, left.relocate_id, right.relocate_id, Expr.tag_relocate_id]
  | call tag callee args => rw [Expr.relocate, Expr.relocateAll_id args, Expr.tag_relocate_id]

@[simp] theorem Expr.relocateAll_id (es : List Expr) : Expr.relocateAll id es = es := by
  cases es with
  | nil => rfl
  | cons e es => rw [Expr.relocateAll, e.relocate_id, Expr.relocateAll_id es]

end

@[simp] theorem Expr.map_relocate_id (e : Option Expr) : e.map (relocate id) = e := by
  cases e <;> simp

@[simp] theorem Pattern.relocate_id (pattern : Pattern) : pattern.relocate id = pattern := by
  cases pattern <;> simp [relocate]

mutual

@[simp] theorem Stmt.relocate_id (s : Stmt) : s.relocate id = s := by
  cases s with
  | branch tag condition thenSuite elseSuite =>
    simp [Stmt.relocate, thenSuite.relocate_id, Suite.relocateElse_id elseSuite]
  | forRange tag counter start stop step body => simp [Stmt.relocate, body.relocate_id]
  | whileLoop tag condition body => simp [Stmt.relocate, body.relocate_id]
  | doWhile tag body condition => simp [Stmt.relocate, body.relocate_id]
  | select tag scrutinee arms => simp [Stmt.relocate, Arm.relocateAll_id arms]
  | expr | declare | assign | ret | print | jump => simp [Stmt.relocate]

@[simp] theorem Suite.relocate_id (suite : Suite) : suite.relocate id = suite := by
  cases suite with
  | mk place stmts => simp [Suite.relocate, Stmt.relocateAll_id stmts]

@[simp] theorem Suite.relocateElse_id (suite : Option Suite) :
    Suite.relocateElse id suite = suite := by
  cases suite with
  | none => rfl
  | some suite => simp [Suite.relocateElse, suite.relocate_id]

@[simp] theorem Stmt.relocateAll_id (ss : List Stmt) : Stmt.relocateAll id ss = ss := by
  cases ss with
  | nil => rfl
  | cons s ss => rw [Stmt.relocateAll, s.relocate_id, Stmt.relocateAll_id ss]

@[simp] theorem Arm.relocateAll_id (arms : List Arm) : Arm.relocateAll id arms = arms := by
  match arms with
  | [] => rfl
  | .mk place pattern body :: arms =>
    simp [Arm.relocateAll, body.relocate_id, Arm.relocateAll_id arms]

end

@[simp] theorem Item.relocate_id (item : Item) : item.relocate id = item := by
  obtain ⟨shape, place⟩ := item
  cases shape <;> simp [relocate, Item.Shape.relocate, Prototype.relocate]

@[simp] theorem Item.map_relocate_id (item : Option Item) : item.map (relocate id) = item := by
  cases item <;> simp

@[simp] theorem Failure.relocate_id (failure : Failure) : failure.relocate id = failure := by
  cases failure <;> rfl

end Offside
