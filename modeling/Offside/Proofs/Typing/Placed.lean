import Offside.Proofs.Ensures
import Offside.Proofs.Tree.Relocated
import Offside.Typing.Check

/-!
# Where a check points

A check points into the item that it refuses: if places are moved and the item stays as it is, then
an error of its check stays where it is too. No other errors than semantic ones come from a check.

## Main definitions

* `Offside.Context.Blames`, `Offside.Check.Blames`: errors are at places that are not moved.

## Main results

* `Offside.blames_checkItem`: the errors of checking an item are at its places.
-/

namespace Offside

variable {f : Location → Location} {α β : Type}

/-! ### Hints -/

namespace Context

/-- The errors of `x` are semantic ones, at places that `f` does not move. -/
def Blames (f : Location → Location) (x : Except Diagnostic α) : Prop :=
  ∀ d, x = .error d → f d.location = d.location ∧ d.stage = .semantic

theorem blames_pure {a : α} : Blames f (pure a) := fun _ h => by cases h

theorem blames_error {error : SemanticError} {place : Location} (h : f place = place) :
    Blames f (.error (semanticError error place) : Except Diagnostic α) := by
  rintro _ ⟨⟩
  exact ⟨h, rfl⟩

theorem blames_bind {x : Except Diagnostic α} {g : α → Except Diagnostic β} (hx : Blames f x)
    (hg : ∀ a, Blames f (g a)) : Blames f (x >>= g) := by
  intro d hd
  cases x with
  | error e => exact hx d (by cases hd; rfl)
  | ok a => exact hg a d hd

variable (context : Context)

theorem blames_elementType (base : Option ResolvedType) {place : Location}
    (h : f place = place) : Blames f (context.elementType base place) := by
  unfold elementType
  split
  · exact blames_pure
  · exact blames_pure
  · exact blames_error h

theorem blames_fieldType (object : Option ResolvedType) (field : String) {place : Location}
    (h : f place = place) : Blames f (context.fieldType object field place) := by
  unfold fieldType
  split
  · exact blames_pure
  · dsimp only
    split
    · exact blames_pure
    · exact blames_error h
  · exact blames_error h

mutual

/-- A contradiction in an expression is reported at one of its places. -/
theorem blames_hint :
    (e : Expr) → e.relocate f = e → Blames f (context.hint e)
  | .number _ _, _ | .var _ _, _ => blames_pure
  | .addressOf tag place, h => by
    simp only [Expr.relocate, Expr.addressOf.injEq] at h
    rw [hint]
    split
    · exact blames_bind (blames_error (congrArg Tag.location h.1)) fun _ =>
        blames_bind (blames_hint place h.2) fun _ => blames_pure
    · exact blames_bind (blames_hint place h.2) fun _ => blames_pure
  | .index tag base subscript, h => by
    simp only [Expr.relocate, Expr.index.injEq] at h
    rw [hint]
    refine blames_bind (blames_hint subscript h.2.2) fun _ => ?_
    refine blames_bind (blames_hint base h.2.1) fun _ => ?_
    exact context.blames_elementType _ (congrArg Tag.location h.1)
  | .member tag object field, h => by
    simp only [Expr.relocate, Expr.member.injEq] at h
    rw [hint]
    refine blames_bind (blames_hint object h.2.1) fun _ => ?_
    exact context.blames_fieldType _ _ (congrArg Tag.location h.1)
  | .unary tag op operand, h => by
    simp only [Expr.relocate, Expr.unary.injEq] at h
    rw [hint]
    exact blames_bind (blames_hint operand h.2.2) fun _ => blames_pure
  | .binary tag op left right, h => by
    simp only [Expr.relocate, Expr.binary.injEq] at h
    rw [hint]
    refine blames_bind (blames_hint left h.2.2.1) fun _ => ?_
    exact blames_bind (blames_hint right h.2.2.2) fun _ => blames_pure
  | .call tag callee args, h => by
    simp only [Expr.relocate, Expr.call.injEq] at h
    rw [hint]
    exact blames_bind (blames_hintAll args h.2.2) fun _ => blames_pure

theorem blames_hintAll :
    (es : List Expr) → Expr.relocateAll f es = es →
      Blames f (context.hintAll es)
  | [], _ => blames_pure
  | e :: es, h => by
    rw [Expr.relocateAll, List.cons.injEq] at h
    rw [hintAll]
    exact blames_bind (blames_hint e h.1) fun _ => blames_hintAll es h.2

end

end Context

/-! ### Checks -/

namespace Check

/-- The errors of the check `x` are semantic ones, at places that `f` does not move. -/
def Blames (f : Location → Location) (x : Check α) : Prop :=
  ∀ s, Yields s x (fun _ _ => True) fun d _ => f d.location = d.location ∧ d.stage = .semantic

theorem blames_pure {a : α} : Blames f (pure a) := fun _ => trivial

theorem blames_fail {error : SemanticError} {place : Location} (h : f place = place) :
    Blames f (fail error place : Check α) := fun _ => ⟨h, rfl⟩

theorem blames_bind {x : Check α} {g : α → Check β} (hx : Blames f x)
    (hg : ∀ a, Blames f (g a)) : Blames f (x >>= g) :=
  fun s => yields_bind ((hx s).mono (fun a t _ => hg a t) fun _ _ h => h)

theorem blames_modify {g : CheckState → CheckState} : Blames f (modify g) := fun _ => trivial

theorem blames_get {g : CheckState → Check α} (h : ∀ s, Blames f (g s)) :
    Blames f (get >>= g) := fun s => h s s

theorem blames_hint {e : Expr} (h : e.relocate f = e) :
    Blames f (hint e) := by
  intro s
  have hplace := s.toContext.blames_hint e h
  rw [Yields, hint]
  cases he : s.toContext.hint e with
  | ok type => trivial
  | error d => exact hplace d he

theorem blames_hintAll {es : List Expr} (h : Expr.relocateAll f es = es) :
    Blames f (hintAll es) := by
  intro s
  have hplace := s.toContext.blames_hintAll es h
  rw [Yields, hintAll]
  cases he : s.toContext.hintAll es with
  | ok type => trivial
  | error d => exact hplace d he

theorem blames_resolve {type : TypeExpr} {place : Location} (h : f place = place) :
    Blames f (resolve type place) := by
  intro s
  rw [Yields]
  unfold resolve
  dsimp only
  cases (s.types.resolve type).answer with
  | ok type => trivial
  | error error => exact ⟨h, rfl⟩

/-- A check inside a construct. -/
private theorem blames_enclosed {x : Check β} {inside : Check α}
    {enter leave : CheckState → CheckState} {result : α → CheckState → β} (h : Blames f inside)
    (hx : ∀ s, x s = match inside (enter s) with
      | .ok a s => .ok (result a s) (leave s)
      | .error d s => .error d (leave s)) : Blames f x := by
  intro s
  have hs := h (enter s)
  rw [Yields] at hs ⊢
  rw [hx]
  split at hs
  · next hinside => rw [hinside]; trivial
  · next hinside => rw [hinside]; exact hs

section

variable {inside : Check α}

theorem blames_withScope {scope : Scope} (h : Blames f inside) :
    Blames f (withScope scope inside) := blames_enclosed h fun _ => rfl

theorem blames_withLoop (h : Blames f inside) : Blames f (withLoop inside) :=
  blames_enclosed h fun _ => rfl

theorem blames_withFunction {name : String} {signature : Signature} (h : Blames f inside) :
    Blames f (withFunction name signature inside) := blames_enclosed h fun _ => rfl

end

theorem blames_inScope {scope : Scope} {inside : Check Unit} (h : Blames f inside) :
    Blames f (inScope scope inside) :=
  blames_bind (blames_withScope h) fun _ => blames_pure

end Check

open Check

theorem blames_checkOne {e : Expr} (h : e.relocate f = e) :
    Check.Blames f (checkOptional (some e)) :=
  blames_bind (blames_hint h) fun _ => blames_pure

theorem blames_checkOptional {e : Option Expr} (h : e.map (Expr.relocate f) = e) :
    Check.Blames f (checkOptional e) := by
  cases e with
  | none => exact blames_pure
  | some e => exact blames_checkOne (Option.some.inj h)

theorem Expr.location_fixed {e : Expr} (h : e.relocate f = e) : f e.location = e.location := by
  rw [← location_relocate (f := f), h]

theorem blames_checkScrutinee {e : Expr} (h : e.relocate f = e) :
    Check.Blames f (checkScrutinee e) := by
  refine blames_bind (blames_hint h) fun type => ?_
  split
  · exact blames_pure
  · split
    · exact blames_get fun _ => blames_fail (Expr.location_fixed h)
    · exact blames_pure

theorem blames_checkPattern {pattern : Pattern} (h : pattern.relocate f = pattern)
    (seen : List Int) :
    Check.Blames f (checkPattern seen pattern) := by
  cases pattern with
  | wildcard => exact blames_pure
  | value e =>
    rw [Pattern.relocate, Pattern.value.injEq] at h
    have hplace := Expr.location_fixed h
    rw [checkPattern]
    split
    · exact blames_fail hplace
    · split
      · exact blames_bind (blames_fail hplace) fun _ => blames_pure
      · exact blames_pure

mutual

theorem blames_checkStmt :
    (s : Stmt) → s.relocate f = s →
      Check.Blames f (checkStmt s)
  | .expr tag value, h => by
    simp only [Stmt.relocate, Stmt.expr.injEq] at h
    exact blames_checkOne h.2
  | .declare tag name type init, h => by
    simp only [Stmt.relocate, Stmt.declare.injEq] at h
    refine blames_bind (blames_resolve (congrArg Tag.location h.1)) fun resolved => ?_
    exact blames_bind (blames_checkOptional h.2.2.2) fun _ => blames_modify
  | .assign tag target value, h => by
    simp only [Stmt.relocate, Stmt.assign.injEq] at h
    exact blames_bind (blames_checkOne h.2.1) fun _ =>
      blames_checkOne h.2.2
  | .ret tag value, h => by
    simp only [Stmt.relocate, Stmt.ret.injEq] at h
    exact blames_checkOptional h.2
  | .print tag args, h => by
    simp only [Stmt.relocate, Stmt.print.injEq] at h
    exact Check.blames_hintAll h.2
  | .branch tag condition thenSuite elseSuite, h => by
    simp only [Stmt.relocate, Stmt.branch.injEq] at h
    refine blames_bind (blames_checkOne h.2.1) fun _ => ?_
    refine blames_bind (blames_checkSuite thenSuite h.2.2.1) fun _ => ?_
    exact blames_checkElse elseSuite h.2.2.2
  | .forRange tag counter start stop step body, h => by
    simp only [Stmt.relocate, Stmt.forRange.injEq] at h
    refine blames_bind (Check.blames_hint h.2.2.1) fun type => ?_
    refine blames_bind (blames_checkOne h.2.2.2.1) fun _ => ?_
    refine blames_bind (blames_checkOptional h.2.2.2.2.1) fun _ => ?_
    exact blames_inScope (blames_withLoop (blames_checkSuite body h.2.2.2.2.2))
  | .whileLoop tag condition body, h => by
    simp only [Stmt.relocate, Stmt.whileLoop.injEq] at h
    refine blames_bind (blames_checkOne h.2.1) fun _ => ?_
    exact blames_withLoop (blames_checkSuite body h.2.2)
  | .doWhile tag body condition, h => by
    simp only [Stmt.relocate, Stmt.doWhile.injEq] at h
    refine blames_bind (blames_withLoop (blames_checkSuite body h.2.1)) fun _ => ?_
    exact blames_checkOne h.2.2
  | .jump tag jump, h => by
    simp only [Stmt.relocate, Stmt.jump.injEq] at h
    refine blames_get fun s => ?_
    split
    · exact blames_fail (congrArg Tag.location h.1)
    · exact blames_pure
  | .select tag scrutinee arms, h => by
    simp only [Stmt.relocate, Stmt.select.injEq] at h
    exact blames_bind (blames_checkScrutinee h.2.1) fun _ => blames_checkArms [] arms h.2.2

theorem blames_checkSuite :
    (suite : Suite) → suite.relocate f = suite →
      Check.Blames f (checkSuite suite)
  | .mk place stmts, h => by
    simp only [Suite.relocate, Suite.mk.injEq] at h
    exact blames_inScope (blames_checkStmts stmts h.2)

theorem blames_checkStmts :
    (ss : List Stmt) → Stmt.relocateAll f ss = ss →
      Check.Blames f (checkStmts ss)
  | [], _ => blames_pure
  | s :: ss, h => by
    rw [Stmt.relocateAll, List.cons.injEq] at h
    exact blames_bind (blames_checkStmt s h.1) fun _ => blames_checkStmts ss h.2

theorem blames_checkElse :
    (suite : Option Suite) → Suite.relocateElse f suite = suite →
      Check.Blames f (checkElse suite)
  | none, _ => blames_pure
  | some suite, h => by
    rw [Suite.relocateElse, Option.some.injEq] at h
    exact blames_checkSuite suite h

theorem blames_checkArms (seen : List Int) :
    (arms : List Arm) → Arm.relocateAll f arms = arms →
      Check.Blames f (checkArms seen arms)
  | [], _ => blames_pure
  | .mk place pattern body :: arms, h => by
    simp only [Arm.relocateAll, List.cons.injEq, Arm.mk.injEq] at h
    refine blames_bind (blames_checkPattern h.1.2.1 seen) fun seen => ?_
    refine blames_bind (blames_checkSuite body h.1.2.2) fun _ => ?_
    exact blames_checkArms seen arms h.2

end

/-! ### Items -/

theorem blames_resolveParams {place : Location} (h : f place = place) (params : List Binding) :
    Check.Blames f (resolveParams place params) := by
  induction params with
  | nil => exact blames_pure
  | cons param params ih =>
    refine blames_bind (blames_resolve h) fun type => ?_
    exact blames_bind ih fun types => blames_pure

theorem blames_resolveSignature {proto : Prototype} (h : f proto.location = proto.location) :
    Check.Blames f (resolveSignature proto) := by
  refine blames_bind (blames_resolveParams h proto.params) fun params => ?_
  exact blames_bind (blames_resolve h) fun result => blames_pure

/-- An item is refused at one of its places. -/
theorem blames_checkItem {item : Item} (h : item.relocate f = item) :
    Check.Blames f (checkItem item) := by
  obtain ⟨shape, place⟩ := item
  simp only [Item.relocate, Item.mk.injEq] at h
  cases shape with
  | function proto body =>
    simp only [Item.Shape.relocate, Item.Shape.function.injEq] at h
    have hplace : f proto.location = proto.location := congrArg Prototype.location h.1.1
    refine blames_bind (blames_resolveSignature hplace) fun signature => ?_
    exact blames_bind (blames_withFunction (blames_inScope (blames_checkSuite body h.1.2)))
      fun _ => blames_modify
  | external proto =>
    simp only [Item.Shape.relocate, Item.Shape.external.injEq] at h
    have hplace : f proto.location = proto.location := congrArg Prototype.location h.1
    exact blames_bind (blames_resolveSignature hplace) fun signature => blames_modify
  | typeAlias | struct => exact blames_pure
  | statement stmt =>
    simp only [Item.Shape.relocate, Item.Shape.statement.injEq] at h
    exact blames_bind (blames_withScope (blames_checkStmt stmt h.1)) fun result =>
      blames_modify

end Offside
