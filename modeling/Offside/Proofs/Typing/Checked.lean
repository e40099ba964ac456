import Offside.Proofs.Tree.Places
import Offside.Proofs.Types.Declared
import Offside.Typing.Check

/-!
# What a check keeps and guarantees

A check may resolve types, declare names and make notes, but it declares no alias and no struct.
What resolution does to the type tables is all that it does to them. If it succeeds, every operand
of `addr` in the item looks like a place.

## Main definitions

* `Offside.CheckState.ResolveFrame`, `Offside.CheckState.Frame`, `Offside.CheckState.ItemFrame`:
  relations that checks keep.
* `Offside.Check.Publishes`: checks that declare functions and globals at the end only.

## Main results

* `Offside.Context.addressable_of_hint`: an expression with a type has such operands only.
* `Offside.ensures_checkItem`: so does an item that passes.
* `Offside.publishes_checkItem`: what a check keeps before it declares a function or a global.
-/

namespace Offside

/-- The operands of `addr` in the expressions of `es` look like places. -/
def Expr.AddressesPlaces (es : List Expr) : Prop :=
  ∀ place ∈ es.flatMap addressed, place.isAddressable

theorem Expr.addressesPlaces_append {es fs : List Expr} :
    AddressesPlaces (es ++ fs) ↔ AddressesPlaces es ∧ AddressesPlaces fs := by
  simp [AddressesPlaces, or_imp, forall_and]

theorem Expr.addressesPlaces_cons {e : Expr} {es : List Expr} :
    AddressesPlaces (e :: es) ↔ AddressesPlaces [e] ∧ AddressesPlaces es := by
  rw [← addressesPlaces_append, List.singleton_append]

@[simp] theorem Expr.addressesPlaces_nil : AddressesPlaces [] := by simp [AddressesPlaces]

theorem exists_of_bind_ok {ε α β : Type} {x : Except ε α} {f : α → Except ε β} {b : β}
    (h : x >>= f = .ok b) : ∃ a, x = .ok a ∧ f a = .ok b := by
  cases x with
  | error e => cases h
  | ok a => exact ⟨a, rfl, h⟩

mutual

theorem Context.addressable_of_hint (context : Context) :
    (e : Expr) → {type : Option ResolvedType} → context.hint e = .ok type →
      ∀ place ∈ e.addressed, place.isAddressable
  | .number _ _, _, _ => by simp [Expr.addressed]
  | .var _ _, _, _ => by simp [Expr.addressed]
  | .addressOf _ place, _, h => by
    rw [hint] at h
    by_cases hplace : place.isAddressable
    · rw [hplace] at h
      obtain ⟨_, hinner, -⟩ := exists_of_bind_ok h
      rw [Expr.addressed]
      exact List.forall_mem_cons.2 ⟨hplace, context.addressable_of_hint place hinner⟩
    · rw [Bool.not_eq_true] at hplace
      rw [hplace] at h
      cases h
  | .index _ base position, _, h => by
    rw [hint] at h
    obtain ⟨_, hposition, h⟩ := exists_of_bind_ok h
    obtain ⟨_, hbase, -⟩ := exists_of_bind_ok h
    rw [Expr.addressed]
    exact List.forall_mem_append.2
      ⟨context.addressable_of_hint base hbase, context.addressable_of_hint position hposition⟩
  | .member _ object _, _, h => by
    rw [hint] at h
    obtain ⟨_, hobject, -⟩ := exists_of_bind_ok h
    exact context.addressable_of_hint object hobject
  | .unary _ _ operand, _, h => by
    rw [hint] at h
    obtain ⟨_, hoperand, -⟩ := exists_of_bind_ok h
    exact context.addressable_of_hint operand hoperand
  | .binary _ _ left right, _, h => by
    rw [hint] at h
    obtain ⟨_, hleft, h⟩ := exists_of_bind_ok h
    obtain ⟨_, hright, -⟩ := exists_of_bind_ok h
    rw [Expr.addressed]
    exact List.forall_mem_append.2
      ⟨context.addressable_of_hint left hleft, context.addressable_of_hint right hright⟩
  | .call _ _ args, _, h => by
    rw [hint] at h
    obtain ⟨_, hargs, -⟩ := exists_of_bind_ok h
    exact context.addressable_of_hintAll args hargs

theorem Context.addressable_of_hintAll (context : Context) :
    (es : List Expr) → context.hintAll es = .ok () →
      ∀ place ∈ Expr.addressedAll es, place.isAddressable
  | [], _ => by simp [Expr.addressedAll]
  | e :: es, h => by
    rw [hintAll] at h
    obtain ⟨_, he, h⟩ := exists_of_bind_ok h
    rw [Expr.addressedAll]
    exact List.forall_mem_append.2
      ⟨context.addressable_of_hint e he, context.addressable_of_hintAll es h⟩

end

/-! ### Checks -/

/-- Relations between checks in progress that the resolution of a type keeps. -/
class CheckState.ResolveFrame (R : CheckState → CheckState → Prop) : Prop
    extends IsPreorder CheckState R where
  resolve (s : CheckState) (type : TypeExpr) :
    R s { s with
      types := (s.types.resolve type).env
      notes := (s.types.resolve type).notes.reverse ++ s.notes }

/-- Relations between checks in progress that the check of a statement keeps: it resolves types,
declares names in the innermost scope, and leaves the scopes and the loops that it enters. -/
class CheckState.Frame (R : CheckState → CheckState → Prop) : Prop
    extends CheckState.ResolveFrame R where
  declare (s : CheckState) (name : String) (type : ResolvedType) {scope : Scope}
    {outer : List Scope} (h : s.scopes = scope :: outer) :
    R s { s with scopes := scope.insert name type :: outer }
  leaveScope {s t : CheckState} (scope : Scope) (h : R { s with scopes := scope :: s.scopes } t) :
    R s { t with scopes := t.scopes.tail }
  leaveLoop {s t : CheckState} (h : R { s with loops := s.loops + 1 } t) :
    R s { t with loops := t.loops - 1 }

/-- Relations that the check of an item keeps up to the moment when its name is declared: it may
enter and leave the body of a function besides. -/
class CheckState.ItemFrame (R : CheckState → CheckState → Prop) : Prop
    extends CheckState.Frame R where
  leaveFunction {s t : CheckState} (name : String) (signature : Signature)
    (h : R { s with function := some (name, signature) } t) : R s { t with function := none }

/-- Checks in progress whose tables are related by `R`. -/
def CheckState.Across (R : TypeEnv → TypeEnv → Prop) (s t : CheckState) : Prop := R s.types t.types

instance {R : TypeEnv → TypeEnv → Prop} [TypeEnv.ResolveFrame R] :
    CheckState.ItemFrame (CheckState.Across R) where
  refl s := refl_of R s.types
  trans _ _ _ := trans_of R
  resolve s type := TypeEnv.ResolveFrame.resolve s.types type
  declare s _ _ _ _ _ := refl_of R s.types
  leaveScope _ h := h
  leaveLoop h := h
  leaveFunction _ _ h := h

/-- Checks in progress that know the same functions and globals. -/
def CheckState.SameSymbols (s t : CheckState) : Prop := t.symbols = s.symbols

instance : CheckState.ItemFrame CheckState.SameSymbols where
  refl _ := rfl
  trans _ _ _ h k := k.trans h
  resolve _ _ := rfl
  declare _ _ _ _ _ _ := rfl
  leaveScope _ h := h
  leaveLoop h := h
  leaveFunction _ _ h := h

variable {R : CheckState → CheckState → Prop}

namespace Check

section

variable [IsPreorder CheckState R]

theorem ensures_hint (e : Expr) :
    Ensures R (fun _ => Expr.AddressesPlaces [e]) (hint e) := by
  intro s
  rw [EnsuresAt, Yields, hint]
  cases h : s.toContext.hint e with
  | error d => exact refl_of R s
  | ok type =>
    refine ⟨refl_of R s, ?_⟩
    simpa [Expr.AddressesPlaces] using s.toContext.addressable_of_hint e h

theorem ensures_hintAll (es : List Expr) :
    Ensures R (fun _ => Expr.AddressesPlaces es) (hintAll es) := by
  intro s
  rw [EnsuresAt, Yields, hintAll]
  cases h : s.toContext.hintAll es with
  | error d => exact refl_of R s
  | ok _ =>
    refine ⟨refl_of R s, ?_⟩
    rw [Expr.AddressesPlaces, ← Expr.addressedAll_eq]
    exact s.toContext.addressable_of_hintAll es h

end

theorem ensures_resolve [CheckState.ResolveFrame R] (type : TypeExpr) (place : Location) :
    Ensures R (fun _ => True) (resolve type place) := by
  intro s
  have hresolve := CheckState.ResolveFrame.resolve (R := R) s type
  rw [EnsuresAt, Yields, resolve]
  cases h : (s.types.resolve type).answer with
  | error e => simpa [h] using! hresolve
  | ok resolved => simpa [h] using! hresolve

theorem ensures_declare [CheckState.Frame R] (name : String) (type : ResolvedType) :
    Ensures R (fun _ => True) (declare name type) := by
  refine ensures_modify fun s => ?_
  split
  · exact refl_of R s
  · next hscopes => exact CheckState.Frame.declare s name type hscopes

section

variable {α β : Type} {Q : α → Prop} {inside : Check α} (h : Ensures R Q inside)
include h

/-- What is entered before a check and left after it, whether or not the check succeeds. -/
theorem ensures_enclosed {R' : CheckState → CheckState → Prop} {Q' : β → Prop} {x : Check β}
    {enter leave : CheckState → CheckState} {result : α → CheckState → β}
    (hx : ∀ s, x s = match inside (enter s) with
      | .ok a t => .ok (result a t) (leave t)
      | .error d t => .error d (leave t))
    (hleave : ∀ {s t}, R (enter s) t → R' s (leave t))
    (hQ : ∀ a t, Q a → Q' (result a t)) : Ensures R' Q' x := by
  intro s
  rw [EnsuresAt, Yields]
  rw [hx]
  cases hs : inside (enter s) with
  | ok a t =>
    obtain ⟨hkept, ha⟩ := (h (enter s)).ok hs
    exact ⟨hleave hkept, hQ a t ha⟩
  | error d t => exact hleave ((h (enter s)).error hs)

theorem ensures_withScope [CheckState.Frame R] (scope : Scope) :
    Ensures R (fun result => Q result.1) (withScope scope inside) :=
  ensures_enclosed h (fun _ => rfl) (CheckState.Frame.leaveScope scope) fun _ _ ha => ha

theorem ensures_withLoop [CheckState.Frame R] : Ensures R Q (withLoop inside) :=
  ensures_enclosed h (fun _ => rfl) CheckState.Frame.leaveLoop fun _ _ ha => ha

theorem ensures_withFunction [CheckState.ItemFrame R] (name : String) (signature : Signature) :
    Ensures R Q (withFunction name signature inside) :=
  ensures_enclosed h (fun _ => rfl) (CheckState.ItemFrame.leaveFunction name signature)
    fun _ _ ha => ha

end

end Check

open Check

section

variable [IsPreorder CheckState R]

theorem ensures_checkOptional (e : Option Expr) :
    Ensures R (fun _ => Expr.AddressesPlaces e.toList) (checkOptional e) := by
  cases e with
  | none => exact ensures_pure Expr.addressesPlaces_nil
  | some e => exact ensures_bind (ensures_hint e) fun _ he => ensures_pure he

theorem ensures_checkScrutinee (e : Expr) :
    Ensures R (fun _ => Expr.AddressesPlaces [e]) (checkScrutinee e) := by
  refine ensures_bind (ensures_hint e) fun type he => ?_
  split
  · exact ensures_pure he
  · split
    · exact ensures_seq ensures_get fun _ => ensures_throw _
    · exact ensures_pure he

/-- The value of a case is written as an integer or the negation of one. -/
theorem exists_of_caseConstant {e : Expr} {n : Int} (h : caseConstant e = .ok n) :
    ∃ m : Nat, (∃ tag, e = .number tag (.int m) ∧ n = m) ∨
      ∃ tag tag', e = .unary tag .neg (.number tag' (.int m)) ∧ n = -m := by
  unfold caseConstant at h
  split at h
  · next m =>
    cases h
    exact ⟨m, .inl ⟨_, rfl, rfl⟩⟩
  · next m =>
    cases h
    exact ⟨m, .inr ⟨_, _, rfl, rfl⟩⟩
  all_goals cases h

/-- A literal addresses nothing. -/
theorem addressed_of_caseConstant {e : Expr} {n : Int} (h : caseConstant e = .ok n) :
    e.addressed = [] := by
  obtain ⟨m, ⟨tag, rfl, -⟩ | ⟨tag, tag', rfl, -⟩⟩ := exists_of_caseConstant h <;> rfl

theorem ensures_checkPattern (seen : List Int) (pattern : Pattern) :
    Ensures R (fun _ => Expr.AddressesPlaces pattern.exprs)
      (checkPattern seen pattern) := by
  cases pattern with
  | wildcard => exact ensures_pure Expr.addressesPlaces_nil
  | value e =>
    rw [checkPattern]
    split
    · exact ensures_throw _
    · next value hvalue =>
      have he : Expr.AddressesPlaces [e] := by
        simp [Expr.AddressesPlaces, addressed_of_caseConstant hvalue]
      split
      · exact ensures_absurd (ensures_throw _)
      · exact ensures_pure he

end

/-- The operands of `addr` in the expressions of several statements look like places. -/
def Stmt.AddressPlaces (ss : List Stmt) : Prop := ∀ s ∈ ss, Expr.AddressesPlaces s.exprs

section

variable [CheckState.Frame R]

mutual

theorem ensures_checkStmt : (s : Stmt) →
    Ensures R (fun _ => Stmt.AddressPlaces s.statements) (checkStmt s)
  | .expr _ value => by
    rw [checkStmt]
    exact (ensures_checkOptional _).mono fun _ hvalue => Stmt.forall_mem_of_plain rfl hvalue
  | .declare tag name type init => by
    rw [checkStmt]
    refine ensures_seq (ensures_resolve type tag.location) fun resolved => ?_
    refine ensures_bind (ensures_checkOptional init) fun _ hinit => ?_
    exact (ensures_declare name resolved).mono fun _ _ => Stmt.forall_mem_of_plain rfl hinit
  | .assign _ target value => by
    rw [checkStmt]
    refine ensures_bind (ensures_checkOptional (some target)) fun _ htarget => ?_
    refine (ensures_checkOptional (some value)).mono fun _ hvalue => ?_
    exact Stmt.forall_mem_of_plain rfl (Expr.addressesPlaces_cons.2 ⟨htarget, hvalue⟩)
  | .ret _ value => by
    rw [checkStmt]
    exact (ensures_checkOptional value).mono fun _ hvalue => Stmt.forall_mem_of_plain rfl hvalue
  | .print _ args => by
    rw [checkStmt]
    exact (ensures_hintAll args).mono fun _ hargs => Stmt.forall_mem_of_plain rfl hargs
  | .branch _ condition thenSuite elseSuite => by
    rw [checkStmt]
    refine ensures_bind (ensures_checkOptional (some condition)) fun _ hcondition => ?_
    refine ensures_bind (ensures_checkSuite thenSuite) fun _ hthen => ?_
    refine (ensures_checkElse elseSuite).mono fun _ helse => ?_
    exact Stmt.forall_mem_statements hcondition (List.forall_mem_append.2 ⟨hthen, helse⟩)
  | .forRange _ counter start stop step body => by
    rw [checkStmt]
    refine ensures_bind (ensures_hint start) fun type hstart => ?_
    refine ensures_bind (ensures_checkOptional (some stop)) fun _ hstop => ?_
    refine ensures_bind (ensures_checkOptional step) fun _ hstep => ?_
    refine ensures_bind (ensures_withScope (ensures_withLoop (ensures_checkSuite body)) _)
      fun _ hbody => ensures_pure ?_
    refine Stmt.forall_mem_statements ?_ hbody
    exact Expr.addressesPlaces_cons.2 ⟨hstart, Expr.addressesPlaces_cons.2 ⟨hstop, hstep⟩⟩
  | .whileLoop _ condition body => by
    rw [checkStmt]
    refine ensures_bind (ensures_checkOptional (some condition)) fun _ hcondition => ?_
    refine (ensures_withLoop (ensures_checkSuite body)).mono fun _ hbody => ?_
    exact Stmt.forall_mem_statements hcondition hbody
  | .doWhile _ body condition => by
    rw [checkStmt]
    refine ensures_bind (ensures_withLoop (ensures_checkSuite body)) fun _ hbody => ?_
    refine (ensures_checkOptional (some condition)).mono fun _ hcondition => ?_
    exact Stmt.forall_mem_statements hcondition hbody
  | .jump tag jump => by
    rw [checkStmt]
    refine ensures_seq ensures_get fun s => ?_
    have hjump := Stmt.forall_mem_of_plain (s := .jump tag jump)
      (P := fun s => Expr.AddressesPlaces s.exprs) rfl Expr.addressesPlaces_nil
    split
    · exact ensures_throw _
    · exact ensures_pure hjump
  | .select _ scrutinee arms => by
    rw [checkStmt]
    refine ensures_bind (ensures_checkScrutinee scrutinee) fun _ hscrutinee => ?_
    refine (ensures_checkArms [] arms).mono fun _ harms => ?_
    exact Stmt.forall_mem_statements (Expr.addressesPlaces_cons.2 ⟨hscrutinee, harms.1⟩) harms.2

theorem ensures_checkSuite : (suite : Suite) →
    Ensures R (fun _ => Stmt.AddressPlaces suite.statements) (checkSuite suite)
  | .mk _ stmts => by
    rw [checkSuite]
    exact ensures_bind (ensures_withScope (ensures_checkStmts stmts) _) fun _ h => ensures_pure h

theorem ensures_checkStmts : (ss : List Stmt) →
    Ensures R (fun _ => Stmt.AddressPlaces (Stmt.statementsAll ss))
      (checkStmts ss)
  | [] => ensures_pure (by simp [Stmt.statementsAll, Stmt.AddressPlaces])
  | s :: ss => by
    rw [checkStmts]
    refine ensures_bind (ensures_checkStmt s) fun _ hs => ?_
    exact (ensures_checkStmts ss).mono fun _ hss => List.forall_mem_append.2 ⟨hs, hss⟩

theorem ensures_checkElse : (suite : Option Suite) →
    Ensures R (fun _ => Stmt.AddressPlaces (Suite.statementsElse suite))
      (checkElse suite)
  | none => ensures_pure (by simp [Suite.statementsElse, Stmt.AddressPlaces])
  | some suite => ensures_checkSuite suite

theorem ensures_checkArms : (seen : List Int) → (arms : List Arm) →
    Ensures R
      (fun _ => Expr.AddressesPlaces (arms.flatMap fun arm => arm.pattern.exprs) ∧
        Stmt.AddressPlaces (Arm.statementsAll arms)) (checkArms seen arms)
  | _, [] => ensures_pure (by simp [Arm.statementsAll, Stmt.AddressPlaces])
  | seen, .mk _ pattern body :: arms => by
    rw [checkArms]
    refine ensures_bind (ensures_checkPattern seen pattern) fun seen hpattern => ?_
    refine ensures_bind (ensures_checkSuite body) fun _ hbody => ?_
    refine (ensures_checkArms seen arms).mono fun _ harms => ⟨?_, ?_⟩
    · exact Expr.addressesPlaces_append.2 ⟨hpattern, harms.1⟩
    · exact List.forall_mem_append.2 ⟨hbody, harms.2⟩

end

end

/-! ### Items -/

section

variable [CheckState.ResolveFrame R]

theorem ensures_resolveParams (place : Location) (params : List Binding) :
    Ensures R (fun _ => True) (resolveParams place params) := by
  induction params with
  | nil => exact ensures_pure trivial
  | cons param params ih =>
    refine ensures_seq (ensures_resolve param.type place) fun type => ?_
    exact ensures_seq ih fun types => ensures_pure trivial

theorem ensures_resolveSignature (proto : Prototype) :
    Ensures R (fun _ => True) (resolveSignature proto) := by
  refine ensures_seq (ensures_resolveParams proto.location proto.params) fun params => ?_
  exact ensures_seq (ensures_resolve proto.result proto.location) fun result => ensures_pure trivial

end

/-- A check publishes its results if up to the moment when functions and globals are declared it
keeps a relation, and after that it does nothing. It does not declare any if it fails. -/
def Check.Publishes {α : Type} (R : CheckState → CheckState → Prop) (Q : α → Prop) (x : Check α) :
    Prop :=
  ∀ s, Yields s x (fun a t => (∃ symbols, R s { t with symbols }) ∧ Q a) fun _ t => R s t

section

variable [IsPreorder CheckState R] {α β : Type} {Q : α → Prop}

omit [IsPreorder CheckState R] in
theorem Check.publishes_of_ensures {x : Check α} (hx : Ensures R Q x) : Publishes R Q x := fun s =>
  (hx s).yields (fun _ t hst ha => ⟨⟨t.symbols, hst⟩, ha⟩) fun _ _ hst => hst

theorem Check.publishes_bind {Q' : β → Prop} {x : Check α} {f : α → Check β} (hx : Ensures R Q x)
    (hf : ∀ a, Q a → Publishes R Q' (f a)) : Publishes R Q' (x >>= f) := fun s => by
  refine yields_bind ((hx s).yields (fun a t hst ha => ?_) fun _ _ hst => hst)
  refine (hf a ha t).mono (fun b u hu => ⟨?_, hu.2⟩) fun _ _ => trans_of R hst
  obtain ⟨symbols, hsymbols⟩ := hu.1
  exact ⟨symbols, trans_of R hst hsymbols⟩

omit [IsPreorder CheckState R] in
theorem Check.Publishes.mono {Q' : α → Prop} {x : Check α} (hx : Publishes R Q x)
    (hQ : ∀ a, Q a → Q' a) : Publishes R Q' x := fun s =>
  (hx s).mono (fun a _ ha => ⟨ha.1, hQ a ha.2⟩) fun _ _ h => h

theorem Check.publishes_declareFunction (name : String) (signature : Signature) :
    Publishes R (fun _ => True) (declareFunction name signature) :=
  fun s => ⟨⟨s.symbols, refl_of R s⟩, trivial⟩

theorem Check.publishes_declareGlobals (scope : Scope) :
    Publishes R (fun _ => True) (declareGlobals scope) :=
  fun s => ⟨⟨s.symbols, refl_of R s⟩, trivial⟩

end

/-- An item is checked before its name is declared, and the operands of `addr` in an item that
passes look like places. -/
theorem publishes_checkItem {R : CheckState → CheckState → Prop} [CheckState.ItemFrame R]
    (item : Item) :
    Publishes R (fun _ => Stmt.AddressPlaces item.statements) (checkItem item) := by
  rw [checkItem, Item.statements]
  cases item.shape with
  | function proto body =>
    refine publishes_bind (ensures_resolveSignature proto) fun signature _ => ?_
    have hbody := ensures_withScope (ensures_checkSuite (R := R) body) (paramScope proto signature)
    refine publishes_bind (ensures_withFunction (Q := fun _ => Stmt.AddressPlaces body.statements)
      (ensures_bind hbody fun _ h => ensures_pure h) _ _) fun _ h => ?_
    exact (publishes_declareFunction _ _).mono fun _ _ => h
  | external proto =>
    refine publishes_bind (ensures_resolveSignature proto) fun signature _ => ?_
    exact (publishes_declareFunction _ _).mono fun _ _ => by simp [Stmt.AddressPlaces]
  | typeAlias name target =>
    exact publishes_of_ensures (ensures_pure (by simp [Stmt.AddressPlaces]))
  | struct name => exact publishes_of_ensures (ensures_pure (by simp [Stmt.AddressPlaces]))
  | statement stmt =>
    refine publishes_bind (ensures_withScope (ensures_checkStmt stmt) _) fun result h => ?_
    exact (publishes_declareGlobals _).mono fun _ _ => h

/-- A check does nothing to the type tables but resolve types, and the operands of `addr` in an item
that passes look like places. -/
theorem ensures_checkItem {R : TypeEnv → TypeEnv → Prop} [TypeEnv.ResolveFrame R] (item : Item) :
    Ensures (CheckState.Across R) (fun _ => Stmt.AddressPlaces item.statements)
      (checkItem item) := fun s =>
  (publishes_checkItem (R := CheckState.Across R) item s).mono
    (fun _ _ ⟨⟨_, hacross⟩, h⟩ => ⟨hacross, h⟩) fun _ _ h => h

/-- An item that fails its check has declared no function and no global. -/
theorem symbols_of_checkItem_error {item : Item} {s t : CheckState} {d : Diagnostic}
    (h : (checkItem item).run s = .error d t) : t.symbols = s.symbols :=
  (publishes_checkItem (R := CheckState.SameSymbols) item s).error h

end Offside
