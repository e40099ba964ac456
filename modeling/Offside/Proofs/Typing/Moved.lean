import Offside.Proofs.Types.Erased
import Offside.Proofs.Typing.Relocated

/-!
# Checking with everything at other places

Tables whose structs stand at other places check an item at other places as the tables themselves
check the item where it stands. The outcome is the same, the state after it is the same at other
places, and a diagnostic differs in its place only. Unlike sessions that declare the same in another
order, the two lay out the same structs under the same numbers.

## Main definitions

* `Offside.CheckState.relocate`: a check in progress in tables at other places.
* `Offside.ChecksMoved`: two checks that do the same at other places.

## Main results

* `Offside.Context.hint_relocate`: what is known of the type of an expression.
* `Offside.checksMoved_checkItem`: checking an item.
-/

namespace Offside

variable {f : Location → Location} {α β : Type}

theorem Except.mapError_bind {ε ε' : Type} (g : ε → ε') (x : Except ε α) (k : α → Except ε β) :
    (x >>= k).mapError g = x.mapError g >>= fun a => (k a).mapError g := by
  cases x <;> rfl

/-! ### Hints -/

/-- What an expression sees, with the structs at other places. -/
def Context.relocate (f : Location → Location) (context : Context) : Context :=
  { context with types := context.types.relocate f }

namespace Context

variable (f) (context : Context)

theorem elementType_relocate (base : Option ResolvedType) (place : Location) :
    (context.relocate f).elementType base (f place) =
      (context.elementType base place).mapError (Diagnostic.relocate f) := by
  cases base with
  | none => rfl
  | some type =>
    have hdescribe := context.types.describe_relocate f type
    cases type with
    | pointer => rfl
    | void | bool | int | float | struct =>
      exact congrArg (fun shown => Except.error (semanticError (.notIndexable shown) (f place)))
        hdescribe

theorem fieldType_relocate (object : Option ResolvedType) (field : String) (place : Location) :
    (context.relocate f).fieldType object field (f place) =
      (context.fieldType object field place).mapError (Diagnostic.relocate f) := by
  cases object with
  | none => rfl
  | some type =>
    have hdescribe := context.types.describe_relocate f type
    cases type with
    | struct id =>
      rw [fieldType, fieldType, show (context.relocate f).types.layout id = context.types.layout id
        from rfl]
      split <;> rfl
    | void | bool | int | float | pointer =>
      exact congrArg (fun shown => Except.error (semanticError (.notStruct shown) (f place)))
        hdescribe

mutual

/-- The type of an expression at other places is the same as far as it is known. -/
theorem hint_relocate (e : Expr) :
    (context.relocate f).hint (e.relocate f) =
      (context.hint e).mapError (Diagnostic.relocate f) := by
  cases e with
  | number | var => rfl
  | addressOf tag place =>
    rw [Expr.relocate, hint, hint, Expr.isAddressable_relocate, hint_relocate place]
    cases place.isAddressable
    · rfl
    · cases context.hint place <;> rfl
  | index tag base index =>
    rw [Expr.relocate, hint, hint, hint_relocate index, hint_relocate base,
      Except.mapError_bind]
    simp only [Except.mapError_bind]
    simp only [← elementType_relocate, Tag.relocate]
  | member tag object field =>
    rw [Expr.relocate, hint, hint, hint_relocate object, Except.mapError_bind]
    simp only [← fieldType_relocate, Tag.relocate]
  | unary tag op operand =>
    rw [Expr.relocate, hint, hint, hint_relocate operand, Except.mapError_bind]
    rfl
  | binary tag op left right =>
    rw [Expr.relocate, hint, hint, hint_relocate left, hint_relocate right, Except.mapError_bind]
    simp only [Except.mapError_bind]
    rfl
  | call tag callee args =>
    rw [Expr.relocate, hint, hint, hintAll_relocate args, Except.mapError_bind]
    rfl

theorem hintAll_relocate (es : List Expr) :
    (context.relocate f).hintAll (Expr.relocateAll f es) =
      (context.hintAll es).mapError (Diagnostic.relocate f) := by
  cases es with
  | nil => rfl
  | cons e es =>
    rw [Expr.relocateAll, hintAll, hintAll, hint_relocate e, Except.mapError_bind]
    simp only [hintAll_relocate es]

end

end Context

/-! ### Checks -/

/-- A check in progress, with the structs at other places. -/
def CheckState.relocate (f : Location → Location) (s : CheckState) : CheckState :=
  { s with types := s.types.relocate f }

/-- The check `x'` does at other places what `x` does. -/
def ChecksMoved (f : Location → Location) (x x' : Check α) : Prop :=
  ∀ s : CheckState, Couples s (s.relocate f) x x' (fun a t a' t' => a' = a ∧ t' = t.relocate f)
    fun d t d' t' => d' = d.relocate f ∧ t' = t.relocate f

theorem checksMoved_pure (a : α) : ChecksMoved f (pure a) (pure a) := fun _ => ⟨rfl, rfl⟩

theorem checksMoved_fail (error : SemanticError) (place : Location) :
    ChecksMoved f (Check.fail error place : Check α) (Check.fail error (f place)) :=
  fun _ => ⟨rfl, rfl⟩

theorem checksMoved_bind {x x' : Check α} {g g' : α → Check β} (hx : ChecksMoved f x x')
    (hg : ∀ a, ChecksMoved f (g a) (g' a)) : ChecksMoved f (x >>= g) (x' >>= g') := by
  refine fun s => couples_bind ((hx s).mono ?_ fun _ _ _ _ h => h)
  rintro _ t a _ ⟨rfl, rfl⟩
  exact hg a t

theorem checksMoved_modify {g : CheckState → CheckState}
    (h : ∀ s, g (s.relocate f) = (g s).relocate f) : ChecksMoved f (modify g) (modify g) :=
  fun s => ⟨rfl, h s⟩

/-- What is entered before a check and left after it. -/
private theorem checksMoved_enclosed {x x' : Check α} {y y' : Check β}
    {enter leave : CheckState → CheckState} {result : α → CheckState → β}
    (hx : ChecksMoved f x x')
    (hy : ∀ s, y s = match x (enter s) with
      | .ok a t => .ok (result a t) (leave t)
      | .error d t => .error d (leave t))
    (hy' : ∀ s, y' s = match x' (enter s) with
      | .ok a t => .ok (result a t) (leave t)
      | .error d t => .error d (leave t))
    (henter : ∀ s, enter (s.relocate f) = (enter s).relocate f)
    (hleave : ∀ s, leave (s.relocate f) = (leave s).relocate f)
    (hresult : ∀ a s, result a (s.relocate f) = result a s) : ChecksMoved f y y' := by
  intro s
  have hinside := hx (enter s)
  rw [Couples] at hinside ⊢
  rw [hy, hy', henter]
  split at hinside
  · next ht ht' =>
    rw [ht, ht']
    obtain ⟨rfl, rfl⟩ := hinside
    exact ⟨hresult _ _, hleave _⟩
  · next ht ht' =>
    rw [ht, ht']
    obtain ⟨rfl, rfl⟩ := hinside
    exact ⟨rfl, hleave _⟩
  · exact hinside.elim
  · exact hinside.elim

theorem checksMoved_withScope {x x' : Check α} (hx : ChecksMoved f x x') (scope : Scope) :
    ChecksMoved f (Check.withScope scope x) (Check.withScope scope x') :=
  checksMoved_enclosed hx (fun _ => rfl) (fun _ => rfl) (fun _ => rfl) (fun _ => rfl) fun _ _ => rfl

theorem checksMoved_withLoop {x x' : Check α} (hx : ChecksMoved f x x') :
    ChecksMoved f (Check.withLoop x) (Check.withLoop x') :=
  checksMoved_enclosed hx (fun _ => rfl) (fun _ => rfl) (fun _ => rfl) (fun _ => rfl) fun _ _ => rfl

theorem checksMoved_withFunction {x x' : Check α} (hx : ChecksMoved f x x') (name : String)
    (signature : Signature) :
    ChecksMoved f (Check.withFunction name signature x) (Check.withFunction name signature x') :=
  checksMoved_enclosed hx (fun _ => rfl) (fun _ => rfl) (fun _ => rfl) (fun _ => rfl) fun _ _ => rfl

theorem checksMoved_inScope {x x' : Check Unit} (hx : ChecksMoved f x x') (scope : Scope) :
    ChecksMoved f (Check.inScope scope x) (Check.inScope scope x') :=
  checksMoved_bind (checksMoved_withScope hx scope) fun _ => checksMoved_pure ()

theorem checksMoved_hint (e : Expr) :
    ChecksMoved f (Check.hint e) (Check.hint (e.relocate f)) := by
  intro s
  have hhint := s.toContext.hint_relocate f e
  rw [Couples, Check.hint, Check.hint,
    show (s.relocate f).toContext = s.toContext.relocate f from rfl, hhint]
  cases s.toContext.hint e with
  | ok type => exact ⟨rfl, rfl⟩
  | error d => exact ⟨rfl, rfl⟩

theorem checksMoved_hintAll (es : List Expr) :
    ChecksMoved f (Check.hintAll es) (Check.hintAll (Expr.relocateAll f es)) := by
  intro s
  have hhint := s.toContext.hintAll_relocate f es
  rw [Couples, Check.hintAll, Check.hintAll,
    show (s.relocate f).toContext = s.toContext.relocate f from rfl, hhint]
  cases s.toContext.hintAll es with
  | ok => exact ⟨rfl, rfl⟩
  | error d => exact ⟨rfl, rfl⟩

/-- Types are resolved to the same, and the same structs are laid out. -/
theorem checksMoved_resolve (type : TypeExpr) (place : Location) :
    ChecksMoved f (Check.resolve type place) (Check.resolve type (f place)) := by
  intro s
  rw [Couples, Check.resolve, Check.resolve,
    show (s.relocate f).types = s.types.relocate f from rfl, TypeEnv.resolve_relocate]
  dsimp only
  cases (s.types.resolve type).answer with
  | ok resolved => exact ⟨rfl, rfl⟩
  | error error => exact ⟨rfl, rfl⟩

theorem checksMoved_declare (name : String) (type : ResolvedType) :
    ChecksMoved f (Check.declare name type) (Check.declare name type) := by
  refine checksMoved_modify fun s => ?_
  rw [show (s.relocate f).scopes = s.scopes from rfl]
  split <;> rfl

open Check

theorem checksMoved_checkOptional (e : Option Expr) :
    ChecksMoved f (checkOptional e) (checkOptional (e.map (Expr.relocate f))) := by
  cases e with
  | none => exact checksMoved_pure ()
  | some e => exact checksMoved_bind (checksMoved_hint e) fun _ => checksMoved_pure ()

theorem checksMoved_checkScrutinee (e : Expr) :
    ChecksMoved f (checkScrutinee e) (checkScrutinee (e.relocate f)) := by
  refine checksMoved_bind (checksMoved_hint e) fun type => ?_
  cases type with
  | none => exact checksMoved_pure ()
  | some type =>
    dsimp only
    split
    · intro s
      have hdescribe : (s.relocate f).types.describe type = s.types.describe type :=
        s.types.describe_relocate f type
      refine couples_get ?_
      rw [hdescribe, Expr.location_relocate]
      exact checksMoved_fail _ _ s
    · exact checksMoved_pure ()

theorem checksMoved_checkPattern (seen : List Int) (pattern : Pattern) :
    ChecksMoved f (checkPattern seen pattern) (checkPattern seen (pattern.relocate f)) := by
  cases pattern with
  | wildcard => exact checksMoved_pure seen
  | value e =>
    rw [Pattern.relocate, checkPattern, checkPattern, caseConstant_relocate, Expr.location_relocate]
    split
    · exact checksMoved_fail _ _
    · split
      · exact checksMoved_bind (checksMoved_fail _ _) fun _ => checksMoved_pure _
      · exact checksMoved_pure _

mutual

theorem checksMoved_checkStmt : (s : Stmt) →
    ChecksMoved f (checkStmt s) (checkStmt (s.relocate f))
  | .expr _ value => by
    rw [Stmt.relocate, checkStmt, checkStmt]
    exact checksMoved_checkOptional (some value)
  | .declare tag name type init => by
    rw [Stmt.relocate, checkStmt, checkStmt]
    refine checksMoved_bind (checksMoved_resolve type tag.location) fun resolved => ?_
    exact checksMoved_bind (checksMoved_checkOptional init) fun _ => checksMoved_declare name resolved
  | .assign _ target value => by
    rw [Stmt.relocate, checkStmt, checkStmt]
    exact checksMoved_bind (checksMoved_checkOptional (some target)) fun _ =>
      checksMoved_checkOptional (some value)
  | .ret _ value => by
    rw [Stmt.relocate, checkStmt, checkStmt]
    exact checksMoved_checkOptional value
  | .print _ args => by
    rw [Stmt.relocate, checkStmt, checkStmt]
    exact checksMoved_hintAll args
  | .branch _ condition thenSuite elseSuite => by
    rw [Stmt.relocate, checkStmt, checkStmt]
    refine checksMoved_bind (checksMoved_checkOptional (some condition)) fun _ => ?_
    exact checksMoved_bind (checksMoved_checkSuite thenSuite) fun _ =>
      checksMoved_checkElse elseSuite
  | .forRange _ counter start stop step body => by
    rw [Stmt.relocate, checkStmt, checkStmt]
    refine checksMoved_bind (checksMoved_hint start) fun type => ?_
    refine checksMoved_bind (checksMoved_checkOptional (some stop)) fun _ => ?_
    refine checksMoved_bind (checksMoved_checkOptional step) fun _ => ?_
    exact checksMoved_inScope (checksMoved_withLoop (checksMoved_checkSuite body)) _
  | .whileLoop _ condition body => by
    rw [Stmt.relocate, checkStmt, checkStmt]
    exact checksMoved_bind (checksMoved_checkOptional (some condition)) fun _ =>
      checksMoved_withLoop (checksMoved_checkSuite body)
  | .doWhile _ body condition => by
    rw [Stmt.relocate, checkStmt, checkStmt]
    exact checksMoved_bind (checksMoved_withLoop (checksMoved_checkSuite body)) fun _ =>
      checksMoved_checkOptional (some condition)
  | .jump tag jump => by
    rw [Stmt.relocate, checkStmt, checkStmt]
    intro s
    have hjump : ChecksMoved f
        (if s.loops = 0 then fail (.outsideLoop jump) tag.location else pure ())
        (if s.loops = 0 then fail (.outsideLoop jump) (f tag.location) else pure ()) := by
      split
      · exact checksMoved_fail _ _
      · exact checksMoved_pure ()
    exact couples_congr rfl rfl (hjump s)
  | .select _ scrutinee arms => by
    rw [Stmt.relocate, checkStmt, checkStmt]
    exact checksMoved_bind (checksMoved_checkScrutinee scrutinee) fun _ =>
      checksMoved_checkArms [] arms

theorem checksMoved_checkSuite : (suite : Suite) →
    ChecksMoved f (checkSuite suite) (checkSuite (suite.relocate f))
  | .mk _ stmts => by
    rw [Suite.relocate, checkSuite, checkSuite]
    exact checksMoved_inScope (checksMoved_checkStmts stmts) _

theorem checksMoved_checkStmts : (ss : List Stmt) →
    ChecksMoved f (checkStmts ss) (checkStmts (Stmt.relocateAll f ss))
  | [] => checksMoved_pure ()
  | s :: ss => by
    rw [Stmt.relocateAll, checkStmts, checkStmts]
    exact checksMoved_bind (checksMoved_checkStmt s) fun _ => checksMoved_checkStmts ss

theorem checksMoved_checkElse : (suite : Option Suite) →
    ChecksMoved f (checkElse suite) (checkElse (Suite.relocateElse f suite))
  | none => checksMoved_pure ()
  | some suite => checksMoved_checkSuite suite

theorem checksMoved_checkArms : (seen : List Int) → (arms : List Arm) →
    ChecksMoved f (checkArms seen arms) (checkArms seen (Arm.relocateAll f arms))
  | _, [] => checksMoved_pure ()
  | seen, .mk _ pattern body :: arms => by
    rw [Arm.relocateAll, checkArms, checkArms]
    refine checksMoved_bind (checksMoved_checkPattern seen pattern) fun seen => ?_
    exact checksMoved_bind (checksMoved_checkSuite body) fun _ => checksMoved_checkArms seen arms

end

/-! ### Items -/

theorem checksMoved_resolveParams (place : Location) (params : List Binding) :
    ChecksMoved f (resolveParams place params) (resolveParams (f place) params) := by
  induction params with
  | nil => exact checksMoved_pure []
  | cons param params ih =>
    refine checksMoved_bind (checksMoved_resolve param.type place) fun type => ?_
    exact checksMoved_bind ih fun types => checksMoved_pure (type :: types)

theorem checksMoved_resolveSignature (proto : Prototype) :
    ChecksMoved f (resolveSignature proto) (resolveSignature (proto.relocate f)) := by
  refine checksMoved_bind (checksMoved_resolveParams proto.location proto.params) fun params => ?_
  exact checksMoved_bind (checksMoved_resolve proto.result proto.location) fun result =>
    checksMoved_pure (Signature.mk params result)

/-- An item is accepted and declares the same at other places, or it is refused for the same reason
at the place that corresponds. -/
theorem checksMoved_checkItem (item : Item) :
    ChecksMoved f (checkItem item) (checkItem (item.relocate f)) := by
  obtain ⟨shape, place⟩ := item
  rw [Item.relocate, checkItem, checkItem]
  cases shape with
  | function proto body =>
    refine checksMoved_bind (checksMoved_resolveSignature proto) fun signature => ?_
    have hbody := checksMoved_inScope (checksMoved_checkSuite (f := f) body)
      (paramScope proto signature)
    exact checksMoved_bind (checksMoved_withFunction hbody proto.name signature) fun _ =>
      checksMoved_modify fun _ => rfl
  | external proto =>
    exact checksMoved_bind (checksMoved_resolveSignature proto) fun signature =>
      checksMoved_modify fun _ => rfl
  | typeAlias name target => exact checksMoved_pure ()
  | struct name => exact checksMoved_pure ()
  | statement stmt =>
    exact checksMoved_bind (checksMoved_withScope (checksMoved_checkStmt stmt) Table.empty)
      fun _ => checksMoved_modify fun _ => rfl

end Offside
