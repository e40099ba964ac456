import Offside.Proofs.Couples
import Offside.Proofs.Typing.Twin
import Offside.Typing.Check

/-!
# Checking an item at other places

An item is checked alike in two sessions that declare the same, wherever it stands: it is accepted
in both, and then declares the same, or refused in both for the same reason at the place that
corresponds.

What is known from an earlier step stays known, since a check only lays out further structs. So two
checks side by side are said to go on from one pair of states to a later one.

## Main definitions

* `Offside.CheckState.Twin`: checks in progress in two sessions that declare the same.
* `Offside.ChecksAlike`: two checks that do the same.

## Main results

* `Offside.checksAlike_checkItem`: checking an item and the same item at other places.
-/

namespace Offside

variable {f : Location → Location} {before : List (String × StructDecl)} {α α' β β' : Type}

/-- Two checks in progress that see the same and stand in equally many loops. -/
structure CheckState.Twin (f : Location → Location) (before : List (String × StructDecl))
    (s s' : CheckState) : Prop extends s.toContext.Twin f before s'.toContext where
  loops : s'.loops = s.loops

/-- From one pair of states to a later one, two checks still see the same, and numbers of structs are
kept. -/
structure CheckState.GoOn (f : Location → Location) (before : List (String × StructDecl))
    (s s' t t' : CheckState) : Prop where
  twin : t.Twin f before t'
  keeps : s.types.KeepsNumbers t.types
  keeps' : s'.types.KeepsNumbers t'.types

section

variable {s s' t t' u u' : CheckState}

theorem CheckState.Twin.goOn (h : s.Twin f before s') : CheckState.GoOn f before s s' s s' :=
  ⟨h, refl_of TypeEnv.KeepsNumbers _, refl_of TypeEnv.KeepsNumbers _⟩

theorem CheckState.GoOn.trans (h : CheckState.GoOn f before s s' t t')
    (k : CheckState.GoOn f before t t' u u') : CheckState.GoOn f before s s' u u' :=
  ⟨k.twin, trans_of TypeEnv.KeepsNumbers h.keeps k.keeps,
    trans_of TypeEnv.KeepsNumbers h.keeps' k.keeps'⟩

end

/-- How the results of two checks correspond, given the tables after them. -/
abbrev ResultsAlike (α α' : Type) := TypeEnv → TypeEnv → α → α' → Prop

/-- The checks `x` from `s` and `x'` from `s'` do the same, where results correspond by `R`. -/
def ChecksAt (f : Location → Location) (before : List (String × StructDecl)) (s s' : CheckState)
    (R : ResultsAlike α α') (x : Check α) (x' : Check α') : Prop :=
  Couples s s' x x'
    (fun a t a' t' => R t.types t'.types a a' ∧ CheckState.GoOn f before s s' t t')
    fun d t d' t' => d' = d.relocate f ∧ CheckState.GoOn f before s s' t t'

/-- The checks `x` and `x'` do the same from any states in which the same is seen. -/
def ChecksAlike (f : Location → Location) (before : List (String × StructDecl))
    (R : ResultsAlike α α') (x : Check α) (x' : Check α') : Prop :=
  ∀ s s', s.Twin f before s' → ChecksAt f before s s' R x x'

section

variable {s s' : CheckState} {R : ResultsAlike α α'} {S : ResultsAlike β β'} {x : Check α}
  {x' : Check α'}

theorem ChecksAt.bind {g : α → Check β} {g' : α' → Check β'} (hx : ChecksAt f before s s' R x x')
    (hg : ∀ a a' t t', R t.types t'.types a a' → CheckState.GoOn f before s s' t t' →
      ChecksAt f before t t' S (g a) (g' a')) :
    ChecksAt f before s s' S (x >>= g) (x' >>= g') := by
  refine couples_bind (Couples.mono hx ?_ fun _ _ _ _ h => h)
  rintro a t a' t' ⟨ha, hgo⟩
  exact (hg a a' t t' ha hgo).mono (fun _ _ _ _ h => ⟨h.1, hgo.trans h.2⟩)
    fun _ _ _ _ h => ⟨h.1, hgo.trans h.2⟩

/-- A check of which the result is not used. -/
theorem ChecksAt.seq {y : Check β} {y' : Check β'} (hx : ChecksAt f before s s' R x x')
    (hy : ChecksAlike f before S y y') :
    ChecksAt f before s s' S (x >>= fun _ => y) (x' >>= fun _ => y') :=
  hx.bind fun _ _ t t' _ hgo => hy t t' hgo.twin

theorem ChecksAlike.seq {y : Check β} {y' : Check β'} (hx : ChecksAlike f before R x x')
    (hy : ChecksAlike f before S y y') :
    ChecksAlike f before S (x >>= fun _ => y) (x' >>= fun _ => y') :=
  fun s s' h => (hx s s' h).seq hy

theorem ChecksAlike.bind {g : α → Check β} {g' : α' → Check β'} (hx : ChecksAlike f before R x x')
    (hg : ∀ a a' t t', R t.types t'.types a a' → t.Twin f before t' →
      ChecksAt f before t t' S (g a) (g' a')) :
    ChecksAlike f before S (x >>= g) (x' >>= g') :=
  fun s s' h => (hx s s' h).bind fun a a' t t' ha hgo => hg a a' t t' ha hgo.twin

theorem checksAt_pure {a : α} {a' : α'} (h : s.Twin f before s') (ha : R s.types s'.types a a') :
    ChecksAt f before s s' R (pure a) (pure a') := ⟨ha, h.goOn⟩

theorem checksAlike_pure {a : α} {a' : α'} (ha : ∀ env env', R env env' a a') :
    ChecksAlike f before R (pure a) (pure a') := fun _ _ h => checksAt_pure h (ha _ _)

theorem checksAlike_fail (error : SemanticError) (place : Location) :
    ChecksAlike f before R (Check.fail error place) (Check.fail error (f place)) :=
  fun _ _ h => ⟨rfl, h.goOn⟩

/-- What is entered before a check and left after it. -/
private theorem checksAt_enclosed {y : Check β} {y' : Check β'}
    {enter enter' leave leave' : CheckState → CheckState} {result : α → CheckState → β}
    {result' : α' → CheckState → β'}
    (hy : ∀ s, y s = match x (enter s) with
      | .ok a t => .ok (result a t) (leave t)
      | .error d t => .error d (leave t))
    (hy' : ∀ s, y' s = match x' (enter' s) with
      | .ok a t => .ok (result' a t) (leave' t)
      | .error d t => .error d (leave' t))
    (types : ∀ s, (enter s).types = s.types ∧ (enter' s).types = s.types ∧
      (leave s).types = s.types ∧ (leave' s).types = s.types)
    (hinside : ChecksAt f before (enter s) (enter' s') R x x')
    (hleave : ∀ t t', t.Twin f before t' → (leave t).Twin f before (leave' t'))
    (hR : ∀ a a' t t', t.Twin f before t' → R t.types t'.types a a' →
      S t.types t'.types (result a t) (result' a' t')) : ChecksAt f before s s' S y y' := by
  have hgo {t t' : CheckState} (h : CheckState.GoOn f before (enter s) (enter' s') t t') :
      CheckState.GoOn f before s s' (leave t) (leave' t') := by
    refine ⟨hleave t t' h.twin, ?_, ?_⟩
    · rw [(types t).2.2.1, ← (types s).1]
      exact h.keeps
    · rw [(types t').2.2.2, ← (types s').2.1]
      exact h.keeps'
  rw [ChecksAt, Couples] at hinside ⊢
  rw [hy, hy']
  split at hinside
  · next a t a' t' ht ht' =>
    rw [ht, ht']
    refine ⟨?_, hgo hinside.2⟩
    rw [(types t).2.2.1, (types t').2.2.2]
    exact hR a a' t t' hinside.2.twin hinside.1
  · next ht ht' =>
    rw [ht, ht']
    exact ⟨hinside.1, hgo hinside.2⟩
  · exact hinside.elim
  · exact hinside.elim

/-- Results that correspond, together with scopes of the same variables. -/
def WithScopes (R : ResultsAlike α α') : ResultsAlike (α × Scope) (α' × Scope) :=
  fun env env' result result' => R env env' result.1 result'.1 ∧
    result.2.Alike (TypeEnv.Twin env env') result'.2

/-- A scope of the same variables is entered and left. -/
theorem ChecksAlike.withScope (hx : ChecksAlike f before R x x') (h : s.Twin f before s')
    {scope scope' : Scope} (hscope : scope.Alike (TypeEnv.Twin s.types s'.types) scope') :
    ChecksAt f before s s' (WithScopes R) (Check.withScope scope x)
      (Check.withScope scope' x') := by
  refine checksAt_enclosed (S := WithScopes R) (fun _ => rfl) (fun _ => rfl)
    (fun _ => ⟨rfl, rfl, rfl, rfl⟩) (hx _ _ ?_) (fun t t' ht => ?_) fun _ _ t t' ht ha => ⟨ha, ?_⟩
  · exact ⟨⟨h.types, h.symbols, .cons hscope h.scopes, h.function⟩, h.loops⟩
  · refine ⟨⟨ht.types, ht.symbols, ?_, ht.function⟩, ht.loops⟩
    have hscopes := ht.scopes
    dsimp only
    generalize t.scopes = scopes at hscopes
    generalize t'.scopes = scopes' at hscopes
    cases hscopes with
    | nil => exact .nil
    | cons _ hscopes => exact hscopes
  · have hscopes := ht.scopes
    dsimp only
    generalize t.scopes = scopes at hscopes
    generalize t'.scopes = scopes' at hscopes
    cases hscopes with
    | nil => exact Table.alike_empty
    | cons hscope _ => exact hscope

theorem ChecksAlike.withLoop (hx : ChecksAlike f before R x x') :
    ChecksAlike f before R (Check.withLoop x) (Check.withLoop x') := fun _ _ h =>
  checksAt_enclosed (fun _ => rfl) (fun _ => rfl) (fun _ => ⟨rfl, rfl, rfl, rfl⟩)
    (hx _ _ ⟨⟨h.types, h.symbols, h.scopes, h.function⟩, congrArg (· + 1) h.loops⟩)
    (fun _ _ ht => ⟨⟨ht.types, ht.symbols, ht.scopes, ht.function⟩, congrArg (· - 1) ht.loops⟩)
    fun _ _ _ _ _ ha => ha

theorem checksAt_withFunction (h : s.Twin f before s') (name : String)
    {signature signature' : Signature}
    (hsignature : signature.Twin s.types s'.types signature')
    (hx : ∀ t t', t.Twin f before t' → t.types = s.types → t'.types = s'.types →
      ChecksAt f before t t' R x x') :
    ChecksAt f before s s' R (Check.withFunction name signature x)
      (Check.withFunction name signature' x') :=
  checksAt_enclosed (fun _ => rfl) (fun _ => rfl) (fun _ => ⟨rfl, rfl, rfl, rfl⟩)
    (hx _ _ ⟨⟨h.types, h.symbols, h.scopes, .some ⟨rfl, hsignature⟩⟩, h.loops⟩ rfl rfl)
    (fun _ _ ht => ⟨⟨ht.types, ht.symbols, ht.scopes, .none⟩, ht.loops⟩)
    fun _ _ _ _ _ ha => ha

end

/-! ### The basic checks -/

/-- Results of no interest. -/
abbrev AnyResults : ResultsAlike Unit Unit := fun _ _ _ _ => True

namespace Check

theorem checksAlike_hint (e : Expr) :
    ChecksAlike f before (fun env env' => Option.Rel (TypeEnv.Twin env env')) (hint e)
      (hint (e.relocate f)) := by
  intro s s' h
  have hhint := h.toTwin.hint e
  rw [ChecksAt, Couples, hint, hint]
  generalize s.toContext.hint e = answer at hhint
  generalize s'.toContext.hint (e.relocate f) = answer' at hhint
  cases hhint with
  | ok htype => exact ⟨htype, h.goOn⟩
  | error d => exact ⟨rfl, h.goOn⟩

theorem checksAlike_hintAll (es : List Expr) :
    ChecksAlike f before AnyResults (hintAll es) (hintAll (Expr.relocateAll f es)) := by
  intro s s' h
  have hhint := h.toTwin.hintAll es
  rw [ChecksAt, Couples, hintAll, hintAll]
  generalize s.toContext.hintAll es = answer at hhint
  generalize s'.toContext.hintAll (Expr.relocateAll f es) = answer' at hhint
  cases hhint with
  | ok => exact ⟨trivial, h.goOn⟩
  | error d => exact ⟨rfl, h.goOn⟩

/-- Types are resolved to twins, and what is known stays known. -/
theorem checksAlike_resolve (type : TypeExpr) (place : Location) :
    ChecksAlike f before TypeEnv.Twin (resolve type place) (resolve type (f place)) := by
  intro s s' h
  obtain ⟨hmatches, hanswers⟩ := h.types.resolve type
  have keeps := (h.types.sound.grows_resolve type).idOf?
  have keeps' := (h.types.sound'.grows_resolve type).idOf?
  have hafter (notes notes' : List Note) :
      CheckState.GoOn f before s s' { s with types := (s.types.resolve type).env, notes }
        { s' with types := (s'.types.resolve type).env, notes := notes' } := by
    refine ⟨⟨⟨hmatches, h.symbols.mono keeps keeps', ?_, ?_⟩, h.loops⟩, keeps, keeps'⟩
    · exact h.scopes.imp fun _ _ hscope => hscope.mono fun _ _ htype => htype.mono keeps keeps'
    · have hfunction := h.function
      dsimp only
      generalize s.function = current at hfunction
      generalize s'.function = current' at hfunction
      cases hfunction with
      | none => exact .none
      | some hknown => exact .some ⟨hknown.1, hknown.2.mono keeps keeps'⟩
  rw [ChecksAt, Couples, resolve, resolve]
  rcases hanswers with ⟨error, herror, herror'⟩ | ⟨r, r', hr, hr', htwin⟩
  · simp only [herror, herror']
    exact ⟨rfl, hafter _ _⟩
  · simp only [hr, hr']
    exact ⟨htwin, hafter _ _⟩

theorem checksAt_declare {s s' : CheckState} (h : s.Twin f before s') (name : String)
    {type type' : ResolvedType} (htype : TypeEnv.Twin s.types s'.types type type') :
    ChecksAt f before s s' AnyResults (declare name type) (declare name type') := by
  refine ⟨trivial, ?_⟩
  have hscopes := h.scopes
  dsimp only
  cases hs : s.scopes with
  | nil =>
    rw [hs] at hscopes
    cases hs' : s'.scopes with
    | nil => exact h.goOn
    | cons =>
      rw [hs'] at hscopes
      cases hscopes
  | cons scope outer =>
    rw [hs] at hscopes
    cases hs' : s'.scopes with
    | nil =>
      rw [hs'] at hscopes
      cases hscopes
    | cons scope' outer' =>
      rw [hs'] at hscopes
      obtain ⟨hscope, houter⟩ := List.forall₂_cons.1 hscopes
      refine ⟨⟨⟨h.types, h.symbols, ?_, h.function⟩, h.loops⟩, refl_of TypeEnv.KeepsNumbers _,
        refl_of TypeEnv.KeepsNumbers _⟩
      exact .cons (hscope.insert name htype) houter

end Check

open Check

theorem checksAlike_checkOptional (e : Option Expr) :
    ChecksAlike f before AnyResults (checkOptional e) (checkOptional (e.map (Expr.relocate f))) := by
  cases e with
  | none => exact checksAlike_pure fun _ _ => trivial
  | some e => exact (checksAlike_hint e).seq (checksAlike_pure fun _ _ => trivial)

theorem checksAlike_checkScrutinee (e : Expr) :
    ChecksAlike f before AnyResults (checkScrutinee e) (checkScrutinee (e.relocate f)) := by
  refine (checksAlike_hint e).bind fun type type' t t' htype ht => ?_
  cases htype with
  | none => exact checksAt_pure ht trivial
  | @some type type' htype =>
    have hdescribe := htype.describe ht.types.sound ht.types.sound'
    dsimp only
    rw [htype.isIntegerLike]
    split
    · have hfail : ChecksAt f before t t' AnyResults
          (fail (.scrutinee (t.types.describe type)) e.location)
          (fail (.scrutinee (t'.types.describe type')) (e.relocate f).location) := by
        rw [hdescribe, Expr.location_relocate]
        exact checksAlike_fail _ _ t t' ht
      exact couples_congr rfl rfl hfail
    · exact checksAt_pure ht trivial

/-- A literal is one wherever it stands. -/
theorem caseConstant_relocate (e : Expr) : caseConstant (e.relocate f) = caseConstant e := by
  cases e with
  | number _ value => cases value <;> rfl
  | unary _ op operand =>
    cases op with
    | not => rfl
    | bitNot => rfl
    | neg =>
      cases operand with
      | number _ value => cases value <;> rfl
      | _ => rfl
  | _ => rfl

theorem checksAlike_checkPattern (seen : List Int) (pattern : Pattern) :
    ChecksAlike f before (fun _ _ after after' => after' = after) (checkPattern seen pattern)
      (checkPattern seen (pattern.relocate f)) := by
  cases pattern with
  | wildcard => exact checksAlike_pure fun _ _ => rfl
  | value e =>
    rw [Pattern.relocate, checkPattern, checkPattern, caseConstant_relocate, Expr.location_relocate]
    split
    · exact checksAlike_fail _ _
    · split
      · exact (checksAlike_fail (R := fun _ _ (_ _ : PUnit) => True) _ _).seq
          (checksAlike_pure fun _ _ => rfl)
      · exact checksAlike_pure fun _ _ => rfl

theorem ChecksAlike.inScope {s s' : CheckState} {x x' : Check Unit}
    (hx : ChecksAlike f before AnyResults x x') (h : s.Twin f before s') {scope scope' : Scope}
    (hscope : scope.Alike (TypeEnv.Twin s.types s'.types) scope') :
    ChecksAt f before s s' AnyResults (inScope scope x) (inScope scope' x') :=
  (hx.withScope h hscope).seq (checksAlike_pure fun _ _ => trivial)

theorem alike_counterScope {env env' : TypeEnv} (counter : String)
    {type type' : Option ResolvedType} (h : Option.Rel (TypeEnv.Twin env env') type type') :
    (counterScope counter type).Alike (TypeEnv.Twin env env') (counterScope counter type') := by
  cases h with
  | none => exact Table.alike_empty
  | some htype => exact Table.alike_empty.insert counter htype

mutual

theorem checksAlike_checkStmt : (s : Stmt) →
    ChecksAlike f before AnyResults (checkStmt s) (checkStmt (s.relocate f))
  | .expr _ value => by
    rw [Stmt.relocate, checkStmt, checkStmt]
    exact checksAlike_checkOptional (some value)
  | .declare tag name type init => by
    rw [Stmt.relocate, checkStmt, checkStmt]
    intro s s' h
    refine (checksAlike_resolve type tag.location s s' h).bind fun r r' t t' hr hgo => ?_
    refine (checksAlike_checkOptional init t t' hgo.twin).bind fun _ _ u u' _ hgo => ?_
    exact checksAt_declare hgo.twin name (hr.mono hgo.keeps hgo.keeps')
  | .assign _ target value => by
    rw [Stmt.relocate, checkStmt, checkStmt]
    exact (checksAlike_checkOptional (some target)).seq (checksAlike_checkOptional (some value))
  | .ret _ value => by
    rw [Stmt.relocate, checkStmt, checkStmt]
    exact checksAlike_checkOptional value
  | .print _ args => by
    rw [Stmt.relocate, checkStmt, checkStmt]
    exact checksAlike_hintAll args
  | .branch _ condition thenSuite elseSuite => by
    rw [Stmt.relocate, checkStmt, checkStmt]
    exact (checksAlike_checkOptional (some condition)).seq
      ((checksAlike_checkSuite thenSuite).seq (checksAlike_checkElse elseSuite))
  | .forRange _ counter start stop step body => by
    rw [Stmt.relocate, checkStmt, checkStmt]
    intro s s' h
    refine (checksAlike_hint start s s' h).bind fun type type' t t' htype hgo => ?_
    refine (checksAlike_checkOptional (some stop) t t' hgo.twin).bind fun _ _ u u' _ hstop => ?_
    refine (checksAlike_checkOptional step u u' hstop.twin).bind fun _ _ v v' _ hstep => ?_
    have hgrown := hstop.trans hstep
    have htype : Option.Rel (TypeEnv.Twin v.types v'.types) type type' := by
      cases htype with
      | none => exact .none
      | some htype => exact .some (htype.mono hgrown.keeps hgrown.keeps')
    exact (checksAlike_checkSuite body).withLoop.inScope hstep.twin
      (alike_counterScope counter htype)
  | .whileLoop _ condition body => by
    rw [Stmt.relocate, checkStmt, checkStmt]
    exact (checksAlike_checkOptional (some condition)).seq (checksAlike_checkSuite body).withLoop
  | .doWhile _ body condition => by
    rw [Stmt.relocate, checkStmt, checkStmt]
    exact (checksAlike_checkSuite body).withLoop.seq (checksAlike_checkOptional (some condition))
  | .jump tag jump => by
    rw [Stmt.relocate, checkStmt, checkStmt]
    intro s s' h
    have hloops := h.loops
    have hjump : ChecksAt f before s s' AnyResults
        (if s.loops = 0 then fail (.outsideLoop jump) tag.location else pure ())
        (if s'.loops = 0 then fail (.outsideLoop jump) (f tag.location) else pure ()) := by
      rw [hloops]
      split
      · exact checksAlike_fail _ _ s s' h
      · exact checksAt_pure h trivial
    exact couples_congr rfl rfl hjump
  | .select _ scrutinee arms => by
    rw [Stmt.relocate, checkStmt, checkStmt]
    exact (checksAlike_checkScrutinee scrutinee).seq (checksAlike_checkArms [] arms)

theorem checksAlike_checkSuite : (suite : Suite) →
    ChecksAlike f before AnyResults (checkSuite suite) (checkSuite (suite.relocate f))
  | .mk _ stmts => by
    rw [Suite.relocate, checkSuite, checkSuite]
    exact fun s s' h => (checksAlike_checkStmts stmts).inScope h Table.alike_empty

theorem checksAlike_checkStmts : (ss : List Stmt) →
    ChecksAlike f before AnyResults (checkStmts ss) (checkStmts (Stmt.relocateAll f ss))
  | [] => checksAlike_pure fun _ _ => trivial
  | s :: ss => by
    rw [Stmt.relocateAll, checkStmts, checkStmts]
    exact (checksAlike_checkStmt s).seq (checksAlike_checkStmts ss)

theorem checksAlike_checkElse : (suite : Option Suite) →
    ChecksAlike f before AnyResults (checkElse suite) (checkElse (Suite.relocateElse f suite))
  | none => checksAlike_pure fun _ _ => trivial
  | some suite => checksAlike_checkSuite suite

theorem checksAlike_checkArms : (seen : List Int) → (arms : List Arm) →
    ChecksAlike f before AnyResults (checkArms seen arms) (checkArms seen (Arm.relocateAll f arms))
  | _, [] => checksAlike_pure fun _ _ => trivial
  | seen, .mk _ pattern body :: arms => by
    rw [Arm.relocateAll, checkArms, checkArms]
    refine (checksAlike_checkPattern seen pattern).bind fun seen seen' t t' hseen ht => ?_
    subst hseen
    exact (checksAlike_checkSuite body).seq (checksAlike_checkArms seen' arms) t t' ht

end

/-! ### Items -/

theorem checksAlike_resolveParams (place : Location) (params : List Binding) :
    ChecksAlike f before (fun env env' => List.Forall₂ (TypeEnv.Twin env env'))
      (resolveParams place params) (resolveParams (f place) params) := by
  induction params with
  | nil => exact checksAlike_pure fun _ _ => .nil
  | cons param params ih =>
    refine (checksAlike_resolve param.type place).bind fun r r' t t' hr ht => ?_
    refine (ih t t' ht).bind fun rs rs' u u' hrs hgo => checksAt_pure hgo.twin ?_
    exact .cons (hr.mono hgo.keeps hgo.keeps') hrs

theorem checksAlike_resolveSignature (proto : Prototype) :
    ChecksAlike f before Signature.Twin (resolveSignature proto)
      (resolveSignature (proto.relocate f)) := by
  refine (checksAlike_resolveParams proto.location proto.params).bind fun rs rs' t t' hrs ht => ?_
  refine (checksAlike_resolve proto.result proto.location t t' ht).bind fun r r' u u' hr hgo => ?_
  exact checksAt_pure hgo.twin
    ⟨hrs.imp fun _ _ htype => htype.mono hgo.keeps hgo.keeps', hr⟩

theorem checksAt_declareFunction {s s' : CheckState} (h : s.Twin f before s') (name : String)
    {signature signature' : Signature}
    (hsignature : signature.Twin s.types s'.types signature') :
    ChecksAt f before s s' AnyResults (declareFunction name signature)
      (declareFunction name signature') := by
  have hfunctions := h.symbols.functions.insert name hsignature
  exact ⟨trivial, ⟨⟨h.types, ⟨hfunctions, h.symbols.globals⟩, h.scopes, h.function⟩, h.loops⟩,
    refl_of TypeEnv.KeepsNumbers _, refl_of TypeEnv.KeepsNumbers _⟩

theorem checksAt_declareGlobals {s s' : CheckState} (h : s.Twin f before s') {scope scope' : Scope}
    (hscope : scope.Alike (TypeEnv.Twin s.types s'.types) scope') :
    ChecksAt f before s s' AnyResults (declareGlobals scope) (declareGlobals scope') := by
  have hglobals := h.symbols.globals.merge hscope
  exact ⟨trivial, ⟨⟨h.types, ⟨h.symbols.functions, hglobals⟩, h.scopes, h.function⟩, h.loops⟩,
    refl_of TypeEnv.KeepsNumbers _, refl_of TypeEnv.KeepsNumbers _⟩

/-- An item is accepted and declares the same at other places, or it is refused for the same reason
at the place that corresponds. -/
theorem checksAlike_checkItem (item : Item) :
    ChecksAlike f before AnyResults (checkItem item) (checkItem (item.relocate f)) := by
  obtain ⟨shape, place⟩ := item
  intro s s' h
  rw [Item.relocate, checkItem, checkItem]
  cases shape with
  | function proto body =>
    refine (checksAlike_resolveSignature proto s s' h).bind
      fun signature signature' t t' hsignature hgo => ?_
    have hscope := Table.alike_ofList (proto.params.map (·.name)) hsignature.params
    refine (checksAt_withFunction hgo.twin proto.name hsignature fun u u' hu htypes htypes' =>
      (checksAlike_checkSuite body).inScope hu ?_).bind fun _ _ u u' _ hgo => ?_
    · rw [htypes, htypes']
      exact hscope
    · exact checksAt_declareFunction hgo.twin proto.name (hsignature.mono hgo.keeps hgo.keeps')
  | external proto =>
    refine (checksAlike_resolveSignature proto s s' h).bind
      fun signature signature' t t' hsignature hgo => ?_
    exact checksAt_declareFunction hgo.twin proto.name hsignature
  | typeAlias name target => exact checksAt_pure h trivial
  | struct name => exact checksAt_pure h trivial
  | statement stmt =>
    refine ((checksAlike_checkStmt stmt).withScope h Table.alike_empty).bind
      fun result result' t t' hresult hgo => ?_
    exact checksAt_declareGlobals hgo.twin hresult.2

end Offside
