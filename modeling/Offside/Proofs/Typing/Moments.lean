import Offside.Proofs.Typing.Covered

/-!
# The moments of a check

A check resolves types and declares variables as it goes, and an expression is looked into in the
state that it finds. Here are all states that the check of an item may come to: on the way into a
scope, after every resolution, between statements, and on the way out, also where a part of it has
failed. The list goes on after a failure, where a check would have stopped, so it has states to
spare.

What a resolution does to the type tables is all that a check does to them. So whatever relation
between tables resolutions keep holds between the tables with which a check starts and those at any
of its moments.

## Main definitions

* `Offside.CheckState.Extends`: a state in which as many types are covered.
* `Offside.Check.Covering`: checks that lead to such states from any covered one.
* `Offside.Stmt.moments`, `Offside.Item.moments`: the states of a check.

## Main results

* `Offside.covering_checkItem`: the check of an item is such a check.
* `Offside.Item.covered_of_mem_moments`: what is held at any moment of a check is covered.
* `Offside.Item.state_mem_moments`: every statement inside an item is checked at one of them.
* `Offside.Item.along_of_mem_moments`: the tables at the moments of a check.
-/

namespace Offside

/-- A later state of a check whose tables cover all types that it holds, and all that an earlier
state has covered. -/
structure CheckState.Extends (s t : CheckState) : Prop where
  covered : t.toContext.Covered
  more : s.types.layouts.size ≤ t.types.layouts.size

namespace CheckState

variable {s t u : CheckState}

theorem Extends.refl (h : s.toContext.Covered) : s.Extends s := ⟨h, Nat.le_refl _⟩

theorem Extends.trans (h : s.Extends t) (k : t.Extends u) : s.Extends u :=
  ⟨k.covered, Nat.le_trans h.more k.more⟩

theorem covered_enterScope (h : s.toContext.Covered) {scope : Scope}
    (hscope : s.types.CoversAll scope.values) : (s.enterScope scope).toContext.Covered :=
  ⟨h.closed, h.symbols, List.forall_mem_cons.2 ⟨hscope, h.scopes⟩, h.function⟩

theorem covered_enterLoop (h : s.toContext.Covered) : s.enterLoop.toContext.Covered :=
  ⟨h.closed, h.symbols, h.scopes, h.function⟩

theorem covered_enterFunction (h : s.toContext.Covered) (name : String) {signature : Signature}
    (hsignature : s.types.CoversAll signature.types) :
    (s.enterFunction name signature).toContext.Covered := by
  refine ⟨h.closed, h.symbols, h.scopes, fun current hcurrent => ?_⟩
  cases hcurrent
  exact hsignature

end CheckState

namespace Check

variable {α β : Type} {s : CheckState} {x : Check α} {Q : TypeEnv → α → Prop}
  {Q' : TypeEnv → β → Prop}

/-- The check `x`, started in the state `s`, leads to a state that extends it. If it succeeds, the
tables there have `Q` with its result. -/
def CoversAt (s : CheckState) (Q : TypeEnv → α → Prop) (x : Check α) : Prop :=
  Yields s x (fun a t => s.Extends t ∧ Q t.types a) fun _ t => s.Extends t

/-- The same in every state that covers what it holds. -/
def Covering (Q : TypeEnv → α → Prop) (x : Check α) : Prop :=
  ∀ s, s.toContext.Covered → CoversAt s Q x

/-- Results of which nothing has to be known. -/
abbrev AnyResult : TypeEnv → α → Prop := fun _ _ => True

theorem coversAt_pure (h : s.toContext.Covered) {a : α} (ha : Q s.types a) :
    CoversAt s Q (pure a) := ⟨.refl h, ha⟩

theorem CoversAt.bind {f : α → Check β} (hx : CoversAt s Q x)
    (hf : ∀ a t, s.Extends t → Q t.types a → CoversAt t Q' (f a)) : CoversAt s Q' (x >>= f) := by
  refine yields_bind (Yields.mono hx ?_ fun _ _ h => h)
  rintro a t ⟨hst, ha⟩
  exact (hf a t hst ha).mono (fun _ _ h => ⟨hst.trans h.1, h.2⟩) fun _ _ => hst.trans

/-- As `CoversAt.bind`, where nothing has to be known about the first result. -/
theorem Covering.seq {f : α → Check β} (hx : Covering Q x) (hf : ∀ a, Covering Q' (f a)) :
    Covering Q' (x >>= f) :=
  fun s h => (hx s h).bind fun a t hst _ => hf a t hst.covered

theorem covering_throw (d : Diagnostic) : Covering Q (throw d : Check α) := fun _ h => .refl h

theorem covering_hint (e : Expr) :
    Covering (fun env type => ∀ known ∈ type, env.Covers known) (hint e) := by
  intro s h
  rw [CoversAt, Yields, hint]
  cases he : s.toContext.hint e with
  | error d => exact .refl h
  | ok type => exact ⟨.refl h, h.hint e he⟩

theorem covering_hintAll (es : List Expr) : Covering AnyResult (hintAll es) := by
  intro s h
  rw [CoversAt, Yields, hintAll]
  cases s.toContext.hintAll es with
  | error d => exact .refl h
  | ok _ => exact ⟨.refl h, trivial⟩

theorem covering_resolve (type : TypeExpr) (place : Location) :
    Covering TypeEnv.Covers (resolve type place) := by
  intro s h
  obtain ⟨hclosed, hmore, hcovers⟩ := h.closed.resolve type
  have hextends (notes : List Note) :
      s.Extends { s with types := (s.types.resolve type).env, notes } :=
    ⟨⟨hclosed, h.symbols.mono hmore, fun scope hscope => (h.scopes scope hscope).mono hmore,
      fun current hcurrent => (h.function current hcurrent).mono hmore⟩, hmore⟩
  rw [CoversAt, Yields, resolve]
  cases hanswer : (s.types.resolve type).answer with
  | error error => simpa [hanswer] using! hextends _
  | ok r => simpa [hanswer] using! And.intro (hextends _) (hcovers r hanswer)

theorem coversAt_declare (h : s.toContext.Covered) (name : String) {type : ResolvedType}
    (htype : s.types.Covers type) : CoversAt s AnyResult (declare name type) := by
  refine ⟨?_, trivial⟩
  have hscopes := h.scopes
  dsimp only
  split
  · exact .refl h
  · next scope outer heq =>
    rw [heq] at hscopes
    obtain ⟨hscope, houter⟩ := List.forall_mem_cons.1 hscopes
    exact ⟨⟨h.closed, h.symbols, List.forall_mem_cons.2
      ⟨Table.forall_values_insert hscope name htype, houter⟩, h.function⟩, Nat.le_refl _⟩

/-- What is entered before a check and left after it, whether or not the check succeeds. -/
private theorem coversAt_enclosed {y : Check β} {enter leave : CheckState → CheckState}
    {result : α → CheckState → β}
    (hy : ∀ s, y s = match x (enter s) with
      | .ok a t => .ok (result a t) (leave t)
      | .error d t => .error d (leave t))
    (henter : (enter s).types = s.types) (hleave : ∀ t, (leave t).types = t.types)
    (hcovered : ∀ t, t.toContext.Covered → (leave t).toContext.Covered)
    (hx : CoversAt (enter s) Q x)
    (hQ : ∀ a t, t.toContext.Covered → Q t.types a → Q' t.types (result a t)) :
    CoversAt s Q' y := by
  have hextends {t : CheckState} (h : (enter s).Extends t) : s.Extends (leave t) := by
    refine ⟨hcovered t h.covered, ?_⟩
    rw [hleave, ← henter]
    exact h.more
  rw [CoversAt, Yields] at hx ⊢
  rw [hy]
  split at hx
  · next a t ht =>
    rw [ht]
    refine ⟨hextends hx.1, ?_⟩
    rw [hleave]
    exact hQ a t hx.1.covered hx.2
  · next ht =>
    rw [ht]
    exact hextends hx

theorem CoversAt.withScope {scope : Scope} (hx : CoversAt (s.enterScope scope) Q x) :
    CoversAt s (fun env result => Q env result.1 ∧ env.CoversAll result.2.values)
      (withScope scope x) := by
  refine coversAt_enclosed (fun _ => rfl) rfl (fun _ => rfl) (fun t ht => ?_) hx fun a t ht ha => ⟨ha, ?_⟩
  · exact ⟨ht.closed, ht.symbols, fun scope hscope => ht.scopes scope (List.mem_of_mem_tail hscope),
      ht.function⟩
  · cases hscopes : t.scopes with
    | nil => exact Table.forall_values_empty
    | cons scope outer => exact ht.scopes scope (hscopes ▸ List.mem_cons_self)

theorem CoversAt.inScope {scope : Scope} {x : Check Unit}
    (hx : CoversAt (s.enterScope scope) AnyResult x) : CoversAt s AnyResult (inScope scope x) :=
  hx.withScope.bind fun _ _ ht _ => coversAt_pure ht.covered trivial

theorem CoversAt.withLoop (hx : CoversAt s.enterLoop Q x) : CoversAt s Q (withLoop x) :=
  coversAt_enclosed (fun _ => rfl) rfl (fun _ => rfl)
    (fun _ ht => ⟨ht.closed, ht.symbols, ht.scopes, ht.function⟩) hx fun _ _ _ ha => ha

theorem CoversAt.withFunction {name : String} {signature : Signature}
    (hx : CoversAt (s.enterFunction name signature) Q x) :
    CoversAt s Q (withFunction name signature x) :=
  coversAt_enclosed (fun _ => rfl) rfl (fun _ => rfl)
    (fun _ ht => ⟨ht.closed, ht.symbols, ht.scopes, fun _ h => nomatch h⟩) hx fun _ _ _ ha => ha

/-- The state after a check that covers. -/
theorem extends_after (hx : Covering Q x) (h : s.toContext.Covered) : s.Extends (x.after s) := by
  rw [after]
  split
  · next hrun => exact ((hx s h).ok hrun).1
  · next hrun => exact (hx s h).error hrun

end Check

open Check

theorem covering_checkOptional (e : Option Expr) : Covering AnyResult (checkOptional e) := by
  cases e with
  | none => exact fun s h => coversAt_pure h trivial
  | some e => exact (covering_hint e).seq fun _ s h => coversAt_pure h trivial

theorem covering_checkScrutinee (e : Expr) : Covering AnyResult (checkScrutinee e) := by
  refine (covering_hint e).seq fun type s h => ?_
  split
  · exact coversAt_pure h trivial
  · split
    · exact .refl h
    · exact coversAt_pure h trivial

theorem covering_checkPattern (seen : List Int) (pattern : Pattern) :
    Covering AnyResult (checkPattern seen pattern) := by
  intro s h
  cases pattern with
  | wildcard => exact coversAt_pure h trivial
  | value e =>
    rw [checkPattern]
    split
    · exact covering_throw _ s h
    · split
      · exact .refl h
      · exact coversAt_pure h trivial

theorem coversAll_counterScope {env : TypeEnv} {type : Option ResolvedType}
    (h : ∀ known ∈ type, env.Covers known) (counter : String) :
    env.CoversAll (counterScope counter type).values := by
  cases type with
  | none => exact Table.forall_values_empty
  | some type => exact Table.forall_values_insert Table.forall_values_empty counter (h type rfl)

mutual

theorem covering_checkStmt : (s : Stmt) → Covering AnyResult (checkStmt s)
  | .expr _ value => by
    rw [checkStmt]
    exact covering_checkOptional (some value)
  | .declare tag name type init => by
    rw [checkStmt]
    intro c h
    refine (covering_resolve type tag.location c h).bind fun resolved d hd hresolved => ?_
    refine (covering_checkOptional init d hd.covered).bind fun _ e he _ => ?_
    exact coversAt_declare he.covered name (hresolved.mono he.more)
  | .assign _ target value => by
    rw [checkStmt]
    exact (covering_checkOptional (some target)).seq fun _ => covering_checkOptional (some value)
  | .ret _ value => by
    rw [checkStmt]
    exact covering_checkOptional value
  | .print _ args => by
    rw [checkStmt]
    exact covering_hintAll args
  | .branch _ condition thenSuite elseSuite => by
    rw [checkStmt]
    refine (covering_checkOptional (some condition)).seq fun _ => ?_
    exact (covering_checkSuite thenSuite).seq fun _ => covering_checkElse elseSuite
  | .forRange _ counter start stop step body => by
    rw [checkStmt]
    intro c h
    refine (covering_hint start c h).bind fun type d hd htype => ?_
    refine (covering_checkOptional (some stop) d hd.covered).bind fun _ e he _ => ?_
    refine (covering_checkOptional step e he.covered).bind fun _ f hf _ => ?_
    have hmore := Nat.le_trans he.more hf.more
    have hscope := coversAll_counterScope (fun known hknown => (htype known hknown).mono hmore)
      counter
    exact .inScope (.withLoop (covering_checkSuite body _
      (CheckState.covered_enterLoop (CheckState.covered_enterScope hf.covered hscope))))
  | .whileLoop _ condition body => by
    rw [checkStmt]
    refine (covering_checkOptional (some condition)).seq fun _ c h => ?_
    exact .withLoop (covering_checkSuite body _ (CheckState.covered_enterLoop h))
  | .doWhile _ body condition => by
    rw [checkStmt]
    intro c h
    refine (CoversAt.withLoop (covering_checkSuite body _ (CheckState.covered_enterLoop h))).bind ?_
    exact fun _ d hd _ => covering_checkOptional (some condition) d hd.covered
  | .jump _ _ => by
    rw [checkStmt]
    refine fun c h => yields_get ?_
    split
    · exact .refl h
    · exact coversAt_pure h trivial
  | .select _ scrutinee arms => by
    rw [checkStmt]
    exact (covering_checkScrutinee scrutinee).seq fun _ => covering_checkArms [] arms

theorem covering_checkSuite : (suite : Suite) → Covering AnyResult (checkSuite suite)
  | .mk _ stmts => by
    rw [checkSuite]
    exact fun c h => .inScope (covering_checkStmts stmts _
      (CheckState.covered_enterScope h Table.forall_values_empty))

theorem covering_checkStmts : (ss : List Stmt) → Covering AnyResult (checkStmts ss)
  | [] => fun _ h => coversAt_pure h trivial
  | s :: ss => by
    rw [checkStmts]
    exact (covering_checkStmt s).seq fun _ => covering_checkStmts ss

theorem covering_checkElse : (suite : Option Suite) → Covering AnyResult (checkElse suite)
  | none => fun _ h => coversAt_pure h trivial
  | some suite => covering_checkSuite suite

theorem covering_checkArms : (seen : List Int) → (arms : List Arm) →
    Covering AnyResult (checkArms seen arms)
  | _, [] => fun _ h => coversAt_pure h trivial
  | seen, .mk _ pattern body :: arms => by
    rw [checkArms]
    refine (covering_checkPattern seen pattern).seq fun seen => ?_
    exact (covering_checkSuite body).seq fun _ => covering_checkArms seen arms

end

/-! ### Items -/

theorem covering_resolveParams (place : Location) (params : List Binding) :
    Covering TypeEnv.CoversAll (resolveParams place params) := by
  induction params with
  | nil => exact fun s h => coversAt_pure h (List.forall_mem_nil _)
  | cons param params ih =>
    intro s h
    refine (covering_resolve param.type place s h).bind fun type t ht htype => ?_
    refine (ih t ht.covered).bind fun types u hu htypes => coversAt_pure hu.covered ?_
    exact List.forall_mem_cons.2 ⟨htype.mono hu.more, htypes⟩

theorem covering_resolveSignature (proto : Prototype) :
    Covering (fun env signature => env.CoversAll signature.types) (resolveSignature proto) := by
  intro s h
  refine (covering_resolveParams proto.location proto.params s h).bind fun params t ht hparams => ?_
  refine (covering_resolve proto.result proto.location t ht.covered).bind fun result u hu hresult =>
    coversAt_pure hu.covered ?_
  exact List.forall_mem_append.2 ⟨hparams.mono hu.more, List.forall_mem_singleton.2 hresult⟩

theorem coversAll_paramScope {env : TypeEnv} {signature : Signature}
    (h : env.CoversAll signature.types) (proto : Prototype) :
    env.CoversAll (paramScope proto signature).values :=
  Table.forall_values_ofList _ (List.forall_mem_append.1 h).1

theorem coversAt_declareFunction {s : CheckState} (h : s.toContext.Covered) (name : String)
    {signature : Signature} (hsignature : s.types.CoversAll signature.types) :
    CoversAt s AnyResult (declareFunction name signature) := by
  obtain ⟨hfunctions, hglobals⟩ := TypeEnv.coversAll_symbols.1 h.symbols
  have hsymbols := Table.forall_values_insert hfunctions name hsignature
  exact ⟨⟨⟨h.closed, TypeEnv.coversAll_symbols.2 ⟨hsymbols, hglobals⟩, h.scopes, h.function⟩,
    Nat.le_refl _⟩, trivial⟩

theorem coversAt_declareGlobals {s : CheckState} (h : s.toContext.Covered) {scope : Scope}
    (hscope : s.types.CoversAll scope.values) : CoversAt s AnyResult (declareGlobals scope) := by
  obtain ⟨hfunctions, hglobals⟩ := TypeEnv.coversAll_symbols.1 h.symbols
  have hsymbols := Table.forall_values_merge hglobals hscope
  exact ⟨⟨⟨h.closed, TypeEnv.coversAll_symbols.2 ⟨hfunctions, hsymbols⟩, h.scopes, h.function⟩,
    Nat.le_refl _⟩, trivial⟩

/-- Whether or not an item passes, its check leaves tables that cover all that is held, and that
have every layout that there was. -/
theorem covering_checkItem (item : Item) : Covering AnyResult (checkItem item) := by
  intro s h
  rw [checkItem]
  cases item.shape with
  | function proto body =>
    refine (covering_resolveSignature proto s h).bind fun signature t ht hsignature => ?_
    have hinside := CheckState.covered_enterScope
      (CheckState.covered_enterFunction ht.covered proto.name hsignature)
      (coversAll_paramScope hsignature proto)
    have hbody : CoversAt t AnyResult (withFunction proto.name signature
        (inScope (paramScope proto signature) (checkSuite body))) :=
      .withFunction (.inScope (covering_checkSuite body _ hinside))
    refine hbody.bind fun _ u hu _ => ?_
    exact coversAt_declareFunction hu.covered proto.name (hsignature.mono hu.more)
  | external proto =>
    refine (covering_resolveSignature proto s h).bind fun signature t ht hsignature => ?_
    exact coversAt_declareFunction ht.covered proto.name hsignature
  | typeAlias | struct => exact coversAt_pure h trivial
  | statement stmt =>
    have hstmt := (covering_checkStmt stmt _
      (CheckState.covered_enterScope h Table.forall_values_empty)).withScope
    exact hstmt.bind fun result t ht hresult => coversAt_declareGlobals ht.covered hresult.2

/-! ### Moments -/

mutual

/-- The states that the check of a statement may come to if it starts in the state `c`. -/
def Stmt.moments (c : CheckState) (s : Stmt) : List CheckState :=
  c :: (checkStmt s).after c :: match s with
    | .declare tag _ type _ => [(resolve type tag.location).after c]
    | .branch _ _ thenSuite elseSuite =>
      thenSuite.moments c ++ Suite.momentsElse ((checkSuite thenSuite).after c) elseSuite
    | .forRange _ counter start _ _ body =>
      body.moments (c.enterScope (counterScope counter (c.toContext.known start))).enterLoop
    | .whileLoop _ _ body | .doWhile _ body _ => body.moments c.enterLoop
    | .select _ _ arms => Arm.momentsAll c arms
    | .expr _ _ | .assign _ _ _ | .ret _ _ | .print _ _ | .jump _ _ => []

/-- The states that the check of a body may come to. -/
def Suite.moments (c : CheckState) : Suite → List CheckState
  | .mk place stmts =>
    c :: (checkSuite (.mk place stmts)).after c ::
      Stmt.momentsAll (c.enterScope Table.empty) stmts

/-- The states that the check of the other branch may come to, if there is one. -/
def Suite.momentsElse (c : CheckState) : Option Suite → List CheckState
  | none => []
  | some suite => suite.moments c

/-- The states that the check of several statements may come to, of each after the one before. -/
def Stmt.momentsAll (c : CheckState) : List Stmt → List CheckState
  | [] => [c]
  | s :: ss => s.moments c ++ Stmt.momentsAll ((checkStmt s).after c) ss

/-- The states that the check of cases may come to. -/
def Arm.momentsAll (c : CheckState) : List Arm → List CheckState
  | [] => [c]
  | .mk _ _ body :: arms => body.moments c ++ Arm.momentsAll ((checkSuite body).after c) arms

end

/-- The states that the resolution of parameters may come to. -/
def Binding.moments (place : Location) (c : CheckState) : List Binding → List CheckState
  | [] => [c]
  | param :: params => c :: Binding.moments place ((resolve param.type place).after c) params

/-- The states that the check of an item may come to if it starts in the state `c`. -/
def Item.moments (c : CheckState) (item : Item) : List CheckState :=
  c :: (checkItem item).after c :: match item.shape with
    | .function proto body =>
      Binding.moments proto.location c proto.params ++
        match (resolveSignature proto).run c with
        | .ok signature c => c :: body.moments
            ((c.enterFunction proto.name signature).enterScope (paramScope proto signature))
        | .error _ c => [c]
    | .external proto =>
      Binding.moments proto.location c proto.params ++ [(resolveSignature proto).after c]
    | .statement stmt => stmt.moments (c.enterScope Table.empty)
    | .typeAlias _ _ | .struct _ => []

/-- A check begins and ends with what is held covered, so only the states between are in question. -/
theorem covered_of_mem_between {α : Type} {Q : TypeEnv → α → Prop} {x : Check α}
    (hx : Covering Q x) {c : CheckState} (h : c.toContext.Covered) {between : List CheckState}
    (hbetween : ∀ m ∈ between, m.toContext.Covered) :
    ∀ m ∈ c :: x.after c :: between, m.toContext.Covered :=
  List.forall_mem_cons.2 ⟨h, List.forall_mem_cons.2 ⟨(extends_after hx h).covered, hbetween⟩⟩

mutual

theorem Stmt.covered_of_mem_moments : (s : Stmt) → {c : CheckState} → c.toContext.Covered →
    ∀ m ∈ s.moments c, m.toContext.Covered
  | .expr _ _, _, h | .assign _ _ _, _, h | .ret _ _, _, h | .print _ _, _, h | .jump _ _, _, h =>
    covered_of_mem_between (covering_checkStmt _) h (List.forall_mem_nil _)
  | .declare tag _ type _, _, h => by
    refine covered_of_mem_between (covering_checkStmt _) h (List.forall_mem_singleton.2 ?_)
    exact (extends_after (covering_resolve type tag.location) h).covered
  | .branch _ _ thenSuite elseSuite, _, h => by
    have hthen := (extends_after (covering_checkSuite thenSuite) h).covered
    exact covered_of_mem_between (covering_checkStmt _) h (List.forall_mem_append.2
      ⟨thenSuite.covered_of_mem_moments h, Suite.covered_of_mem_momentsElse elseSuite hthen⟩)
  | .forRange _ counter start _ _ body, _, h => by
    have hscope := coversAll_counterScope (fun _ => h.known (e := start)) counter
    exact covered_of_mem_between (covering_checkStmt _) h (body.covered_of_mem_moments
      (CheckState.covered_enterLoop (CheckState.covered_enterScope h hscope)))
  | .whileLoop _ _ body, _, h | .doWhile _ body _, _, h =>
    covered_of_mem_between (covering_checkStmt _) h
      (body.covered_of_mem_moments (CheckState.covered_enterLoop h))
  | .select _ _ arms, _, h =>
    covered_of_mem_between (covering_checkStmt _) h (Arm.covered_of_mem_momentsAll arms h)

theorem Suite.covered_of_mem_moments : (suite : Suite) → {c : CheckState} → c.toContext.Covered →
    ∀ m ∈ suite.moments c, m.toContext.Covered
  | .mk _ stmts, _, h =>
    covered_of_mem_between (covering_checkSuite _) h (Stmt.covered_of_mem_momentsAll stmts
      (CheckState.covered_enterScope h Table.forall_values_empty))

theorem Suite.covered_of_mem_momentsElse : (suite : Option Suite) → {c : CheckState} →
    c.toContext.Covered → ∀ m ∈ Suite.momentsElse c suite, m.toContext.Covered
  | none, _, _ => List.forall_mem_nil _
  | some suite, _, h => suite.covered_of_mem_moments h

theorem Stmt.covered_of_mem_momentsAll : (ss : List Stmt) → {c : CheckState} →
    c.toContext.Covered → ∀ m ∈ Stmt.momentsAll c ss, m.toContext.Covered
  | [], _, h => List.forall_mem_singleton.2 h
  | s :: ss, _, h => by
    rw [Stmt.momentsAll]
    exact List.forall_mem_append.2 ⟨s.covered_of_mem_moments h,
      Stmt.covered_of_mem_momentsAll ss (extends_after (covering_checkStmt s) h).covered⟩

theorem Arm.covered_of_mem_momentsAll : (arms : List Arm) → {c : CheckState} →
    c.toContext.Covered → ∀ m ∈ Arm.momentsAll c arms, m.toContext.Covered
  | [], _, h => List.forall_mem_singleton.2 h
  | .mk _ _ body :: arms, _, h => by
    rw [Arm.momentsAll]
    exact List.forall_mem_append.2 ⟨body.covered_of_mem_moments h,
      Arm.covered_of_mem_momentsAll arms (extends_after (covering_checkSuite body) h).covered⟩

end

theorem Binding.covered_of_mem_moments {place : Location} {params : List Binding} {c : CheckState}
    (h : c.toContext.Covered) : ∀ m ∈ Binding.moments place c params, m.toContext.Covered := by
  induction params generalizing c with
  | nil => exact List.forall_mem_singleton.2 h
  | cons param params ih =>
    refine List.forall_mem_cons.2 ⟨h, ?_⟩
    exact ih (extends_after (covering_resolve param.type place) h).covered

/-- What is held at any moment of a check is covered. -/
theorem Item.covered_of_mem_moments (item : Item) {c : CheckState} (h : c.toContext.Covered) :
    ∀ m ∈ item.moments c, m.toContext.Covered := by
  refine covered_of_mem_between (covering_checkItem item) h ?_
  cases item.shape with
  | function proto body =>
    refine List.forall_mem_append.2 ⟨Binding.covered_of_mem_moments h, ?_⟩
    have hsignature := covering_resolveSignature proto c h
    split
    · next signature d hrun =>
      obtain ⟨hd, hcovers⟩ := hsignature.ok hrun
      refine List.forall_mem_cons.2 ⟨hd.covered, body.covered_of_mem_moments ?_⟩
      exact CheckState.covered_enterScope
        (CheckState.covered_enterFunction hd.covered proto.name hcovers)
        (coversAll_paramScope hcovers proto)
    · next hrun => exact List.forall_mem_singleton.2 (hsignature.error hrun).covered
  | external proto =>
    refine List.forall_mem_append.2 ⟨Binding.covered_of_mem_moments h, ?_⟩
    exact List.forall_mem_singleton.2 (extends_after (covering_resolveSignature proto) h).covered
  | statement stmt =>
    exact stmt.covered_of_mem_moments (CheckState.covered_enterScope h Table.forall_values_empty)
  | typeAlias | struct => exact List.forall_mem_nil _

/-! ### Statements inside an item -/

mutual

theorem Stmt.state_mem_moments : (s : Stmt) → {c : CheckState} →
    ∀ v ∈ s.visits c, v.state ∈ s.moments c
  | .expr _ _, _ | .declare _ _ _ _, _ | .assign _ _ _, _ | .ret _ _, _ | .print _ _, _
  | .jump _ _, _ => List.forall_mem_singleton.2 List.mem_cons_self
  | .branch _ _ thenSuite elseSuite, _ => by
    refine List.forall_mem_cons.2 ⟨List.mem_cons_self, fun v hv => ?_⟩
    refine List.mem_cons_of_mem _ (List.mem_cons_of_mem _ (List.mem_append.2 ?_))
    exact (List.mem_append.1 hv).imp (thenSuite.state_mem_moments v)
      (Suite.state_mem_momentsElse elseSuite v)
  | .forRange _ _ _ _ _ body, _ | .whileLoop _ _ body, _ | .doWhile _ body _, _ => by
    refine List.forall_mem_cons.2 ⟨List.mem_cons_self, fun v hv => ?_⟩
    exact List.mem_cons_of_mem _ (List.mem_cons_of_mem _ (body.state_mem_moments v hv))
  | .select _ _ arms, _ => by
    refine List.forall_mem_cons.2 ⟨List.mem_cons_self, fun v hv => ?_⟩
    exact List.mem_cons_of_mem _ (List.mem_cons_of_mem _ (Arm.state_mem_momentsAll arms v hv))

theorem Suite.state_mem_moments : (suite : Suite) → {c : CheckState} →
    ∀ v ∈ suite.visits c, v.state ∈ suite.moments c
  | .mk _ stmts, _ => fun v hv =>
    List.mem_cons_of_mem _ (List.mem_cons_of_mem _ (Stmt.state_mem_momentsAll stmts v hv))

theorem Suite.state_mem_momentsElse : (suite : Option Suite) → {c : CheckState} →
    ∀ v ∈ Suite.visitsElse c suite, v.state ∈ Suite.momentsElse c suite
  | none, _ => List.forall_mem_nil _
  | some suite, _ => suite.state_mem_moments

theorem Stmt.state_mem_momentsAll : (ss : List Stmt) → {c : CheckState} →
    ∀ v ∈ Stmt.visitsAll c ss, v.state ∈ Stmt.momentsAll c ss
  | [], _ => List.forall_mem_nil _
  | s :: ss, _ => fun v hv => by
    rw [Stmt.visitsAll, List.mem_append] at hv
    rw [Stmt.momentsAll, List.mem_append]
    exact hv.imp (s.state_mem_moments v) (Stmt.state_mem_momentsAll ss v)

theorem Arm.state_mem_momentsAll : (arms : List Arm) → {c : CheckState} →
    ∀ v ∈ Arm.visitsAll c arms, v.state ∈ Arm.momentsAll c arms
  | [], _ => List.forall_mem_nil _
  | .mk _ _ body :: arms, _ => fun v hv => by
    rw [Arm.visitsAll, List.mem_append] at hv
    rw [Arm.momentsAll, List.mem_append]
    exact hv.imp (body.state_mem_moments v) (Arm.state_mem_momentsAll arms v)

end

/-- Every statement inside an item is checked at one of the moments. -/
theorem Item.state_mem_moments (item : Item) {c : CheckState} :
    ∀ v ∈ item.visits c, v.state ∈ item.moments c := by
  intro v hv
  refine List.mem_cons_of_mem _ (List.mem_cons_of_mem _ ?_)
  obtain ⟨shape, place⟩ := item
  cases shape with
  | function proto body =>
    rw [Item.visits] at hv
    dsimp only at hv
    refine List.mem_append_right _ ?_
    generalize (resolveSignature proto).run c = outcome at hv ⊢
    cases outcome with
    | ok signature d => exact List.mem_cons_of_mem _ (body.state_mem_moments v hv)
    | error d e => cases hv
  | statement stmt => exact stmt.state_mem_moments v hv
  | external | typeAlias | struct => cases hv

/-! ### Tables along a check -/

section

variable {R : TypeEnv → TypeEnv → Prop} [TypeEnv.ResolveFrame R] {start : TypeEnv} {c : CheckState}

/-- After a check the tables are related to those at the start if they were before it. -/
theorem along_after {α : Type} {Q : α → Prop} {x : Check α}
    (hx : Ensures (CheckState.Across R) Q x) (h : R start c.types) : R start (x.after c).types := by
  rw [Check.after]
  split
  · next hrun => exact trans_of R h ((hx c).ok hrun).1
  · next hrun => exact trans_of R h ((hx c).error hrun)

/-- As for what is covered, only the moments between are in question. -/
theorem along_of_mem_between {α : Type} {Q : α → Prop} {x : Check α}
    (hx : Ensures (CheckState.Across R) Q x) (h : R start c.types) {between : List CheckState}
    (hbetween : ∀ m ∈ between, R start m.types) :
    ∀ m ∈ c :: x.after c :: between, R start m.types :=
  List.forall_mem_cons.2 ⟨h, List.forall_mem_cons.2 ⟨along_after hx h, hbetween⟩⟩

mutual

theorem Stmt.along_of_mem_moments : (s : Stmt) → {c : CheckState} → R start c.types →
    ∀ m ∈ s.moments c, R start m.types
  | .expr _ _, _, h | .assign _ _ _, _, h | .ret _ _, _, h | .print _ _, _, h | .jump _ _, _, h =>
    along_of_mem_between (ensures_checkStmt _) h (List.forall_mem_nil _)
  | .declare tag _ type _, _, h => by
    refine along_of_mem_between (ensures_checkStmt _) h (List.forall_mem_singleton.2 ?_)
    exact along_after (Check.ensures_resolve type tag.location) h
  | .branch _ _ thenSuite none, _, h =>
    along_of_mem_between (ensures_checkStmt _) h (List.forall_mem_append.2
      ⟨thenSuite.along_of_mem_moments h, List.forall_mem_nil _⟩)
  | .branch _ _ thenSuite (some elseSuite), _, h =>
    along_of_mem_between (ensures_checkStmt _) h (List.forall_mem_append.2
      ⟨thenSuite.along_of_mem_moments h,
        elseSuite.along_of_mem_moments (along_after (ensures_checkSuite thenSuite) h)⟩)
  | .forRange _ _ _ _ _ body, _, h | .whileLoop _ _ body, _, h | .doWhile _ body _, _, h =>
    along_of_mem_between (ensures_checkStmt _) h (body.along_of_mem_moments h)
  | .select _ _ arms, _, h =>
    along_of_mem_between (ensures_checkStmt _) h (Arm.along_of_mem_momentsAll arms h)

theorem Suite.along_of_mem_moments : (suite : Suite) → {c : CheckState} → R start c.types →
    ∀ m ∈ suite.moments c, R start m.types
  | .mk _ stmts, _, h =>
    along_of_mem_between (ensures_checkSuite _) h (Stmt.along_of_mem_momentsAll stmts h)

theorem Stmt.along_of_mem_momentsAll : (ss : List Stmt) → {c : CheckState} → R start c.types →
    ∀ m ∈ Stmt.momentsAll c ss, R start m.types
  | [], _, h => List.forall_mem_singleton.2 h
  | s :: ss, _, h => by
    rw [Stmt.momentsAll]
    exact List.forall_mem_append.2 ⟨s.along_of_mem_moments h,
      Stmt.along_of_mem_momentsAll ss (along_after (ensures_checkStmt s) h)⟩

theorem Arm.along_of_mem_momentsAll : (arms : List Arm) → {c : CheckState} → R start c.types →
    ∀ m ∈ Arm.momentsAll c arms, R start m.types
  | [], _, h => List.forall_mem_singleton.2 h
  | .mk _ _ body :: arms, _, h => by
    rw [Arm.momentsAll]
    exact List.forall_mem_append.2 ⟨body.along_of_mem_moments h,
      Arm.along_of_mem_momentsAll arms (along_after (ensures_checkSuite body) h)⟩

end

theorem Binding.along_of_mem_moments {place : Location} {params : List Binding}
    (h : R start c.types) : ∀ m ∈ Binding.moments place c params, R start m.types := by
  induction params generalizing c with
  | nil => exact List.forall_mem_singleton.2 h
  | cons param params ih =>
    refine List.forall_mem_cons.2 ⟨h, ?_⟩
    exact ih (along_after (Check.ensures_resolve param.type place) h)

/-- At every moment of a check the tables are related to those with which it starts. -/
theorem Item.along_of_mem_moments (item : Item) (h : R start c.types) :
    ∀ m ∈ item.moments c, R start m.types := by
  refine along_of_mem_between (ensures_checkItem item) h ?_
  cases item.shape with
  | function proto body =>
    refine List.forall_mem_append.2 ⟨Binding.along_of_mem_moments h, ?_⟩
    have hsignature := ensures_resolveSignature (R := CheckState.Across R) proto c
    split
    · next signature d hrun =>
      have hd : R start d.types := trans_of R h (hsignature.ok hrun).1
      exact List.forall_mem_cons.2 ⟨hd, body.along_of_mem_moments hd⟩
    · next hrun => exact List.forall_mem_singleton.2 (trans_of R h (hsignature.error hrun))
  | external proto =>
    refine List.forall_mem_append.2 ⟨Binding.along_of_mem_moments h, ?_⟩
    exact List.forall_mem_singleton.2 (along_after (ensures_resolveSignature proto) h)
  | statement stmt => exact stmt.along_of_mem_moments h
  | typeAlias | struct => exact List.forall_mem_nil _

end

end Offside
