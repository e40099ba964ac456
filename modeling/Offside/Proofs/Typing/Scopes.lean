import Offside.Proofs.Typing.Visits

/-!
# Variables in scope

A variable is bound by a declaration before it, in the same body or in one around it, by a counting
loop around it, or as a parameter. These binders are listed here, the innermost one first, next to
the state of the check that comes to a place inside them.

The scopes of the state know a variable by the innermost of its binders whose type is known, and it
is looked up among the globals if there is none. So the innermost binder decides, as it should,
unless its own type is unknown: a counting loop does not bind a counter whose type is unknown, and
an outer variable of that name is seen in its place.

A statement leaves the scopes around it as they were, but for what it declares itself. A check
enters scopes, loops and the body of a function, and it may fail at any depth inside them. Either
way it ends where it began: with as many scopes, in as many loops, and in the same function. An item
is checked outside any scope, loop or function, and it leaves none behind.

## Main definitions

* `Offside.Binder`: a variable with its type, if this is known.
* `Offside.Binder.lexical?`, `Offside.Binder.seen?`: the type of a variable by its innermost binder,
  and by the innermost binder with a known type.
* `Offside.CheckState.Scoped`: a state that knows the binders around it.
* `Offside.Stmt.declared`: what a statement binds for those after it.
* `Offside.CheckState.SamePlace`: checks in progress at one place, but for its innermost scope.
* `Offside.CheckState.Unchanged`: the same, with the same variables in all scopes.
* `Offside.CheckState.LeftBy`: what an item leaves of the place at which it is checked.
* `Offside.Stmt.scopesAfter`: the scopes after a statement.

## Main results

* `Offside.Binder.seen?_eq_lexical?`: where the innermost binder decides.
* `Offside.CheckState.Scoped.hint_var`: what is known of a variable.
* `Offside.CheckState.Scoped.after`: what is in scope after a statement.
* `Offside.yields_checkStmt`, `Offside.unchanged_checkSuite`, `Offside.leftBy_checkItem`: where the
  check of a statement, of a body and of an item ends.
* `Offside.place_after_check`: all of this for every state.
-/

namespace Offside

open Check

/-! ### Binders -/

/-- A variable that is bound, with its type if this is known. -/
structure Binder where
  name : String
  type : Option ResolvedType
  deriving DecidableEq

namespace Binder

/-- The type of the innermost binder of the name, or of a global if there is no binder. -/
def lexical? (globals : Table ResolvedType) (binders : List Binder) (name : String) :
    Option ResolvedType :=
  match binders.find? fun b => b.name = name with
  | some b => b.type
  | none => globals.get? name

/-- The type of the innermost binder of the name whose type is known. -/
def known? (binders : List Binder) (name : String) : Option ResolvedType :=
  binders.findSome? fun b => if b.name = name then b.type else none

/-- The type of the innermost binder of the name whose type is known, or of a global. -/
def seen? (globals : Table ResolvedType) (binders : List Binder) (name : String) :
    Option ResolvedType :=
  (known? binders name).or (globals.get? name)

variable {globals : Table ResolvedType} {binders : List Binder} {name : String}

theorem known?_cons (b : Binder) :
    known? (b :: binders) name = (if b.name = name then b.type else none).or (known? binders name) := by
  rw [known?, List.findSome?_cons, ← known?]
  split
  · next h => rw [h, Option.some_or]
  · next h => rw [h, Option.none_or]

theorem known?_append (more binders : List Binder) :
    known? (more ++ binders) name = (known? more name).or (known? binders name) := by
  rw [known?, List.findSome?_append]
  rfl

/-- The innermost binder decides, unless its type is unknown. -/
theorem seen?_eq_lexical? (h : ∀ b ∈ binders.find? fun b => b.name = name, b.type ≠ none) :
    seen? globals binders name = lexical? globals binders name := by
  induction binders with
  | nil => rfl
  | cons b binders ih =>
    rw [seen?, known?_cons, lexical?]
    rw [List.find?_cons] at h ⊢
    by_cases hname : b.name = name
    · rw [decide_eq_true hname] at h ⊢
      obtain ⟨type, htype⟩ := Option.ne_none_iff_exists'.1 (h b rfl)
      simp [hname, htype]
    · rw [decide_eq_false hname] at h ⊢
      simpa [hname, seen?, lexical?] using ih h

end Binder

/-! ### States that know the binders -/

/-- The scopes of a state give variables the types that the binders give them, and its globals are
those given. -/
structure CheckState.Scoped (globals : Table ResolvedType) (binders : List Binder)
    (c : CheckState) : Prop where
  inside : c.scopes ≠ []
  known : ∀ name, c.scopes.findSome? (·.get? name) = Binder.known? binders name
  globals : c.symbols.globals = globals

/-- Checks in progress in the same scopes, with what these bind, and with the same symbols. -/
structure CheckState.SameScopes (s t : CheckState) : Prop where
  scopes : t.scopes = s.scopes
  symbols : t.symbols = s.symbols

/-- The same but for what the innermost scope binds. -/
structure CheckState.SameOuter (s t : CheckState) : Prop where
  scopes : t.scopes.tail = s.scopes.tail
  symbols : t.symbols = s.symbols

namespace CheckState

instance : ResolveFrame SameScopes where
  refl _ := ⟨rfl, rfl⟩
  trans _ _ _ h k := ⟨k.scopes.trans h.scopes, k.symbols.trans h.symbols⟩
  resolve _ _ := ⟨rfl, rfl⟩

instance : Frame SameOuter where
  refl _ := ⟨rfl, rfl⟩
  trans _ _ _ h k := ⟨k.scopes.trans h.scopes, k.symbols.trans h.symbols⟩
  resolve _ _ := ⟨rfl, rfl⟩
  declare _ _ _ _ _ h := ⟨by rw [h]; rfl, rfl⟩
  leaveScope _ h := ⟨congrArg List.tail h.scopes, h.symbols⟩
  leaveLoop h := ⟨h.scopes, h.symbols⟩

variable {globals : Table ResolvedType} {binders : List Binder} {c d : CheckState}

/-- A new scope adds its binders to those around it. -/
theorem scoped_enterScope (more : List Binder) {scope : Scope}
    (hknown : ∀ name, c.scopes.findSome? (·.get? name) = Binder.known? binders name)
    (hglobals : c.symbols.globals = globals)
    (hscope : ∀ name, scope.get? name = Binder.known? more name) :
    (c.enterScope scope).Scoped globals (more ++ binders) where
  inside := List.cons_ne_nil _ _
  known name := by
    show (scope :: c.scopes).findSome? _ = _
    rw [List.findSome?_cons, hscope, Binder.known?_append, hknown]
    cases Binder.known? more name <;> rfl
  globals := hglobals

namespace Scoped

theorem congr (h : c.Scoped globals binders) (hsame : c.SameScopes d) :
    d.Scoped globals binders :=
  ⟨by rw [hsame.scopes]; exact h.inside, by rw [hsame.scopes]; exact h.known,
    by rw [hsame.symbols]; exact h.globals⟩

theorem enterBody (h : c.Scoped globals binders) :
    (c.enterScope Table.empty).Scoped globals binders :=
  scoped_enterScope [] h.known h.globals fun _ => rfl

theorem enterCounter (h : c.Scoped globals binders) (counter : String)
    (type : Option ResolvedType) :
    (c.enterScope (counterScope counter type)).Scoped globals (⟨counter, type⟩ :: binders) := by
  refine scoped_enterScope [⟨counter, type⟩] h.known h.globals fun name => ?_
  cases type with
  | none => simp [counterScope, Binder.known?]
  | some type => simp [counterScope, Table.get?_insert, Binder.known?]

theorem enterLoop (h : c.Scoped globals binders) : c.enterLoop.Scoped globals binders :=
  h.congr ⟨rfl, rfl⟩

/-- The type of a variable is that of the innermost binder whose type is known. -/
theorem hint_var (h : c.Scoped globals binders) (tag : Tag) (name : String) :
    c.toContext.hint (.var tag name) = .ok (Binder.seen? globals binders name) := by
  rw [Context.hint, Context.lookup?, h.known, h.globals]
  rfl

end Scoped

end CheckState

open CheckState

/-! ### What a check leaves as it was -/

namespace Check

/-- A scope that is entered is left again, with what it binds. -/
theorem ensures_inScope {R R' : CheckState → CheckState → Prop} [IsPreorder CheckState R']
    {Q : Unit → Prop} {inside : Check Unit} (h : Ensures R Q inside) (scope : Scope)
    (hleave : ∀ {s t : CheckState}, R (s.enterScope scope) t →
      R' s { t with scopes := t.scopes.tail }) :
    Ensures R' (fun _ => True) (inScope scope inside) := by
  have hscope : Ensures R' (fun _ => True) (withScope scope inside) :=
    ensures_enclosed h (fun _ => rfl) hleave fun _ _ _ => trivial
  exact ensures_seq hscope fun _ => ensures_pure trivial

theorem keeps_inScope {inside : Check Unit} (h : Ensures SameOuter (fun _ => True) inside)
    (scope : Scope) : Ensures SameScopes (fun _ => True) (inScope scope inside) :=
  ensures_inScope h scope fun hst => ⟨hst.scopes, hst.symbols⟩

theorem keeps_withLoop {inside : Check Unit} (h : Ensures SameScopes (fun _ => True) inside) :
    Ensures SameScopes (fun _ => True) (withLoop inside) := by
  have hleave {s t : CheckState} (hst : s.enterLoop.SameScopes t) :
      s.SameScopes { t with loops := t.loops - 1 } := ⟨hst.scopes, hst.symbols⟩
  exact ensures_enclosed h (fun _ => rfl) hleave fun _ _ _ => trivial

end Check

theorem keeps_checkSuite (suite : Suite) :
    Ensures SameScopes (fun _ => True) (checkSuite suite) := by
  obtain ⟨place, stmts⟩ := suite
  rw [checkSuite]
  exact keeps_inScope ((ensures_checkStmts stmts).mono fun _ _ => trivial) Table.empty

theorem keeps_checkElse (suite : Option Suite) :
    Ensures SameScopes (fun _ => True) (checkElse suite) := by
  cases suite with
  | none => exact ensures_pure trivial
  | some suite => exact keeps_checkSuite suite

theorem keeps_checkArms (seen : List Int) (arms : List Arm) :
    Ensures SameScopes (fun _ => True) (checkArms seen arms) := by
  induction arms generalizing seen with
  | nil => exact ensures_pure trivial
  | cons arm arms ih =>
    obtain ⟨place, pattern, body⟩ := arm
    rw [checkArms]
    refine ensures_bind (ensures_checkPattern seen pattern) fun seen _ => ?_
    exact ensures_seq (keeps_checkSuite body) fun _ => ih seen

/-- Only a declaration binds something for the statements after it. -/
theorem keeps_checkStmt (s : Stmt) (hs : ∀ tag name type init, s ≠ .declare tag name type init) :
    Ensures SameScopes (fun _ => True) (checkStmt s) := by
  cases s with
  | declare tag name type init => exact absurd rfl (hs tag name type init)
  | expr | ret =>
    rw [checkStmt]
    exact (ensures_checkOptional _).mono fun _ _ => trivial
  | print =>
    rw [checkStmt]
    exact (ensures_hintAll _).mono fun _ _ => trivial
  | assign =>
    rw [checkStmt]
    refine ensures_bind (ensures_checkOptional _) fun _ _ => ?_
    exact (ensures_checkOptional _).mono fun _ _ => trivial
  | branch =>
    rw [checkStmt]
    refine ensures_bind (ensures_checkOptional _) fun _ _ => ?_
    exact ensures_seq (keeps_checkSuite _) fun _ => keeps_checkElse _
  | forRange _ _ start _ _ body =>
    rw [checkStmt]
    refine ensures_bind (ensures_hint start) fun _ _ => ?_
    refine ensures_bind (ensures_checkOptional _) fun _ _ => ?_
    refine ensures_bind (ensures_checkOptional _) fun _ _ => keeps_inScope ?_ _
    exact (ensures_withLoop (ensures_checkSuite body)).mono fun _ _ => trivial
  | whileLoop =>
    rw [checkStmt]
    exact ensures_bind (ensures_checkOptional _) fun _ _ => keeps_withLoop (keeps_checkSuite _)
  | doWhile =>
    rw [checkStmt]
    refine ensures_seq (keeps_withLoop (keeps_checkSuite _)) fun _ => ?_
    exact (ensures_checkOptional _).mono fun _ _ => trivial
  | jump =>
    rw [checkStmt]
    refine ensures_seq ensures_get fun s => ?_
    split
    · exact ensures_throw _
    · exact ensures_pure trivial
  | select =>
    rw [checkStmt]
    exact ensures_bind (ensures_checkScrutinee _) fun _ _ => keeps_checkArms _ _

/-! ### What a statement binds -/

/-- The variable that a statement declares for those after it, once it has passed its check. -/
def Stmt.declared (c : CheckState) : Stmt → List Binder
  | .declare tag name type init =>
    match (checkStmt (.declare tag name type init)).run c with
    | .ok _ _ => [⟨name, (c.types.resolve type).answer.toOption⟩]
    | .error _ _ => []
  | .expr _ _ | .assign _ _ _ | .ret _ _ | .print _ _ | .branch _ _ _ _ | .forRange _ _ _ _ _ _
  | .whileLoop _ _ _ | .doWhile _ _ _ | .jump _ _ | .select _ _ _ => []

/-- A declaration binds its variable in the innermost scope if it passes, and does nothing besides but
resolve its type. -/
theorem yields_declare (tag : Tag) (name : String) (type : TypeExpr) (init : Option Expr)
    {c : CheckState} {scope : Scope} {outer : List Scope} (hc : c.scopes = scope :: outer) :
    Yields c (checkStmt (.declare tag name type init))
      (fun _ d => ∃ resolved, (c.types.resolve type).answer = .ok resolved ∧
        d.scopes = scope.insert name resolved :: outer ∧ d.symbols = c.symbols ∧
        d.types = (c.types.resolve type).env)
      fun _ d => c.SameScopes d := by
  have hresolve := ResolveFrame.resolve (R := SameScopes) c type
  rw [checkStmt]
  refine yields_bind ?_
  rw [Yields, resolve]
  cases h : (c.types.resolve type).answer with
  | error e => simpa [h] using! hresolve
  | ok resolved =>
    dsimp only
    have hinit := ensures_checkOptional (R := Eq) init
    refine yields_bind ((hinit _).yields (fun _ d hd _ => ?_) fun _ d hd => ?_)
    · subst hd
      refine ⟨resolved, rfl, ?_⟩
      dsimp only
      rw [hc]
      exact ⟨rfl, rfl, rfl⟩
    · subst hd
      exact hresolve

/-- What is known after a statement. -/
theorem CheckState.Scoped.after {globals : Table ResolvedType} {binders : List Binder}
    {c : CheckState} (h : c.Scoped globals binders) (s : Stmt) :
    ((checkStmt s).after c).Scoped globals (s.declared c ++ binders) := by
  cases s with
  | declare tag name type init =>
    obtain ⟨scope, outer, hc⟩ := List.exists_cons_of_ne_nil h.inside
    have hyields := yields_declare tag name type init hc
    rw [Check.after, Stmt.declared]
    cases hrun : (checkStmt (.declare tag name type init)).run c with
    | error e d => exact h.congr (hyields.error hrun)
    | ok a d =>
      obtain ⟨resolved, hresolved, hscopes, hsymbols, -⟩ := hyields.ok hrun
      refine ⟨by rw [hscopes]; exact List.cons_ne_nil _ _, fun other => ?_, ?_⟩
      · have hknown := h.known other
        rw [hc, List.findSome?_cons] at hknown
        show d.scopes.findSome? _ = Binder.known? (_ :: binders) other
        rw [hscopes, List.findSome?_cons, Table.get?_insert, Binder.known?_cons, hresolved, ← hknown]
        by_cases hname : name = other
        · simp [hname, Except.toOption]
        · simp [hname]
      · rw [hsymbols]
        exact h.globals
  | _ =>
    refine h.congr (rel_after (keeps_checkStmt _ ?_) c)
    intro tag name type init hs
    cases hs

/-- What is bound by entries of a table, of which the later one counts if two have one name. -/
def Binder.ofEntries (entries : List (String × ResolvedType)) : List Binder :=
  entries.reverse.map fun entry => ⟨entry.1, some entry.2⟩

/-- The parameters of a function. -/
def Binder.ofParams (proto : Prototype) (signature : Signature) : List Binder :=
  ofEntries ((proto.params.map (·.name)).zip signature.params)

/-- New entries hide those of before. -/
theorem get?_merge (t : Scope) (entries : List (String × ResolvedType)) (name : String) :
    (t.merge ⟨entries⟩).get? name =
      (Binder.known? (Binder.ofEntries entries) name).or (t.get? name) := by
  induction entries generalizing t with
  | nil => rfl
  | cons entry entries ih =>
    have hlater : Binder.ofEntries (entry :: entries) =
        Binder.ofEntries entries ++ [⟨entry.1, some entry.2⟩] := by simp [Binder.ofEntries]
    refine (ih (t.insert entry.1 entry.2)).trans ?_
    rw [hlater, Binder.known?_append, Binder.known?_cons, Table.get?_insert, Option.or_assoc]
    congr 1
    split <;> rfl

theorem get?_paramScope (proto : Prototype) (signature : Signature) (name : String) :
    (paramScope proto signature).get? name =
      Binder.known? (Binder.ofParams proto signature) name := by
  rw [paramScope, Table.ofList, get?_merge]
  exact Option.or_none

/-! ### Where a check ends -/

namespace CheckState

/-- Checks in progress at one place: with as many scopes, in as many loops and in the same function.
The innermost scope may bind other variables. -/
structure SamePlace (s t : CheckState) : Prop where
  depth : t.scopes.length = s.scopes.length
  outer : t.scopes.tail = s.scopes.tail
  loops : t.loops = s.loops
  function : t.function = s.function

/-- Checks in progress at one place, where the same variables are bound. -/
structure Unchanged (s t : CheckState) : Prop where
  scopes : t.scopes = s.scopes
  loops : t.loops = s.loops
  function : t.function = s.function

/-- The check of an item has left what it has entered. If it has been in the body of a function, it
is in none afterwards. -/
structure LeftBy (s t : CheckState) : Prop where
  scopes : t.scopes = s.scopes
  loops : t.loops = s.loops
  function : t.function = s.function ∨ t.function = none

instance : Frame SamePlace where
  refl _ := ⟨rfl, rfl, rfl, rfl⟩
  trans _ _ _ h k := ⟨k.depth.trans h.depth, k.outer.trans h.outer, k.loops.trans h.loops,
    k.function.trans h.function⟩
  resolve _ _ := ⟨rfl, rfl, rfl, rfl⟩
  declare _ _ _ _ _ h := ⟨by rw [h]; rfl, by rw [h]; rfl, rfl, rfl⟩
  leaveScope _ h :=
    ⟨congrArg List.length h.outer, congrArg List.tail h.outer, h.loops, h.function⟩
  leaveLoop h := ⟨h.depth, h.outer, congrArg (· - 1) h.loops, h.function⟩

instance : IsPreorder CheckState Unchanged where
  refl _ := ⟨rfl, rfl, rfl⟩
  trans _ _ _ h k :=
    ⟨k.scopes.trans h.scopes, k.loops.trans h.loops, k.function.trans h.function⟩

instance : ResolveFrame LeftBy where
  refl _ := ⟨rfl, rfl, .inl rfl⟩
  trans _ _ _ h k := ⟨k.scopes.trans h.scopes, k.loops.trans h.loops, k.function.elim
    (fun hsame => by rw [hsame]; exact h.function) .inr⟩
  resolve _ _ := ⟨rfl, rfl, .inl rfl⟩

variable {s t : CheckState}

/-- Leaving a scope restores the scopes around it. -/
theorem SamePlace.leaveScope {scope : Scope} (h : (s.enterScope scope).SamePlace t) :
    s.Unchanged { t with scopes := t.scopes.tail } := ⟨h.outer, h.loops, h.function⟩

/-- Without any scope there is none to change. -/
theorem SamePlace.unchanged (h : s.SamePlace t) (hs : s.scopes = []) : s.Unchanged t := by
  refine ⟨?_, h.loops, h.function⟩
  have hdepth := h.depth
  rw [hs] at hdepth ⊢
  exact List.length_eq_zero_iff.1 hdepth

theorem Unchanged.leftBy (h : s.Unchanged t) : s.LeftBy t := ⟨h.scopes, h.loops, .inl h.function⟩

end CheckState

/-- The scopes after a statement that has passed its check: a declaration binds its variable in the
innermost one. -/
def Stmt.scopesAfter (c : CheckState) : Stmt → List Scope
  | .declare _ name type _ =>
    match (c.types.resolve type).answer with
    | .ok resolved => c.scopes.modifyHead (·.insert name resolved)
    | .error _ => c.scopes
  | .expr _ _ | .assign _ _ _ | .ret _ _ | .print _ _ | .branch _ _ _ _ | .forRange _ _ _ _ _ _
  | .whileLoop _ _ _ | .doWhile _ _ _ | .jump _ _ | .select _ _ _ => c.scopes

/-- A statement binds at most the variable that it declares, and nothing if it fails. -/
theorem yields_scopes (c : CheckState) (s : Stmt) :
    Yields c (checkStmt s) (fun _ d => d.scopes = s.scopesAfter c)
      fun _ d => d.scopes = c.scopes := by
  cases s with
  | declare tag name type init =>
    cases hc : c.scopes with
    | nil =>
      have hplace := ensures_checkStmt (R := SamePlace) (.declare tag name type init) c
      have hnone {d : CheckState} (h : c.SamePlace d) : d.scopes = [] :=
        (h.unchanged hc).scopes.trans hc
      refine hplace.yields (fun _ d h _ => ?_) fun _ d h => hnone h
      rw [hnone h, Stmt.scopesAfter, hc]
      split <;> rfl
    | cons scope outer =>
      refine (yields_declare tag name type init hc).mono (fun _ d h => ?_) fun _ d h => ?_
      · obtain ⟨resolved, hresolved, hscopes, -⟩ := h
        rw [hscopes, Stmt.scopesAfter, hresolved, hc]
        rfl
      · rw [h.scopes, hc]
  | _ =>
    refine (keeps_checkStmt _ ?_ c).yields (fun _ d h _ => h.scopes) fun _ d h => h.scopes
    intro tag name type init hs
    cases hs

/-- However deep inside a statement a check fails, it is at the same place after it. -/
theorem yields_checkStmt (c : CheckState) (s : Stmt) :
    Yields c (checkStmt s) (fun _ d => c.SamePlace d ∧ d.scopes = s.scopesAfter c)
      fun _ d => c.Unchanged d := by
  have hplace := ensures_checkStmt (R := SamePlace) s c
  refine (hplace.and (yields_scopes c s)).mono (fun _ d h => ⟨h.1.1, h.2⟩) fun _ d h => ?_
  exact ⟨h.2, h.1.loops, h.1.function⟩

/-- A body leaves every scope around it as it was. -/
theorem unchanged_checkSuite (suite : Suite) :
    Ensures Unchanged (fun _ => True) (checkSuite suite) := by
  obtain ⟨place, stmts⟩ := suite
  rw [checkSuite]
  exact ensures_inScope (ensures_checkStmts (R := SamePlace) stmts) Table.empty
    SamePlace.leaveScope

/-- The body of a function is left before the function is declared. -/
theorem leftBy_function (proto : Prototype) (signature : Signature) (body : Suite) :
    Ensures LeftBy (fun _ => True)
      (withFunction proto.name signature
        (inScope (paramScope proto signature) (checkSuite body))) := by
  have hbody := ensures_inScope (ensures_checkSuite (R := SamePlace) body)
    (paramScope proto signature) SamePlace.leaveScope
  have hleave {s t : CheckState} (h : (s.enterFunction proto.name signature).Unchanged t) :
      s.LeftBy { t with function := none } := ⟨h.scopes, h.loops, .inr rfl⟩
  exact ensures_enclosed hbody (fun _ => rfl) hleave fun _ _ _ => trivial

/-- An item leaves every scope, every loop and every function that its check has entered. -/
theorem leftBy_checkItem (item : Item) : Publishes LeftBy (fun _ => True) (checkItem item) := by
  rw [checkItem]
  cases item.shape with
  | function proto body =>
    refine publishes_bind (ensures_resolveSignature proto) fun signature _ => ?_
    refine publishes_bind (leftBy_function proto signature body) fun _ _ => ?_
    exact publishes_declareFunction _ _
  | external proto =>
    refine publishes_bind (ensures_resolveSignature proto) fun signature _ => ?_
    exact publishes_declareFunction _ _
  | typeAlias name target => exact publishes_of_ensures (ensures_pure trivial)
  | struct name => exact publishes_of_ensures (ensures_pure trivial)
  | statement stmt =>
    have hleave {s t : CheckState} (h : (s.enterScope Table.empty).SamePlace t) :
        s.LeftBy { t with scopes := t.scopes.tail } := h.leaveScope.leftBy
    have hstmt : Ensures LeftBy (fun _ => True) (withScope Table.empty (checkStmt stmt)) :=
      ensures_enclosed (ensures_checkStmt stmt) (fun _ => rfl) hleave fun _ _ _ => trivial
    exact publishes_bind hstmt fun _ _ => publishes_declareGlobals _

/-- However a check ends, and in whatever state it has begun, it is back at its place: a statement
has bound the variable that it declares if it has passed, and nothing besides, a body has bound
nothing, and an item that is checked outside any other leaves no scope, no loop and no function. -/
theorem place_after_check (c : CheckState) :
    (∀ s, Yields c (checkStmt s) (fun _ d => c.SamePlace d ∧ d.scopes = s.scopesAfter c)
      fun _ d => c.Unchanged d) ∧
    (∀ suite, Yields c (checkSuite suite) (fun _ d => c.Unchanged d) fun _ d => c.Unchanged d) ∧
    (∀ item, Yields c (checkItem item) (fun _ d => c.LeftBy d) fun _ d => c.LeftBy d) ∧
    ∀ types symbols item, Yields (initial types symbols) (checkItem item)
      (fun _ d => d.scopes = [] ∧ d.loops = 0 ∧ d.function = none)
      fun _ d => d.scopes = [] ∧ d.loops = 0 ∧ d.function = none := by
  have hitem (b : CheckState) (item : Item) :
      Yields b (checkItem item) (fun _ d => b.LeftBy d) fun _ d => b.LeftBy d := by
    refine (leftBy_checkItem item b).mono (fun _ d h => ?_) fun _ d h => h
    obtain ⟨⟨symbols, hleft⟩, -⟩ := h
    exact ⟨hleft.scopes, hleft.loops, hleft.function⟩
  refine ⟨yields_checkStmt c, fun suite => ?_, hitem c, fun types symbols item => ?_⟩
  · exact (unchanged_checkSuite suite c).yields (fun _ d h _ => h) fun _ d h => h
  · have houtside {d : CheckState} (h : (initial types symbols).LeftBy d) :
        d.scopes = [] ∧ d.loops = 0 ∧ d.function = none :=
      ⟨h.scopes, h.loops, h.function.elim id id⟩
    exact (hitem _ item).mono (fun _ _ h => houtside h) fun _ _ h => houtside h

end Offside
