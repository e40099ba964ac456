import Offside.Proofs.Tree.Laws
import Offside.Proofs.Typing.Checked

/-!
# Statements as a check comes to them

The check of an item comes to each statement inside it in some state: the scopes around the
statement, with what the statements before it have declared, the type tables as resolution has left
them, and the number of loops. These states are listed here with their statements.

If the check of the whole succeeds then so does the check of each statement, in its own state. The
number of loops in that state is that of the loops in whose bodies the statement stands.

## Main definitions

* `Offside.Visit`: a statement and the state in which it is checked.
* `Offside.Stmt.visits`, `Offside.Item.visits`: what a check comes to.

## Main results

* `Offside.Stmt.map_level_visits`: no statement is left out, and the number of loops is right for
  each.
* `Offside.Stmt.passes_of_mem_visits`: if the check of a statement succeeds then so does that of
  each statement inside it.
* `Offside.Item.visits_of_run`: the same for the item.
* `Offside.Visit.Passes.loops_ne_zero`, `Offside.Visit.Passes.matchable`,
  `Offside.Visit.Passes.values`: what a jump and a `match` pass for.
-/

namespace Offside

/-! ### States -/

namespace CheckState

/-- The state inside a new scope. -/
def enterScope (c : CheckState) (scope : Scope) : CheckState :=
  { c with scopes := scope :: c.scopes }

/-- The state inside a loop. -/
def enterLoop (c : CheckState) : CheckState := { c with loops := c.loops + 1 }

/-- The state inside a function. -/
def enterFunction (c : CheckState) (name : String) (signature : Signature) : CheckState :=
  { c with function := some (name, signature) }

/-- Checks in progress inside as many loops. -/
def SameLoops (s t : CheckState) : Prop := t.loops = s.loops

instance : ItemFrame SameLoops where
  refl _ := rfl
  trans _ _ _ h k := k.trans h
  resolve _ _ := rfl
  declare _ _ _ _ _ _ := rfl
  leaveScope _ h := h
  leaveLoop h := congrArg (· - 1) h
  leaveFunction _ _ h := h

end CheckState

namespace Check

variable {α β : Type} {x : Check α} {f : α → Check β} {a : α} {b : β} {c d : CheckState}

/-- The state in which a check ends, whether or not it succeeds. -/
def after (x : Check α) (c : CheckState) : CheckState :=
  match x.run c with
  | .ok _ d | .error _ d => d

theorem after_of_ok (h : x.run c = .ok a d) : x.after c = d := by rw [after, h]

theorem rel_after {R : CheckState → CheckState → Prop} {Q : α → Prop} (h : Ensures R Q x)
    (c : CheckState) : R c (x.after c) := by
  rw [after]
  split
  · next hx => exact ((h c).ok hx).1
  · next hx => exact (h c).error hx

/-- What a check enclosed between `enter` and `leave` has done if the whole succeeds. -/
private theorem exists_run_of_enclosed (enter : CheckState → CheckState)
    {leave : CheckState → CheckState} {result : α → CheckState → β}
    (h : (match x (enter c) with
      | .ok a t => EStateM.Result.ok (result a t) (leave t)
      | .error e t => .error e (leave t)) = .ok b d) :
    ∃ a d', x.run (enter c) = .ok a d' := by
  split at h
  · next a d' hx => exact ⟨a, d', hx⟩
  · cases h

variable {inside : Check Unit}

theorem exists_run_of_withScope {scope : Scope} {result : Unit × Scope}
    (h : (withScope scope inside).run c = .ok result d) :
    ∃ d', inside.run (c.enterScope scope) = .ok () d' := by
  obtain ⟨_, d', hinside⟩ := exists_run_of_enclosed (·.enterScope scope) h
  exact ⟨d', hinside⟩

theorem exists_run_of_inScope {scope : Scope} (h : (inScope scope inside).run c = .ok () d) :
    ∃ d', inside.run (c.enterScope scope) = .ok () d' := by
  obtain ⟨_, _, hscope, -⟩ := exists_of_run_bind h
  exact exists_run_of_withScope hscope

theorem exists_run_of_withLoop (h : (withLoop inside).run c = .ok () d) :
    ∃ d', inside.run c.enterLoop = .ok () d' := by
  obtain ⟨_, d', hinside⟩ := exists_run_of_enclosed CheckState.enterLoop h
  exact ⟨d', hinside⟩

theorem exists_run_of_withFunction {name : String} {signature : Signature}
    (h : (withFunction name signature inside).run c = .ok () d) :
    ∃ d', inside.run (c.enterFunction name signature) = .ok () d' := by
  obtain ⟨_, d', hinside⟩ := exists_run_of_enclosed (·.enterFunction name signature) h
  exact ⟨d', hinside⟩

/-- A hint is looked up, and changes nothing. -/
theorem exists_run_of_hint {e : Expr} {f : Option ResolvedType → Check α}
    (h : (hint e >>= f).run c = .ok a d) :
    ∃ type, c.toContext.hint e = .ok type ∧ (f type).run c = .ok a d := by
  obtain ⟨type, c', he, hrest⟩ := exists_of_run_bind h
  rw [EStateM.run, hint] at he
  split at he
  · next htype =>
    cases he
    exact ⟨type, htype, hrest⟩
  · cases he

theorem run_of_checkOptional {e : Option Expr} {f : Unit → Check α}
    (h : (checkOptional e >>= f).run c = .ok a d) : (f ()).run c = .ok a d := by
  cases e with
  | none => exact h
  | some e =>
    obtain ⟨_, c', he, hrest⟩ := exists_of_run_bind h
    obtain ⟨_, -, hunit⟩ := exists_run_of_hint he
    cases hunit
    exact hrest

end Check

open Check

/-- An expression whose type is unknown, an integer type or `bool`. -/
def Context.Matchable (context : Context) (e : Expr) : Prop :=
  ∃ type, context.hint e = .ok type ∧
    (type = none ∨ type = some .bool ∨ ∃ bits signed, type = some (.int bits signed))

theorem Context.matchable_of_isIntegerLike {context : Context} {e : Expr} {type : ResolvedType}
    (h : context.hint e = .ok (some type)) (hlike : type.isIntegerLike) : context.Matchable e := by
  refine ⟨some type, h, .inr ?_⟩
  cases type with
  | bool => exact .inl rfl
  | int bits signed => exact .inr ⟨bits, signed, rfl⟩
  | void | float | pointer | struct => cases hlike

theorem run_of_checkScrutinee {e : Expr} {f : Unit → Check Unit} {c d : CheckState}
    (h : (checkScrutinee e >>= f).run c = .ok () d) :
    c.toContext.Matchable e ∧ (f ()).run c = .ok () d := by
  obtain ⟨_, c', hscrutinee, hrest⟩ := exists_of_run_bind h
  obtain ⟨type, htype, hlike⟩ := exists_run_of_hint hscrutinee
  cases type with
  | none =>
    cases hlike
    exact ⟨⟨none, htype, .inl rfl⟩, hrest⟩
  | some type =>
    dsimp only at hlike
    split at hlike
    · cases hlike
    · next hlike' =>
      cases hlike
      exact ⟨Context.matchable_of_isIntegerLike htype (by simpa using hlike'), hrest⟩

/-! ### Statements -/

/-- A statement and the state in which it is checked. -/
structure Visit where
  state : CheckState
  stmt : Stmt

/-- The number of loops in the state, and the statement. -/
def Visit.level (v : Visit) : Nat × Stmt := (v.state.loops, v.stmt)

/-- The check of the statement succeeds. -/
def Visit.Passes (v : Visit) : Prop := ∃ d, (checkStmt v.stmt).run v.state = .ok () d

mutual

/-- What the check of a statement comes to if it starts in the state `c`. -/
def Stmt.visits (c : CheckState) (s : Stmt) : List Visit :=
  ⟨c, s⟩ :: match s with
    | .branch _ _ thenSuite elseSuite =>
      thenSuite.visits c ++ Suite.visitsElse ((checkSuite thenSuite).after c) elseSuite
    | .forRange _ counter start _ _ body =>
      let type := (c.toContext.hint start).toOption.join
      body.visits (c.enterScope (counterScope counter type)).enterLoop
    | .whileLoop _ _ body | .doWhile _ body _ => body.visits c.enterLoop
    | .select _ _ arms => Arm.visitsAll c arms
    | _ => []

/-- What the check of a body comes to. -/
def Suite.visits (c : CheckState) : Suite → List Visit
  | .mk _ stmts => Stmt.visitsAll (c.enterScope Table.empty) stmts

/-- What the check of the other branch comes to, if there is one. -/
def Suite.visitsElse (c : CheckState) : Option Suite → List Visit
  | none => []
  | some suite => suite.visits c

/-- What the check of several statements comes to, of each after the one before. -/
def Stmt.visitsAll (c : CheckState) : List Stmt → List Visit
  | [] => []
  | s :: ss => s.visits c ++ Stmt.visitsAll ((checkStmt s).after c) ss

/-- What the check of cases comes to. -/
def Arm.visitsAll (c : CheckState) : List Arm → List Visit
  | [] => []
  | .mk _ _ body :: arms => body.visits c ++ Arm.visitsAll ((checkSuite body).after c) arms

end

/-- A statement is left inside as many loops as it is entered. -/
theorem loops_after_checkStmt (s : Stmt) (c : CheckState) :
    ((checkStmt s).after c).loops = c.loops :=
  rel_after (R := CheckState.SameLoops) (ensures_checkStmt s) c

theorem loops_after_checkSuite (suite : Suite) (c : CheckState) :
    ((checkSuite suite).after c).loops = c.loops :=
  rel_after (R := CheckState.SameLoops) (ensures_checkSuite suite) c

mutual

/-- The counter of a check is right for every statement it comes to, and it leaves none out. -/
theorem Stmt.map_level_visits :
    (s : Stmt) → (c : CheckState) → (s.visits c).map Visit.level = s.nested c.loops
  | .expr _ _, _ | .declare _ _ _ _, _ | .assign _ _ _, _ | .ret _ _, _ | .print _ _, _
  | .jump _ _, _ => rfl
  | .branch _ _ thenSuite elseSuite, c => by
    have helse := Suite.map_level_visitsElse elseSuite ((checkSuite thenSuite).after c)
    rw [loops_after_checkSuite] at helse
    rw [Stmt.visits, Stmt.nested, List.map_cons, List.map_append, thenSuite.map_level_visits, helse]
    rfl
  | .forRange _ _ _ _ _ body, _ | .whileLoop _ _ body, _ | .doWhile _ body _, _ => by
    rw [Stmt.visits, Stmt.nested, List.map_cons, body.map_level_visits]
    rfl
  | .select _ _ arms, c => by
    rw [Stmt.visits, Stmt.nested, List.map_cons, Arm.map_level_visitsAll arms]
    rfl

theorem Suite.map_level_visits :
    (suite : Suite) → (c : CheckState) → (suite.visits c).map Visit.level = suite.nested c.loops
  | .mk _ stmts, c => Stmt.map_level_visitsAll stmts (c.enterScope Table.empty)

theorem Suite.map_level_visitsElse : (suite : Option Suite) → (c : CheckState) →
    (Suite.visitsElse c suite).map Visit.level = Suite.nestedElse c.loops suite
  | none, _ => rfl
  | some suite, c => suite.map_level_visits c

theorem Stmt.map_level_visitsAll : (ss : List Stmt) → (c : CheckState) →
    (Stmt.visitsAll c ss).map Visit.level = Stmt.nestedAll c.loops ss
  | [], _ => rfl
  | s :: ss, c => by
    rw [Stmt.visitsAll, Stmt.nestedAll, List.map_append, s.map_level_visits,
      Stmt.map_level_visitsAll ss, loops_after_checkStmt]

theorem Arm.map_level_visitsAll : (arms : List Arm) → (c : CheckState) →
    (Arm.visitsAll c arms).map Visit.level = Arm.nestedAll c.loops arms
  | [], _ => rfl
  | .mk _ _ body :: arms, c => by
    rw [Arm.visitsAll, Arm.nestedAll, List.map_append, body.map_level_visits,
      Arm.map_level_visitsAll arms, loops_after_checkSuite]

end

/-! ### Cases -/

/-- A case may be negated, and its value is then the negation. -/
theorem integer?_of_caseConstant {e : Expr} {n : Int} (h : caseConstant e = .ok n) :
    e.integer? = some n := by
  obtain ⟨m, ⟨tag, rfl, rfl⟩ | ⟨tag, tag', rfl, rfl⟩⟩ := exists_of_caseConstant h <;> rfl

/-- What a case adds to the values before it. -/
theorem values_of_checkPattern {seen seen' : List Int} {pattern : Pattern} {c d : CheckState}
    (h : (checkPattern seen pattern).run c = .ok seen' d) (hseen : seen.Nodup) :
    d = c ∧ ∃ values : List Int, pattern.exprs.map Expr.integer? = values.map some ∧
      seen' = values.reverse ++ seen ∧ seen'.Nodup := by
  cases pattern with
  | wildcard =>
    cases h
    exact ⟨rfl, [], rfl, rfl, hseen⟩
  | value e =>
    rw [checkPattern] at h
    split at h
    · cases h
    · next value hvalue =>
      dsimp only at h
      split at h
      · cases h
      · next hnew =>
        cases h
        refine ⟨rfl, [value], ?_, rfl, List.nodup_cons.2 ⟨by simpa using hnew, hseen⟩⟩
        simp [Pattern.exprs, integer?_of_caseConstant hvalue]

/-- The values of cases are different from each other and from those before them. -/
theorem values_of_checkArms {seen : List Int} {arms : List Arm} {c d : CheckState}
    (h : (checkArms seen arms).run c = .ok () d) (hseen : seen.Nodup) :
    ∃ values : List Int, (Arm.accepted arms).map Expr.integer? = values.map some ∧
      (values.reverse ++ seen).Nodup := by
  induction arms generalizing seen c with
  | nil => exact ⟨[], rfl, hseen⟩
  | cons arm arms ih =>
    obtain ⟨place, pattern, body⟩ := arm
    rw [checkArms] at h
    obtain ⟨seen', c', hpattern, h⟩ := exists_of_run_bind h
    obtain ⟨_, _, -, h⟩ := exists_of_run_bind h
    obtain ⟨-, values, hvalues, rfl, hseen'⟩ := values_of_checkPattern hpattern hseen
    obtain ⟨more, hmore, hnodup⟩ := ih h hseen'
    refine ⟨values ++ more, ?_, ?_⟩
    · rw [Arm.accepted, List.flatMap_cons, List.map_append, List.map_append, ← hmore, ← hvalues]
      rfl
    · rwa [List.reverse_append, List.append_assoc]

/-! ### Passing -/

mutual

/-- If a statement passes then so does each statement that its check comes to. -/
theorem Stmt.passes_of_mem_visits : (s : Stmt) → {c d : CheckState} →
    (checkStmt s).run c = .ok () d → ∀ v ∈ s.visits c, v.Passes
  | .expr _ _, _, d, h | .declare _ _ _ _, _, d, h | .assign _ _ _, _, d, h | .ret _ _, _, d, h
  | .print _ _, _, d, h | .jump _ _, _, d, h => List.forall_mem_singleton.2 ⟨d, h⟩
  | .branch _ _ thenSuite elseSuite, _, d, h => by
    refine List.forall_mem_cons.2 ⟨⟨d, h⟩, ?_⟩
    rw [checkStmt] at h
    obtain ⟨_, _, hthen, helse⟩ := exists_of_run_bind (run_of_checkOptional h)
    dsimp only
    rw [after_of_ok hthen]
    exact List.forall_mem_append.2
      ⟨thenSuite.passes_of_mem_visits hthen, Suite.passes_of_mem_visitsElse elseSuite helse⟩
  | .forRange _ counter start _ _ body, _, d, h => by
    refine List.forall_mem_cons.2 ⟨⟨d, h⟩, ?_⟩
    rw [checkStmt] at h
    obtain ⟨type, htype, hrange⟩ := exists_run_of_hint h
    obtain ⟨_, hloop⟩ :=
      exists_run_of_inScope (run_of_checkOptional (run_of_checkOptional hrange))
    obtain ⟨_, hbody⟩ := exists_run_of_withLoop hloop
    dsimp only
    rw [htype]
    exact body.passes_of_mem_visits hbody
  | .whileLoop _ _ body, _, d, h => by
    refine List.forall_mem_cons.2 ⟨⟨d, h⟩, ?_⟩
    rw [checkStmt] at h
    obtain ⟨_, hbody⟩ := exists_run_of_withLoop (run_of_checkOptional h)
    exact body.passes_of_mem_visits hbody
  | .doWhile _ body _, _, d, h => by
    refine List.forall_mem_cons.2 ⟨⟨d, h⟩, ?_⟩
    rw [checkStmt] at h
    obtain ⟨_, _, hloop, -⟩ := exists_of_run_bind h
    obtain ⟨_, hbody⟩ := exists_run_of_withLoop hloop
    exact body.passes_of_mem_visits hbody
  | .select _ _ arms, _, d, h => by
    refine List.forall_mem_cons.2 ⟨⟨d, h⟩, ?_⟩
    rw [checkStmt] at h
    exact Arm.passes_of_mem_visitsAll arms List.nodup_nil (run_of_checkScrutinee h).2

theorem Suite.passes_of_mem_visits : (suite : Suite) → {c d : CheckState} →
    (checkSuite suite).run c = .ok () d → ∀ v ∈ suite.visits c, v.Passes
  | .mk _ stmts, _, _, h => by
    rw [checkSuite] at h
    obtain ⟨_, hstmts⟩ := exists_run_of_inScope h
    exact Stmt.passes_of_mem_visitsAll stmts hstmts

theorem Suite.passes_of_mem_visitsElse : (suite : Option Suite) → {c d : CheckState} →
    (checkElse suite).run c = .ok () d → ∀ v ∈ Suite.visitsElse c suite, v.Passes
  | none, _, _, _ => List.forall_mem_nil _
  | some suite, _, _, h => suite.passes_of_mem_visits h

theorem Stmt.passes_of_mem_visitsAll : (ss : List Stmt) → {c d : CheckState} →
    (checkStmts ss).run c = .ok () d → ∀ v ∈ Stmt.visitsAll c ss, v.Passes
  | [], _, _, _ => List.forall_mem_nil _
  | s :: ss, _, _, h => by
    rw [checkStmts] at h
    obtain ⟨_, _, hs, hss⟩ := exists_of_run_bind h
    rw [Stmt.visitsAll, after_of_ok hs]
    exact List.forall_mem_append.2
      ⟨s.passes_of_mem_visits hs, Stmt.passes_of_mem_visitsAll ss hss⟩

theorem Arm.passes_of_mem_visitsAll : (arms : List Arm) → {seen : List Int} → seen.Nodup →
    {c d : CheckState} → (checkArms seen arms).run c = .ok () d →
      ∀ v ∈ Arm.visitsAll c arms, v.Passes
  | [], _, _, _, _, _ => List.forall_mem_nil _
  | .mk _ _ body :: arms, _, hseen, _, _, h => by
    rw [checkArms] at h
    obtain ⟨_, _, hpattern, hrest⟩ := exists_of_run_bind h
    obtain ⟨rfl, _, -, -, hseen'⟩ := values_of_checkPattern hpattern hseen
    obtain ⟨_, _, hbody, harms⟩ := exists_of_run_bind hrest
    rw [Arm.visitsAll, after_of_ok hbody]
    exact List.forall_mem_append.2
      ⟨body.passes_of_mem_visits hbody, Arm.passes_of_mem_visitsAll arms hseen' harms⟩

end

/-- A jump passes in a loop only. -/
theorem Visit.Passes.loops_ne_zero {v : Visit} (h : v.Passes) {tag : Tag} {jump : Jump}
    (hstmt : v.stmt = .jump tag jump) : v.state.loops ≠ 0 := by
  obtain ⟨d, h⟩ := h
  rw [hstmt, checkStmt] at h
  obtain ⟨c, c', hget, h⟩ := exists_of_run_bind h
  cases hget
  intro hloops
  rw [if_pos hloops] at h
  cases h

section

variable {v : Visit} {tag : Tag} {scrutinee : Expr} {arms : List Arm}

/-- A `match` passes on integers, truth values and what has no known type. -/
theorem Visit.Passes.matchable (h : v.Passes) (hstmt : v.stmt = .select tag scrutinee arms) :
    v.state.toContext.Matchable scrutinee := by
  obtain ⟨d, h⟩ := h
  rw [hstmt, checkStmt] at h
  exact (run_of_checkScrutinee h).1

/-- A `match` passes with cases for different integers. -/
theorem Visit.Passes.values (h : v.Passes) (hstmt : v.stmt = .select tag scrutinee arms) :
    ∃ values : List Int, (Arm.accepted arms).map Expr.integer? = values.map some ∧
      values.Nodup := by
  obtain ⟨d, h⟩ := h
  rw [hstmt, checkStmt] at h
  obtain ⟨values, hvalues, hnodup⟩ := values_of_checkArms (run_of_checkScrutinee h).2 List.nodup_nil
  rw [List.append_nil, List.nodup_reverse] at hnodup
  exact ⟨values, hvalues, hnodup⟩

end

/-! ### Items -/

/-- What the check of an item comes to if it starts in the state `c`. -/
def Item.visits (c : CheckState) (item : Item) : List Visit :=
  match item.shape with
  | .function proto body =>
    match (resolveSignature proto).run c with
    | .ok signature c =>
      body.visits
        ((c.enterFunction proto.name signature).enterScope (paramScope proto signature))
    | .error _ _ => []
  | .statement stmt => stmt.visits (c.enterScope Table.empty)
  | .external _ | .typeAlias _ _ | .struct _ => []

variable {item : Item} {c d : CheckState}

/-- The check of an item comes to its body, or to the statement that it is. -/
theorem Item.visits_of_run (h : (checkItem item).run c = .ok () d) :
    (∀ v ∈ item.visits c, v.Passes) ∧
      (c.loops = 0 → (item.visits c).map Visit.level = item.nested) := by
  obtain ⟨shape, place⟩ := item
  cases shape with
  | function proto body =>
    obtain ⟨signature, c', hsignature, h⟩ := exists_of_run_bind h
    obtain ⟨_, _, hfunction, -⟩ := exists_of_run_bind h
    obtain ⟨_, hscope⟩ := exists_run_of_withFunction hfunction
    obtain ⟨_, hbody⟩ := exists_run_of_inScope hscope
    have hloops : c'.loops = c.loops := by
      rw [← after_of_ok hsignature]
      exact rel_after (R := CheckState.SameLoops) (ensures_resolveSignature proto) c
    have hvisits : Item.visits c ⟨.function proto body, place⟩ = body.visits
        ((c'.enterFunction proto.name signature).enterScope (paramScope proto signature)) := by
      rw [visits]
      dsimp only
      rw [hsignature]
    rw [hvisits]
    refine ⟨body.passes_of_mem_visits hbody, fun hzero => (body.map_level_visits _).trans ?_⟩
    rw [nested]
    exact congrArg body.nested (hloops.trans hzero)
  | statement stmt =>
    obtain ⟨_, _, hscope, -⟩ := exists_of_run_bind h
    obtain ⟨_, hstmt⟩ := exists_run_of_withScope hscope
    exact ⟨stmt.passes_of_mem_visits hstmt,
      fun hzero => (stmt.map_level_visits _).trans (congrArg stmt.nested hzero)⟩
  | external | typeAlias | struct => exact ⟨List.forall_mem_nil _, fun _ => rfl⟩

end Offside
