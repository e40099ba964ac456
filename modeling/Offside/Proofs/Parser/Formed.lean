import Offside.Proofs.Parser.Frame
import Offside.Proofs.Tree.Laws

/-!
# What statements look like when they have been read

Whatever the tokens are, the statements that come out of reading have bodies that are not empty,
assign to places that can be written to, and have cases of which at most one accepts everything.
This holds at any depth.

## Main definitions

* `Offside.Stmt.Formed`: what reading guarantees of a statement itself.
* `Offside.Item.Shape.Formed`: what reading guarantees of an item.

## Main results

* `Offside.Parse.ensures_statement`, `Offside.Parse.ensures_suite`: it does so at any depth.
-/

namespace Offside

/-- What reading guarantees of a statement, apart from the statements inside it. -/
def Stmt.Formed : Stmt → Prop
  | .assign _ target _ => target.isAddressable
  | .branch _ _ thenSuite elseSuite =>
    thenSuite.stmts ≠ [] ∧ ∀ suite, elseSuite = some suite → suite.stmts ≠ []
  | .forRange _ _ _ _ _ body | .whileLoop _ _ body | .doWhile _ body _ => body.stmts ≠ []
  | .select _ _ arms =>
    arms ≠ [] ∧ (∀ arm ∈ arms, arm.body.stmts ≠ []) ∧ arms.countP Arm.isWildcard ≤ 1
  | _ => True

/-- Every statement of a list is formed. -/
def Stmt.AllFormed (ss : List Stmt) : Prop := ∀ s ∈ ss, s.Formed

/-- A body that reading may yield. -/
def Suite.Formed (suite : Suite) : Prop := suite.stmts ≠ [] ∧ Stmt.AllFormed suite.statements

/-- What an item may be that has been read. -/
def Item.Shape.Formed : Item.Shape → Prop
  | .function proto body => Binding.Distinct proto.params ∧ body.Formed
  | .external proto => Binding.Distinct proto.params
  | .statement stmt => Stmt.AllFormed stmt.statements
  | .typeAlias _ _ | .struct _ => True

/-- Reading yields no empty body below a statement. -/
theorem Stmt.Formed.ne_nil {s : Stmt} (h : s.Formed) {suite : Suite} (hsuite : suite ∈ s.suites) :
    suite.stmts ≠ [] := by
  cases s with
  | expr | declare | assign | ret | print | jump => cases hsuite
  | branch _ _ thenSuite elseSuite =>
    rcases List.mem_cons.1 hsuite with rfl | hsuite
    · exact h.1
    · exact h.2 suite (Option.mem_toList.1 hsuite)
  | forRange | whileLoop | doWhile =>
    obtain rfl := List.mem_singleton.1 hsuite
    exact h
  | select _ _ arms =>
    obtain ⟨arm, harm, rfl⟩ := List.mem_map.1 hsuite
    exact h.2.1 arm harm

namespace Item.Shape.Formed

variable {item : Item}

theorem statements (h : item.shape.Formed) : Stmt.AllFormed item.statements := by
  obtain ⟨shape, place⟩ := item
  cases shape with
  | function => exact h.2.2
  | statement => exact h
  | external | typeAlias | struct => exact fun _ hs => absurd hs List.not_mem_nil

/-- Reading yields no empty body in an item. -/
theorem suites (h : item.shape.Formed) : ∀ suite ∈ item.suites, suite.stmts ≠ [] := by
  intro suite hsuite
  rcases List.mem_append.1 hsuite with hbody | hinside
  · obtain ⟨shape, place⟩ := item
    cases shape with
    | function =>
      obtain rfl := List.mem_singleton.1 hbody
      exact h.2.1
    | external | typeAlias | struct | statement => cases hbody
  · obtain ⟨s, hs, hsuite⟩ := List.mem_flatMap.1 hinside
    exact (h.statements s hs).ne_nil hsuite

/-- Reading yields no parameters of one name. -/
theorem params (h : item.shape.Formed) (proto : Prototype) (hproto : item.prototype? = some proto) :
    (proto.params.map Binding.name).Nodup := by
  obtain ⟨shape, place⟩ := item
  cases shape with
  | function =>
    cases hproto
    exact h.1
  | external =>
    cases hproto
    exact h
  | typeAlias | struct | statement => cases hproto

end Item.Shape.Formed

namespace Parse

section

variable {R : Parser → Parser → Prop} [Parser.Frame R]

/-- What reading guarantees of a statement with those inside it. -/
private abbrev FormedStmt (s : Stmt) : Prop := Stmt.AllFormed s.statements

/-- Cases that reading may have yielded so far. -/
private def FormedArms (arms : List Arm) : Prop :=
  (∀ arm ∈ arms, arm.body.Formed) ∧ arms.countP Arm.isWildcard ≤ 1

/-- Every function that reads a part of a statement keeps `R` and yields formed statements. -/
private structure StmtFrame (R : Parser → Parser → Prop) (fuel : Nat) : Prop where
  statement : Ensures R FormedStmt (statement fuel)
  ifStatement : Ensures R FormedStmt (ifStatement fuel)
  elseSuite : Ensures R (fun suite? => ∀ suite, suite? = some suite → suite.Formed) (elseSuite fuel)
  suite : Ensures R Suite.Formed (suite fuel)
  blockStatements before (h : Stmt.AllFormed (Stmt.statementsAll before)) :
    Ensures R (fun ss => Stmt.AllFormed (Stmt.statementsAll ss)) (blockStatements fuel before)
  arms before (h : FormedArms before) : Ensures R FormedArms (arms fuel before)

/-- A statement without statements inside it. -/
private theorem ensures_finishPlain (place : Location) (build : Tag → Stmt)
    (h : ∀ tag, (build tag).Formed) (hs : ∀ tag, (build tag).statements = [build tag]) :
    Ensures R FormedStmt (finishStmt place build) := by
  refine ensures_finishStmt place build fun tag => ?_
  exact Stmt.forall_mem_of_plain (hs tag) (h tag)

private theorem ensures_optionalAfter (fuel : Nat) (mark : Kind) :
    Ensures R (fun _ => True) (optionalAfter fuel mark) := by
  refine ensures_seq (ensures_accept? _) fun more => ?_
  split
  · exact ensures_seq (ensures_expression fuel) fun e => ensures_pure trivial
  · exact ensures_pure trivial

private theorem ensures_afterTarget (fuel : Nat) (start : Location) (target : Expr) :
    Ensures R FormedStmt (afterTarget fuel start target) := by
  refine ensures_seq ensures_kind fun kind => ?_
  split
  · split
    · exact ensures_refuse _
    · refine ensures_seq ensures_advance fun _ => ?_
      refine ensures_seq (ensures_typeExpr fuel) fun type => ?_
      refine ensures_seq (ensures_optionalAfter fuel _) fun init => ?_
      exact ensures_finishPlain _ _ (fun _ => trivial) fun _ => rfl
  · refine ensures_guard (ensures_fail _ _) fun haddressable => ?_
    refine ensures_seq ensures_advance fun _ => ?_
    refine ensures_seq (ensures_expression fuel) fun value => ?_
    exact ensures_finishPlain _ _ (fun _ => by simpa [Stmt.Formed] using haddressable) fun _ => rfl
  · refine ensures_seq (ensures_operators fuel 0 target) fun value => ?_
    exact ensures_finishPlain _ _ (fun _ => trivial) fun _ => rfl

private theorem ensures_returnStatement (fuel : Nat) (start : Location) :
    Ensures R FormedStmt (returnStatement fuel start) := by
  refine ensures_seq ensures_get fun p => ?_
  split
  · exact ensures_finishPlain _ _ (fun _ => trivial) fun _ => rfl
  · refine ensures_seq (ensures_expression fuel) fun value => ?_
    exact ensures_finishPlain _ _ (fun _ => trivial) fun _ => rfl

private theorem ensures_printStatement (fuel : Nat) (start : Location) :
    Ensures R FormedStmt (printStatement fuel start) := by
  refine ensures_seq (ensures_expect _ _) fun _ => ?_
  refine ensures_seq (ensures_arguments fuel _) fun args => ?_
  refine ensures_seq (ensures_expect _ _) fun _ => ?_
  exact ensures_finishPlain _ _ (fun _ => trivial) fun _ => rfl

private theorem ensures_range (fuel : Nat) : Ensures R (fun _ => True) (range fuel) := by
  refine ensures_seq (ensures_expectName _) fun counter => ?_
  refine ensures_seq (ensures_expect _ _) fun _ => ?_
  refine ensures_seq (ensures_expect _ _) fun _ => ?_
  refine ensures_seq (ensures_expect _ _) fun _ => ?_
  refine ensures_seq (ensures_expression fuel) fun start => ?_
  refine ensures_seq (ensures_expect _ _) fun _ => ?_
  refine ensures_seq (ensures_expression fuel) fun stop => ?_
  refine ensures_seq (ensures_optionalAfter fuel _) fun step => ?_
  refine ensures_seq (ensures_expect _ _) fun _ => ?_
  exact ensures_seq (ensures_expect _ _) fun _ => ensures_pure trivial

/-- After a case that accepts everything there is no second one. -/
private theorem ensures_pattern (fuel : Nat) (wild : Bool) :
    Ensures R (fun pattern => wild → pattern ≠ .wildcard) (pattern fuel wild) := by
  refine ensures_seq ensures_kind fun kind => ?_
  split
  · cases wild with
    | true =>
      refine ensures_seq ensures_place fun place => ?_
      exact ensures_absurd (ensures_fail _ _)
    | false =>
      exact ensures_seq ensures_advance fun _ => ensures_pure Bool.noConfusion
  · refine ensures_seq (ensures_expression fuel) fun value => ?_
    exact ensures_pure fun _ => Pattern.noConfusion

section

variable {fuel : Nat} (ih : StmtFrame R fuel)
include ih

private theorem ensures_statement_succ :
    Ensures R FormedStmt (statement (fuel + 1)) := by
  rw [statement]
  refine ensures_seq ensures_place fun start => ?_
  refine ensures_seq ensures_kind fun kind => ?_
  split
  · exact ih.ifStatement
  · refine ensures_seq ensures_advance fun _ => ?_
    refine ensures_seq (ensures_range fuel) fun range => ?_
    refine ensures_bind ih.suite fun body hbody => ?_
    exact ensures_finishStmt _ _ fun tag => Stmt.forall_mem_statements hbody.1 hbody.2
  · refine ensures_seq ensures_advance fun _ => ?_
    refine ensures_seq (ensures_expression fuel) fun condition => ?_
    refine ensures_seq (ensures_expect _ _) fun _ => ?_
    refine ensures_bind ih.suite fun body hbody => ?_
    exact ensures_finishStmt _ _ fun tag => Stmt.forall_mem_statements hbody.1 hbody.2
  · refine ensures_seq ensures_advance fun _ => ?_
    refine ensures_seq (ensures_expect _ _) fun _ => ?_
    refine ensures_bind ih.suite fun body hbody => ?_
    refine ensures_seq (ensures_expect _ _) fun _ => ?_
    refine ensures_seq (ensures_expression fuel) fun condition => ?_
    exact ensures_finishStmt _ _ fun tag => Stmt.forall_mem_statements hbody.1 hbody.2
  · refine ensures_seq ensures_advance fun _ => ?_
    refine ensures_seq (ensures_expression fuel) fun scrutinee => ?_
    refine ensures_seq (ensures_expect _ _) fun _ => ?_
    refine ensures_seq (ensures_expect _ _) fun _ => ?_
    refine ensures_seq (ensures_expect _ _) fun _ => ?_
    refine ensures_bind (ih.arms [] ⟨by simp, by simp⟩) fun arms harms => ?_
    refine ensures_guard (ensures_refuse _) fun hempty => ?_
    refine ensures_seq (ensures_expect _ _) fun _ => ?_
    refine ensures_finishStmt _ _ fun tag => Stmt.forall_mem_statements ?_ ?_
    · exact ⟨by simpa using hempty, fun arm harm => (harms.1 arm harm).1, harms.2⟩
    · intro s hs
      obtain ⟨arm, harm, hs⟩ := Arm.mem_statementsAll.1 hs
      exact (harms.1 arm harm).2 s hs
  · exact ensures_seq ensures_advance fun _ => ensures_returnStatement fuel start
  · exact ensures_seq ensures_advance fun _ => ensures_printStatement fuel start
  · refine ensures_seq ensures_advance fun _ => ?_
    exact ensures_finishPlain _ _ (fun _ => trivial) fun _ => rfl
  · refine ensures_seq ensures_advance fun _ => ?_
    exact ensures_finishPlain _ _ (fun _ => trivial) fun _ => rfl
  any_goals exact ensures_refuse _
  · refine ensures_seq (ensures_suffixed fuel) fun target => ?_
    exact ensures_afterTarget fuel start target
  · refine ensures_seq (ensures_expression fuel) fun value => ?_
    exact ensures_finishPlain _ _ (fun _ => trivial) fun _ => rfl

private theorem ensures_ifStatement_succ :
    Ensures R FormedStmt (ifStatement (fuel + 1)) := by
  rw [ifStatement]
  refine ensures_seq ensures_place fun start => ?_
  refine ensures_seq ensures_advance fun _ => ?_
  refine ensures_seq (ensures_expression fuel) fun condition => ?_
  refine ensures_seq (ensures_expect _ _) fun _ => ?_
  refine ensures_bind ih.suite fun thenSuite hthen => ?_
  refine ensures_bind ih.elseSuite fun elseSuite helse => ?_
  refine ensures_finishStmt _ _ fun tag => Stmt.forall_mem_statements ?_ ?_
  · exact ⟨hthen.1, fun suite hsuite => (helse suite hsuite).1⟩
  · refine List.forall_mem_append.2 ⟨hthen.2, ?_⟩
    cases elseSuite with
    | none => simp [Suite.statementsElse]
    | some suite => exact (helse suite rfl).2

private theorem ensures_elseSuite_succ :
    Ensures R (fun suite? => ∀ suite, suite? = some suite → suite.Formed)
      (elseSuite (fuel + 1)) := by
  rw [elseSuite]
  refine ensures_seq ensures_place fun start => ?_
  refine ensures_seq ensures_kind fun kind => ?_
  split
  · refine ensures_bind ih.ifStatement fun nested hnested => ?_
    refine ensures_pure fun suite hsuite => ?_
    obtain rfl := Option.some.inj hsuite
    refine ⟨List.cons_ne_nil _ _, ?_⟩
    simpa [Suite.statements, Stmt.statementsAll] using hnested
  · refine ensures_seq ensures_advance fun _ => ?_
    refine ensures_seq (ensures_expect _ _) fun _ => ?_
    refine ensures_bind ih.suite fun suite hsuite => ensures_pure fun suite' he => ?_
    obtain rfl := Option.some.inj he
    exact hsuite
  · exact ensures_pure (by simp)

private theorem ensures_suite_succ :
    Ensures R Suite.Formed (suite (fuel + 1)) := by
  rw [suite]
  refine ensures_seq ensures_kind fun kind => ?_
  split
  · refine ensures_seq ensures_advance fun _ => ?_
    refine ensures_seq ensures_place fun start => ?_
    refine ensures_seq (ensures_expect _ _) fun _ => ?_
    refine ensures_bind (ih.blockStatements [] (by simp [Stmt.statementsAll, Stmt.AllFormed]))
      fun stmts hstmts => ?_
    refine ensures_guard (ensures_refuse _) fun hempty => ?_
    refine ensures_seq (ensures_expect _ _) fun _ => ensures_pure ⟨?_, hstmts⟩
    simpa [Suite.stmts] using hempty
  · refine ensures_seq ensures_place fun start => ?_
    refine ensures_bind ih.statement fun stmt hstmt => ensures_pure ?_
    refine ⟨List.cons_ne_nil _ _, ?_⟩
    simpa [Suite.statements, Stmt.statementsAll] using hstmt

private theorem ensures_blockStatements_succ (before : List Stmt)
    (h : Stmt.AllFormed (Stmt.statementsAll before)) :
    Ensures R (fun ss => Stmt.AllFormed (Stmt.statementsAll ss))
      (blockStatements (fuel + 1) before) := by
  rw [blockStatements]
  refine ensures_seq (ensures_modify Parser.Frame.skipLineEnds) fun _ => ?_
  refine ensures_seq ensures_get fun p => ?_
  split
  · exact ensures_pure h
  · refine ensures_bind ih.statement fun stmt hstmt => ?_
    refine ensures_seq (ensures_expectStatementEnd _) fun _ => ?_
    refine ih.blockStatements _ fun s hs => ?_
    obtain ⟨t, ht, hst⟩ := Stmt.mem_statementsAll.1 hs
    rcases List.mem_append.1 ht with ht | ht
    · exact h s (Stmt.mem_statementsAll.2 ⟨t, ht, hst⟩)
    · obtain rfl := List.mem_singleton.1 ht
      exact hstmt s hst

private theorem ensures_arms_succ (before : List Arm) (h : FormedArms before) :
    Ensures R FormedArms (arms (fuel + 1) before) := by
  rw [arms]
  refine ensures_seq (ensures_modify Parser.Frame.skipLineEnds) fun _ => ?_
  refine ensures_seq ensures_get fun p => ?_
  split
  · exact ensures_pure h
  · refine ensures_seq ensures_place fun start => ?_
    refine ensures_seq (ensures_expect _ _) fun _ => ?_
    refine ensures_bind (ensures_pattern fuel _) fun pattern hpattern => ?_
    refine ensures_seq (ensures_expect _ _) fun _ => ?_
    refine ensures_bind ih.suite fun body hbody => ?_
    refine ensures_seq (ensures_expectStatementEnd _) fun _ => ?_
    refine ih.arms _ ⟨fun arm harm => ?_, ?_⟩
    · rcases List.mem_append.1 harm with harm | harm
      · exact h.1 arm harm
      · obtain rfl := List.mem_singleton.1 harm
        exact hbody
    · rw [List.countP_append]
      cases pattern with
      | value e => simpa [Arm.isWildcard, Arm.pattern] using h.2
      | wildcard =>
        have hnone : before.countP Arm.isWildcard = 0 := by
          rw [List.countP_eq_zero]
          intro arm harm hwild
          exact hpattern (List.any_eq_true.2 ⟨arm, harm, hwild⟩) rfl
        rw [hnone]
        simp [Arm.isWildcard, Arm.pattern]

end

private theorem stmtFrame (fuel : Nat) : StmtFrame R fuel := by
  induction fuel with
  | zero => constructor <;> intros <;> exact ensures_throw _
  | succ fuel ih =>
    exact ⟨ensures_statement_succ ih, ensures_ifStatement_succ ih, ensures_elseSuite_succ ih,
      ensures_suite_succ ih, ensures_blockStatements_succ ih, ensures_arms_succ ih⟩

theorem ensures_statement (fuel : Nat) :
    Ensures R (fun s => Stmt.AllFormed s.statements) (statement fuel) := (stmtFrame fuel).statement

theorem ensures_suite (fuel : Nat) : Ensures R Suite.Formed (suite fuel) := (stmtFrame fuel).suite

end

end Parse

end Offside
