import Offside.Parser.Item
import Offside.Proofs.Ensures

/-!
# What reading keeps

Reading a construct reads tokens, finishes nodes and makes notes, and nothing else, whether or not
it succeeds; only an alias or a struct that has been read as a whole enters the type tables. A
relation between parsers that allows these three steps is therefore kept by every construct.

## Main definitions

* `Offside.Parser.Frame`: relations that allow what reading does.

## Main results

* `Offside.Parse.ensures_expression`, `Offside.Parse.ensures_prototype`: expressions and
  prototypes.
* `Offside.Parse.ensures_fields`: the fields of a struct.
-/

namespace Offside

/-- Relations between an earlier and a later parser that allow what reading does. -/
class Parser.Frame (R : Parser → Parser → Prop) : Prop extends IsPreorder Parser R where
  advance (p : Parser) : R p p.advance
  note (p : Parser) (n : Note) : R p (p.note n)
  addExpr (p : Parser) (place : Location) (build : Tag → Expr) :
    R p { p with arena := (p.arena.addExpr place build).2 }
  addStmt (p : Parser) (place : Location) (build : Tag → Stmt) :
    R p { p with arena := (p.arena.addStmt place build).2 }

section

variable {R : Parser → Parser → Prop} [Parser.Frame R]

/-- Skipping line ends is reading. -/
theorem Parser.Frame.skipLineEnds (p : Parser) : R p p.skipLineEnds := by
  fun_induction Parser.skipLineEnds p with
  | case1 p h ih => exact trans_of R (advance p) ih
  | case2 p h => exact refl p

/-- So is skipping tokens of no interest. -/
theorem Parser.Frame.skipUntil (stop : Kind → Bool) (p : Parser) : R p (p.skipUntil stop).2 := by
  fun_induction Parser.skipUntil stop p with
  | case1 p h skipped q he ih =>
    rw [he] at ih
    exact trans_of R (advance p) ih
  | case2 p h => exact refl p

end

/-- No two bindings have the same name. -/
def Binding.Distinct (bindings : List Binding) : Prop := (bindings.map (·.name)).Nodup

/-- A binding of another name. -/
theorem Binding.Distinct.append_singleton {bindings : List Binding} {name : String}
    {type : TypeExpr} (h : Distinct bindings) (hnew : ¬ bindings.any (·.name = name)) :
    Distinct (bindings ++ [⟨name, type⟩]) := by
  rw [Distinct, List.map_append]
  refine List.nodup_append.2 ⟨h, List.pairwise_singleton _ _, fun other hother name' hname' => ?_⟩
  obtain ⟨binding, hbinding, rfl⟩ := List.mem_map.1 hother
  obtain rfl := List.mem_singleton.1 hname'
  rintro hsame
  exact hnew (List.any_eq_true.2 ⟨binding, hbinding, decide_eq_true hsame⟩)

theorem Parser.afterDedent_advance (p : Parser) :
    p.advance.afterDedent = decide (p.current.kind = .dedent) := by
  unfold advance
  dsimp only
  split <;> rfl

namespace Parse

section

variable {α : Type} {R : Parser → Parser → Prop} {Q : α → Prop} [Parser.Frame R]

/-! ### The basic steps -/

theorem ensures_kind : Ensures R (fun _ => True) kind := fun p => ⟨refl p, trivial⟩

theorem ensures_place : Ensures R (fun _ => True) place := fun p => ⟨refl p, trivial⟩

theorem ensures_advance : Ensures R (fun _ => True) advance := ensures_modify Parser.Frame.advance

theorem ensures_note (n : Note) : Ensures R (fun _ => True) (note n) :=
  ensures_modify fun p => Parser.Frame.note p n

theorem ensures_refuse (expected : Expectation) : Ensures R Q (refuse expected : Parse α) := by
  refine ensures_seq ensures_get fun p => ?_
  split
  · exact ensures_throw _
  · exact ensures_throw _

theorem ensures_fail (error : SemanticError) (place : Location) :
    Ensures R Q (fail error place : Parse α) := ensures_throw _

theorem ensures_accept? (mark : Kind) : Ensures R (fun _ => True) (accept? mark) := by
  refine ensures_seq ensures_kind fun _ => ?_
  split
  · exact ensures_seq ensures_advance fun _ => ensures_pure trivial
  · exact ensures_pure trivial

theorem ensures_expect (mark : Kind) (expected : Expectation) :
    Ensures R (fun _ => True) (expect mark expected) := by
  refine ensures_seq ensures_kind fun _ => ?_
  split
  · exact ensures_advance
  · exact ensures_refuse _

theorem ensures_expectName (naming : Naming) : Ensures R (fun _ => True) (expectName naming) := by
  refine ensures_seq ensures_kind fun _ => ?_
  split
  · exact ensures_seq ensures_advance fun _ => ensures_pure trivial
  · exact ensures_refuse _

theorem ensures_expectStatementEnd (after : Ending) :
    Ensures R (fun _ => True) (expectStatementEnd after) := by
  refine ensures_seq ensures_get fun _ => ?_
  split
  · exact ensures_refuse _
  · exact ensures_pure trivial

theorem ensures_finishExpr (place : Location) (build : Tag → Expr) :
    Ensures R (fun _ => True) (finishExpr place build) :=
  fun p => ⟨Parser.Frame.addExpr p place build, trivial⟩

theorem ensures_finishStmt {Q : Stmt → Prop} (place : Location) (build : Tag → Stmt)
    (hQ : ∀ tag, Q (build tag)) : Ensures R Q (finishStmt place build) :=
  fun p => ⟨Parser.Frame.addStmt p place build, hQ _⟩

end

/-! ### Expressions -/

section

variable {R : Parser → Parser → Prop} [Parser.Frame R]

/-- Every function that reads a part of an expression keeps `R`. -/
private structure ExprFrame (R : Parser → Parser → Prop) (fuel : Nat) : Prop where
  expression : Ensures R (fun _ => True) (expression fuel)
  operators least left : Ensures R (fun _ => True) (operators fuel least left)
  tighter op right : Ensures R (fun _ => True) (tighter fuel op right)
  unary : Ensures R (fun _ => True) (unary fuel)
  suffixed : Ensures R (fun _ => True) (suffixed fuel)
  suffixes e : Ensures R (fun _ => True) (suffixes fuel e)
  arguments list : Ensures R (fun _ => True) (arguments fuel list)
  nextArguments list : Ensures R (fun _ => True) (nextArguments fuel list)
  primary : Ensures R (fun _ => True) (primary fuel)

section

variable {fuel : Nat} (ih : ExprFrame R fuel)
include ih

private theorem ensures_expression_succ :
    Ensures R (fun _ => True) (expression (fuel + 1)) := by
  rw [expression]
  exact ensures_seq ih.unary fun e => ih.operators 0 e

private theorem ensures_operators_succ (least : Nat) (left : Expr) :
    Ensures R (fun _ => True) (operators (fuel + 1) least left) := by
  rw [operators]
  refine ensures_seq ensures_kind fun kind => ?_
  split
  · exact ensures_pure trivial
  · split
    · exact ensures_pure trivial
    · refine ensures_seq ensures_place fun place => ?_
      refine ensures_seq ensures_advance fun _ => ?_
      refine ensures_seq ih.unary fun right => ?_
      refine ensures_seq (ih.tighter _ right) fun right => ?_
      exact ensures_seq (ensures_finishExpr _ _) fun e => ih.operators _ e

private theorem ensures_tighter_succ (op : BinaryOp) (right : Expr) :
    Ensures R (fun _ => True) (tighter (fuel + 1) op right) := by
  rw [tighter]
  refine ensures_seq ensures_kind fun kind => ?_
  split
  · exact ensures_pure trivial
  · split
    · exact ih.operators _ right
    · exact ensures_pure trivial

private theorem ensures_unary_succ :
    Ensures R (fun _ => True) (unary (fuel + 1)) := by
  rw [unary]
  refine ensures_seq ensures_place fun place => ?_
  refine ensures_seq ensures_kind fun kind => ?_
  split
  · exact ih.suffixed
  · refine ensures_seq ensures_advance fun _ => ?_
    refine ensures_seq ih.unary fun operand => ?_
    split
    · exact ensures_pure trivial
    · exact ensures_finishExpr _ _

private theorem ensures_suffixed_succ :
    Ensures R (fun _ => True) (suffixed (fuel + 1)) := by
  rw [suffixed]
  exact ensures_seq ih.primary fun e => ih.suffixes e

private theorem ensures_suffixes_succ (e : Expr) :
    Ensures R (fun _ => True) (suffixes (fuel + 1) e) := by
  rw [suffixes]
  refine ensures_seq ensures_place fun place => ?_
  refine ensures_seq ensures_kind fun kind => ?_
  split
  · refine ensures_seq ensures_advance fun _ => ?_
    split
    · exact ensures_fail _ _
    · refine ensures_seq (ih.arguments _) fun args => ?_
      refine ensures_seq (ensures_expect _ _) fun _ => ?_
      exact ensures_seq (ensures_finishExpr _ _) fun e => ih.suffixes e
  · refine ensures_seq ensures_advance fun _ => ?_
    refine ensures_seq ih.expression fun index => ?_
    refine ensures_seq (ensures_expect _ _) fun _ => ?_
    exact ensures_seq (ensures_finishExpr _ _) fun e => ih.suffixes e
  · refine ensures_seq ensures_advance fun _ => ?_
    refine ensures_seq (ensures_expectName _) fun field => ?_
    exact ensures_seq (ensures_finishExpr _ _) fun e => ih.suffixes e
  · exact ensures_pure trivial

private theorem ensures_arguments_succ (list : ArgumentList) :
    Ensures R (fun _ => True) (arguments (fuel + 1) list) := by
  rw [arguments]
  refine ensures_seq ensures_kind fun kind => ?_
  split
  · exact ensures_pure trivial
  · exact ih.nextArguments list

private theorem ensures_nextArguments_succ (list : ArgumentList) :
    Ensures R (fun _ => True) (nextArguments (fuel + 1) list) := by
  rw [nextArguments]
  refine ensures_seq ensures_kind fun kind => ?_
  refine ensures_guard (ensures_refuse _) fun _ => ?_
  refine ensures_seq ih.expression fun e => ?_
  refine ensures_seq (ensures_accept? _) fun more => ?_
  split
  · exact ensures_seq (ih.nextArguments list) fun es => ensures_pure trivial
  · refine ensures_seq ensures_kind fun kind => ?_
    exact ensures_guard (ensures_refuse _) fun _ => ensures_pure trivial

private theorem ensures_primary_succ :
    Ensures R (fun _ => True) (primary (fuel + 1)) := by
  rw [primary]
  refine ensures_seq ensures_place fun place => ?_
  refine ensures_seq ensures_kind fun kind => ?_
  split
  · exact ensures_seq ensures_advance fun _ => ensures_finishExpr _ _
  · refine ensures_seq ensures_advance fun _ => ?_
    refine ensures_seq ensures_kind fun kind => ?_
    split
    · refine ensures_seq ensures_advance fun _ => ?_
      refine ensures_seq ih.expression fun operand => ?_
      exact ensures_seq (ensures_expect _ _) fun _ => ensures_finishExpr _ _
    · exact ensures_finishExpr _ _
  · refine ensures_seq ensures_advance fun _ => ?_
    refine ensures_seq ih.expression fun e => ?_
    exact ensures_seq (ensures_expect _ _) fun _ => ensures_pure trivial
  · exact ensures_refuse _

end

private theorem exprFrame (fuel : Nat) : ExprFrame R fuel := by
  induction fuel with
  | zero => constructor <;> intros <;> exact ensures_throw _
  | succ fuel ih =>
    exact ⟨ensures_expression_succ ih, ensures_operators_succ ih, ensures_tighter_succ ih,
      ensures_unary_succ ih, ensures_suffixed_succ ih, ensures_suffixes_succ ih,
      ensures_arguments_succ ih, ensures_nextArguments_succ ih, ensures_primary_succ ih⟩

theorem ensures_expression (fuel : Nat) : Ensures R (fun _ => True) (expression fuel) :=
  (exprFrame fuel).expression

theorem ensures_operators (fuel least : Nat) (left : Expr) :
    Ensures R (fun _ => True) (operators fuel least left) := (exprFrame fuel).operators least left

theorem ensures_suffixed (fuel : Nat) : Ensures R (fun _ => True) (suffixed fuel) :=
  (exprFrame fuel).suffixed

theorem ensures_arguments (fuel : Nat) (list : ArgumentList) :
    Ensures R (fun _ => True) (arguments fuel list) := (exprFrame fuel).arguments list

/-! ### Parts of declarations -/

theorem ensures_typeExpr (fuel : Nat) : Ensures R (fun _ => True) (typeExpr fuel) := by
  induction fuel with
  | zero => exact ensures_throw _
  | succ fuel ih =>
    rw [typeExpr]
    refine ensures_seq (ensures_expectName _) fun name => ?_
    refine ensures_seq ensures_kind fun kind => ?_
    split
    · refine ensures_seq ensures_advance fun _ => ?_
      refine ensures_seq ih fun element => ?_
      exact ensures_seq (ensures_expect _ _) fun _ => ensures_pure trivial
    · exact ensures_pure trivial

theorem ensures_parameters (fuel : Nat) {before : List Binding} (h : Binding.Distinct before) :
    Ensures R Binding.Distinct (parameters fuel before) := by
  induction fuel generalizing before with
  | zero => exact ensures_throw _
  | succ fuel ih =>
    rw [parameters]
    refine ensures_seq ensures_place fun place => ?_
    refine ensures_seq (ensures_expectName _) fun name => ?_
    refine ensures_guard (ensures_fail _ _) fun hnew => ?_
    refine ensures_seq (ensures_expect _ _) fun _ => ?_
    refine ensures_seq (ensures_typeExpr fuel) fun type => ?_
    have hadd : Binding.Distinct (before ++ [⟨name, type⟩]) := h.append_singleton hnew
    refine ensures_seq (ensures_accept? _) fun more => ?_
    split
    · exact ih hadd
    · refine ensures_seq ensures_kind fun kind => ?_
      split
      · exact ensures_pure hadd
      · exact ensures_refuse _

theorem ensures_prototype (fuel : Nat) :
    Ensures R (fun proto => Binding.Distinct proto.params) (prototype fuel) := by
  refine ensures_seq ensures_place fun place => ?_
  refine ensures_seq (ensures_expectName _) fun name => ?_
  refine ensures_seq (ensures_expect _ _) fun _ => ?_
  refine ensures_seq ensures_kind fun kind => ?_
  have rest {params : List Binding} (hparams : Binding.Distinct params) :
      Ensures R (fun proto => Binding.Distinct proto.params) (do
        expectClose .parameters
        expect (.symbol .arrow) .returnType
        let result ← typeExpr fuel
        return (⟨name, params, result, place⟩ : Prototype)) := by
    refine ensures_seq (ensures_expect _ _) fun _ => ?_
    refine ensures_seq (ensures_expect _ _) fun _ => ?_
    exact ensures_seq (ensures_typeExpr fuel) fun result => ensures_pure hparams
  split
  · exact rest List.nodup_nil
  · exact ensures_bind (ensures_parameters fuel List.nodup_nil) fun params => rest

theorem ensures_fields (struct : String) (fuel : Nat) {before : List Binding}
    (h : Binding.Distinct before) : Ensures R Binding.Distinct (fields struct fuel before) := by
  induction fuel generalizing before with
  | zero => exact ensures_throw _
  | succ fuel ih =>
    rw [fields]
    refine ensures_seq (ensures_modify Parser.Frame.skipLineEnds) fun _ => ?_
    refine ensures_seq ensures_get fun p => ?_
    split
    · exact ensures_pure h
    · refine ensures_seq ensures_place fun place => ?_
      refine ensures_seq (ensures_expectName _) fun name => ?_
      refine ensures_guard (ensures_fail _ _) fun hnew => ?_
      refine ensures_seq (ensures_expect _ _) fun _ => ?_
      refine ensures_seq (ensures_typeExpr fuel) fun type => ?_
      have hadd : Binding.Distinct (before ++ [⟨name, type⟩]) := h.append_singleton hnew
      refine ensures_seq ensures_kind fun kind => ?_
      split
      · exact ih hadd
      · exact ih hadd
      · exact ensures_refuse _

end

end Parse

end Offside
