import Offside.Proofs.Parser.Comparison
import Offside.Proofs.Parser.Depth

/-!
# Constructs read side by side

Every construct is read alike by parsers that a comparison relates, at places that correspond.

## Main results

* `Offside.Parse.tracks_expression`, `Offside.Parse.tracks_suite`: expressions and bodies.
* `Offside.Parse.tracks_item`, `Offside.Parse.couples_item`: items.
-/

namespace Offside

/-- A token inside a construct has not been refused. -/
theorem Kind.isInvalid_of_isPlain {k : Kind} (h : k.isPlain) : k.isInvalid = false := by
  cases k with
  | invalid => cases h
  | _ => rfl

theorem Kind.ne_endOfLine_of_isPlain {k : Kind} (h : k.isPlain) : k ≠ .endOfLine := by
  rintro rfl
  cases h

namespace Parse

variable {w : Parser.Comparison} {fuel fuel' : Nat} {k : Kind} {start start' : Location}

/-! ### Expressions -/

/-- Every function that reads a part of an expression does the same in both parsers. -/
private structure ExprTracks (w : Parser.Comparison) (fuel fuel' : Nat) : Prop where
  expression : Tracks w (Expr.relocate w.place) (expression fuel) (expression fuel')
  operators least left : Tracks w (Expr.relocate w.place) (operators fuel least left)
    (operators fuel' least (left.relocate w.place))
  tighter op right : Tracks w (Expr.relocate w.place) (tighter fuel op right)
    (tighter fuel' op (right.relocate w.place))
  unary : Tracks w (Expr.relocate w.place) (unary fuel) (unary fuel')
  suffixed : Tracks w (Expr.relocate w.place) (suffixed fuel) (suffixed fuel')
  suffixes e : Tracks w (Expr.relocate w.place) (suffixes fuel e)
    (suffixes fuel' (e.relocate w.place))
  arguments list : Tracks w (Expr.relocateAll w.place) (arguments fuel list) (arguments fuel' list)
  nextArguments list : Tracks w (Expr.relocateAll w.place) (nextArguments fuel list)
    (nextArguments fuel' list)
  primary : Tracks w (Expr.relocate w.place) (primary fuel) (primary fuel')

section

variable (ih : ExprTracks w fuel fuel')
include ih

private theorem tracks_expression_succ :
    Tracks w (Expr.relocate w.place) (expression (fuel + 1)) (expression (fuel' + 1)) := by
  rw [expression, expression]
  exact tracks_bind ih.unary fun e => ih.operators 0 e

private theorem tracks_operators_succ (least : Nat) (left : Expr) :
    Tracks w (Expr.relocate w.place) (operators (fuel + 1) least left)
      (operators (fuel' + 1) least (left.relocate w.place)) := by
  rw [operators, operators]
  refine tracks_kind fun k => ?_
  split
  · exact tracksFrom_pure rfl
  · next op hop =>
    refine tracksFrom_ite (tracksFrom_pure rfl) (tracksFrom_place fun place place' hplace => ?_)
    have hplain := isPlain_of_ofKind? hop
    obtain rfl := hplace (Kind.ne_endOfLine_of_isPlain hplain)
    refine tracksFrom_seq (tracksFrom_advance (Kind.isInvalid_of_isPlain hplain)) fun _ => ?_
    refine tracks_bind ih.unary fun right => ?_
    refine tracks_bind (ih.tighter op right) fun right => ?_
    exact tracks_bind (tracks_finishExpr place fun _ => rfl) fun e => ih.operators least e

private theorem tracks_tighter_succ (op : BinaryOp) (right : Expr) :
    Tracks w (Expr.relocate w.place) (tighter (fuel + 1) op right)
      (tighter (fuel' + 1) op (right.relocate w.place)) := by
  rw [tighter, tighter]
  refine tracks_kind fun k => ?_
  split
  · exact tracksFrom_pure rfl
  · exact tracksFrom_ite (ih.operators _ right k) (tracksFrom_pure rfl)

private theorem tracks_unary_succ :
    Tracks w (Expr.relocate w.place) (unary (fuel + 1)) (unary (fuel' + 1)) := by
  rw [unary, unary]
  refine tracks_place fun k place place' hplace => tracksFrom_kind ?_
  split
  · exact ih.suffixed k
  · next sign hsign =>
    have hplain := isPlain_of_signOfKind? hsign
    obtain rfl := hplace (Kind.ne_endOfLine_of_isPlain hplain)
    refine tracksFrom_seq (tracksFrom_advance (Kind.isInvalid_of_isPlain hplain)) fun _ => ?_
    refine tracks_bind ih.unary fun operand => ?_
    split
    · exact tracks_pure rfl
    · exact tracks_finishExpr place fun _ => rfl

private theorem tracks_suffixed_succ :
    Tracks w (Expr.relocate w.place) (suffixed (fuel + 1)) (suffixed (fuel' + 1)) := by
  rw [suffixed, suffixed]
  exact tracks_bind ih.primary fun e => ih.suffixes e

private theorem tracks_suffixes_succ (e : Expr) :
    Tracks w (Expr.relocate w.place) (suffixes (fuel + 1) e)
      (suffixes (fuel' + 1) (e.relocate w.place)) := by
  rw [suffixes, suffixes]
  refine tracks_place fun k place place' hplace => tracksFrom_kind ?_
  split
  · obtain rfl := hplace Kind.noConfusion
    refine tracksFrom_seq (tracksFrom_advance rfl) fun _ => ?_
    rw [Expr.plainName?_relocate, Expr.location_relocate]
    split
    · exact tracks_fail _ _
    · refine tracks_bind (ih.arguments _) fun args => ?_
      refine tracks_expect rfl ?_
      exact tracks_bind (tracks_finishExpr _ fun _ => rfl) fun e => ih.suffixes e
  · obtain rfl := hplace Kind.noConfusion
    refine tracksFrom_seq (tracksFrom_advance rfl) fun _ => ?_
    refine tracks_bind ih.expression fun index => ?_
    refine tracks_expect rfl ?_
    exact tracks_bind (tracks_finishExpr place fun _ => rfl) fun e => ih.suffixes e
  · obtain rfl := hplace Kind.noConfusion
    refine tracksFrom_seq (tracksFrom_advance rfl) fun _ => ?_
    refine tracks_expectName fun field => ?_
    exact tracks_bind (tracks_finishExpr place fun _ => rfl) fun e => ih.suffixes e
  · exact tracksFrom_pure rfl

private theorem tracks_arguments_succ (list : ArgumentList) :
    Tracks w (Expr.relocateAll w.place) (arguments (fuel + 1) list) (arguments (fuel' + 1) list) := by
  rw [arguments, arguments]
  refine tracks_kind fun k => ?_
  exact tracksFrom_ite (tracksFrom_pure rfl) (ih.nextArguments list k)

private theorem tracks_nextArguments_succ (list : ArgumentList) :
    Tracks w (Expr.relocateAll w.place) (nextArguments (fuel + 1) list)
      (nextArguments (fuel' + 1) list) := by
  rw [nextArguments, nextArguments]
  refine tracks_kind fun k => ?_
  refine tracksFrom_ite tracksFrom_refuse_bind ?_
  refine tracksFrom_bind (ih.expression k) fun e => ?_
  refine tracks_seq (tracks_accept? rfl) fun more => ?_
  split
  · exact tracks_bind (ih.nextArguments list) fun es => tracks_pure rfl
  · exact tracks_kind fun k => tracksFrom_ite tracksFrom_refuse_bind (tracksFrom_pure rfl)

private theorem tracks_primary_succ :
    Tracks w (Expr.relocate w.place) (primary (fuel + 1)) (primary (fuel' + 1)) := by
  rw [primary, primary]
  refine tracks_place fun k place place' hplace => tracksFrom_kind ?_
  split
  · obtain rfl := hplace Kind.noConfusion
    exact tracksFrom_seq (tracksFrom_advance rfl) fun _ =>
      tracks_finishExpr place fun _ => rfl
  · obtain rfl := hplace Kind.noConfusion
    refine tracksFrom_seq (tracksFrom_advance rfl) fun _ => ?_
    refine tracks_kind fun k => ?_
    split
    · next hopen =>
      refine tracksFrom_seq (tracksFrom_advance (by rw [hopen.2]; rfl)) fun _ => ?_
      refine tracks_bind ih.expression fun operand => ?_
      exact tracks_expect rfl (tracks_finishExpr place fun _ => rfl)
    · exact tracks_finishExpr place (fun _ => rfl) k
  · refine tracksFrom_seq (tracksFrom_advance rfl) fun _ => ?_
    refine tracks_bind ih.expression fun e => ?_
    exact tracks_expect rfl (tracks_pure rfl)
  · exact tracksFrom_refuse _

private theorem ExprTracks.succ : ExprTracks w (fuel + 1) (fuel' + 1) :=
  ⟨tracks_expression_succ ih, tracks_operators_succ ih, tracks_tighter_succ ih,
    tracks_unary_succ ih, tracks_suffixed_succ ih, tracks_suffixes_succ ih,
    tracks_arguments_succ ih, tracks_nextArguments_succ ih, tracks_primary_succ ih⟩

end

/-- The bounds on the depth of the two runs need not be the same. -/
private theorem exprTracks (fuel fuel' : Nat) : ExprTracks w fuel fuel' := by
  induction fuel generalizing fuel' with
  | zero => constructor <;> intros <;> exact tracks_tooDeep
  | succ fuel ih =>
    cases fuel' with
    | succ fuel' => exact (ih fuel').succ
    | zero =>
      have h := (ih 0).succ
      exact ⟨h.expression.tooDeep, fun least left => (h.operators least left).tooDeep,
        fun op right => (h.tighter op right).tooDeep, h.unary.tooDeep, h.suffixed.tooDeep,
        fun e => (h.suffixes e).tooDeep, fun list => (h.arguments list).tooDeep,
        fun list => (h.nextArguments list).tooDeep, h.primary.tooDeep⟩

theorem tracks_expression (fuel fuel' : Nat) :
    Tracks w (Expr.relocate w.place) (expression fuel) (expression fuel') :=
  (exprTracks fuel fuel').expression

/-! ### Parts of declarations -/

theorem tracks_typeExpr (fuel fuel' : Nat) : Tracks w id (typeExpr fuel) (typeExpr fuel') := by
  induction fuel generalizing fuel' with
  | zero => exact tracks_tooDeep
  | succ fuel ih =>
    have succ (fuel' : Nat) : Tracks w id (typeExpr (fuel + 1)) (typeExpr (fuel' + 1)) := by
      rw [typeExpr, typeExpr]
      refine tracks_expectName fun name => ?_
      refine tracks_kind fun k => ?_
      split
      · next hopen =>
        refine tracksFrom_seq (tracksFrom_advance (by rw [hopen.2]; rfl)) fun _ => ?_
        refine tracks_seq (ih fuel') fun element => ?_
        exact tracks_expect rfl (tracks_pure rfl)
      · exact tracksFrom_pure rfl
    cases fuel' with
    | zero => exact (succ 0).tooDeep
    | succ fuel' => exact succ fuel'

theorem tracks_parameters (fuel fuel' : Nat) (before : List Binding) :
    Tracks w id (parameters fuel before) (parameters fuel' before) := by
  induction fuel generalizing fuel' before with
  | zero => exact tracks_tooDeep
  | succ fuel ih =>
    have succ (fuel' : Nat) :
        Tracks w id (parameters (fuel + 1) before) (parameters (fuel' + 1) before) := by
      rw [parameters, parameters]
      refine tracks_place fun k place place' hplace => ?_
      refine tracksFrom_expectName ?_
      rintro name rfl
      obtain rfl := hplace Kind.noConfusion
      refine tracks_ite (fun _ => tracksFrom_fail_bind) ?_
      refine tracks_expect rfl ?_
      refine tracks_seq (tracks_typeExpr fuel fuel') fun type => ?_
      refine tracks_seq (tracks_accept? rfl) fun more => ?_
      split
      · exact ih fuel' _
      · exact tracks_kind fun k => tracksFrom_ite (tracksFrom_pure rfl) (tracksFrom_refuse _)
    cases fuel' with
    | zero => exact (succ 0).tooDeep
    | succ fuel' => exact succ fuel'

theorem tracks_prototype (fuel fuel' : Nat) :
    Tracks w (Prototype.relocate w.place) (prototype fuel) (prototype fuel') := by
  refine tracks_place fun k place place' hplace => ?_
  refine tracksFrom_expectName ?_
  rintro name rfl
  obtain rfl := hplace Kind.noConfusion
  refine tracks_expect rfl ?_
  have rest (params : List Binding) : Tracks w (Prototype.relocate w.place) (do
      expectClose .parameters
      expect (.symbol .arrow) .returnType
      let result ← typeExpr fuel
      return (⟨name, params, result, place⟩ : Prototype)) (do
      expectClose .parameters
      expect (.symbol .arrow) .returnType
      let result ← typeExpr fuel'
      return (⟨name, params, result, w.place place⟩ : Prototype)) := by
    refine tracks_expect rfl (tracks_expect rfl ?_)
    exact tracks_seq (tracks_typeExpr fuel fuel') fun result => tracks_pure rfl
  refine tracks_kind fun k => ?_
  exact tracksFrom_ite (rest [] k)
    (tracks_seq (tracks_parameters fuel fuel' []) (fun params => rest params) k)

theorem tracks_fields (struct : String) (fuel fuel' : Nat) (before : List Binding) :
    Tracks w id (fields struct fuel before) (fields struct fuel' before) := by
  induction fuel generalizing fuel' before with
  | zero => exact tracks_tooDeep
  | succ fuel ih =>
    have succ (fuel' : Nat) :
        Tracks w id (fields struct (fuel + 1) before) (fields struct (fuel' + 1) before) := by
      rw [fields, fields]
      refine tracks_seq tracks_skipLineEnds fun _ => ?_
      refine tracks_test (fun _ _ hp => Parser.Comparison.atBlockEnd hp) (tracks_pure rfl) ?_
      refine tracks_place fun k place place' hplace => ?_
      refine tracksFrom_expectName ?_
      rintro name rfl
      obtain rfl := hplace Kind.noConfusion
      refine tracks_ite (fun _ => tracksFrom_fail_bind) ?_
      refine tracks_expect rfl ?_
      refine tracks_seq (tracks_typeExpr fuel fuel') fun type => ?_
      refine tracks_kind fun k => ?_
      split
      · exact ih fuel' _ _
      · exact ih fuel' _ _
      · exact tracksFrom_refuse _
    cases fuel' with
    | zero => exact (succ 0).tooDeep
    | succ fuel' => exact succ fuel'

theorem tracks_typeAlias (fuel fuel' : Nat) :
    Tracks w (Item.Shape.relocate w.place) (typeAlias fuel) (typeAlias fuel') := by
  refine tracks_place fun k place place' hplace => ?_
  refine tracksFrom_expectName ?_
  rintro name rfl
  obtain rfl := hplace Kind.noConfusion
  refine tracks_test (fun _ _ hp => w.hasStruct hp name) (fun _ => tracksFrom_fail_bind) ?_
  refine tracks_expect rfl ?_
  refine tracks_seq (tracks_typeExpr fuel fuel') fun target => ?_
  refine tracks_seq (tracks_expectStatementEnd _) fun _ => ?_
  refine tracks_seq (tracks_note _) fun _ => ?_
  refine tracks_seq (fun _ => tracksFrom_modify (fun p => Parser.TableFrame.setTypes p _)
    fun p p' hp _ => ?_) fun _ => tracks_pure rfl
  exact .inl (w.declareAlias hp name target)

theorem tracks_struct (fuel fuel' : Nat) (start : Location) :
    Tracks w (Item.Shape.relocate w.place) (struct fuel start) (struct fuel' (w.place start)) := by
  refine tracks_place fun k place place' hplace => ?_
  refine tracksFrom_expectName ?_
  rintro name rfl
  obtain rfl := hplace Kind.noConfusion
  have rest : Tracks w (Item.Shape.relocate w.place) (do
      expectColon .structName
      expect .endOfLine (.lineEnd .structHeader)
      expect .indent (.blockStart .fields)
      let fields ← fields name fuel []
      if fields.isEmpty then fail (.emptyStruct name) place
      expect .dedent (.blockEnd .fields)
      note (.structDeclared name fields.length)
      modify fun p => { p with types := p.types.declareStruct ⟨name, fields, start⟩ }
      return .struct name) (do
      expectColon .structName
      expect .endOfLine (.lineEnd .structHeader)
      expect .indent (.blockStart .fields)
      let fields ← fields name fuel' []
      if fields.isEmpty then fail (.emptyStruct name) (w.place place)
      expect .dedent (.blockEnd .fields)
      note (.structDeclared name fields.length)
      modify fun p => { p with types := p.types.declareStruct ⟨name, fields, w.place start⟩ }
      return .struct name) := by
    refine tracks_expect rfl (tracks_expect rfl (tracks_expect rfl ?_))
    refine tracks_seq (tracks_fields name fuel fuel' []) fun fields => ?_
    refine tracks_ite (fun _ => tracksFrom_fail_bind) ?_
    refine tracks_expect rfl ?_
    refine tracks_seq (tracks_note _) fun _ => ?_
    refine tracks_seq (fun _ => tracksFrom_modify (fun p => Parser.TableFrame.setTypes p _)
      fun p p' hp _ => ?_) fun _ => tracks_pure rfl
    exact .inl (w.declareStruct hp ⟨name, fields, start⟩)
  refine tracks_get (fun p => ?_) fun p p' hp => ?_
  · exact ensures_guard (ensures_fail _ _) fun _ =>
      ensures_guard (ensures_fail _ _) fun _ => rest.readsOn
  · dsimp only
    rw [w.hasStruct hp, w.alias? hp]
    exact tracks_ite (fun _ => tracksFrom_fail_bind)
      (tracks_ite (fun _ => tracksFrom_fail_bind) rest)

/-! ### Statements -/

theorem tracks_optionalAfter {mark : Kind} (accepted : mark.isInvalid = false) (fuel fuel' : Nat) :
    Tracks w (Option.map (Expr.relocate w.place)) (optionalAfter fuel mark)
      (optionalAfter fuel' mark) := by
  refine tracks_seq (tracks_accept? accepted) fun more => ?_
  split
  · exact tracks_bind (tracks_expression fuel fuel') fun e => tracks_pure rfl
  · exact tracks_pure rfl

theorem tracks_afterTarget (fuel fuel' : Nat) (start : Location) (target : Expr) :
    Tracks w (Stmt.relocate w.place) (afterTarget fuel start target)
      (afterTarget fuel' (w.place start) (target.relocate w.place)) := by
  refine tracks_kind fun k => ?_
  rw [Expr.plainName?_relocate, Expr.isAddressable_relocate]
  split
  · split
    · exact tracksFrom_refuse _
    · refine tracksFrom_seq (tracksFrom_advance rfl) fun _ => ?_
      refine tracks_seq (tracks_typeExpr fuel fuel') fun type => ?_
      refine tracks_bind (tracks_optionalAfter rfl fuel fuel') fun init => ?_
      exact tracks_finishStmt start fun _ => rfl
  · refine tracksFrom_ite tracksFrom_fail_bind ?_
    refine tracksFrom_seq (tracksFrom_advance rfl) fun _ => ?_
    refine tracks_bind (tracks_expression fuel fuel') fun value => ?_
    exact tracks_finishStmt start fun _ => rfl
  · refine tracksFrom_bind ((exprTracks fuel fuel').operators 0 target _) fun value => ?_
    exact tracks_finishStmt start fun _ => rfl

theorem tracks_returnStatement (fuel fuel' : Nat) (start : Location) :
    Tracks w (Stmt.relocate w.place) (returnStatement fuel start)
      (returnStatement fuel' (w.place start)) := by
  refine tracks_test (fun _ _ hp => Parser.Comparison.atStatementEnd hp)
    (tracks_finishStmt start fun _ => rfl) ?_
  refine tracks_bind (tracks_expression fuel fuel') fun value => ?_
  exact tracks_finishStmt start fun _ => rfl

theorem tracks_printStatement (fuel fuel' : Nat) (start : Location) :
    Tracks w (Stmt.relocate w.place) (printStatement fuel start)
      (printStatement fuel' (w.place start)) := by
  refine tracks_expect rfl ?_
  refine tracks_bind ((exprTracks fuel fuel').arguments _) fun args => ?_
  exact tracks_expect rfl (tracks_finishStmt start fun _ => rfl)

/-- The header of a counting loop at other places. -/
def Range.relocate (f : Location → Location) (range : Range) : Range :=
  { range with
    start := range.start.relocate f, stop := range.stop.relocate f
    step := range.step.map (Expr.relocate f) }

theorem tracks_range (fuel fuel' : Nat) :
    Tracks w (Range.relocate w.place) (range fuel) (range fuel') := by
  refine tracks_expectName fun counter => ?_
  refine tracks_expect rfl (tracks_expect rfl (tracks_expect rfl ?_))
  refine tracks_bind (tracks_expression fuel fuel') fun start => ?_
  refine tracks_expect rfl ?_
  refine tracks_bind (tracks_expression fuel fuel') fun stop => ?_
  refine tracks_bind (tracks_optionalAfter rfl fuel fuel') fun step => ?_
  exact tracks_expect rfl (tracks_expect rfl (tracks_pure rfl))

theorem tracks_pattern (fuel fuel' : Nat) (wild : Bool) :
    Tracks w (Pattern.relocate w.place) (pattern fuel wild) (pattern fuel' wild) := by
  rw [pattern, pattern]
  refine tracks_kind fun k => ?_
  split
  · next hk =>
    have accepted : k.isInvalid = false := by rw [hk]; rfl
    refine tracksFrom_ite (tracksFrom_place fun place place' hplace => ?_)
      (tracksFrom_seq (tracksFrom_advance accepted) fun _ => tracks_pure rfl)
    obtain rfl := hplace (by rw [hk]; exact Kind.noConfusion)
    exact tracksFrom_fail_bind
  · exact tracksFrom_bind (tracks_expression fuel fuel' k) fun e => tracks_pure rfl

/-- Every function that reads a part of a statement does the same in both parsers. -/
private structure StmtTracks (w : Parser.Comparison) (fuel fuel' : Nat) : Prop where
  statement : Tracks w (Stmt.relocate w.place) (statement fuel) (statement fuel')
  ifStatement k (hk : k.isPlain) :
    TracksFrom w k (Stmt.relocate w.place) (ifStatement fuel) (ifStatement fuel')
  elseSuite : Tracks w (Suite.relocateElse w.place) (elseSuite fuel) (elseSuite fuel')
  suite : Tracks w (Suite.relocate w.place) (suite fuel) (suite fuel')
  blockStatements before : Tracks w (Stmt.relocateAll w.place) (blockStatements fuel before)
    (blockStatements fuel' (Stmt.relocateAll w.place before))
  arms before : Tracks w (Arm.relocateAll w.place) (arms fuel before)
    (arms fuel' (Arm.relocateAll w.place before))

section

variable (ih : StmtTracks w fuel fuel')
include ih

private theorem tracks_statement_succ :
    Tracks w (Stmt.relocate w.place) (statement (fuel + 1)) (statement (fuel' + 1)) := by
  rw [statement, statement]
  refine tracks_place fun k start start' hstart => tracksFrom_kind ?_
  by_cases hline : k = .endOfLine
  · subst hline
    exact tracksFrom_of_fails (tracks_expression fuel fuel' _) fun p hp =>
      fails_expression (by rw [hp]; rfl) fuel
  obtain rfl := hstart hline
  split
  · exact ih.ifStatement _ rfl
  · refine tracksFrom_seq (tracksFrom_advance rfl) fun _ => ?_
    refine tracks_bind (tracks_range fuel fuel') fun range => ?_
    refine tracks_bind ih.suite fun body => ?_
    exact tracks_finishStmt start fun _ => rfl
  · refine tracksFrom_seq (tracksFrom_advance rfl) fun _ => ?_
    refine tracks_bind (tracks_expression fuel fuel') fun condition => ?_
    refine tracks_expect rfl ?_
    refine tracks_bind ih.suite fun body => ?_
    exact tracks_finishStmt start fun _ => rfl
  · refine tracksFrom_seq (tracksFrom_advance rfl) fun _ => ?_
    refine tracks_expect rfl ?_
    refine tracks_bind ih.suite fun body => ?_
    refine tracks_expect rfl ?_
    refine tracks_bind (tracks_expression fuel fuel') fun condition => ?_
    exact tracks_finishStmt start fun _ => rfl
  · refine tracksFrom_seq (tracksFrom_advance rfl) fun _ => ?_
    refine tracks_bind (tracks_expression fuel fuel') fun scrutinee => ?_
    refine tracks_expect rfl (tracks_expect rfl (tracks_expect rfl ?_))
    refine tracks_bind (ih.arms []) fun arms => ?_
    rw [Arm.isEmpty_relocateAll]
    refine tracks_ite (fun _ => tracksFrom_refuse_bind) ?_
    exact tracks_expect rfl (tracks_finishStmt start fun _ => rfl)
  · exact tracksFrom_seq (tracksFrom_advance rfl) fun _ =>
      tracks_returnStatement fuel fuel' start
  · exact tracksFrom_seq (tracksFrom_advance rfl) fun _ =>
      tracks_printStatement fuel fuel' start
  · exact tracksFrom_seq (tracksFrom_advance rfl) fun _ =>
      tracks_finishStmt start fun _ => rfl
  · exact tracksFrom_seq (tracksFrom_advance rfl) fun _ =>
      tracks_finishStmt start fun _ => rfl
  · exact tracksFrom_refuse _
  · exact tracksFrom_refuse _
  · exact tracksFrom_refuse _
  · exact tracksFrom_refuse _
  · exact tracksFrom_refuse _
  · exact tracksFrom_refuse _
  · exact tracksFrom_refuse _
  · exact tracksFrom_bind ((exprTracks fuel fuel').suffixed _) fun target =>
      tracks_afterTarget fuel fuel' start target
  · refine tracksFrom_bind (tracks_expression fuel fuel' _) fun value => ?_
    exact tracks_finishStmt start fun _ => rfl

private theorem tracks_ifStatement_succ (k : Kind) (hk : k.isPlain) :
    TracksFrom w k (Stmt.relocate w.place) (ifStatement (fuel + 1)) (ifStatement (fuel' + 1)) := by
  rw [ifStatement, ifStatement]
  refine tracksFrom_place fun start start' hstart => ?_
  obtain rfl := hstart (Kind.ne_endOfLine_of_isPlain hk)
  refine tracksFrom_seq (tracksFrom_advance (Kind.isInvalid_of_isPlain hk)) fun _ => ?_
  refine tracks_bind (tracks_expression fuel fuel') fun condition => ?_
  refine tracks_expect rfl ?_
  refine tracks_bind ih.suite fun thenSuite => ?_
  refine tracks_bind ih.elseSuite fun elseSuite => ?_
  exact tracks_finishStmt start fun _ => rfl

private theorem tracks_elseSuite_succ :
    Tracks w (Suite.relocateElse w.place) (elseSuite (fuel + 1)) (elseSuite (fuel' + 1)) := by
  rw [elseSuite, elseSuite]
  refine tracks_place fun k start start' hstart => tracksFrom_kind ?_
  split
  · obtain rfl := hstart Kind.noConfusion
    exact tracksFrom_bind (ih.ifStatement _ rfl) fun nested => tracks_pure rfl
  · refine tracksFrom_seq (tracksFrom_advance rfl) fun _ => ?_
    refine tracks_expect rfl ?_
    exact tracks_bind ih.suite fun suite => tracks_pure rfl
  · exact tracksFrom_pure rfl

private theorem tracks_suite_succ :
    Tracks w (Suite.relocate w.place) (suite (fuel + 1)) (suite (fuel' + 1)) := by
  rw [suite, suite]
  refine tracks_kind fun k => ?_
  split
  · next hk =>
    refine tracksFrom_seq (tracksFrom_advance (by rw [hk]; rfl)) fun _ => ?_
    refine tracks_place fun k start start' hstart => ?_
    refine tracksFrom_expect rfl ?_
    rintro rfl
    obtain rfl := hstart Kind.noConfusion
    refine tracks_bind (ih.blockStatements []) fun stmts => ?_
    rw [Stmt.isEmpty_relocateAll]
    refine tracks_ite (fun _ => tracksFrom_refuse_bind) ?_
    exact tracks_expect rfl (tracks_pure rfl)
  · next hk =>
    refine tracksFrom_place fun start start' hstart => ?_
    obtain rfl := hstart hk
    exact tracksFrom_bind (ih.statement k) fun stmt => tracks_pure rfl

private theorem tracks_blockStatements_succ (before : List Stmt) :
    Tracks w (Stmt.relocateAll w.place) (blockStatements (fuel + 1) before)
      (blockStatements (fuel' + 1) (Stmt.relocateAll w.place before)) := by
  rw [blockStatements, blockStatements]
  refine tracks_seq tracks_skipLineEnds fun _ => ?_
  refine tracks_test (fun _ _ hp => Parser.Comparison.atBlockEnd hp) (tracks_pure rfl) ?_
  refine tracks_bind ih.statement fun stmt => ?_
  refine tracks_seq (tracks_expectStatementEnd _) fun _ => ?_
  have := ih.blockStatements (before ++ [stmt])
  rwa [Stmt.relocateAll_append] at this

private theorem tracks_arms_succ (before : List Arm) :
    Tracks w (Arm.relocateAll w.place) (arms (fuel + 1) before)
      (arms (fuel' + 1) (Arm.relocateAll w.place before)) := by
  rw [arms, arms]
  refine tracks_seq tracks_skipLineEnds fun _ => ?_
  refine tracks_test (fun _ _ hp => Parser.Comparison.atBlockEnd hp) (tracks_pure rfl) ?_
  refine tracks_place fun k start start' hstart => ?_
  refine tracksFrom_expect rfl ?_
  rintro rfl
  obtain rfl := hstart Kind.noConfusion
  rw [Arm.any_isWildcard_relocateAll]
  refine tracks_bind (tracks_pattern fuel fuel' _) fun pattern => ?_
  refine tracks_expect rfl ?_
  refine tracks_bind ih.suite fun body => ?_
  refine tracks_seq (tracks_expectStatementEnd _) fun _ => ?_
  have := ih.arms (before ++ [.mk start pattern body])
  rwa [Arm.relocateAll_append] at this

private theorem StmtTracks.succ : StmtTracks w (fuel + 1) (fuel' + 1) :=
  ⟨tracks_statement_succ ih, tracks_ifStatement_succ ih, tracks_elseSuite_succ ih,
    tracks_suite_succ ih, tracks_blockStatements_succ ih, tracks_arms_succ ih⟩

end

private theorem stmtTracks (fuel fuel' : Nat) : StmtTracks w fuel fuel' := by
  induction fuel generalizing fuel' with
  | zero => constructor <;> intros <;> first | exact tracks_tooDeep | exact tracks_tooDeep _
  | succ fuel ih =>
    cases fuel' with
    | succ fuel' => exact (ih fuel').succ
    | zero =>
      have h := (ih 0).succ
      exact ⟨h.statement.tooDeep, fun k hk => (h.ifStatement k hk).tooDeep, h.elseSuite.tooDeep,
        h.suite.tooDeep, fun before => (h.blockStatements before).tooDeep,
        fun before => (h.arms before).tooDeep⟩

theorem tracks_statement (fuel fuel' : Nat) :
    Tracks w (Stmt.relocate w.place) (statement fuel) (statement fuel') :=
  (stmtTracks fuel fuel').statement

theorem tracks_suite (fuel fuel' : Nat) :
    Tracks w (Suite.relocate w.place) (suite fuel) (suite fuel') := (stmtTracks fuel fuel').suite

/-! ### Items -/

/-- No item starts with a line end. -/
private theorem fails_itemShape {p : Parser} (h : p.current.kind = .endOfLine) :
    Fails p (itemShape fuel start) := by
  have hstatement : Fails p (statement fuel) := by
    cases fuel with
    | zero => exact trivial
    | succ fuel =>
      rw [statement]
      refine fails_place fun place => fails_kind ?_
      rw [h]
      exact fails_bind (fails_expression (by rw [h]; rfl) fuel)
  refine fails_kind ?_
  rw [h]
  exact fails_bind hstatement

theorem tracksFrom_itemShape (fuel fuel' : Nat) (hstart : Corresponds w k start start') :
    TracksFrom w k (Item.Shape.relocate w.place) (itemShape fuel start)
      (itemShape fuel' start') := by
  refine tracksFrom_kind ?_
  split
  · refine tracksFrom_seq (tracksFrom_advance rfl) fun _ => ?_
    refine tracks_bind (tracks_prototype fuel fuel') fun proto => ?_
    refine tracks_expect rfl ?_
    refine tracks_bind (tracks_suite fuel fuel') fun body => ?_
    rw [Suite.length_stmts_relocate]
    exact tracks_seq (tracks_note _) fun _ => tracks_pure rfl
  · refine tracksFrom_seq (tracksFrom_advance rfl) fun _ => ?_
    refine tracks_expect rfl ?_
    exact tracks_bind (tracks_prototype fuel fuel') fun proto => tracks_pure rfl
  · exact tracksFrom_seq (tracksFrom_advance rfl) fun _ => tracks_typeAlias fuel fuel'
  · obtain rfl := hstart Kind.noConfusion
    exact tracksFrom_seq (tracksFrom_advance rfl) fun _ => tracks_struct fuel fuel' start
  · exact tracksFrom_refuse _
  · exact tracksFrom_bind (tracks_statement fuel fuel' _) fun stmt => tracks_pure rfl

/-- An item is read alike in both. -/
theorem tracks_item (fuel fuel' : Nat) :
    Tracks w (Item.relocate w.place) (item fuel) (item fuel') := by
  refine tracks_place fun k start start' hstart => ?_
  have hshape := tracksFrom_itemShape fuel fuel' hstart
  by_cases hline : k = .endOfLine
  · subst hline
    exact tracksFrom_of_fails hshape fun p hp => fails_itemShape hp
  obtain rfl := hstart hline
  refine tracksFrom_bind hshape fun shape => ?_
  exact tracks_test (fun _ _ hp => by rw [Parser.Comparison.atItemEnd hp])
    (fun _ => tracksFrom_refuse_bind) (tracks_pure rfl)

/-- With bounds on the depth that are not met, both do the same as long as the comparison lasts. -/
theorem TracksAt.couples {α : Type} {σ : α → α} {p p' : Parser} {x x' : Parse α}
    (h : TracksAt w σ p p' x x') (hx : Yields p x (fun _ _ => True) fun e _ => e ≠ .tooDeep)
    (hx' : Yields p' x' (fun _ _ => True) fun e _ => e ≠ .tooDeep) :
    Couples p p' x x' (fun a q a' q' => a' = σ a ∧ w.Like q q')
        (fun e q e' q' => e' = e.relocate w.place ∧ e.ArisesAt q ∧ e ≠ .tooDeep ∧ w.Like q q') ∨
      Yields p x (fun _ q => w.Beyond q) fun _ q => w.Beyond q := by
  cases h with
  | astray hastray =>
    exact .inr ((Yields.and hastray hx).mono (fun _ _ hq => hq.1)
      fun _ _ hq => hq.1.resolve_left hq.2)
  | tooDeep htoo =>
    have hfalse := (Yields.and htoo hx').mono (fun _ _ hq => hq.1) fun _ _ hq => hq.2 hq.1
    rw [Yields] at hfalse
    split at hfalse <;> exact hfalse.elim
  | same hsame =>
    exact .inl ((hsame.and_left hx).mono (fun _ _ _ _ hq => hq.1)
      fun _ _ _ _ hq => ⟨hq.1.1, hq.1.2.1, hq.2, hq.1.2.2⟩)

/-- With bounds on the depth that are high enough, an item is read alike in both as long as the
comparison lasts. -/
theorem couples_item_of_enough {p p' : Parser} (h : w.Like p p') (hp : p.Bounded) (hp' : p'.Bounded)
    (hfuel : p.Enough 5 fuel) (hfuel' : p'.Enough 5 fuel') :
    Couples p p' (item fuel) (item fuel')
        (fun a q a' q' => a' = a.relocate w.place ∧ w.Like q q')
        (fun e q e' q' => e' = e.relocate w.place ∧ e.ArisesAt q ∧ e ≠ .tooDeep ∧ w.Like q q') ∨
      Yields p (item fuel) (fun _ q => w.Beyond q) fun _ q => w.Beyond q :=
  ((tracks_item fuel fuel' _).run p p' h rfl).couples
    (Yields.mono (fits_item_of_enough hp hfuel) (fun _ _ _ => trivial) fun _ _ he => he)
    (Yields.mono (fits_item_of_enough hp' hfuel') (fun _ _ _ => trivial) fun _ _ he => he)

/-- The same with the bounds that parsers start with. -/
theorem couples_item {p p' : Parser} (h : w.Like p p') (hp : p.Bounded) (hp' : p'.Bounded) :
    Couples p p' (item p.fuel) (item p'.fuel)
        (fun a q a' q' => a' = a.relocate w.place ∧ w.Like q q')
        (fun e q e' q' => e' = e.relocate w.place ∧ e.ArisesAt q ∧ e ≠ .tooDeep ∧ w.Like q q') ∨
      Yields p (item p.fuel) (fun _ q => w.Beyond q) fun _ q => w.Beyond q :=
  couples_item_of_enough h hp hp' (p.enough_fuel.weaken (by omega))
    (p'.enough_fuel.weaken (by omega))

end Parse

/-- Where reading any token and reporting a failure keep a comparison, an item is read in both, or
it is reported in both for the same reason. -/
theorem Parser.Comparison.parseItem (w : Comparison) {p p' : Parser} (h : w.Like p p')
    (hp : p.Bounded) (hp' : p'.Bounded)
    (advance : ∀ q q', w.Like q q' → w.Like q.advance q'.advance ∨ w.Beyond q.advance)
    (refused : ∀ failure q q', w.Like q q' → w.Like ((q.report failure).rollback p.arena.mark)
      ((q'.report (failure.relocate w.place)).rollback p.arena.mark)) :
    p'.parseItem.1 = p.parseItem.1.map (Item.relocate w.place) ∧
        w.Like p.parseItem.2 p'.parseItem.2 ∨
      w.Beyond p.parseItem.2 := by
  rcases Parse.couples_item (w := w) h hp hp' with hsame | hbeyond
  · rw [Couples] at hsame
    rw [Parser.parseItem, Parser.parseItem, EStateM.run, EStateM.run]
    split at hsame
    · next hrun hrun' =>
      rw [hrun, hrun']
      obtain ⟨rfl, hq⟩ := hsame
      exact .inl ⟨rfl, hq⟩
    · next failure q failure' q' hrun hrun' =>
      rw [hrun, hrun']
      obtain ⟨rfl, -, -, hq⟩ := hsame
      dsimp only
      rw [w.mark h]
      exact (w.recover (refused failure q q' hq) advance endsLine).imp_left fun hr => ⟨rfl, hr⟩
    · exact hsame.elim
    · exact hsame.elim
  · refine .inr ?_
    rw [Yields] at hbeyond
    rw [Parser.parseItem, EStateM.run]
    split at hbeyond
    · next hrun =>
      rw [hrun]
      exact hbeyond
    · next failure q hrun =>
      rw [hrun]
      exact Beyond.mono hbeyond (TokenFrame.refused q failure _)

end Offside
