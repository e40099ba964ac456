import Offside.Proofs.Parser.Replay
import Offside.Proofs.Parser.Unended

/-!
# Constructs at the end of the input

Every construct ends in the same way at the end of a line and at the end of a block or of the input.
So every construct is read in the same way where the last line of a text has no end.

Two constructs need to know which blocks are open. After a field of a struct the input is refused if
it is at its end, but not at the end of a line: inside the block of the struct the input does not
end. After an item a dedent is refused, but not the end of a line: where no block is open there is no
dedent.

## Main results

* `Offside.Parse.agrees_expression`, `Offside.Parse.agrees_suite`: expressions and bodies.
* `Offside.Parse.agreeAt_struct`: structs.
* `Offside.Parse.agreeAt_item`, `Offside.Parser.Inside.couples_item`: items.
-/

namespace Offside

namespace Parse

variable {p p' : Parser} {R : Parser → Parser → Prop} {α : Type} {fuel : Nat}

theorem agrees_tooDeep : Agrees R (throw .tooDeep : Parse α) := agrees_of_fails fun _ => trivial

/-! ### Expressions -/

/-- Every function that reads a part of an expression reads the same in both parsers. -/
private structure ExprAgrees (fuel : Nat) : Prop where
  expression : Agrees Parser.Unended (expression fuel)
  operators least left : Agrees Parser.Unended (operators fuel least left)
  tighter op right : Agrees Parser.Unended (tighter fuel op right)
  unary : Agrees Parser.Unended (unary fuel)
  suffixed : Agrees Parser.Unended (suffixed fuel)
  suffixes e : Agrees Parser.Unended (suffixes fuel e)
  arguments list : Agrees Parser.Unended (arguments fuel list)
  nextArguments list : Agrees Parser.Unended (nextArguments fuel list)
  primary : Agrees Parser.Unended (primary fuel)

section

variable (ih : ExprAgrees fuel)
include ih

private theorem agrees_operators_succ (least : Nat) (left : Expr) :
    Agrees Parser.Unended (operators (fuel + 1) least left) := by
  rw [operators]
  refine agrees_kind (y := pure left) (fun k hk => by rw [ofKind?_of_isEnd hk]) agrees_pure
    fun p p' h => ?_
  split
  · exact agreeAt_pure h.toUnended
  · split
    · exact agreeAt_pure h.toUnended
    · refine agreeAt_place h (agreeAt_advance h ?_)
      refine agrees_seq ih.unary fun right => agrees_seq (ih.tighter _ right) fun right => ?_
      exact agrees_seq agrees_finishExpr fun e => ih.operators least e

private theorem agrees_tighter_succ (op : BinaryOp) (right : Expr) :
    Agrees Parser.Unended (tighter (fuel + 1) op right) := by
  rw [tighter]
  refine agrees_kind (y := pure right) (fun k hk => by rw [ofKind?_of_isEnd hk]) agrees_pure
    fun p p' h => ?_
  split
  · exact agreeAt_pure h.toUnended
  · exact agrees_ite (ih.operators _ right) agrees_pure p p' h.toUnended

private theorem agrees_unary_succ : Agrees Parser.Unended (unary (fuel + 1)) := by
  rw [unary]
  refine agrees_place_kind (fun _ k hk => by rw [signOfKind?_of_isEnd hk]) ih.suffixed
    fun p p' h => ?_
  split
  · exact ih.suffixed p p' h.toUnended
  · refine agreeAt_advance h (agrees_seq ih.unary fun operand => ?_)
    split
    · exact agrees_pure
    · exact agrees_finishExpr

private theorem agrees_suffixes_succ (e : Expr) :
    Agrees Parser.Unended (suffixes (fuel + 1) e) := by
  have finish {place : Location} {build : Tag → Expr} :
      Agrees Parser.Unended (finishExpr place build >>= suffixes fuel) :=
    agrees_seq agrees_finishExpr ih.suffixes
  rw [suffixes]
  refine agrees_place_kind (y := pure e) (fun _ k hk => ?_) agrees_pure fun p p' h => ?_
  · rcases Kind.eq_of_isEnd hk with rfl | rfl | rfl <;> rfl
  · split
    · refine agreeAt_advance h ?_
      split
      · exact agrees_fail
      · refine agrees_seq (ih.arguments _) fun args => ?_
        exact agrees_seq (agrees_expect rfl) fun _ => finish
    · refine agreeAt_advance h (agrees_seq ih.expression fun index => ?_)
      exact agrees_seq (agrees_expect rfl) fun _ => finish
    · exact agreeAt_advance h (agrees_seq agrees_expectName fun field => finish)
    · exact agreeAt_pure h.toUnended

private theorem agrees_arguments_succ (list : ArgumentList) :
    Agrees Parser.Unended (arguments (fuel + 1) list) := by
  rw [arguments]
  exact agrees_test rfl (fun _ _ h _ => agreeAt_pure h.toUnended) (ih.nextArguments list)

private theorem agrees_nextArguments_succ (list : ArgumentList) :
    Agrees Parser.Unended (nextArguments (fuel + 1) list) := by
  have separated (e : Expr) : Agrees Parser.Unended (do
      if (← kind) ≠ .symbol .closeParen then refuse (.argumentSeparator list)
      return [e]) := by
    refine agrees_of_inside (fun p hp => fails_kind ?_) fun p p' h => agreeAt_kind h.level ?_
    · rw [if_pos (Kind.ne_of_isEnd hp rfl)]
      exact fails_bind fails_refuse
    · exact agreeAt_guard (fun _ => fails_refuse) (agreeAt_pure h.toUnended)
  rw [nextArguments]
  refine agrees_test rfl (fun p p' h _ => ?_) ?_
  · exact agreeAt_of_fails (fails_bind fails_refuse) (fails_bind fails_refuse)
  · refine agrees_seq ih.expression fun e => agrees_seq (agrees_accept? rfl) fun more => ?_
    split
    · exact agrees_seq (ih.nextArguments list) fun es => agrees_pure
    · exact separated e

private theorem agrees_primary_succ : Agrees Parser.Unended (primary (fuel + 1)) := by
  refine agrees_of_inside (fun p hp => fails_primary (startsExpr_of_isEnd hp) _) fun p p' h => ?_
  rw [primary]
  refine agreeAt_place h (agreeAt_kind h.level ?_)
  split
  · exact agreeAt_advance h agrees_finishExpr
  · refine agreeAt_advance h (agrees_kind (fun k hk => if_neg fun hopen =>
      Kind.ne_of_isEnd hk rfl hopen.2) agrees_finishExpr fun q q' hq => ?_)
    split
    · refine agreeAt_advance hq (agrees_seq ih.expression fun operand => ?_)
      exact agrees_seq (agrees_expect rfl) fun _ => agrees_finishExpr
    · exact agrees_finishExpr q q' hq.toUnended
  · refine agreeAt_advance h (agrees_seq ih.expression fun e => ?_)
    exact agrees_seq (agrees_expect rfl) fun _ => agrees_pure
  · exact agrees_refuse p p' h.toUnended

end

private theorem exprAgrees (fuel : Nat) : ExprAgrees fuel := by
  induction fuel with
  | zero => constructor <;> intros <;> exact agrees_tooDeep
  | succ fuel ih =>
    exact ⟨agrees_seq ih.unary fun e => ih.operators 0 e, agrees_operators_succ ih,
      agrees_tighter_succ ih, agrees_unary_succ ih, agrees_seq ih.primary ih.suffixes,
      agrees_suffixes_succ ih, agrees_arguments_succ ih, agrees_nextArguments_succ ih,
      agrees_primary_succ ih⟩

theorem agrees_expression (fuel : Nat) : Agrees Parser.Unended (expression fuel) :=
  (exprAgrees fuel).expression

/-! ### Parts of declarations -/

theorem agrees_typeExpr (fuel : Nat) : Agrees Parser.Unended (typeExpr fuel) := by
  induction fuel with
  | zero => exact agrees_tooDeep
  | succ fuel ih =>
    rw [typeExpr]
    refine agrees_seq agrees_expectName fun name => agrees_kind (fun k hk => if_neg fun hopen =>
      Kind.ne_of_isEnd hk rfl hopen.2) agrees_pure fun p p' h => ?_
    split
    · refine agreeAt_advance h (agrees_seq ih fun element => ?_)
      exact agrees_seq (agrees_expect rfl) fun _ => agrees_pure
    · exact agreeAt_pure h.toUnended

theorem agrees_parameters (fuel : Nat) (before : List Binding) :
    Agrees Parser.Unended (parameters fuel before) := by
  induction fuel generalizing before with
  | zero => exact agrees_tooDeep
  | succ fuel ih =>
    rw [parameters]
    refine agrees_named fun place name => agrees_guard (fun _ => fails_fail) ?_
    refine agrees_seq (agrees_expect rfl) fun _ => agrees_seq (agrees_typeExpr fuel) fun type => ?_
    refine agrees_seq (agrees_accept? rfl) fun more => ?_
    split
    · exact ih _
    · exact agrees_test rfl (fun _ _ h _ => agreeAt_pure h.toUnended) agrees_refuse

theorem agrees_prototype (fuel : Nat) : Agrees Parser.Unended (prototype fuel) := by
  refine agrees_named fun place name => agrees_seq (agrees_expect rfl) fun _ => ?_
  have rest (params : List Binding) : Agrees Parser.Unended (do
      expectClose .parameters
      expect (.symbol .arrow) .returnType
      let result ← typeExpr fuel
      return (⟨name, params, result, place⟩ : Prototype)) := by
    refine agrees_seq (agrees_expect rfl) fun _ => agrees_seq (agrees_expect rfl) fun _ => ?_
    exact agrees_seq (agrees_typeExpr fuel) fun result => agrees_pure
  exact agrees_test rfl (fun p p' h _ => rest [] p p' h.toUnended)
    (agrees_seq (agrees_parameters fuel []) rest)

theorem agrees_typeAlias (fuel : Nat) : Agrees Parser.Unended (typeAlias fuel) := by
  refine agrees_named fun place name => agrees_get (fun _ _ h => by rw [h.types]) fun _ => ?_
  refine agrees_guard (fun _ => fails_fail) ?_
  refine agrees_seq (agrees_expect rfl) fun _ => agrees_seq (agrees_typeExpr fuel) fun target => ?_
  refine agrees_seq agrees_expectStatementEnd fun _ => agrees_seq (agrees_note _) fun _ => ?_
  refine agrees_seq (agrees_modify fun p p' h => ?_) fun _ => agrees_pure
  exact h.same rfl rfl rfl rfl rfl rfl h.arena (by rw [h.types])

/-! ### Statements -/

theorem agrees_optionalAfter {mark : Kind} (hmark : mark.isEnd = false) (fuel : Nat) :
    Agrees Parser.Unended (optionalAfter fuel mark) := by
  refine agrees_seq (agrees_accept? hmark) fun more => ?_
  split
  · exact agrees_seq (agrees_expression fuel) fun e => agrees_pure
  · exact agrees_pure

theorem agrees_afterTarget (fuel : Nat) (start : Location) (target : Expr) :
    Agrees Parser.Unended (afterTarget fuel start target) := by
  have value : Agrees Parser.Unended
      (operators fuel 0 target >>= fun value => finishStmt start (.expr · value)) :=
    agrees_seq ((exprAgrees fuel).operators 0 target) fun value => agrees_finishStmt
  rw [afterTarget]
  refine agrees_kind (fun k hk => ?_) value fun p p' h => ?_
  · rcases Kind.eq_of_isEnd hk with rfl | rfl | rfl <;> rfl
  · split
    · split
      · exact agrees_refuse p p' h.toUnended
      · refine agreeAt_advance h (agrees_seq (agrees_typeExpr fuel) fun type => ?_)
        exact agrees_seq (agrees_optionalAfter rfl fuel) fun init => agrees_finishStmt
    · refine agreeAt_guard (fun _ => fails_fail) (agreeAt_advance h ?_)
      exact agrees_seq (agrees_expression fuel) fun value => agrees_finishStmt
    · exact value p p' h.toUnended

theorem agrees_returnStatement (fuel : Nat) (start : Location) :
    Agrees Parser.Unended (returnStatement fuel start) :=
  agrees_get (fun _ _ h => by rw [h.atStatementEnd]) fun _ => agrees_ite agrees_finishStmt
    (agrees_seq (agrees_expression fuel) fun _ => agrees_finishStmt)

theorem agrees_printStatement (fuel : Nat) (start : Location) :
    Agrees Parser.Unended (printStatement fuel start) := by
  refine agrees_seq (agrees_expect rfl) fun _ => ?_
  refine agrees_seq ((exprAgrees fuel).arguments _) fun args => ?_
  exact agrees_seq (agrees_expect rfl) fun _ => agrees_finishStmt

theorem agrees_range (fuel : Nat) : Agrees Parser.Unended (range fuel) := by
  refine agrees_seq agrees_expectName fun counter => agrees_seq (agrees_expect rfl) fun _ => ?_
  refine agrees_seq (agrees_expect rfl) fun _ => agrees_seq (agrees_expect rfl) fun _ => ?_
  refine agrees_seq (agrees_expression fuel) fun start => agrees_seq (agrees_expect rfl) fun _ => ?_
  refine agrees_seq (agrees_expression fuel) fun stop => ?_
  refine agrees_seq (agrees_optionalAfter rfl fuel) fun step => ?_
  exact agrees_seq (agrees_expect rfl) fun _ => agrees_seq (agrees_expect rfl) fun _ => agrees_pure

theorem agrees_pattern (fuel : Nat) (wild : Bool) : Agrees Parser.Unended (pattern fuel wild) := by
  rw [pattern]
  refine agrees_test rfl (fun p p' h _ => ?_)
    (agrees_seq (agrees_expression fuel) fun e => agrees_pure)
  split
  · exact agreeAt_place h (agreeAt_of_fails (fails_bind fails_fail) (fails_bind fails_fail))
  · exact agreeAt_advance h agrees_pure

/-- No statement starts at an end. -/
theorem fails_statement (h : p.current.kind.isEnd) (fuel : Nat) : Fails p (statement fuel) := by
  cases fuel with
  | zero => exact trivial
  | succ fuel =>
    have hvalue {start : Location} :
        Fails p (expression fuel >>= fun value => finishStmt start (.expr · value)) :=
      fails_bind (fails_expression (startsExpr_of_isEnd h) fuel)
    rw [statement]
    refine fails_place fun start => fails_kind ?_
    rcases Kind.eq_of_isEnd h with hk | hk | hk
    all_goals
      rw [hk]
      exact hvalue

/-- Every function that reads a part of a statement reads the same in both parsers. After the lines
of a block both are on tokens of the same kind. -/
private structure StmtAgrees (fuel : Nat) : Prop where
  statement : Agrees Parser.Unended (statement fuel)
  ifStatement p p' : p.Inside p' → AgreeAt p p' Parser.Unended (ifStatement fuel)
  elseSuite : Agrees Parser.Unended (elseSuite fuel)
  suite : Agrees Parser.Unended (suite fuel)
  blockStatements before : Agrees Parser.Level (blockStatements fuel before)
  arms before : Agrees Parser.Level (arms fuel before)

section

variable (ih : StmtAgrees fuel)
include ih

private theorem agreeAt_matchStatement (h : p.Unended p') (start : Location) :
    AgreeAt p p' Parser.Unended (do
      let scrutinee ← expression fuel
      expectColon .matchExpression
      expect .endOfLine (.lineEnd .matchHeader)
      expect .indent (.blockStart .cases)
      let arms ← arms fuel []
      if arms.isEmpty then refuse .matchCase
      expect .dedent (.blockEnd .cases)
      finishStmt start (.select · scrutinee arms)) := by
  refine agreeAt_seq (agrees_expression fuel p p' h) fun scrutinee => ?_
  refine agrees_seq (agrees_expect rfl) fun _ q q' hq => ?_
  rw [← bind_assoc]
  refine agreeAt_seq (agrees_header q q' hq) fun _ r r' hr => ?_
  refine agreeAt_bind (ih.arms [] r r' hr) fun arms s s' hs => ?_
  exact agreeAt_guard (fun _ => fails_refuse) (agreeAt_dedent hs agrees_finishStmt)

private theorem agrees_statement_succ : Agrees Parser.Unended (statement (fuel + 1)) := by
  refine agrees_of_inside (fun p hp => fails_statement hp _) fun p p' h => ?_
  rw [statement]
  refine agreeAt_place h (agreeAt_kind h.level ?_)
  split
  · exact ih.ifStatement p p' h
  · refine agreeAt_advance h (agrees_seq (agrees_range fuel) fun range => ?_)
    exact agrees_seq ih.suite fun body => agrees_finishStmt
  · refine agreeAt_advance h (agrees_seq (agrees_expression fuel) fun condition => ?_)
    refine agrees_seq (agrees_expect rfl) fun _ => ?_
    exact agrees_seq ih.suite fun body => agrees_finishStmt
  · refine agreeAt_advance h (agrees_seq (agrees_expect rfl) fun _ => ?_)
    refine agrees_seq ih.suite fun body => agrees_seq (agrees_expect rfl) fun _ => ?_
    exact agrees_seq (agrees_expression fuel) fun condition => agrees_finishStmt
  · exact agreeAt_advance h fun q q' hq => agreeAt_matchStatement ih hq _
  · exact agreeAt_advance h (agrees_returnStatement fuel _)
  · exact agreeAt_advance h (agrees_printStatement fuel _)
  · exact agreeAt_advance h agrees_finishStmt
  · exact agreeAt_advance h agrees_finishStmt
  · exact agrees_refuse p p' h.toUnended
  · exact agrees_refuse p p' h.toUnended
  · exact agrees_refuse p p' h.toUnended
  · exact agrees_refuse p p' h.toUnended
  · exact agrees_refuse p p' h.toUnended
  · exact agrees_refuse p p' h.toUnended
  · exact agrees_refuse p p' h.toUnended
  · exact agreeAt_seq ((exprAgrees fuel).suffixed p p' h.toUnended) fun target =>
      agrees_afterTarget fuel _ target
  · exact agreeAt_seq (agrees_expression fuel p p' h.toUnended) fun value => agrees_finishStmt

private theorem agreeAt_ifStatement_succ (p p' : Parser) (h : p.Inside p') :
    AgreeAt p p' Parser.Unended (ifStatement (fuel + 1)) := by
  rw [ifStatement]
  refine agreeAt_place h (agreeAt_advance h ?_)
  refine agrees_seq (agrees_expression fuel) fun condition => ?_
  refine agrees_seq (agrees_expect rfl) fun _ => agrees_seq ih.suite fun thenSuite => ?_
  exact agrees_seq ih.elseSuite fun elseSuite => agrees_finishStmt

private theorem agrees_elseSuite_succ : Agrees Parser.Unended (elseSuite (fuel + 1)) := by
  rw [elseSuite]
  refine agrees_place_kind (y := pure none) (fun _ k hk => ?_) agrees_pure fun p p' h => ?_
  · rcases Kind.eq_of_isEnd hk with rfl | rfl | rfl <;> rfl
  · split
    · exact agreeAt_seq (ih.ifStatement p p' h) fun nested => agrees_pure
    · refine agreeAt_advance h (agrees_seq (agrees_expect rfl) fun _ => ?_)
      exact agrees_seq ih.suite fun suite => agrees_pure
    · exact agreeAt_pure h.toUnended

/-- The lines of a body that stands in a block. -/
private theorem agrees_block : Agrees Parser.Unended (do
    let start ← place
    expect .indent (.blockStart .statements)
    let stmts ← blockStatements fuel []
    if stmts.isEmpty then refuse .blockStatement
    expect .dedent (.blockEnd .statements)
    return Suite.mk start stmts) := by
  refine agrees_of_inside (fun p hp => fails_place fun _ => fails_bind (fails_kind ?_))
    fun p p' h => agreeAt_place h ?_
  · rw [if_neg (Kind.ne_of_isEnd hp rfl)]
    exact fails_refuse
  · refine agreeAt_seq (agrees_expect rfl p p' h.toUnended) fun _ q q' hq => ?_
    refine agreeAt_bind (ih.blockStatements [] q q' hq) fun stmts r r' hr => ?_
    exact agreeAt_guard (fun _ => fails_refuse) (agreeAt_dedent hr agrees_pure)

private theorem agrees_suite_succ : Agrees Parser.Unended (suite (fuel + 1)) := by
  intro p p' h
  rw [suite]
  by_cases hline : p.current.kind = .endOfLine
  · have hlevel := h.level_of_endOfLine hline
    refine agreeAt_kind hlevel ?_
    rw [if_pos hline]
    exact agrees_block ih _ _ (hlevel.advance (by rw [hline]; exact Kind.noConfusion)).2.2
  cases hp : p.current.kind.isEnd with
  | false =>
    have hinside : p.Inside p' := ⟨h, hp⟩
    refine agreeAt_kind hinside.level ?_
    rw [if_neg hline]
    exact agreeAt_place hinside (agreeAt_seq (ih.statement p p' h) fun stmt => agrees_pure)
  | true =>
    -- At another end both fail, also where the second one may read a line end first.
    refine agreeAt_of_fails (fails_kind ?_) (fails_kind ?_)
    · rw [if_neg hline]
      exact fails_place fun _ => fails_bind (fails_statement hp fuel)
    · split
      · next hline' =>
        exact fails_advance (fails_place fun _ => fails_indent_lineEnd h hline hline')
      · exact fails_place fun _ => fails_bind (fails_statement (h.isEnd.trans hp) fuel)

private theorem agrees_blockStatements_succ (before : List Stmt) :
    Agrees Parser.Level (blockStatements (fuel + 1) before) := by
  intro p p' h
  rw [blockStatements]
  refine agreeAt_bind (agrees_skipLineEnds p p' h) fun _ q q' hq => agreeAt_get ?_ ?_
  · rw [hq.atBlockEnd]
  · split
    · exact agreeAt_pure hq
    · refine agreeAt_seq (ih.statement q q' hq.toUnended) fun stmt => ?_
      exact agrees_seq agrees_expectStatementEnd fun _ => ih.blockStatements _

private theorem agrees_arms_succ (before : List Arm) :
    Agrees Parser.Level (arms (fuel + 1) before) := by
  intro p p' h
  rw [arms]
  refine agreeAt_bind (agrees_skipLineEnds p p' h) fun _ q q' hq => agreeAt_get ?_ ?_
  · rw [hq.atBlockEnd]
  · split
    · exact agreeAt_pure hq
    · refine agrees_of_inside (fun r hr => fails_place fun _ => fails_bind (fails_kind ?_))
        (fun r r' hr => agreeAt_place hr ?_) q q' hq.toUnended
      · rw [if_neg (Kind.ne_of_isEnd hr rfl)]
        exact fails_refuse
      · refine agreeAt_seq (agrees_expect rfl r r' hr.toUnended) fun _ => ?_
        refine agrees_seq (agrees_pattern fuel _) fun pattern => ?_
        refine agrees_seq (agrees_expect rfl) fun _ => agrees_seq ih.suite fun body => ?_
        exact agrees_seq agrees_expectStatementEnd fun _ => ih.arms _

end

private theorem stmtAgrees (fuel : Nat) : StmtAgrees fuel := by
  induction fuel with
  | zero =>
    exact ⟨agrees_tooDeep, fun p p' h => agrees_tooDeep p p' h.toUnended, agrees_tooDeep,
      agrees_tooDeep, fun _ => agrees_tooDeep, fun _ => agrees_tooDeep⟩
  | succ fuel ih =>
    exact ⟨agrees_statement_succ ih, agreeAt_ifStatement_succ ih, agrees_elseSuite_succ ih,
      agrees_suite_succ ih, agrees_blockStatements_succ ih, agrees_arms_succ ih⟩

theorem agrees_statement (fuel : Nat) : Agrees Parser.Unended (statement fuel) :=
  (stmtAgrees fuel).statement

theorem agrees_suite (fuel : Nat) : Agrees Parser.Unended (suite fuel) := (stmtAgrees fuel).suite

/-! ### Items -/

section

variable {ι : Type} {P : List ι → Parser → Prop} (hP : Parser.Nesting P) {blocks : List ι}
include hP

/-- After a field either both go on with the next one or neither does. -/
private theorem agreeAt_nextField {block : ι} (h : p.Unended p') (hp : P (block :: blocks) p)
    {next : Parse α} (hnext : AgreeAt p p' R next) {expected : Expectation} :
    AgreeAt p p' R (do
      match ← kind with
      | .endOfLine | .dedent => next
      | _ => refuse expected) := by
  have hends {q : Parser} (hq : q.current.kind.isEnd) (hmore : q.current.kind ≠ .endOfInput) :
      (do match ← kind with
          | .endOfLine | .dedent => next
          | _ => refuse expected : Parse α) q = next q := by
    show (match q.current.kind with
      | .endOfLine | .dedent => next
      | _ => refuse expected : Parse α) q = _
    rcases Kind.eq_of_isEnd hq with hk | hk | hk
    · rw [hk]
    · rw [hk]
    · exact absurd hk hmore
  have hmore := hP.inside hp
  cases hinside : p.current.kind.isEnd with
  | true =>
    refine couples_congr (hends hinside hmore) (hends (h.isEnd.trans hinside) ?_) hnext
    rcases h.kind_eq_or with hkind | ⟨n, -, hline, -⟩
    · rwa [hkind]
    · rw [hline]
      exact Kind.noConfusion
  | false =>
    refine agreeAt_kind (Parser.Inside.level ⟨h, hinside⟩) ?_
    split
    · exact hnext
    · exact hnext
    · exact agrees_refuse p p' h

theorem agreeAt_fields {block : ι} (struct : String) (fuel : Nat) (before : List Binding)
    (h : p.Unended p') (hp : P (block :: blocks) p) :
    AgreeAt p p' Parser.Level (fields struct fuel before) := by
  induction fuel generalizing p p' before with
  | zero => exact agrees_tooDeep p p' h
  | succ fuel ih =>
    rw [fields]
    refine agreeAt_bind ((agrees_skipLineEnds p p' h).and (attains_skipLineEnds hP hp)) ?_
    rintro _ q q' ⟨hq, hPq⟩
    refine agreeAt_get (by rw [hq.atBlockEnd]) ?_
    split
    · exact agreeAt_pure hq
    cases hinside : q.current.kind.isEnd with
    | true =>
      have hfails {r : Parser} (hr : r.current.kind.isEnd)
          {f : Location → String → Parse (List Binding)} :
          Fails r (place >>= fun place => expectName .field >>= f place) :=
        fails_place fun _ => fails_bind (fails_expectName hr)
      exact agreeAt_of_fails (hfails hinside) (hfails (hq.isEnd.trans hinside))
    | false =>
      refine agreeAt_place ⟨hq.toUnended, hinside⟩ ?_
      refine agreeAt_bind ((agrees_expectName q q' hq.toUnended).and (attains_expectName hP hPq)) ?_
      rintro name r r' ⟨hr, hPr⟩
      refine agreeAt_guard (fun _ => fails_fail) ?_
      refine agreeAt_bind ((agrees_expect rfl r r' hr).and (attains_expect hP hPr rfl rfl)) ?_
      rintro _ s s' ⟨hs, hPs⟩
      refine agreeAt_bind ((agrees_typeExpr fuel s s' hs).and (attains_typeExpr hP fuel hPs)) ?_
      rintro type t t' ⟨ht, hPt⟩
      exact agreeAt_nextField hP ht hPt (ih _ ht hPt)

/-- The header of a block opens the block. -/
theorem attains_header {expected : Expectation} (hne : expected.endsBlock = false) {block : Block}
    (hp : P blocks p) :
    Attains p (fun q => ∃ b, P (b :: blocks) q)
      (expect .endOfLine expected >>= fun _ => expect .indent (.blockStart block)) := by
  refine attains_seq (attains_expect hP hp rfl hne) fun _ q hq => attains_kind ?_
  split
  · next hk => exact hP.opens hq hk
  · exact attains_refuse rfl

theorem agreeAt_struct (fuel : Nat) (start : Location) (h : p.Unended p') (hp : P blocks p) :
    AgreeAt p p' Parser.Unended (struct fuel start) := by
  cases hinside : p.current.kind.isEnd with
  | true =>
    have hfails {q : Parser} (hq : q.current.kind.isEnd) : Fails q (struct fuel start) :=
      fails_place fun _ => fails_bind (fails_expectName hq)
    exact agreeAt_of_fails (hfails hinside) (hfails (h.isEnd.trans hinside))
  | false =>
    refine agreeAt_place ⟨h, hinside⟩ ?_
    refine agreeAt_bind ((agrees_expectName p p' h).and (attains_expectName hP hp)) ?_
    rintro name q q' ⟨hq, hPq⟩
    refine agreeAt_get (by rw [hq.types]) ?_
    refine agreeAt_guard (fun _ => fails_fail) (agreeAt_guard (fun _ => fails_fail) ?_)
    refine agreeAt_bind ((agrees_expect rfl q q' hq).and (attains_expect hP hPq rfl rfl)) ?_
    rintro _ r r' ⟨hr, hPr⟩
    rw [← bind_assoc]
    refine agreeAt_bind ((agrees_header r r' hr).and (attains_header hP rfl hPr)) ?_
    rintro _ s s' ⟨hs, block, hPs⟩
    refine agreeAt_bind (agreeAt_fields hP name fuel [] hs hPs) fun fields t t' ht => ?_
    refine agreeAt_guard (fun _ => fails_fail) (agreeAt_dedent ht ?_)
    refine agrees_seq (agrees_note _) fun _ => ?_
    refine agrees_seq (agrees_modify fun u u' hu => ?_) fun _ => agrees_pure
    exact hu.same rfl rfl rfl rfl rfl rfl hu.arena (by rw [hu.types])

theorem agreeAt_itemShape (fuel : Nat) (start : Location) (h : p.Inside p') (hp : P blocks p) :
    AgreeAt p p' Parser.Unended (itemShape fuel start) := by
  refine agreeAt_kind h.level ?_
  split
  · refine agreeAt_advance h (agrees_seq (agrees_prototype fuel) fun proto => ?_)
    refine agrees_seq (agrees_expect rfl) fun _ => agrees_seq (agrees_suite fuel) fun body => ?_
    exact agrees_seq (agrees_note _) fun _ => agrees_pure
  · refine agreeAt_advance h (agrees_seq (agrees_expect rfl) fun _ => ?_)
    exact agrees_seq (agrees_prototype fuel) fun proto => agrees_pure
  · exact agreeAt_advance h (agrees_typeAlias fuel)
  · next hk =>
    have hadvance := (h.level.advance (by rw [hk]; exact Kind.noConfusion)).2.2
    exact agreeAt_struct hP fuel start hadvance (hP.plain hp (by rw [hk]; rfl))
  · exact agrees_refuse p p' h.toUnended
  · exact agreeAt_seq (agrees_statement fuel p p' h.toUnended) fun stmt => agrees_pure

/-- An item is read in the same way in both where no block is open. -/
theorem agreeAt_item (outside : ∀ q, P [] q → q.current.kind ≠ .dedent) (fuel : Nat)
    (h : p.Inside p') (hp : P [] p) : AgreeAt p p' Parser.Unended (item fuel) := by
  refine agreeAt_place h ?_
  refine agreeAt_bind ((agreeAt_itemShape hP fuel _ h hp).and (attains_itemShape hP fuel hp _)) ?_
  rintro shape q q' ⟨hq, hPq⟩
  refine agreeAt_get (by rw [hq.atItemEnd (outside q hPq)]) ?_
  exact agreeAt_guard (fun _ => fails_refuse) (agreeAt_pure hq)

end

end Parse

/-- With the bounds on the depth that the two parsers start with, an item is read in the same way in
both where no block is open. -/
theorem Parser.Inside.couples_item {ι : Type} {P : List ι → Parser → Prop} {p p' : Parser}
    (h : p.Inside p') (hP : Parser.Nesting P) (outside : ∀ q, P [] q → q.current.kind ≠ .dedent)
    (hp : P [] p) (bounded : p.Bounded) :
    Couples p p' (Parse.item p.fuel) (Parse.item p'.fuel)
      (fun item q item' q' => item' = item ∧ q.Unended q') fun _ _ _ _ => True := by
  -- The first parser reads the same with the bound of the second one, which is not lower.
  have enough : p.Enough 5 p'.fuel := by
    refine (p'.enough_fuel.weaken (by omega)).mono ?_
    rw [length_kinds, length_kinds]
    exact Nat.succ_le_succ h.length_le
  have hsame : Couples p p (Parse.item p.fuel) (Parse.item p'.fuel)
      (fun item q item' q' => item' = item ∧ Replays q q') fun _ _ _ _ => True := by
    have hdeep {fuel : Nat} (hfuel : p.Enough 5 fuel) :
        Yields p (Parse.item fuel) (fun _ _ => True) fun e _ => e ≠ .tooDeep :=
      Yields.mono (Parse.fits_item_of_enough bounded hfuel) (fun _ _ _ => trivial) fun _ _ he => he
    exact couples_self Item.relocate_id (Parse.tracks_item _ _)
      (hdeep (p.enough_fuel.weaken (by omega))) (hdeep enough)
  refine (hsame.trans (Parse.agreeAt_item hP outside p'.fuel h hp)).mono ?_ fun _ _ _ _ _ => trivial
  rintro item q _ q' ⟨_, r, ⟨rfl, hr⟩, rfl, hq⟩
  exact ⟨rfl, hq.same hr.current.symm hr.rest.symm hr.afterDedent.symm rfl rfl rfl
    (hq.arena.trans hr.arena) (hq.types.trans hr.types)⟩

end Offside
