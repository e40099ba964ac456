import Offside.Proofs.Parser.Numbered
import Offside.Proofs.Token.Ordinary
import Offside.Proofs.Tree.Named

/-!
# Reading names

Whatever is read has its names from identifier tokens, and those are names. So the trees that come
out of reading have names, and so have the structs that are declared, whether or not the item that
declares them is read to its end.

## Main definitions

* `Offside.Parser.Named`: the identifier tokens to come and the declared structs have names.
* `Offside.Parse.Names`: computations that keep it, and whose results have names.

## Main results

* `Offside.Parse.names_item`: reading an item is one.
* `Offside.Parser.named_parseItem`: so is reading with recovery.
-/

namespace Offside

namespace Parser

/-- The identifier tokens to come are names, and structs are declared with names. -/
structure Named (p : Parser) : Prop where
  kinds : ∀ kind ∈ p.kinds, kind.Named
  types : p.types.Named

/-- Parsers that keep the names of the earlier one. -/
def KeepsNamed (p q : Parser) : Prop := p.Named → q.Named

theorem named_of_kinds {p q : Parser} (h : p.Named) (kinds : q.kinds ⊆ p.kinds)
    (types : q.types = p.types) : q.Named :=
  ⟨fun kind hkind => h.kinds kind (kinds hkind), types ▸ h.types⟩

instance : Frame KeepsNamed where
  refl _ := id
  trans _ _ _ h k := k ∘ h
  advance p h := named_of_kinds h (TokenFrame.advance (R := ReadsOn) p).kinds_subset
    p.types_advance
  note _ _ h := ⟨h.kinds, h.types⟩
  addExpr _ _ _ h := ⟨h.kinds, h.types⟩
  addStmt _ _ _ h := ⟨h.kinds, h.types⟩

theorem named_ofLexer (lexer : Lexer) : (ofLexer lexer).Named := by
  refine ⟨fun kind hkind => ?_, TypeEnv.named_initial⟩
  rcases List.mem_cons.1 hkind with rfl | hkind
  · rintro _ ⟨⟩
  · obtain ⟨x, hx, rfl⟩ := List.mem_map.1 hkind
    exact Lexer.named_of_mem_lexemes hx

end Parser

namespace Parse

open Nodes

variable {α β : Type} {P : α → Prop} {Q : β → Prop}

/-- If the tokens to come and the declared structs have names then so it is after `x`, and if `x`
succeeds then its result has the property `P`. -/
def Names (P : α → Prop) (x : Parse α) : Prop :=
  ∀ p : Parser, p.Named → Yields p x (fun a q => q.Named ∧ P a) fun _ q => q.Named

theorem Names.mono {P' : α → Prop} {x : Parse α} (h : Names P x) (hP : ∀ a, P a → P' a) :
    Names P' x := fun p hp =>
  (h p hp).mono (fun a _ ha => ⟨ha.1, hP a ha.2⟩) fun _ _ => id

theorem names_bind {x : Parse α} {f : α → Parse β} (hx : Names P x)
    (hf : ∀ a, P a → Names Q (f a)) : Names Q (x >>= f) := fun p hp =>
  yields_bind ((hx p hp).mono (fun a q ha => hf a ha.2 q ha.1) fun _ _ => id)

theorem names_of_ensures {x : Parse α} (hx : Ensures Parser.KeepsNamed P x) : Names P x :=
  fun p hp => (hx p).yields (fun _ _ hq ha => ⟨hq hp, ha⟩) fun _ _ hq => hq hp

/-- What only reads on may come first. -/
theorem names_seq {x : Parse α} {f : α → Parse β} {R : α → Prop}
    (hx : Ensures Parser.KeepsNamed R x) (hf : ∀ a, Names Q (f a)) : Names Q (x >>= f) :=
  names_bind (names_of_ensures hx) fun a _ => hf a

theorem names_absurd {x : Parse α} (hx : Ensures Parser.KeepsNamed (fun _ => False) x) :
    Names P x := (names_of_ensures hx).mono fun _ hf => hf.elim

theorem names_guard {c : Prop} [Decidable c] {x : Parse α} {y : Parse β}
    (hx : Ensures Parser.KeepsNamed (fun _ => False) x) (hy : ¬ c → Names Q y) :
    Names Q (if c then x >>= fun _ => y else y) := by
  split
  · exact names_absurd (ensures_absurd hx)
  · exact hy ‹_›

theorem names_pure {a : α} (ha : P a) : Names P (pure a) := fun _ hp => ⟨hp, ha⟩

theorem names_throw (e : Failure) : Names P (throw e) := fun _ hp => hp

/-- The current token is a name if it is an identifier. -/
theorem names_kind {f : Kind → Parse β} (hf : ∀ k : Kind, k.Named → Names Q (f k)) :
    Names Q (kind >>= f) := fun p hp =>
  hf p.current.kind (hp.kinds _ List.mem_cons_self) p hp

theorem names_expectName (naming : Naming) : Names IsName (expectName naming) := by
  refine names_kind fun kind hkind => ?_
  split
  · exact names_seq ensures_advance fun _ => names_pure (hkind _ rfl)
  · exact names_absurd (ensures_refuse _)

theorem names_finishExpr {place : Location} {build : Tag → Expr} {children : List Expr}
    (hbelow : (ofExprs children).Named) (hchildren : ∀ tag, (build tag).children = children)
    (hown : ∀ tag, (build tag).Named) :
    Names (fun e => (ofExprs [e]).Named) (finishExpr place build) := by
  refine names_of_ensures fun p => ⟨Parser.Frame.addExpr p place build, ?_⟩
  exact each_ofExpr.2 ⟨(hchildren _).symm ▸ hbelow, hown _⟩

theorem names_finishStmt {place : Location} {build : Tag → Stmt} {inside : Nodes}
    (hbelow : inside.Named) (hinside : ∀ tag, (build tag).inside = inside)
    (hown : ∀ tag, (build tag).Named) :
    Names (fun s => s.nodes.Named) (finishStmt place build) :=
  names_of_ensures (ensures_finishStmt place build fun tag =>
    each_nodes.2 ⟨(hinside tag).symm ▸ hbelow, hown tag⟩)

/-! ### Declarations -/

theorem writable_ofName {name : String} (h : IsName name) : (TypeExpr.ofName name).Writable := by
  rw [TypeExpr.ofName]
  split
  · exact trivial
  · exact ⟨h, ‹_›⟩

theorem names_typeExpr (fuel : Nat) : Names TypeExpr.Writable (typeExpr fuel) := by
  induction fuel with
  | zero => exact names_throw _
  | succ fuel ih =>
    rw [typeExpr]
    refine names_bind (names_expectName _) fun name hname => ?_
    refine names_kind fun kind _ => ?_
    split
    · refine names_seq ensures_advance fun _ => ?_
      refine names_bind ih fun element helement => ?_
      exact names_seq (ensures_expect _ _) fun _ => names_pure helement
    · exact names_pure (writable_ofName hname)

/-- Parameters or fields with names. -/
private abbrev NamedAll (bindings : List Binding) : Prop := ∀ b ∈ bindings, b.Named

private theorem NamedAll.concat {before : List Binding} (h : NamedAll before) {name : String}
    {type : TypeExpr} (hname : IsName name) (htype : type.Writable) :
    NamedAll (before ++ [⟨name, type⟩]) :=
  List.forall_mem_append.2 ⟨h, List.forall_mem_singleton.2 ⟨hname, htype⟩⟩

theorem names_parameters (fuel : Nat) {before : List Binding} (h : NamedAll before) :
    Names NamedAll (parameters fuel before) := by
  induction fuel generalizing before with
  | zero => exact names_throw _
  | succ fuel ih =>
    rw [parameters]
    refine names_seq ensures_place fun place => ?_
    refine names_bind (names_expectName _) fun name hname => ?_
    refine names_guard (ensures_fail _ _) fun _ => ?_
    refine names_seq (ensures_expect _ _) fun _ => ?_
    refine names_bind (names_typeExpr fuel) fun type htype => ?_
    have hadd := h.concat hname htype
    refine names_seq (ensures_accept? _) fun more => ?_
    split
    · exact ih hadd
    · refine names_kind fun kind _ => ?_
      split
      · exact names_pure hadd
      · exact names_absurd (ensures_refuse _)

theorem names_prototype (fuel : Nat) : Names Prototype.Named (prototype fuel) := by
  refine names_seq ensures_place fun place => ?_
  refine names_bind (names_expectName _) fun name hname => ?_
  refine names_seq (ensures_expect _ _) fun _ => ?_
  refine names_kind fun kind _ => ?_
  have rest {params : List Binding} (hparams : NamedAll params) :
      Names Prototype.Named (do
        expectClose .parameters
        expect (.symbol .arrow) .returnType
        let result ← typeExpr fuel
        return (⟨name, params, result, place⟩ : Prototype)) := by
    refine names_seq (ensures_expect _ _) fun _ => ?_
    refine names_seq (ensures_expect _ _) fun _ => ?_
    exact names_bind (names_typeExpr fuel) fun result hresult =>
      names_pure ⟨hname, hparams, hresult⟩
  have none : NamedAll [] := fun _ hb => absurd hb List.not_mem_nil
  split
  · exact rest none
  · exact names_bind (names_parameters fuel none) fun params => rest

theorem names_typeAlias (fuel : Nat) : Names Item.Shape.Named (typeAlias fuel) := by
  refine names_seq ensures_place fun place => ?_
  refine names_bind (names_expectName _) fun name hname => ?_
  refine names_seq ensures_get fun p => ?_
  refine names_guard (ensures_fail _ _) fun _ => ?_
  refine names_seq (ensures_expect _ _) fun _ => ?_
  refine names_bind (names_typeExpr fuel) fun target htarget => ?_
  refine names_seq (ensures_expectStatementEnd _) fun _ => ?_
  refine names_seq (ensures_note _) fun _ => ?_
  refine names_seq (R := fun _ => True) (ensures_modify fun p hp => ?_) fun _ =>
    names_pure ⟨hname, htarget⟩
  exact ⟨hp.kinds, hp.types.declareAlias name target⟩

theorem names_fields (struct : String) (fuel : Nat) {before : List Binding} (h : NamedAll before) :
    Names NamedAll (fields struct fuel before) := by
  induction fuel generalizing before with
  | zero => exact names_throw _
  | succ fuel ih =>
    rw [fields]
    refine names_seq (ensures_modify Parser.Frame.skipLineEnds) fun _ => ?_
    refine names_seq ensures_get fun p => ?_
    split
    · exact names_pure h
    · refine names_seq ensures_place fun place => ?_
      refine names_bind (names_expectName _) fun name hname => ?_
      refine names_guard (ensures_fail _ _) fun _ => ?_
      refine names_seq (ensures_expect _ _) fun _ => ?_
      refine names_bind (names_typeExpr fuel) fun type htype => ?_
      refine names_kind fun kind _ => ?_
      split
      · exact ih (h.concat hname htype)
      · exact ih (h.concat hname htype)
      · exact names_absurd (ensures_refuse _)

theorem names_struct (fuel : Nat) (start : Location) :
    Names Item.Shape.Named (struct fuel start) := by
  refine names_seq ensures_place fun place => ?_
  refine names_bind (names_expectName _) fun name hname => ?_
  refine names_seq ensures_get fun p => ?_
  refine names_guard (ensures_fail _ _) fun _ => ?_
  refine names_guard (ensures_fail _ _) fun _ => ?_
  refine names_seq (ensures_expect _ _) fun _ => ?_
  refine names_seq (ensures_expect _ _) fun _ => ?_
  refine names_seq (ensures_expect _ _) fun _ => ?_
  refine names_bind (names_fields name fuel fun _ hb => absurd hb List.not_mem_nil)
    fun fields hfields => ?_
  refine names_guard (ensures_fail _ _) fun _ => ?_
  refine names_seq (ensures_expect _ _) fun _ => ?_
  refine names_seq (ensures_note _) fun _ => ?_
  refine names_seq (R := fun _ => True) (ensures_modify fun p hp => ?_) fun _ => names_pure hname
  exact ⟨hp.kinds, hp.types.declareStruct ⟨hname, hfields⟩⟩

/-! ### Expressions -/

/-- An expression with names. -/
private abbrev NamedExpr (e : Expr) : Prop := (ofExprs [e]).Named

/-- Expressions with names. -/
private abbrev NamedExprs (es : List Expr) : Prop := (ofExprs es).Named

private theorem NamedExpr.name {e : Expr} (h : NamedExpr e) {name : String}
    (hname : e.plainName? = some name) : IsName name := by
  cases e <;> cases hname
  exact (each_ofExpr.1 h).2

private theorem NamedExpr.cons {e : Expr} {es : List Expr} (h : NamedExpr e) (hs : NamedExprs es) :
    NamedExprs (e :: es) := each_ofExprs_cons.2 ⟨h, hs⟩

/-- Every function that reads a part of an expression yields expressions with names. -/
private structure ExprNames (fuel : Nat) : Prop where
  expression : Names NamedExpr (expression fuel)
  operators least {left} (h : NamedExpr left) : Names NamedExpr (operators fuel least left)
  tighter op {right} (h : NamedExpr right) : Names NamedExpr (tighter fuel op right)
  unary : Names NamedExpr (unary fuel)
  suffixed : Names NamedExpr (suffixed fuel)
  suffixes {e} (h : NamedExpr e) : Names NamedExpr (suffixes fuel e)
  arguments list : Names NamedExprs (arguments fuel list)
  nextArguments list : Names NamedExprs (nextArguments fuel list)
  primary : Names NamedExpr (primary fuel)

section

variable {fuel : Nat} (ih : ExprNames fuel)
include ih

private theorem names_expression_succ : Names NamedExpr (expression (fuel + 1)) := by
  rw [expression]
  exact names_bind ih.unary fun e => ih.operators 0

private theorem names_operators_succ (least : Nat) {left : Expr} (h : NamedExpr left) :
    Names NamedExpr (operators (fuel + 1) least left) := by
  rw [operators]
  refine names_kind fun kind _ => ?_
  split
  · exact names_pure h
  · split
    · exact names_pure h
    · refine names_seq ensures_place fun place => ?_
      refine names_seq ensures_advance fun _ => ?_
      refine names_bind ih.unary fun right hright => ?_
      refine names_bind (ih.tighter _ hright) fun right hright => ?_
      exact names_bind (names_finishExpr (h.cons hright) (fun _ => rfl) fun _ => trivial)
        fun e => ih.operators _

private theorem names_tighter_succ (op : BinaryOp) {right : Expr} (h : NamedExpr right) :
    Names NamedExpr (tighter (fuel + 1) op right) := by
  rw [tighter]
  refine names_kind fun kind _ => ?_
  split
  · exact names_pure h
  · split
    · exact ih.operators _ h
    · exact names_pure h

private theorem names_unary_succ : Names NamedExpr (unary (fuel + 1)) := by
  rw [unary]
  refine names_seq ensures_place fun place => ?_
  refine names_kind fun kind _ => ?_
  split
  · exact ih.suffixed
  · refine names_seq ensures_advance fun _ => ?_
    refine names_bind ih.unary fun operand hoperand => ?_
    split
    · exact names_pure hoperand
    · exact names_finishExpr hoperand (fun _ => rfl) fun _ => trivial

private theorem names_suffixed_succ : Names NamedExpr (suffixed (fuel + 1)) := by
  rw [suffixed]
  exact names_bind ih.primary fun e => ih.suffixes

private theorem names_suffixes_succ {e : Expr} (h : NamedExpr e) :
    Names NamedExpr (suffixes (fuel + 1) e) := by
  rw [suffixes]
  refine names_seq ensures_place fun place => ?_
  refine names_kind fun kind _ => ?_
  split
  · refine names_seq ensures_advance fun _ => ?_
    split
    · exact names_absurd (ensures_fail _ _)
    · next callee hcallee =>
      refine names_bind (ih.arguments _) fun args hargs => ?_
      refine names_seq (ensures_expect _ _) fun _ => ?_
      exact names_bind (names_finishExpr hargs (fun _ => rfl) fun _ => h.name hcallee)
        fun e => ih.suffixes
  · refine names_seq ensures_advance fun _ => ?_
    refine names_bind ih.expression fun index hindex => ?_
    refine names_seq (ensures_expect _ _) fun _ => ?_
    exact names_bind (names_finishExpr (h.cons hindex) (fun _ => rfl) fun _ => trivial)
      fun e => ih.suffixes
  · refine names_seq ensures_advance fun _ => ?_
    refine names_bind (names_expectName _) fun field hfield => ?_
    exact names_bind (names_finishExpr h (fun _ => rfl) fun _ => hfield) fun e => ih.suffixes
  · exact names_pure h

private theorem names_arguments_succ (list : ArgumentList) :
    Names NamedExprs (arguments (fuel + 1) list) := by
  rw [arguments]
  refine names_kind fun kind _ => ?_
  split
  · exact names_pure each_empty
  · exact ih.nextArguments list

private theorem names_nextArguments_succ (list : ArgumentList) :
    Names NamedExprs (nextArguments (fuel + 1) list) := by
  rw [nextArguments]
  refine names_kind fun kind _ => ?_
  refine names_guard (ensures_refuse _) fun _ => ?_
  refine names_bind ih.expression fun e he => ?_
  refine names_seq (ensures_accept? _) fun more => ?_
  split
  · exact names_bind (ih.nextArguments list) fun es hes => names_pure (he.cons hes)
  · refine names_kind fun kind _ => ?_
    exact names_guard (ensures_refuse _) fun _ => names_pure he

private theorem names_primary_succ : Names NamedExpr (primary (fuel + 1)) := by
  rw [primary]
  refine names_seq ensures_place fun place => ?_
  refine names_kind fun kind hkind => ?_
  split
  · refine names_seq ensures_advance fun _ => ?_
    exact names_finishExpr each_empty (fun _ => rfl) fun _ => trivial
  · next name =>
    refine names_seq ensures_advance fun _ => ?_
    refine names_kind fun kind _ => ?_
    split
    · refine names_seq ensures_advance fun _ => ?_
      refine names_bind ih.expression fun operand hoperand => ?_
      refine names_seq (ensures_expect _ _) fun _ => ?_
      exact names_finishExpr hoperand (fun _ => rfl) fun _ => trivial
    · exact names_finishExpr each_empty (fun _ => rfl) fun _ => hkind name rfl
  · refine names_seq ensures_advance fun _ => ?_
    refine names_bind ih.expression fun e he => ?_
    exact names_seq (ensures_expect _ _) fun _ => names_pure he
  · exact names_absurd (ensures_refuse _)

end

private theorem exprNames (fuel : Nat) : ExprNames fuel := by
  induction fuel with
  | zero => constructor <;> intros <;> exact names_throw _
  | succ fuel ih =>
    exact ⟨names_expression_succ ih, fun least _ => names_operators_succ ih least,
      fun op _ => names_tighter_succ ih op, names_unary_succ ih, names_suffixed_succ ih,
      names_suffixes_succ ih, names_arguments_succ ih, names_nextArguments_succ ih,
      names_primary_succ ih⟩

private theorem names_expression (fuel : Nat) : Names NamedExpr (expression fuel) :=
  (exprNames fuel).expression

/-! ### Parts of statements -/

private theorem names_optionalAfter (fuel : Nat) (mark : Kind) :
    Names (fun e => NamedExprs e.toList) (optionalAfter fuel mark) := by
  refine names_seq (ensures_accept? _) fun more => ?_
  split
  · exact names_bind (names_expression fuel) fun e he => names_pure he
  · exact names_pure each_empty

private theorem names_afterTarget (fuel : Nat) (start : Location) {target : Expr}
    (h : NamedExpr target) : Names (fun s => s.nodes.Named) (afterTarget fuel start target) := by
  refine names_kind fun kind _ => ?_
  split
  · split
    · exact names_absurd (ensures_refuse _)
    · next name hname =>
      refine names_seq ensures_advance fun _ => ?_
      refine names_bind (names_typeExpr fuel) fun type htype => ?_
      refine names_bind (names_optionalAfter fuel _) fun init hinit => ?_
      exact names_finishStmt hinit (fun _ => rfl) fun _ => ⟨h.name hname, htype⟩
  · refine names_guard (ensures_fail _ _) fun _ => ?_
    refine names_seq ensures_advance fun _ => ?_
    refine names_bind (names_expression fuel) fun value hvalue => ?_
    exact names_finishStmt (h.cons hvalue) (fun _ => rfl) fun _ => trivial
  · refine names_bind ((exprNames fuel).operators 0 h) fun value hvalue => ?_
    exact names_finishStmt hvalue (fun _ => rfl) fun _ => trivial

private theorem names_returnStatement (fuel : Nat) (start : Location) :
    Names (fun s => s.nodes.Named) (returnStatement fuel start) := by
  refine names_seq ensures_get fun p => ?_
  split
  · exact names_finishStmt each_empty (fun _ => rfl) fun _ => trivial
  · refine names_bind (names_expression fuel) fun value hvalue => ?_
    exact names_finishStmt hvalue (fun _ => rfl) fun _ => trivial

private theorem names_printStatement (fuel : Nat) (start : Location) :
    Names (fun s => s.nodes.Named) (printStatement fuel start) := by
  refine names_seq (ensures_expect _ _) fun _ => ?_
  refine names_bind ((exprNames fuel).arguments _) fun args hargs => ?_
  refine names_seq (ensures_expect _ _) fun _ => ?_
  exact names_finishStmt hargs (fun _ => rfl) fun _ => trivial

/-- The header of a counting loop with names. -/
private structure Range.Named (r : Range) : Prop where
  counter : IsName r.counter
  exprs : NamedExprs ([r.start, r.stop] ++ r.step.toList)

private theorem names_range (fuel : Nat) : Names Range.Named (range fuel) := by
  refine names_bind (names_expectName _) fun counter hcounter => ?_
  refine names_seq (ensures_expect _ _) fun _ => ?_
  refine names_seq (ensures_expect _ _) fun _ => ?_
  refine names_seq (ensures_expect _ _) fun _ => ?_
  refine names_bind (names_expression fuel) fun start hstart => ?_
  refine names_seq (ensures_expect _ _) fun _ => ?_
  refine names_bind (names_expression fuel) fun stop hstop => ?_
  refine names_bind (names_optionalAfter fuel _) fun step hstep => ?_
  refine names_seq (ensures_expect _ _) fun _ => ?_
  exact names_seq (ensures_expect _ _) fun _ =>
    names_pure ⟨hcounter, hstart.cons (hstop.cons hstep)⟩

private theorem names_pattern (fuel : Nat) (wild : Bool) :
    Names (fun pattern => NamedExprs pattern.exprs) (pattern fuel wild) := by
  refine names_kind fun kind _ => ?_
  split
  · split
    · exact names_seq ensures_place fun place => names_absurd (ensures_absurd (ensures_fail _ _))
    · exact names_seq ensures_advance fun _ => names_pure each_empty
  · exact names_bind (names_expression fuel) fun value hvalue => names_pure hvalue

/-! ### Statements -/

/-- A statement with names. -/
private abbrev NamedStmt (s : Stmt) : Prop := s.nodes.Named

/-- Every function that reads a part of a statement yields statements with names. -/
private structure StmtNames (fuel : Nat) : Prop where
  statement : Names NamedStmt (statement fuel)
  ifStatement : Names NamedStmt (ifStatement fuel)
  elseSuite : Names (fun suite => (Suite.nodesElse suite).Named) (elseSuite fuel)
  suite : Names (fun suite => suite.nodes.Named) (suite fuel)
  blockStatements {before} (h : (Stmt.nodesAll before).Named) :
    Names (fun ss => (Stmt.nodesAll ss).Named) (blockStatements fuel before)
  arms {before} (h : (Arm.nodesAll before).Named) :
    Names (fun arms => (Arm.nodesAll arms).Named) (arms fuel before)

private theorem NamedStmt.singleton {s : Stmt} (h : NamedStmt s) : (Stmt.nodesAll [s]).Named :=
  each_append.2 ⟨h, each_empty⟩

section

variable {fuel : Nat} (ih : StmtNames fuel)
include ih

private theorem names_statement_succ : Names NamedStmt (statement (fuel + 1)) := by
  rw [statement]
  refine names_seq ensures_place fun start => ?_
  refine names_kind fun kind _ => ?_
  split
  · exact ih.ifStatement
  · refine names_seq ensures_advance fun _ => ?_
    refine names_bind (names_range fuel) fun range hrange => ?_
    refine names_bind ih.suite fun body hbody => ?_
    exact names_finishStmt (each_append.2 ⟨hrange.exprs, hbody⟩) (fun _ => rfl)
      fun _ => hrange.counter
  · refine names_seq ensures_advance fun _ => ?_
    refine names_bind (names_expression fuel) fun condition hcondition => ?_
    refine names_seq (ensures_expect _ _) fun _ => ?_
    refine names_bind ih.suite fun body hbody => ?_
    exact names_finishStmt (each_append.2 ⟨hcondition, hbody⟩) (fun _ => rfl) fun _ => trivial
  · refine names_seq ensures_advance fun _ => ?_
    refine names_seq (ensures_expect _ _) fun _ => ?_
    refine names_bind ih.suite fun body hbody => ?_
    refine names_seq (ensures_expect _ _) fun _ => ?_
    refine names_bind (names_expression fuel) fun condition hcondition => ?_
    exact names_finishStmt (each_append.2 ⟨hbody, hcondition⟩) (fun _ => rfl) fun _ => trivial
  · refine names_seq ensures_advance fun _ => ?_
    refine names_bind (names_expression fuel) fun scrutinee hscrutinee => ?_
    refine names_seq (ensures_expect _ _) fun _ => ?_
    refine names_seq (ensures_expect _ _) fun _ => ?_
    refine names_seq (ensures_expect _ _) fun _ => ?_
    refine names_bind (ih.arms each_empty) fun arms harms => ?_
    refine names_guard (ensures_refuse _) fun _ => ?_
    refine names_seq (ensures_expect _ _) fun _ => ?_
    exact names_finishStmt (each_append.2 ⟨hscrutinee, harms⟩) (fun _ => rfl) fun _ => trivial
  · exact names_seq ensures_advance fun _ => names_returnStatement fuel start
  · exact names_seq ensures_advance fun _ => names_printStatement fuel start
  · refine names_seq ensures_advance fun _ => ?_
    exact names_finishStmt each_empty (fun _ => rfl) fun _ => trivial
  · refine names_seq ensures_advance fun _ => ?_
    exact names_finishStmt each_empty (fun _ => rfl) fun _ => trivial
  any_goals exact names_absurd (ensures_refuse _)
  · exact names_bind (exprNames fuel).suffixed fun target => names_afterTarget fuel start
  · refine names_bind (names_expression fuel) fun value hvalue => ?_
    exact names_finishStmt hvalue (fun _ => rfl) fun _ => trivial

private theorem names_ifStatement_succ : Names NamedStmt (ifStatement (fuel + 1)) := by
  rw [ifStatement]
  refine names_seq ensures_place fun start => ?_
  refine names_seq ensures_advance fun _ => ?_
  refine names_bind (names_expression fuel) fun condition hcondition => ?_
  refine names_seq (ensures_expect _ _) fun _ => ?_
  refine names_bind ih.suite fun thenSuite hthen => ?_
  refine names_bind ih.elseSuite fun elseSuite helse => ?_
  exact names_finishStmt (each_append.2 ⟨each_append.2 ⟨hcondition, hthen⟩, helse⟩)
    (fun _ => rfl) fun _ => trivial

private theorem names_elseSuite_succ :
    Names (fun suite => (Suite.nodesElse suite).Named) (elseSuite (fuel + 1)) := by
  rw [elseSuite]
  refine names_seq ensures_place fun start => ?_
  refine names_kind fun kind _ => ?_
  split
  · exact names_bind ih.ifStatement fun nested hnested => names_pure hnested.singleton
  · refine names_seq ensures_advance fun _ => ?_
    refine names_seq (ensures_expect _ _) fun _ => ?_
    exact names_bind ih.suite fun suite hsuite => names_pure hsuite
  · exact names_pure each_empty

private theorem names_suite_succ : Names (fun suite => suite.nodes.Named) (suite (fuel + 1)) := by
  rw [suite]
  refine names_kind fun kind _ => ?_
  split
  · refine names_seq ensures_advance fun _ => ?_
    refine names_seq ensures_place fun start => ?_
    refine names_seq (ensures_expect _ _) fun _ => ?_
    refine names_bind (ih.blockStatements each_empty) fun stmts hstmts => ?_
    refine names_guard (ensures_refuse _) fun _ => ?_
    exact names_seq (ensures_expect _ _) fun _ => names_pure hstmts
  · refine names_seq ensures_place fun start => ?_
    exact names_bind ih.statement fun stmt hstmt => names_pure hstmt.singleton

private theorem names_blockStatements_succ {before : List Stmt}
    (h : (Stmt.nodesAll before).Named) :
    Names (fun ss => (Stmt.nodesAll ss).Named) (blockStatements (fuel + 1) before) := by
  rw [blockStatements]
  refine names_seq (ensures_modify Parser.Frame.skipLineEnds) fun _ => ?_
  refine names_seq ensures_get fun p => ?_
  split
  · exact names_pure h
  · refine names_bind ih.statement fun stmt hstmt => ?_
    refine names_seq (ensures_expectStatementEnd _) fun _ => ?_
    refine ih.blockStatements ?_
    rw [Stmt.nodesAll_append]
    exact each_append.2 ⟨h, hstmt.singleton⟩

private theorem names_arms_succ {before : List Arm} (h : (Arm.nodesAll before).Named) :
    Names (fun arms => (Arm.nodesAll arms).Named) (arms (fuel + 1) before) := by
  rw [arms]
  refine names_seq (ensures_modify Parser.Frame.skipLineEnds) fun _ => ?_
  refine names_seq ensures_get fun p => ?_
  split
  · exact names_pure h
  · refine names_seq ensures_place fun start => ?_
    refine names_seq (ensures_expect _ _) fun _ => ?_
    refine names_bind (names_pattern fuel _) fun pattern hpattern => ?_
    refine names_seq (ensures_expect _ _) fun _ => ?_
    refine names_bind ih.suite fun body hbody => ?_
    refine names_seq (ensures_expectStatementEnd _) fun _ => ?_
    refine ih.arms ?_
    rw [Arm.nodesAll_append]
    exact each_append.2 ⟨h, each_append.2 ⟨each_append.2 ⟨hpattern, hbody⟩, each_empty⟩⟩

end

private theorem stmtNames (fuel : Nat) : StmtNames fuel := by
  induction fuel with
  | zero => constructor <;> intros <;> exact names_throw _
  | succ fuel ih =>
    exact ⟨names_statement_succ ih, names_ifStatement_succ ih, names_elseSuite_succ ih,
      names_suite_succ ih, names_blockStatements_succ ih, names_arms_succ ih⟩

/-! ### Items -/

private theorem names_itemShape (fuel : Nat) (start : Location) :
    Names Item.Shape.Named (itemShape fuel start) := by
  refine names_kind fun kind _ => ?_
  split
  · refine names_seq ensures_advance fun _ => ?_
    refine names_bind (names_prototype fuel) fun proto hproto => ?_
    refine names_seq (ensures_expect _ _) fun _ => ?_
    refine names_bind (stmtNames fuel).suite fun body hbody => ?_
    exact names_seq (ensures_note _) fun _ => names_pure ⟨hproto, hbody⟩
  · refine names_seq ensures_advance fun _ => ?_
    refine names_seq (ensures_expect _ _) fun _ => ?_
    exact names_bind (names_prototype fuel) fun proto hproto => names_pure hproto
  · exact names_seq ensures_advance fun _ => names_typeAlias fuel
  · exact names_seq ensures_advance fun _ => names_struct fuel start
  · exact names_absurd (ensures_refuse _)
  · exact names_bind (stmtNames fuel).statement fun stmt hstmt => names_pure hstmt

/-- What is read as an item has names. -/
theorem names_item (fuel : Nat) : Names (fun item => item.shape.Named) (item fuel) := by
  refine names_seq ensures_place fun start => ?_
  refine names_bind (names_itemShape fuel start) fun shape hshape => ?_
  refine names_seq ensures_get fun p => ?_
  exact names_guard (ensures_refuse _) fun _ => names_pure hshape

end Parse

namespace Parser

variable {p : Parser}

/-- Reading an item keeps names, and the item has names if there is one. -/
theorem named_parseItem (h : p.Named) :
    p.parseItem.2.Named ∧ ∀ item, p.parseItem.1 = some item → item.shape.Named := by
  have hitem := Parse.names_item p.fuel p h
  rw [parseItem]
  split
  · next hrun =>
    obtain ⟨hq, hshape⟩ := hitem.ok hrun
    refine ⟨hq, ?_⟩
    rintro _ ⟨⟩
    exact hshape
  · next failure q hrun =>
    have hq : Parser.Named ((q.report failure).rollback p.arena.mark) := by
      cases failure <;> exact ⟨(hitem.error hrun).kinds, (hitem.error hrun).types⟩
    constructor
    · rw [recover]
      have hskip := Frame.skipUntil (R := KeepsNamed) endsLine _ hq
      exact ⟨hskip.kinds, hskip.types⟩
    · rintro _ ⟨⟩

end Parser

end Offside
