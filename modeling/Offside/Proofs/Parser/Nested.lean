import Offside.Proofs.Parser.Transfer

/-!
# Blocks are read as a whole

Where the body of a statement, the cases of a `match` or the fields of a struct stand in a block,
an indent is read, then lines, and then a dedent is asked for. Between these two tokens other blocks
are read as a whole, and every other token that is read is neither an indent nor a dedent nor
refused. So the dedent that is asked for closes the block that the indent has opened. What is said
here of the open blocks is any account of them that such tokens leave alone, to which an indent adds
one, and from which a dedent takes the last one added.

Inside a block the input does not end. Then the list of lines can only end at a dedent, and the end
of a block is never missed.

## Main definitions

* `Offside.Parser.Nesting`: an account of the blocks that are open.
* `Offside.Failure.MissesBlockEnd`: the end of a block was expected.
* `Offside.Parse.Attains`: a computation that leads to some parsers, and misses no end of a block.

## Main results

* `Offside.Parse.attains_statement`, `Offside.Parse.attains_suite`: statements and their bodies
  leave the open blocks as they are.
* `Offside.Parse.attains_blockStatements`, `Offside.Parse.attains_arms`,
  `Offside.Parse.attains_fields`: the lines of a block end where the block ends.
* `Offside.Parse.attains_item`: so do items.
-/

namespace Offside

/-- Kinds of token that stand inside a block: no layout but line ends, and nothing refused. -/
def Kind.keepsBlocks (k : Kind) : Bool := k = .endOfLine || k.isPlain

theorem Kind.keepsBlocks_of_isPlain {k : Kind} (h : k.isPlain) : k.keepsBlocks := by
  rw [keepsBlocks, h, Bool.or_true]

/-- Whether the end of a block is expected. -/
def Expectation.endsBlock : Expectation → Bool
  | .blockEnd _ => true
  | _ => false

/-- The end of a block was expected. -/
def Diagnostic.MissesBlockEnd (d : Diagnostic) : Prop :=
  ∃ block found, d.cause = .syntactic (.blockEnd block) found

/-- Reading fails because the end of a block was expected. -/
def Failure.MissesBlockEnd : Failure → Prop
  | .diagnostic d => d.MissesBlockEnd
  | .shown | .tooDeep => False

/-- An account of the blocks that are open before the token in hand, innermost first. It depends on
the tokens only. -/
structure Parser.Nesting {ι : Type} (P : List ι → Parser → Prop) : Prop where
  plain {blocks : List ι} {p : Parser} (h : P blocks p) (hk : p.current.kind.keepsBlocks) :
    P blocks p.advance
  opens {blocks : List ι} {p : Parser} (h : P blocks p) (hk : p.current.kind = .indent) :
    ∃ block, P (block :: blocks) p.advance
  closes {block : ι} {blocks : List ι} {p : Parser} (h : P (block :: blocks) p)
    (hk : p.current.kind = .dedent) : P blocks p.advance
  inside {block : ι} {blocks : List ι} {p : Parser} (h : P (block :: blocks) p) :
    p.current.kind ≠ .endOfInput
  same {blocks : List ι} {p q : Parser} (h : P blocks p) (current : q.current = p.current)
    (lexer : q.lexer = p.lexer) (rest : q.rest = p.rest) : P blocks q

namespace Parse

variable {α β : Type} {p : Parser} {Q Q' : Parser → Prop}

/-- The computation `x`, started in `p`, leads to `Q` if it succeeds, and otherwise fails for
another reason than the missing end of a block. -/
def Attains (p : Parser) (Q : Parser → Prop) (x : Parse α) : Prop :=
  Yields p x (fun _ q => Q q) fun e _ => ¬ e.MissesBlockEnd

theorem Attains.ok {x : Parse α} {a : α} {q : Parser} (h : Attains p Q x)
    (run : x.run p = .ok a q) : Q q := by
  have hyields : Yields p x (fun _ q => Q q) fun e _ => ¬ e.MissesBlockEnd := h
  exact hyields.ok run

theorem Attains.error {x : Parse α} {e : Failure} {q : Parser} (h : Attains p Q x)
    (run : x.run p = .error e q) : ¬ e.MissesBlockEnd := Yields.error h run

/-! ### The basic steps -/

theorem attains_seq {x : Parse α} {f : α → Parse β} (hx : Attains p Q x)
    (hf : ∀ a q, Q q → Attains q Q' (f a)) : Attains p Q' (x >>= f) :=
  yields_bind (Yields.mono hx (fun a q hq => hf a q hq) fun _ _ he => he)

theorem attains_pure {a : α} (h : Q p) : Attains p Q (pure a : Parse α) := h

theorem attains_kind {f : Kind → Parse β} (h : Attains p Q (f p.current.kind)) :
    Attains p Q (kind >>= f) := h

theorem attains_place {f : Location → Parse β} (h : Attains p Q (f p.current.location)) :
    Attains p Q (place >>= f) := h

theorem attains_get {f : Parser → Parse β} (h : Attains p Q (f p)) : Attains p Q (get >>= f) := h

theorem attains_tooDeep : Attains p Q (throw .tooDeep : Parse α) := id

theorem attains_refuse {expected : Expectation} (h : expected.endsBlock = false) :
    Attains p Q (refuse expected : Parse α) := by
  show Yields p (if p.current.kind.isInvalid then _ else _) _ _
  split
  · exact id
  · rintro ⟨block, found, hcause⟩
    rw [(Cause.syntactic.inj hcause).1] at h
    cases h

theorem attains_fail {error : SemanticError} {place : Location} :
    Attains p Q (fail error place : Parse α) := by
  rintro ⟨block, found, hcause⟩
  cases hcause

/-- A test that may end a computation. -/
theorem attains_guard {c : Prop} [Decidable c] {x : Parse α} {y : Parse β}
    (hx : Attains p (fun _ => False) x) (hy : Attains p Q y) :
    Attains p Q (if c then x >>= fun _ => y else y) := by
  split
  · exact attains_seq hx fun _ _ hf => hf.elim
  · exact hy

theorem attains_expectStatementEnd {after : Ending} (h : Q p) :
    Attains p Q (expectStatementEnd after) := by
  refine attains_get ?_
  split
  · exact attains_refuse rfl
  · exact attains_pure h

section

variable {ι : Type} {P : List ι → Parser → Prop} (hP : Parser.Nesting P) {blocks : List ι}
include hP

/-- Reading the token that is there. -/
theorem attains_token {f : Unit → Parse β} (h : P blocks p) {k : Kind}
    (hk : p.current.kind = k) (hkeeps : k.keepsBlocks)
    (hf : ∀ q, P blocks q → Attains q Q (f ())) : Attains p Q (advance >>= f) :=
  attains_seq (show Attains p (P blocks) advance from hP.plain h (hk ▸ hkeeps)) fun _ => hf

theorem attains_accept? (h : P blocks p) {mark : Kind} (hkeeps : mark.keepsBlocks) :
    Attains p (P blocks) (accept? mark) := by
  refine attains_kind ?_
  split
  · next hk => exact attains_token hP h hk hkeeps fun q hq => attains_pure hq
  · exact attains_pure h

theorem attains_expect (h : P blocks p) {mark : Kind} {expected : Expectation}
    (hkeeps : mark.keepsBlocks) (hne : expected.endsBlock = false) :
    Attains p (P blocks) (expect mark expected) := by
  refine attains_kind ?_
  split
  · next hk => exact hP.plain h (hk ▸ hkeeps)
  · exact attains_refuse hne

theorem attains_expectName (h : P blocks p) {naming : Naming} :
    Attains p (P blocks) (expectName naming) := by
  refine attains_kind ?_
  split
  · next hk => exact attains_token hP h hk rfl fun q hq => attains_pure hq
  · exact attains_refuse rfl

theorem attains_finishExpr (h : P blocks p) {place : Location} {build : Tag → Expr} :
    Attains p (P blocks) (finishExpr place build) := hP.same h rfl rfl rfl

theorem attains_finishStmt (h : P blocks p) {place : Location} {build : Tag → Stmt} :
    Attains p (P blocks) (finishStmt place build) := hP.same h rfl rfl rfl

theorem attains_skipLineEnds (h : P blocks p) :
    Attains p (P blocks) (modify Parser.skipLineEnds) := by
  show P blocks p.skipLineEnds
  fun_induction Parser.skipLineEnds p with
  | case1 p hline ih => exact ih (hP.plain h (by rw [hline.1]; rfl))
  | case2 p => exact h

/-- An indent opens a block. -/
theorem attains_indent {f : Unit → Parse β} (h : P blocks p) {block : Block}
    (hf : ∀ b q, P (b :: blocks) q → Attains q Q (f ())) :
    Attains p Q (expect .indent (.blockStart block) >>= f) := by
  refine attains_seq (Q := fun q => ∃ b, P (b :: blocks) q) (attains_kind ?_)
    fun _ q ⟨b, hq⟩ => hf b q hq
  split
  · next hk => exact hP.opens h hk
  · exact attains_refuse rfl

/-- Where the lines of a block are over there is a dedent, which closes the block. -/
theorem kind_of_atBlockEnd {b : ι} (h : P (b :: blocks) p) (hend : p.atBlockEnd) :
    p.current.kind = .dedent := by
  rw [Parser.atBlockEnd, Bool.or_eq_true] at hend
  exact of_decide_eq_true (hend.resolve_right fun hk => hP.inside h (of_decide_eq_true hk))

theorem attains_dedent {f : Unit → Parse β} {b : ι} (h : P (b :: blocks) p) (hend : p.atBlockEnd)
    {block : Block} (hf : ∀ q, P blocks q → Attains q Q (f ())) :
    Attains p Q (expect .dedent (.blockEnd block) >>= f) := by
  have hk := kind_of_atBlockEnd hP h hend
  refine attains_seq (Q := P blocks) (attains_kind ?_) fun _ => hf
  rw [if_pos hk]
  exact hP.closes h hk

end

/-! ### Expressions -/

/-- Every function that reads a part of an expression leaves the open blocks as they are. -/
private structure ExprNests {ι : Type} (P : List ι → Parser → Prop) (fuel : Nat) : Prop where
  expression blocks p : P blocks p → Attains p (P blocks) (expression fuel)
  operators blocks p least left :
    P blocks p → Attains p (P blocks) (operators fuel least left)
  tighter blocks p op right : P blocks p → Attains p (P blocks) (tighter fuel op right)
  unary blocks p : P blocks p → Attains p (P blocks) (unary fuel)
  suffixed blocks p : P blocks p → Attains p (P blocks) (suffixed fuel)
  suffixes blocks p e : P blocks p → Attains p (P blocks) (suffixes fuel e)
  arguments blocks p list : P blocks p → Attains p (P blocks) (arguments fuel list)
  nextArguments blocks p list : P blocks p → Attains p (P blocks) (nextArguments fuel list)
  primary blocks p : P blocks p → Attains p (P blocks) (primary fuel)

section

variable {ι : Type} {P : List ι → Parser → Prop} (hP : Parser.Nesting P) {fuel : Nat}
  (ih : ExprNests P fuel)
include hP ih

private theorem attains_operators_succ (blocks : List ι) (p : Parser) (least : Nat) (left : Expr)
    (hp : P blocks p) : Attains p (P blocks) (operators (fuel + 1) least left) := by
  rw [operators]
  refine attains_kind ?_
  split
  · exact attains_pure hp
  · next op hop =>
    split
    · exact attains_pure hp
    · have hkeeps := Kind.keepsBlocks_of_isPlain (isPlain_of_ofKind? hop)
      refine attains_place (attains_token hP hp rfl hkeeps fun q hq => ?_)
      refine attains_seq (ih.unary _ q hq) fun right r hr => ?_
      refine attains_seq (ih.tighter _ r op right hr) fun right s hs => ?_
      refine attains_seq (attains_finishExpr hP hs) fun e t ht => ?_
      exact ih.operators _ t least e ht

private theorem attains_unary_succ (blocks : List ι) (p : Parser) (hp : P blocks p) :
    Attains p (P blocks) (unary (fuel + 1)) := by
  rw [unary]
  refine attains_place (attains_kind ?_)
  split
  · exact ih.suffixed _ p hp
  · next sign hsign =>
    have hkeeps := Kind.keepsBlocks_of_isPlain (isPlain_of_signOfKind? hsign)
    refine attains_token hP hp rfl hkeeps fun q hq => ?_
    refine attains_seq (ih.unary _ q hq) fun operand r hr => ?_
    split
    · exact attains_pure hr
    · exact attains_finishExpr hP hr

private theorem attains_suffixes_succ (blocks : List ι) (p : Parser) (e : Expr)
    (hp : P blocks p) : Attains p (P blocks) (suffixes (fuel + 1) e) := by
  rw [suffixes]
  have finish {q : Parser} {place : Location} {build : Tag → Expr} (hq : P blocks q) :
      Attains q (P blocks) (finishExpr place build >>= suffixes fuel) :=
    attains_seq (attains_finishExpr hP hq) fun e r hr => ih.suffixes _ r e hr
  refine attains_place (attains_kind ?_)
  split
  · next hk =>
    refine attains_token hP hp hk rfl fun q hq => ?_
    split
    · exact attains_fail
    · refine attains_seq (ih.arguments _ q .call hq) fun args r hr => ?_
      exact attains_seq (attains_expect hP hr rfl rfl) fun _ s hs => finish hs
  · next hk =>
    refine attains_token hP hp hk rfl fun q hq => ?_
    refine attains_seq (ih.expression _ q hq) fun index r hr => ?_
    exact attains_seq (attains_expect hP hr rfl rfl) fun _ s hs => finish hs
  · next hk =>
    refine attains_token hP hp hk rfl fun q hq => ?_
    exact attains_seq (attains_expectName hP hq) fun field r hr => finish hr
  · exact attains_pure hp

private theorem attains_nextArguments_succ (blocks : List ι) (p : Parser) (list : ArgumentList)
    (hp : P blocks p) : Attains p (P blocks) (nextArguments (fuel + 1) list) := by
  rw [nextArguments]
  refine attains_kind (attains_guard (attains_refuse rfl) ?_)
  refine attains_seq (ih.expression _ p hp) fun e q hq => ?_
  refine attains_seq (attains_accept? hP hq rfl) fun more r hr => ?_
  split
  · refine attains_seq (ih.nextArguments _ r list hr) fun es s hs => ?_
    exact attains_pure hs
  · exact attains_kind (attains_guard (attains_refuse rfl) (attains_pure hr))

private theorem attains_primary_succ (blocks : List ι) (p : Parser) (hp : P blocks p) :
    Attains p (P blocks) (primary (fuel + 1)) := by
  rw [primary]
  refine attains_place (attains_kind ?_)
  split
  · next hk =>
    exact attains_token hP hp hk rfl fun q hq => attains_finishExpr hP hq
  · next hk =>
    refine attains_token hP hp hk rfl fun q hq => attains_kind ?_
    split
    · next hopen =>
      refine attains_token hP hq hopen.2 rfl fun r hr => ?_
      refine attains_seq (ih.expression _ r hr) fun operand s hs => ?_
      refine attains_seq (attains_expect hP hs rfl rfl) fun _ t ht => ?_
      exact attains_finishExpr hP ht
    · exact attains_finishExpr hP hq
  · next hk =>
    refine attains_token hP hp hk rfl fun q hq => ?_
    refine attains_seq (ih.expression _ q hq) fun e r hr => ?_
    refine attains_seq (attains_expect hP hr rfl rfl) fun _ s hs => ?_
    exact attains_pure hs
  · exact attains_refuse rfl

end

section

variable {ι : Type} {P : List ι → Parser → Prop} (hP : Parser.Nesting P)
include hP

private theorem exprNests (fuel : Nat) : ExprNests P fuel := by
  induction fuel with
  | zero => constructor <;> intros <;> exact attains_tooDeep
  | succ fuel ih =>
    refine ⟨fun blocks p hp => ?_, attains_operators_succ hP ih, fun blocks p op right hp => ?_,
      attains_unary_succ hP ih, fun blocks p hp => ?_, attains_suffixes_succ hP ih,
      fun blocks p list hp => ?_, attains_nextArguments_succ hP ih, attains_primary_succ hP ih⟩
    · exact attains_seq (ih.unary blocks p hp) fun e q hq => ih.operators blocks q 0 e hq
    · rw [tighter]
      refine attains_kind ?_
      split
      · exact attains_pure hp
      · split
        · exact ih.operators blocks p _ right hp
        · exact attains_pure hp
    · exact attains_seq (ih.primary blocks p hp) fun e q hq => ih.suffixes blocks q e hq
    · rw [arguments]
      refine attains_kind ?_
      split
      · exact attains_pure hp
      · exact ih.nextArguments blocks p list hp

variable {blocks : List ι} (fuel : Nat) (hp : P blocks p)
include hp

theorem attains_expression : Attains p (P blocks) (expression fuel) :=
  (exprNests hP fuel).expression blocks p hp

theorem attains_operators (least : Nat) (left : Expr) :
    Attains p (P blocks) (operators fuel least left) :=
  (exprNests hP fuel).operators blocks p least left hp

theorem attains_suffixed : Attains p (P blocks) (suffixed fuel) :=
  (exprNests hP fuel).suffixed blocks p hp

theorem attains_arguments (list : ArgumentList) : Attains p (P blocks) (arguments fuel list) :=
  (exprNests hP fuel).arguments blocks p list hp

/-! ### Declarations -/

theorem attains_typeExpr : Attains p (P blocks) (typeExpr fuel) := by
  induction fuel generalizing p with
  | zero => exact attains_tooDeep
  | succ fuel ih =>
    rw [typeExpr]
    refine attains_seq (attains_expectName hP hp) fun name q hq => attains_kind ?_
    split
    · next hopen =>
      refine attains_token hP hq hopen.2 rfl fun r hr => ?_
      refine attains_seq (ih hr) fun element s hs => ?_
      refine attains_seq (attains_expect hP hs rfl rfl) fun _ t ht => ?_
      exact attains_pure ht
    · exact attains_pure hq

theorem attains_parameters (before : List Binding) :
    Attains p (P blocks) (parameters fuel before) := by
  induction fuel generalizing p before with
  | zero => exact attains_tooDeep
  | succ fuel ih =>
    rw [parameters]
    refine attains_place (attains_seq (attains_expectName hP hp) fun name q hq => ?_)
    refine attains_guard attains_fail ?_
    refine attains_seq (attains_expect hP hq rfl rfl) fun _ r hr => ?_
    refine attains_seq (attains_typeExpr hP fuel hr) fun type s hs => ?_
    refine attains_seq (attains_accept? hP hs rfl) fun more t ht => ?_
    split
    · exact ih ht _
    · refine attains_kind ?_
      split
      · exact attains_pure ht
      · exact attains_refuse rfl

theorem attains_prototype : Attains p (P blocks) (prototype fuel) := by
  refine attains_place (attains_seq (attains_expectName hP hp) fun name q hq => ?_)
  refine attains_seq (attains_expect hP hq rfl rfl) fun _ r hr => ?_
  have rest {s : Parser} (params : List Binding) (hs : P blocks s) :
      Attains s (P blocks) (do
        expectClose .parameters
        expect (.symbol .arrow) .returnType
        let result ← typeExpr fuel
        return (⟨name, params, result, p.current.location⟩ : Prototype)) := by
    refine attains_seq (attains_expect hP hs rfl rfl) fun _ t ht => ?_
    refine attains_seq (attains_expect hP ht rfl rfl) fun _ u hu => ?_
    exact attains_seq (attains_typeExpr hP fuel hu) fun result v hv => attains_pure hv
  refine attains_kind ?_
  split
  · exact rest [] hr
  · exact attains_seq (attains_parameters hP fuel hr []) fun params s hs => rest params hs

theorem attains_typeAlias : Attains p (P blocks) (typeAlias fuel) := by
  refine attains_place (attains_seq (attains_expectName hP hp) fun name q hq => ?_)
  refine attains_get (attains_guard attains_fail ?_)
  refine attains_seq (attains_expect hP hq rfl rfl) fun _ r hr => ?_
  refine attains_seq (attains_typeExpr hP fuel hr) fun target s hs => ?_
  exact attains_seq (attains_expectStatementEnd hs) fun _ t ht => hP.same ht rfl rfl rfl

/-- The fields of a struct end where a block ends. -/
theorem attains_fields (struct : String) (before : List Binding) :
    Attains p (fun q => P blocks q ∧ q.atBlockEnd) (fields struct fuel before) := by
  induction fuel generalizing p before with
  | zero => exact attains_tooDeep
  | succ fuel ih =>
    rw [fields]
    refine attains_seq (attains_skipLineEnds hP hp) fun _ q hq => attains_get ?_
    split
    · next hend => exact attains_pure ⟨hq, hend⟩
    · refine attains_place (attains_seq (attains_expectName hP hq) fun name r hr => ?_)
      refine attains_guard attains_fail ?_
      refine attains_seq (attains_expect hP hr rfl rfl) fun _ s hs => ?_
      refine attains_seq (attains_typeExpr hP fuel hs) fun type t ht => attains_kind ?_
      split
      · exact ih ht _
      · exact ih ht _
      · exact attains_refuse rfl

theorem attains_struct (start : Location) : Attains p (P blocks) (struct fuel start) := by
  refine attains_place (attains_seq (attains_expectName hP hp) fun name q hq => ?_)
  refine attains_get (attains_guard attains_fail (attains_guard attains_fail ?_))
  refine attains_seq (attains_expect hP hq rfl rfl) fun _ r hr => ?_
  refine attains_seq (attains_expect hP hr rfl rfl) fun _ s hs => ?_
  refine attains_indent hP hs fun b t ht => ?_
  refine attains_seq (attains_fields hP fuel ht name []) fun fields u hu => ?_
  refine attains_guard attains_fail (attains_dedent hP hu.1 hu.2 fun v hv => ?_)
  exact hP.same hv rfl rfl rfl

/-! ### Statements -/

theorem attains_optionalAfter {mark : Kind} (hkeeps : mark.keepsBlocks) :
    Attains p (P blocks) (optionalAfter fuel mark) := by
  refine attains_seq (attains_accept? hP hp hkeeps) fun more q hq => ?_
  split
  · exact attains_seq (attains_expression hP fuel hq) fun e r hr => attains_pure hr
  · exact attains_pure hq

theorem attains_afterTarget (start : Location) (target : Expr) :
    Attains p (P blocks) (afterTarget fuel start target) := by
  rw [afterTarget]
  refine attains_kind ?_
  split
  · next hk =>
    split
    · exact attains_refuse rfl
    · refine attains_token hP hp hk rfl fun q hq => ?_
      refine attains_seq (attains_typeExpr hP fuel hq) fun type r hr => ?_
      refine attains_seq (attains_optionalAfter hP fuel hr rfl) fun init s hs => ?_
      exact attains_finishStmt hP hs
  · next hk =>
    refine attains_guard attains_fail (attains_token hP hp hk rfl fun q hq => ?_)
    exact attains_seq (attains_expression hP fuel hq) fun value r hr => attains_finishStmt hP hr
  · exact attains_seq (attains_operators hP fuel hp 0 target) fun value q hq =>
      attains_finishStmt hP hq

theorem attains_returnStatement (start : Location) :
    Attains p (P blocks) (returnStatement fuel start) := by
  refine attains_get ?_
  split
  · exact attains_finishStmt hP hp
  · exact attains_seq (attains_expression hP fuel hp) fun value q hq => attains_finishStmt hP hq

theorem attains_printStatement (start : Location) :
    Attains p (P blocks) (printStatement fuel start) := by
  refine attains_seq (attains_expect hP hp rfl rfl) fun _ q hq => ?_
  refine attains_seq (attains_arguments hP fuel hq _) fun args r hr => ?_
  exact attains_seq (attains_expect hP hr rfl rfl) fun _ s hs => attains_finishStmt hP hs

theorem attains_range : Attains p (P blocks) (range fuel) := by
  refine attains_seq (attains_expectName hP hp) fun counter q hq => ?_
  refine attains_seq (attains_expect hP hq rfl rfl) fun _ r hr => ?_
  refine attains_seq (attains_expect hP hr rfl rfl) fun _ s hs => ?_
  refine attains_seq (attains_expect hP hs rfl rfl) fun _ t ht => ?_
  refine attains_seq (attains_expression hP fuel ht) fun start u hu => ?_
  refine attains_seq (attains_expect hP hu rfl rfl) fun _ v hv => ?_
  refine attains_seq (attains_expression hP fuel hv) fun stop w hw => ?_
  refine attains_seq (attains_optionalAfter hP fuel hw rfl) fun step x hx => ?_
  refine attains_seq (attains_expect hP hx rfl rfl) fun _ y hy => ?_
  exact attains_seq (attains_expect hP hy rfl rfl) fun _ z hz => attains_pure hz

theorem attains_pattern (wild : Bool) : Attains p (P blocks) (pattern fuel wild) := by
  rw [pattern]
  refine attains_kind ?_
  split
  · next hk =>
    split
    · exact attains_place (attains_seq (attains_fail (Q := fun _ => False)) fun _ _ hf => hf.elim)
    · exact attains_token hP hp hk rfl fun q hq => attains_pure hq
  · exact attains_seq (attains_expression hP fuel hp) fun e q hq => attains_pure hq

end

/-- Every function that reads a part of a statement leaves the open blocks as they are, and the
lines of a block end where a block ends. -/
private structure StmtNests {ι : Type} (P : List ι → Parser → Prop) (fuel : Nat) : Prop where
  statement blocks p : P blocks p → Attains p (P blocks) (statement fuel)
  ifStatement blocks p : P blocks p → p.current.kind.keepsBlocks →
    Attains p (P blocks) (ifStatement fuel)
  elseSuite blocks p : P blocks p → Attains p (P blocks) (elseSuite fuel)
  suite blocks p : P blocks p → Attains p (P blocks) (suite fuel)
  blockStatements blocks p before : P blocks p →
    Attains p (fun q => P blocks q ∧ q.atBlockEnd) (blockStatements fuel before)
  arms blocks p before : P blocks p →
    Attains p (fun q => P blocks q ∧ q.atBlockEnd) (arms fuel before)

section

variable {ι : Type} {P : List ι → Parser → Prop} (hP : Parser.Nesting P) {fuel : Nat}
  (ih : StmtNests P fuel)
include hP ih

private theorem attains_statement_succ (blocks : List ι) (p : Parser) (hp : P blocks p) :
    Attains p (P blocks) (statement (fuel + 1)) := by
  rw [statement]
  refine attains_place (attains_kind ?_)
  split
  · next hk => exact ih.ifStatement _ p hp (by rw [hk]; rfl)
  · next hk =>
    refine attains_token hP hp hk rfl fun q hq => ?_
    refine attains_seq (attains_range hP fuel hq) fun range r hr => ?_
    exact attains_seq (ih.suite _ r hr) fun body s hs => attains_finishStmt hP hs
  · next hk =>
    refine attains_token hP hp hk rfl fun q hq => ?_
    refine attains_seq (attains_expression hP fuel hq) fun condition r hr => ?_
    refine attains_seq (attains_expect hP hr rfl rfl) fun _ s hs => ?_
    exact attains_seq (ih.suite _ s hs) fun body t ht => attains_finishStmt hP ht
  · next hk =>
    refine attains_token hP hp hk rfl fun q hq => ?_
    refine attains_seq (attains_expect hP hq rfl rfl) fun _ r hr => ?_
    refine attains_seq (ih.suite _ r hr) fun body s hs => ?_
    refine attains_seq (attains_expect hP hs rfl rfl) fun _ t ht => ?_
    exact attains_seq (attains_expression hP fuel ht) fun condition u hu =>
      attains_finishStmt hP hu
  · next hk =>
    refine attains_token hP hp hk rfl fun q hq => ?_
    refine attains_seq (attains_expression hP fuel hq) fun scrutinee r hr => ?_
    refine attains_seq (attains_expect hP hr rfl rfl) fun _ s hs => ?_
    refine attains_seq (attains_expect hP hs rfl rfl) fun _ t ht => ?_
    refine attains_indent hP ht fun b u hu => ?_
    refine attains_seq (ih.arms _ u [] hu) fun arms v hv => ?_
    refine attains_guard (attains_refuse rfl) (attains_dedent hP hv.1 hv.2 fun w hw => ?_)
    exact attains_finishStmt hP hw
  · next hk =>
    exact attains_token hP hp hk rfl fun q hq => attains_returnStatement hP fuel hq _
  · next hk =>
    exact attains_token hP hp hk rfl fun q hq => attains_printStatement hP fuel hq _
  · next hk => exact attains_token hP hp hk rfl fun q hq => attains_finishStmt hP hq
  · next hk => exact attains_token hP hp hk rfl fun q hq => attains_finishStmt hP hq
  · exact attains_refuse rfl
  · exact attains_refuse rfl
  · exact attains_refuse rfl
  · exact attains_refuse rfl
  · exact attains_refuse rfl
  · exact attains_refuse rfl
  · exact attains_refuse rfl
  · refine attains_seq (attains_suffixed hP fuel hp) fun target q hq => ?_
    exact attains_afterTarget hP fuel hq _ target
  · exact attains_seq (attains_expression hP fuel hp) fun value q hq => attains_finishStmt hP hq

private theorem attains_ifStatement_succ (blocks : List ι) (p : Parser) (hp : P blocks p)
    (hkeeps : p.current.kind.keepsBlocks) : Attains p (P blocks) (ifStatement (fuel + 1)) := by
  rw [ifStatement]
  refine attains_place (attains_token hP hp rfl hkeeps fun q hq => ?_)
  refine attains_seq (attains_expression hP fuel hq) fun condition r hr => ?_
  refine attains_seq (attains_expect hP hr rfl rfl) fun _ s hs => ?_
  refine attains_seq (ih.suite _ s hs) fun thenSuite t ht => ?_
  exact attains_seq (ih.elseSuite _ t ht) fun elseSuite u hu => attains_finishStmt hP hu

private theorem attains_elseSuite_succ (blocks : List ι) (p : Parser) (hp : P blocks p) :
    Attains p (P blocks) (elseSuite (fuel + 1)) := by
  rw [elseSuite]
  refine attains_place (attains_kind ?_)
  split
  · next hk =>
    exact attains_seq (ih.ifStatement _ p hp (by rw [hk]; rfl)) fun nested q hq => attains_pure hq
  · next hk =>
    refine attains_token hP hp hk rfl fun q hq => ?_
    refine attains_seq (attains_expect hP hq rfl rfl) fun _ r hr => ?_
    exact attains_seq (ih.suite _ r hr) fun suite s hs => attains_pure hs
  · exact attains_pure hp

private theorem attains_suite_succ (blocks : List ι) (p : Parser) (hp : P blocks p) :
    Attains p (P blocks) (suite (fuel + 1)) := by
  rw [suite]
  refine attains_kind ?_
  split
  · next hk =>
    refine attains_token hP hp hk rfl fun q hq => ?_
    refine attains_place (attains_indent hP hq fun b r hr => ?_)
    refine attains_seq (ih.blockStatements _ r [] hr) fun stmts s hs => ?_
    exact attains_guard (attains_refuse rfl)
      (attains_dedent hP hs.1 hs.2 fun t ht => attains_pure ht)
  · exact attains_place (attains_seq (ih.statement _ p hp) fun stmt q hq => attains_pure hq)

private theorem attains_blockStatements_succ (blocks : List ι) (p : Parser) (before : List Stmt)
    (hp : P blocks p) :
    Attains p (fun q => P blocks q ∧ q.atBlockEnd) (blockStatements (fuel + 1) before) := by
  rw [blockStatements]
  refine attains_seq (attains_skipLineEnds hP hp) fun _ q hq => attains_get ?_
  split
  · next hend => exact attains_pure ⟨hq, hend⟩
  · refine attains_seq (ih.statement _ q hq) fun stmt r hr => ?_
    exact attains_seq (attains_expectStatementEnd hr) fun _ s hs => ih.blockStatements _ s _ hs

private theorem attains_arms_succ (blocks : List ι) (p : Parser) (before : List Arm)
    (hp : P blocks p) :
    Attains p (fun q => P blocks q ∧ q.atBlockEnd) (arms (fuel + 1) before) := by
  rw [arms]
  refine attains_seq (attains_skipLineEnds hP hp) fun _ q hq => attains_get ?_
  split
  · next hend => exact attains_pure ⟨hq, hend⟩
  · refine attains_place (attains_seq (attains_expect hP hq rfl rfl) fun _ r hr => ?_)
    refine attains_seq (attains_pattern hP fuel hr _) fun pattern s hs => ?_
    refine attains_seq (attains_expect hP hs rfl rfl) fun _ t ht => ?_
    refine attains_seq (ih.suite _ t ht) fun body u hu => ?_
    exact attains_seq (attains_expectStatementEnd hu) fun _ v hv => ih.arms _ v _ hv

end

section

variable {ι : Type} {P : List ι → Parser → Prop} (hP : Parser.Nesting P)
include hP

private theorem stmtNests (fuel : Nat) : StmtNests P fuel := by
  induction fuel with
  | zero => constructor <;> intros <;> exact attains_tooDeep
  | succ fuel ih =>
    exact ⟨attains_statement_succ hP ih, attains_ifStatement_succ hP ih,
      attains_elseSuite_succ hP ih, attains_suite_succ hP ih, attains_blockStatements_succ hP ih,
      attains_arms_succ hP ih⟩

variable {blocks : List ι} (fuel : Nat) (hp : P blocks p)
include hp

theorem attains_statement : Attains p (P blocks) (statement fuel) :=
  (stmtNests hP fuel).statement blocks p hp

theorem attains_suite : Attains p (P blocks) (suite fuel) := (stmtNests hP fuel).suite blocks p hp

/-- The statements of a block end where the block ends. -/
theorem attains_blockStatements (before : List Stmt) :
    Attains p (fun q => P blocks q ∧ q.atBlockEnd) (blockStatements fuel before) :=
  (stmtNests hP fuel).blockStatements blocks p before hp

/-- The cases of a `match` end where the block ends. -/
theorem attains_arms (before : List Arm) :
    Attains p (fun q => P blocks q ∧ q.atBlockEnd) (arms fuel before) :=
  (stmtNests hP fuel).arms blocks p before hp

/-! ### Items -/

theorem attains_itemShape (start : Location) : Attains p (P blocks) (itemShape fuel start) := by
  refine attains_kind ?_
  split
  · next hk =>
    refine attains_token hP hp hk rfl fun q hq => ?_
    refine attains_seq (attains_prototype hP fuel hq) fun proto r hr => ?_
    refine attains_seq (attains_expect hP hr rfl rfl) fun _ s hs => ?_
    exact attains_seq (attains_suite hP fuel hs) fun body t ht => hP.same ht rfl rfl rfl
  · next hk =>
    refine attains_token hP hp hk rfl fun q hq => ?_
    refine attains_seq (attains_expect hP hq rfl rfl) fun _ r hr => ?_
    exact attains_seq (attains_prototype hP fuel hr) fun proto s hs => attains_pure hs
  · next hk => exact attains_token hP hp hk rfl fun q hq => attains_typeAlias hP fuel hq
  · next hk => exact attains_token hP hp hk rfl fun q hq => attains_struct hP fuel hq start
  · exact attains_refuse rfl
  · exact attains_seq (attains_statement hP fuel hp) fun stmt q hq => attains_pure hq

/-- Reading an item leaves the open blocks as they are, and misses no end of a block. -/
theorem attains_item : Attains p (P blocks) (item fuel) := by
  refine attains_place (attains_seq (attains_itemShape hP fuel hp _) fun shape q hq => ?_)
  exact attains_get (attains_guard (attains_refuse rfl) (attains_pure hq))

end

end Parse

end Offside
