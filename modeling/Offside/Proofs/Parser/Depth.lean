import Offside.Proofs.Parser.Kinds

/-!
# The depth of the recursion

The functions that read a text take a bound on the depth of their recursion. The bound that a parser
starts with is never reached: between two tokens that are read there are at most a few calls, and
every token accounts for more of them.

## Main definitions

* `Offside.Parser.Past`: a later parser, and how many tokens have been read at least.
* `Offside.Parse.Fits`: a computation that does not fail for want of depth.

## Main results

* `Offside.Parse.fits_statement`, `Offside.Parse.fits_suite`: statements and their bodies.
* `Offside.Parse.fits_item_of_enough`, `Offside.Parse.item_ne_tooDeep`: an item is never too deep.
-/

namespace Offside

/-- At least `n` tokens are read between `p` and `q`, and the end of the input is still to come. -/
structure Parser.Past (p : Parser) (n : Nat) (q : Parser) : Prop where
  bounded : q.Bounded
  length : q.kinds.length + n ≤ p.kinds.length

namespace Parser

variable {p q r : Parser} {slack fuel m n : Nat}

theorem Bounded.past (h : p.Bounded) : p.Past 0 p := ⟨h, Nat.le_refl _⟩

theorem Past.trans (h : p.Past m q) (k : q.Past n r) : p.Past (m + n) r :=
  ⟨k.bounded, by have := h.length; have := k.length; omega⟩

theorem Past.weaken (h : p.Past m q) (hle : n ≤ m) : p.Past n q :=
  ⟨h.bounded, by have := h.length; omega⟩

/-- Reading one token. -/
theorem Bounded.past_advance (h : p.Bounded) (hk : p.current.kind ≠ .endOfInput) :
    p.Past 1 p.advance := by
  obtain ⟨hkinds, hbounded⟩ := h.advance hk
  exact ⟨hbounded, Nat.le_of_eq (congrArg List.length hkinds).symm⟩

/-- At the end of the input nothing is read. -/
theorem Bounded.past_advance_zero (h : p.Bounded) : p.Past 0 p.advance := by
  by_cases hk : p.current.kind = .endOfInput
  · have hrest : p.rest = [] := by
      have := h.kinds_of_end hk
      rw [kinds, List.cons.injEq, List.map_eq_nil_iff] at this
      exact this.2
    have hsame : p.advance.kinds = p.kinds := by
      rw [kinds, kinds, Parser.advance, hrest]
    obtain ⟨before, hkinds, hbefore⟩ := h
    exact ⟨⟨before, hsame.trans hkinds, hbefore⟩, Nat.le_of_eq (congrArg List.length hsame)⟩
  · exact (h.past_advance hk).weaken (Nat.zero_le _)

theorem Bounded.past_skipLineEnds (h : p.Bounded) : p.Past 0 p.skipLineEnds := by
  fun_induction skipLineEnds p with
  | case1 p hp ih => exact h.past_advance_zero.trans (ih h.past_advance_zero.bounded)
  | case2 p hp => exact h.past

theorem Past.enough (h : p.Past n q) (hp : p.Enough slack fuel) : q.Enough slack fuel :=
  hp.mono (h.weaken (Nat.zero_le n)).length

/-- What is left of the bound after a call and a token. -/
theorem Past.enough_after (h : p.Past 1 q) (hp : p.Enough slack (fuel + 1)) : q.Enough 15 fuel :=
  hp.after h.length

end Parser

namespace Parse

variable {α β : Type} {p : Parser} {m n : Nat}

/-- The computation `x`, started in `p`, reads at least `n` tokens if it succeeds, and otherwise
fails for another reason than the bound on its depth. -/
def Fits (p : Parser) (n : Nat) (x : Parse α) : Prop :=
  Yields p x (fun _ q => p.Past n q) fun e _ => e ≠ .tooDeep

theorem Fits.weaken {x : Parse α} (h : Fits p m x) (hle : n ≤ m) : Fits p n x :=
  Yields.mono h (fun _ _ hq => hq.weaken hle) fun _ _ he => he

/-! ### The basic steps -/

theorem fits_bind {x : Parse α} {f : α → Parse β} (hx : Fits p m x)
    (hf : ∀ a q, p.Past m q → Fits q n (f a)) : Fits p (m + n) (x >>= f) :=
  yields_bind (Yields.mono hx
    (fun a q hq => Yields.mono (hf a q hq) (fun _ _ hr => hq.trans hr) fun _ _ he => he)
    fun _ _ he => he)

/-- A step that may read nothing. -/
theorem fits_seq {x : Parse α} {f : α → Parse β} (hx : Fits p 0 x)
    (hf : ∀ a q, p.Past 0 q → Fits q n (f a)) : Fits p n (x >>= f) := by
  have := fits_bind hx hf
  rwa [Nat.zero_add] at this

/-- A step that reads a token. -/
theorem fits_read {x : Parse α} {f : α → Parse β} (hx : Fits p 1 x)
    (hf : ∀ a q, p.Past 1 q → Fits q 0 (f a)) (hn : n ≤ 1) : Fits p n (x >>= f) :=
  (fits_bind hx hf).weaken hn

theorem fits_pure {a : α} (h : p.Bounded) : Fits p 0 (pure a) := h.past

theorem fits_kind {f : Kind → Parse β} (h : Fits p n (f p.current.kind)) :
    Fits p n (kind >>= f) := h

theorem fits_place {f : Location → Parse β} (h : Fits p n (f p.current.location)) :
    Fits p n (place >>= f) := h

theorem fits_get {f : Parser → Parse β} (h : Fits p n (f p)) : Fits p n (get >>= f) := h

theorem fits_advance (h : p.Bounded) (hk : p.current.kind ≠ .endOfInput) : Fits p 1 advance :=
  h.past_advance hk

theorem fits_skipLineEnds (h : p.Bounded) : Fits p 0 (modify Parser.skipLineEnds) :=
  h.past_skipLineEnds

theorem fits_refuse {expected : Expectation} : Fits p n (refuse expected : Parse α) := by
  show Yields p (if p.current.kind.isInvalid then _ else _) _ _
  split <;> exact Failure.noConfusion

theorem fits_fail {error : SemanticError} {place : Location} :
    Fits p n (fail error place : Parse α) := Failure.noConfusion

/-- Reading the token that is there. -/
theorem fits_token {f : Unit → Parse β} {k : Kind} (h : p.Bounded) (hk : p.current.kind = k)
    (hne : k ≠ .endOfInput) (hf : ∀ q, p.Past 1 q → Fits q 0 (f ())) (hn : n ≤ 1) :
    Fits p n (advance >>= f) :=
  fits_read (fits_advance h (hk ▸ hne)) (fun _ => hf) hn

/-- To read more tokens than there are is to fail. -/
theorem fits_absurd {x : Parse α} {f : α → Parse β} (hx : ∀ k, Fits p k x) :
    Fits p n (x >>= f) := by
  refine yields_bind (Yields.mono (hx (p.kinds.length + 1)) (fun _ q hq => ?_) fun _ _ he => he)
  have := hq.length
  omega

/-- A test that may end a computation. -/
theorem fits_guard {c : Prop} [Decidable c] {x : Parse α} {y : Parse β} (hx : ∀ k, Fits p k x)
    (hy : Fits p n y) : Fits p n (if c then x >>= fun _ => y else y) := by
  split
  · exact fits_absurd hx
  · exact hy

theorem fits_accept? (h : p.Bounded) (mark : Kind) : Fits p 0 (accept? mark) := by
  refine fits_kind ?_
  split
  · exact h.past_advance_zero
  · exact fits_pure h

theorem fits_expect (h : p.Bounded) {mark : Kind} {expected : Expectation}
    (hmark : mark ≠ .endOfInput) : Fits p 1 (expect mark expected) := by
  refine fits_kind ?_
  split
  · next hk => exact fits_advance h (hk ▸ hmark)
  · exact fits_refuse

theorem fits_expectName (h : p.Bounded) {naming : Naming} : Fits p 1 (expectName naming) := by
  refine fits_kind ?_
  split
  · next hk =>
    exact fits_token h hk Kind.noConfusion (fun q hq => fits_pure hq.bounded) (Nat.le_refl _)
  · exact fits_refuse

theorem fits_expectStatementEnd (h : p.Bounded) {after : Ending} :
    Fits p 0 (expectStatementEnd after) := by
  refine fits_get ?_
  split
  · exact fits_refuse
  · exact fits_pure h

theorem fits_finishExpr (h : p.Bounded) {place : Location} {build : Tag → Expr} :
    Fits p 0 (finishExpr place build) := ⟨h, Nat.le_refl _⟩

theorem fits_finishStmt (h : p.Bounded) {place : Location} {build : Tag → Stmt} :
    Fits p 0 (finishStmt place build) := ⟨h, Nat.le_refl _⟩

/-! ### Expressions -/

/-- Every function that reads a part of an expression fits in a bound on its depth. -/
private structure ExprFits (fuel : Nat) : Prop where
  expression p : p.Bounded → p.Enough 3 fuel → Fits p 1 (expression fuel)
  operators p least left : p.Bounded → p.Enough 0 fuel → Fits p 0 (operators fuel least left)
  tighter p op right : p.Bounded → p.Enough 1 fuel → Fits p 0 (tighter fuel op right)
  unary p : p.Bounded → p.Enough 2 fuel → Fits p 1 (unary fuel)
  suffixed p : p.Bounded → p.Enough 1 fuel → Fits p 1 (suffixed fuel)
  suffixes p e : p.Bounded → p.Enough 0 fuel → Fits p 0 (suffixes fuel e)
  arguments p list : p.Bounded → p.Enough 5 fuel → Fits p 0 (arguments fuel list)
  nextArguments p list : p.Bounded → p.Enough 4 fuel → Fits p 1 (nextArguments fuel list)
  primary p : p.Bounded → p.Enough 0 fuel → Fits p 1 (primary fuel)

private theorem not_enough_zero {slack : Nat} (h : p.Enough slack 0) : False := by
  obtain ⟨n, hn⟩ := h.exists_succ
  cases hn

section

variable {fuel : Nat} (ih : ExprFits fuel)
include ih

private theorem fits_expression_succ (p : Parser) (hp : p.Bounded)
    (hfuel : p.Enough 3 (fuel + 1)) : Fits p 1 (expression (fuel + 1)) := by
  rw [expression]
  refine fits_read (ih.unary p hp hfuel.here) (fun e q hq => ?_) (Nat.le_refl _)
  exact ih.operators q 0 e hq.bounded ((hq.enough_after hfuel).weaken (by omega))

private theorem fits_operators_succ (p : Parser) (least : Nat) (left : Expr) (hp : p.Bounded)
    (hfuel : p.Enough 0 (fuel + 1)) : Fits p 0 (operators (fuel + 1) least left) := by
  rw [operators]
  refine fits_kind ?_
  split
  · exact fits_pure hp
  · next op hop =>
    split
    · exact fits_pure hp
    · have hk : p.current.kind ≠ .endOfInput := by
        intro hk
        rw [hk] at hop
        cases hop
      refine fits_place (fits_token hp rfl hk (fun q hq => ?_) (Nat.zero_le _))
      have hfuel := hq.enough_after hfuel
      refine fits_read (ih.unary q hq.bounded (hfuel.weaken (by omega))) (fun right r hr => ?_)
        (Nat.zero_le _)
      have hfuel := hr.enough hfuel
      refine fits_seq (ih.tighter r op right hr.bounded (hfuel.weaken (by omega)))
        fun right s hs => ?_
      have hfuel := hs.enough hfuel
      refine fits_seq (fits_finishExpr hs.bounded) fun e t ht => ?_
      exact ih.operators t least e ht.bounded ((ht.enough hfuel).weaken (by omega))

private theorem fits_tighter_succ (p : Parser) (op : BinaryOp) (right : Expr) (hp : p.Bounded)
    (hfuel : p.Enough 1 (fuel + 1)) : Fits p 0 (tighter (fuel + 1) op right) := by
  rw [tighter]
  refine fits_kind ?_
  split
  · exact fits_pure hp
  · split
    · exact ih.operators p _ right hp hfuel.here
    · exact fits_pure hp

private theorem fits_unary_succ (p : Parser) (hp : p.Bounded)
    (hfuel : p.Enough 2 (fuel + 1)) : Fits p 1 (unary (fuel + 1)) := by
  rw [unary]
  refine fits_place (fits_kind ?_)
  split
  · exact ih.suffixed p hp hfuel.here
  · next sign hsign =>
    have hk : p.current.kind ≠ .endOfInput := by
      intro hk
      rw [hk] at hsign
      cases hsign
    refine fits_token hp rfl hk (fun q hq => ?_) (Nat.le_refl _)
    have hfuel := hq.enough_after hfuel
    refine fits_read (ih.unary q hq.bounded (hfuel.weaken (by omega))) (fun operand r hr => ?_)
      (Nat.zero_le _)
    split
    · exact fits_pure hr.bounded
    · exact fits_finishExpr hr.bounded

private theorem fits_suffixed_succ (p : Parser) (hp : p.Bounded)
    (hfuel : p.Enough 1 (fuel + 1)) : Fits p 1 (suffixed (fuel + 1)) := by
  rw [suffixed]
  refine fits_read (ih.primary p hp hfuel.here) (fun e q hq => ?_) (Nat.le_refl _)
  exact ih.suffixes q e hq.bounded ((hq.enough_after hfuel).weaken (by omega))

private theorem fits_suffixes_succ (p : Parser) (e : Expr) (hp : p.Bounded)
    (hfuel : p.Enough 0 (fuel + 1)) : Fits p 0 (suffixes (fuel + 1) e) := by
  rw [suffixes]
  have finish {q : Parser} {place : Location} {build : Tag → Expr} (hq : q.Bounded)
      (hfuel : q.Enough 15 fuel) : Fits q 0 (finishExpr place build >>= suffixes fuel) := by
    refine fits_seq (fits_finishExpr hq) fun e r hr => ?_
    exact ih.suffixes r e hr.bounded ((hr.enough hfuel).weaken (by omega))
  refine fits_place (fits_kind ?_)
  split
  · next hk =>
    refine fits_token hp hk Kind.noConfusion (fun q hq => ?_) (Nat.zero_le _)
    have hfuel := hq.enough_after hfuel
    split
    · exact fits_fail
    · refine fits_seq (ih.arguments q .call hq.bounded (hfuel.weaken (by omega)))
        fun args r hr => ?_
      have hfuel := hr.enough hfuel
      refine fits_read (fits_expect hr.bounded Kind.noConfusion) (fun _ s hs => ?_)
        (Nat.zero_le _)
      exact finish hs.bounded (hs.enough hfuel)
  · next hk =>
    refine fits_token hp hk Kind.noConfusion (fun q hq => ?_) (Nat.zero_le _)
    have hfuel := hq.enough_after hfuel
    refine fits_read (ih.expression q hq.bounded (hfuel.weaken (by omega)))
      (fun index r hr => ?_) (Nat.zero_le _)
    have hfuel := hr.enough hfuel
    refine fits_read (fits_expect hr.bounded Kind.noConfusion) (fun _ s hs => ?_)
      (Nat.zero_le _)
    exact finish hs.bounded (hs.enough hfuel)
  · next hk =>
    refine fits_token hp hk Kind.noConfusion (fun q hq => ?_) (Nat.zero_le _)
    have hfuel := hq.enough_after hfuel
    refine fits_read (fits_expectName hq.bounded) (fun field r hr => ?_) (Nat.zero_le _)
    exact finish hr.bounded (hr.enough hfuel)
  · exact fits_pure hp

private theorem fits_arguments_succ (p : Parser) (list : ArgumentList) (hp : p.Bounded)
    (hfuel : p.Enough 5 (fuel + 1)) : Fits p 0 (arguments (fuel + 1) list) := by
  rw [arguments]
  refine fits_kind ?_
  split
  · exact fits_pure hp
  · exact (ih.nextArguments p list hp hfuel.here).weaken (Nat.zero_le _)

private theorem fits_nextArguments_succ (p : Parser) (list : ArgumentList) (hp : p.Bounded)
    (hfuel : p.Enough 4 (fuel + 1)) : Fits p 1 (nextArguments (fuel + 1) list) := by
  rw [nextArguments]
  refine fits_kind (fits_guard (fun _ => fits_refuse) ?_)
  refine fits_read (ih.expression p hp hfuel.here) (fun e q hq => ?_) (Nat.le_refl _)
  have hfuel := hq.enough_after hfuel
  refine fits_seq (fits_accept? hq.bounded _) fun more r hr => ?_
  have hfuel := hr.enough hfuel
  split
  · refine fits_read (ih.nextArguments r list hr.bounded (hfuel.weaken (by omega)))
      (fun es s hs => ?_) (Nat.zero_le _)
    exact fits_pure hs.bounded
  · exact fits_kind (fits_guard (fun _ => fits_refuse) (fits_pure hr.bounded))

private theorem fits_primary_succ (p : Parser) (hp : p.Bounded)
    (hfuel : p.Enough 0 (fuel + 1)) : Fits p 1 (primary (fuel + 1)) := by
  rw [primary]
  refine fits_place (fits_kind ?_)
  split
  · next hk =>
    refine fits_token hp hk Kind.noConfusion (fun q hq => ?_) (Nat.le_refl _)
    exact fits_finishExpr hq.bounded
  · next hk =>
    refine fits_token hp hk Kind.noConfusion (fun q hq => ?_) (Nat.le_refl _)
    have hfuel := hq.enough_after hfuel
    refine fits_kind ?_
    split
    · next hopen =>
      refine fits_token hq.bounded hopen.2 Kind.noConfusion (fun r hr => ?_) (Nat.zero_le _)
      have hfuel := hr.enough hfuel
      refine fits_read (ih.expression r hr.bounded (hfuel.weaken (by omega)))
        (fun operand s hs => ?_) (Nat.zero_le _)
      refine fits_read (fits_expect hs.bounded Kind.noConfusion) (fun _ t ht => ?_)
        (Nat.zero_le _)
      exact fits_finishExpr ht.bounded
    · exact fits_finishExpr hq.bounded
  · next hk =>
    refine fits_token hp hk Kind.noConfusion (fun q hq => ?_) (Nat.le_refl _)
    have hfuel := hq.enough_after hfuel
    refine fits_read (ih.expression q hq.bounded (hfuel.weaken (by omega)))
      (fun e r hr => ?_) (Nat.zero_le _)
    refine fits_read (fits_expect hr.bounded Kind.noConfusion) (fun _ s hs => ?_)
      (Nat.zero_le _)
    exact fits_pure hs.bounded
  · exact fits_refuse

end

private theorem exprFits (fuel : Nat) : ExprFits fuel := by
  induction fuel with
  | zero => constructor <;> intros <;> exact (not_enough_zero ‹_›).elim
  | succ fuel ih =>
    exact ⟨fits_expression_succ ih, fits_operators_succ ih, fits_tighter_succ ih,
      fits_unary_succ ih, fits_suffixed_succ ih, fits_suffixes_succ ih, fits_arguments_succ ih,
      fits_nextArguments_succ ih, fits_primary_succ ih⟩

section

variable {slack fuel : Nat} (hp : p.Bounded)
include hp

theorem fits_expression (hfuel : p.Enough 3 fuel) : Fits p 1 (expression fuel) :=
  (exprFits fuel).expression p hp hfuel

theorem fits_operators (hfuel : p.Enough 0 fuel) (least : Nat) (left : Expr) :
    Fits p 0 (operators fuel least left) := (exprFits fuel).operators p least left hp hfuel

theorem fits_suffixed (hfuel : p.Enough 1 fuel) : Fits p 1 (suffixed fuel) :=
  (exprFits fuel).suffixed p hp hfuel

theorem fits_arguments (hfuel : p.Enough 5 fuel) (list : ArgumentList) :
    Fits p 0 (arguments fuel list) := (exprFits fuel).arguments p list hp hfuel

/-! ### Declarations -/

theorem fits_typeExpr (hfuel : p.Enough 0 fuel) : Fits p 1 (typeExpr fuel) := by
  induction fuel generalizing p with
  | zero => exact (not_enough_zero hfuel).elim
  | succ fuel ih =>
    rw [typeExpr]
    refine fits_read (fits_expectName hp) (fun name q hq => ?_) (Nat.le_refl _)
    have hfuel := hq.enough_after hfuel
    refine fits_kind ?_
    split
    · next hopen =>
      refine fits_token hq.bounded hopen.2 Kind.noConfusion (fun r hr => ?_) (Nat.zero_le _)
      refine fits_read (ih hr.bounded ((hr.enough hfuel).weaken (by omega)))
        (fun element s hs => ?_) (Nat.zero_le _)
      refine fits_read (fits_expect hs.bounded Kind.noConfusion) (fun _ t ht => ?_) (Nat.zero_le _)
      exact fits_pure ht.bounded
    · exact fits_pure hq.bounded

theorem fits_parameters (hfuel : p.Enough 0 fuel) (before : List Binding) :
    Fits p 1 (parameters fuel before) := by
  induction fuel generalizing p before with
  | zero => exact (not_enough_zero hfuel).elim
  | succ fuel ih =>
    rw [parameters]
    refine fits_place (fits_read (fits_expectName hp) (fun name q hq => ?_) (Nat.le_refl _))
    have hfuel := hq.enough_after hfuel
    refine fits_guard (fun _ => fits_fail) ?_
    refine fits_read (fits_expect hq.bounded Kind.noConfusion) (fun _ r hr => ?_) (Nat.zero_le _)
    have hfuel := hr.enough hfuel
    refine fits_read (fits_typeExpr hr.bounded (hfuel.weaken (by omega))) (fun type s hs => ?_)
      (Nat.zero_le _)
    have hfuel := hs.enough hfuel
    refine fits_seq (fits_accept? hs.bounded _) fun more t ht => ?_
    split
    · exact (ih ht.bounded ((ht.enough hfuel).weaken (by omega)) _).weaken (Nat.zero_le _)
    · refine fits_kind ?_
      split
      · exact fits_pure ht.bounded
      · exact fits_refuse

theorem fits_prototype (hfuel : p.Enough 0 fuel) : Fits p 1 (prototype fuel) := by
  refine fits_place (fits_read (fits_expectName hp) (fun name q hq => ?_) (Nat.le_refl _))
  have hfuel := hq.enough hfuel
  refine fits_read (fits_expect hq.bounded Kind.noConfusion) (fun _ r hr => ?_) (Nat.zero_le _)
  have hfuel := hr.enough hfuel
  have rest {s : Parser} (params : List Binding) (hs : s.Bounded) (hfuel : s.Enough 0 fuel) :
      Fits s 0 (do
        expectClose .parameters
        expect (.symbol .arrow) .returnType
        let result ← typeExpr fuel
        return (⟨name, params, result, p.current.location⟩ : Prototype)) := by
    refine fits_read (fits_expect hs Kind.noConfusion) (fun _ t ht => ?_) (Nat.zero_le _)
    have hfuel := ht.enough hfuel
    refine fits_read (fits_expect ht.bounded Kind.noConfusion) (fun _ u hu => ?_) (Nat.zero_le _)
    refine fits_read (fits_typeExpr hu.bounded (hu.enough hfuel)) (fun result v hv => ?_)
      (Nat.zero_le _)
    exact fits_pure hv.bounded
  refine fits_kind ?_
  split
  · exact rest [] hr.bounded hfuel
  · refine fits_read (fits_parameters hr.bounded hfuel []) (fun params s hs => ?_) (Nat.zero_le _)
    exact rest params hs.bounded (hs.enough hfuel)

theorem fits_typeAlias (hfuel : p.Enough 0 fuel) : Fits p 1 (typeAlias fuel) := by
  refine fits_place (fits_read (fits_expectName hp) (fun name q hq => ?_) (Nat.le_refl _))
  have hfuel := hq.enough hfuel
  refine fits_get (fits_guard (fun _ => fits_fail) ?_)
  refine fits_read (fits_expect hq.bounded Kind.noConfusion) (fun _ r hr => ?_) (Nat.zero_le _)
  refine fits_read (fits_typeExpr hr.bounded (hr.enough hfuel)) (fun target s hs => ?_)
    (Nat.zero_le _)
  refine fits_seq (fits_expectStatementEnd hs.bounded) fun _ t ht => ?_
  exact ⟨ht.bounded, Nat.le_refl _⟩

theorem fits_fields (hfuel : p.Enough 0 fuel) (struct : String) (before : List Binding) :
    Fits p 0 (fields struct fuel before) := by
  induction fuel generalizing p before with
  | zero => exact (not_enough_zero hfuel).elim
  | succ fuel ih =>
    rw [fields]
    refine fits_seq (fits_skipLineEnds hp) fun _ q hq => ?_
    have hfuel := hq.enough hfuel
    refine fits_get ?_
    split
    · exact fits_pure hq.bounded
    · refine fits_place (fits_read (fits_expectName hq.bounded) (fun name r hr => ?_)
        (Nat.zero_le _))
      have hfuel := hr.enough_after hfuel
      refine fits_guard (fun _ => fits_fail) ?_
      refine fits_read (fits_expect hr.bounded Kind.noConfusion) (fun _ s hs => ?_) (Nat.zero_le _)
      have hfuel := hs.enough hfuel
      refine fits_read (fits_typeExpr hs.bounded (hfuel.weaken (by omega))) (fun type t ht => ?_)
        (Nat.zero_le _)
      have hfuel := (ht.enough hfuel).weaken (Nat.zero_le _)
      refine fits_kind ?_
      split
      · exact ih ht.bounded hfuel _
      · exact ih ht.bounded hfuel _
      · exact fits_refuse

theorem fits_struct (hfuel : p.Enough 0 fuel) (start : Location) :
    Fits p 1 (struct fuel start) := by
  refine fits_place (fits_read (fits_expectName hp) (fun name q hq => ?_) (Nat.le_refl _))
  have hfuel := hq.enough hfuel
  refine fits_get (fits_guard (fun _ => fits_fail) (fits_guard (fun _ => fits_fail) ?_))
  refine fits_read (fits_expect hq.bounded Kind.noConfusion) (fun _ r hr => ?_) (Nat.zero_le _)
  refine fits_read (fits_expect hr.bounded Kind.noConfusion) (fun _ s hs => ?_) (Nat.zero_le _)
  refine fits_read (fits_expect hs.bounded Kind.noConfusion) (fun _ t ht => ?_) (Nat.zero_le _)
  have hfuel := ht.enough (hs.enough (hr.enough hfuel))
  refine fits_seq (fits_fields ht.bounded hfuel name []) fun fields u hu => ?_
  refine fits_guard (fun _ => fits_fail) ?_
  refine fits_read (fits_expect hu.bounded Kind.noConfusion) (fun _ v hv => ?_) (Nat.zero_le _)
  exact ⟨hv.bounded, Nat.le_refl _⟩

/-! ### Statements -/

theorem fits_optionalAfter (hfuel : p.Enough 3 fuel) (mark : Kind) :
    Fits p 0 (optionalAfter fuel mark) := by
  refine fits_seq (fits_accept? hp mark) fun more q hq => ?_
  split
  · refine fits_read (fits_expression hq.bounded (hq.enough hfuel)) (fun e r hr => ?_)
      (Nat.zero_le _)
    exact fits_pure hr.bounded
  · exact fits_pure hq.bounded

theorem fits_afterTarget (hfuel : p.Enough 3 fuel) (start : Location) (target : Expr) :
    Fits p 0 (afterTarget fuel start target) := by
  rw [afterTarget]
  refine fits_kind ?_
  split
  · next hk =>
    split
    · exact fits_refuse
    · refine fits_token hp hk Kind.noConfusion (fun q hq => ?_) (Nat.zero_le _)
      have hfuel := hq.enough hfuel
      refine fits_read (fits_typeExpr hq.bounded (hfuel.weaken (Nat.zero_le _)))
        (fun type r hr => ?_) (Nat.zero_le _)
      refine fits_seq (fits_optionalAfter hr.bounded (hr.enough hfuel) _) fun init s hs => ?_
      exact fits_finishStmt hs.bounded
  · next hk =>
    refine fits_guard (fun _ => fits_fail) ?_
    refine fits_token hp hk Kind.noConfusion (fun q hq => ?_) (Nat.zero_le _)
    refine fits_read (fits_expression hq.bounded (hq.enough hfuel)) (fun value r hr => ?_)
      (Nat.zero_le _)
    exact fits_finishStmt hr.bounded
  · refine fits_seq (fits_operators hp (hfuel.weaken (Nat.zero_le _)) 0 target) fun value q hq => ?_
    exact fits_finishStmt hq.bounded

theorem fits_returnStatement (hfuel : p.Enough 3 fuel) (start : Location) :
    Fits p 0 (returnStatement fuel start) := by
  refine fits_get ?_
  split
  · exact fits_finishStmt hp
  · refine fits_read (fits_expression hp hfuel) (fun value q hq => ?_) (Nat.zero_le _)
    exact fits_finishStmt hq.bounded

theorem fits_printStatement (hfuel : p.Enough 5 fuel) (start : Location) :
    Fits p 0 (printStatement fuel start) := by
  refine fits_read (fits_expect hp Kind.noConfusion) (fun _ q hq => ?_) (Nat.zero_le _)
  refine fits_seq (fits_arguments hq.bounded (hq.enough hfuel) _) fun args r hr => ?_
  refine fits_read (fits_expect hr.bounded Kind.noConfusion) (fun _ s hs => ?_) (Nat.zero_le _)
  exact fits_finishStmt hs.bounded

theorem fits_range (hfuel : p.Enough 3 fuel) : Fits p 1 (range fuel) := by
  refine fits_read (fits_expectName hp) (fun counter q hq => ?_) (Nat.le_refl _)
  refine fits_read (fits_expect hq.bounded Kind.noConfusion) (fun _ r hr => ?_) (Nat.zero_le _)
  refine fits_read (fits_expect hr.bounded Kind.noConfusion) (fun _ s hs => ?_) (Nat.zero_le _)
  refine fits_read (fits_expect hs.bounded Kind.noConfusion) (fun _ t ht => ?_) (Nat.zero_le _)
  have hfuel := ht.enough (hs.enough (hr.enough (hq.enough hfuel)))
  refine fits_read (fits_expression ht.bounded hfuel) (fun start u hu => ?_) (Nat.zero_le _)
  refine fits_read (fits_expect hu.bounded Kind.noConfusion) (fun _ v hv => ?_) (Nat.zero_le _)
  have hfuel := hv.enough (hu.enough hfuel)
  refine fits_read (fits_expression hv.bounded hfuel) (fun stop w hw => ?_) (Nat.zero_le _)
  have hfuel := hw.enough hfuel
  refine fits_seq (fits_optionalAfter hw.bounded hfuel _) fun step x hx => ?_
  refine fits_read (fits_expect hx.bounded Kind.noConfusion) (fun _ y hy => ?_) (Nat.zero_le _)
  refine fits_read (fits_expect hy.bounded Kind.noConfusion) (fun _ z hz => ?_) (Nat.zero_le _)
  exact fits_pure hz.bounded

theorem fits_pattern (hfuel : p.Enough 3 fuel) (wild : Bool) : Fits p 1 (pattern fuel wild) := by
  rw [pattern]
  refine fits_kind ?_
  split
  · next hk =>
    split
    · exact fits_place (fits_absurd fun _ => fits_fail)
    · exact fits_token hp hk Kind.noConfusion (fun q hq => fits_pure hq.bounded) (Nat.le_refl _)
  · refine fits_read (fits_expression hp hfuel) (fun e q hq => ?_) (Nat.le_refl _)
    exact fits_pure hq.bounded

end

/-- Every function that reads a part of a statement fits in a bound on its depth. -/
private structure StmtFits (fuel : Nat) : Prop where
  statement p : p.Bounded → p.Enough 4 fuel → Fits p 1 (statement fuel)
  ifStatement p : p.Bounded → p.current.kind ≠ .endOfInput → p.Enough 0 fuel →
    Fits p 1 (ifStatement fuel)
  elseSuite p : p.Bounded → p.Enough 1 fuel → Fits p 0 (elseSuite fuel)
  suite p : p.Bounded → p.Enough 5 fuel → Fits p 1 (suite fuel)
  blockStatements p before : p.Bounded → p.Enough 5 fuel →
    Fits p 0 (blockStatements fuel before)
  arms p before : p.Bounded → p.Enough 0 fuel → Fits p 0 (arms fuel before)

section

variable {fuel : Nat} (ih : StmtFits fuel)
include ih

private theorem fits_forRange (hp : p.Bounded) (hk : p.current.kind = .keyword .forWord)
    (hfuel : p.Enough 4 (fuel + 1)) (start : Location) :
    Fits p 1 (do
      advance
      let range ← range fuel
      let body ← suite fuel
      finishStmt start (.forRange · range.counter range.start range.stop range.step body)) := by
  refine fits_token hp hk Kind.noConfusion (fun q hq => ?_) (Nat.le_refl _)
  have hfuel := hq.enough_after hfuel
  refine fits_read (fits_range hq.bounded (hfuel.weaken (by omega))) (fun range r hr => ?_)
    (Nat.zero_le _)
  refine fits_read (ih.suite r hr.bounded ((hr.enough hfuel).weaken (by omega)))
    (fun body s hs => ?_) (Nat.zero_le _)
  exact fits_finishStmt hs.bounded

private theorem fits_whileLoop (hp : p.Bounded) (hk : p.current.kind = .keyword .whileWord)
    (hfuel : p.Enough 4 (fuel + 1)) (start : Location) :
    Fits p 1 (do
      advance
      let condition ← expression fuel
      expectColon .whileCondition
      let body ← suite fuel
      finishStmt start (.whileLoop · condition body)) := by
  refine fits_token hp hk Kind.noConfusion (fun q hq => ?_) (Nat.le_refl _)
  have hfuel := hq.enough_after hfuel
  refine fits_read (fits_expression hq.bounded (hfuel.weaken (by omega)))
    (fun condition r hr => ?_) (Nat.zero_le _)
  have hfuel := hr.enough hfuel
  refine fits_read (fits_expect hr.bounded Kind.noConfusion) (fun _ s hs => ?_) (Nat.zero_le _)
  refine fits_read (ih.suite s hs.bounded ((hs.enough hfuel).weaken (by omega)))
    (fun body t ht => ?_) (Nat.zero_le _)
  exact fits_finishStmt ht.bounded

private theorem fits_doWhile (hp : p.Bounded) (hk : p.current.kind = .keyword .doWord)
    (hfuel : p.Enough 4 (fuel + 1)) (start : Location) :
    Fits p 1 (do
      advance
      expectColon .doWord
      let body ← suite fuel
      expect (.keyword .whileWord) .whileWord
      let condition ← expression fuel
      finishStmt start (.doWhile · body condition)) := by
  refine fits_token hp hk Kind.noConfusion (fun q hq => ?_) (Nat.le_refl _)
  have hfuel := hq.enough_after hfuel
  refine fits_read (fits_expect hq.bounded Kind.noConfusion) (fun _ r hr => ?_) (Nat.zero_le _)
  have hfuel := hr.enough hfuel
  refine fits_read (ih.suite r hr.bounded (hfuel.weaken (by omega))) (fun body s hs => ?_)
    (Nat.zero_le _)
  have hfuel := hs.enough hfuel
  refine fits_read (fits_expect hs.bounded Kind.noConfusion) (fun _ t ht => ?_) (Nat.zero_le _)
  refine fits_read (fits_expression ht.bounded ((ht.enough hfuel).weaken (by omega)))
    (fun condition u hu => ?_) (Nat.zero_le _)
  exact fits_finishStmt hu.bounded

private theorem fits_select (hp : p.Bounded) (hk : p.current.kind = .keyword .matchWord)
    (hfuel : p.Enough 4 (fuel + 1)) (start : Location) :
    Fits p 1 (do
      advance
      let scrutinee ← expression fuel
      expectColon .matchExpression
      expect .endOfLine (.lineEnd .matchHeader)
      expect .indent (.blockStart .cases)
      let arms ← arms fuel []
      if arms.isEmpty then refuse .matchCase
      expect .dedent (.blockEnd .cases)
      finishStmt start (.select · scrutinee arms)) := by
  refine fits_token hp hk Kind.noConfusion (fun q hq => ?_) (Nat.le_refl _)
  have hfuel := hq.enough_after hfuel
  refine fits_read (fits_expression hq.bounded (hfuel.weaken (by omega)))
    (fun scrutinee r hr => ?_) (Nat.zero_le _)
  refine fits_read (fits_expect hr.bounded Kind.noConfusion) (fun _ s hs => ?_) (Nat.zero_le _)
  refine fits_read (fits_expect hs.bounded Kind.noConfusion) (fun _ t ht => ?_) (Nat.zero_le _)
  refine fits_read (fits_expect ht.bounded Kind.noConfusion) (fun _ u hu => ?_) (Nat.zero_le _)
  have hfuel := hu.enough (ht.enough (hs.enough (hr.enough hfuel)))
  refine fits_seq (ih.arms u [] hu.bounded (hfuel.weaken (by omega))) fun arms v hv => ?_
  refine fits_guard (fun _ => fits_refuse) ?_
  refine fits_read (fits_expect hv.bounded Kind.noConfusion) (fun _ w hw => ?_) (Nat.zero_le _)
  exact fits_finishStmt hw.bounded

omit ih in
private theorem fits_jump (hp : p.Bounded) (hk : p.current.kind ≠ .endOfInput) (start : Location)
    (jump : Jump) : Fits p 1 (advance >>= fun _ => finishStmt start (.jump · jump)) :=
  fits_token hp rfl hk (fun _ hq => fits_finishStmt hq.bounded) (Nat.le_refl _)

private theorem fits_statement_succ (p : Parser) (hp : p.Bounded)
    (hfuel : p.Enough 4 (fuel + 1)) : Fits p 1 (statement (fuel + 1)) := by
  rw [statement]
  refine fits_place (fits_kind ?_)
  split
  · next hk =>
    refine ih.ifStatement p hp ?_ (hfuel.here.weaken (Nat.zero_le _))
    rw [hk]
    exact Kind.noConfusion
  · next hk => exact fits_forRange ih hp hk hfuel _
  · next hk => exact fits_whileLoop ih hp hk hfuel _
  · next hk => exact fits_doWhile ih hp hk hfuel _
  · next hk => exact fits_select ih hp hk hfuel _
  · next hk =>
    refine fits_token hp hk Kind.noConfusion (fun q hq => ?_) (Nat.le_refl _)
    exact fits_returnStatement hq.bounded ((hq.enough_after hfuel).weaken (by omega)) _
  · next hk =>
    refine fits_token hp hk Kind.noConfusion (fun q hq => ?_) (Nat.le_refl _)
    exact fits_printStatement hq.bounded ((hq.enough_after hfuel).weaken (by omega)) _
  · next hk => exact fits_jump hp (by rw [hk]; exact Kind.noConfusion) _ _
  · next hk => exact fits_jump hp (by rw [hk]; exact Kind.noConfusion) _ _
  -- Words that start no statement.
  iterate 7 exact fits_refuse
  · refine fits_read (fits_suffixed hp (hfuel.here.weaken (by omega))) (fun target q hq => ?_)
      (Nat.le_refl _)
    exact fits_afterTarget hq.bounded ((hq.enough hfuel.here).weaken (by omega)) _ target
  · refine fits_read (fits_expression hp hfuel.here) (fun value q hq => ?_) (Nat.le_refl _)
    exact fits_finishStmt hq.bounded

private theorem fits_ifStatement_succ (p : Parser) (hp : p.Bounded)
    (hk : p.current.kind ≠ .endOfInput) (hfuel : p.Enough 0 (fuel + 1)) :
    Fits p 1 (ifStatement (fuel + 1)) := by
  rw [ifStatement]
  refine fits_place (fits_token hp rfl hk (fun q hq => ?_) (Nat.le_refl _))
  have hfuel := hq.enough_after hfuel
  refine fits_read (fits_expression hq.bounded (hfuel.weaken (by omega)))
    (fun condition r hr => ?_) (Nat.zero_le _)
  have hfuel := hr.enough hfuel
  refine fits_read (fits_expect hr.bounded Kind.noConfusion) (fun _ s hs => ?_) (Nat.zero_le _)
  have hfuel := hs.enough hfuel
  refine fits_read (ih.suite s hs.bounded (hfuel.weaken (by omega)))
    (fun thenSuite t ht => ?_) (Nat.zero_le _)
  have hfuel := ht.enough hfuel
  refine fits_seq (ih.elseSuite t ht.bounded (hfuel.weaken (by omega)))
    fun elseSuite u hu => ?_
  exact fits_finishStmt hu.bounded

private theorem fits_elseSuite_succ (p : Parser) (hp : p.Bounded)
    (hfuel : p.Enough 1 (fuel + 1)) : Fits p 0 (elseSuite (fuel + 1)) := by
  rw [elseSuite]
  refine fits_place (fits_kind ?_)
  split
  · next hk =>
    refine fits_read (ih.ifStatement p hp ?_ hfuel.here) (fun nested q hq => ?_)
      (Nat.zero_le _)
    · rw [hk]
      exact Kind.noConfusion
    · exact fits_pure hq.bounded
  · next hk =>
    refine fits_token hp hk Kind.noConfusion (fun q hq => ?_) (Nat.zero_le _)
    have hfuel := hq.enough_after hfuel
    refine fits_read (fits_expect hq.bounded Kind.noConfusion) (fun _ r hr => ?_)
      (Nat.zero_le _)
    refine fits_read (ih.suite r hr.bounded ((hr.enough hfuel).weaken (by omega)))
      (fun suite s hs => ?_) (Nat.zero_le _)
    exact fits_pure hs.bounded
  · exact fits_pure hp

private theorem fits_suite_succ (p : Parser) (hp : p.Bounded)
    (hfuel : p.Enough 5 (fuel + 1)) : Fits p 1 (suite (fuel + 1)) := by
  rw [suite]
  refine fits_kind ?_
  split
  · next hk =>
    refine fits_token hp hk Kind.noConfusion (fun q hq => ?_) (Nat.le_refl _)
    have hfuel := hq.enough_after hfuel
    refine fits_place (fits_read (fits_expect hq.bounded Kind.noConfusion) (fun _ r hr => ?_)
      (Nat.zero_le _))
    have hfuel := hr.enough hfuel
    refine fits_seq (ih.blockStatements r [] hr.bounded (hfuel.weaken (by omega)))
      fun stmts s hs => ?_
    refine fits_guard (fun _ => fits_refuse) ?_
    refine fits_read (fits_expect hs.bounded Kind.noConfusion) (fun _ t ht => ?_)
      (Nat.zero_le _)
    exact fits_pure ht.bounded
  · refine fits_place (fits_read (ih.statement p hp hfuel.here) (fun stmt q hq => ?_)
      (Nat.le_refl _))
    exact fits_pure hq.bounded

private theorem fits_blockStatements_succ (p : Parser) (before : List Stmt) (hp : p.Bounded)
    (hfuel : p.Enough 5 (fuel + 1)) : Fits p 0 (blockStatements (fuel + 1) before) := by
  rw [blockStatements]
  refine fits_seq (fits_skipLineEnds hp) fun _ q hq => ?_
  have hfuel := hq.enough hfuel
  refine fits_get ?_
  split
  · exact fits_pure hq.bounded
  · refine fits_read (ih.statement q hq.bounded hfuel.here) (fun stmt r hr => ?_)
      (Nat.zero_le _)
    have hfuel := hr.enough_after hfuel
    refine fits_seq (fits_expectStatementEnd hr.bounded) fun _ s hs => ?_
    exact ih.blockStatements s _ hs.bounded ((hs.enough hfuel).weaken (by omega))

private theorem fits_arms_succ (p : Parser) (before : List Arm) (hp : p.Bounded)
    (hfuel : p.Enough 0 (fuel + 1)) : Fits p 0 (arms (fuel + 1) before) := by
  rw [arms]
  refine fits_seq (fits_skipLineEnds hp) fun _ q hq => ?_
  have hfuel := hq.enough hfuel
  refine fits_get ?_
  split
  · exact fits_pure hq.bounded
  · refine fits_place (fits_read (fits_expect hq.bounded Kind.noConfusion) (fun _ r hr => ?_)
      (Nat.zero_le _))
    have hfuel := hr.enough_after hfuel
    refine fits_read (fits_pattern hr.bounded (hfuel.weaken (by omega)) _)
      (fun pattern s hs => ?_) (Nat.zero_le _)
    have hfuel := hs.enough hfuel
    refine fits_read (fits_expect hs.bounded Kind.noConfusion) (fun _ t ht => ?_)
      (Nat.zero_le _)
    have hfuel := ht.enough hfuel
    refine fits_read (ih.suite t ht.bounded (hfuel.weaken (by omega))) (fun body u hu => ?_)
      (Nat.zero_le _)
    have hfuel := hu.enough hfuel
    refine fits_seq (fits_expectStatementEnd hu.bounded) fun _ v hv => ?_
    exact ih.arms v _ hv.bounded ((hv.enough hfuel).weaken (by omega))

end

private theorem stmtFits (fuel : Nat) : StmtFits fuel := by
  induction fuel with
  | zero => constructor <;> intros <;> exact (not_enough_zero ‹_›).elim
  | succ fuel ih =>
    exact ⟨fits_statement_succ ih, fits_ifStatement_succ ih, fits_elseSuite_succ ih,
      fits_suite_succ ih, fits_blockStatements_succ ih, fits_arms_succ ih⟩

theorem fits_statement {fuel : Nat} (hp : p.Bounded) (hfuel : p.Enough 4 fuel) :
    Fits p 1 (statement fuel) := (stmtFits fuel).statement p hp hfuel

theorem fits_suite {fuel : Nat} (hp : p.Bounded) (hfuel : p.Enough 5 fuel) :
    Fits p 1 (suite fuel) := (stmtFits fuel).suite p hp hfuel

/-! ### Items -/

theorem fits_itemShape {fuel : Nat} (hp : p.Bounded) (hfuel : p.Enough 5 fuel) (start : Location) :
    Fits p 1 (itemShape fuel start) := by
  refine fits_kind ?_
  split
  · next hk =>
    refine fits_token hp hk Kind.noConfusion (fun q hq => ?_) (Nat.le_refl _)
    have hfuel := hq.enough hfuel
    refine fits_read (fits_prototype hq.bounded (hfuel.weaken (Nat.zero_le _)))
      (fun proto r hr => ?_) (Nat.zero_le _)
    refine fits_read (fits_expect hr.bounded Kind.noConfusion) (fun _ s hs => ?_) (Nat.zero_le _)
    refine fits_read (fits_suite hs.bounded (hs.enough (hr.enough hfuel))) (fun body t ht => ?_)
      (Nat.zero_le _)
    exact ⟨ht.bounded, Nat.le_refl _⟩
  · next hk =>
    refine fits_token hp hk Kind.noConfusion (fun q hq => ?_) (Nat.le_refl _)
    have hfuel := hq.enough hfuel
    refine fits_read (fits_expect hq.bounded Kind.noConfusion) (fun _ r hr => ?_) (Nat.zero_le _)
    refine fits_read (fits_prototype hr.bounded ((hr.enough hfuel).weaken (Nat.zero_le _)))
      (fun proto s hs => ?_) (Nat.zero_le _)
    exact fits_pure hs.bounded
  · next hk =>
    refine fits_token hp hk Kind.noConfusion (fun q hq => ?_) (Nat.le_refl _)
    exact (fits_typeAlias hq.bounded ((hq.enough hfuel).weaken (Nat.zero_le _))).weaken
      (Nat.zero_le _)
  · next hk =>
    refine fits_token hp hk Kind.noConfusion (fun q hq => ?_) (Nat.le_refl _)
    exact (fits_struct hq.bounded ((hq.enough hfuel).weaken (Nat.zero_le _)) start).weaken
      (Nat.zero_le _)
  · exact fits_refuse
  · refine fits_read (fits_statement hp (hfuel.weaken (by omega))) (fun stmt q hq => ?_)
      (Nat.le_refl _)
    exact fits_pure hq.bounded

/-- An item that can be read has at least one token, and one that cannot be read is not too deep. -/
theorem fits_item_of_enough {fuel : Nat} (hp : p.Bounded) (hfuel : p.Enough 5 fuel) :
    Fits p 1 (item fuel) := by
  refine fits_place (fits_read (fits_itemShape hp hfuel _) (fun shape q hq => ?_) (Nat.le_refl _))
  refine fits_get (fits_guard (fun _ => fits_refuse) ?_)
  exact fits_pure hq.bounded

/-- The same with the bound that a parser starts with. -/
theorem fits_item (hp : p.Bounded) : Fits p 1 (item p.fuel) :=
  fits_item_of_enough hp (p.enough_fuel.weaken (by omega))

/-- The bound that a parser starts with is never reached. -/
theorem item_ne_tooDeep (hp : p.Bounded) {q : Parser} :
    (item p.fuel).run p ≠ .error .tooDeep q :=
  fun h => Yields.error (fits_item hp) h rfl

end Parse

end Offside
