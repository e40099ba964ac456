import Offside.Proofs.Parser.Kinds
import Offside.Proofs.Tree.Erased

/-!
# An expression reads the same everywhere

A text that reads as an expression when it stands alone reads as the same expression wherever its
tokens stand, as long as no token follows with which an expression goes on. Numbers and places of
the nodes are other ones, of course.

A run that succeeds is compared with a run elsewhere. Both meet the same tokens up to the point
where the first one stops; the first may stop at the end of a line or of the input where the other
stops at another end, a colon, a comma, a closing parenthesis, an equals sign or a branch of an
`if`.

## Main definitions

* `Offside.Parse.Alike`: what is to come, where a construct cannot tell the difference.
* `Offside.Parse.Transfers`: whatever one computation reads, the other one reads elsewhere.

## Main results

* `Offside.Parse.transfers_bind`, `Offside.Parse.transfers_kind`: sequences and decisions.
* `Offside.Parse.transfers_expression`: expressions transfer.
-/

namespace Offside

/-- Kinds of token that stand inside a construct: no layout and nothing refused. -/
def Kind.isPlain : Kind → Bool
  | endOfInput | endOfLine | indent | dedent | invalid _ => false
  | identifier _ | number _ _ | keyword _ | symbol _ => true

theorem Kind.isEnd_of_isPlain {k : Kind} (h : k.isPlain) : k.isEnd = false := by
  cases k <;> first | rfl | cases h

/-- Kinds of token before which an expression may end. -/
def Kind.endsExpr : Kind → Bool
  | endOfInput | endOfLine | dedent | symbol .colon | symbol .comma | symbol .closeParen
  | symbol .assign | keyword .elifWord | keyword .elseWord => true
  | _ => false

namespace Parse

/-- Kinds of token that start an expression. -/
def startsExpr : Kind → Bool
  | .number _ _ | .identifier _ | .symbol .openParen => true
  | k => (Sign.ofKind? k).isSome

/-- A construct cannot tell what is to come: it starts alike, or it is the end of a line, of a block
or of the input against a token of another kind before which the construct may end. -/
def Alike (ends : Kind → Bool) (K K' : List Kind) : Prop :=
  K'.head? = K.head? ∨
    ∃ k, K.head? = some k ∧ k.isEnd ∧ ∃ k', K'.head? = some k' ∧ ends k'

variable {α β γ δ : Type} {ends : Kind → Bool} {k : Kind} {view : α → γ} {view' : β → δ}

/-- Whatever `x` reads from a token of kind `k` on, `x'` reads elsewhere, with a result of the same
view. No block is closed by tokens inside a construct. -/
def TransfersFrom (ends : Kind → Bool) (k : Kind) (view : α → γ) (x x' : Parse α) : Prop :=
  ∀ p a q, p.Bounded → p.current.kind = k → x.run p = .ok a q →
    ∃ used, (∀ k ∈ used, k.isPlain) ∧ p.kinds = used ++ q.kinds ∧
      q.afterDedent = (used.isEmpty && p.afterDedent) ∧
      ∀ p' after, p'.kinds = used ++ after → Alike ends q.kinds after →
        Succeeds p' x' fun a' q' => view a' = view a ∧ q'.kinds = after ∧
          q'.afterDedent = (used.isEmpty && p'.afterDedent)

/-- The same from any token on. -/
def Transfers (ends : Kind → Bool) (view : α → γ) (x x' : Parse α) : Prop :=
  ∀ k, TransfersFrom ends k view x x'

/-- The tokens that were read are read elsewhere. -/
theorem TransfersFrom.copy {x x' : Parse α} {p q : Parser} {a : α} {used : List Kind}
    (h : TransfersFrom ends p.current.kind view x x') (hp : p.Bounded) (hrun : x.run p = .ok a q)
    (hkinds : p.kinds = used ++ q.kinds) {p' : Parser} {after : List Kind}
    (hp' : p'.kinds = used ++ after) (hafter : Alike ends q.kinds after) :
    Succeeds p' x' fun a' q' => view a' = view a ∧ q'.kinds = after ∧
      q'.afterDedent = (used.isEmpty && p'.afterDedent) := by
  obtain ⟨used', -, hkinds', -, hcopy⟩ := h p a q hp rfl hrun
  obtain rfl : used' = used := List.append_cancel_right (hkinds'.symm.trans hkinds)
  exact hcopy p' after hp' hafter

/-! ### The basic steps -/

/-- What does not succeed has nothing to transfer. -/
theorem transfersFrom_of_fails {x x' : Parse α} (h : ∀ p, p.current.kind = k → Fails p x) :
    TransfersFrom ends k view x x' :=
  fun p _ _ _ hk hrun => absurd hrun (h p hk).not_ok

theorem transfersFrom_refuse {expected : Expectation} {x' : Parse α} :
    TransfersFrom ends k view (refuse expected) x' :=
  transfersFrom_of_fails fun _ _ => fails_refuse

theorem transfersFrom_fail {error : SemanticError} {place : Location} {x' : Parse α} :
    TransfersFrom ends k view (fail error place) x' :=
  transfersFrom_of_fails fun _ _ => fails_fail

theorem transfersFrom_pure {a a' : α} (h : view a' = view a) :
    TransfersFrom ends k view (pure a) (pure a') := by
  rintro p _ _ - - ⟨⟩
  exact ⟨[], by simp, rfl, rfl, fun p' after hp' _ => ⟨h, hp', rfl⟩⟩

theorem transfersFrom_finishExpr {place place' : Location} {build build' : Tag → Expr}
    (h : ∀ tag tag', (build' tag').erase = (build tag).erase) :
    TransfersFrom ends k Expr.erase (finishExpr place build) (finishExpr place' build') := by
  rintro p _ _ - - ⟨⟩
  exact ⟨[], by simp, rfl, rfl, fun p' after hp' _ => ⟨h _ _, hp', rfl⟩⟩

theorem transfersFrom_finishStmt {place place' : Location} {build build' : Tag → Stmt}
    (h : ∀ tag tag', (build' tag').erase = (build tag).erase) :
    TransfersFrom ends k Stmt.erase (finishStmt place build) (finishStmt place' build') := by
  rintro p _ _ - - ⟨⟩
  exact ⟨[], by simp, rfl, rfl, fun p' after hp' _ => ⟨h _ _, hp', rfl⟩⟩

/-- What two constructs in a row make of the account of closed blocks. -/
private theorem isEmpty_append (used more : List Kind) (b : Bool) :
    (more.isEmpty && (used.isEmpty && b)) = ((used ++ more).isEmpty && b) := by
  cases used <;> cases more <;> rfl

theorem transfersFrom_bind {x x' : Parse α} {f f' : α → Parse β}
    (hx : TransfersFrom ends k view x x')
    (hf : ∀ a a', view a' = view a → Transfers ends view' (f a) (f' a')) :
    TransfersFrom ends k view' (x >>= f) (x' >>= f') := by
  intro p b r hp hk hrun
  obtain ⟨a, q, hxrun, hfrun⟩ := exists_of_run_bind hrun
  obtain ⟨used, hused, hkinds, hdedent, hx'⟩ := hx p a q hp hk hxrun
  have hq : q.Bounded := hp.of_append hkinds
  obtain ⟨more, hmore, hkinds', hdedent', -⟩ := hf a a rfl _ q b r hq rfl hfrun
  refine ⟨used ++ more, ?_, by rw [hkinds, hkinds', List.append_assoc], ?_,
    fun p' after hp' halike => ?_⟩
  · intro k hk
    exact (List.mem_append.1 hk).elim (hused k) (hmore k)
  · rw [hdedent', hdedent, isEmpty_append]
  · rw [List.append_assoc] at hp'
    have hbetween : Alike ends q.kinds (more ++ after) := by
      rw [hkinds']
      cases more with
      | nil => exact halike
      | cons k more => exact .inl rfl
    refine succeeds_bind ((hx' p' _ hp' hbetween).mono fun a' q' ha' => ?_)
    refine ((hf a a' ha'.1 _).copy hq hfrun hkinds' ha'.2.1 halike).mono
      fun b' r' hb' => ⟨hb'.1, hb'.2.1, ?_⟩
    rw [hb'.2.2, ha'.2.2, isEmpty_append]

theorem transfers_bind {x x' : Parse α} {f f' : α → Parse β} (hx : Transfers ends view x x')
    (hf : ∀ a a', view a' = view a → Transfers ends view' (f a) (f' a')) :
    Transfers ends view' (x >>= f) (x' >>= f') :=
  fun k => transfersFrom_bind (hx k) hf

theorem transfersFrom_place {f f' : Location → Parse α}
    (h : ∀ place place', TransfersFrom ends k view (f place) (f' place')) :
    TransfersFrom ends k view (place >>= f) (place >>= f') := by
  rintro p a q hp rfl hrun
  obtain ⟨used, hused, hkinds, hdedent, -⟩ := h p.current.location .erased p a q hp rfl hrun
  refine ⟨used, hused, hkinds, hdedent, fun p' after hp' halike => ?_⟩
  exact (h p.current.location p'.current.location).copy hp hrun hkinds hp' halike

theorem transfers_place {f f' : Location → Parse α}
    (h : ∀ place place', Transfers ends view (f place) (f' place')) :
    Transfers ends view (place >>= f) (place >>= f') :=
  fun k => transfersFrom_place fun place place' => h place place' k

/-- A decision on the current token is the same elsewhere, but for the end of a line, of a block or
of the input, where the other run may have met a token before which the construct may end. -/
theorem transfers_kind {f f' : Kind → Parse α} (h : ∀ k, TransfersFrom ends k view (f k) (f' k))
    (hend : ∀ k k', k.isEnd → ends k' → TransfersFrom ends k view (f k) (f' k')) :
    Transfers ends view (kind >>= f) (kind >>= f') := by
  intro k p a q hp hk hrun
  have hrun : (f k).run p = .ok a q := hk ▸ hrun
  obtain ⟨used, hused, hkinds, hdedent, hcopy⟩ := h k p a q hp hk hrun
  refine ⟨used, hused, hkinds, hdedent, fun p' after hp' halike => ?_⟩
  have same (hk' : p'.current.kind = k) :
      Succeeds p' (kind >>= f') fun a' q' => view a' = view a ∧ q'.kinds = after ∧
        q'.afterDedent = (used.isEmpty && p'.afterDedent) := by
    have := hcopy p' after hp' halike
    rw [← hk'] at this
    exact this
  cases used with
  | cons u used =>
    refine same ?_
    rw [Parser.current_of_kinds hp', ← hk, Parser.current_of_kinds hkinds]
  | nil =>
    rw [List.nil_append] at hkinds hp'
    rw [← hkinds, ← hp', Alike, Parser.head?_kinds, Parser.head?_kinds, hk] at halike
    rcases halike with hhead | ⟨k, hin, hisEnd, k', hk', hends⟩
    · exact same (Option.some.inj hhead)
    · obtain rfl := Option.some.inj hin
      obtain rfl := Option.some.inj hk'
      obtain ⟨used, -, hkinds', -, hcopy'⟩ := hend _ _ hisEnd hends p a q hp hk hrun
      obtain rfl : used = [] := by simpa [hkinds] using hkinds'
      refine hcopy' p' after hp' (.inr ⟨_, ?_, hisEnd, _, ?_, hends⟩)
      · rw [← hkinds, Parser.head?_kinds, hk]
      · rw [← hp', Parser.head?_kinds]

theorem transfersFrom_advance (hk : k.isPlain) :
    TransfersFrom ends k (fun _ => ()) advance advance := by
  rintro p _ _ hp rfl ⟨⟩
  have hdedent (p : Parser) (h : p.current.kind.isPlain) : p.advance.afterDedent = false := by
    rw [Parser.afterDedent_advance, decide_eq_false_iff_not]
    intro he
    rw [he] at h
    cases h
  have hne : p.current.kind ≠ .endOfInput := by
    intro he
    rw [he] at hk
    cases hk
  obtain ⟨hkinds, -⟩ := hp.advance hne
  refine ⟨[p.current.kind], by simpa using hk, hkinds, hdedent p hk,
    fun p' after hp' halike => ⟨rfl, ?_, hdedent p' ?_⟩⟩
  · refine Parser.kinds_advance hp' ?_
    rintro rfl
    rcases halike with hhead | ⟨-, -, -, k, hk, -⟩
    · cases hhead
    · cases hk
  · rwa [Parser.current_of_kinds hp']

theorem transfers_expect {mark : Kind} {expected : Expectation} (hmark : mark.isPlain) :
    Transfers ends (fun _ => ()) (expect mark expected) (expect mark expected) := by
  refine transfers_kind (fun k => ?_) fun k k' hk _ => ?_
  · by_cases hk : k = mark
    · rw [if_pos hk]
      exact transfersFrom_advance (hk ▸ hmark)
    · rw [if_neg hk]
      exact transfersFrom_refuse
  · rw [if_neg (Kind.ne_of_isEnd hk (Kind.isEnd_of_isPlain hmark))]
    exact transfersFrom_refuse

theorem transfers_expectName {naming : Naming} :
    Transfers ends id (expectName naming) (expectName naming) := by
  refine transfers_kind (fun k => ?_) fun k k' hk _ => ?_
  · split
    · exact transfersFrom_bind (transfersFrom_advance rfl) fun _ _ _ k => transfersFrom_pure rfl
    · exact transfersFrom_refuse
  · rcases Kind.eq_of_isEnd hk with rfl | rfl | rfl <;> exact transfersFrom_refuse

/-- An optional token. If the first run may end where the other run finds another token, that is
not the optional one, or else the first run leads nowhere there. -/
theorem transfers_accept? {mark : Kind} {f f' : Bool → Parse α} (hmark : mark.isPlain)
    (yes : Transfers ends view (f true) (f' true)) (no : Transfers ends view (f false) (f' false))
    (hend : ends mark = false ∨ ∀ p, p.current.kind.isEnd → Fails p (f false)) :
    Transfers ends view (accept? mark >>= f) (accept? mark >>= f') := by
  rw [accept?, bind_assoc, bind_assoc]
  refine transfers_kind (fun k => ?_) fun k k' hk hk' => ?_
  · split
    · next hk =>
      rw [bind_assoc, bind_assoc]
      refine transfersFrom_bind (transfersFrom_advance (hk ▸ hmark)) fun _ _ _ => ?_
      exact yes
    · exact no k
  · rw [if_neg (Kind.ne_of_isEnd hk (Kind.isEnd_of_isPlain hmark))]
    rcases hend with hne | hfails
    · rw [if_neg (by rintro rfl; rw [hk'] at hne; cases hne)]
      exact no k
    · exact transfersFrom_of_fails fun p hp => hfails p (hp ▸ hk)

/-! ### Where an expression starts -/

theorem fails_primary {p : Parser} (h : startsExpr p.current.kind = false) (fuel : Nat) :
    Fails p (primary fuel) := by
  cases fuel with
  | zero => exact trivial
  | succ fuel =>
    rw [primary]
    refine fails_place fun place => fails_kind ?_
    split
    · next hk => simp [hk, startsExpr] at h
    · next hk => simp [hk, startsExpr] at h
    · next hk => simp [hk, startsExpr] at h
    · exact fails_refuse

theorem fails_suffixed {p : Parser} (h : startsExpr p.current.kind = false) (fuel : Nat) :
    Fails p (suffixed fuel) := by
  cases fuel with
  | zero => exact trivial
  | succ fuel => exact fails_bind (fails_primary h fuel)

theorem fails_unary {p : Parser} (h : startsExpr p.current.kind = false) (fuel : Nat) :
    Fails p (unary fuel) := by
  cases fuel with
  | zero => exact trivial
  | succ fuel =>
    have hsign : Sign.ofKind? p.current.kind = none := by
      unfold startsExpr at h
      split at h
      · cases h
      · cases h
      · cases h
      · simpa using h
    rw [unary]
    refine fails_place fun place => fails_kind ?_
    rw [hsign]
    exact fails_suffixed h fuel

theorem fails_expression {p : Parser} (h : startsExpr p.current.kind = false) (fuel : Nat) :
    Fails p (expression fuel) := by
  cases fuel with
  | zero => exact trivial
  | succ fuel => exact fails_bind (fails_unary h fuel)

/-- A statement that starts with an expression but with no name is that expression. -/
theorem succeeds_statement_of_startsExpr {ok : Stmt → Parser → Prop} {p : Parser} {K : List Kind}
    {fuel : Nat} (hp : p.kinds = k :: K) (hstarts : startsExpr k)
    (hname : ∀ name, k ≠ .identifier name)
    (h : ∀ start, Succeeds p (expression fuel >>= fun e => finishStmt start (.expr · e)) ok) :
    Succeeds p (statement (fuel + 1)) ok := by
  rw [statement]
  refine succeeds_place fun start => succeeds_kind hp ?_
  split
  all_goals first
    | exact h start
    | exact absurd rfl (hname _)
    | cases hstarts

theorem startsExpr_of_isEnd {k : Kind} (h : k.isEnd) : startsExpr k = false := by
  rcases Kind.eq_of_isEnd h with rfl | rfl | rfl <;> rfl

theorem ofKind?_of_isEnd {k : Kind} (h : k.isEnd) : BinaryOp.ofKind? k = none := by
  rcases Kind.eq_of_isEnd h with rfl | rfl | rfl <;> rfl

theorem signOfKind?_of_isEnd {k : Kind} (h : k.isEnd) : Sign.ofKind? k = none := by
  rcases Kind.eq_of_isEnd h with rfl | rfl | rfl <;> rfl

theorem fails_nextArguments {p : Parser} (h : p.current.kind.isEnd) (fuel : Nat)
    (list : ArgumentList) : Fails p (nextArguments fuel list) := by
  cases fuel with
  | zero => exact trivial
  | succ fuel =>
    rw [nextArguments]
    refine fails_kind ?_
    rw [if_neg (Kind.ne_of_isEnd h rfl)]
    exact fails_bind (fails_expression (startsExpr_of_isEnd h) fuel)

/-! ### Expressions -/

/-- Every function that reads a part of an expression transfers to larger bounds. -/
private structure ExprTransfers (ends : Kind → Bool) (fuel fuel' : Nat) : Prop where
  expression : Transfers ends Expr.erase (expression fuel) (expression fuel')
  operators least left left' (h : left'.erase = left.erase) :
    Transfers ends Expr.erase (operators fuel least left) (operators fuel' least left')
  tighter op right right' (h : right'.erase = right.erase) :
    Transfers ends Expr.erase (tighter fuel op right) (tighter fuel' op right')
  unary : Transfers ends Expr.erase (unary fuel) (unary fuel')
  suffixed : Transfers ends Expr.erase (suffixed fuel) (suffixed fuel')
  suffixes e e' (h : e'.erase = e.erase) :
    Transfers ends Expr.erase (suffixes fuel e) (suffixes fuel' e')
  arguments list : Transfers ends Expr.eraseAll (arguments fuel list) (arguments fuel' list)
  nextArguments list :
    Transfers ends Expr.eraseAll (nextArguments fuel list) (nextArguments fuel' list)
  primary : Transfers ends Expr.erase (primary fuel) (primary fuel')

private theorem transfers_throw {x' : Parse α} : Transfers ends view (throw .tooDeep) x' :=
  fun _ => transfersFrom_of_fails fun _ _ => trivial

/-- A token that continues an expression is no end of one. -/
private theorem ofKind?_of_endsExpr {k : Kind} (h : k.endsExpr) : BinaryOp.ofKind? k = none := by
  unfold Kind.endsExpr at h
  split at h
  all_goals first
    | rfl
    | cases h

private theorem signOfKind?_of_endsExpr {k : Kind} (h : k.endsExpr) : Sign.ofKind? k = none := by
  unfold Kind.endsExpr at h
  split at h
  all_goals first
    | rfl
    | cases h

theorem isPlain_of_ofKind? {k : Kind} {op : BinaryOp} (h : BinaryOp.ofKind? k = some op) :
    k.isPlain := by
  cases k with
  | identifier | number | keyword | symbol => rfl
  | endOfInput | endOfLine | indent | dedent | invalid => cases h

theorem isPlain_of_signOfKind? {k : Kind} {sign : Sign} (h : Sign.ofKind? k = some sign) :
    k.isPlain := by
  cases k with
  | identifier | number | keyword | symbol => rfl
  | endOfInput | endOfLine | indent | dedent | invalid => cases h

section

variable {fuel fuel' : Nat} (hends : ∀ k, ends k → k.endsExpr) (ih : ExprTransfers ends fuel fuel')
include hends ih

omit hends in
private theorem transfers_expression_succ :
    Transfers ends Expr.erase (expression (fuel + 1)) (expression (fuel' + 1)) := by
  rw [expression, expression]
  exact transfers_bind ih.unary fun e e' h => ih.operators 0 e e' h

private theorem transfers_operators_succ (least : Nat) (left left' : Expr)
    (h : left'.erase = left.erase) :
    Transfers ends Expr.erase (operators (fuel + 1) least left)
      (operators (fuel' + 1) least left') := by
  rw [operators, operators]
  refine transfers_kind (fun k => ?_) fun k k' hk hk' => ?_
  · cases hop : BinaryOp.ofKind? k with
    | none => exact transfersFrom_pure h
    | some op =>
      dsimp only
      split
      · exact transfersFrom_pure h
      · refine transfersFrom_place fun place place' => ?_
        refine transfersFrom_bind (transfersFrom_advance (isPlain_of_ofKind? hop)) ?_
        intro _ _ _
        refine transfers_bind ih.unary fun r r' hr => ?_
        refine transfers_bind (ih.tighter op r r' hr) fun r r' hr => ?_
        refine transfers_bind (fun _ => transfersFrom_finishExpr fun _ _ => ?_)
          fun e e' he => ih.operators least e e' he
        simp only [Expr.erase, h, hr]
  · rw [ofKind?_of_isEnd hk, ofKind?_of_endsExpr (hends k' hk')]
    exact transfersFrom_pure h

private theorem transfers_tighter_succ (op : BinaryOp) (right right' : Expr)
    (h : right'.erase = right.erase) :
    Transfers ends Expr.erase (tighter (fuel + 1) op right) (tighter (fuel' + 1) op right') := by
  rw [tighter, tighter]
  refine transfers_kind (fun k => ?_) fun k k' hk hk' => ?_
  · cases BinaryOp.ofKind? k with
    | none => exact transfersFrom_pure h
    | some next =>
      dsimp only
      split
      · exact ih.operators _ right right' h k
      · exact transfersFrom_pure h
  · rw [ofKind?_of_isEnd hk, ofKind?_of_endsExpr (hends k' hk')]
    exact transfersFrom_pure h

private theorem transfers_unary_succ :
    Transfers ends Expr.erase (unary (fuel + 1)) (unary (fuel' + 1)) := by
  rw [unary, unary]
  refine transfers_place fun place place' => ?_
  refine transfers_kind (fun k => ?_) fun k k' hk hk' => ?_
  · cases hsign : Sign.ofKind? k with
    | none => exact ih.suffixed k
    | some sign =>
      refine transfersFrom_bind (transfersFrom_advance (isPlain_of_signOfKind? hsign)) ?_
      intro _ _ _
      refine transfers_bind ih.unary fun e e' he => ?_
      cases sign with
      | plus => exact fun _ => transfersFrom_pure he
      | apply op =>
        refine fun _ => transfersFrom_finishExpr fun _ _ => ?_
        simp only [Expr.erase, he]
  · rw [signOfKind?_of_isEnd hk, signOfKind?_of_endsExpr (hends k' hk')]
    exact ih.suffixed k

omit hends in
private theorem transfers_suffixed_succ :
    Transfers ends Expr.erase (suffixed (fuel + 1)) (suffixed (fuel' + 1)) := by
  rw [suffixed, suffixed]
  exact transfers_bind ih.primary fun e e' h => ih.suffixes e e' h

private theorem transfers_suffixes_succ (e e' : Expr) (h : e'.erase = e.erase) :
    Transfers ends Expr.erase (suffixes (fuel + 1) e) (suffixes (fuel' + 1) e') := by
  rw [suffixes, suffixes]
  refine transfers_place fun place place' => ?_
  refine transfers_kind (fun k => ?_) fun k k' hk hk' => ?_
  · split
    · refine transfersFrom_bind (transfersFrom_advance rfl) fun _ _ _ => ?_
      rw [Expr.Same.plainName? h]
      cases e.plainName? with
      | none => exact fun _ => transfersFrom_fail
      | some callee =>
        refine transfers_bind (ih.arguments _) fun args args' hargs => ?_
        refine transfers_bind (transfers_expect rfl) fun _ _ _ => ?_
        refine transfers_bind (fun _ => transfersFrom_finishExpr fun _ _ => ?_)
          fun e e' he => ih.suffixes e e' he
        simp only [Expr.erase, hargs]
    · refine transfersFrom_bind (transfersFrom_advance rfl) fun _ _ _ => ?_
      refine transfers_bind ih.expression fun i i' hi => ?_
      refine transfers_bind (transfers_expect rfl) fun _ _ _ => ?_
      refine transfers_bind (fun _ => transfersFrom_finishExpr fun _ _ => ?_)
        fun e e' he => ih.suffixes e e' he
      simp only [Expr.erase, h, hi]
    · refine transfersFrom_bind (transfersFrom_advance rfl) fun _ _ _ => ?_
      refine transfers_bind transfers_expectName ?_
      rintro field _ rfl
      refine transfers_bind (fun _ => transfersFrom_finishExpr fun _ _ => ?_)
        fun e e' he => ih.suffixes e e' he
      simp only [Expr.erase, h, id_eq]
    · exact transfersFrom_pure h
  · have hk' := hends k' hk'
    unfold Kind.endsExpr at hk'
    rcases Kind.eq_of_isEnd hk with rfl | rfl | rfl <;> split at hk'
    all_goals first
      | exact transfersFrom_pure h
      | cases hk'

omit hends in
private theorem transfers_arguments_succ (list : ArgumentList) :
    Transfers ends Expr.eraseAll (arguments (fuel + 1) list) (arguments (fuel' + 1) list) := by
  rw [arguments, arguments]
  refine transfers_kind (fun k => ?_) fun k k' hk _ => ?_
  · split
    · exact transfersFrom_pure rfl
    · exact ih.nextArguments list k
  · rw [if_neg (Kind.ne_of_isEnd hk rfl)]
    exact transfersFrom_of_fails fun p hp => fails_nextArguments (hp ▸ hk) fuel list

omit hends in
private theorem transfers_nextArguments_succ (list : ArgumentList) :
    Transfers ends Expr.eraseAll (nextArguments (fuel + 1) list)
      (nextArguments (fuel' + 1) list) := by
  rw [nextArguments, nextArguments]
  refine transfers_kind (fun k => ?_) fun k k' hk _ => ?_
  · split
    · exact transfersFrom_of_fails fun _ _ => fails_bind fails_refuse
    · refine transfersFrom_bind (ih.expression k) fun e e' he => ?_
      refine transfers_accept? rfl ?_ ?_ (.inr fun p hp => ?_)
      · refine transfers_bind (ih.nextArguments list) fun es es' hes => ?_
        refine fun _ => transfersFrom_pure ?_
        rw [Expr.eraseAll, Expr.eraseAll, he, hes]
      · refine transfers_kind (fun k => ?_) fun k k' hk _ => ?_
        · split
          · exact transfersFrom_of_fails fun _ _ => fails_bind fails_refuse
          · exact transfersFrom_pure (by simp only [Expr.eraseAll, he])
        · rw [if_pos (Kind.ne_of_isEnd hk rfl)]
          exact transfersFrom_of_fails fun _ _ => fails_bind fails_refuse
      · refine fails_kind ?_
        rw [if_pos (Kind.ne_of_isEnd hp rfl)]
        exact fails_bind fails_refuse
  · rw [if_neg (Kind.ne_of_isEnd hk rfl)]
    refine transfersFrom_of_fails fun p hp => ?_
    exact fails_bind (fails_expression (startsExpr_of_isEnd (hp ▸ hk)) fuel)

private theorem transfers_primary_succ :
    Transfers ends Expr.erase (primary (fuel + 1)) (primary (fuel' + 1)) := by
  rw [primary, primary]
  refine transfers_place fun place place' => ?_
  refine transfers_kind (fun k => ?_) fun k k' hk _ => ?_
  · split
    · refine transfersFrom_bind (transfersFrom_advance rfl) fun _ _ _ => ?_
      exact fun _ => transfersFrom_finishExpr fun _ _ => rfl
    · refine transfersFrom_bind (transfersFrom_advance rfl) fun _ _ _ => ?_
      refine transfers_kind (fun k => ?_) fun k k' hk hk' => ?_
      · split
        · next hk =>
          rw [hk.2]
          refine transfersFrom_bind (transfersFrom_advance rfl) fun _ _ _ => ?_
          refine transfers_bind ih.expression fun e e' he => ?_
          refine transfers_bind (transfers_expect rfl) fun _ _ _ _ => ?_
          exact transfersFrom_finishExpr fun _ _ => by simp only [Expr.erase, he]
        · exact transfersFrom_finishExpr fun _ _ => rfl
      · have hk' := hends k' hk'
        rw [if_neg (by rintro ⟨-, rfl⟩; cases hk), if_neg (by rintro ⟨-, rfl⟩; cases hk')]
        exact transfersFrom_finishExpr fun _ _ => rfl
    · refine transfersFrom_bind (transfersFrom_advance rfl) fun _ _ _ => ?_
      refine transfers_bind ih.expression fun e e' he => ?_
      exact transfers_bind (transfers_expect rfl) fun _ _ _ _ => transfersFrom_pure he
    · exact transfersFrom_refuse
  · rcases Kind.eq_of_isEnd hk with rfl | rfl | rfl <;> exact transfersFrom_refuse

end

private theorem exprTransfers {fuel fuel' : Nat} (hle : fuel ≤ fuel')
    (hends : ∀ k, ends k → k.endsExpr) : ExprTransfers ends fuel fuel' := by
  induction fuel generalizing fuel' with
  | zero => constructor <;> intros <;> exact transfers_throw
  | succ fuel ih =>
    obtain ⟨fuel', rfl⟩ : ∃ n, fuel' = n + 1 := ⟨fuel' - 1, by omega⟩
    have ih : ExprTransfers ends fuel fuel' := ih (by omega)
    exact ⟨transfers_expression_succ ih, transfers_operators_succ hends ih,
      transfers_tighter_succ hends ih, transfers_unary_succ hends ih, transfers_suffixed_succ ih,
      transfers_suffixes_succ hends ih, transfers_arguments_succ ih,
      transfers_nextArguments_succ ih, transfers_primary_succ hends ih⟩

section

variable {fuel fuel' : Nat} (hle : fuel ≤ fuel') (hends : ∀ k, ends k → k.endsExpr)
include hle hends

theorem transfers_expression : Transfers ends Expr.erase (expression fuel) (expression fuel') :=
  (exprTransfers hle hends).expression

theorem transfers_operators (least : Nat) {left left' : Expr}
    (hleft : left'.erase = left.erase) :
    Transfers ends Expr.erase (operators fuel least left) (operators fuel' least left') :=
  (exprTransfers hle hends).operators least left left' hleft

theorem transfers_suffixed : Transfers ends Expr.erase (suffixed fuel) (suffixed fuel') :=
  (exprTransfers hle hends).suffixed

theorem transfers_arguments (list : ArgumentList) :
    Transfers ends Expr.eraseAll (arguments fuel list) (arguments fuel' list) :=
  (exprTransfers hle hends).arguments list

end

end Parse

end Offside
