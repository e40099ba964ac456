import Offside.Proofs.Parser.Grammar

/-!
# What is read is derived

Whenever an expression is read, the tokens that were read are an expression by the grammar, with the
tree that was built.

## Main definitions

* `Offside.Parse.Reads`: what is true of the tokens that a computation reads if it succeeds.
* `Offside.Parse.ReadsChain`: the tokens of operators of a level or more, and where they end.

## Main results

* `Offside.Parse.reads_expression`, `Offside.Parse.reads_unary`: expressions and operands.
-/

namespace Offside.Parse

variable {α β : Type} {p : Parser}

/-- If `x`, started in `p`, succeeds, then `ok` is true of the tokens that were read, the result and
the parser after it. -/
def Reads (p : Parser) (x : Parse α) (ok : List Kind → α → Parser → Prop) : Prop :=
  Yields p x (fun a q => q.Bounded ∧ ∃ used, p.kinds = used ++ q.kinds ∧ ok used a q)
    fun _ _ => True

theorem Reads.exists {x : Parse α} {ok : List Kind → α → Parser → Prop} (h : Reads p x ok) {a : α}
    {q : Parser} (hx : x.run p = .ok a q) :
    q.Bounded ∧ ∃ used, p.kinds = used ++ q.kinds ∧ ok used a q := by
  rw [Reads] at h
  exact h.ok hx

theorem Reads.mono {x : Parse α} {ok ok' : List Kind → α → Parser → Prop} (h : Reads p x ok)
    (hok : ∀ used a q, ok used a q → ok' used a q) : Reads p x ok' := by
  refine Yields.mono h ?_ fun _ _ hbad => hbad
  rintro a q ⟨hq, used, hused, ha⟩
  exact ⟨hq, used, hused, hok used a q ha⟩

/-! ### The basic steps -/

theorem reads_bind {x : Parse α} {f : α → Parse β} {ok : List Kind → α → Parser → Prop}
    {ok' : List Kind → β → Parser → Prop} (hx : Reads p x ok)
    (hf : ∀ used a q, q.Bounded → ok used a q →
      Reads q (f a) fun more b r => ok' (used ++ more) b r) :
    Reads p (x >>= f) ok' := by
  refine yields_bind (Yields.mono hx ?_ fun _ _ hbad => hbad)
  rintro a q ⟨hq, used, hused, ha⟩
  refine Yields.mono (hf used a q hq ha) ?_ fun _ _ hbad => hbad
  rintro b r ⟨hr, more, hmore, hb⟩
  exact ⟨hr, used ++ more, by rw [hused, hmore, List.append_assoc], hb⟩

theorem reads_pure {a : α} {ok : List Kind → α → Parser → Prop} (hp : p.Bounded) (ha : ok [] a p) :
    Reads p (pure a) ok := ⟨hp, [], rfl, ha⟩

theorem reads_kind {f : Kind → Parse β} {ok : List Kind → β → Parser → Prop}
    (h : Reads p (f p.current.kind) ok) : Reads p (kind >>= f) ok := h

theorem reads_place {f : Location → Parse β} {ok : List Kind → β → Parser → Prop}
    (h : ∀ place, Reads p (f place) ok) : Reads p (place >>= f) ok := h _

theorem reads_throw {e : Failure} {ok : List Kind → α → Parser → Prop} :
    Reads p (throw e : Parse α) ok := trivial

theorem reads_refuse {expected : Expectation} {ok : List Kind → α → Parser → Prop} :
    Reads p (refuse expected : Parse α) ok := by
  show Yields p (if p.current.kind.isInvalid then _ else _) _ _
  split <;> exact trivial

theorem reads_fail {error : SemanticError} {place : Location}
    {ok : List Kind → α → Parser → Prop} : Reads p (fail error place : Parse α) ok := trivial

theorem reads_advance {f : Unit → Parse β} {ok : List Kind → β → Parser → Prop} {k : Kind}
    (hp : p.Bounded) (hk : p.current.kind = k) (hne : k ≠ .endOfInput)
    (h : ∀ q, q.Bounded → Reads q (f ()) fun more b r => ok (k :: more) b r) :
    Reads p (advance >>= f) ok := by
  obtain rfl := hk
  obtain ⟨hkinds, hq⟩ := hp.advance hne
  refine Yields.mono (h p.advance hq) ?_ fun _ _ hbad => hbad
  rintro b r ⟨hr, more, hmore, hb⟩
  exact ⟨hr, p.current.kind :: more, by rw [hkinds, hmore]; rfl, hb⟩

/-- A computation after a test that may end it. -/
theorem reads_guard {c : Prop} [Decidable c] {x : Parse α} {y : Parse β}
    {ok : List Kind → β → Parser → Prop} (hx : Reads p x fun _ _ _ => False)
    (hy : ¬ c → Reads p y ok) : Reads p (if c then x >>= fun _ => y else y) ok := by
  split
  · exact reads_bind hx fun _ _ _ _ hfalse => hfalse.elim
  · exact hy ‹_›

theorem reads_expect {f : Unit → Parse β} {ok : List Kind → β → Parser → Prop} {mark : Kind}
    {expected : Expectation} (hp : p.Bounded) (hne : mark ≠ .endOfInput)
    (h : ∀ q, q.Bounded → Reads q (f ()) fun more b r => ok (mark :: more) b r) :
    Reads p (expect mark expected >>= f) ok := by
  rw [expect, bind_assoc]
  refine reads_kind ?_
  split
  · next hk => exact reads_advance hp hk hne h
  · exact reads_bind reads_refuse fun _ _ _ _ hfalse => (hfalse : False).elim

theorem reads_accept? {f : Bool → Parse β} {ok : List Kind → β → Parser → Prop} {mark : Kind}
    (hp : p.Bounded) (hne : mark ≠ .endOfInput)
    (yes : ∀ q, q.Bounded → Reads q (f true) fun more b r => ok (mark :: more) b r)
    (no : Reads p (f false) ok) : Reads p (accept? mark >>= f) ok := by
  rw [accept?, bind_assoc]
  refine reads_kind ?_
  split
  · next hk =>
    rw [bind_assoc]
    exact reads_advance hp hk hne yes
  · exact no

theorem reads_expectName {f : String → Parse β} {ok : List Kind → β → Parser → Prop}
    {naming : Naming} (hp : p.Bounded)
    (h : ∀ name q, q.Bounded → Reads q (f name) fun more b r => ok (.identifier name :: more) b r) :
    Reads p (expectName naming >>= f) ok := by
  rw [expectName, bind_assoc]
  refine reads_kind ?_
  split
  · next name hk =>
    rw [bind_assoc]
    exact reads_advance hp hk Kind.noConfusion (h name)
  · exact reads_bind reads_refuse fun _ _ _ _ hfalse => (hfalse : False).elim

theorem reads_finishExpr {f : Expr → Parse β} {ok : List Kind → β → Parser → Prop}
    {place : Location} {build : Tag → Expr} (hp : p.Bounded)
    (h : ∀ tag q, q.Bounded → q.current = p.current → Reads q (f (build tag)) ok) :
    Reads p (finishExpr place build >>= f) ok := h _ _ hp rfl

theorem reads_finished {ok : List Kind → Expr → Parser → Prop} {place : Location}
    {build : Tag → Expr} (hp : p.Bounded)
    (h : ∀ tag q, q.current = p.current → ok [] (build tag) q) :
    Reads p (finishExpr place build) ok := ⟨hp, [], rfl, h _ _ rfl⟩

/-! ### Expressions -/

/-- Operators of the level `least` or more with their operands, read from `p` to `q`, which make `e`
of the operand `left` before them. -/
structure Climbs (p : Parser) (least : Nat) (left : Expr) (links : List Link) (e : Expr)
    (q : Parser) : Prop where
  operands : ∀ l ∈ links, Derives l.operand.tokens (.operand l.operand.expr)
  levels : ∀ l ∈ links, least ≤ l.level
  start : ∀ l ∈ links.head?, l.mark = p.current.kind
  stop : ∀ op ∈ BinaryOp.ofKind? q.current.kind, op.precedence < least
  tree : e.erase = left.erase.group links

/-- The tokens `used` are such operators and operands. -/
def ReadsChain (p : Parser) (least : Nat) (left : Expr) (used : List Kind) (e : Expr)
    (q : Parser) : Prop :=
  ∃ links, used = links.flatMap Link.tokens ∧ Climbs p least left links e q

theorem ReadsChain.nil {least : Nat} {left : Expr}
    (h : ∀ op ∈ BinaryOp.ofKind? p.current.kind, op.precedence < least) :
    ReadsChain p least left [] left p :=
  ⟨[], rfl, List.forall_mem_nil _, List.forall_mem_nil _, fun _ hl => absurd hl (by simp), h,
    Expr.group_nil.symm⟩

/-- An operator and its operand, with what binds tighter than the operator, come before the looser
operators. -/
theorem Climbs.append {p q r s t : Parser} {least : Nat} {left operand right e : Expr} {tag : Tag}
    {link : Link} {tight loose : List Link} (hmark : link.mark = p.current.kind)
    (hoperand : Derives link.operand.tokens (.operand link.operand.expr))
    (hsame : operand.erase = link.operand.expr) (hleast : least ≤ link.level)
    (htight : Climbs q (link.level + 1) operand tight right r)
    (hcurrent : s.current = r.current)
    (hloose : Climbs s least (.binary tag link.op left right) loose e t) :
    Climbs p least left (link :: (tight ++ loose)) e t where
  operands := List.forall_mem_cons.2 ⟨hoperand,
    List.forall_mem_append.2 ⟨htight.operands, hloose.operands⟩⟩
  levels := by
    refine List.forall_mem_cons.2 ⟨hleast, List.forall_mem_append.2 ⟨fun l hl => ?_, hloose.levels⟩⟩
    exact Nat.le_trans hleast (Nat.le_of_succ_le (htight.levels l hl))
  start := by
    rintro _ ⟨⟩
    exact hmark
  stop := hloose.stop
  tree := by
    have hhead : ∀ l ∈ loose.head?, l.level ≤ link.level := by
      intro l hl
      refine Nat.le_of_lt_succ (htight.stop l.op ?_)
      rw [← hcurrent, ← hloose.start l hl]
      exact l.ofKind?_mark
    rw [hloose.tree, Expr.erase, htight.tree, hsame,
      Expr.group_fold (fun l hl => htight.levels l hl) hhead]

/-- The tokens `used` are expressions with commas between them. -/
def ReadsList (used : List Kind) (es : List Expr) : Prop :=
  ∃ parts : List Part, used = Part.listTokens parts ∧
    (∀ a ∈ parts, Derives a.tokens (.expression a.expr)) ∧
    Expr.eraseAll es = parts.map Part.expr

/-- The name `addr` before an opening parenthesis is not read as a name. -/
def NotAddress (used : List Kind) (q : Parser) : Prop :=
  used = [.identifier "addr"] → q.current.kind ≠ .symbol .openParen

theorem NotAddress.of_length {used : List Kind} {q : Parser} (h : 1 < used.length) :
    NotAddress used q := by
  rintro rfl
  exact absurd h (by decide)

/-- What every function that reads a part of an expression reads. -/
private structure ExprReads (fuel : Nat) : Prop where
  expression p : p.Bounded → Reads p (expression fuel) fun used e _ =>
    Derives used (.expression e.erase)
  operators p least left : p.Bounded → Reads p (operators fuel least left) (ReadsChain p least left)
  tighter p op right : p.Bounded →
    Reads p (tighter fuel op right) (ReadsChain p (op.precedence + 1) right)
  unary p : p.Bounded → Reads p (unary fuel) fun used e _ => Derives used (.operand e.erase)
  suffixed p : p.Bounded → Reads p (suffixed fuel) fun used e _ => Derives used (.suffixed e.erase)
  suffixes p e before : p.Bounded → Derives before (.suffixed e.erase) → NotAddress before p →
    Reads p (suffixes fuel e) fun used e' _ => Derives (before ++ used) (.suffixed e'.erase)
  arguments p list : p.Bounded → Reads p (arguments fuel list) fun used es _ => ReadsList used es
  nextArguments p list : p.Bounded → Reads p (nextArguments fuel list) fun used es _ =>
    ReadsList used es ∧ es ≠ []
  primary p : p.Bounded → Reads p (primary fuel) fun used e q =>
    Derives used (.suffixed e.erase) ∧ NotAddress used q

section

variable {fuel : Nat} (ih : ExprReads fuel)
include ih

private theorem reads_expression_succ (p : Parser) (hp : p.Bounded) :
    Reads p (expression (fuel + 1)) fun used e _ => Derives used (.expression e.erase) := by
  rw [expression]
  refine reads_bind (ih.unary p hp) fun used left q hq hleft => ?_
  refine (ih.operators q 0 left hq).mono ?_
  rintro _ e r ⟨links, rfl, hlinks⟩
  rw [hlinks.tree]
  exact .expression hleft hlinks.operands

private theorem reads_operators_succ (p : Parser) (least : Nat) (left : Expr) (hp : p.Bounded) :
    Reads p (operators (fuel + 1) least left) (ReadsChain p least left) := by
  rw [operators]
  refine reads_kind ?_
  cases hop : BinaryOp.ofKind? p.current.kind with
  | none => exact reads_pure hp (.nil (by simp [hop]))
  | some op =>
    dsimp only
    split
    · next hlt => exact reads_pure hp (.nil (by simpa [hop] using hlt))
    · next hge =>
      have hne : p.current.kind ≠ .endOfInput := by
        intro hk
        rw [hk] at hop
        cases hop
      refine reads_place fun place => reads_advance hp rfl hne fun q hq => ?_
      refine reads_bind (ih.unary q hq) fun tokens operand r hr hoperand => ?_
      refine reads_bind (ih.tighter r op operand hr) fun _ right s hs htight => ?_
      refine reads_finishExpr hs fun tag t ht hcurrent => ?_
      refine (ih.operators t least _ ht).mono ?_
      obtain ⟨tight, rfl, htight⟩ := htight
      rintro _ e u ⟨loose, rfl, hloose⟩
      let link : Link := ⟨p.current.kind, op, ⟨tokens, operand.erase⟩, hop⟩
      refine ⟨link :: (tight ++ loose), by simp [link, Link.tokens], ?_⟩
      exact .append rfl hoperand rfl (Nat.le_of_not_lt hge) htight hcurrent hloose

private theorem reads_tighter_succ (p : Parser) (op : BinaryOp) (right : Expr) (hp : p.Bounded) :
    Reads p (tighter (fuel + 1) op right) (ReadsChain p (op.precedence + 1) right) := by
  rw [tighter]
  refine reads_kind ?_
  cases hnext : BinaryOp.ofKind? p.current.kind with
  | none => exact reads_pure hp (.nil (by simp [hnext]))
  | some next =>
    dsimp only
    split
    · exact ih.operators p _ right hp
    · next hle => exact reads_pure hp (.nil (by simpa [hnext, Nat.lt_succ_iff] using hle))

private theorem reads_unary_succ (p : Parser) (hp : p.Bounded) :
    Reads p (unary (fuel + 1)) fun used e _ => Derives used (.operand e.erase) := by
  rw [unary]
  refine reads_place fun place => reads_kind ?_
  cases hsign : Sign.ofKind? p.current.kind with
  | none => exact (ih.suffixed p hp).mono fun _ _ _ h => .operand h
  | some sign =>
    have hne : p.current.kind ≠ .endOfInput := by
      intro hk
      rw [hk] at hsign
      cases hsign
    refine reads_advance hp rfl hne fun q hq => ?_
    refine reads_bind (ih.unary q hq) fun used operand r hr hoperand => ?_
    have hall : Derives (p.current.kind :: (used ++ [])) (.operand (sign.before operand.erase)) := by
      rw [List.append_nil]
      exact .sign hsign hoperand
    cases sign with
    | plus => exact reads_pure hr hall
    | apply op => exact reads_finished hr fun tag _ _ => hall

private theorem reads_suffixed_succ (p : Parser) (hp : p.Bounded) :
    Reads p (suffixed (fuel + 1)) fun used e _ => Derives used (.suffixed e.erase) := by
  rw [suffixed]
  refine reads_bind (ih.primary p hp) fun used e q hq he => ?_
  exact ih.suffixes q e used hq he.1 he.2

private theorem reads_suffixes_succ (p : Parser) (e : Expr) (before : List Kind) (hp : p.Bounded)
    (he : Derives before (.suffixed e.erase)) (hbefore : NotAddress before p) :
    Reads p (suffixes (fuel + 1) e) fun used e' _ =>
      Derives (before ++ used) (.suffixed e'.erase) := by
  -- What a suffix makes may have further suffixes.
  have finish {q : Parser} {place : Location} {build : Tag → Expr} (hq : q.Bounded)
      {suffix : List Kind} (hsuffix : suffix ≠ [])
      (h : ∀ tag, Derives (before ++ suffix) (.suffixed (build tag).erase)) :
      Reads q (finishExpr place build >>= suffixes fuel) fun used e' _ =>
        Derives (before ++ suffix ++ used) (.suffixed e'.erase) := by
    refine reads_finishExpr hq fun tag r hr _ => ?_
    refine ih.suffixes r _ (before ++ suffix) hr (h tag) (.of_length ?_)
    obtain ⟨k, rest, rfl, -⟩ := he.exists_head
    have := List.length_pos_iff.2 hsuffix
    rw [List.length_append, List.length_cons]
    omega
  rw [suffixes]
  refine reads_place fun place => reads_kind ?_
  split
  · next hk =>
    refine reads_advance hp hk Kind.noConfusion fun q hq => ?_
    split
    · exact reads_fail
    · next callee hcallee =>
      obtain ⟨tag, rfl⟩ : ∃ tag, e = .var tag callee := by
        cases e <;> first | cases hcallee; exact ⟨_, rfl⟩ | cases hcallee
      refine reads_bind (ih.arguments q .call hq) fun used args r hr hargs => ?_
      refine reads_expect hr Kind.noConfusion fun s hs => ?_
      obtain ⟨parts, rfl, hparts, hexprs⟩ := hargs
      have hcall := Derives.call he (fun h => hbefore h hk) hparts
      rw [← hexprs] at hcall
      refine (finish hs (List.cons_ne_nil _ _) fun tag => hcall).mono fun used e' _ h => ?_
      simpa using h
  · next hk =>
    refine reads_advance hp hk Kind.noConfusion fun q hq => ?_
    refine reads_bind (ih.expression q hq) fun used index r hr hindex => ?_
    refine reads_expect hr Kind.noConfusion fun s hs => ?_
    have hall := Derives.index he hindex
    refine (finish hs (List.cons_ne_nil _ _) fun tag => hall).mono fun used e' _ h => ?_
    simpa using h
  · next hk =>
    refine reads_advance hp hk Kind.noConfusion fun q hq => ?_
    refine reads_expectName hq fun field r hr => ?_
    have hall := Derives.member he field
    refine (finish hr (List.cons_ne_nil _ _) fun tag => hall).mono fun used e' _ h => ?_
    simpa using h
  · exact reads_pure hp (by rwa [List.append_nil])

private theorem reads_arguments_succ (p : Parser) (list : ArgumentList) (hp : p.Bounded) :
    Reads p (arguments (fuel + 1) list) fun used es _ => ReadsList used es := by
  rw [arguments]
  refine reads_kind ?_
  split
  · exact reads_pure hp ⟨[], rfl, List.forall_mem_nil _, rfl⟩
  · exact (ih.nextArguments p list hp).mono fun _ _ _ h => h.1

private theorem reads_nextArguments_succ (p : Parser) (list : ArgumentList) (hp : p.Bounded) :
    Reads p (nextArguments (fuel + 1) list) fun used es _ => ReadsList used es ∧ es ≠ [] := by
  rw [nextArguments]
  refine reads_kind (reads_guard reads_refuse fun _ => ?_)
  refine reads_bind (ih.expression p hp) fun tokens e q hq he => ?_
  refine reads_accept? hq Kind.noConfusion (fun r hr => ?_) (reads_kind ?_)
  · refine reads_bind (ih.nextArguments r list hr) fun more es s hs hes => reads_pure hs ?_
    obtain ⟨⟨parts, rfl, hparts, hexprs⟩, hne⟩ := hes
    have hparts' : parts ≠ [] := by
      rintro rfl
      cases es with
      | nil => exact hne rfl
      | cons => cases hexprs
    refine ⟨⟨⟨tokens, e.erase⟩ :: parts, ?_, List.forall_mem_cons.2 ⟨he, hparts⟩, ?_⟩, by simp⟩
    · rw [Part.listTokens_cons _ hparts', List.append_nil]
    · rw [Expr.eraseAll, hexprs, List.map_cons]
  · refine reads_guard reads_refuse fun _ => reads_pure hq ?_
    refine ⟨⟨[⟨tokens, e.erase⟩], ?_, by simpa using he, rfl⟩, by simp⟩
    rw [Part.listTokens_singleton, List.append_nil]

private theorem reads_primary_succ (p : Parser) (hp : p.Bounded) :
    Reads p (primary (fuel + 1)) fun used e q =>
      Derives used (.suffixed e.erase) ∧ NotAddress used q := by
  rw [primary]
  refine reads_place fun place => reads_kind ?_
  split
  · next text value hk =>
    refine reads_advance hp hk Kind.noConfusion fun q hq => ?_
    exact reads_finished hq fun tag r _ => ⟨.number text value, fun h => by cases h⟩
  · next name hk =>
    refine reads_advance hp hk Kind.noConfusion fun q hq => reads_kind ?_
    split
    · next haddr =>
      obtain ⟨rfl, hopen⟩ := haddr
      refine reads_advance hq hopen Kind.noConfusion fun r hr => ?_
      refine reads_bind (ih.expression r hr) fun used operand s hs hoperand => ?_
      refine reads_expect hs Kind.noConfusion fun t ht => reads_finished ht fun tag u _ => ?_
      exact ⟨.addressOf hoperand, .of_length (by simp)⟩
    · next haddr =>
      refine reads_finished hq fun tag r hcurrent => ⟨.name name, fun h hopen => haddr ?_⟩
      rw [← hcurrent]
      exact ⟨by simpa using h, hopen⟩
  · next hk =>
    refine reads_advance hp hk Kind.noConfusion fun q hq => ?_
    refine reads_bind (ih.expression q hq) fun used e r hr he => ?_
    refine reads_expect hr Kind.noConfusion fun s hs => reads_pure hs ?_
    exact ⟨.group he, .of_length (by simp)⟩
  · exact reads_refuse

end

private theorem exprReads (fuel : Nat) : ExprReads fuel := by
  induction fuel with
  | zero => constructor <;> intros <;> exact reads_throw
  | succ fuel ih =>
    exact ⟨reads_expression_succ ih, reads_operators_succ ih, reads_tighter_succ ih,
      reads_unary_succ ih, reads_suffixed_succ ih, reads_suffixes_succ ih, reads_arguments_succ ih,
      reads_nextArguments_succ ih, reads_primary_succ ih⟩

/-- Whatever is read as an expression is one by the grammar. -/
theorem reads_expression (hp : p.Bounded) (fuel : Nat) :
    Reads p (expression fuel) fun used e _ => Derives used (.expression e.erase) :=
  (exprReads fuel).expression p hp

/-- Whatever is read as an operand is one by the grammar. -/
theorem reads_unary (hp : p.Bounded) (fuel : Nat) :
    Reads p (unary fuel) fun used e _ => Derives used (.operand e.erase) :=
  (exprReads fuel).unary p hp

end Offside.Parse
