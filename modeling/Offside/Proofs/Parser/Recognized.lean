import Offside.Proofs.Parser.Grammar

/-!
# What is derived is read

The tokens of a phrase are read as its tree wherever they stand, as long as no token follows with
which the phrase goes on. For suffixes this is said with whatever is read after them, because the
parser meets the suffixes of an expression from the inside out, as the grammar has them, but builds
the tree on the way.

## Main definitions

* `Offside.Phrase.IsRead`: tokens that are read as a phrase.

## Main results

* `Offside.Parse.succeeds_operators`: a chain of operators is read as the tree of the chain.
* `Offside.Derives.isRead`: every phrase is read.
-/

namespace Offside

open Parse

/-- The tokens `ks` are read as a phrase: before any token with which it does not go on. A primary
expression with suffixes is read and then looked at for further ones, whatever comes of that. -/
def Phrase.IsRead (ks : List Kind) : Phrase → Prop
  | .expression e => ∀ {p : Parser} {fuel : Nat} {k : Kind} {K : List Kind},
    p.kinds = ks ++ k :: K → k.extendsExpr = false → p.Enough 3 fuel →
    Succeeds p (Parse.expression fuel) fun e' q => e'.erase = e ∧ q.kinds = k :: K
  | .operand e => ∀ {p : Parser} {fuel : Nat} {k : Kind} {K : List Kind},
    p.kinds = ks ++ k :: K → k.extendsOperand = false → p.Enough 2 fuel →
    Succeeds p (unary fuel) fun e' q => e'.erase = e ∧ q.kinds = k :: K
  | .suffixed e => ∀ {p : Parser} {fuel : Nat} {k : Kind} {K : List Kind}
      {ok : Expr → Parser → Prop},
    p.kinds = ks ++ k :: K → (ks = [.identifier "addr"] → k ≠ .symbol .openParen) →
    p.Enough 1 fuel →
    (∀ n e' q, e'.erase = e → q.kinds = k :: K → q.Enough 0 n → Succeeds q (suffixes n e') ok) →
    Succeeds p (Parse.suffixed fuel) ok

namespace Parse

variable {α β : Type} {p : Parser}

theorem succeeds_finishExpr {f : Expr → Parse β} {place : Location} {build : Tag → Expr}
    {ok : β → Parser → Prop} (h : ∀ tag q, q.kinds = p.kinds → Succeeds q (f (build tag)) ok) :
    Succeeds p (finishExpr place build >>= f) ok := h _ _ rfl

theorem succeeds_finished {place : Location} {build : Tag → Expr} {ok : Expr → Parser → Prop}
    (h : ∀ tag q, q.kinds = p.kinds → ok (build tag) q) :
    Succeeds p (finishExpr place build) ok := h _ _ rfl

/-! ### Operators -/

section

variable {links : List Link} {k : Kind} {K : List Kind}

/-- What stands after an operand of a chain is an operator or what stands after the chain. -/
theorem exists_afterOperand (links : List Link) (hk : k.extendsExpr = false) (K : List Kind) :
    ∃ k' K', links.flatMap Link.tokens ++ k :: K = k' :: K' ∧ k'.extendsOperand = false := by
  cases links with
  | nil => exact ⟨k, K, rfl, (Kind.extendsExpr_eq_false_iff.1 hk).1⟩
  | cons link links =>
    exact ⟨link.mark, _, rfl, BinaryOp.extendsOperand_eq_false link.ofKind?_mark⟩

/-- Where the reading of operators of a level or more stops. -/
structure Stops (least : Nat) (links tight loose : List Link) : Prop where
  split : links = tight ++ loose
  levels : ∀ l ∈ tight, least ≤ l.level
  stop : ∀ l ∈ loose.head?, l.level < least

section

variable {least : Nat} {link : Link} {tight loose more rest : List Link}
  (htight : Stops (link.level + 1) links tight loose) (hmore : Stops least loose more rest)
include htight hmore

/-- An operator takes what binds tighter, and the reading goes on after that. -/
theorem Stops.cons (hlink : least ≤ link.level) :
    Stops least (link :: links) (link :: (tight ++ more)) rest where
  split := by rw [htight.split, hmore.split, List.cons_append, List.append_assoc]
  levels := by
    refine List.forall_mem_cons.2 ⟨hlink, List.forall_mem_append.2 ⟨fun l hl => ?_, hmore.levels⟩⟩
    exact Nat.le_trans hlink (Nat.le_of_succ_le (htight.levels l hl))
  stop := hmore.stop

/-- What it takes makes its right operand. -/
theorem Stops.group_cons (left : Expr) :
    left.group (link :: (tight ++ more)) =
      Expr.group (.binary .erased link.op left (link.operand.expr.group tight)) more := by
  refine Expr.group_fold (fun l hl => htight.levels l hl) fun l hl => ?_
  refine Nat.le_of_lt_succ (htight.stop l ?_)
  rw [hmore.split, List.head?_append, hl]
  rfl

end

/-- A chain is read up to the first operator that is too weak. -/
private def ReadsLinks (fuel : Nat) : Prop :=
  ∀ {p : Parser} {links : List Link} {least : Nat} {left : Expr} {k : Kind} {K : List Kind},
    (∀ l ∈ links, (Phrase.operand l.operand.expr).IsRead l.operand.tokens) →
    k.extendsExpr = false → p.kinds = links.flatMap Link.tokens ++ k :: K → p.Enough 0 fuel →
    Succeeds p (operators fuel least left) fun e q => ∃ tight loose,
      Stops least links tight loose ∧ e.erase = left.erase.group tight ∧
        q.kinds = loose.flatMap Link.tokens ++ k :: K

private theorem succeeds_tighter {fuel : Nat} {op : BinaryOp} {right : Expr}
    (ih : ∀ n < fuel, ReadsLinks n)
    (hlinks : ∀ l ∈ links, (Phrase.operand l.operand.expr).IsRead l.operand.tokens)
    (hk : k.extendsExpr = false) (hp : p.kinds = links.flatMap Link.tokens ++ k :: K)
    (hfuel : p.Enough 1 fuel) :
    Succeeds p (tighter fuel op right) fun e q => ∃ tight loose,
      Stops (op.precedence + 1) links tight loose ∧ e.erase = right.erase.group tight ∧
        q.kinds = loose.flatMap Link.tokens ++ k :: K := by
  obtain ⟨fuel, rfl⟩ := hfuel.exists_succ
  rw [tighter]
  cases links with
  | nil =>
    refine succeeds_kind hp ?_
    rw [(Kind.extendsExpr_eq_false_iff.1 hk).2]
    exact ⟨[], [], ⟨rfl, by simp, by simp⟩, by simp, hp⟩
  | cons link links =>
    refine succeeds_kind hp ?_
    rw [link.ofKind?_mark]
    dsimp only
    split
    · exact ih fuel (Nat.lt_succ_self fuel) hlinks hk hp hfuel.here
    · next hle =>
      refine ⟨[], link :: links, ⟨rfl, by simp, ?_⟩, by simp, hp⟩
      rintro _ ⟨⟩
      exact Nat.lt_succ_of_le (Nat.le_of_not_lt hle)

private theorem readsLinks (fuel : Nat) : ReadsLinks fuel := by
  induction fuel using Nat.strongRecOn with
  | ind fuel ih =>
    intro p links least left k K hlinks hk hp hfuel
    obtain ⟨fuel, rfl⟩ := hfuel.exists_succ
    rw [operators]
    cases links with
    | nil =>
      refine succeeds_kind hp ?_
      rw [(Kind.extendsExpr_eq_false_iff.1 hk).2]
      exact ⟨[], [], ⟨rfl, by simp, by simp⟩, by simp, hp⟩
    | cons link links =>
      refine succeeds_kind hp ?_
      rw [link.ofKind?_mark]
      dsimp only
      split
      · next hlt =>
        refine ⟨[], link :: links, ⟨rfl, by simp, ?_⟩, by simp, hp⟩
        rintro _ ⟨⟩
        exact hlt
      · next hge =>
        obtain ⟨hoperand, hlinks⟩ := List.forall_mem_cons.1 hlinks
        obtain ⟨k', K', hafter, hk'⟩ := exists_afterOperand links hk K
        have hp : p.kinds = link.mark :: (link.operand.tokens ++ k' :: K') := by
          rw [hp, List.flatMap_cons, List.append_assoc, hafter]
          rfl
        refine succeeds_place fun place => succeeds_advance hp (by simp) fun q hq _ => ?_
        have hfuel : q.Enough 15 fuel := hfuel.after (by grind)
        refine succeeds_bind ((hoperand hq hk' (hfuel.weaken (by omega))).mono ?_)
        rintro right r ⟨hright, hr⟩
        have hfuel : r.Enough 15 fuel := hfuel.mono (by grind)
        rw [← hafter] at hr
        refine succeeds_bind ((succeeds_tighter (fun n hn => ih n (by omega)) hlinks hk hr
          (hfuel.weaken (by omega))).mono ?_)
        rintro right' s ⟨tight, loose, hstops, htree, hs⟩
        refine succeeds_finishExpr fun tag t ht => ?_
        have hloose : ∀ l ∈ loose, (Phrase.operand l.operand.expr).IsRead l.operand.tokens :=
          fun l hl => hlinks l (by rw [hstops.split]; exact List.mem_append_right _ hl)
        have hfuel : t.Enough 0 fuel := by
          refine (hfuel.mono ?_).weaken (Nat.zero_le _)
          rw [ht, hs, hr, hstops.split]
          simp
        refine (ih fuel (Nat.lt_succ_self fuel) hloose hk (ht.trans hs) hfuel).mono ?_
        rintro e u ⟨more, rest, hmore, he, hu⟩
        refine ⟨link :: (tight ++ more), rest, hstops.cons hmore (Nat.le_of_not_lt hge), ?_, hu⟩
        rw [he, Expr.erase, htree, hright, hstops.group_cons hmore]

/-- A chain of operators is read as the tree of the chain. -/
theorem succeeds_operators {fuel : Nat} {left : Expr}
    (hlinks : ∀ l ∈ links, (Phrase.operand l.operand.expr).IsRead l.operand.tokens)
    (hk : k.extendsExpr = false) (hp : p.kinds = links.flatMap Link.tokens ++ k :: K)
    (hfuel : p.Enough 0 fuel) :
    Succeeds p (operators fuel 0 left) fun e q =>
      e.erase = left.erase.group links ∧ q.kinds = k :: K := by
  refine (readsLinks fuel hlinks hk hp hfuel).mono ?_
  rintro e q ⟨tight, loose, ⟨rfl, -, hstop⟩, he, hq⟩
  cases loose with
  | nil => exact ⟨by rw [List.append_nil, he], hq⟩
  | cons l loose => exact absurd (hstop l rfl) (Nat.not_lt_zero _)

end

/-! ### Suffixes -/

section

variable {k : Kind} {K : List Kind} {fuel : Nat} {ok : Expr → Parser → Prop}

/-- The suffixes of an expression end before any other token. -/
theorem succeeds_suffixes_nil {e : Expr} (hp : p.kinds = k :: K) (hk : k.extendsOperand = false)
    (hfuel : p.Enough 0 fuel) (h : ok e p) : Succeeds p (suffixes fuel e) ok := by
  obtain ⟨fuel, rfl⟩ := hfuel.exists_succ
  rw [suffixes]
  refine succeeds_place fun place => succeeds_kind hp ?_
  split
  · cases hk
  · cases hk
  · cases hk
  · exact h

/-- A primary expression that takes all the tokens `ks`. -/
theorem succeeds_suffixed_of_primary {ks : List Kind} {e : Expr} (hp : p.kinds = ks ++ k :: K)
    (hfuel : p.Enough 1 fuel)
    (hprimary : ∀ n, p.Enough 0 (n + 1) → Succeeds p (primary (n + 1)) fun e' q =>
      e'.erase = e ∧ q.kinds = k :: K)
    (h : ∀ n e' q, e'.erase = e → q.kinds = k :: K → q.Enough 0 n → Succeeds q (suffixes n e') ok) :
    Succeeds p (suffixed fuel) ok := by
  obtain ⟨fuel, rfl⟩ := hfuel.exists_succ
  obtain ⟨n, rfl⟩ := hfuel.here.exists_succ
  rw [suffixed]
  refine succeeds_bind ((hprimary n hfuel.here).mono ?_)
  rintro e' q ⟨he', hq⟩
  exact h _ e' q he' hq (hfuel.here.mono (by simp [hp, hq]))

/-- Expressions with commas between them are read up to the closing parenthesis. -/
private theorem succeeds_nextArguments {parts : List Part} {list : ArgumentList} (hne : parts ≠ [])
    (hparts : ∀ a ∈ parts, Derives a.tokens (.expression a.expr))
    (hreads : ∀ a ∈ parts, (Phrase.expression a.expr).IsRead a.tokens)
    (hp : p.kinds = Part.listTokens parts ++ .symbol .closeParen :: K) (hfuel : p.Enough 4 fuel) :
    Succeeds p (nextArguments fuel list) fun es q =>
      Expr.eraseAll es = parts.map Part.expr ∧ q.kinds = .symbol .closeParen :: K := by
  induction parts generalizing p fuel with
  | nil => exact absurd rfl hne
  | cons part parts ih =>
    obtain ⟨fuel, rfl⟩ := hfuel.exists_succ
    have hread : (Phrase.expression part.expr).IsRead part.tokens := hreads part List.mem_cons_self
    obtain ⟨k, rest, hk, hstarts⟩ := (hparts part List.mem_cons_self).exists_head
    have hclose : k ≠ .symbol .closeParen := by
      rintro rfl
      cases hstarts
    rw [nextArguments]
    cases parts with
    | nil =>
      rw [Part.listTokens_singleton] at hp
      have hhead : p.kinds = k :: (rest ++ .symbol .closeParen :: K) := by rw [hp, hk]; rfl
      refine succeeds_kind hhead ?_
      rw [if_neg hclose]
      refine succeeds_bind ((hread hp rfl hfuel.here).mono ?_)
      rintro e q ⟨he, hq⟩
      refine succeeds_accept?_of_ne hq (by simp) (succeeds_kind hq ?_)
      rw [if_neg (by simp)]
      exact ⟨by simp [Expr.eraseAll, he], hq⟩
    | cons next parts =>
      rw [Part.listTokens_cons _ (by simp), List.append_assoc, List.cons_append] at hp
      have hhead : ∃ K', p.kinds = k :: K' := ⟨_, by rw [hp, hk]; rfl⟩
      obtain ⟨K', hhead⟩ := hhead
      refine succeeds_kind hhead ?_
      rw [if_neg hclose]
      refine succeeds_bind ((hread hp rfl hfuel.here).mono ?_)
      rintro e q ⟨he, hq⟩
      refine succeeds_accept?_of_eq hq (by simp) fun r hr => ?_
      have hfuel : r.Enough 15 fuel := hfuel.after (by grind)
      refine succeeds_bind ((ih (by simp) (fun a ha => hparts a (List.mem_cons_of_mem _ ha))
        (fun a ha => hreads a (List.mem_cons_of_mem _ ha)) hr (hfuel.weaken (by omega))).mono ?_)
      rintro es s ⟨hes, hs⟩
      exact ⟨by rw [Expr.eraseAll, he, hes]; rfl, hs⟩

private theorem succeeds_arguments {parts : List Part} {list : ArgumentList}
    (hparts : ∀ a ∈ parts, Derives a.tokens (.expression a.expr))
    (hread : ∀ a ∈ parts, (Phrase.expression a.expr).IsRead a.tokens)
    (hp : p.kinds = Part.listTokens parts ++ .symbol .closeParen :: K) (hfuel : p.Enough 5 fuel) :
    Succeeds p (arguments fuel list) fun es q =>
      Expr.eraseAll es = parts.map Part.expr ∧ q.kinds = .symbol .closeParen :: K := by
  obtain ⟨fuel, rfl⟩ := hfuel.exists_succ
  rw [arguments]
  cases parts with
  | nil =>
    refine succeeds_kind hp ?_
    rw [if_pos rfl]
    exact ⟨rfl, hp⟩
  | cons part parts =>
    obtain ⟨k, rest, hk, hstarts⟩ := (hparts part List.mem_cons_self).exists_head
    obtain ⟨K', hhead⟩ : ∃ K', p.kinds = k :: K' := by
      cases parts with
      | nil => exact ⟨_, by rw [hp, Part.listTokens_singleton, hk]; rfl⟩
      | cons => exact ⟨_, by rw [hp, Part.listTokens_cons _ (by simp), hk]; rfl⟩
    have hclose : k ≠ .symbol .closeParen := by
      rintro rfl
      cases hstarts
    refine succeeds_kind hhead ?_
    rw [if_neg hclose]
    exact succeeds_nextArguments (by simp) hparts hread hp hfuel.here

end

/-! ### Rule by rule -/

section

variable {ks : List Kind} {e : Expr}

private theorem isRead_number (text : String) (value : Number) :
    (Phrase.suffixed (.number .erased value)).IsRead [.number text value] := by
  intro p fuel k K ok hp _ hfuel h
  refine succeeds_suffixed_of_primary hp hfuel (fun n _ => ?_) h
  rw [primary]
  refine succeeds_place fun place => succeeds_kind hp (succeeds_advance hp (by simp) ?_)
  exact fun q hq _ => succeeds_finished fun tag r hr => ⟨rfl, hr.trans hq⟩

private theorem isRead_name (name : String) :
    (Phrase.suffixed (.var .erased name)).IsRead [.identifier name] := by
  intro p fuel k K ok hp haddr hfuel h
  refine succeeds_suffixed_of_primary hp hfuel (fun n _ => ?_) h
  rw [primary]
  refine succeeds_place fun place => succeeds_kind hp (succeeds_advance hp (by simp) ?_)
  intro q hq _
  refine succeeds_kind hq ?_
  rw [if_neg fun hboth => haddr (by rw [hboth.1]) hboth.2]
  exact succeeds_finished fun tag r hr => ⟨rfl, hr.trans hq⟩

private theorem isRead_addressOf (hplace : (Phrase.expression e).IsRead ks) :
    (Phrase.suffixed (.addressOf .erased e)).IsRead
      (.identifier "addr" :: .symbol .openParen :: (ks ++ [.symbol .closeParen])) := by
  intro p fuel k K ok hp _ hfuel h
  refine succeeds_suffixed_of_primary hp hfuel (fun n hn => ?_) h
  have hp : p.kinds = .identifier "addr" :: .symbol .openParen ::
      (ks ++ .symbol .closeParen :: k :: K) := by simpa using hp
  rw [primary]
  refine succeeds_place fun place => succeeds_kind hp (succeeds_advance hp (by simp) ?_)
  intro q hq _
  refine succeeds_kind hq ?_
  rw [if_pos ⟨rfl, rfl⟩]
  refine succeeds_advance hq (by simp) fun r hr _ => ?_
  have hn : r.Enough 15 n := hn.after (by grind)
  refine succeeds_bind ((hplace hr rfl (hn.weaken (by omega))).mono ?_)
  rintro e' s ⟨he', hs⟩
  refine succeeds_expect hs (by simp) fun t ht _ => succeeds_finished fun tag u hu => ?_
  exact ⟨by rw [Expr.erase, he'], hu.trans ht⟩

private theorem isRead_group (hinside : (Phrase.expression e).IsRead ks) :
    (Phrase.suffixed e).IsRead (.symbol .openParen :: (ks ++ [.symbol .closeParen])) := by
  intro p fuel k K ok hp _ hfuel h
  refine succeeds_suffixed_of_primary hp hfuel (fun n hn => ?_) h
  have hp : p.kinds = .symbol .openParen :: (ks ++ .symbol .closeParen :: k :: K) := by
    simpa using hp
  rw [primary]
  refine succeeds_place fun place => succeeds_kind hp (succeeds_advance hp (by simp) ?_)
  intro q hq _
  have hn : q.Enough 15 n := hn.after (by grind)
  refine succeeds_bind ((hinside hq rfl (hn.weaken (by omega))).mono ?_)
  rintro e' r ⟨he', hr⟩
  exact succeeds_expect hr (by simp) fun s hs _ => ⟨he', hs⟩

private theorem isRead_call {callee : String} {args : List Part}
    (hbase : (Phrase.suffixed (.var .erased callee)).IsRead ks) (haddr : ks ≠ [.identifier "addr"])
    (hparts : ∀ a ∈ args, Derives a.tokens (.expression a.expr))
    (hreads : ∀ a ∈ args, (Phrase.expression a.expr).IsRead a.tokens) :
    (Phrase.suffixed (.call .erased callee (args.map Part.expr))).IsRead
      (ks ++ .symbol .openParen :: (Part.listTokens args ++ [.symbol .closeParen])) := by
  intro p fuel k K ok hp _ hfuel h
  have hp : p.kinds = ks ++ .symbol .openParen ::
      (Part.listTokens args ++ .symbol .closeParen :: k :: K) := by simpa using hp
  refine hbase hp (fun hks => absurd hks haddr) hfuel fun n e' q he' hq hn => ?_
  obtain ⟨n, rfl⟩ := hn.exists_succ
  obtain ⟨tag, rfl⟩ : ∃ tag, e' = .var tag callee := by
    cases e' <;> cases he'
    exact ⟨_, rfl⟩
  rw [suffixes]
  refine succeeds_place fun place => succeeds_kind hq (succeeds_advance hq (by simp) ?_)
  intro r hr _
  have hn : r.Enough 15 n := hn.after (by grind)
  refine succeeds_bind ((succeeds_arguments hparts hreads hr (hn.weaken (by omega))).mono ?_)
  rintro es s ⟨hes, hs⟩
  refine succeeds_expect hs (by simp) fun t ht _ => succeeds_finishExpr fun tag u hu => ?_
  refine h n _ u (by rw [Expr.erase, hes]) (hu.trans ht) ?_
  exact (hn.mono (by grind)).weaken (Nat.zero_le _)

private theorem isRead_index {is : List Kind} {i : Expr} (hbase : (Phrase.suffixed e).IsRead ks)
    (hinside : (Phrase.expression i).IsRead is) :
    (Phrase.suffixed (.index .erased e i)).IsRead
      (ks ++ .symbol .openBracket :: (is ++ [.symbol .closeBracket])) := by
  intro p fuel k K ok hp _ hfuel h
  have hp : p.kinds = ks ++ .symbol .openBracket ::
      (is ++ .symbol .closeBracket :: k :: K) := by simpa using hp
  refine hbase hp (fun _ => by simp) hfuel fun n e' q he' hq hn => ?_
  obtain ⟨n, rfl⟩ := hn.exists_succ
  rw [suffixes]
  refine succeeds_place fun place => succeeds_kind hq (succeeds_advance hq (by simp) ?_)
  intro r hr _
  have hn : r.Enough 15 n := hn.after (by grind)
  refine succeeds_bind ((hinside hr rfl (hn.weaken (by omega))).mono ?_)
  rintro i' s ⟨hi', hs⟩
  refine succeeds_expect hs (by simp) fun t ht _ => succeeds_finishExpr fun tag u hu => ?_
  refine h n _ u (by rw [Expr.erase, he', hi']) (hu.trans ht) ?_
  exact (hn.mono (by grind)).weaken (Nat.zero_le _)

private theorem isRead_member (hobject : (Phrase.suffixed e).IsRead ks) (field : String) :
    (Phrase.suffixed (.member .erased e field)).IsRead
      (ks ++ [.symbol .dot, .identifier field]) := by
  intro p fuel k K ok hp _ hfuel h
  have hp : p.kinds = ks ++ .symbol .dot :: .identifier field :: k :: K := by simpa using hp
  refine hobject hp (fun _ => by simp) hfuel fun n e' q he' hq hn => ?_
  obtain ⟨n, rfl⟩ := hn.exists_succ
  rw [suffixes]
  refine succeeds_place fun place => succeeds_kind hq (succeeds_advance hq (by simp) ?_)
  intro r hr _
  have hn : r.Enough 15 n := hn.after (by grind)
  refine succeeds_expectName hr (by simp) fun s hs _ => succeeds_finishExpr fun tag t ht => ?_
  refine h n _ t (by rw [Expr.erase, he']) (ht.trans hs) ?_
  exact (hn.mono (by grind)).weaken (Nat.zero_le _)

private theorem isRead_operand (hderives : Derives ks (.suffixed e))
    (hbase : (Phrase.suffixed e).IsRead ks) : (Phrase.operand e).IsRead ks := by
  intro p fuel k K hp hk hfuel
  obtain ⟨fuel, rfl⟩ := hfuel.exists_succ
  obtain ⟨head, rest, hks, hsign⟩ := hderives.exists_head_suffixed
  have hhead : p.kinds = head :: (rest ++ k :: K) := by rw [hp, hks]; rfl
  rw [unary]
  refine succeeds_place fun place => succeeds_kind hhead ?_
  rw [hsign]
  refine hbase hp (fun _ hopen => ?_) hfuel.here fun n e' q he' hq hn => ?_
  · rw [hopen] at hk
    cases hk
  · exact succeeds_suffixes_nil hq hk hn ⟨he', hq⟩

private theorem isRead_sign {head : Kind} {sign : Sign} (hsign : Sign.ofKind? head = some sign)
    (hoperand : (Phrase.operand e).IsRead ks) :
    (Phrase.operand (sign.before e)).IsRead (head :: ks) := by
  intro p fuel k K hp hk hfuel
  obtain ⟨fuel, rfl⟩ := hfuel.exists_succ
  rw [List.cons_append] at hp
  rw [unary]
  refine succeeds_place fun place => succeeds_kind hp ?_
  rw [hsign]
  refine succeeds_advance hp (by simp) fun q hq _ => ?_
  have hfuel : q.Enough 15 fuel := hfuel.after (by grind)
  refine succeeds_bind ((hoperand hq hk (hfuel.weaken (by omega))).mono ?_)
  rintro e' r ⟨he', hr⟩
  cases sign with
  | plus => exact ⟨he', hr⟩
  | apply op =>
    refine succeeds_finished fun tag s hs => ⟨?_, hs.trans hr⟩
    rw [Expr.erase, he']
    rfl

private theorem isRead_expression {links : List Link} (hfirst : (Phrase.operand e).IsRead ks)
    (hlinks : ∀ l ∈ links, (Phrase.operand l.operand.expr).IsRead l.operand.tokens) :
    (Phrase.expression (e.group links)).IsRead (ks ++ links.flatMap Link.tokens) := by
  intro p fuel k K hp hk hfuel
  obtain ⟨fuel, rfl⟩ := hfuel.exists_succ
  rw [List.append_assoc] at hp
  obtain ⟨k', K', hafter, hk'⟩ := exists_afterOperand links hk K
  rw [Parse.expression]
  refine succeeds_bind ((hfirst (hafter ▸ hp) hk' hfuel.here).mono ?_)
  rintro e' q ⟨rfl, hq⟩
  rw [← hafter] at hq
  refine succeeds_operators hlinks hk hq ((hfuel.here.mono ?_).weaken (Nat.zero_le _))
  rw [hp, hq]
  simp

end

end Parse

/-- Every phrase is read. -/
theorem Derives.isRead {ks : List Kind} {phrase : Phrase} (h : Derives ks phrase) :
    phrase.IsRead ks := by
  induction h with
  | number text value => exact isRead_number text value
  | name name => exact isRead_name name
  | addressOf _ ih => exact isRead_addressOf ih
  | group _ ih => exact isRead_group ih
  | call _ haddr hparts ihbase ihparts => exact isRead_call ihbase haddr hparts ihparts
  | index _ _ ihbase ihinside => exact isRead_index ihbase ihinside
  | member _ field ih => exact isRead_member ih field
  | operand hbase ih => exact isRead_operand hbase ih
  | sign hsign _ ih => exact isRead_sign hsign ih
  | expression _ _ ihfirst ihothers => exact isRead_expression ihfirst ihothers

end Offside
