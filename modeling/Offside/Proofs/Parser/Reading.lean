import Offside.Proofs.Parser.Transfer

/-!
# Tokens that read as an expression

The tokens of a text that reads as an expression, wherever they stand: as an expression, as a
statement, or as the target of an assignment. A statement that starts with a name is read as a
target first and as an expression only if nothing is assigned to it.

## Main definitions

* `Offside.Parse.ReadsAs`: tokens that read as an expression when they stand alone.
* `Offside.Expr.isOperand`: expressions whose text may start with a name.

## Main results

* `Offside.Parse.ReadsAs.succeeds_expression`: such tokens read as the expression everywhere.
* `Offside.Parse.ReadsAs.succeeds_target`: a place before an equals sign.
* `Offside.Parse.ReadsAs.succeeds_afterTarget`: a statement that starts with a name.
-/

namespace Offside

namespace Parse

/-! ### What an expression looks like from its first token -/

/-- Reading operators after an operand reads nothing, or an operator and more. -/
theorem operators_cases {fuel least : Nat} {left e : Expr} {p q : Parser}
    (h : (operators fuel least left).run p = .ok e q) :
    e = left ∧ q = p ∨
      (BinaryOp.ofKind? p.current.kind).isSome ∧ ∃ tag op l r, e = .binary tag op l r := by
  induction fuel generalizing left p with
  | zero => cases h
  | succ fuel ih =>
    rw [operators] at h
    obtain ⟨k, p', hk, h⟩ := exists_of_run_bind h
    obtain ⟨rfl, rfl⟩ : p.current.kind = k ∧ p = p' := by
      cases hk
      exact ⟨rfl, rfl⟩
    cases hop : BinaryOp.ofKind? p.current.kind with
    | none =>
      rw [hop] at h
      cases h
      exact .inl ⟨rfl, rfl⟩
    | some op =>
      rw [hop] at h
      dsimp only at h
      split at h
      · cases h
        exact .inl ⟨rfl, rfl⟩
      · obtain ⟨place, p₁, -, h⟩ := exists_of_run_bind h
        obtain ⟨_, p₂, -, h⟩ := exists_of_run_bind h
        obtain ⟨r, p₃, -, h⟩ := exists_of_run_bind h
        obtain ⟨r, p₄, -, h⟩ := exists_of_run_bind h
        obtain ⟨b, p₅, hb, h⟩ := exists_of_run_bind h
        refine .inr ⟨rfl, ?_⟩
        rcases ih h with ⟨rfl, -⟩ | ⟨-, hbinary⟩
        · cases hb
          exact ⟨_, _, _, _, rfl⟩
        · exact hbinary

/-- Before a name there is no unary operator. -/
theorem exists_of_run_expression {fuel : Nat} {e : Expr} {p q : Parser} {name : String}
    (hk : p.current.kind = .identifier name) (h : (expression fuel).run p = .ok e q) :
    ∃ m n t r, m ≤ fuel ∧ n ≤ fuel ∧ (suffixed m).run p = .ok t r ∧
      (operators n 0 t).run r = .ok e q := by
  match fuel with
  | 0 => cases h
  | 1 => cases h
  | fuel + 2 =>
    rw [expression] at h
    obtain ⟨t, r, ht, h⟩ := exists_of_run_bind h
    refine ⟨fuel, fuel + 1, t, r, by omega, by omega, ?_, h⟩
    rw [unary] at ht
    obtain ⟨place, p₁, hplace, ht⟩ := exists_of_run_bind ht
    cases hplace
    obtain ⟨k, p₂, hkind, ht⟩ := exists_of_run_bind ht
    cases hkind
    rw [hk] at ht
    exact ht

end Parse

/-- Expressions whose text may start with a name: neither a number nor a unary operator. -/
def Expr.isOperand : Expr → Bool
  | number _ _ | unary _ _ _ => false
  | var _ _ | addressOf _ _ | index _ _ _ | member _ _ _ | binary _ _ _ _ | call _ _ _ => true

@[simp] theorem Expr.isOperand_erase (e : Expr) : e.erase.isOperand = e.isOperand := by
  cases e <;> rfl

instance : Parser.Frame fun _ _ => True where
  refl _ := trivial
  trans _ _ _ _ _ := trivial
  advance _ := trivial
  note _ _ := trivial
  addExpr _ _ _ := trivial
  addStmt _ _ _ := trivial

namespace Parse

/-- Suffixes turn an operand into an operand. -/
theorem ensures_isOperand_suffixes (fuel : Nat) {e : Expr} (he : e.isOperand) :
    Ensures (fun _ _ => True) (fun e => e.isOperand = true) (suffixes fuel e) := by
  induction fuel generalizing e with
  | zero => exact ensures_throw _
  | succ fuel ih =>
    have finish {place : Location} {build : Tag → Expr} (h : ∀ tag, (build tag).isOperand) :
        Ensures (fun _ _ => True) (fun e => e.isOperand = true)
          (finishExpr place build >>= suffixes fuel) :=
      fun p => ih (h _) { p with arena := (p.arena.addExpr place build).2 }
    rw [suffixes]
    refine ensures_seq ensures_place fun place => ?_
    refine ensures_seq ensures_kind fun k => ?_
    split
    · refine ensures_seq ensures_advance fun _ => ?_
      split
      · exact ensures_fail _ _
      · refine ensures_seq (ensures_arguments _ _) fun args => ?_
        exact ensures_seq (ensures_expect _ _) fun _ => finish fun _ => rfl
    · refine ensures_seq ensures_advance fun _ => ?_
      refine ensures_seq (ensures_expression _) fun i => ?_
      exact ensures_seq (ensures_expect _ _) fun _ => finish fun _ => rfl
    · refine ensures_seq ensures_advance fun _ => ?_
      exact ensures_seq (ensures_expectName _) fun _ => finish fun _ => rfl
    · exact ensures_pure he

/-- What starts with a name is an operand. -/
theorem isOperand_of_run_suffixed {fuel : Nat} {e : Expr} {p q : Parser} {name : String}
    (hk : p.current.kind = .identifier name) (h : (suffixed fuel).run p = .ok e q) :
    e.isOperand := by
  cases fuel with
  | zero => cases h
  | succ fuel =>
    rw [suffixed] at h
    obtain ⟨t, r, ht, h⟩ := exists_of_run_bind h
    refine ((ensures_isOperand_suffixes fuel ?_ r).ok h).2
    cases fuel with
    | zero => cases ht
    | succ fuel =>
      rw [primary] at ht
      obtain ⟨place, p₁, hplace, ht⟩ := exists_of_run_bind ht
      cases hplace
      obtain ⟨k, p₂, hkind, ht⟩ := exists_of_run_bind ht
      cases hkind
      rw [hk] at ht
      obtain ⟨_, p₃, -, ht⟩ := exists_of_run_bind ht
      obtain ⟨k, p₄, -, ht⟩ := exists_of_run_bind ht
      split at ht
      · obtain ⟨_, p₅, -, ht⟩ := exists_of_run_bind ht
        obtain ⟨operand, p₆, -, ht⟩ := exists_of_run_bind ht
        obtain ⟨_, p₇, -, ht⟩ := exists_of_run_bind ht
        cases ht
        rfl
      · cases ht
        rfl

theorem isOperand_of_run_expression {fuel : Nat} {e : Expr} {p q : Parser} {name : String}
    (hk : p.current.kind = .identifier name) (h : (expression fuel).run p = .ok e q) :
    e.isOperand := by
  obtain ⟨m, n, t, r, -, -, ht, h⟩ := exists_of_run_expression hk h
  rcases operators_cases h with ⟨rfl, -⟩ | ⟨-, _, _, _, _, rfl⟩
  · exact isOperand_of_run_suffixed hk ht
  · rfl

/-! ### Tokens that read as an expression -/

/-- The tokens `ks`, with the end of the input after them, read as the expression `e`. -/
def ReadsAs (ks : List Kind) (e : Expr) : Prop :=
  ∃ p e' q, p.Bounded ∧ p.kinds = ks ++ [.endOfInput] ∧ (expression p.fuel).run p = .ok e' q ∧
    e'.erase = e.erase ∧ q.current.kind = .endOfInput

namespace ReadsAs

variable {ks : List Kind} {e : Expr} (h : ReadsAs ks e)
include h

/-- The same, with what is known of the run that reads them. -/
private theorem exists_run :
    ∃ p e' q, p.Bounded ∧ p.kinds = ks ++ q.kinds ∧ q.kinds = [.endOfInput] ∧
      p.fuel = stepsPerToken * (ks.length + 2) ∧ (expression p.fuel).run p = .ok e' q ∧
      e'.erase = e.erase ∧ ∀ k ∈ ks, k.isPlain := by
  obtain ⟨p, e', q, hp, hkinds, hrun, he, hq⟩ := h
  obtain ⟨used, hused, hcut, -⟩ :=
    transfers_expression (Nat.le_refl _) (fun _ h => h) _ p e' q hp rfl hrun
  have hend := (hp.of_append hcut).kinds_of_end hq
  obtain rfl : used = ks := by
    rw [hend, hkinds] at hcut
    exact (List.append_cancel_right hcut).symm
  refine ⟨p, e', q, hp, hcut, hend, ?_, hrun, he, hused⟩
  have := p.length_kinds
  rw [hkinds, List.length_append, List.length_singleton] at this
  rw [Parser.fuel, ← Nat.succ.inj this]

theorem isPlain {k : Kind} (hk : k ∈ ks) : k.isPlain := by
  obtain ⟨-, -, -, -, -, -, -, -, -, hplain⟩ := h.exists_run
  exact hplain k hk

theorem exists_head : ∃ k rest, ks = k :: rest ∧ startsExpr k := by
  obtain ⟨p, e', q, hp, hcut, hend, -, hrun, -, -⟩ := h.exists_run
  have hstart : startsExpr p.current.kind := by
    cases hno : startsExpr p.current.kind with
    | true => rfl
    | false => exact absurd hrun (fails_expression hno _).not_ok
  cases ks with
  | nil =>
    rw [hend, List.nil_append] at hcut
    rw [Parser.current_of_kinds hcut] at hstart
    cases hstart
  | cons k rest => exact ⟨k, rest, rfl, Parser.current_of_kinds hcut ▸ hstart⟩

/-- Only an operand has a text that starts with a name. -/
theorem isOperand {name : String} (hname : ks.head? = some (.identifier name)) : e.isOperand := by
  obtain ⟨p, e', q, -, hcut, -, -, hrun, he, -⟩ := h.exists_run
  obtain ⟨rest, rfl⟩ := List.head?_eq_some_iff.1 hname
  rw [← Expr.isOperand_erase, ← he, Expr.isOperand_erase]
  exact isOperand_of_run_expression (Parser.current_of_kinds hcut) hrun

variable {p : Parser} {fuel : Nat} {k : Kind} {K : List Kind} (hp : p.kinds = ks ++ k :: K)
  (hK : K ≠ []) (hfuel : p.Enough 0 fuel)
include hp hK hfuel

omit h in
private theorem fuel_le : stepsPerToken * (ks.length + 2) ≤ fuel := by
  have := List.length_pos_iff.2 hK
  rw [Parser.Enough, hp, List.length_append, List.length_cons, stepsPerToken] at hfuel
  rw [stepsPerToken]
  omega

/-- Tokens that read as an expression do so before any token at which an expression may end. -/
theorem succeeds_expression (hends : k.endsExpr) :
    Succeeds p (expression fuel) fun e' q => e'.erase = e.erase ∧ q.kinds = k :: K := by
  obtain ⟨p₀, e₀, q₀, hp₀, hcut, hend, hfuel₀, hrun, he, -⟩ := h.exists_run
  have hle : p₀.fuel ≤ fuel := hfuel₀ ▸ fuel_le hp hK hfuel
  refine (TransfersFrom.copy (transfers_expression hle (fun _ h => h) _) hp₀ hrun hcut hp
    (.inr ⟨_, by rw [hend]; rfl, rfl, k, rfl, hends⟩)).mono ?_
  rintro e' q ⟨he', hq, -⟩
  exact ⟨he'.trans he, hq⟩

variable {name : String} (hname : ks.head? = some (.identifier name)) (hends : k.endsExpr)
include hname hends

/-- What starts with a name is read as a target `t` and the operators after it: both where the
tokens stand alone, and here. -/
private theorem exists_target :
    ∃ n t e₀ r q₀ more, n ≤ fuel ∧ r.Bounded ∧ r.kinds = more ++ [.endOfInput] ∧
      q₀.kinds = [.endOfInput] ∧ (operators n 0 t).run r = .ok e₀ q₀ ∧ e₀.erase = e.erase ∧
      Succeeds p (suffixed fuel) fun t' r' => t'.erase = t.erase ∧ r'.kinds = more ++ k :: K := by
  obtain ⟨p₀, e₀, q₀, hp₀, hcut, hend, hfuel₀, hrun, he, -⟩ := h.exists_run
  have hle : p₀.fuel ≤ fuel := hfuel₀ ▸ fuel_le hp hK hfuel
  obtain ⟨rest, rfl⟩ := List.head?_eq_some_iff.1 hname
  obtain ⟨m, n, t, r, hm, hn, ht, hops⟩ :=
    exists_of_run_expression (Parser.current_of_kinds hcut) hrun
  obtain ⟨used, -, hused, -, hcopy⟩ :=
    transfers_suffixed (Nat.le_trans hm hle) (fun _ h => h) _ p₀ t r hp₀ rfl ht
  have hr : r.Bounded := hp₀.of_append hused
  obtain ⟨more, -, hmore, -⟩ :=
    transfers_operators (Nat.le_refl n) (fun _ h => h) 0 rfl _ r e₀ q₀ hr rfl hops
  have hall : used ++ more = .identifier name :: rest := by
    rw [hmore, ← List.append_assoc] at hused
    exact List.append_cancel_right (hused.symm.trans hcut)
  refine ⟨n, t, e₀, r, q₀, more, Nat.le_trans hn hle, hr, by rw [hmore, hend], hend, hops, he, ?_⟩
  refine (hcopy p _ (by rw [hp, ← hall, List.append_assoc]) ?_).mono fun _ _ ht' => ⟨ht'.1, ht'.2.1⟩
  rw [hmore, hend]
  cases more with
  | nil => exact .inr ⟨_, rfl, rfl, k, rfl, hends⟩
  | cons u more => exact .inl rfl

/-- A place that starts with a name is read as a target. -/
theorem succeeds_target (htarget : e.isAddressable) :
    Succeeds p (suffixed fuel) fun t q => t.erase = e.erase ∧ q.kinds = k :: K := by
  obtain ⟨n, t, e₀, r, q₀, more, -, -, hr, hend, hops, he, hcopy⟩ :=
    h.exists_target hp hK hfuel hname hends
  rcases operators_cases hops with ⟨rfl, rfl⟩ | ⟨-, _, _, _, _, rfl⟩
  · obtain rfl : more = [] := by simpa [hend] using hr
    refine hcopy.mono ?_
    rintro t' r' ⟨ht', hr'⟩
    exact ⟨ht'.trans he, hr'⟩
  · rw [← Expr.isAddressable_erase, ← he] at htarget
    cases htarget

/-- What starts with a name and is followed by neither a colon nor an equals sign is read as an
expression. -/
theorem succeeds_afterTarget (start : Location) (hk : k ≠ .symbol .colon ∧ k ≠ .symbol .assign) :
    Succeeds p (suffixed fuel >>= afterTarget fuel start) fun s q =>
      s.erase = .expr .erased e.erase ∧ q.kinds = k :: K := by
  obtain ⟨n, t, e₀, r, q₀, more, hn, hbounded, hr, hend, hops, he, hcopy⟩ :=
    h.exists_target hp hK hfuel hname hends
  refine succeeds_bind (hcopy.mono ?_)
  rintro t' r' ⟨ht', hr'⟩
  -- An operator is neither of the two signs.
  obtain ⟨k', K', hk', hne⟩ : ∃ k' K', r'.kinds = k' :: K' ∧
      k' ≠ .symbol .colon ∧ k' ≠ .symbol .assign := by
    cases more with
    | nil => exact ⟨k, K, hr', hk⟩
    | cons u more =>
      refine ⟨u, _, hr', ?_⟩
      rcases operators_cases hops with ⟨-, rfl⟩ | ⟨hop, -⟩
      · rw [hend] at hr
        simp at hr
      · rw [Parser.current_of_kinds hr] at hop
        constructor
        · rintro rfl
          cases hop
        · rintro rfl
          cases hop
  obtain ⟨used, -, hused, -, hcopy'⟩ :=
    transfers_operators hn (fun _ h => h) 0 ht' _ r e₀ q₀ hbounded rfl hops
  obtain rfl : used = more := by
    rw [hr, hend] at hused
    exact (List.append_cancel_right hused).symm
  rw [afterTarget]
  refine succeeds_kind hk' ?_
  split
  · exact absurd rfl hne.1
  · exact absurd rfl hne.2
  · refine succeeds_bind ((hcopy' r' _ hr' (.inr ⟨_, by rw [hend]; rfl, rfl, k, rfl, hends⟩)).mono ?_)
    rintro e' q ⟨he', hq, -⟩
    refine succeeds_finishStmt fun tag q' hq' _ => ⟨?_, hq'.trans hq⟩
    rw [Stmt.erase, he', he]

end ReadsAs

end Parse

end Offside
