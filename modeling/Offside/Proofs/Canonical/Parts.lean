import Offside.Proofs.Canonical.Block

/-!
# Reading the parts of a line

The parts of which the lines of a canonical text are put together, apart from single expressions:
types, parameters and lists of expressions. Each is read back as what was written, up to the token
after it.

## Main results

* `Offside.TypeExpr.succeeds_typeExpr`: types.
* `Offside.Prototype.succeeds_prototype`: prototypes.
* `Offside.Expr.succeeds_arguments`: lists of expressions.
-/

namespace Offside

open Parse

variable {p : Parser} {fuel : ℕ} {k : Kind} {K : List Kind}

/-- A name is read as a type, unless it is `ptr` and a bracket follows. -/
theorem succeeds_typeExpr_name {name : String} (fuel : ℕ) (hp : p.kinds = .identifier name :: k :: K)
    (hk : name = "ptr" → k ≠ .symbol .openBracket) :
    Succeeds p (typeExpr (fuel + 1)) fun t q => t = .ofName name ∧ q.kinds = k :: K := by
  refine succeeds_expectName (K := k :: K) hp (by simp) fun q hq _ => succeeds_kind hq ?_
  rw [if_neg (by rintro ⟨hname, h⟩; exact hk hname h)]
  exact ⟨rfl, hq⟩

theorem TypeExpr.succeeds_typeExpr {type : TypeExpr} (h : type.Writable)
    (hp : p.kinds = type.pieces.flatMap Piece.kinds ++ k :: K)
    (hk : k ≠ .symbol .openBracket) (hfuel : p.Enough 0 fuel) :
    Succeeds p (typeExpr fuel) fun t q => t = type ∧ q.kinds = k :: K := by
  induction type generalizing p fuel k K with
  | builtin b =>
    obtain ⟨fuel, rfl⟩ := hfuel.exists_succ
    have hname : ofName b.name = .builtin b := by rw [ofName, Builtin.ofName?_name]
    exact hname ▸ succeeds_typeExpr_name fuel hp fun _ => hk
  | named name =>
    obtain ⟨fuel, rfl⟩ := hfuel.exists_succ
    have hname : ofName name = .named name := by rw [ofName, h.2]
    exact hname ▸ succeeds_typeExpr_name fuel hp fun _ => hk
  | pointer element ih =>
    obtain ⟨fuel, rfl⟩ := hfuel.exists_succ
    have hp : p.kinds = .identifier "ptr" :: .symbol .openBracket ::
        (element.pieces.flatMap Piece.kinds ++ .symbol .closeBracket :: k :: K) := by
      simp [hp, pieces, Piece.kinds]
    refine succeeds_expectName hp (by simp) fun q hq _ => succeeds_kind hq ?_
    rw [if_pos ⟨rfl, rfl⟩]
    refine succeeds_advance hq (by simp) fun q₁ h₁ _ => ?_
    refine succeeds_bind ((ih h h₁ (by simp) ?_).mono ?_)
    · refine (hfuel.after ?_).weaken (Nat.zero_le _)
      simp only [hp, h₁, List.length_append, List.length_cons]
      omega
    · rintro _ q₂ ⟨rfl, h₂⟩
      exact succeeds_expect h₂ (by simp) fun q₃ h₃ _ => ⟨rfl, h₃⟩

/-! ### Parameters -/

theorem Binding.kinds_pieces (b : Binding) :
    b.pieces.flatMap Piece.kinds =
      .identifier b.name :: .symbol .colon :: b.type.pieces.flatMap Piece.kinds := by
  simp [pieces, Piece.kinds]

/-- After the first of several parts comes a comma, and after the last what comes after all. -/
theorem Piece.kinds_commas (part : List Piece) (parts : List (List Piece)) (k : Kind)
    (K : List Kind) :
    ∃ k' K', (commas (part :: parts)).flatMap kinds ++ k :: K = part.flatMap kinds ++ k' :: K' ∧
      (parts = [] ∧ k' = k ∧ K' = K ∨
        parts ≠ [] ∧ k' = .symbol .comma ∧ K' = (commas parts).flatMap kinds ++ k :: K) := by
  cases parts with
  | nil => exact ⟨k, K, rfl, .inl ⟨rfl, rfl, rfl⟩⟩
  | cons next parts =>
    refine ⟨_, _, ?_, .inr ⟨List.cons_ne_nil next parts, rfl, rfl⟩⟩
    simp [commas, kinds]

/-- A name that is not among those before passes the check for duplicates. -/
theorem Binding.any_eq_false {before : List Binding} {b : Binding} {bs : List Binding}
    (h : ((before ++ b :: bs).map (·.name)).Nodup) : before.any (·.name = b.name) = false := by
  rw [List.map_append, List.map_cons] at h
  have hdisjoint := (List.nodup_append.1 h).2.2
  rw [List.any_eq_false]
  intro c hc he
  exact hdisjoint c.name (List.mem_map_of_mem hc) b.name List.mem_cons_self (by simpa using he)

theorem Binding.succeeds_parameters {before bs : List Binding} (hne : bs ≠ [])
    (h : WritableAll (before ++ bs))
    (hp : p.kinds = (Piece.commas (bs.map pieces)).flatMap Piece.kinds ++ .symbol .closeParen :: K)
    (hK : K ≠ []) (hfuel : p.Enough 0 fuel) :
    Succeeds p (parameters fuel before) fun params q =>
      params = before ++ bs ∧ q.kinds = .symbol .closeParen :: K := by
  induction bs generalizing p fuel before with
  | nil => exact absurd rfl hne
  | cons b bs ih =>
    obtain ⟨fuel, rfl⟩ := hfuel.exists_succ
    obtain ⟨k, L, hkL, hcase⟩ :=
      Piece.kinds_commas b.pieces (bs.map pieces) (.symbol .closeParen) K
    have hkL : p.kinds = .identifier b.name :: .symbol .colon ::
        (b.type.pieces.flatMap Piece.kinds ++ k :: L) := by
      rw [hp, List.map_cons, hkL, kinds_pieces]
      rfl
    have hL : L ≠ [] := by
      rcases hcase with ⟨-, -, rfl⟩ | ⟨-, -, rfl⟩
      · exact hK
      · simp
    have hb := h.2 b (by simp)
    have hk : k ≠ .symbol .openBracket := by
      rcases hcase with ⟨-, rfl, -⟩ | ⟨-, rfl, -⟩ <;> simp
    refine succeeds_place fun place => ?_
    refine succeeds_expectName hkL (by simp) fun q₁ h₁ _ => ?_
    rw [any_eq_false h.1, if_neg Bool.false_ne_true]
    refine succeeds_expect h₁ (by simp) fun q₂ h₂ _ => ?_
    refine succeeds_bind ((TypeExpr.succeeds_typeExpr hb.2 h₂ hk ?_).mono ?_)
    · exact (hfuel.after (by grind)).weaken (Nat.zero_le _)
    · rintro _ q₃ ⟨rfl, h₃⟩
      rcases hcase with ⟨hbs, rfl, rfl⟩ | ⟨hbs, rfl, rfl⟩
      · obtain rfl := List.map_eq_nil_iff.1 hbs
        refine succeeds_accept?_of_ne h₃ (by simp) (succeeds_kind h₃ ?_)
        exact ⟨rfl, h₃⟩
      · refine succeeds_accept?_of_eq h₃ hL fun q₄ h₄ => ?_
        have h : WritableAll ((before ++ [⟨b.name, b.type⟩]) ++ bs) := by simpa using h
        have henough := (hfuel.after (q := q₄) (by grind)).weaken (Nat.zero_le 15)
        refine (ih (by simpa using hbs) h h₄ henough).mono ?_
        rintro params q ⟨rfl, hq⟩
        exact ⟨by simp, hq⟩

theorem Prototype.succeeds_prototype {proto : Prototype} (h : proto.Writable)
    (hp : p.kinds = proto.pieces.flatMap Piece.kinds ++ k :: K)
    (hk : k ≠ .symbol .openBracket) (hfuel : p.Enough 0 fuel) :
    Succeeds p (prototype fuel) fun q r => q.erase = proto.erase ∧ r.kinds = k :: K := by
  have hp : p.kinds = .identifier proto.name :: .symbol .openParen ::
      ((Piece.commas (proto.params.map Binding.pieces)).flatMap Piece.kinds ++
        .symbol .closeParen :: .symbol .arrow ::
          (proto.result.pieces.flatMap Piece.kinds ++ k :: K)) := by
    simp [hp, pieces, Piece.kinds]
  have hrest {q : Parser} {params : List Binding} {place : Location}
      (hq : q.kinds = .symbol .closeParen :: .symbol .arrow ::
        (proto.result.pieces.flatMap Piece.kinds ++ k :: K)) (hparams : params = proto.params) :
      Succeeds q (do
        expectClose .parameters
        expect (.symbol .arrow) .returnType
        let result ← typeExpr fuel
        return (⟨proto.name, params, result, place⟩ : Prototype))
        fun q r => q.erase = proto.erase ∧ r.kinds = k :: K := by
    refine succeeds_expect hq (by simp) fun q₁ h₁ _ => ?_
    refine succeeds_expect h₁ (by simp) fun q₂ h₂ _ => ?_
    refine succeeds_bind ((TypeExpr.succeeds_typeExpr h.result h₂ hk ?_).mono ?_)
    · exact (hfuel.later (by grind)).weaken (Nat.zero_le _)
    · rintro _ q₃ ⟨rfl, h₃⟩
      exact ⟨by rw [hparams]; rfl, h₃⟩
  refine succeeds_place fun place => ?_
  refine succeeds_expectName hp (by simp) fun q₁ h₁ _ => ?_
  refine succeeds_expect h₁ (by simp) fun q₂ h₂ _ => ?_
  by_cases hparams : proto.params = []
  · have h₂ : q₂.kinds = .symbol .closeParen :: .symbol .arrow ::
        (proto.result.pieces.flatMap Piece.kinds ++ k :: K) := by
      rw [h₂, hparams]
      rfl
    refine succeeds_kind h₂ ?_
    rw [if_pos rfl]
    exact hrest h₂ hparams.symm
  · obtain ⟨b, bs, hbs⟩ := List.exists_cons_of_ne_nil hparams
    obtain ⟨k', L, hL, -⟩ := Piece.kinds_commas b.pieces (bs.map Binding.pieces)
      (.symbol .closeParen) (.symbol .arrow :: (proto.result.pieces.flatMap Piece.kinds ++ k :: K))
    have hL : q₂.kinds = .identifier b.name :: .symbol .colon ::
        (b.type.pieces.flatMap Piece.kinds ++ k' :: L) := by
      rw [h₂, hbs, List.map_cons, hL, Binding.kinds_pieces]
      rfl
    refine succeeds_kind hL ?_
    rw [if_neg (by simp)]
    have henough : q₂.Enough 0 fuel := (hfuel.later (by grind)).weaken (Nat.zero_le _)
    have hall : Binding.WritableAll ([] ++ proto.params) := h.params
    refine succeeds_bind ((Binding.succeeds_parameters hparams hall h₂ (by simp) henough).mono ?_)
    rintro params q₃ ⟨rfl, h₃⟩
    exact hrest h₃ (List.nil_append _)

/-! ### Lists of expressions -/

section

variable {spell : Expr → String} {e : Expr}

theorem Expr.Spelled.readsAs (h : e.Spelled spell) : ReadsAs (textKinds (spell e)) e :=
  Spells.readsAs h

/-- An expression is read back before every token at which an expression may end. -/
theorem Expr.Spelled.succeeds_expression (h : e.Spelled spell)
    (hp : p.kinds = textKinds (spell e) ++ k :: K) (hK : K ≠ []) (hk : k.endsExpr)
    (hfuel : p.Enough 0 fuel) :
    Succeeds p (expression fuel) fun e' q => e'.erase = e.erase ∧ q.kinds = k :: K :=
  h.readsAs.succeeds_expression hp hK hfuel hk

theorem Expr.succeeds_nextArguments {es : List Expr} (hne : es ≠ [])
    (h : ∀ e ∈ es, e.Spelled spell) {list : ArgumentList}
    (hp : p.kinds = (Piece.list spell es).flatMap Piece.kinds ++ .symbol .closeParen :: K)
    (hK : K ≠ []) (hfuel : p.Enough 1 fuel) :
    Succeeds p (nextArguments fuel list) fun es' q =>
      Expr.eraseAll es' = Expr.eraseAll es ∧ q.kinds = .symbol .closeParen :: K := by
  induction es generalizing p fuel with
  | nil => exact absurd rfl hne
  | cons e es ih =>
    obtain ⟨fuel, rfl⟩ := hfuel.exists_succ
    obtain ⟨he, hes⟩ := List.forall_mem_cons.1 h
    obtain ⟨u, us, hu, hstarts⟩ := he.readsAs.exists_head
    obtain ⟨k, L, hkL, hcase⟩ := Piece.kinds_commas [.text (spell e)]
      (es.map fun e => [.text (spell e)]) (.symbol .closeParen) K
    have hkL : p.kinds = textKinds (spell e) ++ k :: L := by
      rw [hp, Piece.list, List.map_cons, hkL]
      simp [Piece.kinds]
    have hL : L ≠ [] := by
      rcases hcase with ⟨-, -, rfl⟩ | ⟨-, -, rfl⟩
      · exact hK
      · simp
    have hk : k.endsExpr := by
      rcases hcase with ⟨-, rfl, -⟩ | ⟨-, rfl, -⟩ <;> rfl
    have hfirst : p.kinds = u :: (us ++ k :: L) := by rw [hkL, hu, List.cons_append]
    refine succeeds_kind hfirst ?_
    rw [if_neg (by rintro rfl; cases hstarts)]
    refine succeeds_bind ((he.succeeds_expression hkL hL hk hfuel.here).mono ?_)
    rintro e' q₁ ⟨he', h₁⟩
    rcases hcase with ⟨hnil, rfl, rfl⟩ | ⟨hne, rfl, rfl⟩
    · obtain rfl := List.map_eq_nil_iff.1 hnil
      refine succeeds_accept?_of_ne h₁ (by simp) (succeeds_kind h₁ ?_)
      exact ⟨by simp only [eraseAll, he'], h₁⟩
    · refine succeeds_accept?_of_eq h₁ hL fun q₂ h₂ => ?_
      have henough := (hfuel.after (q := q₂) (by grind)).weaken (by omega : 1 ≤ 15)
      refine succeeds_bind ((ih (by simpa using hne) hes h₂ henough).mono ?_)
      rintro es' q₃ ⟨hes', h₃⟩
      exact ⟨by simp only [eraseAll, he', hes'], h₃⟩

theorem Expr.succeeds_arguments {es : List Expr} (h : ∀ e ∈ es, e.Spelled spell)
    {list : ArgumentList}
    (hp : p.kinds = (Piece.list spell es).flatMap Piece.kinds ++ .symbol .closeParen :: K)
    (hK : K ≠ []) (hfuel : p.Enough 2 fuel) :
    Succeeds p (arguments fuel list) fun es' q =>
      Expr.eraseAll es' = Expr.eraseAll es ∧ q.kinds = .symbol .closeParen :: K := by
  obtain ⟨fuel, rfl⟩ := hfuel.exists_succ
  cases es with
  | nil => exact succeeds_kind hp ⟨rfl, hp⟩
  | cons e es =>
    obtain ⟨u, us, hu, hstarts⟩ := (h e List.mem_cons_self).readsAs.exists_head
    obtain ⟨k, L, hkL, -⟩ := Piece.kinds_commas [.text (spell e)]
      (es.map fun e => [.text (spell e)]) (.symbol .closeParen) K
    have hL : p.kinds = u :: (us ++ k :: L) := by
      rw [hp, Piece.list, List.map_cons, hkL]
      simp [Piece.kinds, hu]
    refine succeeds_kind hL ?_
    rw [if_neg (by rintro rfl; cases hstarts)]
    exact succeeds_nextArguments (List.cons_ne_nil e es) h hp hK hfuel.here

end

end Offside
