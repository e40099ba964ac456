import Offside.Proofs.Canonical.Body

/-!
# Reading the statements of a canonical text

Every statement of a canonical text is read back, whatever bodies it has. A statement with bodies
is read back if its bodies are, so the recursion over the tree has one line for each kind of
statement.

## Main results

* `Offside.Stmt.readsBack`: statements are read back.
* `Offside.Suite.readsBack`: bodies are read back.
-/

namespace Offside

open Parse Line

/-! ### Statements with bodies -/

section

variable {spell : Expr → String} {depth : ℕ} {rest : List Line} {p : Parser} {fuel : ℕ}

/-- The header of a counting loop is read back. -/
theorem succeeds_range {counter : String} {start stop : Expr} {step : Option Expr} {K : List Kind}
    (hstart : start.Spelled spell) (hstop : stop.Spelled spell)
    (hstep : ∀ e ∈ step, e.Spelled spell)
    (hp : p.kinds = .identifier counter :: .keyword .inWord :: .keyword .rangeWord ::
      .symbol .openParen :: (textKinds (spell start) ++ .symbol .comma ::
        (textKinds (spell stop) ++
          ((Piece.optional spell [.sign .comma, .gap] step).flatMap Piece.kinds ++
            .symbol .closeParen :: .symbol .colon :: K))))
    (hK : K ≠ []) (hfuel : p.Enough 0 fuel) :
    Succeeds p (range fuel) fun r q => r.counter = counter ∧ r.start.erase = start.erase ∧
      r.stop.erase = stop.erase ∧ r.step.map Expr.erase = step.map Expr.erase ∧ q.kinds = K := by
  -- What follows the second bound is a comma or the closing parenthesis.
  obtain ⟨k, L, hL, hne, hends⟩ : ∃ k L,
      (Piece.optional spell [.sign .comma, .gap] step).flatMap Piece.kinds ++
        .symbol .closeParen :: .symbol .colon :: K = k :: L ∧ L ≠ [] ∧ k.endsExpr := by
    cases step with
    | none => exact ⟨_, _, rfl, by simp, rfl⟩
    | some e => exact ⟨_, _, rfl, by simp, rfl⟩
  rw [range]
  refine succeeds_expectName hp (by simp) fun q₁ h₁ _ => ?_
  refine succeeds_expect h₁ (by simp) fun q₂ h₂ _ => ?_
  refine succeeds_expect h₂ (by simp) fun q₃ h₃ _ => ?_
  refine succeeds_expect h₃ (by simp) fun q₄ h₄ _ => ?_
  have henough : q₄.Enough 0 fuel := (hfuel.later (by grind)).weaken (Nat.zero_le _)
  refine succeeds_bind ((hstart.succeeds_expression h₄ (by simp) rfl henough).mono ?_)
  rintro a q₅ ⟨ha, h₅⟩
  refine succeeds_expect h₅ (by simp) fun q₆ h₆ _ => ?_
  have h₆' : q₆.kinds = textKinds (spell stop) ++ k :: L := by rw [h₆, hL]
  have henough : q₆.Enough 0 fuel := (hfuel.later (by grind)).weaken (Nat.zero_le _)
  refine succeeds_bind ((hstop.succeeds_expression h₆' hne hends henough).mono ?_)
  rintro b q₇ ⟨hb, h₇⟩
  rw [← hL] at h₇
  have henough : q₇.Enough 0 fuel := (hfuel.later (by grind)).weaken (Nat.zero_le _)
  refine succeeds_bind ((succeeds_optionalAfter hstep rfl h₇ (by simp) rfl (by simp)
    henough).mono ?_)
  rintro c q₈ ⟨hc, h₈⟩
  refine succeeds_expect h₈ (by simp) fun q₉ h₉ _ => ?_
  exact succeeds_expect h₉ hK fun q₁₀ h₁₀ _ => ⟨rfl, ha, hb, hc, h₁₀⟩

namespace Stmt

variable {tag : Tag}

theorem readsBack_forRange {counter : String} {start stop : Expr} {step : Option Expr}
    {body : Suite} (hstart : start.Spelled spell) (hstop : stop.Spelled spell)
    (hstep : ∀ e ∈ step, e.Spelled spell) (hbody : body.ReadsBack spell) :
    (forRange tag counter start stop step body).ReadsBack spell := by
  intro depth rest p fuel hrest _ hp hfuel
  have hp : p.kinds = .keyword .forWord :: .identifier counter :: .keyword .inWord ::
      .keyword .rangeWord :: .symbol .openParen :: (textKinds (spell start) ++
        .symbol .comma :: (textKinds (spell stop) ++
          ((Piece.optional spell [.sign .comma, .gap] step).flatMap Piece.kinds ++
            .symbol .closeParen :: .symbol .colon :: .endOfLine ::
              layoutKinds depth (body.lines spell (depth + 1) ++ rest)))) := by
    simpa [lines, layoutKinds_cons, Piece.kinds] using hp
  obtain ⟨fuel, rfl⟩ := hfuel.exists_succ
  rw [statement]
  refine succeeds_place fun place => succeeds_kind hp ?_
  refine succeeds_advance hp (by simp) fun q₁ h₁ _ => ?_
  have henough : q₁.Enough 0 fuel := (hfuel.after (by grind)).weaken (Nat.zero_le _)
  refine succeeds_bind ((succeeds_range hstart hstop hstep h₁ (by simp) henough).mono ?_)
  rintro r q₂ ⟨hcounter, ha, hb, hc, h₂⟩
  have hlt : q₂.kinds.length < p.kinds.length := by
    simp only [hp, h₂, List.length_append, List.length_cons]
    omega
  have henough : q₂.Enough 4 fuel := (hfuel.after hlt).weaken (by omega)
  refine succeeds_bind ((hbody.succeeds h₂ hrest henough).mono ?_)
  rintro b q₃ ⟨hbody, h₃, hafter, -⟩
  refine succeeds_finishStmt fun tag q₄ h₄ hafter' => ⟨?_, .inr ⟨h₄.trans h₃, hafter'.trans hafter⟩⟩
  rw [erase, erase, hcounter, ha, hb, hc, hbody]

theorem readsBack_whileLoop {condition : Expr} {body : Suite} (hcondition : condition.Spelled spell)
    (hbody : body.ReadsBack spell) : (whileLoop tag condition body).ReadsBack spell := by
  intro depth rest p fuel hrest _ hp hfuel
  have hp : p.kinds = .keyword .whileWord :: (textKinds (spell condition) ++ .symbol .colon ::
      .endOfLine :: layoutKinds depth (body.lines spell (depth + 1) ++ rest)) := by
    simpa [lines, layoutKinds_cons, Piece.kinds] using hp
  obtain ⟨fuel, rfl⟩ := hfuel.exists_succ
  rw [statement]
  refine succeeds_place fun place => succeeds_kind hp ?_
  refine succeeds_advance hp (by simp) fun q₁ h₁ _ => ?_
  have henough : q₁.Enough 0 fuel := (hfuel.after (by grind)).weaken (Nat.zero_le _)
  refine succeeds_bind ((hcondition.succeeds_expression h₁ (by simp) rfl henough).mono ?_)
  rintro c q₂ ⟨hc, h₂⟩
  refine succeeds_expect h₂ (by simp) fun q₃ h₃ _ => ?_
  have henough : q₃.Enough 4 fuel := (hfuel.after (by grind)).weaken (by omega)
  refine succeeds_bind ((hbody.succeeds h₃ hrest henough).mono ?_)
  rintro b q₄ ⟨hb, h₄, hafter, -⟩
  refine succeeds_finishStmt fun tag q₅ h₅ hafter' => ⟨?_, .inr ⟨h₅.trans h₄, hafter'.trans hafter⟩⟩
  rw [erase, erase, hc, hb]

theorem readsBack_doWhile {condition : Expr} {body : Suite} (hcondition : condition.Spelled spell)
    (hbody : body.ReadsBack spell) : (doWhile tag body condition).ReadsBack spell := by
  intro depth rest p fuel _ _ hp hfuel
  have hp : p.kinds = .keyword .doWord :: .symbol .colon :: .endOfLine ::
      layoutKinds depth (body.lines spell (depth + 1) ++
        ⟨depth, [.keyword .whileWord, .gap, .text (spell condition)]⟩ :: rest) := by
    simpa [lines, layoutKinds_cons, Piece.kinds] using hp
  -- The line of the condition is as deep as that of the first word.
  have htail : Shallow depth
      (⟨depth, [.keyword .whileWord, .gap, .text (spell condition)]⟩ :: rest) := by
    rintro _ ⟨⟩
    exact Nat.le_refl depth
  obtain ⟨fuel, rfl⟩ := hfuel.exists_succ
  rw [statement]
  refine succeeds_place fun place => succeeds_kind hp ?_
  refine succeeds_advance hp (by simp) fun q₁ h₁ _ => ?_
  refine succeeds_expect h₁ (by simp) fun q₂ h₂ _ => ?_
  have henough : q₂.Enough 4 fuel := (hfuel.after (by grind)).weaken (by omega)
  refine succeeds_bind ((hbody.succeeds h₂ htail henough).mono ?_)
  rintro b q₃ ⟨hb, h₃, -, hle⟩
  have hlt : q₂.kinds.length < p.kinds.length := by grind
  have h₃ : q₃.kinds = .keyword .whileWord :: (textKinds (spell condition) ++
      .endOfLine :: layoutKinds depth rest) := by
    simpa [layoutKinds_cons, Piece.kinds] using h₃
  refine succeeds_expect h₃ (by simp) fun q₄ h₄ _ => ?_
  have hnext : q₄.kinds.length < q₃.kinds.length := by grind
  have henough : q₄.Enough 0 fuel :=
    (hfuel.after (hnext.trans (hle.trans_lt hlt))).weaken (Nat.zero_le _)
  refine succeeds_bind ((hcondition.succeeds_expression h₄ layoutKinds_ne_nil rfl henough).mono ?_)
  rintro c q₅ ⟨hc, h₅⟩
  refine succeeds_finishStmt fun tag q₆ h₆ _ => ⟨?_, .inl (h₆.trans h₅)⟩
  rw [erase, erase, hb, hc]

theorem readsBack_select {scrutinee : Expr} {arms : List Arm}
    (h : (select tag scrutinee arms).Writable spell)
    (hback : ∀ arm ∈ arms, arm.body.ReadsBack spell) :
    (select tag scrutinee arms).ReadsBack spell := by
  intro depth rest p fuel hrest _ hp hfuel
  obtain ⟨hscrutinee, hne, hwild, harms⟩ := h
  have hp : p.kinds = .keyword .matchWord :: (textKinds (spell scrutinee) ++ .symbol .colon ::
      .endOfLine :: .indent ::
        layoutKinds (depth + 1) (Arm.linesAll spell (depth + 1) arms ++ rest)) := by
    rw [← layoutKinds_block (Arm.block_linesAll arms hne harms)]
    simpa [lines, layoutKinds_cons, Piece.kinds] using hp
  obtain ⟨fuel, rfl⟩ := hfuel.exists_succ
  rw [statement]
  refine succeeds_place fun place => succeeds_kind hp ?_
  refine succeeds_advance hp (by simp) fun q₁ h₁ _ => ?_
  have henough : q₁.Enough 0 fuel := (hfuel.after (by grind)).weaken (Nat.zero_le _)
  refine succeeds_bind ((hscrutinee.succeeds_expression h₁ (by simp) rfl henough).mono ?_)
  rintro c q₂ ⟨hc, h₂⟩
  refine succeeds_expect h₂ (by simp) fun q₃ h₃ _ => ?_
  refine succeeds_expect h₃ (by simp) fun q₄ h₄ _ => ?_
  refine succeeds_expect h₄ (by simp) fun q₅ h₅ _ => ?_
  have henough : q₅.Enough 0 fuel := (hfuel.after (by grind)).weaken (Nat.zero_le _)
  have hwild : (([] ++ arms).filter Arm.isWildcard).length ≤ 1 := hwild
  refine succeeds_bind ((Arm.succeeds_arms harms hwild hback (.inl h₅) hrest henough).mono ?_)
  rintro bs q₆ ⟨hbs, h₆⟩
  rw [List.nil_append] at hbs
  rw [Arm.isEmpty_congr hbs, List.isEmpty_eq_false_iff.2 hne, if_neg Bool.false_ne_true]
  refine succeeds_expect h₆ layoutKinds_ne_nil fun q₇ h₇ hafter => ?_
  refine succeeds_finishStmt fun tag q₈ h₈ hafter' => ⟨?_, .inr ⟨h₈.trans h₇, hafter'.trans hafter⟩⟩
  rw [erase, erase, hc, hbs]

end Stmt

/-! ### Branches -/

/-- The lines of the other branch start no deeper than the `if`. -/
theorem Suite.shallow_linesElse (suite : Option Suite) (hrest : Shallow depth rest) :
    Shallow depth (Suite.linesElse spell depth suite ++ rest) := by
  cases suite with
  | none => exact hrest
  | some suite =>
    rintro _ ⟨⟩
    exact Nat.le_refl depth

/-- The other branch is read back, or there is none. -/
theorem Suite.succeeds_elseSuite {suite : Option Suite} (h : ∀ s ∈ suite, s.ReadsBack spell)
    (hp : p.kinds = layoutKinds depth (Suite.linesElse spell depth suite ++ rest))
    (hafter : p.afterDedent = true) (hrest : Shallow depth rest)
    (hbranch : NoBranch (layoutKinds depth rest)) (hfuel : p.Enough 1 fuel) :
    Succeeds p (elseSuite fuel) fun b q =>
      Suite.eraseElse b = Suite.eraseElse suite ∧ q.kinds = layoutKinds depth rest ∧
        q.afterDedent = true := by
  obtain ⟨fuel, rfl⟩ := hfuel.exists_succ
  rw [elseSuite]
  refine succeeds_place fun place => ?_
  cases suite with
  | none =>
    have hp : p.kinds = layoutKinds depth rest := hp
    refine succeeds_kind (k := p.current.kind) rfl ?_
    rw [NoBranch, ← hp, Parser.head?_kinds] at hbranch
    split
    · next hk => exact absurd (congrArg some hk) hbranch.2
    · next hk => exact absurd (congrArg some hk) hbranch.1
    · exact ⟨rfl, hp, hafter⟩
  | some suite =>
    have hp : p.kinds = .keyword .elseWord :: .symbol .colon :: .endOfLine ::
        layoutKinds depth (suite.lines spell (depth + 1) ++ rest) := by
      simpa [Suite.linesElse, layoutKinds_cons, Piece.kinds] using hp
    refine succeeds_kind hp (succeeds_advance hp (by simp) fun q₁ h₁ _ => ?_)
    refine succeeds_expect h₁ (by simp) fun q₂ h₂ _ => ?_
    have henough : q₂.Enough 4 fuel := (hfuel.after (by grind)).weaken (by omega)
    refine succeeds_bind (((h suite rfl).succeeds h₂ hrest henough).mono ?_)
    rintro b q₃ ⟨hb, h₃, hafter, -⟩
    exact ⟨by rw [Suite.eraseElse, Suite.eraseElse, hb], h₃, hafter⟩

theorem Stmt.readsBack_branch {tag : Tag} {condition : Expr} {thenSuite : Suite}
    {elseSuite : Option Suite} (hcondition : condition.Spelled spell)
    (hthen : thenSuite.ReadsBack spell) (helse : ∀ s ∈ elseSuite, s.ReadsBack spell) :
    (branch tag condition thenSuite elseSuite).ReadsBack spell := by
  intro depth rest p fuel hrest hbranch hp hfuel
  have hp : p.kinds = .keyword .ifWord :: (textKinds (spell condition) ++ .symbol .colon ::
      .endOfLine :: layoutKinds depth (thenSuite.lines spell (depth + 1) ++
        (Suite.linesElse spell depth elseSuite ++ rest))) := by
    simpa [lines, layoutKinds_cons, Piece.kinds] using hp
  obtain ⟨fuel, rfl⟩ := hfuel.exists_succ
  obtain ⟨fuel, rfl⟩ := hfuel.here.exists_succ
  have hfuel := hfuel.here
  rw [statement]
  refine succeeds_place fun place => succeeds_kind hp ?_
  show Succeeds p (ifStatement (fuel + 1)) _
  rw [ifStatement]
  refine succeeds_place fun place => succeeds_advance hp (by simp) fun q₁ h₁ _ => ?_
  have henough : q₁.Enough 0 fuel := (hfuel.after (by grind)).weaken (Nat.zero_le _)
  refine succeeds_bind ((hcondition.succeeds_expression h₁ (by simp) rfl henough).mono ?_)
  rintro c q₂ ⟨hc, h₂⟩
  refine succeeds_expect h₂ (by simp) fun q₃ h₃ _ => ?_
  have hlt : q₃.kinds.length < p.kinds.length := by grind
  have henough : q₃.Enough 4 fuel := (hfuel.after hlt).weaken (by omega)
  refine succeeds_bind ((hthen.succeeds h₃ (Suite.shallow_linesElse elseSuite hrest)
    henough).mono ?_)
  rintro b q₄ ⟨hb, h₄, hafter, hle⟩
  have henough : q₄.Enough 1 fuel := (hfuel.after (hle.trans_lt hlt)).weaken (by omega)
  refine succeeds_bind ((Suite.succeeds_elseSuite helse h₄ hafter hrest hbranch henough).mono ?_)
  rintro d q₅ ⟨hd, h₅, hafter⟩
  refine succeeds_finishStmt fun tag q₆ h₆ hafter' => ⟨?_, .inr ⟨h₆.trans h₅, hafter'.trans hafter⟩⟩
  rw [erase, erase, hc, hb, hd]

end

/-! ### All statements -/

section

variable {spell : Expr → String}

mutual

/-- Every statement of a canonical text is read back. -/
theorem Stmt.readsBack : (s : Stmt) → s.Writable spell → s.ReadsBack spell
  | .expr _ _, h => Stmt.readsBack_expr h
  | .declare _ _ _ _, h => Stmt.readsBack_declare h.2.1 h.2.2
  | .assign _ _ _, h => Stmt.readsBack_assign h.1 h.2.1 h.2.2.1 h.2.2.2
  | .ret _ _, h => Stmt.readsBack_ret h
  | .print _ _, h => Stmt.readsBack_print h
  | .jump _ _, _ => Stmt.readsBack_jump
  | .branch _ _ thenSuite elseSuite, h =>
    Stmt.readsBack_branch h.1 (thenSuite.readsBack h.2.1) (Suite.readsBackElse elseSuite h.2.2)
  | .forRange _ _ _ _ _ body, h =>
    Stmt.readsBack_forRange h.2.1 h.2.2.1 h.2.2.2.1 (body.readsBack h.2.2.2.2)
  | .whileLoop _ _ body, h => Stmt.readsBack_whileLoop h.1 (body.readsBack h.2)
  | .doWhile _ body _, h => Stmt.readsBack_doWhile h.2 (body.readsBack h.1)
  | .select _ _ arms, h => Stmt.readsBack_select h (Arm.readsBackAll arms h.2.2.2)

/-- Every body of a canonical text is read back. -/
theorem Suite.readsBack : (suite : Suite) → suite.Writable spell → suite.ReadsBack spell
  | .mk _ stmts, h => Suite.readsBack_mk h (Stmt.readsBackAll stmts h.2)

theorem Suite.readsBackElse : (suite : Option Suite) → Suite.WritableElse spell suite →
    ∀ s ∈ suite, s.ReadsBack spell
  | none, _ => by simp
  | some suite, h => by simpa using suite.readsBack h

theorem Stmt.readsBackAll : (ss : List Stmt) → Stmt.WritableAll spell ss →
    ∀ s ∈ ss, s.ReadsBack spell
  | [], _ => by simp
  | s :: ss, h => List.forall_mem_cons.2 ⟨s.readsBack h.1, Stmt.readsBackAll ss h.2⟩

theorem Arm.readsBackAll : (arms : List Arm) → Arm.WritableAll spell arms →
    ∀ arm ∈ arms, arm.body.ReadsBack spell
  | [], _ => by simp
  | .mk _ _ body :: arms, h =>
    List.forall_mem_cons.2 ⟨body.readsBack h.2.1, Arm.readsBackAll arms h.2.2⟩

end

end

end Offside
