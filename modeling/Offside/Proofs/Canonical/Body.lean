import Offside.Proofs.Canonical.Simple
import Offside.Proofs.Parser.Formed

/-!
# Reading the blocks of a canonical text

A block of statements, or of cases, is read back if each of its statements, or the body of each of
its cases, is. The lines that follow a block are shallower than it; reading stops behind the dedent
that these lines start with.

## Main definitions

* `Offside.Suite.ReadsBack`: a body is read back.

## Main results

* `Offside.Suite.readsBack_mk`: bodies.
* `Offside.Arm.succeeds_arms`: cases.
-/

namespace Offside

open Parse Line

/-- Reading leaves no more to read than there was. -/
def Parser.Shrinks (p q : Parser) : Prop := q.rest.length ≤ p.rest.length

instance : Parser.Frame Parser.Shrinks where
  refl _ := Nat.le_refl _
  trans _ _ _ h k := Nat.le_trans k h
  advance p := by
    rw [Parser.Shrinks, Parser.length_rest_advance]
    exact Nat.sub_le _ _
  note _ _ := Nat.le_refl _
  addExpr _ _ _ := Nat.le_refl _
  addStmt _ _ _ := Nat.le_refl _

theorem Parser.Shrinks.length_kinds {p q : Parser} (h : p.Shrinks q) :
    q.kinds.length ≤ p.kinds.length := by
  rw [Parser.length_kinds, Parser.length_kinds]
  exact Nat.succ_le_succ h

/-- A body is read back whatever follows it, if only the next line is not deeper than its header. -/
def Suite.ReadsBack (spell : Expr → String) (suite : Suite) : Prop :=
  ∀ (depth : ℕ) (rest : List Line) (p : Parser) (fuel : ℕ), Shallow depth rest →
    p.kinds = .endOfLine :: layoutKinds depth (suite.lines spell (depth + 1) ++ rest) →
      p.Enough 4 fuel → Succeeds p (Parse.suite fuel) fun b q =>
        b.erase = suite.erase ∧ q.kinds = layoutKinds depth rest ∧ q.afterDedent = true

section

variable {spell : Expr → String} {depth : ℕ} {rest : List Line} {p : Parser} {fuel : ℕ}

/-- A body is read back, and what is left after it is less. -/
theorem Suite.ReadsBack.succeeds {suite : Suite} (h : suite.ReadsBack spell)
    (hp : p.kinds = .endOfLine :: layoutKinds depth (suite.lines spell (depth + 1) ++ rest))
    (hrest : Shallow depth rest) (hfuel : p.Enough 4 fuel) :
    Succeeds p (Parse.suite fuel) fun b q => b.erase = suite.erase ∧
      q.kinds = layoutKinds depth rest ∧ q.afterDedent = true ∧
        q.kinds.length ≤ p.kinds.length := by
  refine ((h depth rest p fuel hrest hp hfuel).and
    (ensures_suite (R := Parser.Shrinks) fuel)).mono ?_
  rintro b q ⟨⟨hb, hq, hafter⟩, hshrinks⟩
  exact ⟨hb, hq, hafter, hshrinks.length_kinds⟩

/-! ### Blocks of statements -/

/-- A statement starts with a token that starts statements. -/
theorem Stmt.exists_first {s : Stmt} (h : s.Writable spell) (depth : ℕ) (rest : List Line) :
    ∃ k K, layoutKinds depth (s.lines spell depth ++ rest) = k :: K ∧ k.startsStmt := by
  cases s with
  | expr tag e =>
    obtain ⟨u, us, hu, hstarts⟩ := Expr.Spelled.readsAs h |>.exists_head
    refine ⟨u, us ++ .endOfLine :: layoutKinds depth rest, ?_, startsStmt_of_startsExpr hstarts⟩
    simp [Stmt.lines, layoutKinds_cons, Piece.kinds, hu]
  | assign tag target value =>
    obtain ⟨u, us, hu, hstarts⟩ := h.1.readsAs.exists_head
    refine ⟨u, us ++ .symbol .assign :: (textKinds (spell value) ++
      .endOfLine :: layoutKinds depth rest), ?_, startsStmt_of_startsExpr hstarts⟩
    simp [Stmt.lines, layoutKinds_cons, Piece.kinds, hu]
  | jump tag jump =>
    have hstarts : (Kind.keyword jump.keyword).startsStmt := by cases jump <;> rfl
    exact ⟨_, _, by rw [Stmt.lines, List.cons_append, layoutKinds_cons]; rfl, hstarts⟩
  | declare | ret | print | branch | forRange | whileLoop | doWhile | select =>
    exact ⟨_, _, by rw [Stmt.lines, List.cons_append, layoutKinds_cons]; rfl, rfl⟩

/-- What follows a statement of a block, another one or a dedent, ends its blocks and starts no
other branch. -/
theorem Stmt.noBranch_linesAll {ss : List Stmt} (h : Stmt.WritableAll spell ss)
    (hrest : Shallow depth rest) :
    Shallow (depth + 1) (Stmt.linesAll spell (depth + 1) ss ++ rest) ∧
      NoBranch (layoutKinds (depth + 1) (Stmt.linesAll spell (depth + 1) ss ++ rest)) := by
  cases ss with
  | nil =>
    rw [Stmt.linesAll, List.nil_append]
    refine ⟨fun line hline => (hrest line hline).trans (Nat.le_succ depth), ?_⟩
    rw [layoutKinds_shallow hrest]
    exact ⟨by simp, by simp⟩
  | cons s ss =>
    rw [Stmt.linesAll, List.append_assoc]
    obtain ⟨k, K, hk, hstarts⟩ := Stmt.exists_first h.1 (depth + 1)
      (Stmt.linesAll spell (depth + 1) ss ++ rest)
    rw [hk]
    exact ⟨(Stmt.block_lines s h.1).shallow, noBranch_of_startsStmt hstarts⟩

/-- The statements of a block are read back up to its end. -/
theorem Stmt.succeeds_blockStatements {ss before : List Stmt} (h : Stmt.WritableAll spell ss)
    (hback : ∀ s ∈ ss, s.ReadsBack spell)
    (hp : p.kinds = layoutKinds (depth + 1) (Stmt.linesAll spell (depth + 1) ss ++ rest) ∨
      p.kinds = .endOfLine :: layoutKinds (depth + 1) (Stmt.linesAll spell (depth + 1) ss ++ rest))
    (hrest : Shallow depth rest) (hfuel : p.Enough 3 fuel) :
    Succeeds p (blockStatements fuel before) fun ts q =>
      Stmt.eraseAll ts = Stmt.eraseAll (before ++ ss) ∧
        q.kinds = .dedent :: layoutKinds depth rest := by
  induction ss generalizing p fuel before with
  | nil =>
    obtain ⟨fuel, rfl⟩ := hfuel.exists_succ
    rw [Stmt.linesAll, List.nil_append, layoutKinds_shallow hrest] at hp
    rw [blockStatements]
    refine succeeds_skipLineEnds hp (by simp) fun q hq _ => succeeds_get ?_
    rw [if_pos (by simp [Parser.atBlockEnd, Parser.current_of_kinds hq])]
    exact ⟨by rw [List.append_nil], hq⟩
  | cons s ss ih =>
    obtain ⟨hs, hss⟩ := h
    obtain ⟨hsback, hback⟩ := List.forall_mem_cons.1 hback
    obtain ⟨fuel, rfl⟩ := hfuel.exists_succ
    obtain ⟨hshallow, hbranch⟩ := Stmt.noBranch_linesAll hss hrest
    obtain ⟨k, K, hk, hstarts⟩ := Stmt.exists_first hs (depth + 1)
      (Stmt.linesAll spell (depth + 1) ss ++ rest)
    rw [Stmt.linesAll, List.append_assoc, hk] at hp
    rw [blockStatements]
    have hline : k ≠ .endOfLine := by
      rintro rfl
      cases hstarts
    refine succeeds_skipLineEnds hp hline fun q₁ h₁ hle => succeeds_get ?_
    have hend : q₁.atBlockEnd = false := by
      rw [Parser.atBlockEnd, Parser.current_of_kinds h₁]
      cases k with
      | identifier | number | keyword | symbol => rfl
      | endOfInput | endOfLine | indent | dedent | invalid => cases hstarts
    rw [hend, if_neg Bool.false_ne_true]
    have hfuel := hfuel.mono hle
    refine succeeds_bind ((hsback _ _ q₁ fuel hshallow hbranch (h₁.trans hk.symm)
      hfuel.here).mono ?_)
    rintro t q₂ ⟨ht, h₂⟩
    have hlt : q₂.kinds.length < q₁.kinds.length := by
      rw [h₁, ← hk]
      exact h₂.length_kinds.trans_lt
        ((Stmt.block_lines s hs).length_layoutKinds hshallow (hk ▸ (by simpa using hline)))
    refine succeeds_expectStatementEnd h₂ ?_
    refine (ih hss hback (h₂.symm.imp And.left id) ((hfuel.after hlt).weaken (by omega))).mono ?_
    rintro ts q ⟨hts, hq⟩
    refine ⟨?_, hq⟩
    rw [hts, Stmt.eraseAll_append, Stmt.eraseAll_append, Stmt.eraseAll_append]
    simp only [Stmt.eraseAll, ht, List.append_assoc, List.singleton_append]

/-- A body is read back if its statements are. -/
theorem Suite.readsBack_mk {start : Location} {stmts : List Stmt}
    (h : (Suite.mk start stmts).Writable spell) (hback : ∀ s ∈ stmts, s.ReadsBack spell) :
    (Suite.mk start stmts).ReadsBack spell := by
  intro depth rest p fuel hrest hp hfuel
  obtain ⟨hne, hstmts⟩ := h
  have hp : p.kinds = .endOfLine :: .indent ::
      layoutKinds (depth + 1) (Stmt.linesAll spell (depth + 1) stmts ++ rest) := by
    rw [← layoutKinds_block (Stmt.block_linesAll stmts hne hstmts)]
    exact hp
  obtain ⟨fuel, rfl⟩ := hfuel.exists_succ
  rw [Parse.suite]
  refine succeeds_kind hp ?_
  rw [if_pos rfl]
  refine succeeds_advance hp (by simp) fun q₁ h₁ _ => succeeds_place fun place => ?_
  refine succeeds_expect h₁ (by simp) fun q₂ h₂ _ => ?_
  have henough : q₂.Enough 3 fuel := (hfuel.after (by grind)).weaken (by omega)
  refine succeeds_bind ((Stmt.succeeds_blockStatements hstmts hback (.inl h₂) hrest
    henough).mono ?_)
  rintro ts q₃ ⟨hts, h₃⟩
  rw [List.nil_append] at hts
  rw [Stmt.isEmpty_congr hts, List.isEmpty_eq_false_iff.2 hne, if_neg Bool.false_ne_true]
  refine succeeds_expect h₃ layoutKinds_ne_nil fun q₄ h₄ hafter => ⟨?_, h₄, hafter⟩
  rw [Suite.erase, Suite.erase, hts]

/-! ### Cases -/

/-- Cases start a line each, and so do the lines behind them. -/
theorem Arm.shallow_linesAll {arms : List Arm} (h : Arm.WritableAll spell arms)
    (hrest : Shallow depth rest) :
    Shallow (depth + 1) (Arm.linesAll spell (depth + 1) arms ++ rest) := by
  cases arms with
  | nil => exact fun line hline => (hrest line hline).trans (Nat.le_succ depth)
  | cons arm arms => exact (Arm.block_linesAll _ (List.cons_ne_nil arm arms) h).shallow

theorem Arm.isWildcard_congr {location location' : Location} {pattern pattern' : Pattern}
    {body body' : Suite} (h : pattern.erase = pattern'.erase) :
    (Arm.mk location pattern body).isWildcard = (Arm.mk location' pattern' body').isWildcard := by
  cases pattern with
  | wildcard =>
    cases pattern' with
    | wildcard => rfl
    | value => cases h
  | value =>
    cases pattern' with
    | wildcard => cases h
    | value => rfl

/-- Before the only case that accepts everything there is no such case. -/
theorem Arm.any_isWildcard {before arms : List Arm} {location : Location} {pattern : Pattern}
    {body : Suite}
    (h : ((before ++ .mk location pattern body :: arms).filter Arm.isWildcard).length ≤ 1)
    (hpattern : pattern = .wildcard) : before.any Arm.isWildcard = false := by
  have hwild : (Arm.mk location pattern body).isWildcard = true := by
    rw [hpattern]
    rfl
  rw [List.filter_append, List.filter_cons_of_pos hwild, List.length_append, List.length_cons] at h
  have hnone : (before.filter Arm.isWildcard).length = 0 := by omega
  rw [List.any_eq_false]
  intro arm harm htrue
  have hmem : arm ∈ before.filter Arm.isWildcard := List.mem_filter.2 ⟨harm, htrue⟩
  rw [List.length_eq_zero_iff.1 hnone] at hmem
  cases hmem

/-- What a case accepts is read back. -/
theorem Pattern.succeeds_pattern {pattern : Pattern} {wild : Bool} {K : List Kind}
    (h : pattern.Writable spell) (hwild : pattern = .wildcard → wild = false)
    (hp : p.kinds = (pattern.pieces spell).flatMap Piece.kinds ++ .symbol .colon :: K)
    (hK : K ≠ []) (hfuel : p.Enough 0 fuel) :
    Succeeds p (Parse.pattern fuel wild) fun t q =>
      t.erase = pattern.erase ∧ q.kinds = .symbol .colon :: K := by
  cases pattern with
  | wildcard =>
    refine succeeds_kind hp ?_
    rw [if_pos rfl, hwild rfl, if_neg Bool.false_ne_true]
    exact succeeds_advance hp (by simp) fun q hq _ => ⟨rfl, hq⟩
  | value e =>
    obtain ⟨he, hliteral⟩ := h
    have hp : p.kinds = textKinds (spell e) ++ .symbol .colon :: K := by
      simpa [Pattern.pieces, Piece.kinds] using hp
    obtain ⟨u, us, hu, -⟩ := he.readsAs.exists_head
    -- A literal does not start with a name.
    have hname : u ≠ .identifier "_" := by
      rintro rfl
      have hoperand := he.readsAs.isOperand (by rw [hu]; rfl)
      cases e with
      | number | unary => cases hoperand
      | var | addressOf | index | member | binary | call => exact hliteral
    refine succeeds_kind (K := us ++ .symbol .colon :: K) (by rw [hp, hu, List.cons_append]) ?_
    rw [if_neg hname]
    refine succeeds_bind ((he.succeeds_expression hp hK rfl hfuel).mono ?_)
    rintro e' q ⟨he', hq⟩
    exact ⟨by rw [Pattern.erase, Pattern.erase, he'], hq⟩

/-- The cases of a `match` are read back up to the end of their block. -/
theorem Arm.succeeds_arms {arms before : List Arm} (h : Arm.WritableAll spell arms)
    (hwild : ((before ++ arms).filter Arm.isWildcard).length ≤ 1)
    (hback : ∀ arm ∈ arms, arm.body.ReadsBack spell)
    (hp : p.kinds = layoutKinds (depth + 1) (Arm.linesAll spell (depth + 1) arms ++ rest) ∨
      p.kinds = .endOfLine :: layoutKinds (depth + 1) (Arm.linesAll spell (depth + 1) arms ++ rest))
    (hrest : Shallow depth rest) (hfuel : p.Enough 0 fuel) :
    Succeeds p (Parse.arms fuel before) fun bs q =>
      Arm.eraseAll bs = Arm.eraseAll (before ++ arms) ∧
        q.kinds = .dedent :: layoutKinds depth rest := by
  induction arms generalizing p fuel before with
  | nil =>
    obtain ⟨fuel, rfl⟩ := hfuel.exists_succ
    rw [Arm.linesAll, List.nil_append, layoutKinds_shallow hrest] at hp
    rw [Parse.arms]
    refine succeeds_skipLineEnds hp (by simp) fun q hq _ => succeeds_get ?_
    rw [if_pos (by simp [Parser.atBlockEnd, Parser.current_of_kinds hq])]
    exact ⟨by rw [List.append_nil], hq⟩
  | cons arm arms ih =>
    obtain ⟨location, pattern, body⟩ := arm
    obtain ⟨hpattern, -, harms⟩ := h
    obtain ⟨hbody, hback⟩ := List.forall_mem_cons.1 hback
    have hbody : body.ReadsBack spell := hbody
    obtain ⟨fuel, rfl⟩ := hfuel.exists_succ
    have hcase : layoutKinds (depth + 1)
        (Arm.linesAll spell (depth + 1) (.mk location pattern body :: arms) ++ rest) =
        .keyword .caseWord :: ((pattern.pieces spell).flatMap Piece.kinds ++ .symbol .colon ::
          .endOfLine :: layoutKinds (depth + 1) (body.lines spell (depth + 1 + 1) ++
            (Arm.linesAll spell (depth + 1) arms ++ rest))) := by
      simp [Arm.linesAll, layoutKinds_cons, Piece.kinds]
    rw [hcase] at hp
    rw [Parse.arms]
    refine succeeds_skipLineEnds hp (by simp) fun q₁ h₁ hle => succeeds_get ?_
    rw [if_neg (by simp [Parser.atBlockEnd, Parser.current_of_kinds h₁])]
    have hfuel := hfuel.mono hle
    refine succeeds_place fun place => succeeds_expect h₁ (by simp) fun q₂ h₂ _ => ?_
    have hlt : q₂.kinds.length < q₁.kinds.length := by
      rw [h₁, h₂, List.length_cons]
      exact Nat.lt_succ_self _
    have henough : q₂.Enough 0 fuel := (hfuel.after hlt).weaken (Nat.zero_le _)
    refine succeeds_bind ((Pattern.succeeds_pattern hpattern (Arm.any_isWildcard hwild) h₂ (by simp)
      henough).mono ?_)
    rintro t q₃ ⟨ht, h₃⟩
    refine succeeds_expect h₃ (by simp) fun q₄ h₄ _ => ?_
    have hlt : q₄.kinds.length < q₁.kinds.length := by
      simp only [h₁, h₄, List.length_cons, List.length_append]
      omega
    have henough : q₄.Enough 4 fuel := (hfuel.after hlt).weaken (by omega)
    refine succeeds_bind ((hbody.succeeds h₄ (Arm.shallow_linesAll harms hrest) henough).mono ?_)
    rintro b q₅ ⟨hb, h₅, hafter, hle⟩
    have henough : q₅.Enough 0 fuel := (hfuel.after (hle.trans_lt hlt)).weaken (Nat.zero_le _)
    refine succeeds_expectStatementEnd (K := q₅.kinds) (.inr ⟨rfl, hafter⟩) ?_
    -- The case that has been read is a wildcard if the one that was written is.
    have hwild : ((before ++ [Arm.mk place t b] ++ arms).filter Arm.isWildcard).length ≤ 1 := by
      have hsame : (Arm.mk place t b).isWildcard = (Arm.mk location pattern body).isWildcard :=
        Arm.isWildcard_congr ht
      rw [← List.countP_eq_length_filter] at hwild ⊢
      simpa [List.countP_append, List.countP_cons, hsame] using hwild
    refine (ih harms hwild hback (.inl h₅) henough).mono ?_
    rintro bs q ⟨hbs, hq⟩
    refine ⟨?_, hq⟩
    rw [hbs, Arm.eraseAll_append, Arm.eraseAll_append, Arm.eraseAll_append]
    simp only [Arm.eraseAll, ht, hb, List.append_assoc, List.singleton_append]

end

end Offside
