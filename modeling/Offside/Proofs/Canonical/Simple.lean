import Offside.Proofs.Canonical.Parts

/-!
# Reading the lines of a canonical text

How blocks of lines look to the parser, and how statements on one line are read back. The lines of
a statement are followed by lines of which the first is no deeper than the statement; reading stops
before these, either at the end of a line or behind the last of the blocks that the statement
opened.

## Main definitions

* `Offside.Line.Shallow`: lines that end every deeper block.
* `Offside.Parser.Ended`: where reading stops after a statement.
* `Offside.NoBranch`: tokens that do not go on with an `else`.
* `Offside.Stmt.ReadsBack`: a statement is read back.

## Main results

* `Offside.Line.layoutKinds_block`, `Offside.Line.layoutKinds_shallow`: the start and the end of a
  block.
* `Offside.Stmt.readsBack_expr`, `Offside.Stmt.readsBack_declare` and others: statements on one
  line.
-/

namespace Offside

open Parse Line

/-! ### What comes first -/

/-- Kinds of token with which a statement starts. -/
def Kind.startsStmt : Kind → Bool
  | .keyword word => word ∈ [.ifWord, .forWord, .whileWord, .doWord, .matchWord, .returnWord,
      .printWord, .breakWord, .continueWord, .notWord]
  | .identifier _ | .number _ _ | .symbol _ => true
  | .endOfInput | .endOfLine | .indent | .dedent | .invalid _ => false

theorem startsStmt_of_startsExpr {k : Kind} (h : startsExpr k) : k.startsStmt := by
  cases k with
  | identifier | number | symbol => rfl
  | keyword word =>
    cases word with
    | notWord => rfl
    | _ => cases h
  | endOfInput | endOfLine | indent | dedent | invalid => cases h

namespace Line

/-- Lines of which the first, if there is one, is no deeper than `depth`. -/
def Shallow (depth : ℕ) (lines : List Line) : Prop := ∀ line ∈ lines.head?, line.depth ≤ depth

variable {depth : ℕ} {lines rest : List Line}

@[simp] theorem layoutKinds_ne_nil : layoutKinds depth lines ≠ [] := by
  cases lines <;> simp [layoutKinds]

theorem layoutKinds_cons (pieces : List Piece) :
    layoutKinds depth (⟨depth, pieces⟩ :: rest) =
      pieces.flatMap Piece.kinds ++ .endOfLine :: layoutKinds depth rest := by
  simp [layoutKinds, margin, kinds]

/-- A block starts with an indent. -/
theorem layoutKinds_block (h : Block (depth + 1) lines) :
    layoutKinds depth (lines ++ rest) = .indent :: layoutKinds (depth + 1) (lines ++ rest) := by
  obtain ⟨line, more, rfl, hline⟩ := h.first
  simp [layoutKinds, margin, hline]

/-- Shallow lines end a block with a dedent. -/
theorem layoutKinds_shallow (h : Shallow depth rest) :
    layoutKinds (depth + 1) rest = .dedent :: layoutKinds depth rest := by
  cases rest with
  | nil => rfl
  | cons line rest =>
    have hline : line.depth ≤ depth := h line rfl
    have hnext : depth + 1 - line.depth = depth - line.depth + 1 := by omega
    rw [layoutKinds, layoutKinds, margin, margin, if_neg (by omega), if_neg (by omega), hnext,
      List.replicate_succ]
    rfl

/-- The fewer blocks are open, the fewer tokens close them. -/
theorem length_layoutKinds_mono {before : ℕ} (h : Shallow depth rest) (hle : depth ≤ before) :
    (layoutKinds depth rest).length ≤ (layoutKinds before rest).length := by
  cases rest with
  | nil => simpa [layoutKinds] using hle
  | cons line rest =>
    have hline : line.depth ≤ depth := h line rfl
    simp only [layoutKinds, margin, if_neg hline.not_gt, if_neg (hline.trans hle).not_gt,
      List.length_append, List.length_replicate]
    omega

/-- Lines have tokens: at least their ends. -/
theorem length_layoutKinds_append {before : ℕ} (h : Shallow depth rest) (hle : depth ≤ before)
    (deep : ∀ line ∈ lines, depth ≤ line.depth) :
    (layoutKinds depth rest).length + lines.length ≤
      (layoutKinds before (lines ++ rest)).length := by
  induction lines generalizing before with
  | nil => exact length_layoutKinds_mono h hle
  | cons line lines ih =>
    obtain ⟨hline, deep⟩ := List.forall_mem_cons.1 deep
    have := ih hline deep
    rw [List.cons_append, layoutKinds, List.length_append, List.length_cons, List.length_cons]
    omega

theorem Block.shallow {lines : List Line} (h : Block depth lines) :
    Shallow depth (lines ++ rest) := by
  obtain ⟨line, more, rfl, hline⟩ := h.first
  rintro _ ⟨⟩
  exact hline.le

/-- A block that starts with a token has two tokens at least. -/
theorem Block.length_layoutKinds {lines : List Line} (h : Block depth lines)
    (hrest : Shallow depth rest)
    (hfirst : (layoutKinds depth (lines ++ rest)).head? ≠ some .endOfLine) :
    (layoutKinds depth rest).length + 1 < (layoutKinds depth (lines ++ rest)).length := by
  obtain ⟨⟨_, pieces⟩, more, rfl, rfl⟩ := h.first
  have hmore := length_layoutKinds_append hrest le_rfl
    (fun line hline => h.deep line (List.mem_cons_of_mem _ hline))
  rw [List.cons_append, layoutKinds_cons] at hfirst ⊢
  cases hpieces : pieces.flatMap Piece.kinds with
  | nil => exact absurd (by rw [hpieces]; rfl) hfirst
  | cons k K =>
    rw [List.length_append, List.length_cons, List.length_cons]
    omega

end Line

/-! ### Where reading stops -/

/-- A statement has been read and the tokens `K` follow: behind the end of a line, or directly
behind a block that the statement opened. -/
def Parser.Ended (K : List Kind) (q : Parser) : Prop :=
  q.kinds = .endOfLine :: K ∨ q.kinds = K ∧ q.afterDedent = true

theorem Parser.Ended.atItemEnd {K : List Kind} {q : Parser} (h : q.Ended K) :
    q.atItemEnd = true := by
  rcases h with h | ⟨-, h⟩
  · simp [Parser.atItemEnd, Parser.current_of_kinds h]
  · simp [Parser.atItemEnd, h]

theorem Parser.Ended.atStatementEnd {K : List Kind} {q : Parser} (h : q.Ended K) :
    q.atStatementEnd = true := by
  rcases h with h | ⟨-, h⟩
  · simp [Parser.atStatementEnd, Parser.current_of_kinds h]
  · simp [Parser.atStatementEnd, h]

theorem Parser.Ended.length_kinds {K : List Kind} {q : Parser} (h : q.Ended K) :
    q.kinds.length ≤ K.length + 1 := by
  rcases h with h | ⟨h, -⟩ <;> simp [h]

/-- Tokens that do not go on with another branch. -/
def NoBranch (K : List Kind) : Prop :=
  K.head? ≠ some (.keyword .elseWord) ∧ K.head? ≠ some (.keyword .elifWord)

theorem noBranch_of_startsStmt {k : Kind} {K : List Kind} (h : k.startsStmt) :
    NoBranch (k :: K) := by
  constructor
  · rintro ⟨⟩
    cases h
  · rintro ⟨⟩
    cases h

theorem Parser.kinds_skipLineEnds {p : Parser} {k : Kind} {K : List Kind}
    (hp : p.kinds = k :: K ∨ p.kinds = .endOfLine :: k :: K) (hk : k ≠ .endOfLine) :
    p.skipLineEnds.kinds = k :: K := by
  have hstop {q : Parser} (hq : q.kinds = k :: K) : q.skipLineEnds = q := by
    rw [Parser.skipLineEnds, if_neg (by rw [current_of_kinds hq]; exact fun h => hk h.1)]
  rcases hp with hp | hp
  · rw [hstop hp, hp]
  · have hnext := kinds_advance hp (List.cons_ne_nil k K)
    rw [Parser.skipLineEnds,
      if_pos ⟨current_of_kinds hp, rest_ne_nil_of_kinds hp (List.cons_ne_nil k K)⟩, hstop hnext,
      hnext]

namespace Parse

variable {α : Type} {p : Parser} {fuel : ℕ} {k : Kind} {K : List Kind}

theorem succeeds_skipLineEnds {f : Unit → Parse α} {ok : α → Parser → Prop}
    (hp : p.kinds = k :: K ∨ p.kinds = .endOfLine :: k :: K) (hk : k ≠ .endOfLine)
    (h : ∀ q, q.kinds = k :: K → q.kinds.length ≤ p.kinds.length → Succeeds q (f ()) ok) :
    Succeeds p (modify Parser.skipLineEnds >>= f) ok := by
  have hkinds := Parser.kinds_skipLineEnds hp hk
  refine h _ hkinds ?_
  rcases hp with hp | hp <;> simp [hkinds, hp]

theorem succeeds_get {f : Parser → Parse α} {ok : α → Parser → Prop} (h : Succeeds p (f p) ok) :
    Succeeds p (get >>= f) ok := h

theorem succeeds_expectStatementEnd {f : Unit → Parse α} {ok : α → Parser → Prop} {after : Ending}
    (hp : p.Ended K) (h : Succeeds p (f ()) ok) :
    Succeeds p (expectStatementEnd after >>= f) ok := by
  refine succeeds_bind (succeeds_get ?_)
  rw [hp.atStatementEnd]
  exact h

/-- A name by itself is read as a target. -/
theorem succeeds_suffixed_name {name : String} (hp : p.kinds = .identifier name :: k :: K)
    (hk : k ∉ [.symbol .openParen, .symbol .openBracket, .symbol .dot]) (hfuel : p.Enough 0 fuel) :
    Succeeds p (suffixed fuel) fun t q => (∃ tag, t = .var tag name) ∧ q.kinds = k :: K := by
  obtain ⟨fuel, rfl⟩ : ∃ n, fuel = n + 2 := by
    refine ⟨fuel - 2, ?_⟩
    rw [Parser.Enough, hp, stepsPerToken, List.length_cons] at hfuel
    omega
  simp only [List.mem_cons, List.not_mem_nil, or_false, not_or] at hk
  obtain ⟨hparen, hbracket, hdot⟩ := hk
  rw [suffixed, primary]
  refine succeeds_bind (succeeds_place fun place => succeeds_kind hp ?_)
  refine succeeds_advance hp (List.cons_ne_nil k K) fun q hq _ => succeeds_kind hq ?_
  rw [if_neg fun h => hparen h.2]
  refine (?_ : Succeeds { q with arena := _ } (suffixes (fuel + 1) _) _)
  rw [suffixes]
  refine succeeds_place fun place => succeeds_kind (K := K) hq ?_
  split
  · exact absurd rfl hparen
  · exact absurd rfl hbracket
  · exact absurd rfl hdot
  · exact ⟨⟨_, rfl⟩, hq⟩

section

variable {spell : Expr → String}

/-- An optional expression after its mark is read back. -/
theorem succeeds_optionalAfter {value : Option Expr} {mark : Kind} {lead : List Piece}
    (h : ∀ e ∈ value, e.Spelled spell) (hlead : lead.flatMap Piece.kinds = [mark])
    (hp : p.kinds = (Piece.optional spell lead value).flatMap Piece.kinds ++ k :: K) (hK : K ≠ [])
    (hk : k.endsExpr) (hmark : k ≠ mark) (hfuel : p.Enough 0 fuel) :
    Succeeds p (optionalAfter fuel mark) fun v q =>
      v.map Expr.erase = value.map Expr.erase ∧ q.kinds = k :: K := by
  cases value with
  | none => exact succeeds_accept?_of_ne hp hmark ⟨rfl, hp⟩
  | some e =>
    have hp : p.kinds = mark :: (textKinds (spell e) ++ k :: K) := by
      rw [hp, Piece.optional, List.flatMap_append, hlead]
      simp [Piece.kinds]
    refine succeeds_accept?_of_eq hp (by simp) fun q hq => ?_
    have henough : q.Enough 0 fuel := (hfuel.later (by grind)).weaken (Nat.zero_le _)
    refine succeeds_bind (((h e rfl).succeeds_expression hq hK hk henough).mono ?_)
    rintro e' r ⟨he', hr⟩
    exact ⟨by simp only [Option.map_some, he'], hr⟩

end

end Parse

/-! ### Statements on one line -/

/-- A statement is read back whatever follows it, if only the next line is not deeper and starts no
branch. -/
def Stmt.ReadsBack (spell : Expr → String) (s : Stmt) : Prop :=
  ∀ (depth : ℕ) (rest : List Line) (p : Parser) (fuel : ℕ), Shallow depth rest →
    NoBranch (layoutKinds depth rest) →
      p.kinds = layoutKinds depth (s.lines spell depth ++ rest) → p.Enough 2 fuel →
        Succeeds p (statement fuel) fun t q => t.erase = s.erase ∧ q.Ended (layoutKinds depth rest)

namespace Stmt

variable {spell : Expr → String} {tag : Tag}

theorem readsBack_expr {e : Expr} (h : e.Spelled spell) : (expr tag e).ReadsBack spell := by
  intro depth rest p fuel _ _ hp hfuel
  have hp : p.kinds = textKinds (spell e) ++ .endOfLine :: layoutKinds depth rest := by
    simpa [lines, layoutKinds_cons, Piece.kinds] using hp
  obtain ⟨fuel, rfl⟩ := hfuel.exists_succ
  have hfuel := hfuel.here.weaken (Nat.zero_le _)
  obtain ⟨u, us, hu, hstarts⟩ := h.readsAs.exists_head
  have hfirst : p.kinds = u :: (us ++ .endOfLine :: layoutKinds depth rest) := by
    rw [hp, hu, List.cons_append]
  by_cases hname : ∃ name, u = .identifier name
  · obtain ⟨name, rfl⟩ := hname
    rw [statement]
    refine succeeds_place fun start => succeeds_kind hfirst ?_
    refine (h.readsAs.succeeds_afterTarget hp layoutKinds_ne_nil hfuel (by rw [hu]; rfl) rfl start
      (by simp)).mono ?_
    rintro t q ⟨ht, hq⟩
    exact ⟨ht, .inl hq⟩
  · refine succeeds_statement_of_startsExpr hfirst hstarts (fun name he => hname ⟨name, he⟩) ?_
    intro start
    refine succeeds_bind ((h.succeeds_expression hp layoutKinds_ne_nil rfl hfuel).mono ?_)
    rintro e' q ⟨he', hq⟩
    refine succeeds_finishStmt fun tag q' hq' _ => ⟨?_, .inl (hq'.trans hq)⟩
    rw [erase, erase, he']

theorem readsBack_assign {target value : Expr} (htarget : target.Spelled spell)
    (hplace : target.isAddressable) (hname : StartsWithName (spell target))
    (hvalue : value.Spelled spell) : (assign tag target value).ReadsBack spell := by
  intro depth rest p fuel _ _ hp hfuel
  have hp : p.kinds = textKinds (spell target) ++ .symbol .assign ::
      (textKinds (spell value) ++ .endOfLine :: layoutKinds depth rest) := by
    simpa [lines, layoutKinds_cons, Piece.kinds] using hp
  obtain ⟨fuel, rfl⟩ := hfuel.exists_succ
  obtain ⟨name, hname⟩ := hname
  obtain ⟨us, hus⟩ := List.head?_eq_some_iff.1 hname
  have hfirst : p.kinds = .identifier name :: (us ++ .symbol .assign ::
      (textKinds (spell value) ++ .endOfLine :: layoutKinds depth rest)) := by
    rw [hp, hus, List.cons_append]
  rw [statement]
  refine succeeds_place fun start => succeeds_kind hfirst ?_
  refine succeeds_bind ((htarget.readsAs.succeeds_target hp (by simp)
    (hfuel.here.weaken (Nat.zero_le _)) hname rfl hplace).mono ?_)
  rintro t q ⟨ht, hq⟩
  rw [afterTarget]
  refine succeeds_kind hq ?_
  dsimp only
  rw [Expr.Same.isAddressable ht, hplace]
  refine succeeds_advance hq (by simp) fun q₁ h₁ _ => ?_
  have henough : q₁.Enough 0 fuel := (hfuel.after (by grind)).weaken (Nat.zero_le _)
  refine succeeds_bind ((hvalue.succeeds_expression h₁ layoutKinds_ne_nil rfl henough).mono ?_)
  rintro v q₂ ⟨hv, h₂⟩
  refine succeeds_finishStmt fun tag q₃ h₃ _ => ⟨?_, .inl (h₃.trans h₂)⟩
  rw [erase, erase, ht, hv]

theorem readsBack_declare {name : String} {type : TypeExpr} {init : Option Expr}
    (htype : type.Writable) (hinit : ∀ e ∈ init, e.Spelled spell) :
    (declare tag name type init).ReadsBack spell := by
  intro depth rest p fuel _ _ hp hfuel
  have hp : p.kinds = .identifier name :: .symbol .colon :: (type.pieces.flatMap Piece.kinds ++
      ((Piece.optional spell [.gap, .sign .assign, .gap] init).flatMap Piece.kinds ++
        .endOfLine :: layoutKinds depth rest)) := by
    simpa [lines, layoutKinds_cons, Piece.kinds] using hp
  obtain ⟨fuel, rfl⟩ := hfuel.exists_succ
  -- What follows the type is an equals sign or the end of the line.
  obtain ⟨k, L, hL, hopen⟩ : ∃ k L,
      (Piece.optional spell [.gap, .sign .assign, .gap] init).flatMap Piece.kinds ++
        .endOfLine :: layoutKinds depth rest = k :: L ∧ k ≠ .symbol .openBracket := by
    cases init with
    | none => exact ⟨_, _, rfl, by simp⟩
    | some e => exact ⟨_, _, rfl, by simp⟩
  rw [statement]
  refine succeeds_place fun start => succeeds_kind hp ?_
  have henough : p.Enough 0 fuel := hfuel.here.weaken (Nat.zero_le _)
  refine succeeds_bind ((succeeds_suffixed_name hp (by decide) henough).mono ?_)
  rintro t q ⟨⟨tag, rfl⟩, hq⟩
  rw [afterTarget]
  refine succeeds_kind hq (succeeds_advance hq (by simp) fun q₁ h₁ _ => ?_)
  have h₁' : q₁.kinds = type.pieces.flatMap Piece.kinds ++ k :: L := by rw [h₁, hL]
  have henough : q₁.Enough 0 fuel := (hfuel.after (by grind)).weaken (Nat.zero_le _)
  refine succeeds_bind ((TypeExpr.succeeds_typeExpr htype h₁' hopen henough).mono ?_)
  rintro _ q₂ ⟨rfl, h₂⟩
  rw [← hL] at h₂
  have henough : q₂.Enough 0 fuel := (hfuel.after (by grind)).weaken (Nat.zero_le _)
  refine succeeds_bind ((succeeds_optionalAfter hinit rfl h₂ layoutKinds_ne_nil rfl (by simp)
    henough).mono ?_)
  rintro v q₃ ⟨hv, h₃⟩
  refine succeeds_finishStmt fun tag q₄ h₄ _ => ⟨?_, .inl (h₄.trans h₃)⟩
  rw [erase, erase, hv]

theorem readsBack_ret {value : Option Expr} (h : ∀ e ∈ value, e.Spelled spell) :
    (ret tag value).ReadsBack spell := by
  intro depth rest p fuel _ _ hp hfuel
  have hp : p.kinds = .keyword .returnWord ::
      ((Piece.optional spell [.gap] value).flatMap Piece.kinds ++
        .endOfLine :: layoutKinds depth rest) := by
    simpa [lines, layoutKinds_cons, Piece.kinds] using hp
  obtain ⟨fuel, rfl⟩ := hfuel.exists_succ
  rw [statement]
  refine succeeds_place fun start => succeeds_kind hp ?_
  refine succeeds_advance hp (by simp) fun q₁ h₁ hafter => ?_
  rw [returnStatement]
  refine succeeds_get ?_
  cases value with
  | none =>
    have hend : q₁.atStatementEnd = true := by
      simp [Parser.atStatementEnd, Parser.current_of_kinds h₁]
    rw [hend, if_pos rfl]
    exact succeeds_finishStmt fun tag q₂ h₂ _ => ⟨rfl, .inl (h₂.trans h₁)⟩
  | some e =>
    have he := h e rfl
    have h₁ : q₁.kinds = textKinds (spell e) ++ .endOfLine :: layoutKinds depth rest := by
      rw [h₁]
      simp [Piece.optional, Piece.kinds]
    obtain ⟨u, us, hu, hstarts⟩ := he.readsAs.exists_head
    have hcurrent : q₁.current.kind = u := by
      refine Parser.current_of_kinds (K := us ++ .endOfLine :: layoutKinds depth rest) ?_
      rw [h₁, hu, List.cons_append]
    have hend : q₁.atStatementEnd = false := by
      have hplain := he.readsAs.isPlain (k := u) (by rw [hu]; exact List.mem_cons_self)
      simp only [Parser.atStatementEnd, hafter, hcurrent]
      cases u with
      | identifier | number | keyword | symbol => rfl
      | endOfInput | endOfLine | indent | dedent | invalid => cases hplain
    rw [hend, if_neg Bool.false_ne_true]
    have henough : q₁.Enough 0 fuel := (hfuel.after (by grind)).weaken (Nat.zero_le _)
    refine succeeds_bind ((he.succeeds_expression h₁ layoutKinds_ne_nil rfl henough).mono ?_)
    rintro e' q₂ ⟨he', h₂⟩
    refine succeeds_finishStmt fun tag q₃ h₃ _ => ⟨?_, .inl (h₃.trans h₂)⟩
    rw [erase, erase, Option.map_some, Option.map_some, he']

theorem readsBack_print {args : List Expr} (h : ∀ e ∈ args, e.Spelled spell) :
    (print tag args).ReadsBack spell := by
  intro depth rest p fuel _ _ hp hfuel
  have hp : p.kinds = .keyword .printWord :: .symbol .openParen ::
      ((Piece.list spell args).flatMap Piece.kinds ++
        .symbol .closeParen :: .endOfLine :: layoutKinds depth rest) := by
    simpa [lines, layoutKinds_cons, Piece.kinds] using hp
  obtain ⟨fuel, rfl⟩ := hfuel.exists_succ
  rw [statement]
  refine succeeds_place fun start => succeeds_kind hp ?_
  refine succeeds_advance hp (by simp) fun q₁ h₁ _ => ?_
  refine succeeds_expect h₁ (by simp) fun q₂ h₂ _ => ?_
  have henough : q₂.Enough 2 fuel := (hfuel.after (by grind)).weaken (by omega)
  refine succeeds_bind ((Expr.succeeds_arguments h h₂ (by simp) henough).mono ?_)
  rintro args' q₃ ⟨hargs, h₃⟩
  refine succeeds_expect h₃ (by simp) fun q₄ h₄ _ => ?_
  refine succeeds_finishStmt fun tag q₅ h₅ _ => ⟨?_, .inl (h₅.trans h₄)⟩
  rw [erase, erase, hargs]

theorem readsBack_jump {jump : Jump} : (Stmt.jump tag jump).ReadsBack spell := by
  intro depth rest p fuel _ _ hp hfuel
  have hp : p.kinds = .keyword jump.keyword :: .endOfLine :: layoutKinds depth rest := by
    simpa [lines, layoutKinds_cons, Piece.kinds] using hp
  obtain ⟨fuel, rfl⟩ := hfuel.exists_succ
  rw [statement]
  refine succeeds_place fun start => succeeds_kind hp ?_
  cases jump with
  | breakLoop =>
    refine succeeds_advance hp (by simp) fun q₁ h₁ _ => ?_
    exact succeeds_finishStmt fun tag q₂ h₂ _ => ⟨rfl, .inl (h₂.trans h₁)⟩
  | continueLoop =>
    refine succeeds_advance hp (by simp) fun q₁ h₁ _ => ?_
    exact succeeds_finishStmt fun tag q₂ h₂ _ => ⟨rfl, .inl (h₂.trans h₁)⟩

end Stmt

end Offside
