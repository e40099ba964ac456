import Offside.Proofs.Canonical.Statement
import Offside.Proofs.Parser.Quiet

/-!
# Reading the items of a canonical text

Every construct is read back as an item, and what it declares enters the type tables. The places
of structs are those of the text, so the tables are compared with these erased.

## Main results

* `Offside.Construct.succeeds_itemShape`: constructs are read back.
* `Offside.Construct.parseItem_eq`: so are whole items, and nothing is shown.
-/

namespace Offside

open Parse Line

variable {spell : Expr → String} {env : TypeEnv} {rest : List Line} {p : Parser} {fuel : ℕ}

/-! ### What comes first -/

/-- Kinds of token with which an item starts. -/
def Kind.startsItem (k : Kind) : Bool :=
  k.startsStmt || k ∈ [.keyword .defWord, .keyword .externWord, .keyword .typeWord,
    .keyword .structWord]

theorem Construct.exists_first {c : Construct} (h : c.Writable spell env) (rest : List Line) :
    ∃ k K, layoutKinds 0 (c.lines spell ++ rest) = k :: K ∧ k.startsItem := by
  cases c with
  | statement stmt =>
    obtain ⟨k, K, hk, hstarts⟩ := Stmt.exists_first h 0 rest
    exact ⟨k, K, hk, by rw [Kind.startsItem, hstarts, Bool.true_or]⟩
  | function | external | typeAlias | struct =>
    exact ⟨_, _, by rw [Construct.lines, List.cons_append, layoutKinds_cons]; rfl, rfl⟩

/-- What follows an item is no branch of it. -/
theorem Construct.noBranch_lines {cs : List Construct} (h : WritableAll spell env cs) :
    Shallow 0 (cs.flatMap (Construct.lines spell)) ∧
      NoBranch (layoutKinds 0 (cs.flatMap (Construct.lines spell))) := by
  cases cs with
  | nil => exact ⟨by rintro _ ⟨⟩, by simp [NoBranch, layoutKinds]⟩
  | cons c cs =>
    rw [List.flatMap_cons]
    obtain ⟨k, K, hk, hstarts⟩ := exists_first h.1 (cs.flatMap (Construct.lines spell))
    refine ⟨(block_lines h.1).shallow, ?_, ?_⟩
    · rw [hk]
      rintro ⟨⟩
      cases hstarts
    · rw [hk]
      rintro ⟨⟩
      cases hstarts

/-! ### Declarations -/

theorem succeeds_typeAlias {name : String} {target : TypeExpr} {K : List Kind}
    (htarget : target.Writable) (hstruct : p.types.hasStruct name = false)
    (hp : p.kinds = .identifier name :: .symbol .assign ::
      (target.pieces.flatMap Piece.kinds ++ .endOfLine :: K))
    (hfuel : p.Enough 0 fuel) :
    Succeeds p (typeAlias fuel) fun shape q =>
      shape = .typeAlias name target ∧ q.kinds = .endOfLine :: K := by
  refine succeeds_place fun place => succeeds_expectName_advance hp (succeeds_get ?_)
  have h₁ := Parser.kinds_advance hp (by simp)
  rw [Parser.types_advance, hstruct, if_neg Bool.false_ne_true]
  refine succeeds_expect h₁ (by simp) fun q₂ h₂ _ => ?_
  have henough : q₂.Enough 0 fuel := (hfuel.later (by grind)).weaken (Nat.zero_le _)
  refine succeeds_bind ((TypeExpr.succeeds_typeExpr htarget h₂ (by simp) henough).mono ?_)
  rintro _ q₃ ⟨rfl, h₃⟩
  exact succeeds_expectStatementEnd (.inl h₃) ⟨rfl, h₃⟩

/-- The fields of a struct are read back up to the end of their block. -/
theorem Binding.succeeds_fields {struct : String} {before fields : List Binding}
    (h : WritableAll (before ++ fields))
    (hp : p.kinds = layoutKinds 1 (fields.map (fun field => ⟨1, field.pieces⟩) ++ rest) ∨
      p.kinds = .endOfLine ::
        layoutKinds 1 (fields.map (fun field => ⟨1, field.pieces⟩) ++ rest))
    (hrest : Shallow 0 rest) (hfuel : p.Enough 0 fuel) :
    Succeeds p (Parse.fields struct fuel before) fun bs q =>
      bs = before ++ fields ∧ q.kinds = .dedent :: layoutKinds 0 rest := by
  induction fields generalizing p fuel before with
  | nil =>
    obtain ⟨fuel, rfl⟩ := hfuel.exists_succ
    rw [List.map_nil, List.nil_append, layoutKinds_shallow hrest] at hp
    rw [Parse.fields]
    refine succeeds_skipLineEnds hp (by simp) fun q hq _ => succeeds_get ?_
    rw [if_pos (by simp [Parser.atBlockEnd, Parser.current_of_kinds hq])]
    exact ⟨(List.append_nil before).symm, hq⟩
  | cons field fields ih =>
    obtain ⟨fuel, rfl⟩ := hfuel.exists_succ
    have hfield := h.2 field (by simp)
    rw [List.map_cons, List.cons_append, layoutKinds_cons, kinds_pieces, List.cons_append,
      List.cons_append] at hp
    rw [Parse.fields]
    refine succeeds_skipLineEnds hp (by simp) fun q₁ h₁ hle => succeeds_get ?_
    rw [if_neg (by simp [Parser.atBlockEnd, Parser.current_of_kinds h₁])]
    have hfuel := hfuel.mono hle
    refine succeeds_place fun place => succeeds_expectName h₁ (by simp) fun q₂ h₂ _ => ?_
    rw [any_eq_false h.1, if_neg Bool.false_ne_true]
    refine succeeds_expect h₂ (by simp) fun q₃ h₃ _ => ?_
    have hlt : q₃.kinds.length < q₁.kinds.length := by
      rw [h₁, h₃, List.length_cons, List.length_cons]
      omega
    have henough : q₃.Enough 0 fuel := (hfuel.after hlt).weaken (Nat.zero_le _)
    refine succeeds_bind ((TypeExpr.succeeds_typeExpr hfield.2 h₃ (by simp) henough).mono ?_)
    rintro _ q₄ ⟨rfl, h₄⟩
    refine succeeds_kind h₄ ?_
    have h : WritableAll ((before ++ [⟨field.name, field.type⟩]) ++ fields) := by simpa using h
    have hle : q₄.kinds.length ≤ q₃.kinds.length := by
      rw [h₃, h₄, List.length_append]
      exact Nat.le_add_left _ _
    refine (ih h (.inr h₄) (henough.mono hle)).mono ?_
    rintro bs q ⟨rfl, hq⟩
    exact ⟨by simp, hq⟩

theorem succeeds_struct {decl : StructDecl} {start : Location} (hne : decl.fields ≠ [])
    (hfields : Binding.WritableAll decl.fields) (hstruct : p.types.hasStruct decl.name = false)
    (halias : p.types.alias? decl.name = none)
    (hp : p.kinds = .identifier decl.name :: .symbol .colon :: .endOfLine ::
      layoutKinds 0 (decl.fields.map (fun field => ⟨1, field.pieces⟩) ++ rest))
    (hrest : Shallow 0 rest) (hfuel : p.Enough 0 fuel) :
    Succeeds p (Parse.struct fuel start) fun shape q =>
      shape = .struct decl.name ∧ q.types.erase = (p.types.declareStruct decl).erase ∧
        q.kinds = layoutKinds 0 rest ∧ q.afterDedent = true := by
  rw [layoutKinds_block (Binding.block_lines hne hfields.2)] at hp
  refine succeeds_place fun place => succeeds_expectName_advance hp (succeeds_get ?_)
  have h₁ := Parser.kinds_advance hp (by simp)
  dsimp only
  rw [Parser.types_advance, hstruct, if_neg Bool.false_ne_true, halias, Option.isSome_none,
    if_neg Bool.false_ne_true]
  refine succeeds_expect_advance h₁ ?_
  have h₂ := Parser.kinds_advance h₁ (by simp)
  refine succeeds_expect_advance h₂ ?_
  have h₃ := Parser.kinds_advance h₂ (by simp)
  refine succeeds_expect_advance h₃ ?_
  have h₄ := Parser.kinds_advance h₃ (by simp)
  have htypes : p.advance.advance.advance.advance.types = p.types := by
    simp only [Parser.types_advance]
  generalize p.advance.advance.advance.advance = q at *
  have henough : q.Enough 0 fuel := (hfuel.later (by grind)).weaken (Nat.zero_le _)
  have hall : Binding.WritableAll ([] ++ decl.fields) := hfields
  refine succeeds_bind (((Binding.succeeds_fields hall (.inl h₄) hrest henough).and
    (ensures_fields (R := Parser.SameTypes) decl.name fuel List.nodup_nil)).mono ?_)
  rintro _ r ⟨⟨rfl, h₅⟩, hsame⟩
  have hsome : decl.fields.isEmpty = false := by simpa using hne
  rw [List.nil_append, hsome, if_neg Bool.false_ne_true]
  refine succeeds_expect_advance h₅ ⟨rfl, ?_, Parser.kinds_advance h₅ layoutKinds_ne_nil, ?_⟩
  · show (r.advance.types.declareStruct ⟨decl.name, decl.fields, start⟩).erase = _
    rw [Parser.types_advance, hsame, htypes, TypeEnv.erase_declareStruct,
      TypeEnv.erase_declareStruct]
    rfl
  · show r.advance.afterDedent = true
    rw [Parser.afterDedent_advance, Parser.current_of_kinds h₅]
    rfl

/-! ### Items -/

/-- A function is read back as an item. -/
theorem succeeds_function {proto : Prototype} {body : Suite} {start : Location}
    (hproto : proto.Writable) (hbody : body.Writable spell)
    (hp : p.kinds = layoutKinds 0 ((Construct.function proto body).lines spell ++ rest))
    (hrest : Shallow 0 rest) (hfuel : p.Enough 2 fuel) :
    Succeeds p (itemShape fuel start) fun shape q =>
      shape.erase = .function proto.erase body.erase ∧ q.Ended (layoutKinds 0 rest) := by
  have hp : p.kinds = .keyword .defWord :: (proto.pieces.flatMap Piece.kinds ++ .symbol .colon ::
      .endOfLine :: layoutKinds 0 (body.lines spell (0 + 1) ++ rest)) := by
    simpa [Construct.lines, layoutKinds_cons, Piece.kinds] using hp
  refine succeeds_kind hp ?_
  refine succeeds_advance hp (by simp) fun q₁ h₁ _ => ?_
  have henough : q₁.Enough 0 fuel := (hfuel.later (by grind)).weaken (Nat.zero_le _)
  refine succeeds_bind ((Prototype.succeeds_prototype hproto h₁ (by simp) henough).mono ?_)
  rintro proto' q₂ ⟨hproto', h₂⟩
  refine succeeds_expect h₂ (by simp) fun q₃ h₃ _ => ?_
  have henough : q₃.Enough 4 fuel := (hfuel.later (by grind)).weaken (by omega)
  refine succeeds_bind (((body.readsBack hbody).succeeds h₃ hrest henough).mono ?_)
  rintro body' q₄ ⟨hbody', h₄, hafter, -⟩
  exact ⟨by rw [Item.Shape.erase, hproto', hbody'], .inr ⟨h₄, hafter⟩⟩

/-- A prototype by itself is read back as an item. -/
theorem succeeds_external {proto : Prototype} {start : Location} (hproto : proto.Writable)
    (hp : p.kinds = layoutKinds 0 ((Construct.external proto).lines spell ++ rest))
    (hfuel : p.Enough 2 fuel) :
    Succeeds p (itemShape fuel start) fun shape q =>
      shape.erase = .external proto.erase ∧ q.Ended (layoutKinds 0 rest) := by
  have hp : p.kinds = .keyword .externWord :: .keyword .defWord ::
      (proto.pieces.flatMap Piece.kinds ++ .endOfLine :: layoutKinds 0 rest) := by
    simpa [Construct.lines, layoutKinds_cons, Piece.kinds] using hp
  refine succeeds_kind hp ?_
  refine succeeds_advance hp (by simp) fun q₁ h₁ _ => ?_
  refine succeeds_expect h₁ (by simp) fun q₂ h₂ _ => ?_
  have henough : q₂.Enough 0 fuel := (hfuel.later (by grind)).weaken (Nat.zero_le _)
  refine succeeds_bind ((Prototype.succeeds_prototype hproto h₂ (by simp) henough).mono ?_)
  rintro proto' q₃ ⟨hproto', h₃⟩
  exact ⟨by rw [Item.Shape.erase, hproto'], .inl h₃⟩

/-- A statement is read back as an item. -/
theorem succeeds_statementItem {stmt : Stmt} {start : Location} (h : stmt.Writable spell)
    (hp : p.kinds = layoutKinds 0 (stmt.lines spell 0 ++ rest)) (hrest : Shallow 0 rest)
    (hbranch : NoBranch (layoutKinds 0 rest)) (hfuel : p.Enough 2 fuel) :
    Succeeds p (itemShape fuel start) fun shape q =>
      shape.erase = .statement stmt.erase ∧ q.Ended (layoutKinds 0 rest) := by
  obtain ⟨k, K, hk, hstarts⟩ := Stmt.exists_first h 0 rest
  have hread : Succeeds p (statement fuel >>= fun t => pure (Item.Shape.statement t))
      fun shape q => shape.erase = .statement stmt.erase ∧ q.Ended (layoutKinds 0 rest) := by
    refine succeeds_bind ((stmt.readsBack h 0 rest p fuel hrest hbranch hp hfuel).mono ?_)
    rintro t q ⟨ht, hq⟩
    exact ⟨by rw [Item.Shape.erase, ht], hq⟩
  -- No word with which a statement starts makes it another item.
  refine succeeds_kind (hp.trans hk) ?_
  split
  all_goals first
    | exact hread
    | cases hstarts

namespace Construct

/-- What is known to be read and is no struct is declared as it should be. -/
theorem succeeds_of_shape {c : Construct} {start : Location} {K : List Kind}
    (hc : ∀ decl, c ≠ .struct decl) (htypes : p.types.erase = env.erase)
    (hread : Succeeds p (itemShape fuel start) fun shape q =>
      shape.erase = c.shape.erase ∧ q.Ended K) :
    Succeeds p (itemShape fuel start) fun shape q =>
      shape.erase = c.shape.erase ∧ q.types.erase = (c.declare env).erase ∧ q.Ended K := by
  refine (hread.and_yields (yields_itemShape fuel start)).mono ?_
  rintro shape q ⟨⟨hshape, hq⟩, hitem⟩
  have hdeclares := hitem.declares
  refine ⟨hshape, ?_, hq⟩
  cases c with
  | struct decl => exact absurd rfl (hc decl)
  | typeAlias name target =>
    cases shape with
    | typeAlias name' target' =>
      cases hshape
      have hdeclares : q.types = p.types.declareAlias name target := hdeclares
      rw [hdeclares, declare, TypeEnv.erase_declareAlias, TypeEnv.erase_declareAlias, htypes]
    | function | external | struct | statement => cases hshape
  | function | external | statement =>
    cases shape with
    | function | external | statement => exact (congrArg TypeEnv.erase hdeclares).trans htypes
    | typeAlias | struct => cases hshape

/-- A construct is read back, and what it declares is declared. -/
theorem succeeds_itemShape {c : Construct} {start : Location} (h : c.Writable spell env)
    (hp : p.kinds = layoutKinds 0 (c.lines spell ++ rest)) (hrest : Shallow 0 rest)
    (hbranch : NoBranch (layoutKinds 0 rest)) (htypes : p.types.erase = env.erase)
    (hfuel : p.Enough 2 fuel) :
    Succeeds p (itemShape fuel start) fun shape q =>
      shape.erase = c.shape.erase ∧ q.types.erase = (c.declare env).erase ∧
        q.Ended (layoutKinds 0 rest) := by
  have hstruct (name : String) : p.advance.types.hasStruct name = env.hasStruct name := by
    rw [Parser.types_advance, ← TypeEnv.hasStruct_erase, htypes, TypeEnv.hasStruct_erase]
  have halias (name : String) : p.advance.types.alias? name = env.alias? name := by
    rw [Parser.types_advance, ← TypeEnv.alias?_erase, htypes, TypeEnv.alias?_erase]
  cases c with
  | function proto body =>
    exact succeeds_of_shape (by simp) htypes (succeeds_function h.1 h.2 hp hrest hfuel)
  | external proto => exact succeeds_of_shape (by simp) htypes (succeeds_external h hp hfuel)
  | typeAlias name target =>
    obtain ⟨-, htarget, hfree⟩ := h
    have hp : p.kinds = .keyword .typeWord :: .identifier name :: .symbol .assign ::
        (target.pieces.flatMap Piece.kinds ++ .endOfLine :: layoutKinds 0 rest) := by
      simpa [lines, layoutKinds_cons, Piece.kinds] using hp
    have henough : p.advance.Enough 0 fuel :=
      (hfuel.later (by grind [Parser.kinds_advance])).weaken (Nat.zero_le _)
    refine succeeds_of_shape (by simp) htypes (succeeds_kind hp ?_)
    refine (succeeds_typeAlias htarget ((hstruct name).trans hfree)
      (Parser.kinds_advance hp (by simp)) henough).mono ?_
    rintro _ q ⟨rfl, hq⟩
    exact ⟨rfl, .inl hq⟩
  | struct decl =>
    obtain ⟨-, hne, hfields, hfree, hother⟩ := h
    have hp : p.kinds = .keyword .structWord :: .identifier decl.name :: .symbol .colon ::
        .endOfLine :: layoutKinds 0 (decl.fields.map (fun field => ⟨1, field.pieces⟩) ++ rest) := by
      simpa [lines, layoutKinds_cons, Piece.kinds] using hp
    have henough : p.advance.Enough 0 fuel :=
      (hfuel.later (by grind [Parser.kinds_advance])).weaken (Nat.zero_le _)
    refine succeeds_kind hp ((succeeds_struct hne hfields ((hstruct decl.name).trans hfree)
      ((halias decl.name).trans hother) (Parser.kinds_advance hp (by simp)) hrest henough).mono ?_)
    rintro _ q ⟨rfl, hdeclared, hq⟩
    refine ⟨rfl, ?_, .inr hq⟩
    rw [hdeclared, Parser.types_advance, declare, TypeEnv.erase_declareStruct,
      TypeEnv.erase_declareStruct, htypes]
  | statement stmt =>
    exact succeeds_of_shape (by simp) htypes (succeeds_statementItem h hp hrest hbranch hfuel)

/-- A whole item is read back, and no diagnostic is shown. -/
theorem parseItem_eq {c : Construct} (h : c.Writable spell env)
    (hp : p.kinds = layoutKinds 0 (c.lines spell ++ rest)) (hrest : Shallow 0 rest)
    (hbranch : NoBranch (layoutKinds 0 rest)) (htypes : p.types.erase = env.erase) :
    ∃ item q, p.parseItem = (some item, q) ∧ item.shape.erase = c.shape.erase ∧
      q.types.erase = (c.declare env).erase ∧ q.Ended (layoutKinds 0 rest) ∧ p.Quiet q := by
  have hfuel : p.Enough 2 p.fuel := p.enough_fuel.weaken (by omega)
  have hitem : Succeeds p (item p.fuel) fun item q =>
      item.shape.erase = c.shape.erase ∧ q.types.erase = (c.declare env).erase ∧
        q.Ended (layoutKinds 0 rest) := by
    refine succeeds_place fun start => succeeds_bind ?_
    refine (succeeds_itemShape h hp hrest hbranch htypes hfuel).mono ?_
    rintro shape q ⟨hshape, hdeclared, hq⟩
    refine succeeds_get ?_
    rw [hq.atItemEnd]
    exact ⟨hshape, hdeclared, hq⟩
  obtain ⟨item, q, hrun, ⟨hshape, hdeclared, hq⟩, hquiet⟩ :=
    (hitem.and (ensures_item (R := Parser.Quiet) p.fuel)).exists
  refine ⟨item, q, ?_, hshape, hdeclared, hq, hquiet⟩
  rw [Parser.parseItem, hrun]

end Construct

end Offside
