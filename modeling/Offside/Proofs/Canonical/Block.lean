import Offside.Proofs.Canonical.Writer

/-!
# Blocks of lines

The lines of a construct form a block: the first one is the shallowest, and every deeper line
follows one from which it is a single step down. So the lexer sees their layout as it is meant.

## Main definitions

* `Offside.Line.Block`: lines of which the first is the shallowest.

## Main results

* `Offside.Stmt.block_lines`, `Offside.Construct.block_lines`: statements and constructs make
  blocks.
-/

namespace Offside

namespace Line

theorem Stepwise.append {before depth : ℕ} {xs ys : List Line} (hx : Stepwise before xs)
    (hdepth : depth ≤ before) (deep : ∀ line ∈ xs, depth ≤ line.depth) (hy : Stepwise depth ys) :
    Stepwise before (xs ++ ys) := by
  induction xs generalizing before with
  | nil =>
    cases ys with
    | nil => trivial
    | cons line ys =>
      have := hy.1
      exact ⟨by omega, hy.2⟩
  | cons line xs ih =>
    obtain ⟨hline, deep⟩ := List.forall_mem_cons.1 deep
    exact ⟨hx.1, ih hx.2 hline deep⟩

/-- Lines of which the first is the shallowest, at `depth`, and each is at most one level deeper
than the line before it. -/
structure Block (depth : ℕ) (lines : List Line) : Prop where
  sound : ∀ line ∈ lines, line.Sound
  first : ∃ line rest, lines = line :: rest ∧ line.depth = depth
  deep : ∀ line ∈ lines, depth ≤ line.depth
  stepwise : Stepwise depth lines

namespace Block

variable {depth : ℕ} {xs ys : List Line} {pieces : List Piece}

theorem append (hx : Block depth xs) (hy : Block depth ys) : Block depth (xs ++ ys) where
  sound line hline := (List.mem_append.1 hline).elim (hx.sound line) (hy.sound line)
  first := by
    obtain ⟨line, rest, hxs, hdepth⟩ := hx.first
    exact ⟨line, rest ++ ys, by rw [hxs, List.cons_append], hdepth⟩
  deep line hline := (List.mem_append.1 hline).elim (hx.deep line) (hy.deep line)
  stepwise := hx.stepwise.append le_rfl hx.deep hy.stepwise

theorem singleton (h : Sound ⟨depth, pieces⟩) : Block depth [⟨depth, pieces⟩] where
  sound := by simpa using h
  first := ⟨_, [], rfl, rfl⟩
  deep := by simp
  stepwise := ⟨Nat.le_succ depth, trivial⟩

/-- A line with a block under it. -/
theorem nest (h : Sound ⟨depth, pieces⟩) (hx : Block (depth + 1) xs) :
    Block depth (⟨depth, pieces⟩ :: xs) where
  sound := List.forall_mem_cons.2 ⟨h, hx.sound⟩
  first := ⟨_, xs, rfl, rfl⟩
  deep := by
    refine List.forall_mem_cons.2 ⟨Nat.le_refl depth, fun line hline => ?_⟩
    exact (Nat.le_succ depth).trans (hx.deep line hline)
  stepwise := by
    refine ⟨Nat.le_succ depth, ?_⟩
    obtain ⟨line, rest, rfl, hline⟩ := hx.first
    exact ⟨hline.le, hx.stepwise.2⟩

end Block

end Line

/-! ### Single lines -/

open Piece (Joined)

theorem TypeExpr.joined_pieces {type : TypeExpr} (h : type.Writable) : Joined type.pieces := by
  induction type with
  | builtin b =>
    refine ⟨?_, by simp [pieces]⟩
    cases b <;> simp [pieces, Piece.Sound] <;> decide
  | named name => exact ⟨by simpa [pieces, Piece.Sound] using h.1, by simp [pieces]⟩
  | pointer element ih =>
    have hopen : Joined [.name "ptr", .sign .openBracket] :=
      ⟨by simp [Piece.Sound]; decide, by simp [Piece.isSeparator]⟩
    have hclose : Joined [.sign .closeBracket] := ⟨by simp [Piece.Sound], by simp⟩
    refine (hopen.append (ih h) (.inl ?_)).append hclose (.inr ?_)
    · simp [Piece.isSeparator]
    · simp [Piece.isSeparator]

theorem Piece.joined_commas {parts : List (List Piece)} (h : ∀ part ∈ parts, Joined part) :
    Joined (commas parts) := by
  have hcomma : Joined [.sign .comma, .gap] :=
    ⟨by simp [Piece.Sound], by simp [Piece.isSeparator]⟩
  fun_induction commas parts with
  | case1 => exact ⟨by simp, .nil⟩
  | case2 part => exact h part List.mem_cons_self
  | case3 part next parts ih =>
    obtain ⟨hpart, h⟩ := List.forall_mem_cons.1 h
    refine (hpart.append hcomma (.inr ?_)).append (ih h) (.inl ?_)
    · simp [Piece.isSeparator]
    · simp [Piece.isSeparator]

theorem Binding.joined_pieces {b : Binding} (hname : IsName b.name) (htype : b.type.Writable) :
    Joined b.pieces := by
  have hlead : Joined [.name b.name, .sign .colon, .gap] :=
    ⟨by simp [Piece.Sound, hname], by simp [Piece.isSeparator]⟩
  exact hlead.append (TypeExpr.joined_pieces htype) (.inl (by simp [Piece.isSeparator]))

theorem Prototype.joined_pieces {proto : Prototype} (h : proto.Writable) : Joined proto.pieces := by
  have hlead : Joined [.name proto.name, .sign .openParen] :=
    ⟨by simp [Piece.Sound, h.name], by simp [Piece.isSeparator]⟩
  have hparams : Joined (Piece.commas (proto.params.map Binding.pieces)) := by
    refine Piece.joined_commas fun part hpart => ?_
    obtain ⟨b, hb, rfl⟩ := List.mem_map.1 hpart
    exact Binding.joined_pieces (h.params.2 b hb).1 (h.params.2 b hb).2
  have harrow : Joined [.sign .closeParen, .gap, .sign .arrow, .gap] :=
    ⟨by simp [Piece.Sound], by simp [Piece.isSeparator]⟩
  have hresult := harrow.append (TypeExpr.joined_pieces h.result) (.inl ?_)
  · rw [pieces, List.append_assoc, List.append_assoc]
    refine hlead.append (hparams.append hresult (.inr ?_)) (.inl ?_)
    · simp [Piece.isSeparator]
    · simp [Piece.isSeparator]
  · simp [Piece.isSeparator]

section

variable {spell : Expr → String}

theorem Piece.joined_text {e : Expr} (h : e.Spelled spell) : Joined [.text (spell e)] :=
  ⟨by simpa [Piece.Sound] using ⟨e, h⟩, by simp⟩

theorem Piece.joined_list {es : List Expr} (h : ∀ e ∈ es, e.Spelled spell) :
    Joined (Piece.list spell es) := by
  refine joined_commas fun part hpart => ?_
  obtain ⟨e, he, rfl⟩ := List.mem_map.1 hpart
  exact joined_text (h e he)

/-- An optional part may follow whatever its lead may follow. -/
theorem Piece.Joined.optional {xs lead : List Piece} {a : Piece} {value : Option Expr}
    (hx : Joined xs) (hlead : Joined (a :: lead)) (ha : a.isSeparator)
    (hlast : ∀ b ∈ (a :: lead).getLast?, b.isSeparator) (h : ∀ e ∈ value, e.Spelled spell) :
    Joined (xs ++ Piece.optional spell (a :: lead) value) := by
  cases value with
  | none => rwa [Piece.optional, List.append_nil]
  | some e =>
    have htext := hlead.append (joined_text (h e rfl)) (.inl hlast)
    refine hx.append htext (.inr fun b hb => ?_)
    obtain rfl : a = b := by simpa [Piece.optional] using hb
    exact ha

/-- A line that starts with a reserved word. -/
theorem Line.sound_keyword {depth : ℕ} {word : Keyword} {pieces : List Piece}
    (h : Joined (.keyword word :: pieces)) : Line.Sound ⟨depth, .keyword word :: pieces⟩ :=
  ⟨⟨_, _, rfl, rfl⟩, h⟩

/-- A word, an expression and a colon. -/
theorem Line.sound_header {depth : ℕ} {word : Keyword} {e : Expr} (h : e.Spelled spell) :
    Line.Sound ⟨depth, [.keyword word, .gap, .text (spell e), .sign .colon]⟩ :=
  sound_keyword ⟨by simpa [Piece.Sound] using ⟨e, h⟩, by simp [Piece.isSeparator]⟩

/-! ### Statements -/

mutual

theorem Stmt.block_lines : (s : Stmt) → ∀ {depth : ℕ}, s.Writable spell →
    Line.Block depth (s.lines spell depth)
  | .expr _ e, depth, h => .singleton ⟨⟨_, _, rfl, rfl⟩, Piece.joined_text h⟩
  | .declare _ name type init, depth, h => by
    obtain ⟨hname, htype, hinit⟩ := h
    have hlead : Joined [.name name, .sign .colon, .gap] :=
      ⟨by simp [Piece.Sound, hname], by simp [Piece.isSeparator]⟩
    have hassign : Joined [.gap, .sign .assign, .gap] :=
      ⟨by simp [Piece.Sound], by simp [Piece.isSeparator]⟩
    have hdeclared :=
      hlead.append (TypeExpr.joined_pieces htype) (.inl (by simp [Piece.isSeparator]))
    exact .singleton ⟨⟨_, _, rfl, rfl⟩,
      hdeclared.optional hassign rfl (by simp [Piece.isSeparator]) hinit⟩
  | .assign _ target value, depth, h => by
    obtain ⟨htarget, -, -, hvalue⟩ := h
    refine .singleton ⟨⟨_, _, rfl, rfl⟩, ?_, by simp [Piece.isSeparator]⟩
    simpa [Piece.Sound] using ⟨⟨target, htarget⟩, value, hvalue⟩
  | .ret _ value, depth, h => by
    have hword : Joined [.keyword .returnWord] := ⟨by simp [Piece.Sound], by simp⟩
    have hgap : Joined [.gap] := ⟨by simp [Piece.Sound], by simp⟩
    exact .singleton (Line.sound_keyword (hword.optional hgap rfl (by simp [Piece.isSeparator]) h))
  | .print _ args, depth, h => by
    have hlead : Joined [.keyword .printWord, .sign .openParen] :=
      ⟨by simp [Piece.Sound], by simp [Piece.isSeparator]⟩
    have hclose : Joined [.sign .closeParen] := ⟨by simp [Piece.Sound], by simp⟩
    have hargs := hlead.append (Piece.joined_list h) (.inl (by simp [Piece.isSeparator]))
    exact .singleton (Line.sound_keyword (hargs.append hclose (.inr (by simp [Piece.isSeparator]))))
  | .branch _ condition thenSuite elseSuite, depth, h => by
    obtain ⟨hcondition, hthen, helse⟩ := h
    rw [Stmt.lines, ← List.cons_append]
    exact Suite.block_linesElse elseSuite helse
      (.nest (Line.sound_header hcondition) (Suite.block_lines thenSuite hthen))
  | .forRange _ counter start stop step body, depth, h => by
    obtain ⟨hcounter, hstart, hstop, hstep, hbody⟩ := h
    have hlead : Joined [.keyword .forWord, .gap, .name counter, .gap, .keyword .inWord, .gap,
        .keyword .rangeWord, .sign .openParen, .text (spell start), .sign .comma, .gap,
        .text (spell stop)] := by
      refine ⟨?_, by simp [Piece.isSeparator]⟩
      simpa [Piece.Sound, hcounter] using ⟨⟨start, hstart⟩, stop, hstop⟩
    have hcomma : Joined [.sign .comma, .gap] :=
      ⟨by simp [Piece.Sound], by simp [Piece.isSeparator]⟩
    have hclose : Joined [.sign .closeParen, .sign .colon] :=
      ⟨by simp [Piece.Sound], by simp [Piece.isSeparator]⟩
    have hrange := hlead.optional hcomma rfl (by simp [Piece.isSeparator]) hstep
    exact .nest (Line.sound_keyword (hrange.append hclose (.inr (by simp [Piece.isSeparator]))))
      (Suite.block_lines body hbody)
  | .whileLoop _ condition body, depth, h =>
    .nest (Line.sound_header h.1) (Suite.block_lines body h.2)
  | .doWhile _ body condition, depth, h => by
    obtain ⟨hbody, hcondition⟩ := h
    rw [Stmt.lines, ← List.cons_append]
    refine (Line.Block.nest (Line.sound_keyword ?_) (Suite.block_lines body hbody)).append
      (.singleton (Line.sound_keyword ?_))
    · exact ⟨by simp [Piece.Sound], by simp [Piece.isSeparator]⟩
    · exact ⟨by simpa [Piece.Sound] using ⟨condition, hcondition⟩, by simp [Piece.isSeparator]⟩
  | .jump _ jump, _, _ => .singleton (Line.sound_keyword ⟨by simp [Piece.Sound], by simp⟩)
  | .select _ scrutinee arms, depth, h => by
    obtain ⟨hscrutinee, hne, -, harms⟩ := h
    exact .nest (Line.sound_header hscrutinee) (Arm.block_linesAll arms hne harms)

theorem Suite.block_lines : (suite : Suite) → ∀ {depth : ℕ}, suite.Writable spell →
    Line.Block depth (suite.lines spell depth)
  | .mk _ stmts, _, h => Stmt.block_linesAll stmts h.1 h.2

theorem Suite.block_linesElse : (suite : Option Suite) → ∀ {depth : ℕ} {before : List Line},
    Suite.WritableElse spell suite → Line.Block depth before →
      Line.Block depth (before ++ Suite.linesElse spell depth suite)
  | none, depth, before, _, hbefore => by rwa [Suite.linesElse, List.append_nil]
  | some suite, depth, before, h, hbefore => by
    refine hbefore.append (.nest (Line.sound_keyword ?_) (Suite.block_lines suite h))
    exact ⟨by simp [Piece.Sound], by simp [Piece.isSeparator]⟩

theorem Stmt.block_linesAll : (ss : List Stmt) → ∀ {depth : ℕ}, ss ≠ [] →
    Stmt.WritableAll spell ss → Line.Block depth (Stmt.linesAll spell depth ss)
  | [s], depth, _, h => by
    rw [Stmt.linesAll, Stmt.linesAll, List.append_nil]
    exact Stmt.block_lines s h.1
  | s :: t :: ss, depth, _, h =>
    (Stmt.block_lines s h.1).append (Stmt.block_linesAll (t :: ss) (List.cons_ne_nil t ss) h.2)

theorem Arm.block_linesAll : (arms : List Arm) → ∀ {depth : ℕ}, arms ≠ [] →
    Arm.WritableAll spell arms → Line.Block depth (Arm.linesAll spell depth arms)
  | .mk _ pattern body :: arms, depth, _, h => by
    obtain ⟨hpattern, hbody, harms⟩ := h
    have hcase : Line.Sound
        ⟨depth, [.keyword .caseWord, .gap] ++ pattern.pieces spell ++ [.sign .colon]⟩ := by
      refine Line.sound_keyword ?_
      cases pattern with
      | value e =>
        exact ⟨by simpa [Piece.Sound, Pattern.pieces] using ⟨e, hpattern.1⟩,
          by simp [Piece.isSeparator, Pattern.pieces]⟩
      | wildcard =>
        exact ⟨by simp [Piece.Sound, Pattern.pieces]; decide,
          by simp [Piece.isSeparator, Pattern.pieces]⟩
    have hlines : Line.Block (depth + 1) (body.lines spell (depth + 1)) :=
      Suite.block_lines body hbody
    have hnest := Line.Block.nest hcase hlines
    cases arms with
    | nil => rwa [Arm.linesAll, Arm.linesAll, List.append_nil]
    | cons arm arms =>
      rw [Arm.linesAll, ← List.cons_append]
      exact hnest.append (Arm.block_linesAll (arm :: arms) (List.cons_ne_nil arm arms) harms)

end

/-! ### Constructs -/

/-- The fields of a struct. -/
theorem Binding.block_lines {depth : ℕ} {fields : List Binding} (hne : fields ≠ [])
    (h : ∀ field ∈ fields, IsName field.name ∧ field.type.Writable) :
    Line.Block depth (fields.map fun field => ⟨depth, field.pieces⟩) := by
  induction fields with
  | nil => exact absurd rfl hne
  | cons field fields ih =>
    obtain ⟨⟨hname, htype⟩, hfields⟩ := List.forall_mem_cons.1 h
    have hfirst : Line.Block depth [⟨depth, field.pieces⟩] :=
      .singleton ⟨⟨_, _, rfl, rfl⟩, Binding.joined_pieces hname htype⟩
    by_cases hnil : fields = []
    · rwa [hnil]
    · exact hfirst.append (ih hnil hfields)

/-- The lines of a construct are a block that no other block contains. -/
theorem Construct.block_lines {c : Construct} {env : TypeEnv} (h : c.Writable spell env) :
    Line.Block 0 (c.lines spell) := by
  cases c with
  | function proto body =>
    have hword : Joined [.keyword .defWord, .gap] :=
      ⟨by simp [Piece.Sound], by simp [Piece.isSeparator]⟩
    have hcolon : Joined [.sign .colon] := ⟨by simp [Piece.Sound], by simp⟩
    have hproto := hword.append (Prototype.joined_pieces h.1) (.inl (by simp [Piece.isSeparator]))
    refine .nest (Line.sound_keyword (hproto.append hcolon (.inr ?_))) (Suite.block_lines body h.2)
    simp [Piece.isSeparator]
  | external proto =>
    have hword : Joined [.keyword .externWord, .gap, .keyword .defWord, .gap] :=
      ⟨by simp [Piece.Sound], by simp [Piece.isSeparator]⟩
    refine .singleton (Line.sound_keyword (hword.append (Prototype.joined_pieces h) (.inl ?_)))
    simp [Piece.isSeparator]
  | typeAlias name target =>
    have hlead : Joined [.keyword .typeWord, .gap, .name name, .gap, .sign .assign, .gap] :=
      ⟨by simp [Piece.Sound, h.1], by simp [Piece.isSeparator]⟩
    refine .singleton (Line.sound_keyword (hlead.append (TypeExpr.joined_pieces h.2.1) (.inl ?_)))
    simp [Piece.isSeparator]
  | struct decl =>
    obtain ⟨hname, hne, hfields, -⟩ := h
    refine .nest (Line.sound_keyword ⟨?_, ?_⟩) (Binding.block_lines hne hfields.2)
    · simp [Piece.Sound, hname]
    · simp [Piece.isSeparator]
  | statement stmt => exact Stmt.block_lines stmt h

end

end Offside
