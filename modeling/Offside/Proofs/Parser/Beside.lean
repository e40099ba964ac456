import Offside.Proofs.Parser.Tracks
import Offside.Proofs.Token.Abreast
import Offside.Proofs.Types.Relocated

/-!
# Parsers of texts with a common part

Two texts have some tokens in common and go on with different ones. As long as a parser of the first
text stays among the common tokens, a parser of the second one does the same: it reads the same
constructs, only at other places, or fails for the same reason.

Two runs are no longer comparable when the first one has read on beyond the common tokens, or when
one of them has met the bound on the depth of its recursion. The bounds need not be the same.

## Main definitions

* `Offside.Parser.Passage`: the common part of two texts.
* `Offside.Parser.Beside`: parsers that stand on corresponding tokens and have read the same.
* `Offside.Parser.Passage.comparison`: reading keeps the parsers side by side.

## Main results

* `Offside.Parser.Beside.advance`: reading one token.
* `Offside.Parser.Beside.parseItem`: an item that is read, or reported, is so in both texts.
-/

namespace Offside

namespace Parser

/-! ### Corresponding parsers -/

/-- The common part of two texts: how places correspond, the tokens that follow in either text, and
what had been declared and shown before it. -/
structure Passage where
  place : Location → Location
  tail : List Lexeme
  tail' : List Lexeme
  declared : List (String × StructDecl)
  shown : List Diagnostic
  shown' : List Diagnostic
  /-- Where the first text ends, so does the second one. -/
  ends : tail = [] → tail' = []

/-- What comes before the tokens `tail` of two texts. -/
def Passage.before (f : Location → Location) (tail : List Lexeme) : Passage :=
  ⟨f, tail, tail, [], [], [], id⟩

/-- Two texts that have all of their tokens in common. -/
def Passage.whole (f : Location → Location) : Passage := .before f []

/-- The same has been shown in both since the common part began. -/
def Passage.ShowsAlike (w : Passage) (journal journal' : Journal) : Prop :=
  ∃ new, journal.diagnostics = w.shown ++ new ∧
    journal'.diagnostics = w.shown' ++ new.map (Diagnostic.relocate w.place)

/-- Parsers of two texts that stand on corresponding tokens of the common part and have read the
same in it. -/
structure Beside (w : Passage) (p p' : Parser) : Prop where
  kind : p'.current.kind = p.current.kind
  location (inside : p.current.kind ≠ .endOfLine) :
    p'.current.location = w.place p.current.location
  anchor : anchor p'.current.location p'.current.kind p'.stream =
    w.place (anchor p.current.location p.current.kind p.stream)
  rest : ∃ common common', List.Forall₂ (Lexeme.Beside w.place) common common' ∧
    p.rest = common ++ w.tail ∧ p'.rest = common' ++ w.tail'
  afterDedent : p'.afterDedent = p.afterDedent
  mark : p'.arena.mark = p.arena.mark
  types : TypeEnv.Relocated w.place w.declared p.types p'.types
  diagnostics : w.ShowsAlike p.journal p'.journal

/-- The parser of the first text has read on beyond the common part. -/
def Passage.Beyond (w : Passage) (p : Parser) : Prop := p.rest.length < w.tail.length

theorem Passage.not_beyond_whole {f : Location → Location} (p : Parser) :
    ¬ (Passage.whole f).Beyond p := Nat.not_lt_zero _

theorem Passage.Beyond.mono {w : Passage} {p q : Parser} (h : w.Beyond p) (hq : p.ReadsOn q) :
    w.Beyond q := Nat.lt_of_le_of_lt hq.length_le h

end Parser

/-- A refused token is reported at the place that corresponds. -/
theorem Lexeme.Beside.diagnostic? {f : Location → Location} {x x' : Lexeme} (h : x.Beside f x') :
    x'.token.diagnostic? = x.token.diagnostic?.map (Diagnostic.relocate f) := by
  rw [Token.diagnostic?, Token.diagnostic?, h.kind]
  split
  · next hk =>
    rw [h.location (by rw [hk]; exact Kind.noConfusion)]
    rfl
  · rfl

namespace Parser

variable {w : Passage} {p p' : Parser}

/-- The journals of both after what is shown next. -/
theorem Passage.ShowsAlike.append {journal journal' next next' : Journal}
    (h : w.ShowsAlike journal journal') (ds : List Diagnostic) {ds' : List Diagnostic}
    (hds : ds' = ds.map (Diagnostic.relocate w.place))
    (hj : next.diagnostics = journal.diagnostics ++ ds)
    (hj' : next'.diagnostics = journal'.diagnostics ++ ds') : w.ShowsAlike next next' := by
  obtain ⟨new, hnew, hnew'⟩ := h
  refine ⟨new ++ ds, by rw [hj, hnew, List.append_assoc], ?_⟩
  rw [hj', hnew', hds, List.map_append, List.append_assoc]

/-- Reading the same token in both, wherever they stood before. -/
theorem beside_advance {x x' : Lexeme} {xs xs' common common' : List Lexeme}
    (hrest : p.rest = x :: xs) (hrest' : p'.rest = x' :: xs') (hx : x.Beside w.place x')
    (hcommon : List.Forall₂ (Lexeme.Beside w.place) common common') (hxs : xs = common ++ w.tail)
    (hxs' : xs' = common' ++ w.tail') (kind : p'.current.kind = p.current.kind)
    (mark : p'.arena.mark = p.arena.mark)
    (types : TypeEnv.Relocated w.place w.declared p.types p'.types)
    (shown : w.ShowsAlike p.journal p'.journal) : Beside w p.advance p'.advance := by
  rw [Parser.advance, Parser.advance, hrest, hrest']
  refine ⟨hx.kind, hx.location, hx.anchor, ⟨common, common', hcommon, hxs, hxs'⟩,
    by rw [kind], mark, types, ?_⟩
  refine shown.append x.token.diagnostic?.toList ?_ (Journal.diagnostics_lexeme _ _)
    (Journal.diagnostics_lexeme _ _)
  rw [hx.diagnostic?]
  cases x.token.diagnostic? <;> rfl

namespace Beside

/-- Reading a token of the common part, or the first one beyond it. -/
theorem advance (h : Beside w p p') : Beside w p.advance p'.advance ∨ w.Beyond p.advance := by
  obtain ⟨common, common', hcommon, hrest, hrest'⟩ := h.rest
  have hdedent : decide (p'.current.kind = .dedent) = decide (p.current.kind = .dedent) := by
    rw [h.kind]
  cases hcommon with
  | @cons x x' common common' hx hcommon =>
    exact .inl (beside_advance hrest hrest' hx hcommon rfl rfl h.kind h.mark h.types h.diagnostics)
  | nil =>
    rw [List.nil_append] at hrest hrest'
    cases htail : w.tail with
    | nil =>
      have hadvance : p.advance = { p with afterDedent := decide (p.current.kind = .dedent) } := by
        rw [Parser.advance, hrest, htail]
      have hadvance' :
          p'.advance = { p' with afterDedent := decide (p'.current.kind = .dedent) } := by
        rw [Parser.advance, hrest', w.ends htail]
      refine .inl ?_
      rw [hadvance, hadvance']
      exact ⟨h.kind, h.location, h.anchor, h.rest, hdedent, h.mark, h.types, h.diagnostics⟩
    | cons x xs =>
      refine .inr ?_
      rw [Passage.Beyond, length_rest_advance, hrest, htail]
      exact Nat.lt_succ_self _

theorem note (h : Beside w p p') (n n' : Note) : Beside w (p.note n) (p'.note n') :=
  ⟨h.kind, h.location, h.anchor, h.rest, h.afterDedent, h.mark, h.types,
    h.diagnostics.append [] rfl (by simp [Parser.note]) (by simp [Parser.note])⟩

/-- Showing the same at places that correspond. -/
theorem emit (h : Beside w p p') (d : Diagnostic) :
    Beside w (p.emit d) (p'.emit (d.relocate w.place)) :=
  ⟨h.kind, h.location, h.anchor, h.rest, h.afterDedent, h.mark, h.types,
    h.diagnostics.append [d] rfl (Journal.diagnostics_emit _ _ _)
      (Journal.diagnostics_emit _ _ _)⟩

/-- Other types and another journal. -/
theorem withTypes (h : Beside w p p') {types types' : TypeEnv} {journal journal' : Journal}
    (htypes : TypeEnv.Relocated w.place w.declared types types')
    (hj : journal.diagnostics = p.journal.diagnostics)
    (hj' : journal'.diagnostics = p'.journal.diagnostics) :
    Beside w { p with types, journal } { p' with types := types', journal := journal' } :=
  ⟨h.kind, h.location, h.anchor, h.rest, h.afterDedent, h.mark, htypes,
    h.diagnostics.append [] rfl (by rw [hj, List.append_nil])
      (by rw [hj', List.map_nil, List.append_nil])⟩

/-- The same nodes are dropped. -/
theorem rollback (h : Beside w p p') {mark : Arena.Mark} :
    Beside w (p.rollback mark) (p'.rollback mark) := by
  refine ⟨h.kind, h.location, h.anchor, h.rest, h.afterDedent, ?_, h.types, h.diagnostics⟩
  have hmark := h.mark
  simp only [Arena.mark, Arena.Mark.mk.injEq] at hmark
  simp [Parser.rollback, Arena.rollback, Arena.mark, hmark]

/-- Other nodes. -/
theorem withArena (h : Beside w p p') {arena arena' : Arena} (hmark : arena'.mark = arena.mark) :
    Beside w { p with arena } { p' with arena := arena' } :=
  ⟨h.kind, h.location, h.anchor, h.rest, h.afterDedent, hmark, h.types, h.diagnostics⟩

theorem mark_addExpr (h : Beside w p p') {place place' : Location} (build build' : Tag → Expr) :
    (p'.arena.addExpr place' build').2.mark = (p.arena.addExpr place build).2.mark := by
  have hmark := h.mark
  simp only [Arena.mark, Arena.Mark.mk.injEq] at hmark
  simp [Arena.mark, Arena.addExpr, hmark]

theorem mark_addStmt (h : Beside w p p') {place place' : Location} (build build' : Tag → Stmt) :
    (p'.arena.addStmt place' build').2.mark = (p.arena.addStmt place build).2.mark := by
  have hmark := h.mark
  simp only [Arena.mark, Arena.Mark.mk.injEq] at hmark
  simp [Arena.mark, Arena.addStmt, hmark]

/-! ### Reading tokens of no interest -/

/-- Where the first parser has no token left, the second one has none. -/
theorem rest_eq_nil (h : Beside w p p') (hp : p.rest = []) : p'.rest = [] := by
  obtain ⟨common, common', hcommon, hrest, hrest'⟩ := h.rest
  rw [hp, eq_comm, List.append_eq_nil_iff] at hrest
  obtain ⟨rfl, htail⟩ := hrest
  cases hcommon
  rw [hrest', w.ends htail, List.nil_append]

/-- If a token is left for the first parser, one is left for the second one, or both have reached
the end of the common part. -/
theorem advance_of_rest (h : Beside w p p') (hp : p.rest ≠ []) :
    p'.rest ≠ [] ∧ Beside w p.advance p'.advance ∨ w.Beyond p.advance := by
  obtain ⟨common, common', hcommon, hrest, hrest'⟩ := h.rest
  cases hcommon with
  | cons => exact h.advance.imp_left fun hnext => ⟨by simp [hrest'], hnext⟩
  | nil =>
    refine .inr ?_
    rw [List.nil_append] at hrest
    have := List.length_pos_iff.2 hp
    rw [Passage.Beyond, length_rest_advance, ← hrest]
    omega

/-- Reporting the same at places that correspond. -/
theorem report (h : Beside w p p') (failure : Failure) :
    Beside w (p.report failure) (p'.report (failure.relocate w.place)) := by
  cases failure with
  | diagnostic d => exact h.emit d
  | shown | tooDeep => exact h

end Beside

end Parser

namespace Parser

variable {w : Passage} {p p' : Parser}

/-! ### Reading in the common part -/

/-- Reading keeps parsers of two texts side by side until the first one has read on beyond the common
part. -/
def Passage.comparison (w : Passage) : Comparison where
  place := w.place
  limit := w.tail.length
  Like := Beside w
  kind h := h.kind
  location h := h.location
  anchor h := h.anchor
  afterDedent h := h.afterDedent
  mark h := h.mark
  hasStruct h := h.types.hasStruct
  alias? h := h.types.alias?
  ends h := h.rest_eq_nil
  goesOn h hp := (h.advance_of_rest hp).imp_left And.left
  advance h _ := h.advance
  note h n := h.note n n
  addExpr h _ _ _ _ := h.withArena (h.mark_addExpr _ _)
  addStmt h _ _ _ _ := h.withArena (h.mark_addStmt _ _)
  declareAlias h name target := h.withTypes (h.types.declareAlias name target) rfl rfl
  declareStruct h decl := h.withTypes (h.types.declareStruct decl) rfl rfl

/-- An item is read in both texts, or it is reported in both for the same reason. -/
theorem Beside.parseItem (h : Beside w p p') (hp : p.Bounded) (hp' : p'.Bounded) :
    p'.parseItem.1 = p.parseItem.1.map (Item.relocate w.place) ∧
        Beside w p.parseItem.2 p'.parseItem.2 ∨
      w.Beyond p.parseItem.2 :=
  w.comparison.parseItem h hp hp' (fun _ _ hq => hq.advance) fun failure _ _ hq =>
    (Beside.report hq failure).rollback

end Parser

end Offside
