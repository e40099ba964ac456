import Offside.Proofs.Journal.Shown
import Offside.Proofs.Parser.Beside

/-!
# Parsers of texts with the same tokens

Two texts may have the same tokens all the way, at places that correspond: the texts differ in their
line ends only, or one of them has more blank lines. Parsers of the two then read the same for as long
as there is anything to read. They have declared the same, and told a user the same, at places that
correspond.

## Main definitions

* `Offside.Told.relocate`: what a user is told, about another place.
* `Offside.Parser.Moved`: parsers that stand on corresponding tokens and have read the same.
* `Offside.Parser.movedComparison`: reading keeps them so.

## Main results

* `Offside.Parser.Moved.parseItem`: the same item is read in both, or reported for the same reason.
-/

namespace Offside

/-- What a user is told, about another place. -/
def Told.relocate (f : Location → Location) : Told → Told
  | prompt text => prompt text
  | diagnostic d => diagnostic (d.relocate f)

@[simp] theorem Told.relocate_id (told : Told) : told.relocate id = told := by
  cases told <;> rfl

namespace Parser

variable {f : Location → Location} {p p' : Parser}

/-- Parsers of two texts with the same tokens that have read the same. -/
structure Moved (f : Location → Location) (p p' : Parser) : Prop where
  beside : Beside (.whole f) p p'
  types : p'.types = p.types.relocate f
  told : p'.journal.told = p.journal.told.map (Told.relocate f)

/-- Parsers before the first token of texts with the same tokens. -/
theorem moved_ofLexer {l l' : Lexer} (tokens : List.Forall₂ (Lexeme.Beside f) l.lexemes l'.lexemes)
    (start : f ⟨0, 0⟩ = ⟨0, 0⟩) : Moved f (ofLexer l) (ofLexer l') where
  beside :=
    { kind := rfl
      location inside := absurd rfl inside
      anchor := start.symm
      rest := ⟨_, _, tokens, (List.append_nil _).symm, (List.append_nil _).symm⟩
      afterDedent := rfl
      mark := rfl
      types := TypeEnv.initial.relocated_relocate f
      diagnostics := ⟨[], rfl, rfl⟩ }
  types := rfl
  told := rfl

namespace Moved

/-- Where the first parser has no token left, the second one has none, and the other way round. -/
theorem rest_eq_nil_iff (h : Moved f p p') : p'.rest = [] ↔ p.rest = [] := by
  obtain ⟨xs, xs', hxs, hrest, hrest'⟩ := h.beside.rest
  rw [hrest, hrest']
  cases hxs <;> simp [Passage.whole, Passage.before]

theorem advance (h : Moved f p p') : Moved f p.advance p'.advance := by
  have hbeside := h.beside.advance.resolve_right (Passage.not_beyond_whole _)
  obtain ⟨xs, xs', hxs, hrest, hrest'⟩ := h.beside.rest
  refine ⟨hbeside, ?_, ?_⟩
  all_goals
    rw [Parser.advance, Parser.advance, hrest, hrest']
    cases hxs with
    | nil => first | exact h.types | exact h.told
    | @cons x x' xs xs' hx hxs => ?_
  · exact h.types
  · dsimp only [List.cons_append]
    rw [Journal.told_lexeme, Journal.told_lexeme, h.told, hx.diagnostic?, List.map_append]
    cases x.token.diagnostic? <;> rfl

theorem note (h : Moved f p p') (n n' : Note) : Moved f (p.note n) (p'.note n') :=
  ⟨h.beside.note n n', h.types, by simp [Parser.note, h.told]⟩

/-- Showing the same at places that correspond. -/
theorem emit (h : Moved f p p') (d : Diagnostic) : Moved f (p.emit d) (p'.emit (d.relocate f)) :=
  ⟨h.beside.emit d, h.types, by simp [Parser.emit, h.told, Told.relocate]⟩

theorem rollback (h : Moved f p p') (mark : Arena.Mark) :
    Moved f (p.rollback mark) (p'.rollback mark) :=
  ⟨h.beside.rollback, h.types, h.told⟩

/-- Other nodes. -/
theorem withArena (h : Moved f p p') {arena arena' : Arena} (hmark : arena'.mark = arena.mark) :
    Moved f { p with arena } { p' with arena := arena' } :=
  ⟨h.beside.withArena hmark, h.types, h.told⟩

/-- Other types, and further notes. -/
theorem withTypes (h : Moved f p p') (types : TypeEnv) (ns ns' : List Note) :
    Moved f { p with types, journal := p.journal.notes ns }
      { p' with types := types.relocate f, journal := p'.journal.notes ns' } where
  beside := by
    refine h.beside.withTypes ?_ (Journal.diagnostics_notes _ _) (Journal.diagnostics_notes _ _)
    exact types.relocated_relocate f
  types := rfl
  told := by simp [h.told]

theorem report (h : Moved f p p') (failure : Failure) :
    Moved f (p.report failure) (p'.report (failure.relocate f)) := by
  cases failure with
  | diagnostic d => exact h.emit d
  | shown | tooDeep => exact h

end Moved

/-- Reading keeps parsers of texts with the same tokens alike. -/
def movedComparison (f : Location → Location) : Comparison where
  place := f
  limit := 0
  Like := Moved f
  kind h := h.beside.kind
  location h := h.beside.location
  anchor h := h.beside.anchor
  afterDedent h := h.beside.afterDedent
  mark h := h.beside.mark
  hasStruct h := h.beside.types.hasStruct
  alias? h := h.beside.types.alias?
  ends h := h.rest_eq_nil_iff.2
  goesOn h hp := .inl (mt h.rest_eq_nil_iff.1 hp)
  advance h _ := .inl h.advance
  note h n := h.note n n
  addExpr h _ _ _ _ := h.withArena (h.beside.mark_addExpr _ _)
  addStmt h _ _ _ _ := h.withArena (h.beside.mark_addStmt _ _)
  declareAlias {p p'} h name target := by
    have hnext := h.withTypes (p.types.declareAlias name target) [] []
    rwa [TypeEnv.relocate_declareAlias, ← h.types] at hnext
  declareStruct {p p'} h decl := by
    have hnext := h.withTypes (p.types.declareStruct decl) [] []
    rwa [TypeEnv.relocate_declareStruct, ← h.types] at hnext

/-- The same item is read in both texts, or it is reported in both for the same reason. -/
theorem Moved.parseItem (h : Moved f p p') (hp : p.Bounded) (hp' : p'.Bounded) :
    p'.parseItem.1 = p.parseItem.1.map (Item.relocate f) ∧ Moved f p.parseItem.2 p'.parseItem.2 :=
  ((movedComparison f).parseItem h hp hp' (fun _ _ hq => .inl hq.advance) fun failure _ _ hq =>
    (Moved.report hq failure).rollback _).resolve_right (Nat.not_lt_zero _)

end Parser

end Offside
