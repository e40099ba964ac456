import Offside.Proofs.Parser.Replay
import Offside.Proofs.Token.Followed

/-!
# Parsers of texts that go on

Whole lines go on in one of two ways. As long as a parser reads tokens of the whole lines, nothing
that it does depends on which way this is: two parsers stay the same but for what is still unread.

## Main definitions

* `Offside.Parser.Fork`: two ways in which whole lines go on.
* `Offside.Parser.Forked`: parsers that differ only in what follows the whole lines.
* `Offside.Parser.Fork.comparison`: reading tokens of the whole lines keeps them so.
* `Offside.Parser.Awaits`: a parser that has requested nothing of what follows.

## Main results

* `Offside.Parser.Forked.advance`: reading one token.
* `Offside.Parser.Forked.parseItem`: an item that is read, or reported, is so either way.
-/

namespace Offside

namespace Parser

/-- Two inputs that may follow whole lines, each with the tokens that come after those of the
lines. -/
structure Fork where
  later : Source.Input
  later' : Source.Input
  tail : List Lexeme
  tail' : List Lexeme
  goesOn : tail ≠ []
  goesOn' : tail' ≠ []

/-- The parser `p` on whole lines that are followed by `later`: the lexer `l` and the tokens
`common` are what is left of the lines, and the tokens `tail` come after them. -/
def onWholeLines (p : Parser) (l : Lexer) (common : List Lexeme) (later : Source.Input)
    (tail : List Lexeme) : Parser :=
  { p with
    lexer := l.followedBy later, rest := common.map (·.followedBy later) ++ tail }

/-- Two parsers that differ only in what follows the whole lines. -/
inductive Forked (w : Fork) : Parser → Parser → Prop
  | mk (p : Parser) (l : Lexer) (common : List Lexeme) :
    Forked w (p.onWholeLines l common w.later w.tail) (p.onWholeLines l common w.later' w.tail')

/-- The parser has read on beyond the whole lines. -/
def Fork.Beyond (w : Fork) (p : Parser) : Prop := p.rest.length < w.tail.length

theorem Fork.Beyond.mono {w : Fork} {p q : Parser} (h : w.Beyond p) (hq : p.ReadsOn q) :
    w.Beyond q := Nat.lt_of_le_of_lt hq.length_le h

theorem onWholeLines_rest_ne_nil {p : Parser} {l : Lexer} {common tail : List Lexeme}
    {later : Source.Input} (goesOn : tail ≠ []) : (p.onWholeLines l common later tail).rest ≠ [] :=
  List.append_ne_nil_of_right_ne_nil _ goesOn

namespace Forked

variable {w : Fork} {p p' : Parser}

theorem advance (h : Forked w p p') : Forked w p.advance p'.advance ∨ w.Beyond p.advance := by
  obtain ⟨p, l, common⟩ := h
  cases common with
  | cons x common =>
    exact .inl (.mk { p with
      current := x.token, afterDedent := p.current.kind = .dedent,
      journal := p.journal.lexeme x } x.after common)
  | nil =>
    right
    have := List.length_pos_iff.2 w.goesOn
    rw [Fork.Beyond, length_rest_advance]
    show w.tail.length - 1 < _
    omega

theorem note (h : Forked w p p') (n : Note) : Forked w (p.note n) (p'.note n) := by
  obtain ⟨p, l, common⟩ := h
  exact ⟨p.note n, l, common⟩

theorem emit (h : Forked w p p') (d : Diagnostic) : Forked w (p.emit d) (p'.emit d) := by
  obtain ⟨p, l, common⟩ := h
  exact ⟨{ p with journal := p.journal.emit d l.stream }, l, common⟩

theorem rollback (h : Forked w p p') (mark : Arena.Mark) :
    Forked w (p.rollback mark) (p'.rollback mark) := by
  obtain ⟨p, l, common⟩ := h
  exact ⟨p.rollback mark, l, common⟩

theorem report (h : Forked w p p') (failure : Failure) :
    Forked w (p.report failure) (p'.report failure) := by
  cases failure with
  | diagnostic d => exact h.emit d
  | shown | tooDeep => exact h

end Forked

/-- Reading tokens of the whole lines is the same whatever follows them. -/
def Fork.comparison (w : Fork) : Comparison where
  place := id
  limit := w.tail.length
  Like := Forked w
  kind h := by obtain ⟨p, l, common⟩ := h; rfl
  location h _ := by obtain ⟨p, l, common⟩ := h; rfl
  anchor h := by obtain ⟨p, l, common⟩ := h; rfl
  afterDedent h := by obtain ⟨p, l, common⟩ := h; rfl
  mark h := by obtain ⟨p, l, common⟩ := h; rfl
  hasStruct h name := by obtain ⟨p, l, common⟩ := h; rfl
  alias? h name := by obtain ⟨p, l, common⟩ := h; rfl
  ends h hp := by
    obtain ⟨p, l, common⟩ := h
    exact absurd hp (onWholeLines_rest_ne_nil w.goesOn)
  goesOn h _ := by
    obtain ⟨p, l, common⟩ := h
    exact .inl (onWholeLines_rest_ne_nil w.goesOn')
  advance h _ := h.advance
  note h n := h.note n
  addExpr h place _ _ same := by
    obtain rfl := build_eq Expr.relocate_id same
    obtain ⟨p, l, common⟩ := h
    exact ⟨{ p with arena := (p.arena.addExpr place _).2 }, l, common⟩
  addStmt h place _ _ same := by
    obtain rfl := build_eq Stmt.relocate_id same
    obtain ⟨p, l, common⟩ := h
    exact ⟨{ p with arena := (p.arena.addStmt place _).2 }, l, common⟩
  declareAlias h name target := by
    obtain ⟨p, l, common⟩ := h
    exact ⟨{ p with types := p.types.declareAlias name target }, l, common⟩
  declareStruct h decl := by
    obtain ⟨p, l, common⟩ := h
    exact ⟨{ p with types := p.types.declareStruct decl }, l, common⟩

/-- An item that is read, or reported, is so either way. -/
theorem Forked.parseItem {w : Fork} {p p' : Parser} (h : Forked w p p') (bounded : p.Bounded)
    (bounded' : p'.Bounded) :
    p'.parseItem.1 = p.parseItem.1 ∧ Forked w p.parseItem.2 p'.parseItem.2 ∨
      w.Beyond p.parseItem.2 := by
  refine (w.comparison.parseItem h bounded bounded' (fun _ _ hq => hq.advance)
    fun failure q q' hq => ?_).imp_left fun ⟨hitem, hafter⟩ =>
      ⟨hitem.trans (Item.map_relocate_id _), hafter⟩
  rw [show failure.relocate w.comparison.place = failure from failure.relocate_id]
  exact ((hq : Forked w q q').report failure).rollback _

/-- Everything that has been requested has been read, and nothing of `later` is among it. -/
structure Awaits (p : Parser) (later : Source.Input) : Prop where
  pending : p.stream.pending = []
  unread : p.stream.unread = later.text
  broken : p.stream.broken = later.broken
  failed : p.stream.failed = false

/-- If one parser waits for what follows, so does the other. -/
theorem Forked.awaits {w : Fork} {p p' : Parser} (h : Forked w p p') (awaits : p.Awaits w.later) :
    p'.Awaits w.later' := by
  obtain ⟨p, l, common⟩ := h
  obtain ⟨pending, unread, -, failed⟩ := awaits
  have hnil : l.stream.unread = [] := List.append_left_eq_self.1 unread
  refine ⟨pending, ?_, rfl, failed⟩
  show l.stream.unread ++ w.later'.text = _
  rw [hnil, List.nil_append]

end Parser

end Offside
