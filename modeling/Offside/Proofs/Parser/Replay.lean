import Offside.Proofs.Journal.Shown
import Offside.Proofs.Parser.Tracks

/-!
# One text read twice

What is read of a text depends on its tokens and on what has been declared, and on nothing that a
journal holds. So parsers that differ in prompts and notes only read the same from there on, and show
the same. And a parser writes to the end of its journal only: with an earlier journal put before its
own it reads the same, and what it has written follows the earlier journal.

Taken together with itself, a parser keeps whatever the reading of tokens that have not been refused
keeps: reading passes over no other token.

## Main definitions

* `Offside.Parser.Replays`: parsers that differ in prompts and notes only.
* `Offside.Parser.Upheld`: what reading an accepted token keeps.
* `Offside.Parser.resuming`: a parser with an earlier journal before its own.

## Main results

* `Offside.Parser.Replays.parseItem`: such parsers read the same.
* `Offside.Parser.Upheld.yields_item`: what reading an item keeps, and how it fails.
* `Offside.Journal.diagnostics_append`, `Offside.Journal.output_append`: what a user sees of two
  journals in a row.
* `Offside.Parser.parseItem_resuming`: items are read the same under an earlier journal.
-/

namespace Offside

namespace Parser

variable {p p' q : Parser}

/-- Two parsers that differ in the prompts and the notes of their journals only. -/
structure Replays (p p' : Parser) : Prop where
  current : p'.current = p.current
  lexer : p'.lexer = p.lexer
  rest : p'.rest = p.rest
  afterDedent : p'.afterDedent = p.afterDedent
  arena : p'.arena = p.arena
  types : p'.types = p.types
  shown : p'.journal.shown = p.journal.shown

theorem replays_self (p : Parser) : Replays p p := ⟨rfl, rfl, rfl, rfl, rfl, rfl, rfl⟩

/-- Notes make no difference. -/
theorem replays_note (p : Parser) (n : Note) : Replays p (p.note n) :=
  ⟨rfl, rfl, rfl, rfl, rfl, rfl, Journal.shown_note _ _⟩

namespace Replays

theorem symm (h : Replays p p') : Replays p' p :=
  ⟨h.current.symm, h.lexer.symm, h.rest.symm, h.afterDedent.symm, h.arena.symm, h.types.symm,
    h.shown.symm⟩

theorem trans (h : Replays p p') (k : Replays p' q) : Replays p q :=
  ⟨k.current.trans h.current, k.lexer.trans h.lexer, k.rest.trans h.rest,
    k.afterDedent.trans h.afterDedent, k.arena.trans h.arena, k.types.trans h.types,
    k.shown.trans h.shown⟩

theorem stream (h : Replays p p') : p'.stream = p.stream := congrArg Lexer.stream h.lexer

/-- The same nodes in both. -/
theorem withArena (h : Replays p p') {arena arena' : Arena} (same : arena' = arena) :
    Replays { p with arena } { p' with arena := arena' } :=
  ⟨h.current, h.lexer, h.rest, h.afterDedent, same, h.types, h.shown⟩

/-- The same tables in both. -/
theorem withTypes (h : Replays p p') {types types' : TypeEnv} (same : types' = types) :
    Replays { p with types } { p' with types := types' } :=
  ⟨h.current, h.lexer, h.rest, h.afterDedent, h.arena, same, h.shown⟩

theorem note (h : Replays p p') (n n' : Note) : Replays (p.note n) (p'.note n') :=
  ((replays_note p n).symm.trans h).trans (replays_note p' n')

theorem emit (h : Replays p p') (d : Diagnostic) : Replays (p.emit d) (p'.emit d) :=
  ⟨h.current, h.lexer, h.rest, h.afterDedent, h.arena, h.types,
    by simp [Parser.emit, h.shown, h.stream]⟩

theorem rollback (h : Replays p p') (mark : Arena.Mark) :
    Replays (p.rollback mark) (p'.rollback mark) :=
  ⟨h.current, h.lexer, h.rest, h.afterDedent, by rw [Parser.rollback, Parser.rollback, h.arena],
    h.types, h.shown⟩

theorem advance (h : Replays p p') : Replays p.advance p'.advance := by
  rw [Parser.advance, Parser.advance, h.rest, h.current]
  cases hrest : p.rest with
  | nil => exact ⟨rfl, h.lexer, rfl, rfl, h.arena, h.types, h.shown⟩
  | cons x rest =>
    exact ⟨rfl, rfl, rfl, rfl, h.arena, h.types, by simp [h.shown]⟩

theorem report (h : Replays p p') (failure : Failure) :
    Replays (p.report failure) (p'.report failure) := by
  cases failure with
  | diagnostic d => exact h.emit d
  | shown | tooDeep => exact h

end Replays

/-! ### What reading keeps -/

/-- What reading a token that has not been refused keeps. It depends on the tokens and on what has
been shown only. -/
structure Upheld (P : Parser → Prop) : Prop where
  advance {p : Parser} (h : P p) (accepted : p.current.kind.isInvalid = false) : P p.advance
  same {p q : Parser} (h : P p) (current : q.current = p.current) (lexer : q.lexer = p.lexer)
    (rest : q.rest = p.rest) (shown : q.journal.shown = p.journal.shown) : P q

theorem upheld_true : Upheld fun _ => True := ⟨fun _ _ => trivial, fun _ _ _ _ _ => trivial⟩

theorem build_eq {α : Type} {build build' : Tag → α} {g : α → α} (hg : ∀ a, g a = a)
    (same : ∀ tag : Tag, build' (tag.relocate id) = g (build tag)) : build' = build :=
  funext fun tag => (same tag).trans (hg _)

/-- A text read twice, with what reading keeps. -/
def Upheld.comparison {P : Parser → Prop} (hP : Upheld P) : Comparison where
  place := id
  limit := 0
  Like p p' := Replays p p' ∧ P p
  kind h := congrArg Token.kind h.1.current
  location h _ := congrArg Token.location h.1.current
  anchor h := by rw [h.1.current, h.1.stream, id_eq]
  afterDedent h := h.1.afterDedent
  mark h := congrArg Arena.mark h.1.arena
  hasStruct h name := by rw [h.1.types]
  alias? h name := by rw [h.1.types]
  ends h hp := h.1.rest.trans hp
  goesOn h hp := .inl (by rwa [h.1.rest])
  advance h accepted := .inl ⟨h.1.advance, hP.advance h.2 accepted⟩
  note h n := ⟨h.1.note n n, hP.same h.2 rfl rfl rfl (Journal.shown_note _ _)⟩
  addExpr h place _ _ same := by
    obtain rfl := build_eq Expr.relocate_id same
    exact ⟨h.1.withArena (by rw [h.1.arena, id_eq]), hP.same h.2 rfl rfl rfl rfl⟩
  addStmt h place _ _ same := by
    obtain rfl := build_eq Stmt.relocate_id same
    exact ⟨h.1.withArena (by rw [h.1.arena, id_eq]), hP.same h.2 rfl rfl rfl rfl⟩
  declareAlias h name target :=
    ⟨h.1.withTypes (by rw [h.1.types]), hP.same h.2 rfl rfl rfl rfl⟩
  declareStruct h decl := ⟨h.1.withTypes (by rw [h.1.types]; rfl), hP.same h.2 rfl rfl rfl rfl⟩

/-- A bound on the depth that is not met is as good as any other one. -/
theorem couples_self {α : Type} {σ : α → α} {x x' : Parse α} (hσ : ∀ a, σ a = a)
    (h : Parse.Tracks upheld_true.comparison σ x x')
    (hx : Yields p x (fun _ _ => True) fun e _ => e ≠ .tooDeep)
    (hx' : Yields p x' (fun _ _ => True) fun e _ => e ≠ .tooDeep) :
    Couples p p x x' (fun a q a' q' => a' = a ∧ Replays q q') fun _ _ _ _ => True := by
  rcases ((h _).run p p ⟨replays_self p, trivial⟩ rfl).couples hx hx' with hsame | hbeyond
  · exact hsame.mono (fun a q _ q' hq => ⟨hq.1.trans (hσ a), hq.2.1⟩) fun _ _ _ _ _ => trivial
  · rw [Yields] at hbeyond
    split at hbeyond <;> exact absurd hbeyond (Nat.not_lt_zero _)

/-- Both read the same item, or fail for the same reason. -/
theorem Replays.couples_item {P : Parser → Prop} (hP : Upheld P) (h : Replays p p') (hp : P p)
    (bounded : p.Bounded) :
    Couples p p' (Parse.item p.fuel) (Parse.item p'.fuel)
      (fun item q item' q' => item' = item ∧ Replays q q' ∧ P q)
      fun e q e' q' => e' = e ∧ e.ArisesAt q ∧ e ≠ .tooDeep ∧ Replays q q' ∧ P q := by
  have bounded' : p'.Bounded := (ReadsOn.here h.current h.lexer h.rest).bounded bounded
  rcases Parse.couples_item (w := hP.comparison) ⟨h, hp⟩ bounded bounded' with hsame | hbeyond
  · exact hsame.mono (fun item q _ q' hq => ⟨hq.1.trans item.relocate_id, hq.2⟩)
      fun e q _ q' hq => ⟨hq.1.trans e.relocate_id, hq.2⟩
  · rw [Yields] at hbeyond
    split at hbeyond <;> exact absurd hbeyond (Nat.not_lt_zero _)

/-- What reading an item keeps, whether or not it can be read, and how it fails. -/
theorem Upheld.yields_item {P : Parser → Prop} (hP : Upheld P) (hp : P p) (bounded : p.Bounded) :
    Yields p (Parse.item p.fuel) (fun _ q => P q)
      fun e q => P q ∧ e.ArisesAt q ∧ e ≠ .tooDeep := by
  have hsame := (replays_self p).couples_item hP hp bounded
  rw [Couples] at hsame
  rw [Yields]
  split at hsame
  · next hrun _ => rw [hrun]; exact hsame.2.2
  · next hrun _ => rw [hrun]; exact ⟨hsame.2.2.2.2, hsame.2.1, hsame.2.2.1⟩
  · exact hsame.elim
  · exact hsame.elim

/-- Both read the same item, or both report why there is none. -/
theorem Replays.parseItem (h : Replays p p') (bounded : p.Bounded) :
    p'.parseItem.1 = p.parseItem.1 ∧ Replays p.parseItem.2 p'.parseItem.2 := by
  have bounded' : p'.Bounded := (ReadsOn.here h.current h.lexer h.rest).bounded bounded
  have hread := upheld_true.comparison.parseItem ⟨h, trivial⟩ bounded bounded'
    (fun _ _ hq => .inl ⟨hq.1.advance, trivial⟩) fun failure q q' hq => ⟨?_, trivial⟩
  · obtain ⟨hitem, hafter, -⟩ := hread.resolve_right (Nat.not_lt_zero _)
    exact ⟨hitem.trans (Item.map_relocate_id _), hafter⟩
  · show Replays _ ((q'.report (failure.relocate id)).rollback p.arena.mark)
    rw [failure.relocate_id]
    exact (hq.1.report failure).rollback _

end Parser

/-! ### Journals in a row -/

namespace Journal

/-- What happened in one journal and then in another one. -/
instance : Append Journal := ⟨fun j k => ⟨j.entries ++ k.entries⟩⟩

variable (j k : Journal)

@[simp] theorem entries_append : (j ++ k).entries = j.entries ++ k.entries := rfl

@[simp] theorem append_empty : j ++ empty = j :=
  congrArg Journal.mk Array.append_empty

theorem append_push (entry : Entry) : j ++ k.push entry = (j ++ k).push entry :=
  congrArg Journal.mk Array.append_push

theorem append_note (n : Note) : j ++ k.note n = (j ++ k).note n := append_push j k _

theorem append_prompt (text : String) : j ++ k.prompt text = (j ++ k).prompt text :=
  append_push j k _

theorem append_emit (d : Diagnostic) (stream : Source.Stream) :
    j ++ k.emit d stream = (j ++ k).emit d stream := append_push j k _

theorem append_notes (ns : List Note) : j ++ k.notes ns = (j ++ k).notes ns := by
  induction ns generalizing k with
  | nil => rfl
  | cons n ns ih => exact (ih (k.note n)).trans (congrArg (notes · ns) (append_note j k n))

theorem append_lexeme (x : Lexeme) : j ++ k.lexeme x = (j ++ k).lexeme x := by
  rw [lexeme, lexeme, ← append_notes]
  cases x.token.diagnostic? with
  | none => rfl
  | some d => exact append_emit j _ d x.after.stream

theorem diagnostics_append : (j ++ k).diagnostics = j.diagnostics ++ k.diagnostics := by
  simp [diagnostics]

theorem output_append : (j ++ k).output = j.output ++ k.output := by
  simp [output, String.join_append]

theorem log_append (verbose : Bool) : (j ++ k).log verbose = j.log verbose ++ k.log verbose := by
  simp [log, String.join_append]

end Journal

/-! ### Parsers that go on with a journal -/

namespace Parser

variable {p : Parser} (earlier : Journal)

/-- A parser with an earlier journal before its own. -/
def resuming (p : Parser) : Parser := { p with journal := earlier ++ p.journal }

@[simp] theorem current_resuming (p : Parser) : (p.resuming earlier).current = p.current := rfl

@[simp] theorem rest_resuming (p : Parser) : (p.resuming earlier).rest = p.rest := rfl

theorem note_resuming (p : Parser) (n : Note) :
    (p.resuming earlier).note n = (p.note n).resuming earlier := by
  rw [resuming, resuming, note, note, Journal.append_note]

theorem emit_resuming (p : Parser) (d : Diagnostic) :
    (p.resuming earlier).emit d = (p.emit d).resuming earlier := by
  rw [resuming, resuming, emit, emit, Journal.append_emit]
  rfl

theorem rollback_resuming (p : Parser) (mark : Arena.Mark) :
    (p.resuming earlier).rollback mark = (p.rollback mark).resuming earlier := rfl

theorem report_resuming (p : Parser) (failure : Failure) :
    (p.resuming earlier).report failure = (p.report failure).resuming earlier := by
  cases failure with
  | diagnostic d => exact emit_resuming earlier p d
  | shown | tooDeep => rfl

theorem advance_resuming (p : Parser) :
    (p.resuming earlier).advance = p.advance.resuming earlier := by
  rw [advance, advance, rest_resuming]
  cases p.rest with
  | nil => rfl
  | cons x rest =>
    rw [resuming, resuming, Journal.append_lexeme]

/-- A text read twice, once under an earlier journal. -/
def resumed : Comparison where
  place := id
  limit := 0
  Like p p' := p' = p.resuming earlier
  kind h := by rw [h]; rfl
  location h _ := by rw [h]; rfl
  anchor h := by rw [h]; rfl
  afterDedent h := by rw [h]; rfl
  mark h := by rw [h]; rfl
  hasStruct h name := by rw [h]; rfl
  alias? h name := by rw [h]; rfl
  ends h hp := by rw [h]; exact hp
  goesOn h hp := .inl (by rw [h]; exact hp)
  advance h _ := .inl (by rw [h, advance_resuming])
  note h n := by rw [h, note_resuming]
  addExpr h place _ _ same := by
    obtain rfl := build_eq Expr.relocate_id same
    rw [h]
    rfl
  addStmt h place _ _ same := by
    obtain rfl := build_eq Stmt.relocate_id same
    rw [h]
    rfl
  declareAlias h name target := by rw [h]; rfl
  declareStruct h decl := by rw [h]; rfl

/-- Under an earlier journal the same item is read, or the same failure reported. -/
theorem parseItem_resuming (bounded : p.Bounded) :
    (p.resuming earlier).parseItem = (p.parseItem.1, p.parseItem.2.resuming earlier) := by
  have bounded' : (p.resuming earlier).Bounded := (ReadsOn.here rfl rfl rfl).bounded bounded
  have hread := (resumed earlier).parseItem rfl bounded bounded'
    (fun q q' h => .inl ((congrArg Parser.advance h).trans (advance_resuming earlier q)))
    fun failure q q' h => ?_
  · obtain ⟨hitem, hafter⟩ := hread.resolve_right (Nat.not_lt_zero _)
    exact Prod.ext (hitem.trans (Item.map_relocate_id _)) hafter
  · show (q'.report (failure.relocate id)).rollback p.arena.mark =
      ((q.report failure).rollback p.arena.mark).resuming earlier
    rw [failure.relocate_id, show q' = q.resuming earlier from h, report_resuming,
      rollback_resuming]

end Parser

end Offside
