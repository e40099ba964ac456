import Offside.Proofs.Lowering.Relocated
import Offside.Proofs.Parser.Moved
import Offside.Proofs.Session.Ends
import Offside.Proofs.Typing.Moved

/-!
# Sessions on texts with the same tokens

Two sessions on texts with the same tokens, at places that correspond, do the same at every step: they
accept the same items, declare the same, lay out the same structs and tell a user the same.

## Main definitions

* `Offside.Session.Moved`: sessions that have done the same at places that correspond.
* `Offside.Session.SameMoved`: what can be seen of two such sessions.

## Main results

* `Offside.Session.Moved.step`, `Offside.Session.Moved.after`: what steps keep.
* `Offside.Session.sameMoved_after`: sessions on texts with the same tokens.
-/

namespace Offside

variable {f : Location → Location}

namespace Parser.Moved

variable {p p' : Parser}

theorem prompt (h : Moved f p p') (options : SessionOptions) :
    Moved f (Session.prompt options p) (Session.prompt options p') := by
  rw [Session.prompt, Session.prompt]
  split
  · exact h
  · refine ⟨h.beside.withTypes h.beside.types (Journal.diagnostics_prompt _ _)
      (Journal.diagnostics_prompt _ _), h.types, ?_⟩
    simp [h.told, Told.relocate]

theorem skipToItem (h : Moved f p p') (options : SessionOptions) :
    Moved f (Session.skipToItem options p) (Session.skipToItem options p') :=
  Session.skipToItem_related options (fun _ _ h => h.beside.kind) (fun _ _ h => h.rest_eq_nil_iff)
    (fun _ _ h => h.prompt options) (fun _ _ h => h.advance) h

end Parser.Moved

namespace Session

variable {s s' : Session}

/-- Sessions on texts with the same tokens that have done the same. -/
structure Moved (f : Location → Location) (s s' : Session) : Prop where
  parser : s.parser.Moved f s'.parser
  bounded : s.parser.Bounded
  bounded' : s'.parser.Bounded
  symbols : s'.symbols = s.symbols
  items : s'.items = s.items.map (Item.relocate f)
  options : s'.options = s.options
  halted : s'.halted = s.halted

namespace Moved

/-- Both have read on. -/
theorem withParser (h : Moved f s s') {q q' : Parser} (hq : q.Moved f q')
    (reads : s.parser.ReadsOn q) (reads' : s'.parser.ReadsOn q') :
    Moved f { s with parser := q } { s' with parser := q' } :=
  ⟨hq, reads.bounded h.bounded, reads'.bounded h.bounded', h.symbols, h.items, h.options, h.halted⟩

theorem atItem (h : Moved f s s') : s.atItem.Moved f s'.atItem := by
  rw [Session.atItem, Session.atItem, h.options]
  exact h.parser.skipToItem s.options

/-- Both refuse an item. -/
theorem fail (h : Moved f s s') : s'.fail.1 = s.fail.1 ∧ Moved f s.fail.2 s'.fail.2 := by
  rw [Session.fail, Session.fail, h.options]
  split
  · exact ⟨rfl, h.parser.note _ _, h.bounded, h.bounded', h.symbols, h.items, h.options, rfl⟩
  · exact ⟨rfl, h⟩

/-- An item that has been read in both is accepted in both, or refused in both. -/
theorem check (h : Moved f s s') (mark : Arena.Mark) (item : Item) :
    (s'.check mark (item.relocate f)).1 = (s.check mark item).1 ∧
      Moved f (s.check mark item).2 (s'.check mark (item.relocate f)).2 := by
  have hchecks := checksMoved_checkItem (f := f) item (.initial s.types s.symbols)
  have hstart : (CheckState.initial s.types s.symbols).relocate f =
      .initial s'.types s'.symbols := by
    rw [h.symbols, show s'.types = s.types.relocate f from h.parser.types]
    rfl
  rw [hstart, Couples] at hchecks
  have hafter (c : CheckState) : (afterCheck s.parser c).Moved f (afterCheck s'.parser (c.relocate f)) :=
    h.parser.withTypes c.types _ _
  rw [Session.check, Session.check, EStateM.run, EStateM.run]
  dsimp only
  split at hchecks
  · next c _ c' hc hc' =>
    obtain ⟨-, rfl⟩ := hchecks
    rw [hc, hc']
    refine ⟨?_, (hafter c).note _ _, h.bounded, h.bounded', rfl, ?_, h.options, h.halted⟩
    · show Step.item _ = Step.item _
      rw [Array.size_push, Array.size_push, h.items, Array.size_map]
    · show s'.items.push _ = (s.items.push item).map _
      rw [Array.map_push, h.items]
  · next d c d' c' hc hc' =>
    obtain ⟨rfl, rfl⟩ := hchecks
    rw [hc, hc']
    exact fail ⟨((hafter c).emit d).rollback mark, h.bounded, h.bounded', h.symbols, h.items,
      h.options, h.halted⟩
  · exact hchecks.elim
  · exact hchecks.elim

/-- A step has the same outcome in both. -/
theorem step (h : Moved f s s') : s'.step.1 = s.step.1 ∧ Moved f s.step.2 s'.step.2 := by
  cases hhalted : s.halted with
  | true =>
    rw [step_of_halted hhalted, step_of_halted (h.halted.trans hhalted)]
    exact ⟨rfl, h⟩
  | false =>
    have hitem := h.atItem
    have hreads := readsOn_atItem s
    have hreads' := readsOn_atItem s'
    rw [step_of_running hhalted, step_of_running (h.halted.trans hhalted), hitem.beside.kind]
    split
    · exact ⟨rfl, h.withParser hitem hreads hreads'⟩
    · obtain ⟨hfound, hq⟩ :=
        hitem.parseItem (hreads.bounded h.bounded) (hreads'.bounded h.bounded')
      have hread := trans_of Parser.ReadsOn hreads (Parser.TokenFrame.parseItem s.atItem)
      have hread' := trans_of Parser.ReadsOn hreads' (Parser.TokenFrame.parseItem s'.atItem)
      rw [hitem.beside.mark]
      generalize s.atItem.parseItem = result at *
      generalize s'.atItem.parseItem = result' at *
      obtain ⟨found, q⟩ := result
      obtain ⟨found', q'⟩ := result'
      obtain rfl : found' = found.map (Item.relocate f) := hfound
      cases found with
      | none => exact (h.withParser hq hread hread').fail
      | some item => exact (h.withParser hq hread hread').check _ item

/-- So have several steps. -/
theorem after (h : Moved f s s') (n : Nat) : Moved f (s.after n) (s'.after n) := by
  induction n with
  | zero => exact h
  | succ n ih => exact ih.step.2

end Moved

/-- Sessions before the first token of texts with the same tokens. -/
theorem moved_ofLexer {l l' : Lexer} (tokens : List.Forall₂ (Lexeme.Beside f) l.lexemes l'.lexemes)
    (start : f ⟨0, 0⟩ = ⟨0, 0⟩) (options : SessionOptions) :
    Moved f (ofLexer l options) (ofLexer l' options) where
  parser := Parser.moved_ofLexer tokens start
  bounded := Parser.bounded_beforeFirst l
  bounded' := Parser.bounded_beforeFirst l'
  symbols := rfl
  items := Array.map_empty.symm
  options := rfl
  halted := rfl

/-! ### What can be seen -/

/-- All that can be seen of two sessions, except for lines of the text that are shown with
diagnostics, is the same at places that correspond. -/
structure SameMoved (f : Location → Location) (s s' : Session) : Prop where
  outcome : s'.step.1 = s.step.1
  items : s'.items = s.items.map (Item.relocate f)
  sexprs : s'.items.map (Item.sexpr s'.types) =
    s.items.map fun item => (item.sexpr s.types).mapError (LowerError.relocate f)
  types : s'.types = s.types.relocate f
  symbols : s'.symbols = s.symbols
  told : s'.journal.told = s.journal.told.map (Told.relocate f)

theorem Moved.sameMoved (h : Moved f s s') : SameMoved f s s' where
  outcome := h.step.1
  items := h.items
  sexprs := by
    rw [h.items, Array.map_map]
    congr 1
    funext item
    exact Item.sexpr_relocate item h.parser.beside.types.structDecl?
  types := h.parser.types
  symbols := h.symbols
  told := h.parser.told

/-- Sessions on texts with the same tokens do the same. -/
theorem sameMoved_after {input input' : Source.Input}
    (tokens : List.Forall₂ (Lexeme.Beside f) (Lexer.ofInput input).lexemes
      (Lexer.ofInput input').lexemes)
    (start : f ⟨0, 0⟩ = ⟨0, 0⟩) (options : SessionOptions) (n : Nat) :
    SameMoved f ((ofInput input options).after n) ((ofInput input' options).after n) :=
  ((moved_ofLexer tokens start options).after n).sameMoved

end Session

end Offside
