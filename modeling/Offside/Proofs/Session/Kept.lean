import Offside.Proofs.Parser.Onward
import Offside.Proofs.Session.Step
import Offside.Proofs.Types.History

/-!
# What steps keep

A step reads on, and keeps the layouts finished as long as it gives no alias another target. A step
that refuses an item leaves the nodes, the functions, the globals, the aliases and the structs as
they were, unless the item is a stray alias; only layouts may have been added.

## Main definitions

* `Offside.Session.after`: a session after some steps.
* `Offside.Session.Ongoing`: a session that goes on after errors.
* `Offside.Session.OnlyLaidOut`: the same declarations, with further layouts.

## Main results

* `Offside.Session.readsOn_step`, `Offside.Session.keepsLayouts_step`: what every step keeps.
* `Offside.Session.onlyLaidOut_of_failed`: what a failed step keeps.
-/

namespace Offside.Session

variable {s : Session} {p q : Parser} {name : String} {target : TypeExpr}

/-! ### Steps -/

/-- A session after some steps. -/
def after : Nat → Session → Session
  | 0, s => s
  | n + 1, s => (after n s).step.2

theorem after_succ (n : Nat) (s : Session) : s.after (n + 1) = (s.after n).step.2 := rfl

theorem after_add (m n : Nat) (s : Session) : s.after (m + n) = (s.after m).after n := by
  induction n with
  | zero => rfl
  | succ n ih => rw [← Nat.add_assoc, after_succ, after_succ, ih]

/-- Steps after the last one change nothing. -/
theorem after_of_finished {s : Session} {n : Nat} (h : (s.after n).step.1 = .finished) (m : Nat) :
    s.after (n + 1 + m) = s.after (n + 1) := by
  induction m with
  | zero => rfl
  | succ m ih => rw [← Nat.add_assoc, after_succ, ih, after_succ, step_of_finished h]

/-- They find nothing to do. -/
theorem finished_after {s : Session} {n : Nat} (h : (s.after n).step.1 = .finished) (k : Nat) :
    (s.after (n + k)).step.1 = .finished := by
  cases k with
  | zero => exact h
  | succ k =>
    rw [show n + (k + 1) = n + 1 + k by omega, after_of_finished h, after_succ, step_of_finished h]

/-- Handling the next item while the session has not halted. -/
theorem step_of_running (h : s.halted = false) :
    s.step = if s.atItem.current.kind = .endOfInput then (.finished, { s with parser := s.atItem })
      else match s.atItem.parseItem with
        | (none, q) => fail { s with parser := q }
        | (some item, q) => check { s with parser := q } s.atItem.arena.mark item := by
  rw [step, if_neg (by simp [h])]
  rfl

/-- A session that has not halted and that no error halts. -/
structure Ongoing (s : Session) : Prop where
  interactive : s.options.mode = .interactive
  running : s.halted = false

theorem Ongoing.fail (h : s.Ongoing) : s.fail = (.failed, s) := by
  rw [Session.fail, h.interactive]

theorem Ongoing.step (h : s.Ongoing) : s.step.2.Ongoing := by
  have hstepped := stepped_step s
  generalize s.step = outcome at *
  cases hstepped with
  | halted => exact h
  | ended => exact ⟨h.interactive, h.running⟩
  | unread q =>
    have hq : Ongoing { s with parser := q } := ⟨h.interactive, h.running⟩
    rw [hq.fail]
    exact hq
  | refused item q d c =>
    have hq : Ongoing
        { s with parser := ((afterCheck q c).emit d).rollback s.atItem.arena.mark } :=
      ⟨h.interactive, h.running⟩
    rw [hq.fail]
    exact hq
  | accepted => exact ⟨h.interactive, h.running⟩

theorem Ongoing.after (h : s.Ongoing) (n : Nat) : (s.after n).Ongoing := by
  induction n with
  | zero => exact h
  | succ n ih =>
    rw [after_succ]
    exact ih.step

/-- A prompt shows no diagnostic. -/
theorem exists_prompt (options : SessionOptions) (p : Parser) :
    ∃ journal, prompt options p = { p with journal } ∧
      journal.diagnostics = p.journal.diagnostics := by
  rw [prompt]
  split
  · exact ⟨_, rfl, rfl⟩
  · exact ⟨_, rfl, Journal.diagnostics_prompt _ _⟩

/-! ### The tokens that are read -/

theorem readsOn_skipToItem (options : SessionOptions) (p : Parser) :
    p.ReadsOn (skipToItem options p) := by
  refine frame_skipToItem options (fun p => ?_) p
  rw [prompt]
  split <;> exact .here rfl rfl rfl

theorem readsOn_atItem (s : Session) : s.parser.ReadsOn s.atItem := readsOn_skipToItem _ _

theorem readsOn_fail (s : Session) : s.parser.ReadsOn s.fail.2.parser := by
  rw [Session.fail]
  split <;> exact .here rfl rfl rfl

theorem readsOn_check (s : Session) (mark : Arena.Mark) (item : Item) :
    s.parser.ReadsOn (s.check mark item).2.parser := by
  rw [check]
  dsimp only
  split
  · exact .here rfl rfl rfl
  · refine trans_of Parser.ReadsOn ?_ (readsOn_fail _)
    exact .here rfl rfl rfl

/-- A step reads on from what is read of an item. -/
theorem readsOn_step_of_parseItem (h : s.halted = false)
    (more : s.atItem.current.kind ≠ .endOfInput) :
    s.atItem.parseItem.2.ReadsOn s.step.2.parser := by
  rw [step_of_running h, if_neg more]
  cases s.atItem.parseItem with
  | mk found q =>
    cases found with
    | none => exact readsOn_fail { s with parser := q }
    | some item => exact readsOn_check { s with parser := q } _ item

/-- A step reads on from the first token of an item. -/
theorem readsOn_step_of_atItem (h : s.halted = false) : s.atItem.ReadsOn s.step.2.parser := by
  by_cases hend : s.atItem.current.kind = .endOfInput
  · rw [step_of_running h, if_pos hend]
    exact refl_of Parser.ReadsOn s.atItem
  · exact trans_of Parser.ReadsOn (Parser.TokenFrame.parseItem s.atItem)
      (readsOn_step_of_parseItem h hend)

theorem readsOn_step (s : Session) : s.parser.ReadsOn s.step.2.parser := by
  cases hhalted : s.halted with
  | true =>
    rw [step, hhalted, if_pos rfl]
    exact refl_of Parser.ReadsOn s.parser
  | false => exact trans_of Parser.ReadsOn (readsOn_atItem s) (readsOn_step_of_atItem hhalted)

theorem readsOn_after (n : Nat) (s : Session) : s.parser.ReadsOn (s.after n).parser := by
  induction n with
  | zero => exact refl_of Parser.ReadsOn s.parser
  | succ n ih =>
    rw [after_succ]
    exact trans_of Parser.ReadsOn ih (readsOn_step _)

/-! ### Layouts -/

/-- An item that has been read keeps the layouts. -/
theorem keepsLayouts_of_read {start : Location} {shape : Item.Shape}
    (h : Parse.ItemRead start p shape q) (keeps : p.types.KeepsAliases q.types) : p.types.KeepsLayouts q.types := by
  have hdeclares := h.declares
  cases shape with
  | typeAlias name target =>
    rw [show q.types = p.types.declareAlias name target from hdeclares] at keeps ⊢
    exact TypeEnv.keepsLayouts_declareAlias keeps (h.unused name target rfl)
  | struct name =>
    obtain ⟨-, decl, -, htypes⟩ := hdeclares
    rw [htypes]
    exact TypeEnv.keepsLayouts_declareStruct decl
  | function | external | statement =>
    rw [show q.types = p.types from hdeclares]
    exact refl_of TypeEnv.KeepsLayouts p.types

/-- So does an item that could not be read. -/
theorem keepsLayouts_of_unread (read : p.parseItem = (none, q))
    (keeps : p.types.KeepsAliases q.types) : p.types.KeepsLayouts q.types := by
  obtain ⟨name, target, hstray, htypes⟩ | htypes := (Parser.parseItem_none read).cases
  · rw [htypes] at keeps ⊢
    exact TypeEnv.keepsLayouts_declareAlias keeps hstray.unused
  · rw [htypes]
    exact refl_of TypeEnv.KeepsLayouts p.types

/-- A check declares nothing. -/
theorem sameDecls_check (s : Session) (mark : Arena.Mark) (item : Item) :
    s.types.SameDecls (s.check mark item).2.types := by
  rw [check]
  dsimp only
  split
  · next hrun => exact ((ensures_checkItem (R := TypeEnv.SameDecls) item _).ok hrun).1
  · next hrun =>
    rw [types_fail]
    exact (ensures_checkItem (R := TypeEnv.SameDecls) item _).error hrun

/-! ### Refused items -/

theorem arena_atItem (s : Session) : s.atItem.arena = s.parser.arena := by
  rw [atItem]
  generalize s.parser = p
  fun_induction skipToItem s.options p with
  | case1 p h ih =>
    rw [ih, Parser.arena_advance, prompt]
    split <;> rfl
  | case2 p h₁ h₂ ih => rw [ih, Parser.arena_advance]
  | case3 p h₁ h₂ => rfl

/-- The same nodes, names, items and declarations, and perhaps further layouts. -/
structure OnlyLaidOut (s t : Session) : Prop where
  arena : t.parser.arena = s.parser.arena
  symbols : t.symbols = s.symbols
  items : t.items = s.items
  options : t.options = s.options
  same : s.types.SameDecls t.types
  layouts : s.types.KeepsLayouts t.types

/-- An item that is refused, and is no stray alias, leaves nothing behind but layouts. -/
theorem onlyLaidOut_of_failed (h : s.step.1 = .failed)
    (hstray : ∀ name target, ¬ s.atItem.StrayAlias name target) : s.OnlyLaidOut s.step.2 := by
  have hfail {t : Session} (ht : s.OnlyLaidOut t) : s.OnlyLaidOut t.fail.2 := by
    rw [Session.fail]
    split <;> exact ⟨ht.arena, ht.symbols, ht.items, ht.options, ht.same, ht.layouts⟩
  have htypes := types_atItem s
  have harena := arena_atItem s
  have hstepped := stepped_step s
  generalize s.step = outcome at *
  cases hstepped with
  | halted => cases h
  | ended => cases h
  | accepted => cases h
  | unread q _ _ hread =>
    have hsame := (Parser.parseItem_none hread).same hstray
    rw [htypes] at hsame
    refine hfail ⟨(Parser.arena_of_unread hread).trans harena, rfl, rfl, rfl, ?_, ?_⟩
    · exact hsame ▸ refl_of TypeEnv.SameDecls s.types
    · exact hsame ▸ refl_of TypeEnv.KeepsLayouts s.types
  | refused item q d c _ _ hread hchecked =>
    obtain ⟨hitem, -, -⟩ := Parser.parseItem_some hread
    have hsame := not_declares_of_check hchecked hitem.declares
    rw [htypes] at hsame
    refine hfail ⟨?_, rfl, rfl, rfl, ?_, ?_⟩
    · exact (Parser.keepsNodes_of_read hread).rollback.trans harena
    · exact hsame ▸ (ensures_checkItem (R := TypeEnv.SameDecls) item _).error hchecked
    · exact hsame ▸ (ensures_checkItem (R := TypeEnv.KeepsLayouts) item _).error hchecked

end Offside.Session
