import Offside.Proofs.Parser.Item
import Offside.Proofs.Typing.Checked
import Offside.Session.Basic

/-!
# What a step can do

A step does nothing at the end of the input and in a halted session. Otherwise it reads an item and
checks it: the item cannot be read, or it is refused by its check, or it is accepted.

A step that refuses an item leaves the declared aliases and structs as they were, whether the item
could not be read or did not pass its check. The one exception is an alias before a dedent, which
is declared and then refused.

## Main definitions

* `Offside.Session.Stepped`: the outcomes of a step.
* `Offside.Session.Reachable`: sessions that steps and restarts lead to.

## Main results

* `Offside.Session.stepped_step`: there are no others.
* `Offside.Session.step_of_finished`: after the last step nothing changes.
* `Offside.Session.sameDecls_of_failed`: exactly when a failed step leaves the declarations alone.
-/

namespace Offside.Session

section

variable (options : SessionOptions)

/-- Skipping to an item is reading, with a prompt for each line. -/
theorem frame_skipToItem {R : Parser → Parser → Prop} [Parser.Frame R]
    (hprompt : ∀ p, R p (prompt options p)) (p : Parser) : R p (skipToItem options p) := by
  fun_induction skipToItem options p with
  | case1 p h ih => exact trans_of R (hprompt p) (trans_of R (Parser.Frame.advance _) ih)
  | case2 p h₁ h₂ ih => exact trans_of R (Parser.Frame.advance p) ih
  | case3 p h₁ h₂ => exact refl p

@[simp] theorem current_prompt (p : Parser) : (prompt options p).current = p.current := by
  rw [prompt]
  split <;> rfl

@[simp] theorem rest_prompt (p : Parser) : (prompt options p).rest = p.rest := by
  rw [prompt]
  split <;> rfl

/-- Two parsers skip to an item side by side if prompts and tokens keep them related. -/
theorem skipToItem_related {R : Parser → Parser → Prop} {options' : SessionOptions}
    (kind : ∀ p p', R p p' → p'.current.kind = p.current.kind)
    (ended : ∀ p p', R p p' → (p'.rest = [] ↔ p.rest = []))
    (prompted : ∀ p p', R p p' → R (prompt options p) (prompt options' p'))
    (advanced : ∀ p p', R p p' → R p.advance p'.advance) {p p' : Parser} (h : R p p') :
    R (skipToItem options p) (skipToItem options' p') := by
  have hiff {p p' : Parser} (h : R p p') (k : Kind) :
      (p'.current.kind = k ∧ p'.rest ≠ []) ↔ p.current.kind = k ∧ p.rest ≠ [] := by
    rw [kind p p' h, ne_eq, ended p p' h]
  fun_induction skipToItem options p generalizing p' with
  | case1 p hline ih =>
    rw [skipToItem.eq_def options' p', if_pos ((hiff h _).2 hline)]
    exact ih (advanced _ _ (prompted _ _ h))
  | case2 p hline hblock ih =>
    rw [skipToItem.eq_def options' p', if_neg (mt (hiff h _).1 hline), if_pos ((hiff h _).2 hblock)]
    exact ih (advanced _ _ h)
  | case3 p hline hblock =>
    rw [skipToItem, if_neg (mt (hiff h _).1 hline), if_neg (mt (hiff h _).1 hblock)]
    exact h

theorem types_skipToItem (p : Parser) : (skipToItem options p).types = p.types := by
  refine frame_skipToItem (R := Parser.SameTypes) options (fun p => ?_) p
  rw [prompt]
  split <;> rfl

end

/-- The parser on the first token of the next item, or at the end of the input. -/
def atItem (s : Session) : Parser := skipToItem s.options s.parser

/-- The parser after a check that ends in the state `c`. -/
def afterCheck (q : Parser) (c : CheckState) : Parser :=
  { q with types := c.types, journal := q.journal.notes c.notes.reverse }

/-- What a step of the session `s` may lead to. -/
inductive Stepped (s : Session) : Step × Session → Prop
  | halted (halted : s.halted = true) : Stepped s (.finished, s)
  | ended (running : s.halted = false) (ended : s.atItem.current.kind = .endOfInput) :
    Stepped s (.finished, { s with parser := s.atItem })
  | unread (q : Parser) (running : s.halted = false)
      (more : s.atItem.current.kind ≠ .endOfInput) (read : s.atItem.parseItem = (none, q)) :
    Stepped s (fail { s with parser := q })
  | refused (item : Item) (q : Parser) (d : Diagnostic) (c : CheckState)
      (running : s.halted = false) (more : s.atItem.current.kind ≠ .endOfInput)
      (read : s.atItem.parseItem = (some item, q))
      (checked : (checkItem item).run (.initial q.types s.symbols) = .error d c) :
    Stepped s (fail { s with parser := ((afterCheck q c).emit d).rollback s.atItem.arena.mark })
  | accepted (item : Item) (q : Parser) (c : CheckState)
      (running : s.halted = false) (more : s.atItem.current.kind ≠ .endOfInput)
      (read : s.atItem.parseItem = (some item, q))
      (checked : (checkItem item).run (.initial q.types s.symbols) = .ok () c) :
    Stepped s
      (.item s.items.size,
        { s with
          parser := (afterCheck q c).note (.itemAccepted item.location.line)
          symbols := c.symbols, items := s.items.push item })

theorem stepped_step (s : Session) : Stepped s s.step := by
  rw [step]
  by_cases hhalted : s.halted
  · rw [if_pos hhalted]
    exact .halted hhalted
  have hrunning : s.halted = false := by simpa using hhalted
  rw [if_neg hhalted]
  dsimp only
  rw [← atItem]
  by_cases hend : s.atItem.current.kind = .endOfInput
  · rw [if_pos hend]
    exact .ended hrunning hend
  rw [if_neg hend]
  cases hread : s.atItem.parseItem with
  | mk found q =>
    cases found with
    | none => exact .unread q hrunning hend hread
    | some item =>
      dsimp only
      rw [check]
      dsimp only
      split
      · next c hcheck =>
        rw [Array.size_push, Nat.add_sub_cancel]
        exact .accepted item q c hrunning hend hread hcheck
      · next d c hcheck => exact .refused item q d c hrunning hend hread hcheck

/-- A parser at the end of the input is on no line end. -/
theorem skipToItem_of_end {options : SessionOptions} {p : Parser}
    (h : p.current.kind = .endOfInput) : skipToItem options p = p := by
  rw [skipToItem, if_neg (by simp [h]), if_neg (by simp [h])]

@[simp] theorem outcome_fail (s : Session) : s.fail.1 = .failed := by
  rw [fail]
  split <;> rfl

/-- Once a step has found nothing to do, nothing changes any more. -/
theorem step_of_finished {s : Session} (h : s.step.1 = .finished) :
    s.step.2.step = (.finished, s.step.2) := by
  have hstepped := stepped_step s
  generalize s.step = outcome at *
  cases hstepped with
  | halted hhalted => rw [step, if_pos hhalted]
  | ended hrunning hend =>
    rw [step, if_neg (by simp [hrunning])]
    dsimp only
    rw [skipToItem_of_end hend, if_pos hend]
  | unread | refused => exact absurd (h.symm.trans (outcome_fail _)) Step.noConfusion
  | accepted => cases h

@[simp] theorem types_fail (s : Session) : s.fail.2.types = s.types := by
  rw [fail]
  split <;> rfl

@[simp] theorem items_fail (s : Session) : s.fail.2.items = s.items := by
  rw [fail]
  split <;> rfl

@[simp] theorem symbols_fail (s : Session) : s.fail.2.symbols = s.symbols := by
  rw [fail]
  split <;> rfl

/-- Sessions that steps and restarts lead to. -/
inductive Reachable : Session → Prop
  | start (lexer : Lexer) (options : SessionOptions) : Reachable (ofLexer lexer options)
  | step {s : Session} (h : Reachable s) : Reachable s.step.2
  | restart {s : Session} (h : Reachable s) (lexer : Lexer) : Reachable (s.restart lexer)

/-! ### Refused items and the declarations -/

theorem types_atItem (s : Session) : s.atItem.types = s.types := types_skipToItem s.options s.parser

/-- An item that does not pass its check is none that has been declared. -/
theorem not_declares_of_check {item : Item} {s c : CheckState} {d : Diagnostic} {env env' : TypeEnv}
    (h : (checkItem item).run s = .error d c) (hdeclares : item.shape.Declares env env') :
    env' = env := by
  rw [checkItem] at h
  unfold Item.Shape.Declares at hdeclares
  split at hdeclares
  · next hshape =>
    rw [hshape] at h
    cases h
  · next hshape =>
    rw [hshape] at h
    cases h
  all_goals exact hdeclares

/-- After a failed step the aliases and structs are those declared before it, unless the item is a
stray alias, which has been declared. -/
theorem sameDecls_of_failed {s : Session} (h : s.step.1 = .failed) :
    (s.types.SameDecls s.step.2.types ↔
      ∀ name target, s.atItem.StrayAlias name target → s.types.alias? name = some target) ∧
    ∀ name target, s.atItem.StrayAlias name target →
      (s.types.declareAlias name target).SameDecls s.step.2.types := by
  have htypes := types_atItem s
  have hstepped := stepped_step s
  generalize s.step = outcome at *
  cases hstepped with
  | halted => cases h
  | ended => cases h
  | accepted => cases h
  | unread q _ _ hread =>
    have hrefused := Parser.parseItem_none hread
    rw [types_fail]
    show (s.types.SameDecls q.types ↔ _) ∧ _
    refine ⟨⟨fun hsame name target hstray => ?_, fun hknown => ?_⟩, fun name target hstray => ?_⟩
    · rw [hrefused.stray name target hstray, htypes] at hsame
      exact TypeEnv.sameDecls_declareAlias.1 hsame
    · by_cases hstray : ∃ name target, s.atItem.StrayAlias name target
      · obtain ⟨name, target, hstray⟩ := hstray
        rw [hrefused.stray name target hstray, htypes]
        exact TypeEnv.sameDecls_declareAlias.2 (hknown name target hstray)
      · rw [hrefused.same fun name target h => hstray ⟨name, target, h⟩, htypes]
        exact refl_of TypeEnv.SameDecls s.types
    · show (s.types.declareAlias name target).SameDecls q.types
      rw [hrefused.stray name target hstray, htypes]
      exact refl_of TypeEnv.SameDecls _
  | refused item q d c _ _ hread hchecked =>
    obtain ⟨hitem, -, hstray⟩ := Parser.parseItem_some hread
    have hsame : q.types.SameDecls c.types := (ensures_checkItem item _).error hchecked
    rw [not_declares_of_check hchecked hitem.declares, htypes] at hsame
    rw [types_fail]
    exact ⟨⟨fun _ name target h => absurd h (hstray name target), fun _ => hsame⟩,
      fun name target h => absurd h (hstray name target)⟩

/-- A session of which the first item is an alias, the second one an indented line that is refused
and leaves a block open, and the third one an alias inside this block, without a line end. -/
def aliasInOpenBlock : Session :=
  ofInput (.ofString "type A = i32\n  x\n  type A = i64") ⟨.interactive, defaultPrompt⟩

/-- The third item is refused, and replaces the alias that was accepted as the first one. -/
theorem alias_replaced_of_failed :
    let s := aliasInOpenBlock.step.2.step.2
    s.step.1 = .failed ∧ s.types.alias? "A" = some (.builtin .i32) ∧
      s.step.2.types.alias? "A" = some (.builtin .i64) := by
  decide +kernel

theorem sameDecls_of_failed_aliasInOpenBlock :
    let s := aliasInOpenBlock.step.2.step.2
    s.step.1 = .failed ∧
      (s.types.SameDecls s.step.2.types ↔
        ∀ name target, s.atItem.StrayAlias name target →
          s.types.alias? name = some target) :=
  ⟨by decide +kernel, (sameDecls_of_failed (by decide +kernel)).1⟩

end Offside.Session
