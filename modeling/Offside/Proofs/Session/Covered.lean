import Offside.Proofs.Session.Permanent
import Offside.Proofs.Typing.Moments

/-!
# No number outlives its layout

Layouts come and go: those of a failed resolution are taken away again, others get the same numbers
later, and a restart takes all of them away. A type that was resolved before is not looked at on
any of these occasions. Still no type in a session is ever left with the number of a layout that is
missing or unfinished: a resolution only takes away what it has added itself and has given to nobody,
and a restart takes away the types with the layouts.

## Main results

* `Offside.Session.covered_step`: a step that starts with tables that cover all types ends so,
  whether or not its item is accepted.
* `Offside.Session.safe_of_reachable`: nothing in a reachable session leads to a missing or an
  unfinished layout, and nothing that a check comes to.
-/

namespace Offside.Session

variable {s : Session}

/-- The tables cover the types of all functions and globals. -/
def Covered (s : Session) : Prop := (Context.topLevel s.types s.symbols).Covered

theorem covered_topLevel {types : TypeEnv} {symbols : Symbols} (closed : types.Closed [])
    (hsymbols : types.CoversAll symbols.types) : (Context.topLevel types symbols).Covered :=
  ⟨closed, hsymbols, List.forall_mem_nil _, fun _ h => nomatch h⟩

/-- Reading declares an alias, or a struct, or nothing, whether or not it succeeds. -/
theorem types_of_read {found : Option Item} {q : Parser} (read : s.atItem.parseItem = (found, q)) :
    q.types = s.types ∨ (∃ name target, q.types = s.types.declareAlias name target) ∨
      ∃ decl, q.types = s.types.declareStruct decl := by
  rw [← types_atItem]
  cases found with
  | none =>
    obtain ⟨name, target, -, htypes⟩ | htypes := (Parser.parseItem_none read).cases
    · exact .inr (.inl ⟨name, target, htypes⟩)
    · exact .inl htypes
  | some item =>
    have hdeclares := (Parser.parseItem_some read).1.declares
    cases hshape : item.shape with
    | typeAlias name target =>
      rw [hshape] at hdeclares
      exact .inr (.inl ⟨name, target, hdeclares⟩)
    | struct name =>
      rw [hshape] at hdeclares
      obtain ⟨-, decl, -, htypes⟩ := hdeclares
      exact .inr (.inr ⟨decl, htypes⟩)
    | function | external | statement =>
      rw [hshape] at hdeclares
      exact .inl hdeclares

/-- Reading an item touches no layout. -/
theorem covered_of_read (covered : s.Covered) {found : Option Item} {q : Parser}
    (read : s.atItem.parseItem = (found, q)) : (Context.topLevel q.types s.symbols).Covered := by
  obtain htypes | ⟨name, target, htypes⟩ | ⟨decl, htypes⟩ := types_of_read read
  · rw [htypes]
    exact covered
  · rw [htypes]
    exact covered_topLevel (covered.closed.declareAlias name target) covered.symbols
  · rw [htypes]
    have hsame : (s.types.declareStruct decl).layouts = s.types.layouts :=
      (TypeEnv.extends_declareStruct decl).layouts
    exact covered_topLevel (covered.closed.declareStruct decl)
      (covered.symbols.mono (Nat.le_of_eq (congrArg _ hsame.symm)))

theorem covered_step (covered : s.Covered) : s.step.2.Covered := by
  have hstepped := stepped_step s
  generalize s.step = outcome at *
  cases hstepped with
  | halted => exact covered
  | ended =>
    show (Context.topLevel s.atItem.types s.symbols).Covered
    rw [types_atItem]
    exact covered
  | unread q _ _ read =>
    rw [Covered, types_fail, symbols_fail]
    exact covered_of_read covered read
  | refused item q d c _ _ read checked =>
    rw [Covered, types_fail, symbols_fail]
    have hread := covered_of_read covered read
    have hextends := (covering_checkItem item _ hread).error checked
    exact covered_topLevel hextends.covered.closed (hread.symbols.mono hextends.more)
  | accepted item q c _ _ read checked =>
    have hextends := ((covering_checkItem item _ (covered_of_read covered read)).ok checked).1
    exact covered_topLevel hextends.covered.closed hextends.covered.symbols

/-- At the start there are no layouts and no types. -/
theorem covered_initial : (Context.topLevel .initial .empty).Covered :=
  covered_topLevel TypeEnv.unresolved_initial.closed (List.forall_mem_nil _)

theorem Reachable.covered (h : s.Reachable) : s.Covered := by
  induction h with
  | start lexer options => exact covered_initial
  | step _ ih => exact covered_step ih
  | restart _ lexer => exact covered_initial

/-- In every reachable session, and at every moment while its next item is checked, the numbers of
structs are those of finished layouts: in the fields of layouts, in the types of functions, of
globals and of variables in scope, and in the types of expressions. Nor is any other layout looked
at for the type of an expression. -/
theorem safe_of_reachable (reachable : s.Reachable) :
    (Context.topLevel s.types s.symbols).Safe ∧
      ∀ item q, s.atItem.parseItem = (some item, q) →
        ∀ moment ∈ item.moments (.initial q.types s.symbols), moment.toContext.Safe :=
  ⟨reachable.covered.safe, fun item _ read moment hmoment =>
    (item.covered_of_mem_moments (covered_of_read reachable.covered read) moment hmoment).safe⟩

/-- A session that starts over after a struct that cannot be read, and then declares one. -/
def declaredAgain : Session :=
  (((ofInput (.ofString "struct P:\n  next ptr[P]\n") ⟨.interactive, defaultPrompt⟩).after 1).restart
    (.ofInput (.ofString "struct P:\n  next: ptr[P]\np: ptr[P]\n"))).after 1

/-- The next item of that session. -/
def pointerToP : Item :=
  ⟨.statement (.declare ⟨0, ⟨3, 1⟩⟩ "p" (.pointer (.named "P")) none), ⟨3, 1⟩⟩

/-- The state in which it is checked: the struct is declared, and nothing is laid out yet. -/
def beforeP : CheckState :=
  .initial (TypeEnv.initial.declareStruct ⟨"P", [⟨"next", .pointer (.named "P")⟩], ⟨1, 1⟩⟩) .empty

/-- The parts of a declaration without an initializer, which can be compared where items cannot. -/
def declaration? : Option Item → Option (Tag × String × TypeExpr × Location)
  | some ⟨.statement (.declare tag name type none), place⟩ => some (tag, name, type, place)
  | _ => none

theorem eq_of_declaration? {found : Option Item} {tag : Tag} {name : String} {type : TypeExpr}
    {place : Location} (h : declaration? found = some (tag, name, type, place)) :
    found = some ⟨.statement (.declare tag name type none), place⟩ := by
  rw [declaration?.eq_def] at h
  split at h
  · cases h
    rfl
  · cases h

theorem exists_parseItem_declaredAgain :
    ∃ q, declaredAgain.atItem.parseItem = (some pointerToP, q) ∧ q.types = beforeP.types :=
  ⟨_, Prod.ext (eq_of_declaration? (by decide +kernel)) rfl, by decide +kernel⟩

/-- Its check lays out the struct, and declares a global with the number of the layout. -/
theorem safe_of_reachable_declaredAgain :
    declaredAgain.Reachable ∧ ∃ item q, declaredAgain.atItem.parseItem = (some item, q) ∧
      ∃ moment ∈ item.moments (.initial q.types declaredAgain.symbols),
        moment.symbols.types = [.pointer (.struct ⟨0⟩)] ∧ moment.types.Finished ⟨0⟩ := by
  have reachable : declaredAgain.Reachable :=
    Reachable.after (.restart (Reachable.after (.start _ _) 1) _) 1
  have hsymbols : declaredAgain.symbols = .empty := by decide +kernel
  obtain ⟨q, hparse, htypes⟩ := exists_parseItem_declaredAgain
  have hinitial : CheckState.initial q.types declaredAgain.symbols = beforeP := by
    rw [htypes, hsymbols]
    rfl
  have hmem : (checkItem pointerToP).after beforeP ∈
      pointerToP.moments (.initial q.types declaredAgain.symbols) := by
    rw [hinitial]
    exact List.mem_cons_of_mem _ List.mem_cons_self
  have hsafe := (safe_of_reachable reachable).2 pointerToP q hparse _ hmem
  have hglobal : ((checkItem pointerToP).after beforeP).symbols.types = [.pointer (.struct ⟨0⟩)] := by
    cbv
  exact ⟨reachable, pointerToP, q, hparse, _, hmem, hglobal,
    hsafe.symbols _ (hglobal ▸ List.mem_cons_self) ⟨0⟩ List.mem_cons_self⟩

end Offside.Session
