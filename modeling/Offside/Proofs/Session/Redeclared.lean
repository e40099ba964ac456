import Offside.Proofs.Session.Declarations
import Offside.Proofs.Session.Symbols
import Offside.Proofs.Types.Fresh

/-!
# Aliases that are declared again

An alias that is declared again has its new target in all types that are resolved from then on, but
for the structs that have been laid out: a layout stays as it is, with the types that its fields had
when it was made. So a session answers as new tables with the declarations in force do for the types
that reach no such layout, and for no other type that resolves.

## Main results

* `Offside.Session.exists_declared_of_step`: a step declares at most once, and then resolves types.
* `Offside.Session.Reachable.outdated_step`, `Offside.Session.Reachable.outdated_after`: how a
  layout comes to be out of date.
* `Offside.Session.asFresh_of_reachable`: which types are resolved as in new tables.
-/

namespace Offside.Session

variable {s : Session} {item : Item} {q : Parser} {id : StructId}

/-- A step declares an alias, or a struct, or nothing, and all else that it does to the tables is to
resolve types. -/
theorem exists_declared_of_step (R : TypeEnv → TypeEnv → Prop) [TypeEnv.ResolveFrame R]
    (s : Session) :
    ∃ declared, (declared = s.types ∨ (∃ name target, declared = s.types.declareAlias name target) ∨
      ∃ decl, declared = s.types.declareStruct decl) ∧ R declared s.step.2.types := by
  have hstepped := stepped_step s
  generalize s.step = outcome at *
  cases hstepped with
  | halted => exact ⟨s.types, .inl rfl, refl_of R _⟩
  | ended => exact ⟨s.types, .inl rfl, (types_atItem s).symm ▸ refl_of R _⟩
  | unread q _ _ read =>
    rw [types_fail]
    exact ⟨q.types, types_of_read read, refl_of R _⟩
  | refused item q d c _ _ read checked =>
    rw [types_fail]
    exact ⟨q.types, types_of_read read, (ensures_checkItem (R := R) item _).error checked⟩
  | accepted item q c _ _ read checked =>
    exact ⟨q.types, types_of_read read, ((ensures_checkItem (R := R) item _).ok checked).1⟩

/-- Declarations are calls. -/
theorem reachable_of_declared {env declared : TypeEnv} (reachable : env.Reachable)
    (h : declared = env ∨ (∃ name target, declared = env.declareAlias name target) ∨
      ∃ decl, declared = env.declareStruct decl) : declared.Reachable := by
  obtain rfl | ⟨name, target, rfl⟩ | ⟨decl, rfl⟩ := h
  · exact reachable
  · exact .call reachable (.declareAlias name target)
  · exact .call reachable (.declareStruct decl)

theorem Reachable.types (reachable : s.Reachable) : s.types.Reachable := by
  induction reachable with
  | start lexer options => exact .initial
  | step _ ih =>
    obtain ⟨declared, hdeclared, hrenews⟩ := exists_declared_of_step TypeEnv.Renews _
    exact (hrenews (reachable_of_declared ih hdeclared)).1
  | restart _ lexer => exact .initial

/-- The tables at every moment while an item is checked are those with which it has been read, and
layouts besides. -/
theorem Reachable.advances_of_mem_moments (reachable : s.Reachable)
    (read : s.atItem.parseItem = (some item, q)) :
    ∀ moment ∈ item.moments (.initial q.types s.symbols), moment.types.Reachable ∧
      q.types.Advances q.types.structs.names moment.types :=
  fun moment hmoment => item.along_of_mem_moments (c := .initial q.types s.symbols)
    (refl_of TypeEnv.Renews q.types) moment hmoment
    (reachable_of_declared reachable.types (types_of_read read))

/-- A layout is out of date after a step if it was before it, or if the step gives an alias that its
struct reaches another target. -/
theorem Reachable.outdated_step (reachable : s.Reachable) (h : s.step.2.types.Outdated id) :
    s.types.Outdated id ∨ s.types.Redirects s.step.2.types id := by
  obtain ⟨declared, hdeclared, hrenews⟩ := exists_declared_of_step TypeEnv.Renews s
  obtain ⟨-, hadvances⟩ := hrenews (reachable_of_declared reachable.types hdeclared)
  have houtdated := hadvances.outdated h
  obtain rfl | ⟨name, target, rfl⟩ | ⟨decl, rfl⟩ := hdeclared
  · exact .inl houtdated
  · have hsame := hadvances.decls
    -- After the step the alias is declared, so no struct has its name.
    have hnew : (s.step.2.types.alias? name).isSome := by
      rw [hsame.alias?, TypeEnv.alias?_declareAlias, if_pos rfl]
      rfl
    have hunused : s.types.hasStruct name = false :=
      (hsame.hasStruct name).symm.trans ((Reachable.step reachable).orderly.apart name hnew)
    exact (houtdated.declareAlias hunused fun other decl hdecl =>
      reachable.orderly.alias?_eq_none hdecl).imp_right (·.later hsame)
  · exact .inl houtdated.declareStruct

/-- So it is after many steps. -/
theorem Reachable.outdated_after (reachable : s.Reachable) (n : Nat)
    (h : (s.after n).types.Outdated id) :
    s.types.Outdated id ∨
      ∃ k < n, (s.after k).types.Redirects (s.after (k + 1)).types id := by
  induction n with
  | zero => exact .inl h
  | succ n ih =>
    rw [after_succ] at h
    obtain hbefore | hstep := (Reachable.after reachable n).outdated_step h
    · refine (ih hbefore).imp_right ?_
      rintro ⟨k, hk, hredirects⟩
      exact ⟨k, Nat.lt_succ_of_lt hk, hredirects⟩
    · exact .inr ⟨n, Nat.lt_succ_self n, hstep⟩

/-- At every moment while the next item of a session is checked, types that reach no layout out of
date are resolved as in new tables that declare the same, and no other type that resolves is. A
check makes no layout out of date, and steps do so only by giving an alias that the struct of a
finished layout reaches another target. -/
theorem asFresh_of_reachable (reachable : s.Reachable) :
    (∀ item q, s.atItem.parseItem = (some item, q) →
      ∀ moment ∈ item.moments (.initial q.types s.symbols),
        (∀ fresh : TypeEnv, fresh.SameDecls moment.types → fresh.Unresolved → ∀ type,
          (moment.types.Current type → moment.types.AsFresh fresh type) ∧
            ∀ r, (moment.types.resolve type).answer = .ok r →
              moment.types.AsFresh fresh type → moment.types.Current type) ∧
        ∀ id, moment.types.Outdated id → q.types.Outdated id) ∧
    ∀ n id, (s.after n).types.Outdated id → s.types.Outdated id ∨
      ∃ k < n, (s.after k).types.Redirects (s.after (k + 1)).types id := by
  refine ⟨fun item q read moment hmoment => ?_, fun n id => reachable.outdated_after n⟩
  obtain ⟨hreachable, hadvances⟩ := reachable.advances_of_mem_moments read moment hmoment
  refine ⟨fun fresh same unresolved type => ⟨hreachable.asFresh same unresolved, fun r hr => ?_⟩,
    fun id => hadvances.outdated⟩
  exact hreachable.current same unresolved hr

/-- A session that gives an alias another target between two uses of a struct, and then indexes a
field that has the alias as its type. -/
def retargeted : Session :=
  ofInput
    (.ofString "type T = i32\nstruct S:\n  x: T\na: S\ntype T = ptr[i32]\nb: S\nb.x[0]\n")
    ⟨.file, defaultPrompt⟩

/-- A use of the struct. -/
def useOfS (node line : Nat) (name : String) : Item :=
  ⟨.statement (.declare ⟨node, ⟨line, 1⟩⟩ name (.named "S") none), ⟨line, 1⟩⟩

/-- New tables that declare the alias, with the target, and the struct. -/
def newTables (target : TypeExpr) : TypeEnv :=
  (TypeEnv.initial.declareAlias "T" target).declareStruct ⟨"S", [⟨"x", .named "T"⟩], ⟨2, 1⟩⟩

theorem unresolved_newTables (target : TypeExpr) : (newTables target).Unresolved :=
  (TypeEnv.unresolved_initial.declareAlias _ _).declareStruct _

/-- The tables after the first use. -/
def laidOut : TypeEnv :=
  { TypeEnv.initial.declareAlias "T" (.builtin .i32) with
    structs := ⟨[("S", ⟨⟨"S", [⟨"x", .named "T"⟩], ⟨2, 1⟩⟩, some ⟨0⟩⟩)]⟩
    layouts := #[⟨"S", [⟨"x", .int 32 true, 0⟩], 4, 4, true⟩] }

/-- The state in which the check of the first use ends. -/
def afterUse : CheckState :=
  ⟨⟨laidOut, ⟨.empty, ⟨[("a", .struct ⟨0⟩)]⟩⟩, [], none⟩, 0, [.structLaidOut "S" 4 4]⟩

theorem exists_parseItem_firstUse :
    ∃ q, (retargeted.after 2).atItem.parseItem = (some (useOfS 0 4 "a"), q) ∧
      (checkItem (useOfS 0 4 "a")).run (.initial q.types (retargeted.after 2).symbols) =
        .ok () afterUse := by
  refine ⟨_, Prod.ext (eq_of_declaration? (by decide +kernel)) rfl, ?_⟩
  have htypes : (retargeted.after 2).atItem.parseItem.2.types = newTables (.builtin .i32) := by
    decide +kernel
  have hsymbols : (retargeted.after 2).symbols = .empty := by decide +kernel
  rw [htypes, hsymbols]
  cbv

/-- The tables when the struct is used again: the layout is still the one of before. -/
theorem exists_parseItem_secondUse :
    ∃ q, (retargeted.after 4).atItem.parseItem = (some (useOfS 1 6 "b"), q) ∧
      q.types = laidOut.declareAlias "T" (.pointer (.builtin .i32)) ∧
        (retargeted.after 4).types = q.types := by
  obtain ⟨q, hread, hchecked⟩ := exists_parseItem_firstUse
  have hstep := step_of_checked (by decide +kernel) (by decide +kernel) hread hchecked
  obtain rfl : (retargeted.after 2).atItem.parseItem.2 = q := congrArg Prod.snd hread
  rw [after_succ, after_succ, hstep]
  exact ⟨_, Prod.ext (eq_of_declaration? (by decide +kernel)) rfl, by decide +kernel⟩

theorem current_laidOut (type : TypeExpr) : laidOut.Current type := by
  intro name id _ hid
  have hfirst : id = ⟨0⟩ := by
    simp only [TypeEnv.idOf?, laidOut, Table.get?, Table.get?.find] at hid
    split at hid
    · exact (Option.some.inj hid).symm
    · cases hid
  rw [hfirst]
  exact ⟨_, rfl, .cons ⟨rfl, .builtin .i32, .target rfl (.builtin _), rfl⟩ .nil⟩

theorem outdated_laidOut :
    (laidOut.declareAlias "T" (.pointer (.builtin .i32))).Outdated ⟨0⟩ := by
  refine ⟨⟨by decide, by decide⟩, ?_⟩
  rintro ⟨decl, hdecl, hfits⟩
  cases hdecl
  obtain ⟨-, u, hu, hr⟩ := (List.forall₂_cons.1 hfits).1
  obtain rfl := hu.unique (.target rfl (.pointer (.builtin _)))
  cases hr

theorem reachable_retargeted (n : Nat) : (retargeted.after n).Reachable :=
  Reachable.after (.start _ _) n

theorem asFresh_of_reachable_retargeted :
    (retargeted.after 2).Reachable ∧
      (∃ item q, (retargeted.after 2).atItem.parseItem = (some item, q) ∧
        ∃ moment ∈ item.moments (.initial q.types (retargeted.after 2).symbols),
          moment.types = laidOut ∧
            moment.types.AsFresh (newTables (.builtin .i32)) (.named "S")) ∧
      retargeted.Reachable ∧ (retargeted.after 4).types.Outdated ⟨0⟩ ∧
        ∃ k < 4, (retargeted.after k).types.Redirects (retargeted.after (k + 1)).types ⟨0⟩ := by
  obtain ⟨q, hread, hchecked⟩ := exists_parseItem_firstUse
  obtain ⟨_, -, htypes, hsame⟩ := exists_parseItem_secondUse
  obtain ⟨moment, hmem, hafter⟩ : ∃ moment ∈ (useOfS 0 4 "a").moments
      (.initial q.types (retargeted.after 2).symbols), moment.types = laidOut := by
    refine ⟨_, List.mem_cons_of_mem _ List.mem_cons_self, ?_⟩
    rw [Check.after, hchecked]
    rfl
  have hnothing : ¬ retargeted.types.Outdated ⟨0⟩ := fun h => absurd h.1.1 (by decide)
  have houtdated : (retargeted.after 4).types.Outdated ⟨0⟩ := by
    rw [hsame, htypes]
    exact outdated_laidOut
  refine ⟨reachable_retargeted 2, ⟨_, q, hread, moment, hmem, hafter, ?_⟩, reachable_retargeted 0,
    houtdated, ?_⟩
  · refine (((asFresh_of_reachable (reachable_retargeted 2)).1 _ q hread _ hmem).1
      (newTables (.builtin .i32)) ?_ (unresolved_newTables _) (.named "S")).1 ?_
    · rw [hafter]
      exact ⟨rfl, rfl⟩
    · rw [hafter]
      exact current_laidOut _
  · exact ((asFresh_of_reachable (reachable_retargeted 0)).2 4 ⟨0⟩ houtdated).resolve_left hnothing

/-- The second use of the struct gets the layout of the first one. -/
theorem not_asFresh_retargeted :
    (retargeted.after 4).Reachable ∧
      ∃ q, (retargeted.after 4).atItem.parseItem = (some (useOfS 1 6 "b"), q) ∧
        ∃ moment ∈ (useOfS 1 6 "b").moments (.initial q.types (retargeted.after 4).symbols),
          let fresh := newTables (.pointer (.builtin .i32))
          fresh.SameDecls moment.types ∧ fresh.Unresolved ∧
            (moment.types.resolve (.named "S")).answer = .ok (.struct ⟨0⟩) ∧
              ¬ moment.types.AsFresh fresh (.named "S") := by
  obtain ⟨q, hread, htypes, hsame⟩ := exists_parseItem_secondUse
  have hreachable : q.types.Reachable := hsame ▸ (reachable_retargeted 4).types
  have houtdated : q.types.Outdated ⟨0⟩ := by
    rw [htypes]
    exact outdated_laidOut
  have hdecls : (newTables (.pointer (.builtin .i32))).SameDecls q.types := by
    rw [htypes]
    exact ⟨rfl, rfl⟩
  have hanswer : (q.types.resolve (.named "S")).answer = .ok (.struct ⟨0⟩) := by
    rw [htypes]
    cbv
  refine ⟨reachable_retargeted 4, q, hread, _, List.mem_cons_self, hdecls, unresolved_newTables _,
    hanswer, fun h => houtdated.2 ?_⟩
  have hcurrent := hreachable.current hdecls (unresolved_newTables _) hanswer h
  refine hcurrent "S" ⟨0⟩ ⟨.refl, ?_⟩ ?_
  · rw [htypes]
    rfl
  · rw [htypes]
    rfl

end Offside.Session
