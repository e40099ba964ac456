import Offside.Proofs.Session.Covered
import Offside.Proofs.Typing.Scopes

/-!
# What an item publishes

A function, declared or external, is known by its signature to the items after it, and a variable
that is declared at the top level is known by its type. Nothing else that an item declares is known
after it, wherever it stands in the item: the parameters, the counters of loops and the variables of
bodies are gone with their scopes.

## Main definitions

* `Offside.TypeEnv.KeepsMeaning`: later tables in which types denote what they did.
* `Offside.Signature.Means`: a signature of what the types of a prototype denote.
* `Offside.Item.Shape.Publishes`: what an item adds to the functions and globals.

## Main results

* `Offside.publishes_of_checkItem`: what a check adds that succeeds.
* `Offside.Session.publishes_of_accepted`: so does the step that accepts the item.
-/

namespace Offside

open Check CheckState

/-! ### Types keep their meaning -/

/-- Later tables in which types denote what they did, if there are no unfinished layouts. -/
def TypeEnv.KeepsMeaning (env env' : TypeEnv) : Prop :=
  env.Closed [] → env'.Closed [] ∧ ∀ type r, env.Denotes type r → env'.Denotes type r

instance : TypeEnv.ResolveFrame TypeEnv.KeepsMeaning where
  refl _ closed := ⟨closed, fun _ _ h => h⟩
  trans _ _ _ h k closed := by
    obtain ⟨closed, keeps⟩ := h closed
    exact ⟨(k closed).1, fun type r hr => (k closed).2 type r (keeps type r hr)⟩
  resolve env type closed :=
    ⟨(closed.resolve type).1, fun _ _ h =>
      h.later (env.sameDecls_resolve type) fun _ _ => closed.rested.idOf?_resolve type⟩

/-- The types of the parameters and of the result are what the types that are written denote. -/
structure Signature.Means (env : TypeEnv) (proto : Prototype) (signature : Signature) : Prop where
  params : List.Forall₂ (fun param type => env.Denotes param.type type) proto.params
    signature.params
  result : env.Denotes proto.result signature.result

theorem Signature.Means.later {env env' : TypeEnv} {proto : Prototype} {signature : Signature}
    (h : signature.Means env proto) (keeps : ∀ type r, env.Denotes type r → env'.Denotes type r) :
    signature.Means env' proto :=
  ⟨h.params.imp fun _ _ => keeps _ _, keeps _ _ h.result⟩

section

variable {c d : CheckState}

theorem denotes_of_resolve {type : TypeExpr} {place : Location} {r : ResolvedType}
    (closed : c.types.Closed []) (h : (Check.resolve type place).run c = .ok r d) :
    d.types.Denotes type r := by
  have hresolve : Yields c (Check.resolve type place) (fun r d => d.types.Denotes type r)
      fun _ _ => True := by
    rw [Yields, Check.resolve]
    cases hanswer : (c.types.resolve type).answer with
    | error e => trivial
    | ok r => exact (closed.rested.appends_resolve hanswer).2
  exact hresolve.ok h

theorem denotes_of_resolveParams {place : Location} {params : List Binding}
    {types : List ResolvedType} (closed : c.types.Closed [])
    (h : (resolveParams place params).run c = .ok types d) :
    List.Forall₂ (fun param type => d.types.Denotes param.type type) params types := by
  induction params generalizing c types with
  | nil =>
    cases h
    exact .nil
  | cons param params ih =>
    rw [resolveParams] at h
    obtain ⟨type, c₁, hhead, h⟩ := exists_of_run_bind h
    obtain ⟨types, c₂, hrest, h⟩ := exists_of_run_bind h
    cases h
    have hfirst := ((ensures_resolve (R := Across TypeEnv.KeepsMeaning) param.type place c).ok
      hhead).1 closed
    have hlater := ((ensures_resolveParams (R := Across TypeEnv.KeepsMeaning) place params c₁).ok
      hrest).1 hfirst.1
    exact .cons (hlater.2 _ _ (denotes_of_resolve closed hhead)) (ih hfirst.1 hrest)

theorem means_of_resolveSignature {proto : Prototype} {signature : Signature}
    (closed : c.types.Closed []) (h : (resolveSignature proto).run c = .ok signature d) :
    signature.Means d.types proto := by
  obtain ⟨params, c₁, hparams, h⟩ := exists_of_run_bind h
  obtain ⟨result, c₂, hresult, h⟩ := exists_of_run_bind h
  cases h
  have hfirst := ((ensures_resolveParams (R := Across TypeEnv.KeepsMeaning) _ _ c).ok
    hparams).1 closed
  have hlater := ((ensures_resolve (R := Across TypeEnv.KeepsMeaning) _ _ c₁).ok hresult).1 hfirst.1
  exact ⟨(denotes_of_resolveParams closed hparams).imp fun _ _ => hlater.2 _ _,
    denotes_of_resolve hfirst.1 hresult⟩

/-! ### Items -/

/-- What an item adds to the functions and globals: a function its signature under its name, a
declaration at the top level its type, any other item nothing. -/
def Item.Shape.Publishes (types : TypeEnv) (before after : Symbols) : Item.Shape → Prop
  | .function proto _ | .external proto => ∃ signature : Signature,
    signature.Means types proto ∧
      after = { before with functions := before.functions.insert proto.name signature }
  | .statement (.declare _ name type _) => ∃ resolved, types.Denotes type resolved ∧
      after = { before with globals := before.globals.insert name resolved }
  | .statement _ | .typeAlias _ _ | .struct _ => after = before

/-- A scope that has been left, with what it bound in the end. -/
theorem exists_of_run_withScope {α : Type} {scope bound : Scope} {inside : Check α} {a : α}
    (h : (Check.withScope scope inside).run c = .ok (a, bound) d) :
    ∃ e, inside.run (c.enterScope scope) = .ok a e ∧ bound = e.scopes.headD Table.empty ∧
      d = { e with scopes := e.scopes.tail } := by
  rw [EStateM.run, Check.withScope] at h
  split at h
  · next e hinside =>
    cases h
    exact ⟨e, hinside, rfl, rfl⟩
  · cases h

/-- A declaration at the top level binds its own name, any other statement nothing. -/
theorem publishes_of_statement {stmt : Stmt} {bound : Scope} (closed : c.types.Closed [])
    (h : (Check.withScope Table.empty (checkStmt stmt)).run c = .ok ((), bound) d) :
    Item.Shape.Publishes d.types c.symbols
      { d.symbols with globals := d.symbols.globals.merge bound } (.statement stmt) := by
  obtain ⟨e, hstmt, rfl, rfl⟩ := exists_of_run_withScope h
  cases stmt with
  | declare tag name type init =>
    obtain ⟨resolved, hanswer, hscopes, hsymbols, htypes⟩ :=
      (yields_declare tag name type init rfl).ok hstmt
    refine ⟨resolved, ?_, ?_⟩
    · show e.types.Denotes type resolved
      rw [htypes]
      exact (closed.rested.appends_resolve hanswer).2
    · show { e.symbols with globals := e.symbols.globals.merge (e.scopes.headD Table.empty) } = _
      rw [hscopes, hsymbols]
      rfl
  | _ =>
    have hkeeps := ((keeps_checkStmt _ (by simp) _).ok hstmt).1
    show { e.symbols with globals := e.symbols.globals.merge (e.scopes.headD Table.empty) } = _
    rw [hkeeps.scopes, hkeeps.symbols]
    rfl

/-- A check that succeeds adds to the functions and globals what its item publishes. -/
theorem publishes_of_checkItem {item : Item} (closed : c.types.Closed [])
    (h : (checkItem item).run c = .ok () d) :
    item.shape.Publishes d.types c.symbols d.symbols := by
  rw [checkItem] at h
  cases hshape : item.shape with
  | function proto body =>
    rw [hshape] at h
    obtain ⟨signature, c₁, hsignature, h⟩ := exists_of_run_bind h
    obtain ⟨_, c₂, hbody, h⟩ := exists_of_run_bind h
    cases h
    have hinside {R : CheckState → CheckState → Prop} [ItemFrame R] : R c₁ c₂ := by
      have hscope :=
        ensures_withScope (ensures_checkSuite (R := R) body) (paramScope proto signature)
      exact ((ensures_withFunction (Q := fun _ => True)
        (ensures_bind hscope fun _ _ => ensures_pure trivial) _ _ c₁).ok hbody).1
    have hsymbols : c₂.symbols = c.symbols :=
      (hinside (R := SameSymbols)).trans
        ((ensures_resolveSignature (R := SameSymbols) proto c).ok hsignature).1
    have hfirst := ((ensures_resolveSignature (R := Across TypeEnv.KeepsMeaning) proto c).ok
      hsignature).1 closed
    have hlater := hinside (R := Across TypeEnv.KeepsMeaning) hfirst.1
    refine ⟨signature, (means_of_resolveSignature closed hsignature).later hlater.2, ?_⟩
    dsimp only
    rw [hsymbols]
  | external proto =>
    rw [hshape] at h
    obtain ⟨signature, c₁, hsignature, h⟩ := exists_of_run_bind h
    cases h
    have hsymbols : c₁.symbols = c.symbols :=
      ((ensures_resolveSignature (R := SameSymbols) proto c).ok hsignature).1
    have hmeans := means_of_resolveSignature closed hsignature
    refine ⟨signature, hmeans, ?_⟩
    dsimp only
    rw [hsymbols]
  | typeAlias name target =>
    rw [hshape] at h
    cases h
    rfl
  | struct name =>
    rw [hshape] at h
    cases h
    rfl
  | statement stmt =>
    rw [hshape] at h
    obtain ⟨⟨_, bound⟩, c₁, hstmt, h⟩ := exists_of_run_bind h
    cases h
    exact publishes_of_statement closed hstmt

end

namespace Session

variable {s : Session} {index : Nat}

/-- A step that accepts an item adds to the functions and globals what the item publishes, and
nothing else. -/
theorem publishes_of_accepted (reachable : s.Reachable) (accepted : s.step.1 = .item index) :
    ∃ item, s.step.2.items = s.items.push item ∧
      item.shape.Publishes s.step.2.types s.symbols s.step.2.symbols := by
  have hstepped := stepped_step s
  generalize s.step = outcome at *
  cases hstepped with
  | halted | ended => cases accepted
  | unread | refused => exact absurd (accepted.symm.trans (outcome_fail _)) Step.noConfusion
  | accepted item q c _ _ read checked =>
    exact ⟨item, rfl,
      publishes_of_checkItem (covered_of_read reachable.covered read).closed checked⟩

/-- A step accepts the item that it reads if its check succeeds. -/
theorem step_of_checked {item : Item} {q : Parser} {c : CheckState} (running : s.halted = false)
    (more : s.atItem.current.kind ≠ .endOfInput) (read : s.atItem.parseItem = (some item, q))
    (checked : (checkItem item).run (.initial q.types s.symbols) = .ok () c) :
    s.step = (.item s.items.size,
      { s with
        parser := (afterCheck q c).note (.itemAccepted item.location.line)
        symbols := c.symbols, items := s.items.push item }) := by
  have hchecked :
      (checkItem item).run (.initial (types { s with parser := q }) s.symbols) = .ok () c := checked
  rw [step, if_neg (by simp [running])]
  dsimp only
  rw [← atItem, if_neg more, read]
  dsimp only
  rw [check]
  dsimp only
  rw [hchecked]
  refine Prod.ext (congrArg Step.item ?_) rfl
  rw [Array.size_push, Nat.add_sub_cancel]

/-- A pointer to a struct that is not laid out yet passes, since an item that fails publishes
nothing. -/
theorem exists_run_pointerToP : ∃ c, (checkItem pointerToP).run beforeP = .ok () c := by
  have hsymbols : ((checkItem pointerToP).after beforeP).symbols =
      ⟨.empty, ⟨[("p", .pointer (.struct ⟨0⟩))]⟩⟩ := by cbv
  rw [Check.after] at hsymbols
  cases h : (checkItem pointerToP).run beforeP with
  | ok _ c => exact ⟨c, rfl⟩
  | error d c =>
    rw [h] at hsymbols
    exact absurd ((symbols_of_checkItem_error h).symm.trans hsymbols) (by decide)

theorem publishes_of_accepted_declaredAgain :
    declaredAgain.Reachable ∧ declaredAgain.step.1 = .item 1 ∧
      ∃ item, declaredAgain.step.2.items = declaredAgain.items.push item ∧
        item.shape.Publishes declaredAgain.step.2.types declaredAgain.symbols
          declaredAgain.step.2.symbols := by
  have reachable : declaredAgain.Reachable :=
    Reachable.after (.restart (Reachable.after (.start _ _) 1) _) 1
  obtain ⟨q, hread, htypes⟩ := exists_parseItem_declaredAgain
  obtain ⟨c, hcheck⟩ := exists_run_pointerToP
  have hsymbols : declaredAgain.symbols = .empty := by decide +kernel
  have hsize : declaredAgain.items.size = 1 := by decide +kernel
  have accepted : declaredAgain.step.1 = .item 1 := by
    rw [step_of_checked (by decide +kernel) (by decide +kernel) hread (c := c), hsize]
    rw [htypes, hsymbols]
    exact hcheck
  exact ⟨reachable, accepted, publishes_of_accepted reachable accepted⟩

end Session

end Offside
