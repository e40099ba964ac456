import Offside.Proofs.Tree.Nodes
import Offside.Proofs.Typing.Covered
import Offside.Proofs.Typing.Forgetting
import Offside.Proofs.Typing.Scopes

/-!
# What a variable stands for

The check of an item looks into the expressions in it, each in some state. These expressions are
listed here along the tree, next to their states and to the variables that are bound around them.

No expression is left out, the states know the binders, and if the item passes then each expression
was looked into without finding a contradiction. So a variable in an item has the type that its
binders give it.

## Main definitions

* `Offside.Look`: an expression that is looked into, with the binders around it.
* `Offside.Stmt.looks`, `Offside.Item.looks`: the expressions that a check looks into.

## Main results

* `Offside.Item.scoped_looks`: the states know the binders.
* `Offside.Item.nodes_looks`: no expression is left out.
* `Offside.Item.succeeds_looks`: what is known of them if the item passes.
* `Offside.Item.hint_of_mem_looks`: what is known of a variable.
* `Offside.Item.not_lexical`: where this is not what its innermost binder says.
-/

namespace Offside

open Check CheckState

/-! ### What a check looks into -/

/-- An expression that is looked into, the variables that are bound there, the innermost one first,
and the state in which the check comes to it. -/
structure Look where
  binders : List Binder
  state : CheckState
  expr : Expr

/-- There is no contradiction in the expression. -/
def Look.Succeeds (look : Look) : Prop := ∃ type, look.state.toContext.hint look.expr = .ok type

/-- Several expressions, next to each other. -/
def Look.each (binders : List Binder) (c : CheckState) (es : List Expr) : List Look :=
  es.map (⟨binders, c, ·⟩)

mutual

/-- The expressions in a statement that the check comes to in the state `c`. -/
def Stmt.looks (binders : List Binder) (c : CheckState) : Stmt → List Look
  | .expr _ value => Look.each binders c [value]
  | .declare tag _ type init => Look.each binders ((resolve type tag.location).after c) init.toList
  | .assign _ target value => Look.each binders c [target, value]
  | .ret _ value => Look.each binders c value.toList
  | .print _ args => Look.each binders c args
  | .branch _ condition thenSuite elseSuite =>
    Look.each binders c [condition] ++ thenSuite.looks binders c ++
      Suite.looksElse binders ((checkSuite thenSuite).after c) elseSuite
  | .forRange _ counter start stop step body =>
    let type := c.toContext.known start
    Look.each binders c ([start, stop] ++ step.toList) ++
      body.looks (⟨counter, type⟩ :: binders) (c.enterScope (counterScope counter type)).enterLoop
  | .whileLoop _ condition body =>
    Look.each binders c [condition] ++ body.looks binders c.enterLoop
  | .doWhile _ body condition =>
    body.looks binders c.enterLoop ++
      Look.each binders ((withLoop (checkSuite body)).after c) [condition]
  | .jump _ _ => []
  | .select _ scrutinee arms => Look.each binders c [scrutinee] ++ Arm.looksAll binders c arms

/-- The expressions in a body. -/
def Suite.looks (binders : List Binder) (c : CheckState) : Suite → List Look
  | .mk _ stmts => Stmt.looksAll binders (c.enterScope Table.empty) stmts

/-- The expressions in the other branch, if there is one. -/
def Suite.looksElse (binders : List Binder) (c : CheckState) : Option Suite → List Look
  | none => []
  | some suite => suite.looks binders c

/-- The expressions in several statements, each of which binds what it declares for those after
it. -/
def Stmt.looksAll (binders : List Binder) (c : CheckState) : List Stmt → List Look
  | [] => []
  | s :: ss =>
    s.looks binders c ++ Stmt.looksAll (s.declared c ++ binders) ((checkStmt s).after c) ss

/-- The expressions in cases. -/
def Arm.looksAll (binders : List Binder) (c : CheckState) : List Arm → List Look
  | [] => []
  | .mk _ pattern body :: arms =>
    Look.each binders c pattern.exprs ++ body.looks binders c ++
      Arm.looksAll binders ((checkSuite body).after c) arms

end

/-- The expressions in an item that the check comes to. -/
def Item.looks (c : CheckState) (item : Item) : List Look :=
  match item.shape with
  | .function proto body =>
    match (resolveSignature proto).run c with
    | .ok signature c =>
      body.looks (Binder.ofParams proto signature)
        ((c.enterFunction proto.name signature).enterScope (paramScope proto signature))
    | .error _ _ => []
  | .statement stmt => stmt.looks [] (c.enterScope Table.empty)
  | .external _ | .typeAlias _ _ | .struct _ => []

/-! ### Each in its scopes -/

/-- The state in which the check comes to the expression knows the binders there. -/
def Look.Scoped (globals : Table ResolvedType) (look : Look) : Prop :=
  look.state.Scoped globals look.binders

section

variable {globals : Table ResolvedType}

theorem Look.scoped_each {binders : List Binder} {c : CheckState} (h : c.Scoped globals binders)
    (es : List Expr) : ∀ look ∈ Look.each binders c es, look.Scoped globals :=
  List.forall_mem_map.2 fun _ _ => h

mutual

theorem Stmt.scoped_looks : (s : Stmt) → {binders : List Binder} → {c : CheckState} →
    c.Scoped globals binders → ∀ look ∈ s.looks binders c, look.Scoped globals
  | .expr _ _, _, _, h | .assign _ _ _, _, _, h | .ret _ _, _, _, h | .print _ _, _, _, h =>
    Look.scoped_each h _
  | .declare tag _ type _, _, c, h =>
    Look.scoped_each (h.congr (rel_after (ensures_resolve type tag.location) c)) _
  | .branch _ _ thenSuite elseSuite, _, c, h =>
    List.forall_mem_append.2 ⟨List.forall_mem_append.2
      ⟨Look.scoped_each h _, thenSuite.scoped_looks h⟩,
      Suite.scoped_looksElse elseSuite (h.congr (rel_after (keeps_checkSuite thenSuite) c))⟩
  | .forRange _ counter start _ _ body, _, c, h =>
    List.forall_mem_append.2 ⟨Look.scoped_each h _,
      body.scoped_looks (h.enterCounter counter (c.toContext.known start)).enterLoop⟩
  | .whileLoop _ _ body, _, _, h =>
    List.forall_mem_append.2 ⟨Look.scoped_each h _, body.scoped_looks h.enterLoop⟩
  | .doWhile _ body _, _, c, h =>
    List.forall_mem_append.2 ⟨body.scoped_looks h.enterLoop,
      Look.scoped_each (h.congr (rel_after (keeps_withLoop (keeps_checkSuite body)) c)) _⟩
  | .jump _ _, _, _, _ => List.forall_mem_nil _
  | .select _ _ arms, _, _, h =>
    List.forall_mem_append.2 ⟨Look.scoped_each h _, Arm.scoped_looksAll arms h⟩

theorem Suite.scoped_looks : (suite : Suite) → {binders : List Binder} → {c : CheckState} →
    c.Scoped globals binders → ∀ look ∈ suite.looks binders c, look.Scoped globals
  | .mk _ stmts, _, _, h => Stmt.scoped_looksAll stmts h.enterBody

theorem Suite.scoped_looksElse : (suite : Option Suite) → {binders : List Binder} →
    {c : CheckState} → c.Scoped globals binders →
      ∀ look ∈ Suite.looksElse binders c suite, look.Scoped globals
  | none, _, _, _ => List.forall_mem_nil _
  | some suite, _, _, h => suite.scoped_looks h

theorem Stmt.scoped_looksAll : (ss : List Stmt) → {binders : List Binder} → {c : CheckState} →
    c.Scoped globals binders → ∀ look ∈ Stmt.looksAll binders c ss, look.Scoped globals
  | [], _, _, _ => List.forall_mem_nil _
  | s :: ss, _, _, h =>
    List.forall_mem_append.2 ⟨s.scoped_looks h, Stmt.scoped_looksAll ss (h.after s)⟩

theorem Arm.scoped_looksAll : (arms : List Arm) → {binders : List Binder} → {c : CheckState} →
    c.Scoped globals binders → ∀ look ∈ Arm.looksAll binders c arms, look.Scoped globals
  | [], _, _, _ => List.forall_mem_nil _
  | .mk _ _ body :: arms, _, c, h =>
    List.forall_mem_append.2 ⟨List.forall_mem_append.2
      ⟨Look.scoped_each h _, body.scoped_looks h⟩,
      Arm.scoped_looksAll arms (h.congr (rel_after (keeps_checkSuite body) c))⟩

end

end

/-! ### No expression is left out -/

/-- The nodes of the expressions. -/
def Look.nodes (looks : List Look) : List Expr := looks.flatMap (·.expr.nodes)

theorem Look.nodes_append (looks more : List Look) :
    nodes (looks ++ more) = nodes looks ++ nodes more := List.flatMap_append

theorem Look.nodes_each (binders : List Binder) (c : CheckState) (es : List Expr) :
    nodes (each binders c es) = Expr.nodesAll es := by
  rw [nodes, each, List.flatMap_map, Expr.nodesAll_eq]

mutual

theorem Stmt.nodes_looks : (s : Stmt) → (binders : List Binder) → (c : CheckState) →
    Look.nodes (s.looks binders c) = s.inside.exprs
  | .expr _ _, _, _ | .declare _ _ _ _, _, _ | .assign _ _ _, _, _ | .ret _ _, _, _
  | .print _ _, _, _ => Look.nodes_each _ _ _
  | .branch _ _ thenSuite elseSuite, binders, c => by
    rw [Stmt.looks, Look.nodes_append, Look.nodes_append, Look.nodes_each, thenSuite.nodes_looks,
      Suite.nodes_looksElse elseSuite]
    rfl
  | .forRange _ _ _ _ _ body, _, _ | .whileLoop _ _ body, _, _ => by
    rw [Stmt.looks, Look.nodes_append, Look.nodes_each, body.nodes_looks]
    rfl
  | .doWhile _ body _, _, _ => by
    rw [Stmt.looks, Look.nodes_append, Look.nodes_each, body.nodes_looks]
    rfl
  | .jump _ _, _, _ => rfl
  | .select _ _ arms, _, _ => by
    rw [Stmt.looks, Look.nodes_append, Look.nodes_each, Arm.nodes_looksAll arms]
    rfl

theorem Suite.nodes_looks : (suite : Suite) → (binders : List Binder) → (c : CheckState) →
    Look.nodes (suite.looks binders c) = suite.nodes.exprs
  | .mk _ stmts, binders, c => Stmt.nodes_looksAll stmts binders (c.enterScope Table.empty)

theorem Suite.nodes_looksElse : (suite : Option Suite) → (binders : List Binder) →
    (c : CheckState) → Look.nodes (Suite.looksElse binders c suite) = (Suite.nodesElse suite).exprs
  | none, _, _ => rfl
  | some suite, binders, c => suite.nodes_looks binders c

theorem Stmt.nodes_looksAll : (ss : List Stmt) → (binders : List Binder) → (c : CheckState) →
    Look.nodes (Stmt.looksAll binders c ss) = (Stmt.nodesAll ss).exprs
  | [], _, _ => rfl
  | s :: ss, binders, c => by
    rw [Stmt.looksAll, Look.nodes_append, s.nodes_looks, Stmt.nodes_looksAll ss, Stmt.nodesAll]
    simp

theorem Arm.nodes_looksAll : (arms : List Arm) → (binders : List Binder) → (c : CheckState) →
    Look.nodes (Arm.looksAll binders c arms) = (Arm.nodesAll arms).exprs
  | [], _, _ => rfl
  | .mk _ _ body :: arms, _, _ => by
    rw [Arm.looksAll, Look.nodes_append, Look.nodes_append, Look.nodes_each, body.nodes_looks,
      Arm.nodes_looksAll arms]
    rfl

end

/-! ### Without a contradiction -/

section

variable {binders : List Binder} {c d : CheckState}

theorem succeeds_of_checkOptional {e : Option Expr} (h : (checkOptional e).run c = .ok () d) :
    ∀ look ∈ Look.each binders c e.toList, look.Succeeds := by
  cases e with
  | none => exact List.forall_mem_nil _
  | some e =>
    obtain ⟨type, htype, -⟩ := exists_run_of_hint h
    exact List.forall_mem_singleton.2 ⟨type, htype⟩

/-- The same in a sequence, which goes on in the same state. -/
theorem succeeds_of_checkOptional_bind {e : Option Expr} {f : Unit → Check Unit}
    (h : (checkOptional e >>= f).run c = .ok () d) :
    (∀ look ∈ Look.each binders c e.toList, look.Succeeds) ∧ (f ()).run c = .ok () d := by
  obtain ⟨_, _, he, -⟩ := exists_of_run_bind h
  exact ⟨succeeds_of_checkOptional he, run_of_checkOptional h⟩

theorem succeeds_of_hintAll {es : List Expr} (h : c.toContext.hintAll es = .ok ()) :
    ∀ look ∈ Look.each binders c es, look.Succeeds := by
  induction es with
  | nil => exact List.forall_mem_nil _
  | cons e es ih =>
    rw [Context.hintAll] at h
    obtain ⟨type, htype, h⟩ := exists_of_bind_ok h
    exact List.forall_mem_cons.2 ⟨⟨type, htype⟩, ih h⟩

/-- The values of cases are literals, which have types. -/
theorem succeeds_of_checkPattern {seen seen' : List Int} {pattern : Pattern}
    (h : (checkPattern seen pattern).run c = .ok seen' d) :
    d = c ∧ ∀ look ∈ Look.each binders c pattern.exprs, look.Succeeds := by
  cases pattern with
  | wildcard =>
    cases h
    exact ⟨rfl, List.forall_mem_nil _⟩
  | value e =>
    rw [checkPattern] at h
    split at h
    · cases h
    · next value hvalue =>
      have hsucceeds : ∀ look ∈ Look.each binders c [e], look.Succeeds := by
        obtain ⟨m, ⟨tag, rfl, -⟩ | ⟨tag, tag', rfl, -⟩⟩ := exists_of_caseConstant hvalue
        · exact List.forall_mem_singleton.2 ⟨_, rfl⟩
        · exact List.forall_mem_singleton.2 ⟨_, rfl⟩
      dsimp only at h
      split at h
      · cases h
      · cases h
        exact ⟨rfl, hsucceeds⟩

mutual

theorem Stmt.succeeds_looks : (s : Stmt) → {binders : List Binder} → {c d : CheckState} →
    (checkStmt s).run c = .ok () d → ∀ look ∈ s.looks binders c, look.Succeeds
  | .expr _ _, _, _, _, h | .ret _ _, _, _, _, h => by
    rw [checkStmt] at h
    exact succeeds_of_checkOptional h
  | .declare tag _ type _, _, _, _, h => by
    rw [checkStmt] at h
    obtain ⟨_, _, htype, h⟩ := exists_of_run_bind h
    rw [Stmt.looks, after_of_ok htype]
    exact (succeeds_of_checkOptional_bind h).1
  | .assign _ _ _, _, _, _, h => by
    rw [checkStmt] at h
    obtain ⟨htarget, h⟩ := succeeds_of_checkOptional_bind h
    exact List.forall_mem_append.2 ⟨htarget, succeeds_of_checkOptional h⟩
  | .print _ _, _, _, _, h => by
    rw [checkStmt, EStateM.run, hintAll] at h
    split at h
    · next hargs => exact succeeds_of_hintAll hargs
    · cases h
  | .branch _ _ thenSuite elseSuite, _, _, _, h => by
    rw [checkStmt] at h
    obtain ⟨hcondition, h⟩ := succeeds_of_checkOptional_bind h
    obtain ⟨_, _, hthen, helse⟩ := exists_of_run_bind h
    rw [Stmt.looks, after_of_ok hthen]
    exact List.forall_mem_append.2 ⟨List.forall_mem_append.2
      ⟨hcondition, thenSuite.succeeds_looks hthen⟩, Suite.succeeds_looksElse elseSuite helse⟩
  | .forRange _ _ start _ _ body, _, _, _, h => by
    rw [checkStmt] at h
    obtain ⟨type, htype, h⟩ := exists_run_of_hint h
    obtain ⟨hstop, h⟩ := succeeds_of_checkOptional_bind h
    obtain ⟨hstep, h⟩ := succeeds_of_checkOptional_bind h
    obtain ⟨_, hloop⟩ := exists_run_of_inScope h
    obtain ⟨_, hbody⟩ := exists_run_of_withLoop hloop
    rw [Stmt.looks, Context.known, htype]
    refine List.forall_mem_append.2 ⟨?_, body.succeeds_looks hbody⟩
    exact List.forall_mem_cons.2 ⟨⟨type, htype⟩, List.forall_mem_append.2 ⟨hstop, hstep⟩⟩
  | .whileLoop _ _ body, _, _, _, h => by
    rw [checkStmt] at h
    obtain ⟨hcondition, h⟩ := succeeds_of_checkOptional_bind h
    obtain ⟨_, hbody⟩ := exists_run_of_withLoop h
    exact List.forall_mem_append.2 ⟨hcondition, body.succeeds_looks hbody⟩
  | .doWhile _ body _, _, _, _, h => by
    rw [checkStmt] at h
    obtain ⟨_, _, hloop, hcondition⟩ := exists_of_run_bind h
    obtain ⟨_, hbody⟩ := exists_run_of_withLoop hloop
    rw [Stmt.looks, after_of_ok hloop]
    exact List.forall_mem_append.2
      ⟨body.succeeds_looks hbody, succeeds_of_checkOptional hcondition⟩
  | .jump _ _, _, _, _, _ => List.forall_mem_nil _
  | .select _ _ arms, _, _, _, h => by
    rw [checkStmt] at h
    obtain ⟨⟨type, htype, -⟩, h⟩ := run_of_checkScrutinee h
    exact List.forall_mem_cons.2 ⟨⟨type, htype⟩, Arm.succeeds_looksAll arms h⟩

theorem Suite.succeeds_looks : (suite : Suite) → {binders : List Binder} → {c d : CheckState} →
    (checkSuite suite).run c = .ok () d → ∀ look ∈ suite.looks binders c, look.Succeeds
  | .mk _ stmts, _, _, _, h => by
    rw [checkSuite] at h
    obtain ⟨_, hstmts⟩ := exists_run_of_inScope h
    exact Stmt.succeeds_looksAll stmts hstmts

theorem Suite.succeeds_looksElse : (suite : Option Suite) → {binders : List Binder} →
    {c d : CheckState} → (checkElse suite).run c = .ok () d →
      ∀ look ∈ Suite.looksElse binders c suite, look.Succeeds
  | none, _, _, _, _ => List.forall_mem_nil _
  | some suite, _, _, _, h => suite.succeeds_looks h

theorem Stmt.succeeds_looksAll : (ss : List Stmt) → {binders : List Binder} →
    {c d : CheckState} → (checkStmts ss).run c = .ok () d →
      ∀ look ∈ Stmt.looksAll binders c ss, look.Succeeds
  | [], _, _, _, _ => List.forall_mem_nil _
  | s :: ss, _, _, _, h => by
    rw [checkStmts] at h
    obtain ⟨_, _, hs, hss⟩ := exists_of_run_bind h
    rw [Stmt.looksAll, after_of_ok hs]
    exact List.forall_mem_append.2 ⟨s.succeeds_looks hs, Stmt.succeeds_looksAll ss hss⟩

theorem Arm.succeeds_looksAll : (arms : List Arm) → {seen : List Int} →
    {binders : List Binder} → {c d : CheckState} → (checkArms seen arms).run c = .ok () d →
      ∀ look ∈ Arm.looksAll binders c arms, look.Succeeds
  | [], _, _, _, _, _ => List.forall_mem_nil _
  | .mk _ _ body :: arms, _, _, _, _, h => by
    rw [checkArms] at h
    obtain ⟨_, _, hpattern, hrest⟩ := exists_of_run_bind h
    obtain ⟨rfl, hvalues⟩ := succeeds_of_checkPattern hpattern
    obtain ⟨_, _, hbody, harms⟩ := exists_of_run_bind hrest
    rw [Arm.looksAll, after_of_ok hbody]
    exact List.forall_mem_append.2 ⟨List.forall_mem_append.2
      ⟨hvalues, body.succeeds_looks hbody⟩, Arm.succeeds_looksAll arms harms⟩

end

end

/-! ### Items -/

/-- The check gets to what stands in the item, for which the types of a function have to resolve. -/
def Item.Entered (c : CheckState) (item : Item) : Prop :=
  match item.shape with
  | .function proto _ => ∃ signature d, (resolveSignature proto).run c = .ok signature d
  | .external _ | .typeAlias _ _ | .struct _ | .statement _ => True

theorem Item.scoped_looks (item : Item) (types : TypeEnv) (symbols : Symbols) :
    ∀ look ∈ item.looks (.initial types symbols), look.Scoped symbols.globals := by
  rw [looks]
  cases item.shape with
  | function proto body =>
    dsimp only
    cases h : (resolveSignature proto).run (.initial types symbols) with
    | error e d => exact List.forall_mem_nil _
    | ok signature d =>
      have hsame := ((ensures_resolveSignature (R := SameScopes) proto _).ok h).1
      refine body.scoped_looks ?_
      rw [← List.append_nil (Binder.ofParams proto signature)]
      refine scoped_enterScope _ (fun name => ?_) (congrArg (·.globals) hsame.symbols)
        (get?_paramScope proto signature)
      exact congrArg (·.findSome? (·.get? name)) hsame.scopes
  | statement stmt =>
    exact stmt.scoped_looks (scoped_enterScope [] (fun _ => rfl) rfl fun _ => rfl)
  | external | typeAlias | struct => exact List.forall_mem_nil _

section

variable {item : Item} {c d : CheckState}

theorem Item.nodes_looks (h : item.Entered c) : Look.nodes (item.looks c) = item.nodes.exprs := by
  rw [looks, nodes]
  rw [Entered] at h
  cases hshape : item.shape with
  | function proto body =>
    rw [hshape] at h
    obtain ⟨signature, d, hsignature⟩ := h
    dsimp only
    rw [hsignature]
    exact body.nodes_looks _ _
  | statement stmt => exact (stmt.nodes_looks _ _).trans (List.append_nil _).symm
  | external | typeAlias | struct => rfl

theorem Item.succeeds_looks (h : (checkItem item).run c = .ok () d) :
    item.Entered c ∧ ∀ look ∈ item.looks c, look.Succeeds := by
  rw [Entered, looks]
  rw [checkItem] at h
  cases hshape : item.shape with
  | function proto body =>
    rw [hshape] at h
    obtain ⟨signature, _, hsignature, h⟩ := exists_of_run_bind h
    obtain ⟨_, _, hfunction, -⟩ := exists_of_run_bind h
    obtain ⟨_, hscope⟩ := exists_run_of_withFunction hfunction
    obtain ⟨_, hbody⟩ := exists_run_of_inScope hscope
    dsimp only
    rw [hsignature]
    exact ⟨⟨signature, _, rfl⟩, body.succeeds_looks hbody⟩
  | statement stmt =>
    rw [hshape] at h
    obtain ⟨_, _, hscope, -⟩ := exists_of_run_bind h
    obtain ⟨_, hstmt⟩ := exists_run_of_withScope hscope
    exact ⟨trivial, stmt.succeeds_looks hstmt⟩
  | external | typeAlias | struct => exact ⟨trivial, List.forall_mem_nil _⟩

end

/-- A variable in an item has the type that the innermost of its binders gives it, or a global if it
has none, unless the type of that binder is unknown: then it has the type of the next one that has a
known type, or of a global. All variables in an item that passes are looked up so. -/
theorem Item.hint_of_mem_looks (item : Item) (types : TypeEnv) (symbols : Symbols) :
    (∀ look ∈ item.looks (.initial types symbols), ∀ tag name, .var tag name ∈ look.expr.nodes →
      look.state.toContext.hint (.var tag name) =
          .ok (Binder.seen? symbols.globals look.binders name) ∧
        ((∀ b ∈ look.binders.find? fun b => b.name = name, b.type ≠ none) →
          look.state.toContext.hint (.var tag name) =
            .ok (Binder.lexical? symbols.globals look.binders name))) ∧
      (item.Entered (.initial types symbols) →
        Look.nodes (item.looks (.initial types symbols)) = item.nodes.exprs) ∧
      ∀ d, (checkItem item).run (.initial types symbols) = .ok () d →
        item.Entered (.initial types symbols) ∧
          ∀ look ∈ item.looks (.initial types symbols), look.Succeeds := by
  refine ⟨fun look hlook tag name _ => ?_, nodes_looks, fun d => succeeds_looks⟩
  have hseen := (item.scoped_looks types symbols look hlook).hint_var tag name
  refine ⟨hseen, fun hknown => ?_⟩
  rw [hseen, Binder.seen?_eq_lexical? hknown]

/-- A function of `p : ptr[i32]` that counts `p` from `start` and compares it with a number. -/
def countingP (start : Expr) : Item :=
  comparingBody (varNamed "p") fun body =>
    .mk ⟨1, 1⟩ [.forRange ⟨0, ⟨1, 1⟩⟩ "p" start start none body]

/-- The number 1. -/
def numberOne : Expr := .number ⟨0, ⟨1, 1⟩⟩ (.int 1)

theorem Item.hint_of_mem_looks_counter :
    (∃ look ∈ (countingP numberOne).looks (.initial .initial .empty),
        varNamed "p" ∈ look.expr.nodes ∧
          look.state.toContext.hint (varNamed "p") = .ok (some (.int 64 true))) ∧
      Look.nodes ((countingP numberOne).looks (.initial .initial .empty)) =
        (countingP numberOne).nodes.exprs ∧
      (∃ d, (checkItem (countingP numberOne)).run (.initial .initial .empty) = .ok () d) ∧
        ∀ look ∈ (countingP numberOne).looks (.initial .initial .empty), look.Succeeds := by
  obtain ⟨hhint, hnodes, hpasses⟩ := hint_of_mem_looks (countingP numberOne) .initial .empty
  have hlook : ((countingP numberOne).looks (.initial .initial .empty))[2]?.map
      (fun look => (look.expr, look.binders)) =
        some (varNamed "p", [⟨"p", some (.int 64 true)⟩, ⟨"p", some (.pointer (.int 32 true))⟩]) := by
    cbv
  have haccepts : accepts .initial .empty (countingP numberOne) = true := by cbv
  obtain ⟨d, hrun⟩ := exists_ok_of_accepts haccepts
  obtain ⟨hentered, hsucceeds⟩ := hpasses d hrun
  refine ⟨?_, hnodes hentered, ⟨d, hrun⟩, hsucceeds⟩
  obtain ⟨⟨binders, state, expr⟩, hget, hlook⟩ := Option.map_eq_some_iff.1 hlook
  cases hlook
  have hmem := List.mem_of_getElem? hget
  have hexpr : varNamed "p" ∈ (varNamed "p").nodes := List.mem_singleton.2 rfl
  exact ⟨_, hmem, hexpr, (hhint _ hmem _ _ hexpr).2 (by simp)⟩

/-- Where the start of a counting loop has no known type, a parameter is seen in place of the
counter. -/
theorem Item.not_lexical :
    ¬ ∀ (item : Item) (types : TypeEnv) (symbols : Symbols),
      ∀ look ∈ item.looks (.initial types symbols), ∀ tag name, .var tag name ∈ look.expr.nodes →
        look.state.toContext.hint (.var tag name) =
          .ok (Binder.lexical? symbols.globals look.binders name) := by
  intro h
  have hlook : ((countingP (varNamed "x")).looks (.initial .initial .empty))[2]?.map
      (fun look => (look.expr, look.binders)) =
        some (varNamed "p", [⟨"p", none⟩, ⟨"p", some (.pointer (.int 32 true))⟩]) := by
    cbv
  obtain ⟨⟨binders, state, expr⟩, hget, hlook⟩ := Option.map_eq_some_iff.1 hlook
  cases hlook
  have hmem := List.mem_of_getElem? hget
  have hlexical := h _ _ _ _ hmem _ "p" (List.mem_singleton.2 rfl)
  have hseen := ((countingP (varNamed "x")).scoped_looks .initial .empty _ hmem).hint_var
    ⟨0, ⟨1, 1⟩⟩ "p"
  rw [hseen] at hlexical
  cases hlexical

end Offside
