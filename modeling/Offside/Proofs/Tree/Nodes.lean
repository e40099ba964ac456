import Mathlib.Order.Defs.Unbundled
import Offside.Proofs.Tree.Places

/-!
# The nodes of a tree

Reading finishes the nodes of a tree from left to right, each after those below it. This is the
order in which they are listed here, once for each path that leads to them from the root.

## Main definitions

* `Offside.Nodes`: expressions and statements, each sort in order.
* `Offside.Expr.nodes`, `Offside.Stmt.nodes`, `Offside.Item.nodes`: the nodes of a tree.
* `Offside.Expr.children`, `Offside.Stmt.exprs`, `Offside.Stmt.children`: the nodes right below one.
* `Offside.Nodes.Whole`: with each node those below it.

## Main results

* `Offside.Item.whole_nodesAll`: the nodes of several items are whole.
* `Offside.Item.mem_stmts_nodes`: the statements among the nodes of an item are those inside it.
-/

namespace Offside

/-! ### Expressions -/

/-- The expressions right below an expression, from left to right. -/
def Expr.children : Expr → List Expr
  | .number _ _ | .var _ _ => []
  | .addressOf _ e | .member _ e _ | .unary _ _ e => [e]
  | .index _ left right | .binary _ _ left right => [left, right]
  | .call _ _ args => args

mutual

/-- The nodes of an expression. -/
def Expr.nodes (e : Expr) : List Expr :=
  (match e with
    | .number _ _ | .var _ _ => []
    | .addressOf _ e | .member _ e _ | .unary _ _ e => e.nodes
    | .index _ left right | .binary _ _ left right => left.nodes ++ right.nodes
    | .call _ _ args => Expr.nodesAll args) ++ [e]

/-- The nodes of several expressions. -/
def Expr.nodesAll : List Expr → List Expr
  | [] => []
  | e :: es => e.nodes ++ Expr.nodesAll es

end

theorem Expr.nodesAll_eq (es : List Expr) : nodesAll es = es.flatMap nodes := by
  induction es with
  | nil => rfl
  | cons e es ih => rw [nodesAll, ih, List.flatMap_cons]

/-- A node is finished after those below it. -/
theorem Expr.nodes_eq (e : Expr) : e.nodes = nodesAll e.children ++ [e] := by
  cases e <;> simp [nodes, children, nodesAll]

/-! ### Nodes of both sorts -/

/-- Expressions and statements, each sort in the order in which they are finished. -/
@[ext]
structure Nodes where
  exprs : List Expr
  stmts : List Stmt

namespace Nodes

/-- No node. -/
def empty : Nodes := ⟨[], []⟩

instance : Append Nodes := ⟨fun m n => ⟨m.exprs ++ n.exprs, m.stmts ++ n.stmts⟩⟩

/-- The nodes of expressions. -/
def ofExprs (es : List Expr) : Nodes := ⟨Expr.nodesAll es, []⟩

variable {l m n : Nodes}

@[simp] theorem exprs_empty : empty.exprs = [] := rfl

@[simp] theorem stmts_empty : empty.stmts = [] := rfl

@[simp] theorem exprs_append (m n : Nodes) : (m ++ n).exprs = m.exprs ++ n.exprs := rfl

@[simp] theorem stmts_append (m n : Nodes) : (m ++ n).stmts = m.stmts ++ n.stmts := rfl

@[simp] theorem exprs_ofExprs (es : List Expr) : (ofExprs es).exprs = Expr.nodesAll es := rfl

@[simp] theorem stmts_ofExprs (es : List Expr) : (ofExprs es).stmts = [] := rfl

@[simp] theorem append_empty (n : Nodes) : n ++ empty = n := by
  ext <;> simp

@[simp] theorem empty_append (n : Nodes) : empty ++ n = n := rfl

theorem append_assoc (l m n : Nodes) : l ++ m ++ n = l ++ (m ++ n) := by
  ext1
  · exact List.append_assoc l.exprs m.exprs n.exprs
  · exact List.append_assoc l.stmts m.stmts n.stmts

@[simp] theorem ofExprs_nil : ofExprs [] = empty := rfl

theorem ofExprs_append (es fs : List Expr) : ofExprs (es ++ fs) = ofExprs es ++ ofExprs fs := by
  ext1
  · simp [Expr.nodesAll_eq]
  · rfl

theorem ofExprs_cons (e : Expr) (es : List Expr) :
    ofExprs (e :: es) = ofExprs [e] ++ ofExprs es := ofExprs_append [e] es

/-- A node is finished after those below it. -/
theorem ofExprs_singleton (e : Expr) : ofExprs [e] = ofExprs e.children ++ ⟨[e], []⟩ := by
  ext1
  · simp [Expr.nodesAll, e.nodes_eq]
  · rfl

/-- The nodes `m` are among the nodes `n`, in the same order. -/
structure Within (m n : Nodes) : Prop where
  exprs : m.exprs.Sublist n.exprs
  stmts : m.stmts.Sublist n.stmts

instance : IsPreorder Nodes Within where
  refl _ := ⟨.refl _, .refl _⟩
  trans _ _ _ h k := ⟨h.exprs.trans k.exprs, h.stmts.trans k.stmts⟩

theorem within_append_left (m n : Nodes) : m.Within (m ++ n) :=
  ⟨List.sublist_append_left _ _, List.sublist_append_left _ _⟩

theorem within_append_right (m n : Nodes) : n.Within (m ++ n) :=
  ⟨List.sublist_append_right _ _, List.sublist_append_right _ _⟩

end Nodes

/-! ### Statements and items -/

mutual

/-- The nodes of a statement but for the statement itself. -/
def Stmt.inside : Stmt → Nodes
  | .expr _ value => .ofExprs [value]
  | .declare _ _ _ init => .ofExprs init.toList
  | .assign _ target value => .ofExprs [target, value]
  | .ret _ value => .ofExprs value.toList
  | .print _ args => .ofExprs args
  | .branch _ condition thenSuite elseSuite =>
    .ofExprs [condition] ++ thenSuite.nodes ++ Suite.nodesElse elseSuite
  | .forRange _ _ start stop step body => .ofExprs ([start, stop] ++ step.toList) ++ body.nodes
  | .whileLoop _ condition body => .ofExprs [condition] ++ body.nodes
  | .doWhile _ body condition => body.nodes ++ .ofExprs [condition]
  | .jump _ _ => .empty
  | .select _ scrutinee arms => .ofExprs [scrutinee] ++ Arm.nodesAll arms

/-- The nodes of a body. -/
def Suite.nodes : Suite → Nodes
  | .mk _ stmts => Stmt.nodesAll stmts

/-- The nodes of the other branch, if there is one. -/
def Suite.nodesElse : Option Suite → Nodes
  | none => .empty
  | some suite => suite.nodes

/-- The nodes of several statements. -/
def Stmt.nodesAll : List Stmt → Nodes
  | [] => .empty
  | s :: ss => s.inside ++ ⟨[], [s]⟩ ++ Stmt.nodesAll ss

/-- The nodes of cases. -/
def Arm.nodesAll : List Arm → Nodes
  | [] => .empty
  | .mk _ pattern body :: arms => .ofExprs pattern.exprs ++ body.nodes ++ Arm.nodesAll arms

end

/-- The nodes of a statement, which is finished after those inside it. -/
def Stmt.nodes (s : Stmt) : Nodes := s.inside ++ ⟨[], [s]⟩

/-- The statements right below a statement. -/
def Stmt.children : Stmt → List Stmt
  | .branch _ _ thenSuite elseSuite =>
    thenSuite.stmts ++ elseSuite.toList.flatMap Suite.stmts
  | .forRange _ _ _ _ _ body | .whileLoop _ _ body | .doWhile _ body _ => body.stmts
  | .select _ _ arms => arms.flatMap fun arm => arm.body.stmts
  | .expr _ _ | .declare _ _ _ _ | .assign _ _ _ | .ret _ _ | .print _ _ | .jump _ _ => []

/-- The nodes of an item. -/
def Item.nodes (item : Item) : Nodes :=
  match item.shape with
  | .function _ body => body.nodes
  | .statement stmt => stmt.nodes
  | .external _ | .typeAlias _ _ | .struct _ => .empty

/-- The nodes of several items. -/
def Item.nodesAll : List Item → Nodes
  | [] => .empty
  | item :: items => item.nodes ++ Item.nodesAll items

theorem Stmt.nodesAll_append (ss ts : List Stmt) :
    nodesAll (ss ++ ts) = nodesAll ss ++ nodesAll ts := by
  induction ss with
  | nil => rfl
  | cons s ss ih => rw [List.cons_append, nodesAll, nodesAll, ih, ← Nodes.append_assoc]

theorem Arm.nodesAll_append (arms more : List Arm) :
    nodesAll (arms ++ more) = nodesAll arms ++ nodesAll more := by
  induction arms with
  | nil => rfl
  | cons arm arms ih =>
    obtain ⟨place, pattern, body⟩ := arm
    rw [List.cons_append, nodesAll, nodesAll, ih, ← Nodes.append_assoc]

theorem Item.nodesAll_append (items more : List Item) :
    nodesAll (items ++ more) = nodesAll items ++ nodesAll more := by
  induction items with
  | nil => rfl
  | cons item items ih => rw [List.cons_append, nodesAll, nodesAll, ih, Nodes.append_assoc]

/-! ### Nodes below others -/

/-- With each node, those below it are listed in their order. -/
structure Nodes.Whole (n : Nodes) : Prop where
  exprs : ∀ e ∈ n.exprs, (ofExprs [e]).Within n
  stmts : ∀ s ∈ n.stmts, s.nodes.Within n

namespace Nodes

variable {m n : Nodes}

theorem Whole.append (hm : m.Whole) (hn : n.Whole) : (m ++ n).Whole := by
  refine ⟨fun e he => ?_, fun s hs => ?_⟩
  · rcases List.mem_append.1 he with he | he
    · exact trans_of Within (hm.exprs e he) (within_append_left m n)
    · exact trans_of Within (hn.exprs e he) (within_append_right m n)
  · rcases List.mem_append.1 hs with hs | hs
    · exact trans_of Within (hm.stmts s hs) (within_append_left m n)
    · exact trans_of Within (hn.stmts s hs) (within_append_right m n)

theorem whole_empty : empty.Whole :=
  ⟨fun _ he => absurd he List.not_mem_nil, fun _ hs => absurd hs List.not_mem_nil⟩

/-- A whole expression is finished after whole expressions. -/
theorem whole_ofChildren {e : Expr} (h : (ofExprs e.children).Whole) : (ofExprs [e]).Whole := by
  refine ⟨fun d hd => ?_, fun _ hs => absurd hs List.not_mem_nil⟩
  rw [ofExprs_singleton] at hd
  rcases List.mem_append.1 hd with hd | hd
  · refine trans_of Within (h.exprs d hd) ?_
    rw [ofExprs_singleton e]
    exact within_append_left _ _
  · obtain rfl := List.mem_singleton.1 hd
    exact refl_of Within _

/-- A whole statement is finished after whole nodes. -/
theorem whole_ofInside {s : Stmt} (h : s.inside.Whole) : s.nodes.Whole := by
  have hinside : s.inside.Within s.nodes := within_append_left _ _
  refine ⟨fun e he => ?_, fun t ht => ?_⟩
  · rw [Stmt.nodes, exprs_append, List.append_nil] at he
    exact trans_of Within (h.exprs e he) hinside
  · rcases List.mem_append.1 ht with ht | ht
    · exact trans_of Within (h.stmts t ht) hinside
    · obtain rfl := List.mem_singleton.1 ht
      exact refl_of Within _

mutual

theorem whole_ofExpr : (e : Expr) → (ofExprs [e]).Whole
  | .number _ _ | .var _ _ => whole_ofChildren whole_empty
  | .addressOf _ e | .member _ e _ | .unary _ _ e => whole_ofChildren (whole_ofExpr e)
  | .index _ left right | .binary _ _ left right => by
    refine whole_ofChildren ?_
    rw [Expr.children, ofExprs_cons]
    exact (whole_ofExpr left).append (whole_ofExpr right)
  | .call _ _ args => whole_ofChildren (whole_ofExprs args)

theorem whole_ofExprs : (es : List Expr) → (ofExprs es).Whole
  | [] => whole_empty
  | e :: es => by
    rw [ofExprs_cons]
    exact (whole_ofExpr e).append (whole_ofExprs es)

end

end Nodes

open Nodes

mutual

theorem Stmt.whole_inside : (s : Stmt) → s.inside.Whole
  | .expr _ _ | .declare _ _ _ _ | .assign _ _ _ | .ret _ _ | .print _ _ => whole_ofExprs _
  | .jump _ _ => whole_empty
  | .branch _ _ thenSuite elseSuite =>
    ((whole_ofExprs _).append (Suite.whole_nodes thenSuite)).append
      (Suite.whole_nodesElse elseSuite)
  | .forRange _ _ _ _ _ body | .whileLoop _ _ body =>
    (whole_ofExprs _).append (Suite.whole_nodes body)
  | .doWhile _ body _ => (Suite.whole_nodes body).append (whole_ofExprs _)
  | .select _ _ arms => (whole_ofExprs _).append (Arm.whole_nodesAll arms)

theorem Suite.whole_nodes : (suite : Suite) → suite.nodes.Whole
  | .mk _ stmts => Stmt.whole_nodesAll stmts

theorem Suite.whole_nodesElse : (suite : Option Suite) → (Suite.nodesElse suite).Whole
  | none => whole_empty
  | some suite => suite.whole_nodes

theorem Stmt.whole_nodesAll : (ss : List Stmt) → (Stmt.nodesAll ss).Whole
  | [] => whole_empty
  | s :: ss => (whole_ofInside s.whole_inside).append (Stmt.whole_nodesAll ss)

theorem Arm.whole_nodesAll : (arms : List Arm) → (Arm.nodesAll arms).Whole
  | [] => whole_empty
  | .mk _ _ body :: arms =>
    ((whole_ofExprs _).append body.whole_nodes).append (Arm.whole_nodesAll arms)

end

theorem Stmt.whole_nodes (s : Stmt) : s.nodes.Whole := whole_ofInside s.whole_inside

theorem Item.whole_nodes (item : Item) : item.nodes.Whole := by
  rw [nodes]
  split
  · exact Suite.whole_nodes _
  · exact Stmt.whole_nodes _
  all_goals exact Nodes.whole_empty

theorem Item.whole_nodesAll (items : List Item) : (nodesAll items).Whole := by
  induction items with
  | nil => exact Nodes.whole_empty
  | cons item items ih => exact item.whole_nodes.append ih

/-! ### The nodes right below one -/

theorem Expr.subset_nodesAll (es : List Expr) : es ⊆ nodesAll es := by
  intro e he
  rw [nodesAll_eq]
  refine List.mem_flatMap.2 ⟨e, he, ?_⟩
  rw [nodes_eq]
  exact List.mem_append_right _ (List.mem_singleton.2 rfl)

theorem Stmt.subset_nodesAll (ss : List Stmt) : ss ⊆ (nodesAll ss).stmts := by
  induction ss with
  | nil => exact List.nil_subset _
  | cons s ss ih =>
    exact List.cons_subset.2 ⟨by simp [nodesAll], fun t ht => by simp [nodesAll, ih ht]⟩

theorem Suite.stmts_subset_nodes (suite : Suite) : suite.stmts ⊆ suite.nodes.stmts := by
  obtain ⟨place, stmts⟩ := suite
  exact Stmt.subset_nodesAll stmts

theorem Arm.subset_nodesAll (arms : List Arm) :
    (arms.flatMap fun arm => arm.pattern.exprs) ⊆ (nodesAll arms).exprs ∧
      (arms.flatMap fun arm => arm.body.stmts) ⊆ (nodesAll arms).stmts := by
  induction arms with
  | nil => exact ⟨List.nil_subset _, List.nil_subset _⟩
  | cons arm arms ih =>
    obtain ⟨place, pattern, body⟩ := arm
    rw [List.flatMap_cons, List.flatMap_cons, nodesAll]
    constructor
    · intro e he
      rcases List.mem_append.1 he with he | he
      · exact List.mem_append_left _ (List.mem_append_left _ (Expr.subset_nodesAll _ he))
      · exact List.mem_append_right _ (ih.1 he)
    · intro s hs
      rcases List.mem_append.1 hs with hs | hs
      · exact List.mem_append_left _ (List.mem_append_right _ (body.stmts_subset_nodes hs))
      · exact List.mem_append_right _ (ih.2 hs)

/-- The expressions that stand in a statement itself are finished before it. -/
theorem Stmt.exprs_subset_inside (s : Stmt) : s.exprs ⊆ s.inside.exprs := by
  intro e he
  cases s with
  | expr | declare | assign | ret | print => exact Expr.subset_nodesAll _ he
  | jump => cases he
  | branch =>
    exact List.mem_append_left _ (List.mem_append_left _ (Expr.subset_nodesAll _ he))
  | forRange | whileLoop => exact List.mem_append_left _ (Expr.subset_nodesAll _ he)
  | doWhile => exact List.mem_append_right _ (Expr.subset_nodesAll _ he)
  | select _ scrutinee arms =>
    rcases List.mem_cons.1 he with rfl | he
    · exact List.mem_append_left _ (Expr.subset_nodesAll [e] (List.mem_singleton.2 rfl))
    · exact List.mem_append_right _ ((Arm.subset_nodesAll arms).1 he)

/-- So are the statements right below it. -/
theorem Stmt.children_subset_inside (s : Stmt) : s.children ⊆ s.inside.stmts := by
  intro t ht
  cases s with
  | expr | declare | assign | ret | print | jump => cases ht
  | branch _ condition thenSuite elseSuite =>
    rcases List.mem_append.1 ht with ht | ht
    · exact List.mem_append_left _ (List.mem_append_right _ (thenSuite.stmts_subset_nodes ht))
    · obtain ⟨suite, hsuite, hsub⟩ := List.mem_flatMap.1 ht
      obtain rfl := Option.mem_toList.1 hsuite
      exact List.mem_append_right _ (suite.stmts_subset_nodes hsub)
  | forRange _ _ _ _ _ body | whileLoop _ _ body =>
    exact List.mem_append_right _ (body.stmts_subset_nodes ht)
  | doWhile _ body => exact List.mem_append_left _ (body.stmts_subset_nodes ht)
  | select _ scrutinee arms => exact List.mem_append_right _ ((Arm.subset_nodesAll arms).2 ht)

/-! ### Statements among nodes -/

mutual

theorem Stmt.mem_stmts_inside : (s : Stmt) → {t : Stmt} →
    (t ∈ s.inside.stmts ↔ t ∈ s.statements.tail)
  | .expr _ _, _ | .declare _ _ _ _, _ | .assign _ _ _, _ | .ret _ _, _ | .print _ _, _
  | .jump _ _, _ => Iff.rfl
  | .branch _ _ thenSuite elseSuite, t => by
    simp [Stmt.inside, Stmt.statements, thenSuite.mem_stmts_nodes,
      Suite.mem_stmts_nodesElse elseSuite]
  | .forRange _ _ _ _ _ body, t | .whileLoop _ _ body, t | .doWhile _ body _, t => by
    simp [Stmt.inside, Stmt.statements, body.mem_stmts_nodes]
  | .select _ _ arms, t => by simp [Stmt.inside, Stmt.statements, Arm.mem_stmts_nodesAll arms]

theorem Suite.mem_stmts_nodes : (suite : Suite) → {t : Stmt} →
    (t ∈ suite.nodes.stmts ↔ t ∈ suite.statements)
  | .mk _ stmts, _ => Stmt.mem_stmts_nodesAll stmts

theorem Suite.mem_stmts_nodesElse : (suite : Option Suite) → {t : Stmt} →
    (t ∈ (Suite.nodesElse suite).stmts ↔ t ∈ Suite.statementsElse suite)
  | none, _ => Iff.rfl
  | some suite, _ => suite.mem_stmts_nodes

theorem Stmt.mem_stmts_nodesAll : (ss : List Stmt) → {t : Stmt} →
    (t ∈ (Stmt.nodesAll ss).stmts ↔ t ∈ Stmt.statementsAll ss)
  | [], _ => Iff.rfl
  | s :: ss, t => by
    have htail : t ∈ s.statements ↔ t ∈ s.statements.tail ∨ t = s := by
      rw [Stmt.statements.eq_def]
      exact List.mem_cons.trans or_comm
    simp [Stmt.nodesAll, Stmt.statementsAll, s.mem_stmts_inside, Stmt.mem_stmts_nodesAll ss, htail,
      or_assoc]

theorem Arm.mem_stmts_nodesAll : (arms : List Arm) → {t : Stmt} →
    (t ∈ (Arm.nodesAll arms).stmts ↔ t ∈ Arm.statementsAll arms)
  | [], _ => Iff.rfl
  | .mk _ _ body :: arms, t => by
    simp [Arm.nodesAll, Arm.statementsAll, body.mem_stmts_nodes, Arm.mem_stmts_nodesAll arms]

end

/-- The nodes of several items are those of each. -/
theorem Item.within_nodesAll {item : Item} {items : List Item} (h : item ∈ items) :
    item.nodes.Within (nodesAll items) := by
  induction items with
  | nil => cases h
  | cons other items ih =>
    rcases List.mem_cons.1 h with rfl | h
    · exact within_append_left _ _
    · exact trans_of Within (ih h) (within_append_right _ _)

/-- The statements among the nodes of an item are those inside it. -/
theorem Item.mem_stmts_nodes (item : Item) {t : Stmt} :
    t ∈ item.nodes.stmts ↔ t ∈ item.statements := by
  obtain ⟨shape, place⟩ := item
  cases shape with
  | function proto body => exact body.mem_stmts_nodes
  | statement stmt =>
    show t ∈ stmt.nodes.stmts ↔ t ∈ stmt.statements
    simpa [Stmt.nodes, Stmt.nodesAll, Stmt.statementsAll] using! Stmt.mem_stmts_nodesAll [stmt]
  | external | typeAlias | struct => exact Iff.rfl

end Offside
