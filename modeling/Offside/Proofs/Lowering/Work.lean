import Offside.Lowering.Backend
import Offside.Proofs.Tree.Nodes

/-!
# What there is to ask about a tree

A backend is asked about each node after the nodes right below it, which are taken from left to
right. If the questions are numbered as they come up, the values that are passed with a question
are the answers with the numbers of the nodes right below. So each number is passed on once, with
the question about the node above, which comes later; only the last one, that of the root, is not.

A node about which there is no question is a rejection. It has no nodes below it.

## Main definitions

* `Offside.Call.head`, `Offside.Call.values`: a call without its values, and the values.
* `Offside.Work`: a tree of questions.
* `Offside.Work.steps`: the questions of a tree in order, with the numbers of the answers passed.
* `Offside.Item.work`: what there is to ask about an item.

## Main results

* `Offside.Work.args_perm`: each number but those of the roots is passed on once.
* `Offside.Item.length_steps`: a question for each node of the tree, and one for the item.
-/

namespace Offside

variable {V : Type}

/-! ### Calls -/

/-- A list without what its elements are. -/
abbrev blanks (xs : List V) : List Unit := xs.map fun _ => ()

namespace LoweredArm

/-- A case without its values. -/
def head (arm : LoweredArm V) : LoweredArm Unit :=
  ⟨arm.pattern.map fun _ => (), blanks arm.body⟩

/-- The values of a case, from left to right. -/
def values (arm : LoweredArm V) : List V := arm.pattern.toList ++ arm.body

end LoweredArm

namespace Call

/-- A call without its values. -/
def head : Call V → Call Unit
  | .number value => .number value
  | .variable name => .variable name
  | .addressOf _ => .addressOf ()
  | .index _ _ => .index () ()
  | .member _ field => .member () field
  | .unary op _ => .unary op ()
  | .binary op _ _ => .binary op () ()
  | .call callee args => .call callee (blanks args)
  | .variablePlace name => .variablePlace name
  | .indexPlace _ _ => .indexPlace () ()
  | .memberPlace _ field => .memberPlace () field
  | .exprStmt _ => .exprStmt ()
  | .declare name type init => .declare name type (init.map fun _ => ())
  | .assign _ _ => .assign () ()
  | .ret value => .ret (value.map fun _ => ())
  | .print args => .print (blanks args)
  | .branch _ thenSuite elseSuite => .branch () (blanks thenSuite) (elseSuite.map blanks)
  | .forRange counter _ _ step body =>
    .forRange counter () () (step.map fun _ => ()) (blanks body)
  | .whileLoop _ body => .whileLoop () (blanks body)
  | .doWhile body _ => .doWhile (blanks body) ()
  | .jump word => .jump word
  | .select _ arms => .select () (arms.map LoweredArm.head)
  | .function proto body => .function proto (blanks body)
  | .external proto => .external proto
  | .typeAlias name target => .typeAlias name target
  | .struct decl => .struct decl
  | .topLevel _ => .topLevel ()

/-- The values that are passed with a call, from left to right. -/
def values : Call V → List V
  | .number _ | .variable _ | .variablePlace _ | .jump _ | .external _ | .typeAlias _ _
  | .struct _ => []
  | .addressOf v | .member v _ | .unary _ v | .memberPlace v _ | .exprStmt v | .topLevel v => [v]
  | .index v w | .binary _ v w | .indexPlace v w | .assign v w => [v, w]
  | .call _ args | .print args => args
  | .declare _ _ init => init.toList
  | .ret value => value.toList
  | .branch condition thenSuite elseSuite => condition :: (thenSuite ++ elseSuite.getD [])
  | .forRange _ start stop step body => start :: stop :: (step.toList ++ body)
  | .whileLoop condition body => condition :: body
  | .doWhile body condition => body ++ [condition]
  | .select scrutinee arms => scrutinee :: arms.flatMap LoweredArm.values
  | .function _ body => body

end Call

theorem length_eq_of_blanks {xs ys : List V} (h : blanks xs = blanks ys) :
    xs.length = ys.length := by
  simpa using congrArg List.length h

/-- Two parts of a list are told apart by the length of the first. -/
theorem append_eq_of_blanks {xs ys xs' ys' : List V} (hblanks : blanks xs = blanks ys)
    (h : xs ++ xs' = ys ++ ys') : xs = ys ∧ xs' = ys' :=
  List.append_inj h (length_eq_of_blanks hblanks)

theorem toList_append_eq_of_blanks {x y : Option V} {xs ys : List V}
    (hblanks : x.map (fun _ => ()) = y.map fun _ => ()) (h : x.toList ++ xs = y.toList ++ ys) :
    x = y ∧ xs = ys := by
  cases x <;> cases y <;> simp_all

theorem LoweredArm.eq_of_head {arms arms' : List (LoweredArm V)}
    (hhead : arms.map head = arms'.map head)
    (hvalues : arms.flatMap values = arms'.flatMap values) : arms = arms' := by
  induction arms generalizing arms' with
  | nil => exact (List.map_eq_nil_iff.1 hhead.symm).symm
  | cons arm arms ih =>
    cases arms' with
    | nil => cases hhead
    | cons arm' arms' =>
      obtain ⟨pattern, body⟩ := arm
      obtain ⟨pattern', body'⟩ := arm'
      simp only [List.map_cons, List.cons.injEq, head, LoweredArm.mk.injEq] at hhead
      simp only [List.flatMap_cons, values, List.append_assoc] at hvalues
      obtain ⟨rfl, hbodies⟩ := toList_append_eq_of_blanks hhead.1.1 hvalues
      obtain ⟨rfl, hrest⟩ := append_eq_of_blanks hhead.1.2 hbodies
      rw [ih hhead.2 hrest]

theorem eq_of_toList {x y : Option V} (h : x.toList = y.toList) : x = y := by
  cases x <;> cases y <;> simp_all

theorem eq_of_blanks_getD {x y : Option (List V)} (hblanks : x.map blanks = y.map blanks)
    (h : x.getD [] = y.getD []) : x = y := by
  cases x <;> cases y <;> simp_all

/-- A call is known from what it is without its values, and from these. -/
theorem Call.eq_of_head {c d : Call V} (hhead : c.head = d.head) (hvalues : c.values = d.values) :
    c = d := by
  cases c <;> cases d <;> try (cases hhead; done)
  -- Calls that differ in more than their values are out of the way.
  case declare.declare =>
    simp only [head, declare.injEq] at hhead ⊢
    exact ⟨hhead.1, hhead.2.1, eq_of_toList hvalues⟩
  case ret.ret => exact congrArg ret (eq_of_toList hvalues)
  case branch.branch =>
    simp only [head, values, branch.injEq, List.cons.injEq] at hhead hvalues ⊢
    obtain ⟨hthen, helse⟩ := append_eq_of_blanks hhead.2.1 hvalues.2
    exact ⟨hvalues.1, hthen, eq_of_blanks_getD hhead.2.2 helse⟩
  case forRange.forRange =>
    simp only [head, values, forRange.injEq, List.cons.injEq] at hhead hvalues ⊢
    exact ⟨hhead.1, hvalues.1, hvalues.2.1,
      toList_append_eq_of_blanks hhead.2.2.2.1 hvalues.2.2⟩
  case select.select =>
    simp only [head, values, select.injEq, List.cons.injEq] at hhead hvalues ⊢
    exact ⟨hvalues.1, LoweredArm.eq_of_head hhead.2 hvalues.2⟩
  all_goals simp_all [head, values]

/-! ### Questions about a tree -/

/-- A tree of questions: what is asked about a node at a place, after the nodes right below it, or
why there is nothing to ask. -/
inductive Work
  | ask (head : Call Unit) (place : Location) (below : List Work)
  | reject (error : LowerError)

/-- What is done about a node: a call in which the answers with some numbers are passed, or a
rejection. -/
inductive Work.Step
  | ask (head : Call Unit) (place : Location) (args : List Nat)
  | reject (error : LowerError)

/-- The numbers of the answers that are passed. -/
def Work.Step.args : Work.Step → List Nat
  | ask _ _ args => args
  | reject _ => []

namespace Work

mutual

/-- The number of nodes. -/
def size : Work → Nat
  | .ask _ _ below => sizeAll below + 1
  | .reject _ => 1

/-- The number of nodes of several trees. -/
def sizeAll : List Work → Nat
  | [] => 0
  | w :: ws => w.size + sizeAll ws

end

/-- The numbers of the roots of several trees, the first node having the number `n`. -/
def roots (n : Nat) : List Work → List Nat
  | [] => []
  | w :: ws => (n + w.size - 1) :: roots (n + w.size) ws

mutual

/-- What is done about a tree, the first node having the number `n`: first what is done about the
trees right below the root, from left to right, and then what is done about the root, to which the
answers for their roots are passed. -/
def steps (n : Nat) : Work → List Step
  | .ask head place below => stepsAll n below ++ [.ask head place (roots n below)]
  | .reject error => [.reject error]

/-- What is done about several trees, one after the other. -/
def stepsAll (n : Nat) : List Work → List Step
  | [] => []
  | w :: ws => w.steps n ++ stepsAll (n + w.size) ws

end

variable {w : Work} {ws : List Work} {n k : Nat}

theorem size_pos (w : Work) : 0 < w.size := by
  cases w <;> simp [size]

mutual

theorem length_steps (n : Nat) : (w : Work) → (w.steps n).length = w.size
  | .ask _ _ below => by
    rw [steps, size, List.length_append, length_stepsAll n below, List.length_singleton]
  | .reject _ => rfl

theorem length_stepsAll (n : Nat) : (ws : List Work) → (stepsAll n ws).length = sizeAll ws
  | [] => rfl
  | w :: ws => by
    rw [stepsAll, sizeAll, List.length_append, length_steps n w, length_stepsAll (n + w.size) ws]

end

/-! ### Which answers are passed on -/

/-- The last node of a tree is its root. -/
theorem range'_size (w : Work) (n : Nat) :
    List.range' n w.size = List.range' n (w.size - 1) ++ [n + w.size - 1] := by
  have hpos := w.size_pos
  obtain ⟨m, hm⟩ : ∃ m, w.size = m + 1 := ⟨w.size - 1, by omega⟩
  rw [hm, List.range'_concat, Nat.add_sub_cancel, Nat.one_mul, Nat.add_succ_sub_one]

mutual

/-- In a tree the number of every node but the root is passed on once. -/
theorem args_perm (n : Nat) : (w : Work) →
    ((w.steps n).flatMap Step.args).Perm (List.range' n (w.size - 1))
  | .ask _ _ below => by
    rw [steps, List.flatMap_append, List.flatMap_singleton]
    exact args_append_roots_perm n below
  | .reject _ => .refl _

/-- In several trees the number of every node but the roots is passed on once. -/
theorem args_append_roots_perm (n : Nat) : (ws : List Work) →
    ((stepsAll n ws).flatMap Step.args ++ roots n ws).Perm (List.range' n (sizeAll ws))
  | [] => .refl _
  | w :: ws => by
    have hw := args_perm n w
    have hws := args_append_roots_perm (n + w.size) ws
    rw [stepsAll, roots, sizeAll, List.flatMap_append, ← List.range'_append_1, range'_size,
      List.append_assoc, List.append_assoc]
    refine hw.append (.trans ?_ (List.Perm.cons _ hws))
    exact List.perm_middle

end

theorem lt_of_mem_roots (hk : k ∈ roots n ws) : k < n + sizeAll ws := by
  have hmem := (args_append_roots_perm n ws).mem_iff.1 (List.mem_append_right _ hk)
  exact (List.mem_range'_1.1 hmem).2

mutual

/-- The answers that are passed are those to earlier questions. -/
theorem lt_of_mem_args (n : Nat) : (w : Work) → (i : Nat) → (step : Step) →
    (w.steps n)[i]? = some step → k ∈ step.args → k < n + i
  | .ask head place below, i, step, hstep, hk => by
    rw [steps, List.getElem?_append, length_stepsAll] at hstep
    split at hstep
    · exact lt_of_mem_args_all n below i step hstep hk
    · next hi =>
      obtain rfl : Step.ask head place (roots n below) = step :=
        List.mem_singleton.1 (List.mem_of_getElem? hstep) ▸ rfl
      have := lt_of_mem_roots hk
      omega
  | .reject error, i, step, hstep, hk => by
    obtain rfl : Step.reject error = step :=
      List.mem_singleton.1 (List.mem_of_getElem? hstep) ▸ rfl
    cases hk

theorem lt_of_mem_args_all (n : Nat) : (ws : List Work) → (i : Nat) → (step : Step) →
    (stepsAll n ws)[i]? = some step → k ∈ step.args → k < n + i
  | [], i, step, hstep, _ => by cases hstep
  | w :: ws, i, step, hstep, hk => by
    rw [stepsAll, List.getElem?_append, length_steps] at hstep
    split at hstep
    · exact lt_of_mem_args n w i step hstep hk
    · have := lt_of_mem_args_all (n + w.size) ws _ step hstep hk
      omega

end

/-- What occurs once in all lists occurs in one of them, and there once. -/
theorem exists_index_of_count {α : Type} {f : α → List Nat} {xs : List α}
    (h : (xs.flatMap f).count k = 1) :
    ∃ (j : Nat) (x : α), xs[j]? = some x ∧ k ∈ f x ∧
      ∀ (i : Nat) (y : α), xs[i]? = some y → (f y).count k = if i = j then 1 else 0 := by
  induction xs with
  | nil => cases h
  | cons x xs ih =>
    rw [List.flatMap_cons, List.count_append] at h
    by_cases hx : k ∈ f x
    · have hpos := List.count_pos_iff.2 hx
      have hrest : k ∉ xs.flatMap f := List.count_eq_zero.1 (by omega)
      refine ⟨0, x, rfl, hx, fun i y hy => ?_⟩
      cases i with
      | zero =>
        cases hy
        rw [if_pos rfl]
        omega
      | succ i =>
        rw [if_neg (Nat.succ_ne_zero i), List.count_eq_zero]
        exact fun hk => hrest (List.mem_flatMap.2 ⟨y, List.mem_of_getElem? hy, hk⟩)
    · have hzero := List.count_eq_zero.2 hx
      obtain ⟨j, z, hz, hmem, hcount⟩ := ih (by omega)
      refine ⟨j + 1, z, hz, hmem, fun i y hy => ?_⟩
      cases i with
      | zero =>
        cases hy
        rw [if_neg (Nat.succ_ne_zero j).symm, hzero]
      | succ i => simpa using hcount i y hy

/-- The number of every node but the root is passed on once, and to a later node. -/
theorem exists_passed (w : Work) (hk : k + 1 < (w.steps 0).length) :
    ∃ j, k < j ∧ ∀ i step, (w.steps 0)[i]? = some step →
      step.args.count k = if i = j then 1 else 0 := by
  rw [length_steps] at hk
  have hcount : ((w.steps 0).flatMap Step.args).count k = 1 := by
    rw [(w.args_perm 0).count_eq]
    exact (List.nodup_range' 1 Nat.one_pos).count.trans
      (if_pos (List.mem_range'_1.2 ⟨Nat.zero_le k, by omega⟩))
  obtain ⟨j, step, hstep, hmem, hothers⟩ := exists_index_of_count hcount
  have hlt := lt_of_mem_args 0 w j step hstep hmem
  exact ⟨j, by omega, hothers⟩

/-! ### Rejections -/

mutual

/-- There is a question about every node. -/
def IsWhole : Work → Prop
  | .ask _ _ below => AreWhole below
  | .reject _ => False

/-- There is a question about every node of several trees. -/
def AreWhole : List Work → Prop
  | [] => True
  | w :: ws => w.IsWhole ∧ AreWhole ws

end

theorem areWhole_append {ws ws' : List Work} :
    AreWhole (ws ++ ws') ↔ AreWhole ws ∧ AreWhole ws' := by
  induction ws with
  | nil => simp [AreWhole]
  | cons w ws ih => simp [AreWhole, ih, and_assoc]

mutual

/-- A node about which there is no question is rejected. -/
theorem isWhole_iff (n : Nat) : (w : Work) → (w.IsWhole ↔ ∀ error, .reject error ∉ w.steps n)
  | .ask _ _ below => by
    rw [IsWhole, steps, areWhole_iff n below]
    simp
  | .reject error => iff_of_false id fun h => h error List.mem_cons_self

theorem areWhole_iff (n : Nat) :
    (ws : List Work) → (AreWhole ws ↔ ∀ error, .reject error ∉ stepsAll n ws)
  | [] => by simp [AreWhole, stepsAll]
  | w :: ws => by
    rw [AreWhole, stepsAll, isWhole_iff n w, areWhole_iff (n + w.size) ws]
    simp [forall_and, not_or]

end

end Work

/-! ### Expressions -/

mutual

/-- What there is to ask about an expression. -/
def Expr.work : Expr → Work
  | .number tag value => .ask (.number value) tag.location []
  | .var tag name => .ask (.variable name) tag.location []
  | .addressOf tag place => .ask (.addressOf ()) tag.location [place.placeWork]
  | .index tag base position => .ask (.index () ()) tag.location [base.work, position.work]
  | .member tag object field => .ask (.member () field) tag.location [object.work]
  | .unary tag op operand => .ask (.unary op ()) tag.location [operand.work]
  | .binary tag op left right => .ask (.binary op () ()) tag.location [left.work, right.work]
  | .call tag callee args => .ask (.call callee (blanks args)) tag.location (Expr.works args)

/-- What there is to ask about an expression that has to be a place. -/
def Expr.placeWork : Expr → Work
  | .var tag name => .ask (.variablePlace name) tag.location []
  | .index tag base position => .ask (.indexPlace () ()) tag.location [base.work, position.work]
  | .member tag object field => .ask (.memberPlace () field) tag.location [object.placeWork]
  | .number tag _ | .addressOf tag _ | .unary tag _ _ | .binary tag _ _ _ | .call tag _ _ =>
    .reject (.notAddressable tag.location)

/-- What there is to ask about several expressions. -/
def Expr.works : List Expr → List Work
  | [] => []
  | e :: es => e.work :: Expr.works es

end

/-! ### Statements and items -/

/-- What a case accepts, without what its expression is. -/
def Pattern.blank : Pattern → Option Unit
  | .value _ => some ()
  | .wildcard => none

/-- A case without what its expressions and statements are. -/
def Arm.head (arm : Arm) : LoweredArm Unit := ⟨arm.pattern.blank, blanks arm.body.stmts⟩

mutual

/-- What there is to ask about a statement. -/
def Stmt.work : Stmt → Work
  | .expr tag value => .ask (.exprStmt ()) tag.location [value.work]
  | .declare tag name type init =>
    .ask (.declare name type (init.map fun _ => ())) tag.location (Expr.works init.toList)
  | .assign tag target value => .ask (.assign () ()) tag.location [target.placeWork, value.work]
  | .ret tag value => .ask (.ret (value.map fun _ => ())) tag.location (Expr.works value.toList)
  | .print tag args => .ask (.print (blanks args)) tag.location (Expr.works args)
  | .branch tag condition thenSuite elseSuite =>
    .ask (.branch () (blanks thenSuite.stmts) (elseSuite.map fun suite => blanks suite.stmts))
      tag.location (condition.work :: (thenSuite.works ++ Suite.worksElse elseSuite))
  | .forRange tag counter start stop step body =>
    .ask (.forRange counter () () (step.map fun _ => ()) (blanks body.stmts)) tag.location
      (start.work :: stop.work :: (Expr.works step.toList ++ body.works))
  | .whileLoop tag condition body =>
    .ask (.whileLoop () (blanks body.stmts)) tag.location (condition.work :: body.works)
  | .doWhile tag body condition =>
    .ask (.doWhile (blanks body.stmts) ()) tag.location (body.works ++ [condition.work])
  | .jump tag jump => .ask (.jump jump) tag.location []
  | .select tag scrutinee arms =>
    .ask (.select () (arms.map Arm.head)) tag.location (scrutinee.work :: Arm.works arms)

/-- What there is to ask about a body. -/
def Suite.works : Suite → List Work
  | .mk _ stmts => Stmt.works stmts

/-- What there is to ask about the other branch, if there is one. -/
def Suite.worksElse : Option Suite → List Work
  | none => []
  | some suite => suite.works

/-- What there is to ask about several statements. -/
def Stmt.works : List Stmt → List Work
  | [] => []
  | s :: ss => s.work :: Stmt.works ss

/-- What there is to ask about cases. -/
def Arm.works : List Arm → List Work
  | [] => []
  | .mk _ pattern body :: arms => Expr.works pattern.exprs ++ body.works ++ Arm.works arms

end

/-- What there is to ask about an item. -/
def Item.work (types : TypeEnv) (item : Item) : Work :=
  match item.shape with
  | .function proto body =>
    .ask (.function proto (blanks body.stmts)) proto.location body.works
  | .external proto => .ask (.external proto) proto.location []
  | .typeAlias name target => .ask (.typeAlias name target) item.location []
  | .struct name =>
    match types.structDecl? name with
    | none => .reject (.unknownStruct name)
    | some decl => .ask (.struct decl) decl.location []
  | .statement stmt => .ask (.topLevel ()) item.location [stmt.work]

/-! ### The number of questions -/

namespace Work

/-- If there is a question about every node, there are as many questions as nodes. -/
def Counts (ws : List Work) (nodes : Nodes) : Prop :=
  AreWhole ws → sizeAll ws = nodes.exprs.length + nodes.stmts.length

theorem sizeAll_append (ws ws' : List Work) : sizeAll (ws ++ ws') = sizeAll ws + sizeAll ws' := by
  induction ws with
  | nil => simp [sizeAll]
  | cons w ws ih => simp [sizeAll, ih, Nat.add_assoc]

variable {ws ws' : List Work} {m n : Nodes}

theorem counts_nil : Counts [] .empty := fun _ => rfl

theorem Counts.append (h : Counts ws m) (k : Counts ws' n) : Counts (ws ++ ws') (m ++ n) := by
  intro hwhole
  obtain ⟨hws, hws'⟩ := areWhole_append.1 hwhole
  rw [sizeAll_append, h hws, k hws', Nodes.exprs_append, Nodes.stmts_append, List.length_append,
    List.length_append]
  omega

theorem Counts.cons {w : Work} (h : Counts [w] m) (k : Counts ws n) : Counts (w :: ws) (m ++ n) :=
  h.append k

theorem Counts.consExpr {w : Work} {e : Expr} {es : List Expr} (h : Counts [w] (.ofExprs [e]))
    (k : Counts ws (.ofExprs es)) : Counts (w :: ws) (.ofExprs (e :: es)) := by
  rw [Nodes.ofExprs_cons]
  exact h.cons k

/-- An expression is one more node than there are below it. -/
theorem Counts.expr {head : Call Unit} {place : Location} {e : Expr}
    (h : Counts ws (.ofExprs e.children)) : Counts [.ask head place ws] (.ofExprs [e]) := by
  rintro ⟨hwhole, -⟩
  rw [sizeAll, size, sizeAll, h hwhole, Nodes.ofExprs_singleton, Nodes.exprs_append,
    Nodes.stmts_append, List.length_append, List.length_append]
  simp only [List.length_singleton, List.length_nil]
  omega

/-- A statement is one more node than there are inside it. -/
theorem Counts.stmt {head : Call Unit} {place : Location} {s : Stmt}
    (h : Counts ws s.inside) : Counts [.ask head place ws] s.nodes := by
  rintro ⟨hwhole, -⟩
  rw [sizeAll, size, sizeAll, h hwhole, Stmt.nodes, Nodes.exprs_append, Nodes.stmts_append,
    List.length_append, List.length_append]
  simp only [List.length_singleton, List.length_nil]
  omega

end Work

open Work

mutual

theorem Expr.counts_work : (e : Expr) → Counts [e.work] (.ofExprs [e])
  | .number _ _ | .var _ _ => .expr counts_nil
  | .addressOf _ place => .expr place.counts_placeWork
  | .index _ left right | .binary _ _ left right =>
    .expr (left.counts_work.consExpr right.counts_work)
  | .member _ e _ | .unary _ _ e => .expr e.counts_work
  | .call _ _ args => .expr (Expr.counts_works args)

theorem Expr.counts_placeWork : (e : Expr) → Counts [e.placeWork] (.ofExprs [e])
  | .var _ _ => .expr counts_nil
  | .index _ base position => .expr (base.counts_work.consExpr position.counts_work)
  | .member _ object _ => .expr object.counts_placeWork
  | .number _ _ | .addressOf _ _ | .unary _ _ _ | .binary _ _ _ _ | .call _ _ _ =>
    fun hwhole => hwhole.1.elim

theorem Expr.counts_works : (es : List Expr) → Counts (Expr.works es) (.ofExprs es)
  | [] => counts_nil
  | e :: es => e.counts_work.consExpr (Expr.counts_works es)

end

mutual

theorem Stmt.counts_work : (s : Stmt) → Counts [s.work] s.nodes
  | .expr _ value => .stmt value.counts_work
  | .declare _ _ _ init => .stmt (Expr.counts_works init.toList)
  | .assign _ target value => .stmt (target.counts_placeWork.consExpr value.counts_work)
  | .ret _ value => .stmt (Expr.counts_works value.toList)
  | .print _ args => .stmt (Expr.counts_works args)
  | .branch _ condition thenSuite elseSuite => by
    refine .stmt ?_
    rw [Stmt.inside, Nodes.append_assoc]
    exact condition.counts_work.cons
      (thenSuite.counts_works.append (Suite.counts_worksElse elseSuite))
  | .forRange _ _ start stop step body => by
    refine .stmt ?_
    rw [Stmt.inside]
    exact (Expr.counts_works ([start, stop] ++ step.toList)).append body.counts_works
  | .whileLoop _ condition body => .stmt (condition.counts_work.cons body.counts_works)
  | .doWhile _ body condition => .stmt (body.counts_works.append condition.counts_work)
  | .jump _ _ => .stmt counts_nil
  | .select _ scrutinee arms => .stmt (scrutinee.counts_work.cons (Arm.counts_works arms))

theorem Suite.counts_works : (suite : Suite) → Counts suite.works suite.nodes
  | .mk _ stmts => Stmt.counts_works stmts

theorem Suite.counts_worksElse : (suite : Option Suite) →
    Counts (Suite.worksElse suite) (Suite.nodesElse suite)
  | none => counts_nil
  | some suite => suite.counts_works

theorem Stmt.counts_works : (ss : List Stmt) → Counts (Stmt.works ss) (Stmt.nodesAll ss)
  | [] => counts_nil
  | s :: ss => s.counts_work.cons (Stmt.counts_works ss)

theorem Arm.counts_works : (arms : List Arm) → Counts (Arm.works arms) (Arm.nodesAll arms)
  | [] => counts_nil
  | .mk _ pattern body :: arms =>
    ((Expr.counts_works pattern.exprs).append body.counts_works).append (Arm.counts_works arms)

end

/-- There is a question for each node of an item that is a tree, and one for the item itself. -/
theorem Item.length_steps {types : TypeEnv} {item : Item}
    (h : ∀ error, .reject error ∉ (item.work types).steps 0) :
    ((item.work types).steps 0).length =
      item.nodes.exprs.length + item.nodes.stmts.length + 1 := by
  have root {head : Call Unit} {place : Location} {ws : List Work} {nodes : Nodes}
      (hcounts : Counts ws nodes) (hwhole : (Work.ask head place ws).IsWhole) :
      (Work.ask head place ws).size = nodes.exprs.length + nodes.stmts.length + 1 := by
    rw [size, hcounts hwhole]
  rw [← isWhole_iff] at h
  rw [Work.length_steps]
  unfold Item.work Item.nodes at *
  split at h
  · next body hshape =>
    rw [hshape]
    exact root body.counts_works h
  · next hshape =>
    rw [hshape]
    rfl
  · next hshape =>
    rw [hshape]
    rfl
  · next name hshape =>
    rw [hshape]
    cases hdecl : types.structDecl? name with
    | none =>
      rw [hdecl] at h
      exact h.elim
    | some decl => rfl
  · next stmt hshape =>
    rw [hshape]
    exact root stmt.counts_work h

end Offside
