import Offside.Proofs.Parser.Onward
import Offside.Proofs.Tree.Nodes

/-!
# The numbers of nodes

An arena numbers the nodes of each sort as they are finished. Reading finishes a node after those
below it, and those one after the other, so the numbers increase along the nodes of whatever is
read. Some nodes end up in no tree: the name of a function that is called, and the name that a
statement declares.

A literal is finished with the value of its token.

## Main definitions

* `Offside.Arena.Lists`: an arena keeps nodes under numbers that increase.
* `Offside.Arena.Forest`: the nodes of trees, of which no two share a node.
* `Offside.Parser.Lists`: so does the arena of a parser, and literals have a property that tokens
  have.
* `Offside.Parse.Grows`: what a computation adds to the nodes that are listed.

## Main results

* `Offside.Arena.Lists.forest`: nodes that are listed in order are those of trees.
* `Offside.Parse.grows_item`: reading adds the nodes of what is read.
-/

namespace Offside

/-! ### Arenas -/

/-- The arena keeps each of the nodes under its number, and the numbers of each sort increase. -/
structure Arena.Lists (arena : Arena) (nodes : Nodes) : Prop where
  exprs : ∀ e ∈ nodes.exprs, arena.exprs[e.tag.id]? = some e
  stmts : ∀ s ∈ nodes.stmts, arena.stmts[s.tag.id]? = some s
  exprsIncrease : nodes.exprs.Pairwise fun e f => e.tag.id < f.tag.id
  stmtsIncrease : nodes.stmts.Pairwise fun s t => s.tag.id < t.tag.id

namespace Arena

variable {arena : Arena} {m n : Nodes}

theorem lists_empty (arena : Arena) : arena.Lists .empty :=
  ⟨fun _ he => absurd he List.not_mem_nil, fun _ hs => absurd hs List.not_mem_nil, .nil, .nil⟩

/-- Some nodes may be forgotten. -/
theorem Lists.within (h : arena.Lists n) (hm : m.Within n) : arena.Lists m :=
  ⟨fun e he => h.exprs e (hm.exprs.subset he), fun s hs => h.stmts s (hm.stmts.subset hs),
    h.exprsIncrease.sublist hm.exprs, h.stmtsIncrease.sublist hm.stmts⟩

/-- An expression that is finished has a higher number than those before. -/
theorem Lists.addExpr (h : arena.Lists n) (place : Location) {build : Tag → Expr}
    (htag : ∀ tag, (build tag).tag = tag) :
    (arena.addExpr place build).2.Lists (n ++ ⟨[(arena.addExpr place build).1], []⟩) := by
  have hlt (e : Expr) (he : e ∈ n.exprs) : e.tag.id < arena.exprs.size :=
    (Array.getElem?_eq_some_iff.1 (h.exprs e he)).1
  refine ⟨fun e he => ?_, fun s hs => ?_, ?_, ?_⟩
  · rcases List.mem_append.1 he with he | he
    · rw [Arena.addExpr, Array.getElem?_push_lt (hlt e he), ← h.exprs e he,
        Array.getElem?_eq_getElem (hlt e he)]
    · obtain rfl := List.mem_singleton.1 he
      simp [Arena.addExpr, htag]
  · exact h.stmts s (by simpa using! hs)
  · refine List.pairwise_append.2 ⟨h.exprsIncrease, List.pairwise_singleton _ _, ?_⟩
    intro e he f hf
    obtain rfl := List.mem_singleton.1 hf
    simpa [Arena.addExpr, htag] using hlt e he
  · simpa using! h.stmtsIncrease

/-- So has a statement. -/
theorem Lists.addStmt (h : arena.Lists n) (place : Location) {build : Tag → Stmt}
    (htag : ∀ tag, (build tag).tag = tag) :
    (arena.addStmt place build).2.Lists (n ++ ⟨[], [(arena.addStmt place build).1]⟩) := by
  have hlt (s : Stmt) (hs : s ∈ n.stmts) : s.tag.id < arena.stmts.size :=
    (Array.getElem?_eq_some_iff.1 (h.stmts s hs)).1
  refine ⟨fun e he => ?_, fun s hs => ?_, ?_, ?_⟩
  · exact h.exprs e (by simpa using! he)
  · rcases List.mem_append.1 hs with hs | hs
    · rw [Arena.addStmt, Array.getElem?_push_lt (hlt s hs), ← h.stmts s hs,
        Array.getElem?_eq_getElem (hlt s hs)]
    · obtain rfl := List.mem_singleton.1 hs
      simp [Arena.addStmt, htag]
  · simpa using! h.exprsIncrease
  · refine List.pairwise_append.2 ⟨h.stmtsIncrease, List.pairwise_singleton _ _, ?_⟩
    intro s hs t ht
    obtain rfl := List.mem_singleton.1 ht
    simpa [Arena.addStmt, htag] using hlt s hs

private theorem getElem?_of_isPrefix {α : Type} {xs ys : Array α} (h : xs.toList <+: ys.toList)
    {i : Nat} {a : α} (ha : xs[i]? = some a) : ys[i]? = some a := by
  rw [← Array.getElem?_toList] at ha ⊢
  obtain ⟨hi, rfl⟩ := List.getElem?_eq_some_iff.1 ha
  exact List.prefix_iff_getElem?.1 h i hi

/-- Nodes are listed in any arena with more nodes. -/
theorem Lists.of_isPrefix {arena' : Arena} (h : arena.Lists n)
    (exprs : arena.exprs.toList <+: arena'.exprs.toList)
    (stmts : arena.stmts.toList <+: arena'.stmts.toList) : arena'.Lists n :=
  ⟨fun e he => getElem?_of_isPrefix exprs (h.exprs e he),
    fun s hs => getElem?_of_isPrefix stmts (h.stmts s hs), h.exprsIncrease, h.stmtsIncrease⟩

/-- The arena keeps each of the nodes under its number; the nodes right below a node are among them
and have lower numbers; and no number occurs twice, so no two paths lead to the same node. -/
structure Forest (arena : Arena) (nodes : Nodes) : Prop where
  exprs : ∀ e ∈ nodes.exprs, arena.exprs[e.tag.id]? = some e
  stmts : ∀ s ∈ nodes.stmts, arena.stmts[s.tag.id]? = some s
  exprChildren : ∀ e ∈ nodes.exprs, ∀ c ∈ e.children, c ∈ nodes.exprs ∧ c.tag.id < e.tag.id
  stmtExprs : ∀ s ∈ nodes.stmts, ∀ e ∈ s.exprs, e ∈ nodes.exprs
  stmtChildren : ∀ s ∈ nodes.stmts, ∀ c ∈ s.children, c ∈ nodes.stmts ∧ c.tag.id < s.tag.id
  exprsOnce : (nodes.exprs.map (·.tag.id)).Nodup
  stmtsOnce : (nodes.stmts.map (·.tag.id)).Nodup

/-- If each node is listed after those below it then those below it have lower numbers. -/
theorem Lists.forest (h : arena.Lists n) (whole : n.Whole) : arena.Forest n where
  exprs := h.exprs
  stmts := h.stmts
  exprChildren e he c hc := by
    have hbelow := whole.exprs e he
    have hincrease := (h.within hbelow).exprsIncrease
    rw [Nodes.ofExprs_singleton] at hbelow hincrease
    have hc := Expr.subset_nodesAll _ hc
    exact ⟨hbelow.exprs.subset (List.mem_append_left _ hc),
      (List.pairwise_append.1 hincrease).2.2 c hc e (List.mem_singleton.2 rfl)⟩
  stmtExprs s hs e he :=
    (whole.stmts s hs).exprs.subset (List.mem_append_left _ (s.exprs_subset_inside he))
  stmtChildren s hs c hc := by
    have hbelow := whole.stmts s hs
    have hincrease := (h.within hbelow).stmtsIncrease
    have hc := s.children_subset_inside hc
    exact ⟨hbelow.stmts.subset (List.mem_append_left _ hc),
      (List.pairwise_append.1 hincrease).2.2 c hc s (List.mem_singleton.2 rfl)⟩
  exprsOnce := List.pairwise_map.2 (h.exprsIncrease.imp Nat.ne_of_lt)
  stmtsOnce := List.pairwise_map.2 (h.stmtsIncrease.imp Nat.ne_of_lt)

end Arena

/-! ### Parsers -/

namespace Parser

/-- The later parser has the nodes of the earlier one and perhaps more, and the tokens to come are
among those to come before. -/
structure Continues (p q : Parser) : Prop where
  nodes : p.KeepsNodes q
  kinds : q.kinds ⊆ p.kinds

instance : TableFrame Continues where
  refl p := ⟨refl_of KeepsNodes p, List.Subset.refl _⟩
  trans _ _ _ h k := ⟨trans_of KeepsNodes h.nodes k.nodes, List.Subset.trans k.kinds h.kinds⟩
  advance p := ⟨Frame.advance p, (Frame.advance (R := ReadsOn) p).kinds_subset⟩
  note p n := ⟨Frame.note p n, List.Subset.refl _⟩
  addExpr p place build := ⟨Frame.addExpr p place build, List.Subset.refl _⟩
  addStmt p place build := ⟨Frame.addStmt p place build, List.Subset.refl _⟩
  setTypes p env := ⟨TableFrame.setTypes p env, List.Subset.refl _⟩

/-- The arena of a parser lists some nodes, and their literals have the property `Q`, as have those
of the tokens to come. -/
structure Lists (Q : Number → Prop) (p : Parser) (nodes : Nodes) : Prop where
  arena : p.arena.Lists nodes
  literals : ∀ tag value, .number tag value ∈ nodes.exprs → Q value
  tokens : ∀ text value, .number text value ∈ p.kinds → Q value

variable {Q : Number → Prop} {p q : Parser} {m n : Nodes}

theorem Lists.continues (h : p.Lists Q n) (hq : p.Continues q) : q.Lists Q n :=
  ⟨h.arena.of_isPrefix hq.nodes.exprs hq.nodes.stmts, h.literals,
    fun text value hk => h.tokens text value (hq.kinds hk)⟩

/-- The same nodes, and tokens that were to come before. -/
theorem Lists.of_arena (h : p.Lists Q n) (arena : q.arena = p.arena) (kinds : q.kinds ⊆ p.kinds) :
    q.Lists Q n :=
  ⟨arena ▸ h.arena, h.literals, fun text value hk => h.tokens text value (kinds hk)⟩

theorem Lists.within (h : p.Lists Q n) (hm : m.Within n) : p.Lists Q m :=
  ⟨h.arena.within hm, fun tag value he => h.literals tag value (hm.exprs.subset he), h.tokens⟩

end Parser

namespace Parse

open Nodes

variable {α β : Type} {Q : Number → Prop} {m n : Nodes} {f : α → Nodes}

/-- If the nodes `n` are listed then after `x` has succeeded those given by its result are. -/
def Grows (Q : Number → Prop) (n : Nodes) (x : Parse α) (f : α → Nodes) : Prop :=
  ∀ p : Parser, p.Lists Q n → Yields p x (fun a q => q.Lists Q (f a)) fun _ _ => True

theorem grows_bind {x : Parse α} {g : α → Parse β} {h : β → Nodes} (hx : Grows Q n x f)
    (hg : ∀ a, Grows Q (f a) (g a) h) : Grows Q n (x >>= g) h := fun p hp =>
  yields_bind ((hx p hp).mono (fun a => hg a) fun _ _ _ => trivial)

/-- What only reads on finishes no node of interest. -/
theorem grows_seq {x : Parse α} {g : α → Parse β} {h : β → Nodes} {R : α → Prop}
    (hx : Ensures Parser.Continues R x) (hg : ∀ a, Grows Q n (g a) h) :
    Grows Q n (x >>= g) h := fun p hp =>
  yields_bind ((hx p).yields (fun a q hq _ => hg a q (hp.continues hq)) fun _ _ _ => trivial)

theorem grows_of_ensures {x : Parse α} {R : α → Prop} (hx : Ensures Parser.Continues R x)
    (hf : ∀ a, R a → f a = n) : Grows Q n x f := fun p hp =>
  (hx p).yields (fun a _ hq ha => hf a ha ▸ hp.continues hq) fun _ _ _ => trivial

theorem grows_absurd {x : Parse α} (hx : Ensures Parser.Continues (fun _ => False) x) :
    Grows Q n x f := grows_of_ensures hx fun _ hf => hf.elim

theorem grows_guard {c : Prop} [Decidable c] {x : Parse α} {y : Parse β} {h : β → Nodes}
    (hx : Ensures Parser.Continues (fun _ => False) x) (hy : ¬ c → Grows Q n y h) :
    Grows Q n (if c then x >>= fun _ => y else y) h := by
  split
  · exact grows_absurd (ensures_absurd hx)
  · exact hy ‹_›

theorem grows_pure {a : α} (h : f a = n) : Grows Q n (pure a) f := fun p hp => by
  show p.Lists Q (f a)
  rwa [h]

theorem grows_throw (e : Failure) : Grows Q n (throw e) f := fun _ _ => trivial

/-- The literal of the current token has the property in question. -/
theorem grows_kind {g : Kind → Parse β} {h : β → Nodes}
    (hg : ∀ k, (∀ text value, k = .number text value → Q value) → Grows Q n (g k) h) :
    Grows Q n (kind >>= g) h := fun p hp =>
  have hliteral text value (hk : p.current.kind = .number text value) : Q value :=
    hp.tokens text value (List.mem_cons.2 (.inl hk.symm))
  hg p.current.kind hliteral p hp

/-- Nodes of no interest may be left out. -/
theorem Grows.weaken {x : Parse α} (h : Grows Q m x f) (hm : m.Within n) : Grows Q n x f :=
  fun p hp => h p (hp.within hm)

/-- An expression is finished after those right below it. -/
theorem grows_finishExpr {place : Location} {build : Tag → Expr} {children : List Expr}
    (hn : n = m ++ ofExprs children) (hchildren : ∀ tag, (build tag).children = children)
    (htag : ∀ tag, (build tag).tag = tag)
    (hliteral : ∀ tag tag' value, build tag = .number tag' value → Q value) :
    Grows Q n (finishExpr place build) fun e => m ++ ofExprs [e] := by
  intro p hp
  have hadd := hp.arena.addExpr place htag
  show Parser.Lists Q { p with arena := (p.arena.addExpr place build).2 }
    (m ++ ofExprs [(p.arena.addExpr place build).1])
  rw [ofExprs_singleton, show (p.arena.addExpr place build).1.children = children from hchildren _,
    ← append_assoc, ← hn]
  refine ⟨hadd, fun tag value he => ?_, hp.tokens⟩
  rcases List.mem_append.1 he with he | he
  · exact hp.literals tag value he
  · exact hliteral _ tag value (List.mem_singleton.1 he).symm

/-- A statement is finished after the nodes inside it. -/
theorem grows_finishStmt {place : Location} {build : Tag → Stmt} {inside : Nodes}
    (hn : n = m ++ inside) (hinside : ∀ tag, (build tag).inside = inside)
    (htag : ∀ tag, (build tag).tag = tag) :
    Grows Q n (finishStmt place build) fun s => m ++ s.nodes := by
  intro p hp
  have hadd := hp.arena.addStmt place htag
  show Parser.Lists Q { p with arena := (p.arena.addStmt place build).2 }
    (m ++ (p.arena.addStmt place build).1.nodes)
  rw [Stmt.nodes, show (p.arena.addStmt place build).1.inside = inside from hinside _,
    ← append_assoc, ← hn]
  exact ⟨hadd, fun tag value he => hp.literals tag value (by simpa using! he), hp.tokens⟩

/-! ### Expressions -/

/-- Every function that reads a part of an expression adds the nodes of what it reads. -/
private structure ExprGrows (Q : Number → Prop) (fuel : Nat) : Prop where
  expression n : Grows Q n (expression fuel) fun e => n ++ ofExprs [e]
  operators n least left :
    Grows Q (n ++ ofExprs [left]) (operators fuel least left) fun e => n ++ ofExprs [e]
  tighter n op right :
    Grows Q (n ++ ofExprs [right]) (tighter fuel op right) fun e => n ++ ofExprs [e]
  unary n : Grows Q n (unary fuel) fun e => n ++ ofExprs [e]
  suffixed n : Grows Q n (suffixed fuel) fun e => n ++ ofExprs [e]
  suffixes n e : Grows Q (n ++ ofExprs [e]) (suffixes fuel e) fun e => n ++ ofExprs [e]
  arguments n list : Grows Q n (arguments fuel list) fun es => n ++ ofExprs es
  nextArguments n list : Grows Q n (nextArguments fuel list) fun es => n ++ ofExprs es
  primary n : Grows Q n (primary fuel) fun e => n ++ ofExprs [e]

private theorem append_ofExprs_cons (n : Nodes) (e : Expr) (es : List Expr) :
    n ++ ofExprs [e] ++ ofExprs es = n ++ ofExprs (e :: es) := by
  rw [append_assoc, ← ofExprs_cons]

private theorem append_ofExprs_nil (n : Nodes) : n = n ++ ofExprs [] := (append_empty n).symm

section

variable {fuel : Nat} (ih : ExprGrows Q fuel)
include ih

private theorem grows_expression_succ (n : Nodes) :
    Grows Q n (expression (fuel + 1)) fun e => n ++ ofExprs [e] := by
  rw [expression]
  exact grows_bind (ih.unary n) fun e => ih.operators n 0 e

private theorem grows_operators_succ (n : Nodes) (least : Nat) (left : Expr) :
    Grows Q (n ++ ofExprs [left]) (operators (fuel + 1) least left)
      fun e => n ++ ofExprs [e] := by
  rw [operators]
  refine grows_kind fun kind _ => ?_
  split
  · exact grows_pure rfl
  · split
    · exact grows_pure rfl
    · refine grows_seq ensures_place fun place => ?_
      refine grows_seq ensures_advance fun _ => ?_
      refine grows_bind (ih.unary _) fun right => ?_
      refine grows_bind (ih.tighter _ _ right) fun right => ?_
      rw [append_ofExprs_cons]
      exact grows_bind (grows_finishExpr rfl (fun _ => rfl) (fun _ => rfl) (by rintro _ _ _ ⟨⟩))
        fun e => ih.operators n _ e

private theorem grows_tighter_succ (n : Nodes) (op : BinaryOp) (right : Expr) :
    Grows Q (n ++ ofExprs [right]) (tighter (fuel + 1) op right) fun e => n ++ ofExprs [e] := by
  rw [tighter]
  refine grows_kind fun kind _ => ?_
  split
  · exact grows_pure rfl
  · split
    · exact ih.operators n _ right
    · exact grows_pure rfl

private theorem grows_unary_succ (n : Nodes) :
    Grows Q n (unary (fuel + 1)) fun e => n ++ ofExprs [e] := by
  rw [unary]
  refine grows_seq ensures_place fun place => ?_
  refine grows_kind fun kind _ => ?_
  split
  · exact ih.suffixed n
  · refine grows_seq ensures_advance fun _ => ?_
    refine grows_bind (ih.unary n) fun operand => ?_
    split
    · exact grows_pure rfl
    · exact grows_finishExpr rfl (fun _ => rfl) (fun _ => rfl) (by rintro _ _ _ ⟨⟩)

private theorem grows_suffixed_succ (n : Nodes) :
    Grows Q n (suffixed (fuel + 1)) fun e => n ++ ofExprs [e] := by
  rw [suffixed]
  exact grows_bind (ih.primary n) fun e => ih.suffixes n e

private theorem grows_suffixes_succ (n : Nodes) (e : Expr) :
    Grows Q (n ++ ofExprs [e]) (suffixes (fuel + 1) e) fun e => n ++ ofExprs [e] := by
  rw [suffixes]
  refine grows_seq ensures_place fun place => ?_
  refine grows_kind fun kind _ => ?_
  split
  · refine grows_seq ensures_advance fun _ => ?_
    split
    · exact grows_absurd (ensures_fail _ _)
    · -- The node of the name of a function belongs to no tree.
      refine Grows.weaken ?_ (within_append_left n (ofExprs [e]))
      refine grows_bind (ih.arguments n _) fun args => ?_
      refine grows_seq (ensures_expect _ _) fun _ => ?_
      exact grows_bind (grows_finishExpr rfl (fun _ => rfl) (fun _ => rfl) (by rintro _ _ _ ⟨⟩))
        fun e => ih.suffixes n e
  · refine grows_seq ensures_advance fun _ => ?_
    refine grows_bind (ih.expression _) fun index => ?_
    refine grows_seq (ensures_expect _ _) fun _ => ?_
    rw [append_ofExprs_cons]
    exact grows_bind (grows_finishExpr rfl (fun _ => rfl) (fun _ => rfl) (by rintro _ _ _ ⟨⟩))
      fun e => ih.suffixes n e
  · refine grows_seq ensures_advance fun _ => ?_
    refine grows_seq (ensures_expectName _) fun field => ?_
    exact grows_bind (grows_finishExpr rfl (fun _ => rfl) (fun _ => rfl) (by rintro _ _ _ ⟨⟩))
      fun e => ih.suffixes n e
  · exact grows_pure rfl

private theorem grows_arguments_succ (n : Nodes) (list : ArgumentList) :
    Grows Q n (arguments (fuel + 1) list) fun es => n ++ ofExprs es := by
  rw [arguments]
  refine grows_kind fun kind _ => ?_
  split
  · exact grows_pure (append_ofExprs_nil n).symm
  · exact ih.nextArguments n list

private theorem grows_nextArguments_succ (n : Nodes) (list : ArgumentList) :
    Grows Q n (nextArguments (fuel + 1) list) fun es => n ++ ofExprs es := by
  rw [nextArguments]
  refine grows_kind fun kind _ => ?_
  refine grows_guard (ensures_refuse _) fun _ => ?_
  refine grows_bind (ih.expression n) fun e => ?_
  refine grows_seq (ensures_accept? _) fun more => ?_
  split
  · exact grows_bind (ih.nextArguments _ list) fun es =>
      grows_pure (append_ofExprs_cons n e es).symm
  · refine grows_kind fun kind _ => ?_
    exact grows_guard (ensures_refuse _) fun _ => grows_pure rfl

private theorem grows_primary_succ (n : Nodes) :
    Grows Q n (primary (fuel + 1)) fun e => n ++ ofExprs [e] := by
  rw [primary]
  refine grows_seq ensures_place fun place => ?_
  refine grows_kind fun kind hkind => ?_
  split
  · refine grows_seq ensures_advance fun _ => ?_
    refine grows_finishExpr (append_ofExprs_nil n) (fun _ => rfl) (fun _ => rfl) ?_
    intro tag tag' value hvalue
    cases hvalue
    exact hkind _ _ rfl
  · refine grows_seq ensures_advance fun _ => ?_
    refine grows_kind fun kind _ => ?_
    split
    · refine grows_seq ensures_advance fun _ => ?_
      refine grows_bind (ih.expression n) fun operand => ?_
      refine grows_seq (ensures_expect _ _) fun _ => ?_
      exact grows_finishExpr rfl (fun _ => rfl) (fun _ => rfl) (by rintro _ _ _ ⟨⟩)
    · exact grows_finishExpr (append_ofExprs_nil n) (fun _ => rfl) (fun _ => rfl)
        (by rintro _ _ _ ⟨⟩)
  · refine grows_seq ensures_advance fun _ => ?_
    refine grows_bind (ih.expression n) fun e => ?_
    exact grows_seq (ensures_expect _ _) fun _ => grows_pure rfl
  · exact grows_absurd (ensures_refuse _)

end

private theorem exprGrows (fuel : Nat) : ExprGrows Q fuel := by
  induction fuel with
  | zero => constructor <;> intros <;> exact grows_throw _
  | succ fuel ih =>
    exact ⟨grows_expression_succ ih, grows_operators_succ ih, grows_tighter_succ ih,
      grows_unary_succ ih, grows_suffixed_succ ih, grows_suffixes_succ ih, grows_arguments_succ ih,
      grows_nextArguments_succ ih, grows_primary_succ ih⟩

private theorem grows_expression (n : Nodes) (fuel : Nat) :
    Grows Q n (expression fuel) fun e => n ++ ofExprs [e] := (exprGrows fuel).expression n

private theorem grows_arguments (n : Nodes) (fuel : Nat) (list : ArgumentList) :
    Grows Q n (arguments fuel list) fun es => n ++ ofExprs es := (exprGrows fuel).arguments n list

/-! ### Parts of statements -/

private theorem grows_optionalAfter (n : Nodes) (fuel : Nat) (mark : Kind) :
    Grows Q n (optionalAfter fuel mark) fun e => n ++ ofExprs e.toList := by
  refine grows_seq (ensures_accept? _) fun more => ?_
  split
  · exact grows_bind (grows_expression n fuel) fun e => grows_pure rfl
  · exact grows_pure (append_ofExprs_nil n).symm

private theorem grows_afterTarget (n : Nodes) (fuel : Nat) (start : Location) (target : Expr) :
    Grows Q (n ++ ofExprs [target]) (afterTarget fuel start target) fun s => n ++ s.nodes := by
  refine grows_kind fun kind _ => ?_
  split
  · split
    · exact grows_absurd (ensures_refuse _)
    · -- The node of the name that is declared belongs to no tree.
      refine Grows.weaken ?_ (within_append_left n (ofExprs [target]))
      refine grows_seq ensures_advance fun _ => ?_
      refine grows_seq (ensures_typeExpr fuel) fun type => ?_
      refine grows_bind (grows_optionalAfter n fuel _) fun init => ?_
      exact grows_finishStmt rfl (fun _ => rfl) fun _ => rfl
  · refine grows_guard (ensures_fail _ _) fun _ => ?_
    refine grows_seq ensures_advance fun _ => ?_
    refine grows_bind (grows_expression _ fuel) fun value => ?_
    exact grows_finishStmt (append_ofExprs_cons n target [value]) (fun _ => rfl) fun _ => rfl
  · refine grows_bind ((exprGrows fuel).operators n 0 target) fun value => ?_
    exact grows_finishStmt rfl (fun _ => rfl) fun _ => rfl

private theorem grows_returnStatement (n : Nodes) (fuel : Nat) (start : Location) :
    Grows Q n (returnStatement fuel start) fun s => n ++ s.nodes := by
  refine grows_seq ensures_get fun p => ?_
  split
  · exact grows_finishStmt (append_ofExprs_nil n) (fun _ => rfl) fun _ => rfl
  · refine grows_bind (grows_expression n fuel) fun value => ?_
    exact grows_finishStmt rfl (fun _ => rfl) fun _ => rfl

private theorem grows_printStatement (n : Nodes) (fuel : Nat) (start : Location) :
    Grows Q n (printStatement fuel start) fun s => n ++ s.nodes := by
  refine grows_seq (ensures_expect _ _) fun _ => ?_
  refine grows_bind (grows_arguments n fuel _) fun args => ?_
  refine grows_seq (ensures_expect _ _) fun _ => ?_
  exact grows_finishStmt rfl (fun _ => rfl) fun _ => rfl

private theorem grows_range (n : Nodes) (fuel : Nat) :
    Grows Q n (range fuel) fun r => n ++ ofExprs ([r.start, r.stop] ++ r.step.toList) := by
  refine grows_seq (ensures_expectName _) fun counter => ?_
  refine grows_seq (ensures_expect _ _) fun _ => ?_
  refine grows_seq (ensures_expect _ _) fun _ => ?_
  refine grows_seq (ensures_expect _ _) fun _ => ?_
  refine grows_bind (grows_expression n fuel) fun start => ?_
  refine grows_seq (ensures_expect _ _) fun _ => ?_
  refine grows_bind (grows_expression _ fuel) fun stop => ?_
  refine grows_bind (grows_optionalAfter _ fuel _) fun step => ?_
  rw [append_ofExprs_cons, append_assoc, ← ofExprs_append]
  refine grows_seq (ensures_expect _ _) fun _ => ?_
  exact grows_seq (ensures_expect _ _) fun _ => grows_pure rfl

private theorem grows_pattern (n : Nodes) (fuel : Nat) (wild : Bool) :
    Grows Q n (pattern fuel wild) fun pattern => n ++ ofExprs pattern.exprs := by
  refine grows_kind fun kind _ => ?_
  split
  · split
    · exact grows_seq ensures_place fun place => grows_absurd (ensures_absurd (ensures_fail _ _))
    · exact grows_seq ensures_advance fun _ => grows_pure (append_ofExprs_nil n).symm
  · exact grows_bind (grows_expression n fuel) fun value => grows_pure rfl

/-! ### Statements -/

/-- Every function that reads a part of a statement adds the nodes of what it reads. -/
private structure StmtGrows (Q : Number → Prop) (fuel : Nat) : Prop where
  statement n : Grows Q n (statement fuel) fun s => n ++ s.nodes
  ifStatement n : Grows Q n (ifStatement fuel) fun s => n ++ s.nodes
  elseSuite n : Grows Q n (elseSuite fuel) fun suite => n ++ Suite.nodesElse suite
  suite n : Grows Q n (suite fuel) fun suite => n ++ suite.nodes
  blockStatements n before : Grows Q (n ++ Stmt.nodesAll before) (blockStatements fuel before)
    fun ss => n ++ Stmt.nodesAll ss
  arms n before : Grows Q (n ++ Arm.nodesAll before) (arms fuel before)
    fun arms => n ++ Arm.nodesAll arms

private theorem nodesAll_singleton (s : Stmt) : Stmt.nodesAll [s] = s.nodes := append_empty s.nodes

section

variable {fuel : Nat} (ih : StmtGrows Q fuel)
include ih

private theorem grows_statement_succ (n : Nodes) :
    Grows Q n (statement (fuel + 1)) fun s => n ++ s.nodes := by
  rw [statement]
  refine grows_seq ensures_place fun start => ?_
  refine grows_kind fun kind _ => ?_
  split
  · exact ih.ifStatement n
  · refine grows_seq ensures_advance fun _ => ?_
    refine grows_bind (grows_range n fuel) fun range => ?_
    refine grows_bind (ih.suite _) fun body => ?_
    exact grows_finishStmt (append_assoc _ _ _) (fun _ => rfl) fun _ => rfl
  · refine grows_seq ensures_advance fun _ => ?_
    refine grows_bind (grows_expression n fuel) fun condition => ?_
    refine grows_seq (ensures_expect _ _) fun _ => ?_
    refine grows_bind (ih.suite _) fun body => ?_
    exact grows_finishStmt (append_assoc _ _ _) (fun _ => rfl) fun _ => rfl
  · refine grows_seq ensures_advance fun _ => ?_
    refine grows_seq (ensures_expect _ _) fun _ => ?_
    refine grows_bind (ih.suite n) fun body => ?_
    refine grows_seq (ensures_expect _ _) fun _ => ?_
    refine grows_bind (grows_expression _ fuel) fun condition => ?_
    exact grows_finishStmt (append_assoc _ _ _) (fun _ => rfl) fun _ => rfl
  · refine grows_seq ensures_advance fun _ => ?_
    refine grows_bind (grows_expression n fuel) fun scrutinee => ?_
    refine grows_seq (ensures_expect _ _) fun _ => ?_
    refine grows_seq (ensures_expect _ _) fun _ => ?_
    refine grows_seq (ensures_expect _ _) fun _ => ?_
    have harms := ih.arms (n ++ ofExprs [scrutinee]) []
    rw [show Arm.nodesAll [] = .empty from rfl, append_empty] at harms
    refine grows_bind harms fun arms => ?_
    refine grows_guard (ensures_refuse _) fun _ => ?_
    refine grows_seq (ensures_expect _ _) fun _ => ?_
    exact grows_finishStmt (append_assoc _ _ _) (fun _ => rfl) fun _ => rfl
  · exact grows_seq ensures_advance fun _ => grows_returnStatement n fuel start
  · exact grows_seq ensures_advance fun _ => grows_printStatement n fuel start
  · refine grows_seq ensures_advance fun _ => ?_
    exact grows_finishStmt (append_empty n).symm (fun _ => rfl) fun _ => rfl
  · refine grows_seq ensures_advance fun _ => ?_
    exact grows_finishStmt (append_empty n).symm (fun _ => rfl) fun _ => rfl
  any_goals exact grows_absurd (ensures_refuse _)
  · refine grows_bind ((exprGrows fuel).suffixed n) fun target => ?_
    exact grows_afterTarget n fuel start target
  · refine grows_bind (grows_expression n fuel) fun value => ?_
    exact grows_finishStmt rfl (fun _ => rfl) fun _ => rfl

private theorem grows_ifStatement_succ (n : Nodes) :
    Grows Q n (ifStatement (fuel + 1)) fun s => n ++ s.nodes := by
  rw [ifStatement]
  refine grows_seq ensures_place fun start => ?_
  refine grows_seq ensures_advance fun _ => ?_
  refine grows_bind (grows_expression n fuel) fun condition => ?_
  refine grows_seq (ensures_expect _ _) fun _ => ?_
  refine grows_bind (ih.suite _) fun thenSuite => ?_
  refine grows_bind (ih.elseSuite _) fun elseSuite => ?_
  rw [append_assoc, append_assoc, ← append_assoc (ofExprs [condition])]
  exact grows_finishStmt rfl (fun _ => rfl) fun _ => rfl

private theorem grows_elseSuite_succ (n : Nodes) :
    Grows Q n (elseSuite (fuel + 1)) fun suite => n ++ Suite.nodesElse suite := by
  rw [elseSuite]
  refine grows_seq ensures_place fun start => ?_
  refine grows_kind fun kind _ => ?_
  split
  · refine grows_bind (ih.ifStatement n) fun nested => ?_
    rw [← nodesAll_singleton]
    exact grows_pure rfl
  · refine grows_seq ensures_advance fun _ => ?_
    refine grows_seq (ensures_expect _ _) fun _ => ?_
    exact grows_bind (ih.suite n) fun suite => grows_pure rfl
  · exact grows_pure (append_empty n)

private theorem grows_suite_succ (n : Nodes) :
    Grows Q n (suite (fuel + 1)) fun suite => n ++ suite.nodes := by
  rw [suite]
  refine grows_kind fun kind _ => ?_
  split
  · refine grows_seq ensures_advance fun _ => ?_
    refine grows_seq ensures_place fun start => ?_
    refine grows_seq (ensures_expect _ _) fun _ => ?_
    have hstmts := ih.blockStatements n []
    rw [show Stmt.nodesAll [] = .empty from rfl, append_empty] at hstmts
    refine grows_bind hstmts fun stmts => ?_
    refine grows_guard (ensures_refuse _) fun _ => ?_
    exact grows_seq (ensures_expect _ _) fun _ => grows_pure rfl
  · refine grows_seq ensures_place fun start => ?_
    refine grows_bind (ih.statement n) fun stmt => ?_
    rw [← nodesAll_singleton]
    exact grows_pure rfl

private theorem grows_blockStatements_succ (n : Nodes) (before : List Stmt) :
    Grows Q (n ++ Stmt.nodesAll before) (blockStatements (fuel + 1) before)
      fun ss => n ++ Stmt.nodesAll ss := by
  rw [blockStatements]
  refine grows_seq (ensures_modify Parser.Frame.skipLineEnds) fun _ => ?_
  refine grows_seq ensures_get fun p => ?_
  split
  · exact grows_pure rfl
  · refine grows_bind (ih.statement _) fun stmt => ?_
    refine grows_seq (ensures_expectStatementEnd _) fun _ => ?_
    rw [append_assoc, ← nodesAll_singleton, ← Stmt.nodesAll_append]
    exact ih.blockStatements n _

private theorem grows_arms_succ (n : Nodes) (before : List Arm) :
    Grows Q (n ++ Arm.nodesAll before) (arms (fuel + 1) before)
      fun arms => n ++ Arm.nodesAll arms := by
  rw [arms]
  refine grows_seq (ensures_modify Parser.Frame.skipLineEnds) fun _ => ?_
  refine grows_seq ensures_get fun p => ?_
  split
  · exact grows_pure rfl
  · refine grows_seq ensures_place fun start => ?_
    refine grows_seq (ensures_expect _ _) fun _ => ?_
    refine grows_bind (grows_pattern _ fuel _) fun pattern => ?_
    refine grows_seq (ensures_expect _ _) fun _ => ?_
    refine grows_bind (ih.suite _) fun body => ?_
    refine grows_seq (ensures_expectStatementEnd _) fun _ => ?_
    have harm : Arm.nodesAll [.mk start pattern body] = ofExprs pattern.exprs ++ body.nodes :=
      append_empty _
    rw [append_assoc, append_assoc, ← append_assoc (Arm.nodesAll before), append_assoc,
      ← harm, ← Arm.nodesAll_append]
    exact ih.arms n _

end

private theorem stmtGrows (fuel : Nat) : StmtGrows Q fuel := by
  induction fuel with
  | zero => constructor <;> intros <;> exact grows_throw _
  | succ fuel ih =>
    exact ⟨grows_statement_succ ih, grows_ifStatement_succ ih, grows_elseSuite_succ ih,
      grows_suite_succ ih, grows_blockStatements_succ ih, grows_arms_succ ih⟩

/-! ### Items -/

private theorem grows_itemShape (n : Nodes) (fuel : Nat) (start : Location) :
    Grows Q n (itemShape fuel start) fun shape => n ++ Item.nodes ⟨shape, start⟩ := by
  refine grows_kind fun kind _ => ?_
  split
  · refine grows_seq ensures_advance fun _ => ?_
    refine grows_seq (ensures_prototype fuel) fun proto => ?_
    refine grows_seq (ensures_expect _ _) fun _ => ?_
    refine grows_bind ((stmtGrows fuel).suite n) fun body => ?_
    exact grows_seq (ensures_note _) fun _ => grows_pure rfl
  · refine grows_seq ensures_advance fun _ => ?_
    refine grows_seq (ensures_expect _ _) fun _ => ?_
    exact grows_seq (ensures_prototype fuel) fun proto => grows_pure (append_empty n)
  · refine grows_seq ensures_advance fun _ => ?_
    refine grows_of_ensures (ensures_typeAlias fuel) ?_
    rintro _ ⟨name, target, rfl⟩
    exact append_empty n
  · refine grows_seq ensures_advance fun _ => ?_
    refine grows_of_ensures (ensures_struct fuel start) ?_
    rintro _ ⟨name, rfl⟩
    exact append_empty n
  · exact grows_absurd (ensures_refuse _)
  · exact grows_bind ((stmtGrows fuel).statement n) fun stmt => grows_pure rfl

/-- Reading an item adds its nodes. -/
theorem grows_item (n : Nodes) (fuel : Nat) :
    Grows Q n (item fuel) fun item => n ++ item.nodes := by
  refine grows_seq ensures_place fun start => ?_
  refine grows_bind (grows_itemShape n fuel start) fun shape => ?_
  refine grows_seq ensures_get fun p => ?_
  exact grows_guard (ensures_refuse _) fun _ => grows_pure rfl

end Parse

namespace Parser

variable {Q : Number → Prop} {p q : Parser} {n : Nodes}

theorem Lists.of_read (h : p.Lists Q n) {item : Item} (read : p.parseItem = (some item, q)) :
    q.Lists Q (n ++ item.nodes) := by
  rw [parseItem] at read
  split at read
  · next hrun =>
    obtain ⟨hitem, rfl⟩ := Prod.mk.inj read
    obtain rfl := Option.some.inj hitem
    have hitem := Parse.grows_item n p.fuel p h
    exact hitem.ok hrun
  · cases read

/-- What cannot be read leaves no node. -/
theorem Lists.of_unread (h : p.Lists Q n) (read : p.parseItem = (none, q)) : q.Lists Q n := by
  have hkinds := (TokenFrame.parseItem (R := ReadsOn) p).kinds_subset
  rw [read] at hkinds
  exact h.of_arena (arena_of_unread read) hkinds

end Parser

end Offside
