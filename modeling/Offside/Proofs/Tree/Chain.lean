import Offside.Proofs.Tree.Erased

/-!
# Chains of operators

Operands with binary operators between them make a chain. The tree of a chain is known from the
precedences alone: the weakest operator is the root, the last one if there are several, and what
stands before and after it are its operands. The other way round, a chain can be read from the left:
what binds tighter than its first operator belongs to the operand of this operator, and the two
operands with the operator between them then count as one.

## Main definitions

* `Offside.Part`: an expression together with the tokens it was read from.
* `Offside.Link`: a binary operator with the operand after it.
* `Offside.Link.cut`: a chain cut at the last of its weakest operators.
* `Offside.Expr.group`: the tree of a chain.

## Main results

* `Offside.Expr.group_append`: the last of the weakest operators is the root.
* `Offside.Expr.group_fold`: the first operator and all that binds tighter come together first.
-/

namespace Offside

/-- An expression together with the tokens it was read from. -/
structure Part where
  tokens : List Kind
  expr : Expr

/-- A binary operator, with the token that stands for it and the operand after it. -/
structure Link where
  mark : Kind
  op : BinaryOp
  operand : Part
  ofKind?_mark : BinaryOp.ofKind? mark = some op

namespace Link

/-- How tightly the operator binds. -/
def level (link : Link) : Nat := link.op.precedence

/-- The tokens of a link. -/
def tokens (link : Link) : List Kind := link.mark :: link.operand.tokens

/-- A chain cut at one of its links. -/
structure Cut where
  before : List Link
  link : Link
  after : List Link

/-- A chain cut at the last of its weakest operators. -/
def cut (first : Link) : List Link → Cut
  | [] => ⟨[], first, []⟩
  | next :: rest =>
    let c := cut next rest
    if first.level < c.link.level then ⟨[], first, next :: rest⟩
    else ⟨first :: c.before, c.link, c.after⟩

/-- The operator of the cut is no stronger than those before it, and weaker than those after it. -/
structure Cut.Weakest (c : Cut) : Prop where
  before : ∀ l ∈ c.before, c.link.level ≤ l.level
  after : ∀ l ∈ c.after, c.link.level < l.level

/-- The links of a chain that was cut. -/
def Cut.links (c : Cut) : List Link := c.before ++ c.link :: c.after

theorem links_cut (first : Link) (rest : List Link) : (cut first rest).links = first :: rest := by
  induction rest generalizing first with
  | nil => rfl
  | cons next rest ih =>
    rw [cut]
    split
    · rfl
    · have hrest : (cut next rest).links = next :: rest := ih next
      rw [← hrest]
      rfl

theorem weakest_cut (first : Link) (rest : List Link) : (cut first rest).Weakest := by
  induction rest generalizing first with
  | nil => exact ⟨List.forall_mem_nil _, List.forall_mem_nil _⟩
  | cons next rest ih =>
    have hnext := ih next
    rw [cut]
    split
    · next hlt =>
      refine ⟨List.forall_mem_nil _, fun l hl => Nat.lt_of_lt_of_le hlt ?_⟩
      rw [← links_cut next rest, Cut.links, List.mem_append, List.mem_cons] at hl
      rcases hl with hl | rfl | hl
      · exact hnext.before l hl
      · exact Nat.le_refl _
      · exact Nat.le_of_lt (hnext.after l hl)
    · next hge => exact ⟨List.forall_mem_cons.2 ⟨Nat.le_of_not_lt hge, hnext.before⟩, hnext.after⟩

/-- Every chain has a last one among its weakest operators. -/
theorem exists_cut (first : Link) (rest : List Link) :
    ∃ before link after, before ++ link :: after = first :: rest ∧
      (∀ l ∈ before, link.level ≤ l.level) ∧ ∀ l ∈ after, link.level < l.level :=
  ⟨_, _, _, links_cut first rest, (weakest_cut first rest).before, (weakest_cut first rest).after⟩

/-- Of two such cuts of one chain neither is later than the other. -/
private theorem eq_nil_of_weakest {before after after' more : List Link} {link link' : Link}
    (hafter : ∀ l ∈ after, link.level < l.level)
    (hbefore : ∀ l ∈ before ++ more, link'.level ≤ l.level)
    (h : link :: after = more ++ link' :: after') : more = [] := by
  cases more with
  | nil => rfl
  | cons l more =>
    obtain ⟨rfl, rfl⟩ := List.cons.inj h
    have hle := hbefore link (by simp)
    have hlt := hafter link' (by simp)
    exact absurd hle (Nat.not_le_of_lt hlt)

/-- A chain has one such cut only. -/
theorem Cut.Weakest.eq {c d : Cut} (hc : c.Weakest) (hd : d.Weakest) (h : c.links = d.links) :
    c = d := by
  obtain ⟨before, link, after⟩ := c
  obtain ⟨before', link', after'⟩ := d
  rcases List.append_eq_append_iff.1 h with ⟨more, rfl, hmore⟩ | ⟨more, rfl, hmore⟩
  · obtain rfl := eq_nil_of_weakest hc.after hd.before hmore
    obtain ⟨rfl, rfl⟩ := List.cons.inj hmore
    rw [List.append_nil]
  · obtain rfl := eq_nil_of_weakest hd.after hc.before hmore
    obtain ⟨rfl, rfl⟩ := List.cons.inj hmore
    rw [List.append_nil]

theorem length_cut (first : Link) (rest : List Link) :
    (cut first rest).before.length < rest.length + 1 ∧
      (cut first rest).after.length < rest.length + 1 := by
  have hlength := congrArg List.length (links_cut first rest)
  rw [Cut.links, List.length_append, List.length_cons, List.length_cons] at hlength
  omega

end Link

namespace Expr

/-- The tree of an operand and the operators after it: the weakest operator is the root, the last
one if there are several. -/
def group (first : Expr) : List Link → Expr
  | [] => first
  | link :: links =>
    let c := Link.cut link links
    .binary .erased c.link.op (group first c.before) (group c.link.operand.expr c.after)
termination_by links => links.length
decreasing_by
  · exact (Link.length_cut link links).1
  · exact (Link.length_cut link links).2

variable {first : Expr} {link : Link}

@[simp] theorem group_nil : group first [] = first := by rw [group]

/-- The last of the weakest operators is the root. -/
theorem group_append {before after : List Link} (hbefore : ∀ l ∈ before, link.level ≤ l.level)
    (hafter : ∀ l ∈ after, link.level < l.level) :
    group first (before ++ link :: after) =
      .binary .erased link.op (group first before) (group link.operand.expr after) := by
  obtain ⟨l, ls, hls⟩ : ∃ l ls, before ++ link :: after = l :: ls :=
    List.exists_cons_of_ne_nil (by simp)
  have hcut : Link.cut l ls = ⟨before, link, after⟩ :=
    (Link.weakest_cut l ls).eq ⟨hbefore, hafter⟩ ((Link.links_cut l ls).trans hls.symm)
  rw [hls, group, hcut]

/-- The first operator, with what binds tighter after it, makes the left operand of the others. -/
theorem group_fold {tight loose : List Link} (htight : ∀ l ∈ tight, link.level < l.level)
    (hloose : ∀ l ∈ loose.head?, l.level ≤ link.level) :
    group first (link :: (tight ++ loose)) =
      group (.binary .erased link.op first (group link.operand.expr tight)) loose := by
  induction hn : loose.length using Nat.strongRecOn generalizing loose with
  | ind n ih =>
    cases loose with
    | nil =>
      rw [List.append_nil, group_nil, ← List.nil_append (link :: tight),
        group_append (List.forall_mem_nil _) htight, group_nil]
    | cons next rest =>
      have hnext : next.level ≤ link.level := hloose next rfl
      obtain ⟨before, root, after, hlinks, hbefore, hafter⟩ := Link.exists_cut next rest
      -- The root is no stronger than the first of the loose operators, hence weaker than the rest.
      have hroot : root.level ≤ link.level := by
        refine Nat.le_trans ?_ hnext
        cases before with
        | nil => exact Nat.le_of_eq (congrArg Link.level (List.cons.inj hlinks).1)
        | cons b before => exact (List.cons.inj hlinks).1 ▸ hbefore b List.mem_cons_self
      have hhead : ∀ l ∈ before.head?, l.level ≤ link.level := by
        cases before with
        | nil => simp
        | cons b before =>
          rintro _ ⟨⟩
          rwa [(List.cons.inj hlinks).1]
      have hall : ∀ l ∈ link :: (tight ++ before), root.level ≤ l.level := by
        refine List.forall_mem_cons.2 ⟨hroot, List.forall_mem_append.2 ⟨fun l hl => ?_, hbefore⟩⟩
        exact Nat.le_trans hroot (Nat.le_of_lt (htight l hl))
      have hshorter : before.length < n := by
        have := congrArg List.length hlinks
        rw [List.length_append, List.length_cons] at this
        omega
      calc group first (link :: (tight ++ next :: rest))
          = group first (link :: (tight ++ before) ++ root :: after) := by
            rw [← hlinks, List.cons_append, List.append_assoc]
        _ = .binary .erased root.op (group first (link :: (tight ++ before)))
              (group root.operand.expr after) := group_append hall hafter
        _ = .binary .erased root.op
              (group (.binary .erased link.op first (group link.operand.expr tight)) before)
              (group root.operand.expr after) := by rw [ih before.length hshorter hhead rfl]
        _ = group (.binary .erased link.op first (group link.operand.expr tight))
              (next :: rest) := by rw [← hlinks, group_append hbefore hafter]

end Expr

end Offside
