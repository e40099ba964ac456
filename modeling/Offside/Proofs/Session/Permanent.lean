import Offside.Proofs.Parser.Numbered
import Offside.Proofs.Session.Accepted
import Offside.Proofs.Session.Kept

/-!
# Accepted items stay as they are

The arena of a session keeps the nodes of the items accepted so far under numbers that increase
along them. An item that is refused leaves none of its own, and the next one is given the same
numbers again; as nodes are dropped only back to a moment after the last item that was accepted,
none of an accepted item ever is. So each of them is the same at any time before a restart, and so
is its lowering.

## Main definitions

* `Offside.Session.nodes`: the nodes of the accepted items.

## Main results

* `Offside.Session.lists_step`: a step lists the nodes of the item that it accepts.
* `Offside.Session.permanent_of_reachable`: accepted items are well-formed trees, and stay as they
  are.
-/

namespace Offside

/-- Lowering looks up the declaration of a struct in the type tables, and nothing else. -/
theorem lowerItem_congr {σ ε V : Type} (backend : Backend σ ε V) {types types' : TypeEnv}
    {item : Item}
    (h : ∀ name, item.shape = .struct name → types'.structDecl? name = types.structDecl? name) :
    lowerItem backend types' item = lowerItem backend types item := by
  obtain ⟨shape, place⟩ := item
  cases shape with
  | struct name =>
    rw [lowerItem, lowerItem]
    dsimp only
    rw [h name rfl]
  | function | external | typeAlias | statement => rfl

namespace Session

variable {s : Session} {Q : Number → Prop} {n : Nodes}

/-- The nodes of the accepted items, each once for every path to it. -/
def nodes (s : Session) : Nodes := Item.nodesAll s.items.toList

/-! ### Steps -/

theorem lists_fail (h : s.parser.Lists Q n) : s.fail.2.parser.Lists Q n := by
  rw [fail]
  split <;> exact h.of_arena rfl (List.Subset.refl _)

/-- A step lists the nodes of the item that it accepts, and keeps those that are listed. -/
theorem lists_step (h : s.parser.Lists Q s.nodes) : s.step.2.parser.Lists Q s.step.2.nodes := by
  have hitem : s.atItem.Lists Q s.nodes :=
    h.of_arena (arena_atItem s) (readsOn_atItem s).kinds_subset
  have hrefused {t : Session} (ht : t.items = s.items) (hp : t.parser.Lists Q s.nodes) :
      t.fail.2.parser.Lists Q t.fail.2.nodes := by
    rw [nodes, items_fail, ht]
    exact lists_fail hp
  have hstepped := stepped_step s
  generalize s.step = outcome at *
  cases hstepped with
  | halted => exact h
  | ended => exact hitem
  | unread q _ _ read => exact hrefused rfl (hitem.of_unread read)
  | refused item q d c _ _ read =>
    have hq := hitem.of_read read
    refine hrefused rfl ⟨?_, hitem.literals, hq.tokens⟩
    show (q.arena.rollback s.atItem.arena.mark).Lists s.nodes
    rw [(Parser.keepsNodes_of_read read).rollback]
    exact hitem.arena
  | accepted item q c _ _ read =>
    show Parser.Lists Q _ (Item.nodesAll (s.items.push item).toList)
    rw [Array.toList_push, Item.nodesAll_append]
    have hq := hitem.of_read read
    rw [← Nodes.append_empty item.nodes] at hq
    exact hq.of_arena rfl (List.Subset.refl _)

/-- If every literal of every text has a property then so have those of the accepted items, and the
arena lists their nodes. -/
theorem lists_of_reachable
    (hQ : ∀ lexer text value, .number text value ∈ (Parser.ofLexer lexer).kinds → Q value)
    (h : s.Reachable) : s.parser.Lists Q s.nodes := by
  have hstart (lexer : Lexer) : (Parser.ofLexer lexer).Lists Q .empty :=
    ⟨Arena.lists_empty _, fun _ _ he => absurd he List.not_mem_nil, hQ lexer⟩
  induction h with
  | start lexer options => exact hstart lexer
  | step _ ih => exact lists_step ih
  | @restart s _ lexer ih => exact (hstart lexer).of_arena rfl (List.Subset.refl _)

/-! ### Later on -/

/-- No accepted item is given up. -/
theorem items_prefix_step (s : Session) : s.items.toList <+: s.step.2.items.toList := by
  have hstepped := stepped_step s
  generalize s.step = outcome at *
  cases hstepped with
  | halted | ended => exact List.prefix_rfl
  | unread | refused => rw [items_fail]
  | accepted item =>
    rw [Array.toList_push]
    exact List.prefix_append _ _

theorem items_prefix_after (n : Nat) (s : Session) :
    s.items.toList <+: (s.after n).items.toList := by
  induction n with
  | zero => exact List.prefix_rfl
  | succ n ih => exact ih.trans (items_prefix_step _)

theorem keepsStructs_after (n : Nat) (s : Session) : s.types.KeepsStructs (s.after n).types := by
  induction n with
  | zero => exact fun _ _ => rfl
  | succ n ih => exact ih.trans (keepsStructs_step _)

theorem Reachable.after (h : s.Reachable) (n : Nat) : (s.after n).Reachable := by
  induction n with
  | zero => exact h
  | succ n ih => exact .step ih

theorem nodes_within_after (n : Nat) (s : Session) : s.nodes.Within (s.after n).nodes := by
  obtain ⟨more, hmore⟩ := items_prefix_after n s
  rw [nodes, nodes, ← hmore, Item.nodesAll_append]
  exact Nodes.within_append_left _ _

theorem mem_stmts_nodes {item : Item} (hitem : item ∈ s.items) {t : Stmt}
    (ht : t ∈ item.statements) : t ∈ s.nodes.stmts :=
  (Item.within_nodesAll (Array.mem_toList_iff.2 hitem)).stmts.subset (item.mem_stmts_nodes.2 ht)

/-- The arena keeps the nodes of the accepted items as a forest, now and at any time before a
restart. Until then the accepted items come first of all, the structs among them keep their
declarations, and each is lowered by the same calls of a backend as now. -/
theorem permanent_of_reachable (reachable : s.Reachable) :
    (∀ item ∈ s.items, ∀ t ∈ item.statements, t ∈ s.nodes.stmts) ∧
      s.parser.arena.Forest s.nodes ∧
      ∀ n, let t := s.after n
        t.parser.arena.Forest s.nodes ∧ s.items.toList <+: t.items.toList ∧
          ∀ item ∈ s.items,
            (∀ name, item.shape = .struct name → ∃ decl,
              s.types.structDecl? name = some decl ∧ t.types.structDecl? name = some decl) ∧
            ∀ {σ ε V : Type} (backend : Backend σ ε V),
              lowerItem backend t.types item = lowerItem backend s.types item := by
  have hwhole : s.nodes.Whole := Item.whole_nodesAll _
  have hforest (n : Nat) : (s.after n).parser.arena.Forest s.nodes := by
    have hlists :=
      lists_of_reachable (Q := fun _ => True) (fun _ _ _ _ => trivial) (reachable.after n)
    exact (hlists.arena.within (nodes_within_after n s)).forest hwhole
  refine ⟨fun item hitem t => mem_stmts_nodes hitem, hforest 0, fun n => ?_⟩
  refine ⟨hforest n, items_prefix_after n s, fun item hitem => ?_⟩
  have hdeclared := (accepted_of_reachable reachable item hitem).declared
  have hsame (name : String) (hshape : item.shape = .struct name) :
      (s.after n).types.structDecl? name = s.types.structDecl? name :=
    keepsStructs_after n s name (hdeclared name hshape)
  refine ⟨fun name hshape => ?_, fun backend => lowerItem_congr backend hsame⟩
  obtain ⟨decl, hdecl⟩ := Option.isSome_iff_exists.1 (hdeclared name hshape)
  exact ⟨decl, hdecl, (hsame name hshape).trans hdecl⟩

/-- A session on a loop with a `match` inside, a sum that cannot be read, and an assignment. -/
def loopAndSum : Session :=
  ofInput (.ofString
    ("while n < 3:\n  match n + f(n):\n    case 1: break\n    case -'a': n = n + 1\n" ++
      "    case _: continue\n1 + n +\nn = 2\n")) ⟨.interactive, defaultPrompt⟩

theorem reachable_loopAndSum (n : Nat) : (loopAndSum.after n).Reachable :=
  Reachable.after (.start _ _) n

/-- One of the nodes that have been finished belongs to no tree: the name of the function. The nodes
of the sum have been dropped, and the assignment is given their numbers. -/
theorem permanent_of_reachable_loopAndSum :
    let s := loopAndSum.after 1
    s.Reachable ∧ s.parser.arena.Forest s.nodes ∧ (s.after 2).parser.arena.Forest s.nodes ∧
      s.items.toList <+: (s.after 2).items.toList ∧
      s.nodes.exprs.length = 14 ∧ s.step.1 = .failed ∧
      (List.range 3).map (fun n => (s.after n).parser.arena.exprs.size) = [15, 15, 17] := by
  intro s
  have hreachable : s.Reachable := reachable_loopAndSum 1
  obtain ⟨-, hnow, hlater⟩ := permanent_of_reachable hreachable
  exact ⟨hreachable, hnow, (hlater 2).1, (hlater 2).2.1, by decide +kernel⟩

end Session

end Offside
