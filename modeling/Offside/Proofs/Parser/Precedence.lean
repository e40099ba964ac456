import Offside.Proofs.Canonical.Text
import Offside.Proofs.Parser.Derived
import Offside.Proofs.Parser.Recognized

/-!
# Operators by precedence

A chain of operands and binary operators is read as the tree in which the last of the weakest
operators is the root. The operands are whatever is read as an operand anywhere, since what is read
as an operand is one by the grammar, and what is one by the grammar is read as such before any
operator.

## Main definitions

* `Offside.Part.IsOperand`: the tokens of a part are read as an operand, to the last of them.

## Main results

* `Offside.Part.IsOperand.derives`: an operand that is read is one by the grammar.
* `Offside.Parse.run_expression_chain`: a chain is read as its tree, as an expression and as a
  statement.
-/

namespace Offside

open Parse

namespace Part

/-- Somewhere the tokens of a part are read as an operand, all of them and no more, and the tree
is that of the part up to tags. -/
def IsOperand (part : Part) : Prop :=
  ∃ (p : Parser) (fuel : Nat) (e : Expr) (q : Parser), p.Bounded ∧ (unary fuel).run p = .ok e q ∧
    p.kinds = part.tokens ++ q.kinds ∧ e.erase = part.expr

variable {part : Part}

/-- An operand that is read is one by the grammar. -/
theorem IsOperand.derives (h : part.IsOperand) : Derives part.tokens (.operand part.expr) := by
  obtain ⟨p, fuel, e, q, hp, hrun, hkinds, he⟩ := h
  obtain ⟨-, used, hused, hderives⟩ := (reads_unary hp fuel).exists hrun
  obtain rfl : used = part.tokens := List.append_cancel_right (hused.symm.trans hkinds)
  rwa [← he]

/-- A text with the tokens of an operand is read as one. -/
theorem isOperand_of_text {text : String} (htext : textKinds text = part.tokens)
    (h : Derives part.tokens (.operand part.expr)) : part.IsOperand := by
  have hkinds : (Parser.ofText text).kinds = part.tokens ++ [.endOfInput] := by
    rw [Parser.kinds_ofText, htext]
  have hfuel := (Parser.ofText text).enough_fuel.weaken (Nat.le_add_left 2 14)
  obtain ⟨e, q, hrun, he, hq⟩ := (h.isRead hkinds rfl hfuel).exists
  exact ⟨_, _, e, q, Parser.bounded_ofLexer _, hrun, hkinds.trans (by rw [hq]), he⟩

/-- A name by itself. -/
def ofName (name : String) : Part := ⟨[.identifier name], .var .erased name⟩

theorem isOperand_ofName {name : String} (h : IsName name) : (ofName name).IsOperand :=
  isOperand_of_text (textKinds_name h) (.operand (.name name))

end Part

/-- An operand that starts with a name has no sign before it. -/
theorem Derives.suffixed_of_name {ks : List Kind} {e : Expr} {name : String}
    (h : Derives ks (.operand e)) (hname : ks.head? = some (.identifier name)) :
    Derives ks (.suffixed e) := by
  cases h with
  | operand base => exact base
  | sign hsign =>
    rw [List.head?_cons, Option.some.injEq] at hname
    rw [hname] at hsign
    cases hsign

namespace Parse

/-- No declaration or assignment goes on with a binary operator. -/
private theorem ne_of_ofKind? {k : Kind} {op : BinaryOp} (h : BinaryOp.ofKind? k = some op) :
    k ≠ .symbol .colon ∧ k ≠ .symbol .assign := by
  constructor <;> rintro rfl <;> cases h

variable {p : Parser} {first : Part} {links : List Link} {k : Kind} {K : List Kind} {fuel : Nat}

private theorem derives_links (hlinks : ∀ l ∈ links, l.operand.IsOperand) :
    ∀ l ∈ links, Derives l.operand.tokens (.operand l.operand.expr) :=
  fun l hl => (hlinks l hl).derives

/-- A chain that starts with a name is read as a statement. -/
theorem succeeds_statement_chain {name : String} (hne : links ≠ [])
    (hname : first.tokens.head? = some (.identifier name))
    (hfirst : Derives first.tokens (.operand first.expr))
    (hlinks : ∀ l ∈ links, Derives l.operand.tokens (.operand l.operand.expr))
    (hp : p.kinds = first.tokens ++ links.flatMap Link.tokens ++ k :: K)
    (hk : k.extendsExpr = false) (hfuel : p.Enough 2 fuel) :
    Succeeds p (statement fuel) fun s q =>
      s.erase = .expr .erased (first.expr.group links) ∧ q.kinds = k :: K := by
  obtain ⟨fuel, rfl⟩ := hfuel.exists_succ
  obtain ⟨link, others, rfl⟩ := List.exists_cons_of_ne_nil hne
  obtain ⟨rest, hrest⟩ : ∃ rest, first.tokens = .identifier name :: rest :=
    ⟨_, (List.cons_head?_tail hname).symm⟩
  have hsuffixed := hfirst.suffixed_of_name hname
  have hmark := link.ofKind?_mark
  rw [List.append_assoc, List.flatMap_cons, Link.tokens, List.cons_append, List.cons_append] at hp
  have hhead : ∃ K', p.kinds = .identifier name :: K' := ⟨_, by rw [hp, hrest]; rfl⟩
  obtain ⟨K', hhead⟩ := hhead
  rw [statement]
  refine succeeds_place fun start => succeeds_kind hhead (succeeds_bind ?_)
  -- The name with its suffixes ends before the operator, and the operators follow it.
  have hopen : link.mark ≠ .symbol .openParen := fun h => by rw [h] at hmark; cases hmark
  refine hsuffixed.isRead hp (fun _ => hopen) hfuel.here fun n e q he hq hn => ?_
  refine succeeds_suffixes_nil hq (BinaryOp.extendsOperand_eq_false hmark) hn ?_
  have hq : q.kinds = (link :: others).flatMap Link.tokens ++ k :: K := by
    rw [hq, List.flatMap_cons, Link.tokens, List.cons_append, List.cons_append]
  have hoperators : Succeeds q (operators fuel 0 e) fun e' r =>
      e'.erase = e.erase.group (link :: others) ∧ r.kinds = k :: K := by
    refine succeeds_operators (fun l hl => (hlinks l hl).isRead) hk hq ?_
    exact (hfuel.here.mono (by grind)).weaken (Nat.zero_le _)
  rw [afterTarget]
  refine succeeds_kind hq ?_
  split
  · next hcolon => exact absurd hcolon (ne_of_ofKind? hmark).1
  · next hassign => exact absurd hassign (ne_of_ofKind? hmark).2
  · refine succeeds_bind (hoperators.mono ?_)
    rintro e' r ⟨he', hr⟩
    refine succeeds_finishStmt fun tag s hs _ => ⟨?_, hs.trans hr⟩
    rw [Stmt.erase, he', he]

/-- Operands that are read as such, with binary operators between them, are read up to the end of
the chain as the tree in which the last of the weakest operators is the root, and so on in the parts
before and after it. If the chain has an operator and starts with a name, it is read as a statement
with the same tree. -/
theorem run_expression_chain (hfirst : first.IsOperand)
    (hlinks : ∀ l ∈ links, l.operand.IsOperand)
    (hp : p.kinds = first.tokens ++ links.flatMap Link.tokens ++ k :: K)
    (hk : k.extendsExpr = false) (hfuel : p.Enough 3 fuel) :
    (∃ e q, (expression fuel).run p = .ok e q ∧ e.erase = first.expr.group links ∧
      q.kinds = k :: K) ∧
    (links ≠ [] → ∀ name, first.tokens.head? = some (.identifier name) →
      ∃ s q, (statement fuel).run p = .ok s q ∧
        s.erase = .expr .erased (first.expr.group links) ∧ q.kinds = k :: K) := by
  constructor
  · have hchain : Derives (first.tokens ++ links.flatMap Link.tokens)
        (.expression (first.expr.group links)) := .expression hfirst.derives (derives_links hlinks)
    exact (hchain.isRead hp hk hfuel).exists
  · intro hne name hname
    have hless : p.Enough 2 fuel := hfuel.weaken (Nat.le_succ 2)
    exact (succeeds_statement_chain hne hname hfirst.derives (derives_links hlinks) hp hk
      hless).exists

/-- In `a - b * c - d` the last minus is the root. -/
theorem run_expression_chain_minus :
    ∃ s q, (statement (Parser.ofText "a - b * c - d").fuel).run (Parser.ofText "a - b * c - d") =
        .ok s q ∧
      s.erase = .expr .erased (.binary .erased .sub
        (.binary .erased .sub (.var .erased "a")
          (.binary .erased .mul (.var .erased "b") (.var .erased "c"))) (.var .erased "d")) ∧
      q.kinds = [.endOfInput] := by
  have hname : IsName "a" ∧ IsName "b" ∧ IsName "c" ∧ IsName "d" := by decide
  have hkinds : (Parser.ofText "a - b * c - d").kinds =
      [.identifier "a", .symbol .minus, .identifier "b", .symbol .star, .identifier "c",
        .symbol .minus, .identifier "d", .endOfInput] := by decide +kernel
  let links : List Link := [⟨.symbol .minus, .sub, .ofName "b", rfl⟩,
    ⟨.symbol .star, .mul, .ofName "c", rfl⟩, ⟨.symbol .minus, .sub, .ofName "d", rfl⟩]
  have hlinks : ∀ l ∈ links, l.operand.IsOperand := by
    simp only [links, List.forall_mem_cons]
    exact ⟨Part.isOperand_ofName hname.2.1, Part.isOperand_ofName hname.2.2.1,
      Part.isOperand_ofName hname.2.2.2, List.forall_mem_nil _⟩
  have hfuel := (Parser.ofText "a - b * c - d").enough_fuel.weaken (Nat.le_add_left 3 13)
  obtain ⟨s, q, hrun, hs, hq⟩ :=
    (run_expression_chain (Part.isOperand_ofName hname.1) hlinks hkinds rfl hfuel).2
      (List.cons_ne_nil _ _) "a" rfl
  refine ⟨s, q, hrun, ?_, hq⟩
  rw [hs]
  simp [links, Part.ofName, Expr.group, Link.cut, Link.level, BinaryOp.precedence]

end Parse

end Offside
