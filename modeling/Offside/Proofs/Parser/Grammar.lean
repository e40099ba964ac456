import Offside.Proofs.Parser.Transfer
import Offside.Proofs.Tree.Chain

/-!
# The grammar of expressions

Which tokens are an expression, and which tree they have, said without a parser: a chain of operands
with binary operators between them, an operand with the signs before it, and what suffixes may be
added to. Trees have no tags here.

A call is never of the name `addr` standing by itself, because an opening parenthesis after it makes
an address of what follows.

## Main definitions

* `Offside.Phrase`: the three sorts of phrases, with their trees.
* `Offside.Derives`: the tokens of a phrase.
* `Offside.Kind.extendsOperand`, `Offside.Kind.extendsExpr`: tokens with which an operand or an
  expression goes on.

## Main results

* `Offside.Derives.expression_of_suffixed`: an operand by itself is an expression.
* `Offside.Derives.exists_head`: the first token of a phrase starts an expression.
-/

namespace Offside

/-- Kinds of token with which an operand goes on. -/
def Kind.extendsOperand : Kind → Bool
  | symbol .openParen | symbol .openBracket | symbol .dot => true
  | _ => false

/-- Kinds of token with which an expression goes on. -/
def Kind.extendsExpr (k : Kind) : Bool := k.extendsOperand || (BinaryOp.ofKind? k).isSome

/-- No operand goes on with a binary operator. -/
theorem BinaryOp.extendsOperand_eq_false {k : Kind} {op : BinaryOp} (h : ofKind? k = some op) :
    k.extendsOperand = false := by
  unfold Kind.extendsOperand
  split
  all_goals first
    | rfl
    | cases h

theorem Kind.extendsExpr_eq_false_iff {k : Kind} :
    k.extendsExpr = false ↔ k.extendsOperand = false ∧ BinaryOp.ofKind? k = none := by
  rw [extendsExpr, Bool.or_eq_false_iff, Option.isSome_eq_false_iff, Option.isNone_iff_eq_none]

/-- An operand with a sign before it. -/
def Parse.Sign.before : Parse.Sign → Expr → Expr
  | .plus, e => e
  | .apply op, e => .unary .erased op e

/-- A part of an expression with its tree. -/
inductive Phrase
  /-- Operands with operators between them. -/
  | expression (e : Expr)
  /-- An operand with the signs before it. -/
  | operand (e : Expr)
  /-- A primary expression with its suffixes. -/
  | suffixed (e : Expr)

/-- The tokens of parts with commas between them. -/
def Part.listTokens (parts : List Part) : List Kind :=
  [.symbol .comma].intercalate (parts.map Part.tokens)

@[simp] theorem Part.listTokens_singleton (part : Part) : listTokens [part] = part.tokens := by
  simp [listTokens]

theorem Part.listTokens_cons (part : Part) {parts : List Part} (h : parts ≠ []) :
    listTokens (part :: parts) = part.tokens ++ .symbol .comma :: listTokens parts := by
  rw [listTokens, List.map_cons, List.intercalate_cons_of_ne_nil (by simpa using h), listTokens]
  simp

/-- The tokens of a phrase. -/
inductive Derives : List Kind → Phrase → Prop
  | number (text : String) (value : Number) :
    Derives [.number text value] (.suffixed (.number .erased value))
  | name (name : String) : Derives [.identifier name] (.suffixed (.var .erased name))
  | addressOf {ks : List Kind} {e : Expr} (place : Derives ks (.expression e)) :
    Derives (.identifier "addr" :: .symbol .openParen :: (ks ++ [.symbol .closeParen]))
      (.suffixed (.addressOf .erased e))
  | group {ks : List Kind} {e : Expr} (inside : Derives ks (.expression e)) :
    Derives (.symbol .openParen :: (ks ++ [.symbol .closeParen])) (.suffixed e)
  | call {ks : List Kind} {callee : String} {args : List Part}
      (base : Derives ks (.suffixed (.var .erased callee))) (hbase : ks ≠ [.identifier "addr"])
      (parts : ∀ a ∈ args, Derives a.tokens (.expression a.expr)) :
    Derives (ks ++ .symbol .openParen :: (Part.listTokens args ++ [.symbol .closeParen]))
      (.suffixed (.call .erased callee (args.map Part.expr)))
  | index {ks is : List Kind} {e i : Expr} (base : Derives ks (.suffixed e))
      (inside : Derives is (.expression i)) :
    Derives (ks ++ .symbol .openBracket :: (is ++ [.symbol .closeBracket]))
      (.suffixed (.index .erased e i))
  | member {ks : List Kind} {e : Expr} (object : Derives ks (.suffixed e)) (field : String) :
    Derives (ks ++ [.symbol .dot, .identifier field]) (.suffixed (.member .erased e field))
  | operand {ks : List Kind} {e : Expr} (base : Derives ks (.suffixed e)) : Derives ks (.operand e)
  | sign {k : Kind} {sign : Parse.Sign} {ks : List Kind} {e : Expr}
      (hsign : Parse.Sign.ofKind? k = some sign) (operand : Derives ks (.operand e)) :
    Derives (k :: ks) (.operand (sign.before e))
  | expression {ks : List Kind} {e : Expr} {links : List Link} (first : Derives ks (.operand e))
      (others : ∀ l ∈ links, Derives l.operand.tokens (.operand l.operand.expr)) :
    Derives (ks ++ links.flatMap Link.tokens) (.expression (e.group links))

namespace Derives

variable {ks : List Kind} {e : Expr}

/-- An operand by itself is an expression. -/
theorem expression_of_operand (h : Derives ks (.operand e)) : Derives ks (.expression e) := by
  have := @expression ks e [] h (List.forall_mem_nil _)
  rwa [List.flatMap_nil, List.append_nil, Expr.group_nil] at this

theorem expression_of_suffixed (h : Derives ks (.suffixed e)) : Derives ks (.expression e) :=
  h.operand.expression_of_operand

/-- A phrase has a token, and the first one starts an expression. -/
theorem exists_head {phrase : Phrase} (h : Derives ks phrase) :
    ∃ k rest, ks = k :: rest ∧ Parse.startsExpr k := by
  induction h with
  | number | name | addressOf | group => exact ⟨_, _, rfl, rfl⟩
  | call _ _ _ ih | index _ _ ih | member _ _ ih =>
    obtain ⟨k, rest, rfl, hk⟩ := ih
    exact ⟨k, _, rfl, hk⟩
  | operand _ ih => exact ih
  | @sign k sign ks _ hsign =>
    refine ⟨k, ks, rfl, ?_⟩
    unfold Parse.startsExpr
    split
    · rfl
    · rfl
    · rfl
    · rw [hsign]
      rfl
  | expression _ _ ih =>
    obtain ⟨k, rest, rfl, hk⟩ := ih
    exact ⟨k, _, rfl, hk⟩

/-- A primary expression with its suffixes does not begin with a sign. -/
theorem exists_head_suffixed (h : Derives ks (.suffixed e)) :
    ∃ k rest, ks = k :: rest ∧ Parse.Sign.ofKind? k = none := by
  generalize hphrase : Phrase.suffixed e = phrase at h
  induction h generalizing e with
  | number | name | addressOf | group => exact ⟨_, _, rfl, rfl⟩
  | call _ _ _ ih | index _ _ ih | member _ _ ih =>
    obtain ⟨k, rest, rfl, hk⟩ := ih rfl
    exact ⟨k, _, rfl, hk⟩
  | operand | sign | expression => cases hphrase

end Derives

end Offside
