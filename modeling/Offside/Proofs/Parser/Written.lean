import Offside.Proofs.Canonical.Piece
import Offside.Proofs.Parser.Derived

/-!
# Expressions written out

The tokens that were read as an expression can be told from its tree, but for what leaves no trace
in it: parentheses that only group, plus signs before operands, the spellings of literals and the
two ways to write a negation. Nothing else is lost on the way, and nothing is added.

Which parentheses only group is decided from the left: one that opens right after an operand
encloses the arguments of a call or the operand of `addr`, any other one groups.

## Main definitions

* `Offside.Expr.written`: the tokens of a tree, in order.
* `Offside.Kind.canonical`: a token without what leaves no trace in a tree.
* `Offside.ungroup`: tokens without grouping parentheses and plus signs before operands.

## Main results

* `Offside.Expr.written_group`: a chain is written operand by operand, whatever its tree.
* `Offside.Derives.ungroup_append`: the tokens of a phrase are those of its tree.
* `Offside.Parse.written_of_run_expression`: so are the tokens of every expression that is read.
-/

namespace Offside

/-! ### The tokens of a tree -/

/-- The token that stands for a binary operator. -/
def BinaryOp.kind : BinaryOp → Kind
  | or => .keyword .orWord
  | and => .keyword .andWord
  | bitOr => .symbol .bar
  | bitXor => .symbol .caret
  | bitAnd => .symbol .ampersand
  | eq => .symbol .equal
  | ne => .symbol .notEqual
  | lt => .symbol .less
  | gt => .symbol .greater
  | le => .symbol .lessEqual
  | ge => .symbol .greaterEqual
  | add => .symbol .plus
  | sub => .symbol .minus
  | mul => .symbol .star
  | div => .symbol .slash
  | mod => .symbol .percent

theorem BinaryOp.ofKind?_eq_some_iff {k : Kind} {op : BinaryOp} :
    ofKind? k = some op ↔ k = op.kind := by
  constructor
  · intro h
    unfold ofKind? at h
    split at h <;> cases h <;> rfl
  · rintro rfl
    cases op <;> rfl

/-- A token that stands for a unary operator. -/
def UnaryOp.kind : UnaryOp → Kind
  | neg => .symbol .minus
  | not => .keyword .notWord
  | bitNot => .symbol .tilde

/-- A token as it is written out: a literal is known by its value alone, and a negation of truth
values is written as the word. -/
def Kind.canonical : Kind → Kind
  | number _ value => number "" value
  | symbol .bang => keyword .notWord
  | k => k

@[simp] theorem BinaryOp.canonical_kind (op : BinaryOp) : op.kind.canonical = op.kind := by
  cases op <;> rfl

namespace Expr

mutual

/-- The tokens of a tree, in order and without parentheses around operands. -/
def written : Expr → List Kind
  | number _ value => [.number "" value]
  | var _ name => [.identifier name]
  | addressOf _ place =>
    .identifier "addr" :: .symbol .openParen :: (place.written ++ [.symbol .closeParen])
  | index _ base subscript =>
    base.written ++ .symbol .openBracket :: (subscript.written ++ [.symbol .closeBracket])
  | member _ object field => object.written ++ [.symbol .dot, .identifier field]
  | unary _ op operand => op.kind :: operand.written
  | binary _ op left right => left.written ++ op.kind :: right.written
  | call _ callee args =>
    .identifier callee :: .symbol .openParen ::
      ([.symbol .comma].intercalate (writtenAll args) ++ [.symbol .closeParen])

/-- The tokens of each of some trees. -/
def writtenAll : List Expr → List (List Kind)
  | [] => []
  | e :: es => e.written :: writtenAll es

end

mutual

/-- Tags are not written. -/
@[simp] theorem written_erase (e : Expr) : e.erase.written = e.written := by
  cases e with
  | number | var => rfl
  | addressOf _ place => rw [erase, written, written, written_erase place]
  | index _ base subscript =>
    rw [erase, written, written, written_erase base, written_erase subscript]
  | member _ object => rw [erase, written, written, written_erase object]
  | unary _ _ operand => rw [erase, written, written, written_erase operand]
  | binary _ _ left right => rw [erase, written, written, written_erase left, written_erase right]
  | call _ _ args => rw [erase, written, written, writtenAll_eraseAll args]

theorem writtenAll_eraseAll (es : List Expr) : writtenAll (eraseAll es) = writtenAll es := by
  cases es with
  | nil => rfl
  | cons e es => rw [eraseAll, writtenAll, writtenAll, written_erase e, writtenAll_eraseAll es]

end

/-- A chain is written operand by operand, whatever its tree. -/
theorem written_group (first : Expr) (links : List Link) :
    (first.group links).written =
      first.written ++ links.flatMap fun l => l.op.kind :: l.operand.expr.written := by
  induction hn : links.length using Nat.strongRecOn generalizing first links with
  | ind n ih =>
    cases links with
    | nil => simp
    | cons next rest =>
      obtain ⟨before, root, after, hlinks, hbefore, hafter⟩ := Link.exists_cut next rest
      have hlength := congrArg List.length hlinks
      rw [List.length_append, List.length_cons, hn] at hlength
      rw [← hlinks, group_append hbefore hafter, written, ih before.length (by omega) first before rfl,
        ih after.length (by omega) root.operand.expr after rfl]
      simp

end Expr

/-! ### Tokens that leave no trace -/

/-- Kinds of token with which an operand ends. -/
def Kind.endsOperand : Kind → Bool
  | identifier _ | number _ _ | symbol .closeParen | symbol .closeBracket => true
  | _ => false

/-- Tokens without the parentheses that only group and without the plus signs before operands.
`ended` tells whether an operand has just ended, and `calls`, for each parenthesis that is open, the
innermost first, whether it opened right after an operand. -/
def ungroup : Bool → List Bool → List Kind → List Kind
  | _, _, [] => []
  | true, calls, .symbol .openParen :: ks => .symbol .openParen :: ungroup false (true :: calls) ks
  | false, calls, .symbol .openParen :: ks => ungroup false (false :: calls) ks
  | _, true :: calls, .symbol .closeParen :: ks => .symbol .closeParen :: ungroup true calls ks
  | _, false :: calls, .symbol .closeParen :: ks => ungroup true calls ks
  | false, calls, .symbol .plus :: ks => ungroup false calls ks
  | _, calls, k :: ks => k :: ungroup k.endsOperand calls ks

/-- The tree of a phrase. -/
def Phrase.expr : Phrase → Expr
  | expression e | operand e | suffixed e => e

variable {ks : List Kind} {calls : List Bool}

/-- After an operand a binary operator stays. -/
theorem ungroup_mark {k : Kind} {op : BinaryOp} (h : BinaryOp.ofKind? k = some op) :
    ungroup true calls (k :: ks) = op.kind :: ungroup false calls ks := by
  obtain rfl := BinaryOp.ofKind?_eq_some_iff.1 h
  cases op <;> rfl

/-- Of the signs before an operand those stay that leave a trace in its tree. -/
theorem canonical_ungroup_sign {k : Kind} {sign : Parse.Sign} (h : Parse.Sign.ofKind? k = some sign)
    {e : Expr} {rest : List Kind}
    (ih : (ungroup false calls ks).map Kind.canonical = e.written ++ rest) :
    (ungroup false calls (k :: ks)).map Kind.canonical = (sign.before e).written ++ rest := by
  unfold Parse.Sign.ofKind? at h
  split at h <;> cases h
  case h_5 => exact ih
  all_goals
    rw [Parse.Sign.before, Expr.written, List.cons_append, ← ih]
    rfl

/-- Arguments up to the parenthesis that closes their list. -/
private theorem ungroup_list {parts : List Part} {rest : List Kind}
    (h : ∀ a ∈ parts, ∀ calls rest, (ungroup false calls (a.tokens ++ rest)).map Kind.canonical =
      a.expr.written ++ (ungroup true calls rest).map Kind.canonical) :
    (ungroup false (true :: calls) (Part.listTokens parts ++ .symbol .closeParen :: rest)).map
        Kind.canonical =
      [.symbol .comma].intercalate (Expr.writtenAll (parts.map Part.expr)) ++
        .symbol .closeParen :: (ungroup true calls rest).map Kind.canonical := by
  induction parts with
  | nil => rfl
  | cons part parts ih =>
    obtain ⟨hpart, hparts⟩ := List.forall_mem_cons.1 h
    cases parts with
    | nil =>
      rw [Part.listTokens_singleton, hpart]
      simp [Expr.writtenAll, ungroup, Kind.canonical]
    | cons next parts =>
      have hcomma (ks : List Kind) : ungroup true (true :: calls) (.symbol .comma :: ks) =
        .symbol .comma :: ungroup false (true :: calls) ks := rfl
      have hne : Expr.writtenAll ((next :: parts).map Part.expr) ≠ [] := List.cons_ne_nil _ _
      have hmap : (part :: next :: parts).map Part.expr =
        part.expr :: (next :: parts).map Part.expr := rfl
      rw [Part.listTokens_cons _ (List.cons_ne_nil _ _), List.append_assoc, hpart, List.cons_append,
        hcomma, List.map_cons, ih hparts, hmap,
        Expr.writtenAll, List.intercalate_cons_of_ne_nil hne]
      simp only [List.append_assoc, List.cons_append, List.nil_append, Kind.canonical]

/-- Operators with their operands. -/
private theorem ungroup_links {links : List Link} {rest : List Kind}
    (h : ∀ l ∈ links, ∀ calls rest,
      (ungroup false calls (l.operand.tokens ++ rest)).map Kind.canonical =
        l.operand.expr.written ++ (ungroup true calls rest).map Kind.canonical) :
    (ungroup true calls (links.flatMap Link.tokens ++ rest)).map Kind.canonical =
      (links.flatMap fun l => l.op.kind :: l.operand.expr.written) ++
        (ungroup true calls rest).map Kind.canonical := by
  induction links with
  | nil => rfl
  | cons link links ih =>
    obtain ⟨hlink, hlater⟩ := List.forall_mem_cons.1 h
    simp only [List.flatMap_cons, Link.tokens, List.cons_append, List.append_assoc,
      ungroup_mark link.ofKind?_mark, List.map_cons, hlink, ih hlater, BinaryOp.canonical_kind]

/-- The tokens of a phrase are those of its tree, with whatever follows. -/
theorem Derives.ungroup_append {phrase : Phrase} (h : Derives ks phrase) (calls : List Bool)
    (rest : List Kind) :
    (ungroup false calls (ks ++ rest)).map Kind.canonical =
      phrase.expr.written ++ (ungroup true calls rest).map Kind.canonical := by
  induction h generalizing calls rest with
  | number | name => rfl
  | @addressOf ks e _ ih =>
    have hopen : ungroup false calls (.identifier "addr" :: .symbol .openParen ::
        (ks ++ .symbol .closeParen :: rest)) = .identifier "addr" :: .symbol .openParen ::
          ungroup false (true :: calls) (ks ++ .symbol .closeParen :: rest) := rfl
    have hclose : ungroup true (true :: calls) (.symbol .closeParen :: rest) =
      .symbol .closeParen :: ungroup true calls rest := rfl
    simp only [List.cons_append, List.append_assoc, List.nil_append, hopen, List.map_cons, ih,
      hclose]
    simp [Phrase.expr, Expr.written, Kind.canonical]
  | @group ks e _ ih =>
    have hopen : ungroup false calls (.symbol .openParen :: (ks ++ .symbol .closeParen :: rest)) =
      ungroup false (false :: calls) (ks ++ .symbol .closeParen :: rest) := rfl
    have hclose : ungroup true (false :: calls) (.symbol .closeParen :: rest) =
      ungroup true calls rest := rfl
    simp only [List.cons_append, List.append_assoc, List.nil_append, hopen, ih, hclose]
    rfl
  | @call ks callee args _ _ _ ihbase ihparts =>
    have hopen (ks : List Kind) : ungroup true calls (.symbol .openParen :: ks) =
      .symbol .openParen :: ungroup false (true :: calls) ks := rfl
    simp only [List.cons_append, List.append_assoc, List.nil_append, ihbase, hopen, List.map_cons,
      ungroup_list ihparts]
    simp [Phrase.expr, Expr.written, Kind.canonical]
  | @index ks is e i _ _ ihbase ihindex =>
    have hopen (ks : List Kind) : ungroup true calls (.symbol .openBracket :: ks) =
      .symbol .openBracket :: ungroup false calls ks := rfl
    have hclose : ungroup true calls (.symbol .closeBracket :: rest) =
      .symbol .closeBracket :: ungroup true calls rest := rfl
    simp only [List.cons_append, List.append_assoc, List.nil_append, ihbase, hopen, List.map_cons,
      ihindex, hclose]
    simp [Phrase.expr, Expr.written, Kind.canonical]
  | @member ks e _ field ih =>
    have hdot : ungroup true calls (.symbol .dot :: .identifier field :: rest) =
      .symbol .dot :: .identifier field :: ungroup true calls rest := rfl
    simp only [List.cons_append, List.append_assoc, List.nil_append, ih, hdot, List.map_cons]
    simp [Phrase.expr, Expr.written, Kind.canonical]
  | operand _ ih => exact ih calls rest
  | sign hsign _ ih => exact canonical_ungroup_sign hsign (ih calls rest)
  | @expression ks e links _ _ ihfirst ihothers =>
    rw [List.append_assoc, ihfirst, ungroup_links ihothers]
    simp [Phrase.expr, Expr.written_group]

namespace Parse

/-- Whatever is read as an expression is what the tree says, written out in order: the tokens that
were read are those of the tree, but for parentheses that only group, plus signs before operands,
the spellings of literals and those of negations. -/
theorem written_of_run_expression {p q : Parser} {fuel : Nat} {e : Expr} (hp : p.Bounded)
    (hrun : (expression fuel).run p = .ok e q) :
    ∃ used, p.kinds = used ++ q.kinds ∧ (ungroup false [] used).map Kind.canonical = e.written := by
  obtain ⟨-, used, hused, hderives⟩ := (reads_expression hp fuel).exists hrun
  have hwritten := hderives.ungroup_append [] []
  refine ⟨used, hused, ?_⟩
  rw [List.append_nil, Phrase.expr, Expr.written_erase, ungroup, List.map_nil,
    List.append_nil] at hwritten
  exact hwritten

/-- Whether a computation succeeds can be computed. -/
instance {α : Type} {p : Parser} {x : Parse α} {ok : α → Parser → Prop}
    [∀ a q, Decidable (ok a q)] : Decidable (Succeeds p x ok) :=
  match h : x.run p with
  | .ok a q => decidable_of_iff (ok a q) (by rw [Succeeds, Yields]; rw [EStateM.run] at h; rw [h])
  | .error _ _ => isFalse fun hx => hx.error h

/-- A parser on a call with grouping parentheses and signs. -/
def signedCall : Parser := Parser.ofText "(+f)(a, !b)"

/-- Of the tokens of `(+f)(a, !b)` those of `f(a, not b)` are left. -/
theorem written_of_run_expression_signedCall :
    ∃ e q used, (expression signedCall.fuel).run signedCall = .ok e q ∧
      signedCall.kinds = used ++ q.kinds ∧ (ungroup false [] used).map Kind.canonical =
        [.identifier "f", .symbol .openParen, .identifier "a", .symbol .comma, .keyword .notWord,
          .identifier "b", .symbol .closeParen] := by
  have hread : Succeeds signedCall (expression signedCall.fuel) fun e _ => e.written =
      [.identifier "f", .symbol .openParen, .identifier "a", .symbol .comma, .keyword .notWord,
        .identifier "b", .symbol .closeParen] := by decide +kernel
  obtain ⟨e, q, hrun, he⟩ := hread.exists
  obtain ⟨used, hused, hwritten⟩ := written_of_run_expression (Parser.bounded_ofLexer _) hrun
  exact ⟨e, q, used, hrun, hused, hwritten.trans he⟩

end Parse

end Offside
