import Offside.Proofs.Parser.Quiet

/-!
# Reading on

Whatever is read of an item, the tokens that are read come first of those to come, and the parser
then stands on the last of them. Nodes are only added, so that those finished since some moment can
be dropped.

## Main definitions

* `Offside.Parser.TokenFrame`: relations that look at the tokens only.
* `Offside.Parser.ReadsOn`: a later parser of the same tokens.
* `Offside.Parser.ReadsTo`: whether the later parser stands behind a dedent.
* `Offside.Parser.KeepsNodes`: the nodes finished before some moment are kept.

## Main results

* `Offside.Parser.TokenFrame.parseItem`: an item that is read, or refused, reads on.
* `Offside.Parser.rollback_parseItem`: a refused item leaves no node.
-/

namespace Offside.Parser

variable {p q r : Parser}

section

variable {R : Parser → Parser → Prop} [TableFrame R] (emit : ∀ p d, R p (emit p d))
  (rollback : ∀ p mark, R p (rollback p mark))
include emit rollback

/-- Reporting a failure and going on at the next line. -/
theorem TableFrame.refused (p : Parser) (failure : Failure) (mark : Arena.Mark) :
    R p (((p.report failure).rollback mark).recover endsLine) := by
  have hreport : R p (p.report failure) := by
    cases failure with
    | diagnostic d => exact emit p d
    | shown | tooDeep => exact refl_of R p
  have hskip (r : Parser) : R r (r.recover endsLine) :=
    trans_of R (Frame.skipUntil endsLine r) (Frame.note _ _)
  exact trans_of R hreport (trans_of R (rollback _ _) (hskip _))

/-- Whatever comes of an item, a relation is kept that allows for what is read, for diagnostics and
for dropping nodes. -/
theorem TableFrame.parseItem (p : Parser) : R p p.parseItem.2 := by
  have hitem := Parse.ensures_item (R := R) p.fuel p
  rw [Parser.parseItem]
  split
  · next hrun => exact (hitem.ok hrun).1
  · next failure q hrun =>
    exact trans_of R (hitem.error hrun) (TableFrame.refused emit rollback q failure _)

end

/-! ### Relations between tokens -/

/-- Relations between an earlier and a later parser that only look at the tokens. -/
class TokenFrame (R : Parser → Parser → Prop) : Prop extends IsPreorder Parser R where
  advance (p : Parser) : R p p.advance
  same {p q : Parser} (current : q.current = p.current) (lexer : q.lexer = p.lexer)
    (rest : q.rest = p.rest) : R p q

variable {R : Parser → Parser → Prop} [TokenFrame R]

instance (priority := low) : TableFrame R where
  advance := TokenFrame.advance
  note _ _ := TokenFrame.same rfl rfl rfl
  addExpr _ _ _ := TokenFrame.same rfl rfl rfl
  addStmt _ _ _ := TokenFrame.same rfl rfl rfl
  setTypes _ _ := TokenFrame.same rfl rfl rfl

/-- Reporting a failure and going on is reading on. -/
theorem TokenFrame.refused (p : Parser) (failure : Failure) (mark : Arena.Mark) :
    R p (((p.report failure).rollback mark).recover endsLine) :=
  TableFrame.refused (fun _ _ => TokenFrame.same rfl rfl rfl)
    (fun _ _ => TokenFrame.same rfl rfl rfl) p failure mark

/-- So is reading an item, whatever comes of it. -/
theorem TokenFrame.parseItem (p : Parser) : R p p.parseItem.2 :=
  TableFrame.parseItem (fun _ _ => TokenFrame.same rfl rfl rfl)
    (fun _ _ => TokenFrame.same rfl rfl rfl) p

/-! ### The tokens that are read -/

/-- The parser `q` is `p`, or stands on one of the tokens that follow in `p`. -/
inductive ReadsOn (p q : Parser) : Prop
  | here (current : q.current = p.current) (lexer : q.lexer = p.lexer) (rest : q.rest = p.rest)
  | on (before : List Lexeme) (x : Lexeme) (current : q.current = x.token)
    (lexer : q.lexer = x.after) (rest : p.rest = before ++ x :: q.rest)

instance : TokenFrame ReadsOn where
  refl _ := .here rfl rfl rfl
  trans p q r h k := by
    cases k with
    | here current lexer rest =>
      cases h with
      | here current' lexer' rest' =>
        exact .here (current.trans current') (lexer.trans lexer') (rest.trans rest')
      | on before x current' lexer' rest' =>
        exact .on before x (current.trans current') (lexer.trans lexer') (rest ▸ rest')
    | on before x current lexer rest =>
      cases h with
      | here _ _ rest' => exact .on before x current lexer (rest' ▸ rest)
      | on before' x' _ _ rest' =>
        refine .on (before' ++ x' :: before) x current lexer ?_
        rw [rest', rest, List.append_assoc, List.cons_append]
  advance p := by
    rw [Parser.advance]
    cases hrest : p.rest with
    | nil => exact .here rfl rfl hrest.symm
    | cons x rest => exact .on [] x rfl rfl hrest
  same := .here

/-- Reading uses up tokens. -/
theorem ReadsOn.length_le (h : ReadsOn p q) : q.rest.length ≤ p.rest.length := by
  cases h with
  | here _ _ rest => exact Nat.le_of_eq (congrArg List.length rest)
  | on before x _ _ rest =>
    rw [rest, List.length_append, List.length_cons]
    omega

/-- The tokens that have been read come first of those to come. -/
theorem ReadsOn.exists_kinds (h : ReadsOn p q) : ∃ used, p.kinds = used ++ q.kinds := by
  cases h with
  | here current _ rest => exact ⟨[], by rw [kinds, kinds, current, rest, List.nil_append]⟩
  | on before x current _ rest =>
    refine ⟨p.current.kind :: before.map (·.token.kind), ?_⟩
    rw [kinds, kinds, current, rest, List.map_append]
    rfl

theorem ReadsOn.kinds_subset (h : ReadsOn p q) : q.kinds ⊆ p.kinds := by
  obtain ⟨used, hkinds⟩ := h.exists_kinds
  rw [hkinds]
  exact List.subset_append_right used q.kinds

/-- The end of the input still comes last. -/
theorem ReadsOn.bounded (h : ReadsOn p q) (hp : p.Bounded) : q.Bounded := by
  obtain ⟨used, hkinds⟩ := h.exists_kinds
  exact hp.of_append hkinds

/-- What is left tells how far has been read. -/
theorem ReadsOn.lexer_eq (h : ReadsOn p q) (k : ReadsOn p r) (hrest : q.rest = r.rest) :
    q.lexer = r.lexer := by
  have shorter {before : List Lexeme} {x : Lexeme} (hlater : p.rest = before ++ x :: p.rest) :
      False := by
    have hlength := congrArg List.length hlater
    rw [List.length_append, List.length_cons] at hlength
    omega
  cases h with
  | here _ lexer rest =>
    cases k with
    | here _ lexer' => rw [lexer, lexer']
    | on before x _ _ rest' =>
      rw [← hrest, rest] at rest'
      exact (shorter rest').elim
  | on before x _ lexer rest =>
    cases k with
    | here _ _ rest' =>
      rw [hrest, rest'] at rest
      exact (shorter rest).elim
    | on before' x' _ lexer' rest' =>
      rw [rest, hrest, List.append_cons before, List.append_cons before',
        List.append_cancel_right_eq] at rest'
      cases (List.append_inj' rest' rfl).2
      rw [lexer, lexer']

/-- What is done about an item once its shape has been read is reading on from there. -/
theorem readsOn_of_itemShape {shape : Item.Shape}
    (h : (Parse.itemShape p.fuel p.current.location).run p = .ok shape q) :
    q.ReadsOn p.parseItem.2 := by
  have hend : Ensures ReadsOn (fun _ => True) (do
      if !(← get).atItemEnd then Parse.refuse (.lineEnd .topLevelItem)
      return (⟨shape, p.current.location⟩ : Item)) :=
    ensures_seq ensures_get fun r =>
      ensures_guard (Parse.ensures_refuse _) fun _ => ensures_pure trivial
  have hitem : Yields p (Parse.item p.fuel) (fun _ r => q.ReadsOn r) fun _ r => q.ReadsOn r := by
    refine yields_bind (show Yields p (Parse.itemShape p.fuel p.current.location >>= _) _ _ from ?_)
    refine yields_bind ?_
    rw [EStateM.run] at h
    rw [Yields, h]
    exact (hend q).yields (fun _ _ hr _ => hr) fun _ _ hr => hr
  rw [Parser.parseItem]
  split
  · next hrun => exact hitem.ok hrun
  · next failure r hrun =>
    exact trans_of ReadsOn (hitem.error hrun) (TokenFrame.refused r failure _)

/-! ### Behind a dedent -/

/-- A later parser of the same tokens. It stands right behind a dedent if one is the last token that
has been read, but for the end of the input, which may have been read over and over. -/
def ReadsTo (p q : Parser) : Prop :=
  p.Bounded → ∃ used, p.kinds = used ++ q.kinds ∧
    (q.afterDedent = used.getLast?.elim p.afterDedent (decide <| · = .dedent) ∨
      q.afterDedent = false ∧ q.current.kind = .endOfInput)

/-- Parsers with the same tokens. -/
theorem ReadsTo.of_eq (kinds : q.kinds = p.kinds) (h : q.afterDedent = p.afterDedent) :
    p.ReadsTo q := fun _ => ⟨[], kinds.symm, .inl h⟩

instance : Frame ReadsTo where
  refl _ := .of_eq rfl rfl
  trans p q r hpq hqr hp := by
    obtain ⟨used, hused, hlast⟩ := hpq hp
    obtain ⟨more, hmore, hlast'⟩ := hqr (hp.of_append hused)
    refine ⟨used ++ more, by rw [hused, hmore, List.append_assoc], ?_⟩
    rcases hlast' with hlast' | hend
    · rw [List.getLast?_append, hlast']
      cases hm : more.getLast? with
      | some k => exact .inl rfl
      | none =>
        obtain rfl := List.getLast?_eq_none_iff.1 hm
        exact hlast.imp id fun hend => ⟨hend.1, (List.cons.inj hmore).1.symm.trans hend.2⟩
    · exact .inr hend
  advance p hp := by
    by_cases hend : p.current.kind = .endOfInput
    · have hrest : p.rest = [] := by simpa [kinds, hend] using hp.kinds_of_end hend
      refine ⟨[], by simp [advance, kinds, hrest], .inr ⟨?_, by simp [advance, hrest, hend]⟩⟩
      rw [afterDedent_advance, hend]
      rfl
    · exact ⟨[p.current.kind], (hp.advance hend).1, .inl (afterDedent_advance p)⟩
  note _ _ := .of_eq rfl rfl
  addExpr _ _ _ := .of_eq rfl rfl
  addStmt _ _ _ := .of_eq rfl rfl

/-- Behind another token than a dedent. -/
theorem ReadsTo.afterDedent_eq_false {used : List Kind} (h : p.ReadsTo q) (hp : p.Bounded)
    (hused : p.kinds = used ++ q.kinds) (hne : used ≠ []) (hlast : used.getLast? ≠ some .dedent) :
    q.afterDedent = false := by
  obtain ⟨used', hused', hdedent⟩ := h hp
  obtain rfl : used' = used := List.append_cancel_right (hused'.symm.trans hused)
  rcases hdedent with hdedent | hend
  · obtain ⟨k, hk⟩ := Option.ne_none_iff_exists'.1 (mt List.getLast?_eq_none_iff.1 hne)
    rw [hdedent, hk]
    refine decide_eq_false ?_
    rintro rfl
    exact hlast hk
  · exact hend.1

/-- A statement may end behind a dedent. -/
theorem ReadsTo.atStatementEnd {used : List Kind} (h : p.ReadsTo q) (hp : p.Bounded)
    (hused : p.kinds = used ++ q.kinds) (hlast : used.getLast? = some .dedent) :
    q.atStatementEnd := by
  obtain ⟨used', hused', hdedent⟩ := h hp
  obtain rfl : used' = used := List.append_cancel_right (hused'.symm.trans hused)
  rw [Parser.atStatementEnd]
  rcases hdedent with hdedent | ⟨-, hend⟩
  · rw [hdedent, hlast]
    rfl
  · simp [hend]

/-! ### Nodes -/

/-- The later parser has the nodes of the earlier one, and perhaps more. -/
structure KeepsNodes (p q : Parser) : Prop where
  exprs : p.arena.exprs.toList <+: q.arena.exprs.toList
  stmts : p.arena.stmts.toList <+: q.arena.stmts.toList

instance : TableFrame KeepsNodes where
  refl _ := ⟨List.prefix_rfl, List.prefix_rfl⟩
  trans _ _ _ h k := ⟨h.exprs.trans k.exprs, h.stmts.trans k.stmts⟩
  advance p := by
    rw [Parser.advance]
    split <;> exact ⟨List.prefix_rfl, List.prefix_rfl⟩
  note _ _ := ⟨List.prefix_rfl, List.prefix_rfl⟩
  addExpr p place build := ⟨by simp [Arena.addExpr], List.prefix_rfl⟩
  addStmt p place build := ⟨List.prefix_rfl, by simp [Arena.addStmt]⟩
  setTypes _ _ := ⟨List.prefix_rfl, List.prefix_rfl⟩

private theorem take_of_isPrefix {α : Type} {xs ys : Array α} (h : xs.toList <+: ys.toList) :
    ys.take xs.size = xs := by
  apply Array.toList_inj.1
  rw [List.prefix_iff_eq_take.1 h]
  simp

/-- Dropping the nodes that were added. -/
theorem KeepsNodes.rollback (h : KeepsNodes p q) : q.arena.rollback p.arena.mark = p.arena := by
  rw [Arena.rollback, Arena.mark]
  dsimp only
  rw [take_of_isPrefix h.exprs, take_of_isPrefix h.stmts]

/-- An item that is read adds nodes. -/
theorem keepsNodes_of_read {item : Item} (h : p.parseItem = (some item, q)) : KeepsNodes p q := by
  rw [Parser.parseItem] at h
  split at h
  · next hrun =>
    obtain rfl := (Prod.mk.inj h).2
    exact ((Parse.ensures_item p.fuel p).ok hrun).1
  · cases h

theorem arena_advance (p : Parser) : p.advance.arena = p.arena := by
  rw [Parser.advance]
  split <;> rfl

theorem arena_recover (stop : Kind → Bool) (p : Parser) : (p.recover stop).arena = p.arena := by
  show (p.skipUntil stop).2.arena = p.arena
  fun_induction skipUntil stop p with
  | case1 p h skipped q he ih =>
    rw [he] at ih
    exact ih.trans (arena_advance p)
  | case2 p h => rfl

/-- An item that is refused while it is read leaves no node. -/
theorem arena_of_unread (h : p.parseItem = (none, q)) : q.arena = p.arena := by
  rw [Parser.parseItem] at h
  split at h
  · cases h
  · next failure r hrun =>
    obtain rfl := (Prod.mk.inj h).2
    have hkeeps : KeepsNodes p r := (Parse.ensures_item p.fuel p).error hrun
    have hreport : (r.report failure).arena = r.arena := by cases failure <;> rfl
    rw [arena_recover, Parser.rollback, hreport, hkeeps.rollback]

end Offside.Parser
