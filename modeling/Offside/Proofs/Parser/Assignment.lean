import Offside.Proofs.Parser.Derived
import Offside.Proofs.Parser.Formed
import Offside.Proofs.Parser.Precedence
import Offside.Proofs.Parser.Unended

/-!
# What may stand before an equals sign

A statement is an assignment if the parser finds an equals sign where it looks for one, and it looks
for one only behind a name with its suffixes. Before any other equals sign the statement ends, since
no expression goes on with one, and a line may not end there.

So what stands before an equals sign is told apart by its tokens first, and by its tree only then. A
place in parentheses, or with a base in parentheses, is a place, but nothing is assigned to it; and
what is no place is reported as such only if it starts with a name and no operator follows.

## Main definitions

* `Offside.Expr.isBinary`: whether a binary operator is the root of an expression.
* `Offside.Parse.LooksForAssign`: texts behind which the parser looks for an equals sign.
* `Offside.Parse.ReadsLine`, `Offside.Parse.RefusesLine`: what comes of a line, as an item and in a
  block.

## Main results

* `Offside.Parse.readsLine_assign_iff`: what comes of a line with an equals sign.
-/

namespace Offside

/-! ### Names with suffixes -/

/-- Whether a binary operator is the root of an expression. -/
def Expr.isBinary : Expr → Bool
  | binary _ _ _ _ => true
  | number _ _ | var _ _ | addressOf _ _ | index _ _ _ | member _ _ _ | unary _ _ _
  | call _ _ _ => false

@[simp] theorem Expr.isBinary_erase (e : Expr) : e.erase.isBinary = e.isBinary := by
  cases e <;> rfl

theorem Expr.isBinary_group {first : Expr} {links : List Link} (h : links ≠ []) :
    (first.group links).isBinary := by
  obtain ⟨link, links, rfl⟩ := List.exists_cons_of_ne_nil h
  rw [group]
  rfl

/-- Only places and calls have a text that is a name with its suffixes. -/
theorem Derives.isBinary_eq_false {ks : List Kind} {e : Expr} {name : String}
    (h : Derives ks (.suffixed e)) (hname : ks.head? = some (.identifier name)) :
    e.isBinary = false := by
  cases h with
  | group => cases hname
  | number | name | addressOf | call | index | member => rfl

/-- What starts with a name is the name with its suffixes, or a chain of operators. -/
theorem Derives.cases_of_name {ks : List Kind} {e : Expr} {name : String}
    (h : Derives ks (.expression e)) (hname : ks.head? = some (.identifier name)) :
    e.isBinary = false ∧ Derives ks (.suffixed e) ∨
      e.isBinary = true ∧ ∃ (first : Part) (links : List Link), links ≠ [] ∧
        first.tokens.head? = some (.identifier name) ∧
        Derives first.tokens (.operand first.expr) ∧
        (∀ l ∈ links, Derives l.operand.tokens (.operand l.operand.expr)) ∧
        ks = first.tokens ++ links.flatMap Link.tokens ∧ e = first.expr.group links := by
  cases h with
  | @expression ks e links hfirst hothers =>
    have hhead : ks.head? = some (.identifier name) := by
      obtain ⟨k, rest, rfl, -⟩ := hfirst.exists_head
      exact hname
    cases links with
    | nil =>
      have hsuffixed := hfirst.suffixed_of_name hhead
      rw [List.flatMap_nil, List.append_nil, Expr.group_nil]
      exact .inl ⟨hsuffixed.isBinary_eq_false hhead, hsuffixed⟩
    | cons link links =>
      refine .inr ⟨Expr.isBinary_group (List.cons_ne_nil _ _), ⟨ks, e⟩, link :: links, ?_⟩
      exact ⟨List.cons_ne_nil _ _, hhead, hfirst, hothers, rfl, rfl⟩

namespace Parse

variable {α β : Type} {p : Parser}

/-! ### Reading that fails -/

/-- The computation `x`, started in `p`, fails, and then `bad` is true. -/
def Refuses (p : Parser) (x : Parse α) (bad : Failure → Parser → Prop) : Prop :=
  Yields p x (fun _ _ => False) bad

theorem Refuses.exists {x : Parse α} {bad : Failure → Parser → Prop} (h : Refuses p x bad) :
    ∃ e q, x.run p = .error e q ∧ bad e q := by
  cases hx : x.run p with
  | ok a q => exact (Yields.ok h hx).elim
  | error e q => exact ⟨e, q, rfl, Yields.error h hx⟩

theorem Refuses.bind {x : Parse α} {f : α → Parse β} {bad : Failure → Parser → Prop}
    (h : Refuses p x bad) : Refuses p (x >>= f) bad :=
  yields_bind (Yields.mono h (fun _ _ hf => hf.elim) fun _ _ hbad => hbad)

theorem refuses_bind {x : Parse α} {f : α → Parse β} {bad : Failure → Parser → Prop}
    (h : Succeeds p x fun a q => Refuses q (f a) bad) : Refuses p (x >>= f) bad :=
  yields_bind (Yields.mono h (fun _ _ hf => hf) fun _ _ hf => hf.elim)

theorem yields_place {f : Location → Parse β} {ok : β → Parser → Prop}
    {bad : Failure → Parser → Prop} (h : Yields p (f p.current.location) ok bad) :
    Yields p (place >>= f) ok bad := h

/-- A decision on the current token. -/
theorem yields_kind {f : Kind → Parse β} {ok : β → Parser → Prop} {bad : Failure → Parser → Prop}
    {k : Kind} {K : List Kind} (hp : p.kinds = k :: K) (h : Yields p (f k) ok bad) :
    Yields p (kind >>= f) ok bad := by
  obtain rfl := Parser.current_of_kinds hp
  exact h

/-- A token of a word or a sign is reported where it stands. -/
theorem refuses_refuse {expected : Expectation} {bad : Failure → Parser → Prop} {k : Kind}
    {K : List Kind} (hp : p.kinds = k :: K) (hk : k.isPlain)
    (h : bad (.diagnostic ⟨.syntactic expected k, p.current.location⟩) p) :
    Refuses p (refuse expected : Parse α) bad := by
  obtain rfl := Parser.current_of_kinds hp
  have hrun : (refuse expected : Parse α).run p =
      .error (.diagnostic ⟨.syntactic expected p.current.kind, p.current.location⟩) p := by
    show (if p.current.kind.isInvalid then _ else _ : Parse α) p = _
    cases hkind : p.current.kind with
    | identifier | number | keyword | symbol => rfl
    | endOfInput | endOfLine | indent | dedent | invalid => simp [hkind, Kind.isPlain] at hk
  rw [Refuses, Yields]
  rw [EStateM.run] at hrun
  rw [hrun]
  exact h

/-! ### Statements with an equals sign -/

section

variable {ks vs : List Kind} {target value : Expr} {k : Kind} {K : List Kind} {fuel : Nat}

/-- A name with its suffixes is read as the target of an assignment. -/
private theorem succeeds_target (hsuffixed : Derives ks (.suffixed target))
    (hp : p.kinds = ks ++ k :: K) (hk : k.extendsOperand = false) (hfuel : p.Enough 1 fuel) :
    Succeeds p (suffixed fuel) fun t q => t.erase = target ∧ q.kinds = k :: K :=
  hsuffixed.isRead hp (by rintro - rfl; cases hk) hfuel fun _ _ _ ht hq hn =>
    succeeds_suffixes_nil hq hk hn ⟨ht, hq⟩

theorem succeeds_statement_assign {name : String} (hname : ks.head? = some (.identifier name))
    (hsuffixed : Derives ks (.suffixed target)) (hplace : target.isAddressable)
    (hvalue : Derives vs (.expression value))
    (hp : p.kinds = ks ++ .symbol .assign :: (vs ++ k :: K)) (hk : k.extendsExpr = false)
    (hfuel : p.Enough 2 fuel) :
    Succeeds p (statement fuel) fun s q =>
      s.erase = .assign .erased target value ∧ q.kinds = k :: K := by
  obtain ⟨fuel, rfl⟩ := hfuel.exists_succ
  obtain ⟨rest, rfl⟩ := List.head?_eq_some_iff.1 hname
  rw [statement]
  refine succeeds_place fun start => succeeds_kind hp (succeeds_bind ?_)
  refine (succeeds_target hsuffixed hp rfl hfuel.here).mono ?_
  rintro t q ⟨rfl, hq⟩
  rw [afterTarget]
  refine succeeds_kind hq ?_
  dsimp only
  rw [← Expr.isAddressable_erase, hplace]
  refine succeeds_advance hq (by simp) fun q₁ h₁ _ => ?_
  have henough : q₁.Enough 3 fuel := (hfuel.after (by grind)).weaken (by omega)
  refine succeeds_bind ((hvalue.isRead h₁ hk henough).mono ?_)
  rintro v q₂ ⟨rfl, h₂⟩
  exact succeeds_finishStmt fun tag q₃ h₃ _ => ⟨rfl, h₃.trans h₂⟩

theorem refuses_statement_assign {name : String} (hname : ks.head? = some (.identifier name))
    (hsuffixed : Derives ks (.suffixed target)) (hplace : target.isAddressable = false)
    (hp : p.kinds = ks ++ .symbol .assign :: K) (hfuel : p.Enough 2 fuel) :
    Refuses p (statement fuel) fun e q =>
      e = .diagnostic ⟨.semantic .notAssignable, p.current.location⟩ ∧
        q.kinds = .symbol .assign :: K := by
  obtain ⟨fuel, rfl⟩ := hfuel.exists_succ
  obtain ⟨rest, rfl⟩ := List.head?_eq_some_iff.1 hname
  rw [statement]
  refine yields_place (yields_kind hp (refuses_bind ?_))
  refine (succeeds_target hsuffixed hp rfl hfuel.here).mono ?_
  rintro t q ⟨rfl, hq⟩
  rw [afterTarget]
  refine yields_kind hq ?_
  dsimp only
  rw [← Expr.isAddressable_erase, hplace]
  exact ⟨rfl, hq⟩

/-- Before any other equals sign the statement ends: it is the expression. -/
theorem succeeds_statement_expr (htarget : Derives ks (.expression target))
    (hlooks : ∀ name, ks.head? = some (.identifier name) → target.isBinary)
    (hp : p.kinds = ks ++ k :: K) (hk : k.extendsExpr = false) (hfuel : p.Enough 4 fuel) :
    Succeeds p (statement fuel) fun s q => s.erase = .expr .erased target ∧ q.kinds = k :: K := by
  obtain ⟨u, us, hu, hstarts⟩ := htarget.exists_head
  by_cases hname : ∃ name, u = .identifier name
  · obtain ⟨name, rfl⟩ := hname
    have hhead : ks.head? = some (.identifier name) := by rw [hu]; rfl
    rcases htarget.cases_of_name hhead with ⟨hbinary, -⟩ | ⟨-, first, links, hne, hfirst, hderives,
      hlinks, rfl, rfl⟩
    · rw [hlooks name hhead] at hbinary
      cases hbinary
    · exact succeeds_statement_chain hne hfirst hderives hlinks hp hk (hfuel.weaken (by omega))
  · obtain ⟨fuel, rfl⟩ := hfuel.exists_succ
    have hhead : p.kinds = u :: (us ++ k :: K) := by rw [hp, hu, List.cons_append]
    refine succeeds_statement_of_startsExpr hhead hstarts (fun name he => hname ⟨name, he⟩) ?_
    intro start
    refine succeeds_bind ((htarget.isRead hp hk hfuel.here).mono ?_)
    rintro e q ⟨rfl, hq⟩
    exact succeeds_finishStmt fun tag r hr _ => ⟨rfl, hr.trans hq⟩

end

/-! ### Lines -/

/-- Read the statement on a line of a block, to the end of the line. -/
def blockLine (fuel : Nat) : Parse Stmt := do
  let stmt ← statement fuel
  expectStatementEnd .statement
  return stmt

/-- A block is read line by line. -/
theorem blockStatements_succ (fuel : Nat) (before : List Stmt) :
    blockStatements (fuel + 1) before = (do
      modify Parser.skipLineEnds
      if (← get).atBlockEnd then return before
      blockStatements fuel (before ++ [← blockLine fuel])) := by
  rw [blockStatements]
  simp only [blockLine, bind_assoc, pure_bind]

/-- The line on which a parser stands is read as the statement `s`, as an item and in a block, and
the tokens `after` follow. A dedent, which may follow in a block, does not follow an item. -/
structure ReadsLine (p : Parser) (s : Stmt) (after : List Kind) : Prop where
  item (fuel : Nat) (hfuel : p.Enough 4 fuel) (hafter : after.head? ≠ some .dedent) :
    ∃ i q, (item fuel).run p = .ok i q ∧ i.shape.erase = .statement s ∧
      i.location = p.current.location ∧ q.kinds = after
  block (fuel : Nat) (hfuel : p.Enough 4 fuel) :
    ∃ t q, (blockLine fuel).run p = .ok t q ∧ t.erase = s ∧ q.kinds = after

/-- The line on which a parser stands is refused, as an item and in a block, where the tokens
`after` follow. The diagnostic may depend on what was to end there, and on where the parser then
stands. -/
structure RefusesLine (p : Parser) (error : Ending → Parser → Diagnostic) (after : List Kind) :
    Prop where
  item (fuel : Nat) (hfuel : p.Enough 4 fuel) :
    ∃ q, (item fuel).run p = .error (.diagnostic (error .topLevelItem q)) q ∧ q.kinds = after
  block (fuel : Nat) (hfuel : p.Enough 4 fuel) :
    ∃ q, (blockLine fuel).run p = .error (.diagnostic (error .statement q)) q ∧ q.kinds = after

section

variable {k : Kind} {K : List Kind}

/-- An item that starts as an expression does is a statement. -/
private theorem yields_itemShape_of_startsExpr {fuel : Nat} {start : Location}
    {ok : Item.Shape → Parser → Prop} {bad : Failure → Parser → Prop} (hp : p.kinds = k :: K)
    (hk : startsExpr k)
    (h : Yields p (statement fuel) (fun s q => ok (.statement s) q) bad) :
    Yields p (itemShape fuel start) ok bad := by
  rw [itemShape]
  refine yields_kind hp ?_
  split
  all_goals first
    | exact yields_bind h
    | cases hk

variable {after : List Kind} {error : Ending → Parser → Diagnostic}

private theorem readsLine_of_succeeds {s : Stmt} (hp : p.kinds = k :: K) (hk : startsExpr k)
    {u : Kind} {U : List Kind} (hu : u.isEnd)
    (h : ∀ fuel, p.Enough 4 fuel → Succeeds p (statement fuel) fun t q =>
      t.erase = s ∧ q.kinds = u :: U) : ReadsLine p s (u :: U) where
  item fuel hfuel hafter := by
    have hitem : Succeeds p (item fuel) fun i q => i.shape.erase = .statement s ∧
        i.location = p.current.location ∧ q.kinds = u :: U := by
      refine yields_place (succeeds_bind (yields_itemShape_of_startsExpr hp hk
        ((h fuel hfuel).mono ?_)))
      rintro t q ⟨rfl, hq⟩
      have hend : q.atItemEnd := by
        rw [Parser.atItemEnd, Parser.current_of_kinds hq]
        rcases Kind.eq_of_isEnd hu with rfl | rfl | rfl
        · simp
        · exact absurd rfl hafter
        · simp
      refine succeeds_get ?_
      rw [hend]
      exact ⟨rfl, rfl, hq⟩
    exact hitem.exists
  block fuel hfuel := by
    refine Succeeds.exists (succeeds_bind ((h fuel hfuel).mono ?_))
    rintro t q ⟨rfl, hq⟩
    have hend : q.atStatementEnd := by
      rw [Parser.atStatementEnd, Parser.current_of_kinds hq]
      rcases Kind.eq_of_isEnd hu with rfl | rfl | rfl <;> simp
    refine succeeds_bind (succeeds_get ?_)
    rw [hend]
    exact ⟨rfl, hq⟩

/-- Whatever is refused in a statement is refused in its line. -/
private theorem refusesLine_of_refuses {d : Diagnostic} (hp : p.kinds = k :: K)
    (hk : startsExpr k)
    (h : ∀ fuel, p.Enough 4 fuel → Refuses p (statement fuel) fun e q =>
      e = .diagnostic d ∧ q.kinds = after) : RefusesLine p (fun _ _ => d) after where
  item fuel hfuel := by
    have hitem : Refuses p (item fuel) fun e q => e = .diagnostic d ∧ q.kinds = after :=
      yields_place (Refuses.bind (yields_itemShape_of_startsExpr hp hk
        (Yields.mono (h fuel hfuel) (fun _ _ hf => hf.elim) fun _ _ he => he)))
    obtain ⟨_, q, hrun, rfl, hq⟩ := hitem.exists
    exact ⟨q, hrun, hq⟩
  block fuel hfuel := by
    obtain ⟨_, q, hrun, rfl, hq⟩ := (h fuel hfuel).bind.exists
    exact ⟨q, hrun, hq⟩

/-- No line ends before a sign. -/
private theorem refusesLine_of_succeeds {sign : Symbol} (hp : p.kinds = k :: K)
    (hk : startsExpr k)
    (h : ∀ fuel, p.Enough 4 fuel → Succeeds p (statement fuel) fun _ q =>
      q.kinds = .symbol sign :: after ∧ q.afterDedent = false) :
    RefusesLine p
      (fun ending q => ⟨.syntactic (.lineEnd ending) (.symbol sign), q.current.location⟩)
      (.symbol sign :: after) where
  item fuel hfuel := by
    have hitem : Refuses p (item fuel) fun e q => e = .diagnostic ⟨.syntactic
        (.lineEnd .topLevelItem) (.symbol sign), q.current.location⟩ ∧
          q.kinds = .symbol sign :: after := by
      refine yields_place (refuses_bind (yields_itemShape_of_startsExpr hp hk
        ((h fuel hfuel).mono ?_)))
      rintro t q ⟨hq, hdedent⟩
      have hend : q.atItemEnd = false := by
        simp [Parser.atItemEnd, Parser.current_of_kinds hq, hdedent]
      refine yields_get ?_
      rw [hend]
      exact Refuses.bind (refuses_refuse hq rfl ⟨rfl, hq⟩)
    obtain ⟨_, q, hrun, rfl, hq⟩ := hitem.exists
    exact ⟨q, hrun, hq⟩
  block fuel hfuel := by
    have hline : Refuses p (blockLine fuel) fun e q => e = .diagnostic ⟨.syntactic
        (.lineEnd .statement) (.symbol sign), q.current.location⟩ ∧
          q.kinds = .symbol sign :: after := by
      refine refuses_bind ((h fuel hfuel).mono ?_)
      rintro t q ⟨hq, hdedent⟩
      have hend : q.atStatementEnd = false := by
        simp [Parser.atStatementEnd, Parser.current_of_kinds hq, hdedent]
      refine Refuses.bind (yields_get ?_)
      rw [hend]
      exact refuses_refuse hq rfl ⟨rfl, hq⟩
    obtain ⟨_, q, hrun, rfl, hq⟩ := hline.exists
    exact ⟨q, hrun, hq⟩

end

end Parse

/-! ### Texts with an equals sign -/

section

variable {text place value : String} {e target : Expr}

/-- The tokens of two texts with an equals sign between them. -/
theorem textKinds_assignment (hplace : Spells place target) (hvalue : Spells value e) :
    textKinds (place ++ " = " ++ value) =
      textKinds place ++ .symbol .assign :: textKinds value := by
  let pieces : List Piece := [.text place, .gap, .sign .assign, .gap, .text value]
  have hjoined : Piece.Joined pieces := by
    refine ⟨?_, by simp [pieces, Piece.isSeparator]⟩
    simp only [pieces, List.forall_mem_cons, Piece.Sound, true_and]
    exact ⟨⟨target, hplace⟩, ⟨e, hvalue⟩, List.forall_mem_nil _⟩
  have hchars : (place ++ " = " ++ value).toList = pieces.flatMap Piece.chars ++ [] := by
    simp [pieces, Piece.chars, Symbol.spelling]
  obtain ⟨c, cs, hc, hmargin, hne⟩ := hplace.exists_first
  have hfirst : (place ++ " = " ++ value).toList = c :: (cs ++ (" = " ++ value).toList) := by
    simp [hc]
  have hscans : Token.Scans (pieces.flatMap Piece.chars ++ []) (pieces.flatMap Piece.kinds) [] :=
    Piece.scans_pieces hjoined (by simp)
  rw [← hchars] at hscans
  refine (textKinds_of_scans ?_ hfirst hmargin hne hscans).trans ?_
  · simp [hplace.line.2, hvalue.line.2]
  · simp [pieces, Piece.kinds]

end

namespace Parse

/-- The parser looks for an equals sign behind a text that starts with a name and is no binary
operation. -/
def LooksForAssign (text : String) (e : Expr) : Prop :=
  StartsWithName text ∧ e.isBinary = false

/-- Such a text is a name with its suffixes. -/
theorem LooksForAssign.exists_suffixed {text : String} {e : Expr} (hlooks : LooksForAssign text e)
    (h : Spells text e) :
    ∃ name, (textKinds text).head? = some (.identifier name) ∧
      Derives (textKinds text) (.suffixed e.erase) := by
  obtain ⟨⟨name, hname⟩, hbinary⟩ := hlooks
  rcases h.derives.cases_of_name hname with ⟨-, hsuffixed⟩ | ⟨hbinary', -⟩
  · exact ⟨name, hname, hsuffixed⟩
  · simp [hbinary] at hbinary'

section

variable {place value : String} {target e : Expr} {p : Parser} {k : Kind} {K : List Kind}
  (hplace : Spells place target) (hvalue : Spells value e)
  (hkinds : p.kinds = textKinds (place ++ " = " ++ value) ++ k :: K)
include hplace hvalue hkinds

private theorem kinds_of_assignment :
    p.kinds = textKinds place ++ .symbol .assign :: (textKinds value ++ k :: K) ∧
      ∃ u U, p.kinds = u :: U ∧ startsExpr u := by
  rw [textKinds_assignment hplace hvalue, List.append_assoc] at hkinds
  obtain ⟨u, us, hu, hstarts⟩ := hplace.derives.exists_head
  exact ⟨hkinds, u, _, hkinds.trans (by rw [hu]; rfl), hstarts⟩

/-- An assignment to a place. -/
private theorem readsLine_assign (hk : k.isEnd) (hlooks : LooksForAssign place target)
    (haddressable : target.isAddressable) :
    ReadsLine p (.assign .erased target.erase e.erase) (k :: K) := by
  obtain ⟨hp, u, U, hhead, hstarts⟩ := kinds_of_assignment hplace hvalue hkinds
  obtain ⟨name, hname, hsuffixed⟩ := hlooks.exists_suffixed hplace
  have hends : k.extendsExpr = false := by
    rcases Kind.eq_of_isEnd hk with rfl | rfl | rfl <;> rfl
  refine readsLine_of_succeeds hhead hstarts hk fun fuel hfuel => ?_
  exact succeeds_statement_assign hname hsuffixed (by simpa using haddressable) hvalue.derives hp
    hends (hfuel.weaken (by omega))

/-- An assignment to what is no place. -/
private theorem refusesLine_assign (hlooks : LooksForAssign place target)
    (haddressable : target.isAddressable = false) :
    RefusesLine p (fun _ _ => ⟨.semantic .notAssignable, p.current.location⟩)
      (.symbol .assign :: (textKinds value ++ k :: K)) := by
  obtain ⟨hp, u, U, hhead, hstarts⟩ := kinds_of_assignment hplace hvalue hkinds
  obtain ⟨name, hname, hsuffixed⟩ := hlooks.exists_suffixed hplace
  refine refusesLine_of_refuses hhead hstarts fun fuel hfuel => ?_
  exact refuses_statement_assign hname hsuffixed (by simpa using haddressable) hp
    (hfuel.weaken (by omega))

/-- An equals sign for which the parser does not look. -/
private theorem refusesLine_expr (hp : p.Bounded) (hlooks : ¬ LooksForAssign place target) :
    RefusesLine p
      (fun ending q => ⟨.syntactic (.lineEnd ending) (.symbol .assign), q.current.location⟩)
      (.symbol .assign :: (textKinds value ++ k :: K)) := by
  obtain ⟨hp', u, U, hhead, hstarts⟩ := kinds_of_assignment hplace hvalue hkinds
  refine refusesLine_of_succeeds hhead hstarts fun fuel hfuel => ?_
  have hbinary : ∀ name, (textKinds place).head? = some (.identifier name) →
      target.erase.isBinary := by
    intro name hname
    rw [Expr.isBinary_erase]
    exact eq_true_of_ne_false fun h => hlooks ⟨⟨name, hname⟩, h⟩
  have hread := succeeds_statement_expr hplace.derives hbinary hp' rfl hfuel
  refine (hread.and (ensures_statement (R := Parser.ReadsTo) fuel)).mono ?_
  rintro s q ⟨⟨-, hq⟩, hreads⟩
  refine ⟨hq, hreads.afterDedent_eq_false hp (hp'.trans (by rw [hq])) ?_ fun hlast => ?_⟩
  · obtain ⟨v, vs, hv, -⟩ := hplace.derives.exists_head
    rw [hv]
    exact List.cons_ne_nil _ _
  · have hplain := hplace.readsAs.isPlain (List.mem_of_getLast? hlast)
    cases hplain

end

/-- No line is read and refused, and none is refused for two reasons. -/
private theorem ReadsLine.not_refusesLine {p : Parser} {s : Stmt} {after after' : List Kind}
    {error : Ending → Parser → Diagnostic} (h : ReadsLine p s after) :
    ¬ RefusesLine p error after' := by
  intro h'
  have hfuel := p.enough_fuel.weaken (Nat.le_add_left 4 12)
  obtain ⟨_, _, hrun, -⟩ := h.block p.fuel hfuel
  obtain ⟨_, hrun', -⟩ := h'.block p.fuel hfuel
  rw [hrun] at hrun'
  cases hrun'

private theorem RefusesLine.exists_eq {p : Parser} {after after' : List Kind}
    {error error' : Ending → Parser → Diagnostic} (h : RefusesLine p error after)
    (h' : RefusesLine p error' after') : ∃ q, error .statement q = error' .statement q := by
  have hfuel := p.enough_fuel.weaken (Nat.le_add_left 4 12)
  obtain ⟨q, hrun, -⟩ := h.block p.fuel hfuel
  obtain ⟨_, hrun', -⟩ := h'.block p.fuel hfuel
  rw [hrun] at hrun'
  simp only [EStateM.Result.error.injEq, Failure.diagnostic.injEq] at hrun'
  exact ⟨q, hrun'.2 ▸ hrun'.1⟩

/-- What comes of a line on which an expression, an equals sign and an expression stand. If the
parser looks for the sign, the line is an assignment to a place, and what is no place is reported as
such. Otherwise the line is refused at the sign, even if a place stands before it. -/
theorem readsLine_assign_iff {place value : String} {target e : Expr} {p : Parser} {k : Kind}
    {K : List Kind} (hplace : Spells place target) (hvalue : Spells value e) (hp : p.Bounded)
    (hkinds : p.kinds = textKinds (place ++ " = " ++ value) ++ k :: K) (hk : k.isEnd) :
    (ReadsLine p (.assign .erased target.erase e.erase) (k :: K) ↔
      LooksForAssign place target ∧ target.isAddressable = true) ∧
    (RefusesLine p (fun _ _ => ⟨.semantic .notAssignable, p.current.location⟩)
        (.symbol .assign :: (textKinds value ++ k :: K)) ↔
      LooksForAssign place target ∧ target.isAddressable = false) ∧
    (RefusesLine p
        (fun ending q => ⟨.syntactic (.lineEnd ending) (.symbol .assign), q.current.location⟩)
        (.symbol .assign :: (textKinds value ++ k :: K)) ↔
      ¬ LooksForAssign place target) := by
  by_cases hlooks : LooksForAssign place target
  · cases haddressable : target.isAddressable with
    | true =>
      have hread := readsLine_assign hplace hvalue hkinds hk hlooks haddressable
      exact ⟨iff_of_true hread ⟨hlooks, rfl⟩, iff_of_false hread.not_refusesLine (by simp),
        iff_of_false hread.not_refusesLine (not_not_intro hlooks)⟩
    | false =>
      have hrefused := refusesLine_assign hplace hvalue hkinds hlooks haddressable
      refine ⟨iff_of_false (fun h => h.not_refusesLine hrefused) (by simp),
        iff_of_true hrefused ⟨hlooks, rfl⟩, iff_of_false (fun h => ?_) (not_not_intro hlooks)⟩
      obtain ⟨q, hsame⟩ := hrefused.exists_eq h
      cases hsame
  · have hrefused := refusesLine_expr hplace hvalue hkinds hp hlooks
    refine ⟨iff_of_false (fun h => h.not_refusesLine hrefused) fun h => hlooks h.1,
      iff_of_false (fun h => ?_) fun h => hlooks h.1, iff_of_true hrefused hlooks⟩
    obtain ⟨q, hsame⟩ := hrefused.exists_eq h
    cases hsame

/-- An entry of a list is a place. -/
theorem readsLine_assign_iff_entry :
    ReadsLine (Parser.ofText "a[i].next = p\n")
      (.assign .erased
        (.member .erased (.index .erased (.var .erased "a") (.var .erased "i")) "next")
        (.var .erased "p")) [.endOfLine, .endOfInput] := by
  have htokens : textKinds "a[i].next" = [.identifier "a", .symbol .openBracket, .identifier "i",
      .symbol .closeBracket, .symbol .dot, .identifier "next"] := by decide +kernel
  have hsuffixed : Derives (textKinds "a[i].next") (.suffixed (.member .erased
      (.index .erased (.var .erased "a") (.var .erased "i")) "next")) := by
    rw [htokens]
    exact .member (.index (.name "a") (Derives.name "i").expression_of_suffixed) "next"
  have hplace : Spells "a[i].next" (.member .erased
      (.index .erased (.var .erased "a") (.var .erased "i")) "next") :=
    spells_of_derives (by decide) (by decide) hsuffixed.expression_of_suffixed
  have hvalue : Spells "p" (.var .erased "p") := spells_name (by decide) .erased
  exact (readsLine_assign_iff hplace hvalue (Parser.bounded_ofLexer _) (by decide +kernel)
    rfl).1.2 ⟨⟨⟨"a", by rw [htokens]; rfl⟩, rfl⟩, rfl⟩

/-- A member of a name in parentheses is a place, but nothing can be assigned to it. -/
theorem refusesLine_groupedName :
    ∃ target e, Spells "(p).x" target ∧ Spells "1" e ∧ target.isAddressable ∧
      (∀ after, ¬ ReadsLine (Parser.ofText "(p).x = 1\n")
        (.assign .erased target.erase e.erase) after) ∧
      RefusesLine (Parser.ofText "(p).x = 1\n")
        (fun ending q => ⟨.syntactic (.lineEnd ending) (.symbol .assign), q.current.location⟩)
        [.symbol .assign, .number "1" (.int 1), .endOfLine, .endOfInput] := by
  have htokens : textKinds "(p).x" = [.symbol .openParen, .identifier "p", .symbol .closeParen,
      .symbol .dot, .identifier "x"] := by decide +kernel
  have hone : textKinds "1" = [.number "1" (.int 1)] := by decide +kernel
  have hvalue : Spells "1" (.number .erased (.int 1)) := by
    refine spells_of_derives (by decide) (by decide) ?_
    rw [hone]
    exact (Derives.number "1" (.int 1)).expression_of_suffixed
  have hplace : Spells "(p).x" (.member .erased (.var .erased "p") "x") := by
    refine spells_of_derives (by decide) (by decide) (Derives.expression_of_suffixed ?_)
    rw [htokens]
    exact .member (.group (Derives.name "p").expression_of_suffixed) "x"
  have hrefused := refusesLine_expr hplace hvalue
    (p := Parser.ofText "(p).x = 1\n") (k := .endOfLine) (K := [.endOfInput])
    (by decide +kernel) (Parser.bounded_ofLexer _) ?_
  · rw [hone] at hrefused
    exact ⟨_, _, hplace, hvalue, rfl, fun _ h => h.not_refusesLine hrefused, hrefused⟩
  · rintro ⟨⟨name, hname⟩, -⟩
    rw [htokens] at hname
    cases hname

end Parse

end Offside
