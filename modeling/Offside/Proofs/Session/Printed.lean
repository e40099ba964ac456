import Offside.Proofs.Lowering.Recovered
import Offside.Proofs.Parser.Named
import Offside.Proofs.Session.Accepted
import Offside.Proofs.Session.Lawful
import Offside.Proofs.Tree.Rooted

/-!
# Accepted items and their printed forms

The names in an accepted item are names, its types are as they are read, and the cases of a `match`
in it accept integers; where its floats are finite, it is legible. So two accepted items with one
printed form are the same but for tags and places. Conversely, items that are the same have one
printed form if they have any, that is, if their places are rooted.

## Main definitions

* `Offside.Item.Finite`: items whose floats are finite.
* `Offside.Item.printed`: an item as it is printed.

## Main results

* `Offside.Session.legible_of_reachable`: accepted items are legible.
* `Offside.Session.printed_iff_of_reachable`: when two accepted items have one printed form.
-/

namespace Offside

namespace Item

/-- The floats in an item are finite. -/
def Finite (item : Item) : Prop := ∀ e ∈ item.nodes.exprs, e.Finite

instance : DecidablePred Finite := fun item => List.decidableBAll Expr.Finite item.nodes.exprs

/-- The printed form of an item. -/
def printed (types : TypeEnv) (item : Item) : Except LowerError String :=
  (item.sexpr types).map SExpr.text

theorem Shape.Named.nodes {shape : Shape} (h : shape.Named) (place : Location) :
    (nodes ⟨shape, place⟩).Named := by
  cases shape with
  | function => exact h.2
  | statement => exact h
  | external | typeAlias | struct => exact Nodes.each_empty

theorem printed_eq_ok {types : TypeEnv} {item : Item} {text : String} :
    item.printed types = .ok text ↔ ∃ value, item.sexpr types = .ok value ∧ value.text = text := by
  rw [printed]
  cases item.sexpr types <;> simp [Except.map]

end Item

namespace Session

variable {s t : Session} {item item' : Item}

/-! ### Names -/

/-- What is left to read has names, and so have the declared structs and the accepted items. -/
structure Named (s : Session) : Prop where
  parser : s.parser.Named
  items : ∀ item ∈ s.items, item.shape.Named

theorem named_atItem (h : s.parser.Named) : s.atItem.Named := by
  refine frame_skipToItem (R := Parser.KeepsNamed) s.options (fun p hp => ?_) s.parser h
  obtain ⟨journal, hprompt, -⟩ := exists_prompt s.options p
  rw [hprompt]
  exact ⟨hp.kinds, hp.types⟩

theorem Named.fail (h : s.Named) : s.fail.2.Named := by
  rw [Session.fail]
  split
  · exact ⟨⟨h.parser.kinds, h.parser.types⟩, h.items⟩
  · exact h

/-- A step keeps names. -/
theorem Named.step (h : s.Named) : s.step.2.Named := by
  have hread := Parser.named_parseItem (named_atItem h.parser)
  have hstepped := stepped_step s
  generalize s.step = outcome at *
  cases hstepped with
  | halted => exact h
  | ended => exact ⟨named_atItem h.parser, h.items⟩
  | unread q _ _ read =>
    rw [read] at hread
    exact Named.fail ⟨hread.1, h.items⟩
  | refused item q d c _ _ read checked =>
    rw [read] at hread
    have hsame : q.types.SameDecls c.types := (ensures_checkItem item _).error checked
    exact Named.fail ⟨⟨hread.1.kinds, hsame.named hread.1.types⟩, h.items⟩
  | accepted item q c _ _ read checked =>
    rw [read] at hread
    have hsame : q.types.SameDecls c.types := ((ensures_checkItem item _).ok checked).1
    refine ⟨⟨hread.1.kinds, hsame.named hread.1.types⟩, fun other hother => ?_⟩
    rcases Array.mem_push.1 hother with hold | rfl
    · exact h.items other hold
    · exact hread.2 other rfl

theorem named_of_reachable (h : s.Reachable) : s.Named := by
  have none (item : Item) (h : item ∈ #[]) : item.shape.Named := absurd h (Array.not_mem_empty item)
  induction h with
  | start lexer options => exact ⟨Parser.named_ofLexer lexer, none⟩
  | restart _ lexer =>
    exact ⟨⟨(Parser.named_ofLexer lexer).kinds, TypeEnv.named_initial⟩, none⟩
  | step _ ih => exact ih.step

/-! ### Printed forms -/

/-- An accepted item with finite floats is legible. -/
theorem legible_of_reachable (reachable : s.Reachable) (accepted : item ∈ s.items)
    (finite : item.Finite) : item.Legible s.types := by
  obtain ⟨hparser, hitems⟩ := named_of_reachable reachable
  have hnodes := (hitems item accepted).nodes item.location
  refine ⟨hitems item accepted, hparser.types, fun e he => ?_, fun stmt hstmt => ?_⟩
  · exact (hnodes.exprs e he).legible (finite e he)
  · refine (hnodes.stmts stmt hstmt).legible ?_
    rintro tag scrutinee arms rfl e he
    obtain ⟨i, hi, hget⟩ := Array.mem_iff_getElem.1 accepted
    have hlawful := (lawful_of_reachable reachable (Array.getElem?_eq_some_iff.2 ⟨hi, hget⟩)).1
    obtain ⟨values, hvalues, -⟩ :=
      (hlawful.selects tag scrutinee arms (item.mem_stmts_nodes.1 hstmt)).values
    have hvalue := List.mem_map_of_mem (f := Expr.integer?) he
    rw [hvalues] at hvalue
    obtain ⟨n, -, hn⟩ := List.mem_map.1 hvalue
    rw [← hn]
    rfl

/-- An accepted item is printed exactly if its places are rooted. -/
theorem exists_sexpr_iff (reachable : s.Reachable) (accepted : item ∈ s.items) :
    (∃ value, item.sexpr s.types = .ok value) ↔ ∀ place ∈ item.places, place.IsRooted := by
  have htotal : sexprBackend.Total := fun _ _ _ => ⟨_, _, rfl⟩
  rw [← (lowerItem_of_reachable reachable accepted htotal ()).2.1, Item.sexpr]
  cases (lowerItem sexprBackend s.types item).run () <;> simp

/-- Two accepted items with finite floats, of any two sessions, have one printed form exactly if
they differ in their tags and places only and their places are rooted. -/
theorem printed_iff_of_reachable (hs : s.Reachable) (ht : t.Reachable) (hitem : item ∈ s.items)
    (hitem' : item' ∈ t.items) (finite : item.Finite) (finite' : item'.Finite) :
    (∃ text, item.printed s.types = .ok text ∧ item'.printed t.types = .ok text) ↔
      item.Same s.types t.types item' ∧ ∀ place ∈ item.places, place.IsRooted := by
  have hlegible := legible_of_reachable hs hitem finite
  have hlegible' := legible_of_reachable ht hitem' finite'
  constructor
  · rintro ⟨text, hprinted, hprinted'⟩
    obtain ⟨value, hvalue, htext⟩ := Item.printed_eq_ok.1 hprinted
    obtain ⟨value', hvalue', htext'⟩ := Item.printed_eq_ok.1 hprinted'
    have hshown := Item.shown?_of_sexpr hvalue
    have hshown' := Item.shown?_of_sexpr hvalue'
    have hsame : value = value' := SExpr.text_injective (Item.plain_of_shown? hlegible hshown)
      (Item.plain_of_shown? hlegible' hshown') (htext.trans htext'.symm)
    subst hsame
    exact ⟨Item.same_of_shown? hlegible hlegible' hshown hshown',
      (exists_sexpr_iff hs hitem).1 ⟨value, hvalue⟩⟩
  · rintro ⟨hsame, hrooted⟩
    obtain ⟨value, hvalue⟩ := (exists_sexpr_iff hs hitem).2 hrooted
    obtain ⟨value', hvalue'⟩ :=
      (exists_sexpr_iff ht hitem').2 ((Item.isRooted_congr hsame.shape).1 hrooted)
    have hshown := hsame.shown?_eq
    rw [Item.shown?_of_sexpr hvalue, Item.shown?_of_sexpr hvalue', Option.some.injEq] at hshown
    subst hshown
    exact ⟨value.text, Item.printed_eq_ok.2 ⟨value, hvalue, rfl⟩,
      Item.printed_eq_ok.2 ⟨value, hvalue', rfl⟩⟩

/-- An assignment that has been accepted is the same as itself, but it has no printed form. -/
theorem printed_memberOfCall :
    memberOfCall.Reachable ∧ ∃ item, memberOfCall.items[0]? = some item ∧ item.Finite ∧
      item.Same memberOfCall.types memberOfCall.types item ∧
      ¬ ∃ text, item.printed memberOfCall.types = .ok text := by
  have hitem : memberOfCall.items[0]?.map (fun item =>
      (decide item.Finite, (item.printed memberOfCall.types).toOption)) = some (true, none) := by
    decide +kernel
  obtain ⟨item, hitem, hvalues⟩ := Option.map_eq_some_iff.1 hitem
  obtain ⟨hfinite, hprinted⟩ := Prod.mk.inj hvalues
  refine ⟨memberOfCall_reachable, item, hitem, of_decide_eq_true hfinite, ⟨rfl, rfl⟩, ?_⟩
  rintro ⟨text, htext⟩
  rw [htext] at hprinted
  cases hprinted

/-- A session that has accepted an assignment. -/
def assignment : Session :=
  (ofInput (.ofString "x = -1.5 - y[2]\n") ⟨.file, defaultPrompt⟩).step.2

/-- A session that has accepted the same assignment, written in another way. -/
def assignmentAgain : Session :=
  (ofInput (.ofString "\nx=- 1.50-(y[2])\n") ⟨.file, defaultPrompt⟩).step.2

private theorem exists_printed (s : Session) (text : String)
    (h : s.items[0]?.map (fun item => (decide item.Finite, (item.printed s.types).toOption)) =
      some (true, some text)) :
    ∃ item, s.items[0]? = some item ∧ item.Finite ∧ item.printed s.types = .ok text := by
  obtain ⟨item, hitem, hvalues⟩ := Option.map_eq_some_iff.1 h
  obtain ⟨hfinite, hprinted⟩ := Prod.mk.inj hvalues
  refine ⟨item, hitem, of_decide_eq_true hfinite, ?_⟩
  cases hresult : item.printed s.types <;> rw [hresult] at hprinted <;> cases hprinted
  rfl

/-- Two readings of one assignment have one printed form, and are the same. -/
theorem printed_iff_of_reachable_assignment :
    ∃ item item', assignment.items[0]? = some item ∧ assignmentAgain.items[0]? = some item' ∧
      item.printed assignment.types = .ok "(= x (- (- 1.5) (index y 2)))" ∧
      item.Same assignment.types assignmentAgain.types item' := by
  obtain ⟨item, hitem, hfinite, hprinted⟩ :=
    exists_printed assignment "(= x (- (- 1.5) (index y 2)))" (by decide +kernel)
  obtain ⟨item', hitem', hfinite', hprinted'⟩ :=
    exists_printed assignmentAgain "(= x (- (- 1.5) (index y 2)))" (by decide +kernel)
  have hsame := (printed_iff_of_reachable (.step (.start _ _)) (.step (.start _ _))
    (Array.mem_of_getElem? hitem) (Array.mem_of_getElem? hitem') hfinite hfinite').1
    ⟨_, hprinted, hprinted'⟩
  exact ⟨item, item', hitem, hitem', hprinted, hsame.1⟩

end Session

end Offside
