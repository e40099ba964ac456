import Offside.Proofs.Binary64.Text
import Offside.Proofs.Lowering.Printed
import Offside.Proofs.Lowering.Words
import Offside.Proofs.Tree.Named
import Offside.Proofs.Tree.Laws

/-!
# Legible trees

Names, types and finite numbers are printed as plain words. A number begins with a digit and a name
does not; an integer has digits only and a float has a point or a power of ten. So the words of a
tree tell what they stand for.

## Main definitions

* `Offside.Number.Finite`: values that are printed as decimals.
* `Offside.Expr.Legible`, `Offside.Stmt.Legible`: nodes whose words tell what they stand for.
* `Offside.TypeExpr.ofText`: the type that a text spells.

## Main results

* `Offside.Number.text_injective`: finite numbers are printed differently.
* `Offside.TypeExpr.ofText_text`: a type is known from its text.
* `Offside.Item.plain_of_shown?`: the S-expression of a legible item has plain words.
-/

namespace Offside

open SExpr

/-! ### Names -/

theorem isPlain_of_isWordChar {word : String} (hne : word.toList ≠ [])
    (h : word.toList.all Token.isWordChar) : IsPlain word := by
  refine ⟨hne, fun c hc => ?_⟩
  have hchar := List.all_eq_true.1 h c hc
  rw [isDelimiter]
  simp only [Bool.or_eq_false_iff, decide_eq_false_iff_not]
  refine ⟨⟨?_, ?_⟩, ?_⟩ <;> rintro rfl <;> exact absurd hchar (by decide)

namespace IsName

variable {name : String} (h : IsName name)
include h

theorem toList_ne_nil : name.toList ≠ [] := by
  intro hnil
  have hhead := h.1
  rw [hnil] at hhead
  cases hhead

theorem isPlain : IsPlain name := isPlain_of_isWordChar h.toList_ne_nil h.2.1

/-- A name has no brackets in it. -/
theorem not_mem {c : Char} (hc : Token.isWordChar c = false) : c ∉ name.toList := by
  intro hmem
  rw [List.all_eq_true.1 h.2.1 c hmem] at hc
  cases hc

/-- A name does not begin with a digit. -/
theorem head_isDigit {c : Char} {cs : List Char} (hcs : name.toList = c :: cs) :
    c.isDigit = false := by
  have hhead : Token.isWordStart c := by simpa [hcs] using h.1
  exact (isWordStart_spec hhead).2.2.2.2.2.1

end IsName

/-! ### Numbers -/

/-- Numbers that are printed as decimals. -/
def Number.Finite : Number → Prop
  | int _ => True
  | float value => value.isFinite

instance : DecidablePred Number.Finite := fun value =>
  match value with
  | .int _ => inferInstanceAs (Decidable True)
  | .float value => inferInstanceAs (Decidable (value.isFinite = true))

theorem not_isDelimiter_of_isDigit {c : Char} (h : c.isDigit) : isDelimiter c = false := by
  rw [isDelimiter]
  simp only [Bool.or_eq_false_iff, decide_eq_false_iff_not]
  refine ⟨⟨?_, ?_⟩, ?_⟩ <;> rintro rfl <;> exact absurd h (by decide)

namespace Number

open Binary64 (AllDigits IsShown)

theorem toList_text_int (value : Nat) : (int value).text.toList = Nat.toDigits 10 value := by
  rw [text, Nat.toString_eq_ofList_toDigits, String.toList_ofList]

theorem toList_text_float (value : Binary64) : (float value).text.toList = value.characters := by
  rw [text, Binary64.text, String.toList_ofList]

/-- A finite number begins with digits; what follows them, if anything does, is no part of a
list. -/
theorem exists_digits {value : Number} (h : value.Finite) : ∃ ds rest,
    value.text.toList = ds ++ rest ∧ ds ≠ [] ∧ AllDigits ds ∧
      ∀ c ∈ rest, isDelimiter c = false := by
  cases value with
  | int n =>
    refine ⟨Nat.toDigits 10 n, [], ?_, Nat.toDigits_ne_nil, Binary64.allDigits_decimalDigits n,
      fun _ hc => absurd hc List.not_mem_nil⟩
    rw [toList_text_int, List.append_nil]
  | float x =>
    obtain ⟨ds, c, rest, htext, hne, hds, hc, hrest⟩ := Binary64.isShown_characters h
    refine ⟨ds, c :: rest, by rw [toList_text_float, htext], hne, hds, ?_⟩
    rw [List.forall_mem_cons]
    refine ⟨by rcases hc with rfl | rfl <;> rfl, fun d hd => ?_⟩
    rcases hrest d hd with hdigit | rfl | rfl | rfl
    · exact not_isDelimiter_of_isDigit hdigit
    all_goals rfl

theorem isPlain_text {value : Number} (h : value.Finite) : IsPlain value.text := by
  obtain ⟨ds, rest, htext, hne, hds, hrest⟩ := exists_digits h
  rw [IsPlain, htext]
  refine ⟨List.append_ne_nil_of_left_ne_nil hne rest, fun c hc => ?_⟩
  rcases List.mem_append.1 hc with hc | hc
  · exact not_isDelimiter_of_isDigit (hds c hc)
  · exact hrest c hc

/-- A finite number is not mistaken for a name. -/
theorem text_ne_name {value : Number} (h : value.Finite) {name : String} (hname : IsName name) :
    value.text ≠ name := by
  rintro rfl
  obtain ⟨ds, rest, htext, hne, hds, -⟩ := exists_digits h
  obtain ⟨d, ds, rfl⟩ := List.exists_cons_of_ne_nil hne
  have hdigit := hds d List.mem_cons_self
  rw [hname.head_isDigit htext] at hdigit
  cases hdigit

/-- An integer is not mistaken for a finite float. -/
theorem text_int_ne_float {n : Nat} {x : Binary64} (hx : x.isFinite) :
    (int n).text ≠ (float x).text := by
  intro h
  obtain ⟨ds, c, rest, htext, -, -, hc, -⟩ := Binary64.isShown_characters hx
  have hmem : c ∈ Nat.toDigits 10 n := by
    rw [← toList_text_int, h, toList_text_float, htext]
    simp
  have hdigit := Binary64.allDigits_decimalDigits n c hmem
  rcases hc with rfl | rfl <;> cases hdigit

/-- Finite numbers are printed differently. -/
theorem text_injective {v w : Number} (hv : v.Finite) (hw : w.Finite) (h : v.text = w.text) :
    v = w := by
  cases v with
  | int m =>
    cases w with
    | int n =>
      have hdigits : Nat.toDigits 10 m = Nat.toDigits 10 n := by
        rw [← toList_text_int, ← toList_text_int, h]
      rw [← Nat.ofDigitChars_ten_toDigits (n := m), hdigits, Nat.ofDigitChars_ten_toDigits]
    | float y => exact absurd h (text_int_ne_float hw)
  | float x =>
    cases w with
    | int n => exact absurd h.symm (text_int_ne_float hv)
    | float y =>
      refine congrArg float (Binary64.characters_injective hv hw ?_)
      rw [← toList_text_float, ← toList_text_float, h]

end Number

/-! ### Types -/

/-- The type that characters spell. -/
def TypeExpr.ofChars : List Char → TypeExpr
  | 'p' :: 't' :: 'r' :: '[' :: cs => .pointer (ofChars cs.dropLast)
  | cs => .ofName (String.ofList cs)
termination_by cs => cs.length
decreasing_by simp; omega

/-- The type that a text spells. -/
def TypeExpr.ofText (text : String) : TypeExpr := ofChars text.toList

namespace TypeExpr

/-- Characters without a bracket spell a name. -/
theorem ofChars_of_not_mem {cs : List Char} (h : '[' ∉ cs) :
    ofChars cs = .ofName (String.ofList cs) := by
  rw [ofChars.eq_def]
  split
  · exact absurd (by simp) h
  · rfl

theorem isPlain_text {type : TypeExpr} (h : type.Writable) : IsPlain type.text := by
  induction type with
  | builtin b => cases b <;> decide
  | named name => exact h.1.isPlain
  | pointer element ih =>
    obtain ⟨-, hall⟩ := ih h
    rw [IsPlain, toList_text_pointer]
    refine ⟨List.cons_ne_nil _ _, ?_⟩
    simp only [List.mem_cons, List.mem_append, List.not_mem_nil, or_false]
    rintro c (rfl | rfl | rfl | rfl | hc | rfl)
    case inr.inr.inr.inr.inl => exact hall c hc
    all_goals rfl

/-- A type is known from its text. -/
theorem ofText_text {type : TypeExpr} (h : type.Writable) : ofText type.text = type := by
  rw [ofText]
  induction type with
  | builtin b =>
    rw [text, ofChars_of_not_mem (by cases b <;> decide), String.ofList_toList, ofName,
      Builtin.ofName?_name]
  | named name =>
    rw [text, ofChars_of_not_mem (h.1.not_mem rfl), String.ofList_toList, ofName, h.2]
  | pointer element ih =>
    rw [toList_text_pointer, ofChars, List.dropLast_concat, ih h]

end TypeExpr

/-! ### Trees -/

/-- An expression that is no number, or a finite one. -/
def Expr.Finite : Expr → Prop
  | .number _ value => value.Finite
  | _ => True

instance : DecidablePred Expr.Finite := fun e =>
  match e with
  | .number _ value => inferInstanceAs (Decidable value.Finite)
  | .var _ _ | .addressOf _ _ | .index _ _ _ | .member _ _ _ | .unary _ _ _ | .binary _ _ _ _
  | .call _ _ _ => inferInstanceAs (Decidable True)

/-- The words of an expression itself tell what they stand for. -/
def Expr.Legible : Expr → Prop
  | .number _ value => value.Finite
  | .var _ name | .member _ _ name | .call _ name _ => IsName name
  | .addressOf _ _ | .index _ _ _ | .unary _ _ _ | .binary _ _ _ _ => True

/-- The words of a statement itself tell what they stand for; the cases of a `match` accept
integers. -/
def Stmt.Legible : Stmt → Prop
  | .declare _ name type _ => IsName name ∧ type.Writable
  | .forRange _ counter _ _ _ _ => IsName counter
  | .select _ _ arms => ∀ e ∈ Arm.accepted arms, e.integer?.isSome
  | _ => True

/-- Nodes whose words tell what they stand for. -/
abbrev Nodes.Legible (n : Nodes) : Prop := n.Each Expr.Legible Stmt.Legible

theorem Expr.Named.legible {e : Expr} (h : e.Named) (hfinite : e.Finite) : e.Legible := by
  cases e with
  | number => exact hfinite
  | var | member | call => exact h
  | addressOf | index | unary | binary => exact trivial

theorem Stmt.Named.legible {s : Stmt} (h : s.Named)
    (hcases : ∀ tag scrutinee arms, s = .select tag scrutinee arms →
      ∀ e ∈ Arm.accepted arms, e.integer?.isSome) : s.Legible := by
  cases s with
  | declare | forRange => exact h
  | select tag scrutinee arms => exact hcases tag scrutinee arms rfl
  | expr | assign | ret | print | branch | whileLoop | doWhile | jump => exact trivial

theorem plain_form {head : String} {items : List SExpr} (hhead : IsPlain head)
    (h : PlainAll items) : (form head items).Plain := ⟨hhead, h⟩

theorem plainAll_append {items more : List SExpr} (h : PlainAll items) (k : PlainAll more) :
    PlainAll (items ++ more) := by
  rw [plainAll_iff] at *
  exact List.forall_mem_append.2 ⟨h, k⟩

open Nodes

mutual

theorem Expr.plain_sexpr : (e : Expr) → (ofExprs [e]).Legible → e.sexpr.Plain
  | .number _ _, h => Number.isPlain_text (each_ofExpr.1 h).2
  | .var _ _, h => IsName.isPlain (each_ofExpr.1 h).2
  | .addressOf _ e, h => by
    obtain ⟨he, -⟩ := each_ofExpr.1 h
    exact plain_form (by decide) ⟨e.plain_sexpr he, trivial⟩
  | .index _ base subscript, h => by
    obtain ⟨hbase, hsubscript⟩ := each_ofExprs_cons.1 (each_ofExpr.1 h).1
    exact plain_form (by decide)
      ⟨base.plain_sexpr hbase, subscript.plain_sexpr hsubscript, trivial⟩
  | .member _ object _, h => by
    obtain ⟨hobject, hfield⟩ := each_ofExpr.1 h
    exact plain_form (by decide) ⟨object.plain_sexpr hobject, IsName.isPlain hfield, trivial⟩
  | .unary _ op operand, h => by
    obtain ⟨hoperand, -⟩ := each_ofExpr.1 h
    exact plain_form (by cases op <;> decide) ⟨operand.plain_sexpr hoperand, trivial⟩
  | .binary _ op left right, h => by
    obtain ⟨hleft, hright⟩ := each_ofExprs_cons.1 (each_ofExpr.1 h).1
    exact plain_form (by cases op <;> decide)
      ⟨left.plain_sexpr hleft, right.plain_sexpr hright, trivial⟩
  | .call _ _ args, h => by
    obtain ⟨hargs, hcallee⟩ := each_ofExpr.1 h
    exact plain_form (by decide) ⟨IsName.isPlain hcallee, Expr.plainAll_sexprs args hargs⟩

theorem Expr.plainAll_sexprs : (es : List Expr) → (ofExprs es).Legible → PlainAll (Expr.sexprs es)
  | [], _ => trivial
  | e :: es, h => by
    obtain ⟨he, hes⟩ := each_ofExprs_cons.1 h
    exact ⟨e.plain_sexpr he, Expr.plainAll_sexprs es hes⟩

end

theorem Expr.plainAll_optional {e : Option Expr} (h : (ofExprs e.toList).Legible) :
    PlainAll (e.map Expr.sexpr).toList := by
  cases e with
  | none => exact trivial
  | some e => exact ⟨e.plain_sexpr h, trivial⟩

theorem Pattern.plain_sexpr {pattern : Pattern} (h : (ofExprs pattern.exprs).Legible) :
    (SExpr.pattern pattern.sexpr?).Plain := by
  cases pattern with
  | wildcard => exact (by decide : IsPlain "_")
  | value e => exact e.plain_sexpr h

mutual

theorem Stmt.plain_sexpr : (s : Stmt) → s.nodes.Legible → s.sexpr.Plain
  | .expr _ value, h => value.plain_sexpr (each_nodes.1 h).1
  | .declare _ _ _ init, h => by
    obtain ⟨hinit, hname, htype⟩ := each_nodes.1 h
    exact plain_form (by decide)
      ⟨hname.isPlain, TypeExpr.isPlain_text htype, Expr.plainAll_optional hinit⟩
  | .assign _ target value, h => by
    obtain ⟨htarget, hvalue⟩ := each_ofExprs_cons.1 (each_nodes.1 h).1
    exact plain_form (by decide) ⟨target.plain_sexpr htarget, value.plain_sexpr hvalue, trivial⟩
  | .ret _ value, h => plain_form (by decide) (Expr.plainAll_optional (each_nodes.1 h).1)
  | .print _ args, h => plain_form (by decide) (Expr.plainAll_sexprs args (each_nodes.1 h).1)
  | .branch _ condition thenSuite elseSuite, h => by
    obtain ⟨hfirst, helse⟩ := each_append.1 (each_nodes.1 h).1
    obtain ⟨hcondition, hthen⟩ := each_append.1 hfirst
    exact plain_form (by decide) ⟨condition.plain_sexpr hcondition,
      plain_form (by decide) (thenSuite.plainAll_sexprs hthen),
      Suite.plainAll_sexprs? elseSuite helse⟩
  | .forRange _ _ start stop step body, h => by
    obtain ⟨hexprs, hbody⟩ := each_append.1 (each_nodes.1 h).1
    obtain ⟨hstart, hrest⟩ := each_ofExprs_cons.1 hexprs
    obtain ⟨hstop, hstep⟩ := each_ofExprs_cons.1 hrest
    exact plain_form (by decide) ⟨IsName.isPlain (each_nodes.1 h).2, start.plain_sexpr hstart,
      stop.plain_sexpr hstop, plainAll_append (Expr.plainAll_optional hstep)
        ⟨plain_form (by decide) (body.plainAll_sexprs hbody), trivial⟩⟩
  | .whileLoop _ condition body, h => by
    obtain ⟨hcondition, hbody⟩ := each_append.1 (each_nodes.1 h).1
    exact plain_form (by decide) ⟨condition.plain_sexpr hcondition,
      plain_form (by decide) (body.plainAll_sexprs hbody), trivial⟩
  | .doWhile _ body condition, h => by
    obtain ⟨hbody, hcondition⟩ := each_append.1 (each_nodes.1 h).1
    exact plain_form (by decide) ⟨plain_form (by decide) (body.plainAll_sexprs hbody),
      condition.plain_sexpr hcondition, trivial⟩
  | .jump _ jump, _ => plain_form (by cases jump <;> decide) trivial
  | .select _ scrutinee arms, h => by
    obtain ⟨hscrutinee, harms⟩ := each_append.1 (each_nodes.1 h).1
    exact plain_form (by decide)
      ⟨scrutinee.plain_sexpr hscrutinee, Arm.plainAll_sexprs arms harms⟩

theorem Suite.plainAll_sexprs : (suite : Suite) → suite.nodes.Legible → PlainAll suite.sexprs
  | .mk _ stmts, h => Stmt.plainAll_sexprs stmts h

theorem Suite.plainAll_sexprs? : (suite : Option Suite) → (Suite.nodesElse suite).Legible →
    PlainAll ((Suite.sexprs? suite).map block).toList
  | none, _ => trivial
  | some suite, h => ⟨plain_form (by decide) (suite.plainAll_sexprs h), trivial⟩

theorem Stmt.plainAll_sexprs : (ss : List Stmt) → (Stmt.nodesAll ss).Legible →
    PlainAll (Stmt.sexprs ss)
  | [], _ => trivial
  | s :: ss, h => by
    obtain ⟨hs, hss⟩ := each_append.1 h
    exact ⟨s.plain_sexpr hs, Stmt.plainAll_sexprs ss hss⟩

theorem Arm.plainAll_sexprs : (arms : List Arm) → (Arm.nodesAll arms).Legible →
    PlainAll ((Arm.sexprs arms).map fun arm =>
      form "case" [SExpr.pattern arm.pattern, block arm.body])
  | [], _ => trivial
  | .mk _ pattern body :: arms, h => by
    obtain ⟨hfirst, harms⟩ := each_append.1 h
    obtain ⟨hpattern, hbody⟩ := each_append.1 hfirst
    exact ⟨plain_form (by decide) ⟨Pattern.plain_sexpr hpattern,
      plain_form (by decide) (body.plainAll_sexprs hbody), trivial⟩, Arm.plainAll_sexprs arms harms⟩

end

theorem Binding.plainAll {bindings : List Binding} (h : ∀ b ∈ bindings, b.Named) :
    PlainAll (bindings.map SExpr.binding) := by
  rw [plainAll_iff, List.forall_mem_map]
  intro b hb
  obtain ⟨hname, htype⟩ := h b hb
  exact ⟨hname.isPlain, TypeExpr.isPlain_text htype, trivial⟩

/-- An item whose words tell what they stand for, with the declarations of structs. -/
structure Item.Legible (types : TypeEnv) (item : Item) : Prop where
  named : item.shape.Named
  declared : types.Named
  nodes : item.nodes.Legible

/-- The S-expression of a legible item has plain words. -/
theorem Item.plain_of_shown? {types : TypeEnv} {item : Item} (h : item.Legible types)
    {value : SExpr} (hvalue : item.shown? types = some value) : value.Plain := by
  obtain ⟨shape, place⟩ := item
  obtain ⟨hnamed, hdeclared, hnodes⟩ := h
  cases shape with
  | function proto body =>
    cases hvalue
    obtain ⟨hname, hparams, hresult⟩ := hnamed.1
    exact plain_form (by decide) ⟨hname.isPlain, Binding.plainAll hparams,
      TypeExpr.isPlain_text hresult,
      plain_form (by decide) (body.plainAll_sexprs hnodes), trivial⟩
  | external proto =>
    cases hvalue
    obtain ⟨hname, hparams, hresult⟩ := hnamed
    exact plain_form (by decide) ⟨hname.isPlain, Binding.plainAll hparams,
      TypeExpr.isPlain_text hresult, trivial⟩
  | typeAlias name target =>
    cases hvalue
    exact plain_form (by decide) ⟨hnamed.1.isPlain, TypeExpr.isPlain_text hnamed.2, trivial⟩
  | struct name =>
    obtain ⟨decl, hdecl, rfl⟩ := Option.map_eq_some_iff.1 hvalue
    obtain ⟨-, hname, hfields⟩ := hdeclared name decl hdecl
    exact plain_form (by decide) ⟨hname.isPlain, Binding.plainAll hfields⟩
  | statement stmt =>
    cases hvalue
    exact stmt.plain_sexpr hnodes

end Offside
