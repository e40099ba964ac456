import Offside.Proofs.Lowering.Legible

/-!
# Trees recovered from S-expressions

The head of a list tells which node it stands for, except that a unary and a binary operator may
share one: there the number of the items tells. A word by itself is a number or a name, and a
statement that is not one of the others is an expression. So a legible tree is recovered from its
S-expression, but for tags and places, which are not in it.

## Main definitions

* `Offside.SExpr.expr`, `Offside.SExpr.stmt`, `Offside.SExpr.shape`: the tree that an S-expression
  stands for. What stands for no tree is given some arbitrary one.

## Main results

* `Offside.Expr.expr_sexpr`, `Offside.Stmt.stmt_sexpr`: a legible tree is recovered.
* `Offside.Item.same_of_shown?`: legible items with the same S-expression are the same.
-/

namespace Offside

/-! ### Words -/

open Classical in
/-- The finite number that a text spells. -/
noncomputable def Number.ofText? (text : String) : Option Number :=
  if h : ∃ value : Number, value.Finite ∧ value.text = text then some h.choose else none

theorem Number.ofText?_text {value : Number} (h : value.Finite) :
    ofText? value.text = some value := by
  have hex : ∃ other : Number, other.Finite ∧ other.text = value.text := ⟨value, h, rfl⟩
  rw [ofText?, dif_pos hex]
  exact congrArg some (text_injective hex.choose_spec.1 h hex.choose_spec.2)

theorem Number.ofText?_name {name : String} (h : IsName name) : ofText? name = none :=
  dif_neg fun ⟨_, hfinite, htext⟩ => text_ne_name hfinite h htext

/-- The expression that a word stands for. -/
noncomputable def Expr.ofWord (text : String) : Expr :=
  match Number.ofText? text with
  | some value => .number .erased value
  | none => .var .erased text

theorem Expr.ofWord_text {value : Number} (h : value.Finite) :
    ofWord value.text = .number .erased value := by
  rw [ofWord, Number.ofText?_text h]

theorem Expr.ofWord_name {name : String} (h : IsName name) : ofWord name = .var .erased name := by
  rw [ofWord, Number.ofText?_name h]

/-- The unary operator with a given symbol. -/
def UnaryOp.ofSymbol : String → UnaryOp
  | "-" => neg
  | "not" => not
  | _ => bitNot

/-- The binary operator with a given symbol. -/
def BinaryOp.ofSymbol : String → BinaryOp
  | "+" => add
  | "-" => sub
  | "*" => mul
  | "/" => div
  | "%" => mod
  | "==" => eq
  | "!=" => ne
  | "<" => lt
  | "<=" => le
  | ">" => gt
  | ">=" => ge
  | "and" => and
  | "or" => or
  | "&" => bitAnd
  | "|" => bitOr
  | _ => bitXor

/-! ### Trees of S-expressions -/

namespace SExpr

mutual

/-- The expression that an S-expression stands for. -/
noncomputable def expr : SExpr → Expr
  | word text => .ofWord text
  | list (word head :: items) => exprOf head items
  | list _ => .var .erased ""

/-- The expression that a list stands for, by its head and its other items. -/
noncomputable def exprOf : String → List SExpr → Expr
  | "addr", [place] => .addressOf .erased place.expr
  | "index", [base, subscript] => .index .erased base.expr subscript.expr
  | ".", [object, word field] => .member .erased object.expr field
  | "call", word callee :: args => .call .erased callee (exprs args)
  | head, [operand] => .unary .erased (.ofSymbol head) operand.expr
  | head, [left, right] => .binary .erased (.ofSymbol head) left.expr right.expr
  | _, _ => .var .erased ""

/-- The expressions that S-expressions stand for. -/
noncomputable def exprs : List SExpr → List Expr
  | [] => []
  | item :: items => item.expr :: exprs items

end

mutual

/-- The statement that an S-expression stands for. -/
noncomputable def stmt : SExpr → Stmt
  | word text => .expr .erased (.ofWord text)
  | list (word head :: items) => stmtOf head items
  | list _ => .expr .erased (.var .erased "")

/-- The statement that a list stands for, by its head and its other items. -/
noncomputable def stmtOf : String → List SExpr → Stmt
  | "let", [word name, word type] => .declare .erased name (.ofText type) none
  | "let", [word name, word type, init] => .declare .erased name (.ofText type) (some init.expr)
  | "=", [target, value] => .assign .erased target.expr value.expr
  | "return", [] => .ret .erased none
  | "return", [value] => .ret .erased (some value.expr)
  | "print", args => .print .erased (exprs args)
  | "if", [condition, thenSuite] => .branch .erased condition.expr thenSuite.suite none
  | "if", [condition, thenSuite, elseSuite] =>
    .branch .erased condition.expr thenSuite.suite (some elseSuite.suite)
  | "for", [word counter, start, stop, body] =>
    .forRange .erased counter start.expr stop.expr none body.suite
  | "for", [word counter, start, stop, step, body] =>
    .forRange .erased counter start.expr stop.expr (some step.expr) body.suite
  | "while", [condition, body] => .whileLoop .erased condition.expr body.suite
  | "do", [body, condition] => .doWhile .erased body.suite condition.expr
  | "break", [] => .jump .erased .breakLoop
  | "continue", [] => .jump .erased .continueLoop
  | "match", scrutinee :: cases => .select .erased scrutinee.expr (arms cases)
  | head, items => .expr .erased (exprOf head items)

/-- The body that a block stands for. -/
noncomputable def suite : SExpr → Suite
  | list (_ :: items) => .mk .erased (stmts items)
  | _ => .mk .erased []

/-- The statements that S-expressions stand for. -/
noncomputable def stmts : List SExpr → List Stmt
  | [] => []
  | item :: items => item.stmt :: stmts items

/-- The case of a `match` that an S-expression stands for. -/
noncomputable def arm : SExpr → Arm
  | list [_, word "_", body] => .mk .erased .wildcard body.suite
  | list [_, value, body] => .mk .erased (.value value.expr) body.suite
  | _ => .mk .erased .wildcard (.mk .erased [])

/-- The cases of a `match` that S-expressions stand for. -/
noncomputable def arms : List SExpr → List Arm
  | [] => []
  | item :: items => item.arm :: arms items

end

/-- The name with its type that an S-expression stands for. -/
def bound : SExpr → Binding
  | list [word name, word type] => ⟨name, .ofText type⟩
  | _ => ⟨"", .ofText ""⟩

/-- The prototype that a name, S-expressions of parameters and a type stand for. -/
def proto (name : String) (params : List SExpr) (result : String) : Prototype :=
  ⟨name, params.map bound, .ofText result, .erased⟩

/-- The item that an S-expression stands for. -/
noncomputable def shape : SExpr → Item.Shape
  | list [word "def", word name, list params, word result, body] =>
    .function (proto name params result) body.suite
  | list [word "extern", word name, list params, word result] =>
    .external (proto name params result)
  | list [word "type", word name, word target] => .typeAlias name (.ofText target)
  | list (word "struct" :: word name :: _) => .struct name
  | s => .statement s.stmt

/-- The declaration of the struct that an S-expression stands for. -/
def decl? : SExpr → Option StructDecl
  | list (word "struct" :: word name :: fields) => some ⟨name, fields.map bound, .erased⟩
  | _ => none

end SExpr

/-! ### Expressions -/

open Nodes

mutual

/-- A legible expression is recovered from its S-expression. -/
theorem Expr.expr_sexpr : (e : Expr) → (ofExprs [e]).Legible → e.sexpr.expr = e.erase
  | .number _ _, h => Expr.ofWord_text (each_ofExpr.1 h).2
  | .var _ _, h => Expr.ofWord_name (each_ofExpr.1 h).2
  | .addressOf _ place, h => by
    rw [Expr.erase, ← place.expr_sexpr (each_ofExpr.1 h).1]
    rfl
  | .index _ base subscript, h => by
    obtain ⟨hbase, hsubscript⟩ := each_ofExprs_cons.1 (each_ofExpr.1 h).1
    rw [Expr.erase, ← base.expr_sexpr hbase, ← subscript.expr_sexpr hsubscript]
    rfl
  | .member _ object _, h => by
    rw [Expr.erase, ← object.expr_sexpr (each_ofExpr.1 h).1]
    rfl
  | .unary _ op operand, h => by
    rw [Expr.erase, ← operand.expr_sexpr (each_ofExpr.1 h).1]
    cases op <;> rfl
  | .binary _ op left right, h => by
    obtain ⟨hleft, hright⟩ := each_ofExprs_cons.1 (each_ofExpr.1 h).1
    rw [Expr.erase, ← left.expr_sexpr hleft, ← right.expr_sexpr hright]
    cases op <;> rfl
  | .call _ _ args, h => by
    rw [Expr.erase, ← Expr.exprs_sexprs args (each_ofExpr.1 h).1]
    rfl

theorem Expr.exprs_sexprs : (es : List Expr) → (ofExprs es).Legible →
    SExpr.exprs (Expr.sexprs es) = Expr.eraseAll es
  | [], _ => rfl
  | e :: es, h => by
    obtain ⟨he, hes⟩ := each_ofExprs_cons.1 h
    rw [Expr.eraseAll, ← e.expr_sexpr he, ← Expr.exprs_sexprs es hes]
    rfl

end

/-- What begins with no word of a statement is an expression. -/
theorem Expr.stmt_sexpr (e : Expr) : e.sexpr.stmt = .expr .erased e.sexpr.expr := by
  cases e with
  | unary _ op _ | binary _ op _ _ => cases op <;> rfl
  | number | var | addressOf | index | member | call => rfl

/-! ### Statements -/

/-- A literal is not mistaken for the pattern that accepts everything. -/
theorem Expr.sexpr_ne_wildcard {e : Expr} (h : (ofExprs [e]).Legible) (hvalue : e.integer?.isSome) :
    e.sexpr ≠ .word "_" := by
  cases e with
  | number tag value =>
    intro hword
    have hname : IsName "_" := by decide
    exact Number.text_ne_name (each_ofExpr.1 h).2 hname (SExpr.word.inj hword)
  | unary => rintro ⟨⟩
  | var | addressOf | index | member | binary | call => cases hvalue

/-- A case that accepts a value is recovered from its S-expression. -/
theorem Arm.arm_value {value : SExpr} (h : value ≠ .word "_") (stmts : List SExpr) :
    (SExpr.form "case" [value, SExpr.block stmts]).arm =
      .mk .erased (.value value.expr) (.mk .erased (SExpr.stmts stmts)) := by
  cases value with
  | list items => rfl
  | word text =>
    have htext : text ≠ "_" := fun heq => h (heq ▸ rfl)
    rw [SExpr.form, SExpr.arm]
    · rfl
    · exact fun heq => htext (SExpr.word.inj heq)

mutual

/-- A legible statement is recovered from its S-expression. -/
theorem Stmt.stmt_sexpr : (s : Stmt) → s.nodes.Legible → s.sexpr.stmt = s.erase
  | .expr _ value, h => by
    rw [Stmt.erase, ← value.expr_sexpr (each_nodes.1 h).1, ← value.stmt_sexpr]
    rfl
  | .declare _ name type init, h => by
    obtain ⟨hinit, hname, htype⟩ := each_nodes.1 h
    have hread := TypeExpr.ofText_text htype
    cases init with
    | none => exact congrArg (Stmt.declare .erased name · none) hread
    | some init =>
      rw [Stmt.erase, Option.map_some, ← init.expr_sexpr hinit]
      exact congrArg (Stmt.declare .erased name · (some init.sexpr.expr)) hread
  | .assign _ target value, h => by
    obtain ⟨htarget, hvalue⟩ := each_ofExprs_cons.1 (each_nodes.1 h).1
    rw [Stmt.erase, ← target.expr_sexpr htarget, ← value.expr_sexpr hvalue]
    rfl
  | .ret _ value, h => by
    cases value with
    | none => rfl
    | some value =>
      rw [Stmt.erase, Option.map_some, ← value.expr_sexpr (each_nodes.1 h).1]
      rfl
  | .print _ args, h => by
    rw [Stmt.erase, ← Expr.exprs_sexprs args (each_nodes.1 h).1]
    cases args <;> rfl
  | .branch _ condition thenSuite elseSuite, h => by
    obtain ⟨hfirst, helse⟩ := each_append.1 (each_nodes.1 h).1
    obtain ⟨hcondition, hthen⟩ := each_append.1 hfirst
    rw [Stmt.erase, ← condition.expr_sexpr hcondition, ← thenSuite.suite_sexprs hthen,
      ← Suite.suite_sexprs? elseSuite helse]
    cases elseSuite <;> rfl
  | .forRange _ _ start stop step body, h => by
    obtain ⟨hexprs, hbody⟩ := each_append.1 (each_nodes.1 h).1
    obtain ⟨hstart, hrest⟩ := each_ofExprs_cons.1 hexprs
    obtain ⟨hstop, hstep⟩ := each_ofExprs_cons.1 hrest
    rw [Stmt.erase, ← start.expr_sexpr hstart, ← stop.expr_sexpr hstop, ← body.suite_sexprs hbody]
    cases step with
    | none => rfl
    | some step =>
      rw [Option.map_some, ← step.expr_sexpr hstep]
      rfl
  | .whileLoop _ condition body, h => by
    obtain ⟨hcondition, hbody⟩ := each_append.1 (each_nodes.1 h).1
    rw [Stmt.erase, ← condition.expr_sexpr hcondition, ← body.suite_sexprs hbody]
    rfl
  | .doWhile _ body condition, h => by
    obtain ⟨hbody, hcondition⟩ := each_append.1 (each_nodes.1 h).1
    rw [Stmt.erase, ← condition.expr_sexpr hcondition, ← body.suite_sexprs hbody]
    rfl
  | .jump _ jump, _ => by cases jump <;> rfl
  | .select _ scrutinee arms, h => by
    obtain ⟨hscrutinee, harms⟩ := each_append.1 (each_nodes.1 h).1
    rw [Stmt.erase, ← scrutinee.expr_sexpr hscrutinee,
      ← Arm.arms_sexprs arms harms (each_nodes.1 h).2]
    rfl

theorem Suite.suite_sexprs : (suite : Suite) → suite.nodes.Legible →
    (SExpr.block suite.sexprs).suite = suite.erase
  | .mk _ stmts, h => congrArg (Suite.mk .erased) (Stmt.stmts_sexprs stmts h)

theorem Suite.suite_sexprs? : (suite : Option Suite) → (Suite.nodesElse suite).Legible →
    (Suite.sexprs? suite).map (fun stmts => (SExpr.block stmts).suite) = Suite.eraseElse suite
  | none, _ => rfl
  | some suite, h => congrArg some (suite.suite_sexprs h)

theorem Stmt.stmts_sexprs : (ss : List Stmt) → (Stmt.nodesAll ss).Legible →
    SExpr.stmts (Stmt.sexprs ss) = Stmt.eraseAll ss
  | [], _ => rfl
  | s :: ss, h => by
    obtain ⟨hs, hss⟩ := each_append.1 h
    rw [Stmt.eraseAll, ← s.stmt_sexpr hs, ← Stmt.stmts_sexprs ss hss]
    rfl

theorem Arm.arms_sexprs : (arms : List Arm) → (Arm.nodesAll arms).Legible →
    (∀ e ∈ Arm.accepted arms, e.integer?.isSome) →
    SExpr.arms ((Arm.sexprs arms).map fun arm =>
      SExpr.form "case" [SExpr.pattern arm.pattern, SExpr.block arm.body]) = Arm.eraseAll arms
  | [], _, _ => rfl
  | .mk _ pattern body :: arms, h, hvalues => by
    obtain ⟨hfirst, harms⟩ := each_append.1 h
    obtain ⟨hpattern, hbody⟩ := each_append.1 hfirst
    rw [Arm.eraseAll, ← body.suite_sexprs hbody, ← Arm.arms_sexprs arms harms fun e he =>
      hvalues e (List.mem_append_right _ he)]
    cases pattern with
    | wildcard => rfl
    | value e =>
      have hne := e.sexpr_ne_wildcard hpattern (hvalues e (List.mem_append_left _ (.head _)))
      rw [Pattern.erase, ← e.expr_sexpr hpattern]
      exact congrArg (· :: _) (Arm.arm_value hne body.sexprs)

end

/-! ### Items -/

/-- What begins with no word of a declaration is a statement. -/
theorem Stmt.shape_sexpr (s : Stmt) :
    s.sexpr.shape = .statement s.sexpr.stmt ∧ s.sexpr.decl? = none := by
  cases s with
  | expr _ value =>
    cases value with
    | unary _ op _ | binary _ op _ _ => cases op <;> exact ⟨rfl, rfl⟩
    | number | var | addressOf | index | member | call => exact ⟨rfl, rfl⟩
  | jump _ jump => cases jump <;> exact ⟨rfl, rfl⟩
  | declare | assign | ret | print | branch | forRange | whileLoop | doWhile | select =>
    exact ⟨rfl, rfl⟩

theorem Binding.bound_binding {b : Binding} (h : b.Named) : (SExpr.binding b).bound = b := by
  obtain ⟨name, type⟩ := b
  exact congrArg (Binding.mk name) (TypeExpr.ofText_text h.2)

theorem Binding.map_bound {bindings : List Binding} (h : ∀ b ∈ bindings, b.Named) :
    (bindings.map SExpr.binding).map SExpr.bound = bindings := by
  rw [List.map_map]
  exact (List.map_congr_left fun b hb => bound_binding (h b hb)).trans bindings.map_id

theorem Prototype.Named.proto_eq {proto : Prototype} (h : proto.Named) :
    SExpr.proto proto.name (proto.params.map SExpr.binding) proto.result.text = proto.erase := by
  rw [SExpr.proto, Binding.map_bound h.params, TypeExpr.ofText_text h.result]
  rfl

namespace Item

variable {types types' : TypeEnv} {item item' : Item}

/-- A legible item is recovered from its S-expression, and so is the declaration of its struct. -/
theorem shape_of_shown? (h : item.Legible types) {value : SExpr}
    (hvalue : item.shown? types = some value) : value.shape = item.shape.erase ∧
      value.decl? = (item.shape.declared? types).map StructDecl.erase := by
  obtain ⟨shape, place⟩ := item
  obtain ⟨hnamed, hdeclared, hnodes⟩ := h
  cases shape with
  | function proto body =>
    cases hvalue
    refine ⟨?_, rfl⟩
    rw [Shape.erase, ← body.suite_sexprs hnodes, ← hnamed.1.proto_eq]
    rfl
  | external proto =>
    cases hvalue
    exact ⟨congrArg Shape.external hnamed.proto_eq, rfl⟩
  | typeAlias name target =>
    cases hvalue
    exact ⟨congrArg (Shape.typeAlias name) (TypeExpr.ofText_text hnamed.2), rfl⟩
  | struct name =>
    obtain ⟨decl, hdecl, rfl⟩ := Option.map_eq_some_iff.1 hvalue
    obtain ⟨hname, -, hfields⟩ := hdeclared name decl hdecl
    have hfound : types.structDecl? name = some decl := hdecl
    refine ⟨congrArg Shape.struct hname, ?_⟩
    rw [Shape.declared?, hfound]
    exact congrArg (fun fields => some (StructDecl.mk decl.name fields .erased))
      (Binding.map_bound hfields)
  | statement stmt =>
    cases hvalue
    obtain ⟨hshape, hdecl⟩ := stmt.shape_sexpr
    exact ⟨hshape.trans (congrArg Shape.statement (stmt.stmt_sexpr hnodes)), hdecl⟩

/-- Legible items with the same S-expression are the same. -/
theorem same_of_shown? (h : item.Legible types) (h' : item'.Legible types') {value : SExpr}
    (hvalue : item.shown? types = some value) (hvalue' : item'.shown? types' = some value) :
    item.Same types types' item' := by
  obtain ⟨hshape, hdecl⟩ := shape_of_shown? h hvalue
  obtain ⟨hshape', hdecl'⟩ := shape_of_shown? h' hvalue'
  exact ⟨hshape.symm.trans hshape', hdecl.symm.trans hdecl'⟩

end Item

end Offside
