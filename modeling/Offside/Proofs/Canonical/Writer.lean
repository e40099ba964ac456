import Offside.Proofs.Canonical.Lines
import Offside.Proofs.Tree.Erased
import Offside.Types.Env

/-!
# Canonical texts

Constructs written as text: one statement to a line, every body a block one level deeper, and the
other branch of an `if` always an `else` block. The texts of expressions are left open. Two
occurrences of an expression have different tags, so nothing keeps them from being written
differently.

Not every tree is that of a text. Names have to be names, bodies may not be empty, and so on; these
are the conditions under which the parser can have built the tree.

## Main definitions

* `Offside.Construct`: what a text consists of.
* `Offside.Stmt.lines`, `Offside.Construct.lines`: the lines of a statement and of a construct.
* `Offside.Stmt.Writable`, `Offside.Construct.Writable`: trees that a text can have.
* `Offside.Construct.declare`: what a construct declares.
-/

namespace Offside

/-! ### Types and prototypes -/

/-- The pieces of a type. -/
def TypeExpr.pieces : TypeExpr → List Piece
  | .builtin b => [.name b.name]
  | .named name => [.name name]
  | .pointer element =>
    [.name "ptr", .sign .openBracket] ++ element.pieces ++ [.sign .closeBracket]

theorem TypeExpr.toList_text_pointer (element : TypeExpr) :
    (pointer element).text.toList = 'p' :: 't' :: 'r' :: '[' :: (element.text.toList ++ [']']) := by
  have htext : (pointer element).text = "ptr[" ++ element.text ++ "]" := rfl
  rw [htext, String.toList_append, String.toList_append]
  rfl

/-- Types as they are read: a builtin name stands for the builtin type. -/
def TypeExpr.Writable : TypeExpr → Prop
  | .builtin _ => True
  | .named name => IsName name ∧ Builtin.ofName? name = none
  | .pointer element => element.Writable

/-- Parts with commas between them. -/
def Piece.commas : List (List Piece) → List Piece
  | [] => []
  | [part] => part
  | part :: next :: parts => part ++ [.sign .comma, .gap] ++ Piece.commas (next :: parts)

/-- The pieces of a parameter or a field. -/
def Binding.pieces (binding : Binding) : List Piece :=
  [.name binding.name, .sign .colon, .gap] ++ binding.type.pieces

/-- Parameters or fields: names that differ, with types. -/
def Binding.WritableAll (bindings : List Binding) : Prop :=
  (bindings.map (·.name)).Nodup ∧ ∀ b ∈ bindings, IsName b.name ∧ b.type.Writable

/-- The pieces of a prototype. -/
def Prototype.pieces (proto : Prototype) : List Piece :=
  [.name proto.name, .sign .openParen] ++ Piece.commas (proto.params.map Binding.pieces) ++
    [.sign .closeParen, .gap, .sign .arrow, .gap] ++ proto.result.pieces

/-- A name with parameters and a result. -/
structure Prototype.Writable (proto : Prototype) : Prop where
  name : IsName proto.name
  params : Binding.WritableAll proto.params
  result : proto.result.Writable

/-! ### Statements -/

/-- An integer literal, possibly negated. -/
def Expr.IsLiteral : Expr → Prop
  | .number _ (.int _) | .unary _ .neg (.number _ (.int _)) => True
  | _ => False

/-- A text whose first token is a name. -/
def StartsWithName (text : String) : Prop :=
  ∃ name, (textKinds text).head? = some (.identifier name)

/-- The reserved word of a jump. -/
def Jump.keyword : Jump → Keyword
  | .breakLoop => .breakWord
  | .continueLoop => .continueWord

section

variable (spell : Expr → String)

/-- The pieces of an expression that may be left out, after those that lead up to it. -/
def Piece.optional (lead : List Piece) : Option Expr → List Piece
  | none => []
  | some e => lead ++ [.text (spell e)]

/-- The pieces of what a case accepts. -/
def Pattern.pieces : Pattern → List Piece
  | .value e => [.text (spell e)]
  | .wildcard => [.name "_"]

/-- The pieces of a list of expressions. -/
def Piece.list (es : List Expr) : List Piece := commas (es.map fun e => [.text (spell e)])

mutual

/-- The lines of a statement that stands at `depth`. -/
def Stmt.lines (depth : ℕ) : Stmt → List Line
  | .expr _ e => [⟨depth, [.text (spell e)]⟩]
  | .declare _ name type init =>
    [⟨depth, [.name name, .sign .colon, .gap] ++ type.pieces ++
      Piece.optional spell [.gap, .sign .assign, .gap] init⟩]
  | .assign _ target value =>
    [⟨depth, [.text (spell target), .gap, .sign .assign, .gap, .text (spell value)]⟩]
  | .ret _ value => [⟨depth, .keyword .returnWord :: Piece.optional spell [.gap] value⟩]
  | .print _ args =>
    [⟨depth, [.keyword .printWord, .sign .openParen] ++ Piece.list spell args ++
      [.sign .closeParen]⟩]
  | .branch _ condition thenSuite elseSuite =>
    ⟨depth, [.keyword .ifWord, .gap, .text (spell condition), .sign .colon]⟩ ::
      (thenSuite.lines (depth + 1) ++ Suite.linesElse depth elseSuite)
  | .forRange _ counter start stop step body =>
    ⟨depth, [.keyword .forWord, .gap, .name counter, .gap, .keyword .inWord, .gap,
      .keyword .rangeWord, .sign .openParen, .text (spell start), .sign .comma, .gap,
      .text (spell stop)] ++ Piece.optional spell [.sign .comma, .gap] step ++
      [.sign .closeParen, .sign .colon]⟩ :: body.lines (depth + 1)
  | .whileLoop _ condition body =>
    ⟨depth, [.keyword .whileWord, .gap, .text (spell condition), .sign .colon]⟩ ::
      body.lines (depth + 1)
  | .doWhile _ body condition =>
    ⟨depth, [.keyword .doWord, .sign .colon]⟩ :: (body.lines (depth + 1) ++
      [⟨depth, [.keyword .whileWord, .gap, .text (spell condition)]⟩])
  | .jump _ jump => [⟨depth, [.keyword jump.keyword]⟩]
  | .select _ scrutinee arms =>
    ⟨depth, [.keyword .matchWord, .gap, .text (spell scrutinee), .sign .colon]⟩ ::
      Arm.linesAll (depth + 1) arms

/-- The lines of a body whose statements stand at `depth`. -/
def Suite.lines (depth : ℕ) : Suite → List Line
  | .mk _ stmts => Stmt.linesAll depth stmts

/-- The lines of the other branch, if there is one. -/
def Suite.linesElse (depth : ℕ) : Option Suite → List Line
  | none => []
  | some suite => ⟨depth, [.keyword .elseWord, .sign .colon]⟩ :: suite.lines (depth + 1)

/-- The lines of statements. -/
def Stmt.linesAll (depth : ℕ) : List Stmt → List Line
  | [] => []
  | s :: ss => s.lines depth ++ Stmt.linesAll depth ss

/-- The lines of cases. -/
def Arm.linesAll (depth : ℕ) : List Arm → List Line
  | [] => []
  | .mk _ pattern body :: arms =>
    ⟨depth, [.keyword .caseWord, .gap] ++ pattern.pieces spell ++ [.sign .colon]⟩ ::
      (body.lines (depth + 1) ++ Arm.linesAll depth arms)

end

/-- The text of an expression is one of it. -/
def Expr.Spelled (e : Expr) : Prop := Spells (spell e) e

/-- A case accepts an integer literal or everything. -/
def Pattern.Writable : Pattern → Prop
  | .value e => e.Spelled spell ∧ e.IsLiteral
  | .wildcard => True

mutual

/-- Statements that a text can have. -/
def Stmt.Writable : Stmt → Prop
  | .expr _ e => e.Spelled spell
  | .declare _ name type init => IsName name ∧ type.Writable ∧ ∀ e ∈ init, e.Spelled spell
  | .assign _ target value =>
    target.Spelled spell ∧ target.isAddressable ∧ StartsWithName (spell target) ∧
      value.Spelled spell
  | .ret _ value => ∀ e ∈ value, e.Spelled spell
  | .print _ args => ∀ e ∈ args, e.Spelled spell
  | .branch _ condition thenSuite elseSuite =>
    condition.Spelled spell ∧ thenSuite.Writable ∧ Suite.WritableElse elseSuite
  | .forRange _ counter start stop step body =>
    IsName counter ∧ start.Spelled spell ∧ stop.Spelled spell ∧ (∀ e ∈ step, e.Spelled spell) ∧
      body.Writable
  | .whileLoop _ condition body => condition.Spelled spell ∧ body.Writable
  | .doWhile _ body condition => body.Writable ∧ condition.Spelled spell
  | .jump _ _ => True
  | .select _ scrutinee arms =>
    scrutinee.Spelled spell ∧ arms ≠ [] ∧ (arms.filter Arm.isWildcard).length ≤ 1 ∧
      Arm.WritableAll arms

/-- A body has a statement. -/
def Suite.Writable : Suite → Prop
  | .mk _ stmts => stmts ≠ [] ∧ Stmt.WritableAll stmts

/-- The other branch is a body. -/
def Suite.WritableElse : Option Suite → Prop
  | none => True
  | some suite => suite.Writable

/-- Statements that a text can have, in order. -/
def Stmt.WritableAll : List Stmt → Prop
  | [] => True
  | s :: ss => s.Writable ∧ Stmt.WritableAll ss

/-- Cases that a text can have. -/
def Arm.WritableAll : List Arm → Prop
  | [] => True
  | .mk _ pattern body :: arms => pattern.Writable spell ∧ body.Writable ∧ Arm.WritableAll arms

end

end

/-! ### Constructs -/

/-- What a text consists of: items, with a struct as it is declared. -/
inductive Construct
  | function (proto : Prototype) (body : Suite)
  | external (proto : Prototype)
  | typeAlias (name : String) (target : TypeExpr)
  | struct (decl : StructDecl)
  | statement (stmt : Stmt)

namespace Construct

/-- The item that a construct is read as. -/
def shape : Construct → Item.Shape
  | function proto body => .function proto body
  | external proto => .external proto
  | typeAlias name target => .typeAlias name target
  | struct decl => .struct decl.name
  | statement stmt => .statement stmt

/-- What a construct declares. -/
def declare (env : TypeEnv) : Construct → TypeEnv
  | typeAlias name target => env.declareAlias name target
  | struct decl => env.declareStruct decl
  | function _ _ | external _ | statement _ => env

section

variable (spell : Expr → String)

/-- The lines of a construct. -/
def lines : Construct → List Line
  | function proto body =>
    ⟨0, [.keyword .defWord, .gap] ++ proto.pieces ++ [.sign .colon]⟩ :: body.lines spell 1
  | external proto => [⟨0, [.keyword .externWord, .gap, .keyword .defWord, .gap] ++ proto.pieces⟩]
  | typeAlias name target =>
    [⟨0, [.keyword .typeWord, .gap, .name name, .gap, .sign .assign, .gap] ++ target.pieces⟩]
  | struct decl =>
    ⟨0, [.keyword .structWord, .gap, .name decl.name, .sign .colon]⟩ ::
      decl.fields.map fun field => ⟨1, field.pieces⟩
  | statement stmt => stmt.lines spell 0

/-- Constructs that a text can have where the tables are `env`. -/
def Writable (env : TypeEnv) : Construct → Prop
  | function proto body => proto.Writable ∧ body.Writable spell
  | external proto => proto.Writable
  | typeAlias name target => IsName name ∧ target.Writable ∧ env.hasStruct name = false
  | struct decl =>
    IsName decl.name ∧ decl.fields ≠ [] ∧ Binding.WritableAll decl.fields ∧
      env.hasStruct decl.name = false ∧ env.alias? decl.name = none
  | statement stmt => stmt.Writable spell

/-- Constructs that a text can have one after the other. -/
def WritableAll : TypeEnv → List Construct → Prop
  | _, [] => True
  | env, c :: cs => c.Writable spell env ∧ WritableAll (c.declare env) cs

/-- The canonical text of constructs, with `unit` spaces for each level. -/
def text (unit : ℕ) (cs : List Construct) : List Char := Line.text unit (cs.flatMap (lines spell))

end

end Construct

end Offside
