import Offside.Lowering.Backend

/-!
# S-expressions

A backend whose values are nested lists of words, without places. Two items that differ in their
places only are lowered to the same S-expression.

## Main definitions

* `Offside.SExpr`: words and lists.
* `Offside.SExpr.text`: the printed form.
* `Offside.sexprBackend`: the backend.
* `Offside.Item.sexpr`: an item as an S-expression.
-/

namespace Offside

/-- A word or a list. -/
inductive SExpr
  | word (text : String)
  | list (items : List SExpr)
  deriving Repr

namespace SExpr

/-- A list that starts with a word. -/
def form (head : String) (items : List SExpr) : SExpr := list (word head :: items)

/-- The statements of a body. -/
def block (stmts : List SExpr) : SExpr := form "block" stmts

/-- A name with its type. -/
def binding (b : Binding) : SExpr := list [word b.name, word b.type.text]

/-- The word for what a case accepts. -/
def pattern (p : Option SExpr) : SExpr := p.getD (word "_")

mutual

/-- The printed form: the items of a list stand in parentheses, separated by single spaces. -/
def text : SExpr → String
  | word text => text
  | list [] => "()"
  | list (item :: items) => "(" ++ item.text ++ tailText items

/-- The printed form of the items after the first one, through the closing parenthesis. -/
def tailText : List SExpr → String
  | [] => ")"
  | item :: items => " " ++ item.text ++ tailText items

end

/-- The S-expression that stands for a node with the given children. -/
def ofCall : Call SExpr → SExpr
  | .number value => word value.text
  | .variable name | .variablePlace name => word name
  | .addressOf place => form "addr" [place]
  | .index base index | .indexPlace base index => form "index" [base, index]
  | .member object field | .memberPlace object field => form "." [object, word field]
  | .unary op operand => form op.symbol [operand]
  | .binary op left right => form op.symbol [left, right]
  | .call callee args => form "call" (word callee :: args)
  | .exprStmt value => value
  | .declare name type init => form "let" (word name :: word type.text :: init.toList)
  | .assign target value => form "=" [target, value]
  | .ret value => form "return" value.toList
  | .print args => form "print" args
  | .branch condition thenSuite elseSuite =>
    form "if" (condition :: block thenSuite :: (elseSuite.map block).toList)
  | .forRange counter start stop step body =>
    form "for" (word counter :: start :: stop :: step.toList ++ [block body])
  | .whileLoop condition body => form "while" [condition, block body]
  | .doWhile body condition => form "do" [block body, condition]
  | .jump jump => form jump.word []
  | .select scrutinee arms =>
    form "match" (scrutinee :: arms.map fun arm => form "case" [pattern arm.pattern, block arm.body])
  | .function proto body =>
    form "def" [word proto.name, list (proto.params.map binding), word proto.result.text, block body]
  | .external proto =>
    form "extern" [word proto.name, list (proto.params.map binding), word proto.result.text]
  | .typeAlias name target => form "type" [word name, word target.text]
  | .struct decl => form "struct" (word decl.name :: decl.fields.map binding)
  | .topLevel stmt => stmt

end SExpr

/-- The backend whose values are S-expressions. -/
def sexprBackend : Backend Unit LowerError SExpr where
  perform call _ := return .ofCall call
  reject := id

/-- An item as an S-expression. -/
def Item.sexpr (types : TypeEnv) (item : Item) : Except LowerError SExpr :=
  match (lowerItem sexprBackend types item).run () with
  | .ok value () => .ok value
  | .error error () => .error error

end Offside
