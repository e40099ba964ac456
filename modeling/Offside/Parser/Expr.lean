import Offside.Parser.Basic

/-!
# Reading expressions

Binary operators associate to the left and are grouped by precedence. Unary operators bind tighter
than binary ones, and the suffixes of a call, an index and a member tighter still.

```text
expression ::= unary (operator unary)*
unary      ::= ("-" | "+" | "!" | "not" | "~") unary | suffixed
suffixed   ::= primary ("(" arguments ")" | "[" expression "]" | "." name)*
primary    ::= number | name | "addr" "(" expression ")" | "(" expression ")"
```

Every function takes a bound on the depth of its recursion first.

## Main definitions

* `Offside.Parse.expression`: read an expression.
* `Offside.Parse.operators`: read the binary operators that follow an operand.
* `Offside.Parse.suffixed`: read a primary expression with its suffixes.
* `Offside.Parse.arguments`: read a list of expressions up to a closing parenthesis.
-/

namespace Offside.Parse

/-- What a unary operator does to its operand: plus does nothing. -/
inductive Sign
  | plus
  | apply (op : UnaryOp)
  deriving DecidableEq, Repr

/-- The unary operator that a token stands for. -/
def Sign.ofKind? : Kind → Option Sign
  | .symbol .minus => some (.apply .neg)
  | .symbol .bang | .keyword .notWord => some (.apply .not)
  | .symbol .tilde => some (.apply .bitNot)
  | .symbol .plus => some .plus
  | _ => none

mutual

/-- Read an expression. -/
def expression : Nat → Parse Expr
  | 0 => throw .tooDeep
  | fuel + 1 => do operators fuel 0 (← unary fuel)

/-- Read the operators of precedence `least` or more that follow the operand `left`. -/
def operators : Nat → Nat → Expr → Parse Expr
  | 0, _, _ => throw .tooDeep
  | fuel + 1, least, left => do
    match BinaryOp.ofKind? (← kind) with
    | none => return left
    | some op =>
      if op.precedence < least then return left
      let place ← place
      advance
      let right ← unary fuel
      let right ← tighter fuel op right
      operators fuel least (← finishExpr place (.binary · op left right))

/-- Let an operator that binds tighter than `op` take `right` as its left operand. -/
def tighter : Nat → BinaryOp → Expr → Parse Expr
  | 0, _, _ => throw .tooDeep
  | fuel + 1, op, right => do
    match BinaryOp.ofKind? (← kind) with
    | none => return right
    | some next =>
      if op.precedence < next.precedence then operators fuel (op.precedence + 1) right
      else return right

/-- Read an operand with the unary operators before it. -/
def unary : Nat → Parse Expr
  | 0 => throw .tooDeep
  | fuel + 1 => do
    let place ← place
    match Sign.ofKind? (← kind) with
    | none => suffixed fuel
    | some sign =>
      advance
      let operand ← unary fuel
      match sign with
      | .plus => return operand
      | .apply op => finishExpr place (.unary · op operand)

/-- Read a primary expression with its suffixes. -/
def suffixed : Nat → Parse Expr
  | 0 => throw .tooDeep
  | fuel + 1 => do suffixes fuel (← primary fuel)

/-- Read the suffixes of an expression. A call stands where the name of the function stands, the
other suffixes where they begin. -/
def suffixes : Nat → Expr → Parse Expr
  | 0, _ => throw .tooDeep
  | fuel + 1, e => do
    let place ← place
    match ← kind with
    | .symbol .openParen =>
      advance
      match e.plainName? with
      | none => fail .notCallable place
      | some callee =>
        let args ← arguments fuel .call
        expectClose .functionArguments
        suffixes fuel (← finishExpr e.location (.call · callee args))
    | .symbol .openBracket =>
      advance
      let index ← expression fuel
      expect (.symbol .closeBracket) .indexEnd
      suffixes fuel (← finishExpr place (.index · e index))
    | .symbol .dot =>
      advance
      let field ← expectName .member
      suffixes fuel (← finishExpr place (.member · e field))
    | _ => return e

/-- Read a list of expressions up to a closing parenthesis, which is not read. -/
def arguments : Nat → ArgumentList → Parse (List Expr)
  | 0, _ => throw .tooDeep
  | fuel + 1, list => do
    if (← kind) = .symbol .closeParen then return []
    nextArguments fuel list

/-- Read a list of at least one expression. -/
def nextArguments : Nat → ArgumentList → Parse (List Expr)
  | 0, _ => throw .tooDeep
  | fuel + 1, list => do
    if (← kind) = .symbol .closeParen then refuse (.argument list)
    let e ← expression fuel
    if ← accept? (.symbol .comma) then
      return e :: (← nextArguments fuel list)
    if (← kind) ≠ .symbol .closeParen then refuse (.argumentSeparator list)
    return [e]

/-- Read a literal, a name, an address or an expression in parentheses. -/
def primary : Nat → Parse Expr
  | 0 => throw .tooDeep
  | fuel + 1 => do
    let place ← place
    match ← kind with
    | .number _ value =>
      advance
      finishExpr place (.number · value)
    | .identifier name =>
      advance
      if name = "addr" ∧ (← kind) = .symbol .openParen then
        advance
        let operand ← expression fuel
        expectClose .addrOperand
        finishExpr place (.addressOf · operand)
      else finishExpr place (.var · name)
    | .symbol .openParen =>
      advance
      let e ← expression fuel
      expectClose .expression
      return e
    | _ => refuse .expression

end

end Offside.Parse
