import Offside.Parser.Declaration
import Offside.Parser.Expr

/-!
# Reading statements

The body of a statement is a statement on the same line or an indented block on the lines after
it. An `elif` reads as an `else` whose body is an `if`.

```text
suite ::= statement | line-end indent statement (line-end statement)* dedent
```

## Main definitions

* `Offside.Parse.statement`: read a statement.
* `Offside.Parse.suite`: read the body of a statement.
-/

namespace Offside.Parse

/-- Read an optional expression after a token of a given kind. -/
def optionalAfter (fuel : Nat) (mark : Kind) : Parse (Option Expr) := do
  if ← accept? mark then return some (← expression fuel) else return none

/-- Read what follows the name or place `target` that starts a statement at `start`: the type of a
declaration, the value of an assignment, or the rest of an expression. -/
def afterTarget (fuel : Nat) (start : Location) (target : Expr) : Parse Stmt := do
  match ← kind with
  | .symbol .colon =>
    match target.plainName? with
    | none => refuse .plainName
    | some name =>
      advance
      let type ← typeExpr fuel
      let init ← optionalAfter fuel (.symbol .assign)
      finishStmt start (.declare · name type init)
  | .symbol .assign =>
    if !target.isAddressable then fail .notAssignable start
    advance
    let value ← expression fuel
    finishStmt start (.assign · target value)
  | _ =>
    let value ← operators fuel 0 target
    finishStmt start (.expr · value)

/-- Read a `return` whose word, at `start`, has been read. -/
def returnStatement (fuel : Nat) (start : Location) : Parse Stmt := do
  if (← get).atStatementEnd then finishStmt start (.ret · none)
  else
    let value ← expression fuel
    finishStmt start (.ret · (some value))

/-- Read a `print` whose word, at `start`, has been read. -/
def printStatement (fuel : Nat) (start : Location) : Parse Stmt := do
  expectOpen .printWord
  let args ← arguments fuel .print
  expectClose .printArguments
  finishStmt start (.print · args)

/-- The parts of a counting loop before its body. -/
structure Range where
  counter : String
  start : Expr
  stop : Expr
  step : Option Expr

/-- Read the header of a counting loop after its first word. -/
def range (fuel : Nat) : Parse Range := do
  let counter ← expectName .loopVariable
  expect (.keyword .inWord) .inWord
  expect (.keyword .rangeWord) .rangeWord
  expectOpen .rangeWord
  let start ← expression fuel
  expect (.symbol .comma) .rangeComma
  let stop ← expression fuel
  let step ← optionalAfter fuel (.symbol .comma)
  expectClose .rangeArguments
  expectColon .forHeader
  return ⟨counter, start, stop, step⟩

/-- Read what a case accepts; `wild` tells whether an earlier case accepts everything. -/
def pattern (fuel : Nat) (wild : Bool) : Parse Pattern := do
  if (← kind) = .identifier "_" then
    if wild then fail .duplicateWildcard (← place)
    advance
    return .wildcard
  else return .value (← expression fuel)

mutual

/-- Read a statement. -/
def statement : Nat → Parse Stmt
  | 0 => throw .tooDeep
  | fuel + 1 => do
    let start ← place
    match ← kind with
    | .keyword .ifWord => ifStatement fuel
    | .keyword .forWord =>
      advance
      let range ← range fuel
      let body ← suite fuel
      finishStmt start (.forRange · range.counter range.start range.stop range.step body)
    | .keyword .whileWord =>
      advance
      let condition ← expression fuel
      expectColon .whileCondition
      let body ← suite fuel
      finishStmt start (.whileLoop · condition body)
    | .keyword .doWord =>
      advance
      expectColon .doWord
      let body ← suite fuel
      expect (.keyword .whileWord) .whileWord
      let condition ← expression fuel
      finishStmt start (.doWhile · body condition)
    | .keyword .matchWord =>
      advance
      let scrutinee ← expression fuel
      expectColon .matchExpression
      expect .endOfLine (.lineEnd .matchHeader)
      expect .indent (.blockStart .cases)
      let arms ← arms fuel []
      if arms.isEmpty then refuse .matchCase
      expect .dedent (.blockEnd .cases)
      finishStmt start (.select · scrutinee arms)
    | .keyword .returnWord =>
      advance
      returnStatement fuel start
    | .keyword .printWord =>
      advance
      printStatement fuel start
    | .keyword .breakWord =>
      advance
      finishStmt start (.jump · .breakLoop)
    | .keyword .continueWord =>
      advance
      finishStmt start (.jump · .continueLoop)
    | .keyword .elifWord | .keyword .elseWord => refuse .noBranch
    | .keyword .caseWord => refuse .noCase
    | .keyword .defWord | .keyword .externWord | .keyword .typeWord | .keyword .structWord =>
      refuse .noDeclaration
    | .identifier _ => afterTarget fuel start (← suffixed fuel)
    | _ =>
      let value ← expression fuel
      finishStmt start (.expr · value)

/-- Read an `if` or `elif` with the branches that follow it. -/
def ifStatement : Nat → Parse Stmt
  | 0 => throw .tooDeep
  | fuel + 1 => do
    let start ← place
    advance
    let condition ← expression fuel
    expectColon .ifCondition
    let thenSuite ← suite fuel
    let elseSuite ← elseSuite fuel
    finishStmt start (.branch · condition thenSuite elseSuite)

/-- Read the other branch of an `if`, if there is one. -/
def elseSuite : Nat → Parse (Option Suite)
  | 0 => throw .tooDeep
  | fuel + 1 => do
    let start ← place
    match ← kind with
    | .keyword .elifWord =>
      let nested ← ifStatement fuel
      return some (.mk start [nested])
    | .keyword .elseWord =>
      advance
      expectColon .elseWord
      return some (← suite fuel)
    | _ => return none

/-- Read the body of a statement. -/
def suite : Nat → Parse Suite
  | 0 => throw .tooDeep
  | fuel + 1 => do
    if (← kind) = .endOfLine then
      advance
      let start ← place
      expect .indent (.blockStart .statements)
      let stmts ← blockStatements fuel []
      if stmts.isEmpty then refuse .blockStatement
      expect .dedent (.blockEnd .statements)
      return .mk start stmts
    else
      let start ← place
      return .mk start [← statement fuel]

/-- Read the statements of a block after those in `before`. -/
def blockStatements : Nat → List Stmt → Parse (List Stmt)
  | 0, _ => throw .tooDeep
  | fuel + 1, before => do
    modify Parser.skipLineEnds
    if (← get).atBlockEnd then return before
    let stmt ← statement fuel
    expectStatementEnd .statement
    blockStatements fuel (before ++ [stmt])

/-- Read the cases of a `match` after those in `before`. -/
def arms : Nat → List Arm → Parse (List Arm)
  | 0, _ => throw .tooDeep
  | fuel + 1, before => do
    modify Parser.skipLineEnds
    if (← get).atBlockEnd then return before
    let start ← place
    expect (.keyword .caseWord) .caseWord
    let pattern ← pattern fuel (before.any Arm.isWildcard)
    expectColon .casePattern
    let body ← suite fuel
    expectStatementEnd .case
    arms fuel (before ++ [.mk start pattern body])

end

end Offside.Parse
