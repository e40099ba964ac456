/-!
# What the grammar expects

A syntax error says what was expected at a token. The expectations are grouped by the token that
is missing; each names the construct that asked for it.

## Main definitions

* `Offside.Expectation`: what was expected.
* `Offside.Expectation.text`: its wording, without the token that was found.
-/

namespace Offside

/-- What a colon follows. -/
inductive Header
  | prototype | parameterName | structName | structFieldName | ifCondition | elseWord
  | forHeader | whileCondition | doWord | matchExpression | casePattern
  deriving DecidableEq, Repr

/-- What an opening parenthesis follows. -/
inductive Opening
  | functionName | rangeWord | printWord
  deriving DecidableEq, Repr

/-- What a closing parenthesis follows. -/
inductive Closing
  | parameters | addrOperand | expression | functionArguments | rangeArguments | printArguments
  deriving DecidableEq, Repr

/-- What a line end follows. -/
inductive Ending
  | topLevelItem | typeAlias | structHeader | structField | statement | matchHeader | case
  deriving DecidableEq, Repr

/-- Indented parts of a construct. -/
inductive Block
  | fields | statements | cases
  deriving DecidableEq, Repr

/-- What a name stands for. -/
inductive Naming
  | function | parameter | type | typeAlias | struct | field | member | loopVariable
  deriving DecidableEq, Repr

/-- Lists of expressions in parentheses. -/
inductive ArgumentList
  | call | print
  deriving DecidableEq, Repr

/-- What was expected at a token. -/
inductive Expectation
  | colon (after : Header)
  | openParen (after : Opening)
  | closeParen (after : Closing)
  | lineEnd (after : Ending)
  | blockStart (block : Block)
  | blockEnd (block : Block)
  | name (of : Naming)
  | defWord | inWord | rangeWord | whileWord | caseWord
  | returnType | aliasTarget | pointerEnd | indexEnd | rangeComma
  | parameterSeparator
  | argument (list : ArgumentList)
  | argumentSeparator (list : ArgumentList)
  | expression
  | blockStatement | matchCase
  | plainName
  | noIndent | noBranch | noCase | noDeclaration
  deriving DecidableEq, Repr

/-- The wording of what a colon follows. -/
def Header.text : Header → String
  | prototype => "function prototype"
  | parameterName => "parameter name"
  | structName => "struct name"
  | structFieldName => "struct field name"
  | ifCondition => "if condition"
  | elseWord => "'else'"
  | forHeader => "for header"
  | whileCondition => "while condition"
  | doWord => "'do'"
  | matchExpression => "match expression"
  | casePattern => "case pattern"

/-- The wording of what an opening parenthesis follows. -/
def Opening.text : Opening → String
  | functionName => "function name"
  | rangeWord => "'range'"
  | printWord => "'print'"

/-- The wording of what a closing parenthesis follows. -/
def Closing.text : Closing → String
  | parameters => "parameters"
  | addrOperand => "addr operand"
  | expression => "expression"
  | functionArguments => "function arguments"
  | rangeArguments => "range arguments"
  | printArguments => "print arguments"

/-- The wording of what a line end follows. -/
def Ending.text : Ending → String
  | topLevelItem => "top-level item"
  | typeAlias => "type alias"
  | structHeader => "struct header"
  | structField => "struct field"
  | statement => "statement"
  | matchHeader => "match header"
  | case => "case"

/-- The wording of a missing name. -/
def Naming.text : Naming → String
  | function => "function name in prototype"
  | parameter => "parameter name"
  | type => "type name"
  | typeAlias => "alias name after 'type'"
  | struct => "struct name after 'struct'"
  | field => "field name in struct"
  | member => "field name after '.'"
  | loopVariable => "loop variable after 'for'"

/-- The wording of a list of expressions. -/
def ArgumentList.text : ArgumentList → String
  | call => "argument list"
  | print => "print arguments"

/-- The wording of an expectation. -/
def Expectation.text : Expectation → String
  | colon after => s!"Expected ':' after {after.text}"
  | openParen after => s!"Expected '(' after {after.text}"
  | closeParen after => s!"Expected ')' after {after.text}"
  | lineEnd after => s!"Expected newline after {after.text}"
  | blockStart .fields => "Expected indented struct field list"
  | blockStart .statements => "Expected an indented block"
  | blockStart .cases => "Expected indented case list"
  | blockEnd .fields => "Expected end of struct field list"
  | blockEnd .statements => "Expected end of indented block"
  | blockEnd .cases => "Expected end of match block"
  | name naming => s!"Expected {naming.text}"
  | defWord => "Expected 'def' after 'extern'"
  | inWord => "Expected 'in' after loop variable"
  | rangeWord => "Expected 'range' in for loop"
  | whileWord => "Expected 'while' after do body"
  | caseWord => "Expected 'case' in match block"
  | returnType => "Expected '->' and return type in prototype"
  | aliasTarget => "Expected '=' in type alias declaration"
  | pointerEnd => "Expected ']' after pointer element type"
  | indexEnd => "Expected ']' after index"
  | rangeComma => "Expected ',' after range start"
  | parameterSeparator => "Expected ')' or ',' in parameter list"
  | argument list => s!"Expected an expression in {list.text}"
  | argumentSeparator list => s!"Expected ')' or ',' in {list.text}"
  | expression => "Expected an expression"
  | blockStatement => "Expected at least one statement in block"
  | matchCase => "Expected at least one case in match"
  | plainName => "Expected a plain name before ':' in declaration"
  | noIndent => "Unexpected indentation"
  | noBranch => "Unexpected branch without a matching 'if'"
  | noCase => "Unexpected 'case' outside of 'match'"
  | noDeclaration => "Declarations are only allowed at top level"

end Offside
