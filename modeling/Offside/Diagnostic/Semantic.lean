import Offside.Types.Error

/-!
# Semantic errors

What can be wrong with a text whose tokens fit the grammar so far: names declared twice, types
that do not resolve or do not fit, and constructs out of place. Types appear by their description,
as they are printed.

## Main definitions

* `Offside.SemanticError`: the causes.
* `Offside.SemanticError.message`: their wording.
-/

namespace Offside

/-- The statements that leave an iteration. -/
inductive Jump
  | breakLoop
  | continueLoop
  deriving DecidableEq, Repr

/-- The spelling of a jump. -/
def Jump.word : Jump → String
  | breakLoop => "break"
  | continueLoop => "continue"

/-- Why a construct is refused although its tokens fit the grammar. -/
inductive SemanticError
  | duplicateParameter (name : String)
  | duplicateField (field struct : String)
  | emptyStruct (name : String)
  /-- A struct declared again. -/
  | structTaken (name : String)
  /-- A new struct under the name of an alias. -/
  | namesAlias (name : String)
  /-- A new alias under the name of a struct. -/
  | namesStruct (name : String)
  /-- A call of something other than a name. -/
  | notCallable
  | notAssignable
  | notAddressable
  | duplicateWildcard
  /-- A type expression that denotes no type. -/
  | badType (cause : TypeError)
  | outsideLoop (jump : Jump)
  | scrutinee (found : String)
  | duplicateCase (value : Int)
  | floatCase
  | nonLiteralCase
  | notIndexable (found : String)
  | notStruct (found : String)
  | unknownField (field struct : String)
  deriving DecidableEq, Repr

/-- The wording of a semantic error. -/
def SemanticError.message : SemanticError → String
  | duplicateParameter name => s!"Duplicate parameter '{name}'"
  | duplicateField field struct => s!"Duplicate field '{field}' in struct '{struct}'"
  | emptyStruct name => s!"Struct '{name}' must declare at least one field"
  | structTaken name => s!"Struct '{name}' is already defined"
  | namesAlias name => s!"Type '{name}' is already defined as an alias"
  | namesStruct name => s!"Type '{name}' is already defined as a struct"
  | notCallable => "Only named functions can be called"
  | notAssignable => "Assignment target is not addressable"
  | notAddressable => "Cannot take the address of a non-addressable expression"
  | duplicateWildcard => "Duplicate wildcard case '_' in match"
  | badType cause => cause.message
  | outsideLoop jump => s!"'{jump.word}' outside of a loop"
  | scrutinee found => s!"Match scrutinee must be an integer, found {found}"
  | duplicateCase value => s!"Duplicate case value {value} in match"
  | floatCase => "Match case value must be an integer, found float"
  | nonLiteralCase => "Match case value must be an integer literal"
  | notIndexable found => s!"Cannot index a value of type {found}"
  | notStruct found => s!"Member access on non-struct type {found}"
  | unknownField field struct => s!"Unknown field '{field}' in struct '{struct}'"

end Offside
