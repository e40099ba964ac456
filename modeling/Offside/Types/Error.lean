/-!
# Errors of type resolution

Why a type expression denotes no type, and the wording of each cause.

## Main definitions

* `Offside.TypeError`: the causes.
* `Offside.TypeError.message`: their wording.
-/

namespace Offside

/-- Why a type expression denotes no type. -/
inductive TypeError
  /-- A name that is neither builtin nor declared. -/
  | unknownType (name : String)
  /-- An alias met again while it is being expanded. -/
  | aliasCycle (name : String)
  /-- A struct met again by value while its own fields are being laid out. -/
  | recursiveStruct (name : String)
  deriving DecidableEq, Repr

/-- The wording of a resolution error. -/
def TypeError.message : TypeError → String
  | unknownType name => s!"Unknown type alias: {name}"
  | aliasCycle name => s!"Alias cycle detected at type: {name}"
  | recursiveStruct name => s!"Struct '{name}' contains itself by value"

end Offside
