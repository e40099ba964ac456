import Offside.Location

/-!
# Errors of lowering

## Main definitions

* `Offside.LowerError`: why a tree cannot be handed to a backend.
* `Offside.LowerError.message`: the wording of each cause.
-/

namespace Offside

/-- Why a tree cannot be handed to a backend. -/
inductive LowerError
  /-- An expression that names no place where a place is needed. -/
  | notAddressable (place : Location)
  /-- A struct item whose declaration is missing. -/
  | unknownStruct (name : String)
  deriving DecidableEq, Repr

/-- The wording of a lowering error. -/
def LowerError.message : LowerError → String
  | notAddressable place =>
    s!"expression at line {place.line}, column {place.column} is not addressable"
  | unknownStruct name => s!"no declaration for struct '{name}'"

end Offside
