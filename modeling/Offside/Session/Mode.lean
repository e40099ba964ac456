/-!
# Modes of a session

## Main definitions

* `Offside.Mode`: whether a session stops at the first error or prompts and goes on.
-/

namespace Offside

/-- How a session treats errors. -/
inductive Mode
  /-- Stop at the first error. -/
  | file
  /-- Prompt for each line and go on after errors. -/
  | interactive
  deriving DecidableEq, Repr

/-- The name of a mode in the log. -/
def Mode.name : Mode → String
  | file => "File"
  | interactive => "Interactive"

end Offside
