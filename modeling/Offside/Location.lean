/-!
# Places in a text

Lines are counted from 1. A `Location` serves two purposes with one reading each: as the place of
a token it names a character, so columns start at 1; as the moving place of a reader it names the
last character read, so the column is 0 before the first character of a line.

## Main definitions

* `Offside.Location`: a line and a column.
* `Offside.Location.next`: the moving place after one more character.
-/

namespace Offside

/-- A line and a column of a text, counted in characters. -/
structure Location where
  line : Nat
  column : Nat
  deriving DecidableEq, Repr, Inhabited

namespace Location

/-- The moving place before anything is read. -/
def start : Location := ⟨1, 0⟩

/-- The moving place after reading `c`: a line end opens the next line. -/
def next (place : Location) (c : Char) : Location :=
  if c = '\n' then ⟨place.line + 1, 0⟩ else ⟨place.line, place.column + 1⟩

/-- The character that follows the moving place. -/
def following (place : Location) : Location := ⟨place.line, place.column + 1⟩

@[simp] theorem next_newline (place : Location) : place.next '\n' = ⟨place.line + 1, 0⟩ := rfl

theorem next_of_ne {c : Char} (place : Location) (h : c ≠ '\n') :
    place.next c = place.following := by simp [next, following, h]

end Location

end Offside
