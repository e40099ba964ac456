/-!
# Lines read so far

The characters that a reader has delivered, cut at the line feeds. There is always a line in
progress, possibly empty, after the finished ones.

## Main definitions

* `Offside.Source.Lines`: finished lines and the line in progress.
* `Offside.Source.Lines.toList`: all lines in order, the one in progress last.
* `Offside.Source.Lines.line?`: a line by its number, counted from 1.

## Main results

* `Offside.Source.Lines.toList_push_newline`, `Offside.Source.Lines.toList_push`: delivering a
  line feed opens an empty line, any other character extends the last one.
-/

namespace Offside.Source

/-- Delivered lines. Both the finished lines and the line in progress are kept newest first. -/
structure Lines where
  finished : List (List Char)
  current : List Char
  deriving DecidableEq, Repr, Inhabited

namespace Lines

/-- Nothing delivered yet: one empty line in progress. -/
def empty : Lines := ⟨[], []⟩

/-- Record one delivered character. -/
def push (lines : Lines) (c : Char) : Lines :=
  if c = '\n' then ⟨lines.current.reverse :: lines.finished, []⟩
  else ⟨lines.finished, c :: lines.current⟩

/-- Record a sequence of delivered characters. -/
def pushAll (lines : Lines) (cs : List Char) : Lines := cs.foldl push lines

/-- All lines in order, the one in progress last. -/
def toList (lines : Lines) : List (List Char) := lines.finished.reverse ++ [lines.current.reverse]

/-- The number of the line in progress. -/
def count (lines : Lines) : Nat := lines.finished.length + 1

/-- The text of line `n`, counted from 1, as far as it has been delivered. -/
def line? (lines : Lines) : Nat → Option (List Char)
  | 0 => none
  | n + 1 => lines.toList[n]?

@[simp] theorem toList_empty : empty.toList = [[]] := rfl

@[simp] theorem length_toList (lines : Lines) : lines.toList.length = lines.count := by
  simp [toList, count]

theorem toList_push_newline (lines : Lines) :
    (lines.push '\n').toList = lines.toList ++ [[]] := by simp [push, toList]

theorem toList_push {c : Char} (lines : Lines) (h : c ≠ '\n') :
    (lines.push c).toList = lines.toList.dropLast ++ [lines.current.reverse ++ [c]] := by
  simp [push, toList, h]

theorem line?_eq_none_iff (lines : Lines) (n : Nat) :
    lines.line? n = none ↔ n = 0 ∨ lines.count < n := by
  cases n with
  | zero => simp [line?]
  | succ n =>
    rw [line?, List.getElem?_eq_none_iff, length_toList]
    omega

end Lines

end Offside.Source
