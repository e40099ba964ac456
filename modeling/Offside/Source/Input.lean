/-!
# Input texts

A text is read one line at a time. Text that comes as bytes is decoded line by line: the first
line that is not well-formed UTF-8 is lost as a whole, and the input ends there.

## Main definitions

* `Offside.Source.Input`: the readable characters, and whether an unreadable line follows them.
* `Offside.Source.Input.ofString`, `Offside.Source.Input.ofBytes`: the two kinds of input.
* `Offside.Source.splitLine`: the first line of a text, with its line feed, and the rest.

## Main results

* `Offside.Source.splitLine_append`: the first line and the rest are the text.
* `Offside.Source.splitLine_fst_ne_nil`: the first line of a nonempty text is nonempty.
-/

namespace Offside.Source

/-- A text to be read. -/
structure Input where
  /-- The characters that can be read. -/
  text : List Char
  /-- Whether a line that cannot be decoded follows them. -/
  broken : Bool
  deriving DecidableEq, Repr, Inhabited

/-- The first line, through its line feed, and what follows it. -/
def splitLine : List Char → List Char × List Char
  | [] => ([], [])
  | c :: cs =>
    if c = '\n' then ([c], cs)
    else ((c :: (splitLine cs).1), (splitLine cs).2)

theorem splitLine_append (cs : List Char) : (splitLine cs).1 ++ (splitLine cs).2 = cs := by
  induction cs with
  | nil => rfl
  | cons c cs ih => by_cases h : c = '\n' <;> simp [splitLine, h, ih]

theorem splitLine_fst_ne_nil {cs : List Char} (h : cs ≠ []) : (splitLine cs).1 ≠ [] := by
  cases cs with
  | nil => exact absurd rfl h
  | cons c cs => by_cases hc : c = '\n' <;> simp [splitLine, hc]

theorem length_splitLine (cs : List Char) :
    (splitLine cs).1.length + (splitLine cs).2.length = cs.length := by
  rw [← List.length_append, splitLine_append]

/-- The lines of a byte sequence, each through its line feed. -/
def byteLines : List UInt8 → List (List UInt8)
  | [] => []
  | b :: bs =>
    if b = 10 then [b] :: byteLines bs
    else match byteLines bs with
      | [] => [[b]]
      | line :: lines => (b :: line) :: lines

/-- The characters of one line of bytes, if it is well-formed UTF-8. -/
def decodeLine (line : List UInt8) : Option (List Char) :=
  (String.fromUTF8? ⟨line.toArray⟩).map String.toList

namespace Input

/-- The input that a string gives. -/
def ofString (text : String) : Input := ⟨text.toList, false⟩

/-- Decode lines up to the first one that is not well-formed. -/
def ofByteLines : List (List UInt8) → Input
  | [] => ⟨[], false⟩
  | line :: lines =>
    match decodeLine line with
    | none => ⟨[], true⟩
    | some text => ⟨text ++ (ofByteLines lines).text, (ofByteLines lines).broken⟩

/-- The input that a sequence of bytes gives. -/
def ofBytes (bytes : List UInt8) : Input := ofByteLines (byteLines bytes)

end Input

end Offside.Source
