import Offside.Location
import Offside.Source.Input
import Offside.Source.Lines

/-!
# Character streams

A stream delivers the characters of an input one at a time and requests a further line only when
nothing requested is left, so that whoever types the input is never made to type past the line in
hand. A carriage return, alone or followed by a line feed, is delivered as one line feed.

## Main definitions

* `Offside.Source.Stream`: an input in the course of being read.
* `Offside.Source.Stream.fill`: request a line if nothing requested is left.
* `Offside.Source.Stream.peek`, `Offside.Source.Stream.peekSecond`: look ahead.
* `Offside.Source.Stream.advance`, `Offside.Source.Stream.takeWhile`: read.
* `Offside.Source.Stream.lineText`: the text of a line as far as it is known.

## Main results

* `Offside.Source.Stream.size_advance_lt`: a delivered character is used up.
* `Offside.Source.Stream.length_takeWhile_add_size_le`: a run of characters is used up.
-/

namespace Offside.Source

/-- A carriage return stands for a line feed. -/
def normaliseChar (c : Char) : Char := if c = '\r' then '\n' else c

/-- A text with each of its line ends written as one line feed. -/
def normalise : List Char → List Char
  | [] => []
  | '\r' :: '\n' :: cs => '\n' :: normalise cs
  | c :: cs => normaliseChar c :: normalise cs

/-- An input in the course of being read. -/
structure Stream where
  /-- The characters not yet requested. -/
  unread : List Char
  /-- Whether an unreadable line follows them. -/
  broken : Bool
  /-- The characters requested and not yet delivered: the rest of one line. -/
  pending : List Char
  /-- The place of the last delivered character. -/
  location : Location
  /-- What has been delivered. -/
  lines : Lines
  /-- Whether a request met the unreadable line. -/
  failed : Bool
  deriving DecidableEq, Repr, Inhabited

namespace Stream

/-- A stream at the start of an input; nothing is requested yet. -/
def ofInput (input : Input) : Stream :=
  ⟨input.text, input.broken, [], Location.start, Lines.empty, false⟩

/-- The number of characters not yet delivered, a two-character line end counted as two. -/
def size (s : Stream) : Nat := s.pending.length + s.unread.length

/-- The characters still to be delivered. -/
def remaining (s : Stream) : List Char := normalise (s.pending ++ s.unread)

/-- Request a line if no requested character is left. -/
def fill (s : Stream) : Stream :=
  match s.pending, s.unread with
  | _ :: _, _ => s
  | [], c :: cs => { s with pending := (splitLine (c :: cs)).1, unread := (splitLine (c :: cs)).2 }
  | [], [] => if s.broken then { s with broken := false, failed := true } else s

/-- The next character, after requesting a line if need be. -/
def peek (s : Stream) : Option Char := s.fill.pending.head?.map normaliseChar

/-- The character after the next one, as it was written, among those already requested. -/
def peekSecond (s : Stream) : Option Char := s.pending[1]?

/-- Deliver `c`, after which the requested characters are `rest`. -/
def deliver (s : Stream) (c : Char) (rest : List Char) : Stream :=
  { s with pending := rest, location := s.location.next c, lines := s.lines.push c }

/-- Read one character; none at the end of the input. -/
def advance (s : Stream) : Option Char × Stream :=
  let s := s.fill
  match s.pending with
  | [] => (none, s)
  | '\r' :: '\n' :: rest => (some '\n', s.deliver '\n' rest)
  | c :: rest => (some (normaliseChar c), s.deliver (normaliseChar c) rest)

/-- Read one character and forget it. -/
def skip (s : Stream) : Stream := s.advance.2

@[simp] theorem size_fill (s : Stream) : s.fill.size = s.size := by
  unfold fill
  split
  · rfl
  · next c cs hp hu =>
    have := length_splitLine (c :: cs)
    simp_all [size]
  · split <;> simp_all [size]

/-- A request is made once. -/
@[simp] theorem fill_fill (s : Stream) : s.fill.fill = s.fill := by
  match hp : s.pending, hu : s.unread with
  | _ :: _, _ => simp [fill, hp]
  | [], c :: cs =>
    have := splitLine_fst_ne_nil (List.cons_ne_nil c cs)
    rw [fill.eq_def s]
    simp only [hp, hu]
    unfold fill
    split
    · rfl
    · simp_all
    · simp_all
  | [], [] =>
    rw [fill.eq_def s]
    simp only [hp, hu]
    cases hb : s.broken <;> simp [fill, hp, hu, hb]

@[simp] theorem peek_fill (s : Stream) : s.fill.peek = s.peek := by simp [peek]

/-- A delivered character is used up. -/
theorem size_advance_lt {s : Stream} {c : Char} (h : s.advance.1 = some c) :
    s.skip.size < s.size := by
  rw [← size_fill s]
  unfold skip
  unfold advance at h ⊢
  generalize s.fill = t at h ⊢
  dsimp only at h ⊢
  split at h
  · exact absurd h (by simp)
  · simp only [size, deliver, *, List.length_cons]
    omega
  · simp only [size, deliver, *, List.length_cons]
    omega

theorem size_skip_le (s : Stream) : s.skip.size ≤ s.size := by
  rw [← size_fill s]
  unfold skip advance
  generalize s.fill = t
  dsimp only
  split
  · exact Nat.le_refl _
  · simp only [size, deliver, *, List.length_cons]
    omega
  · simp only [size, deliver, *, List.length_cons]
    omega

/-- The next character is the one that is read. -/
theorem peek_eq_advance (s : Stream) : s.peek = s.advance.1 := by
  unfold peek advance
  generalize s.fill = t
  dsimp only
  split <;> simp_all [normaliseChar]

theorem size_skip_lt {s : Stream} {c : Char} (h : s.peek = some c) : s.skip.size < s.size :=
  size_advance_lt (peek_eq_advance s ▸ h)

/-- Read the longest run of characters that satisfy `p`. -/
def takeWhile (p : Char → Bool) (s : Stream) : List Char × Stream :=
  match _h : s.peek with
  | none => ([], s.fill)
  | some c =>
    if p c then
      let (run, rest) := takeWhile p s.skip
      (c :: run, rest)
    else ([], s.fill)
termination_by s.size
decreasing_by exact size_skip_lt ‹_›

/-- A run of characters is used up. -/
theorem length_takeWhile_add_size_le (p : Char → Bool) (s : Stream) :
    (s.takeWhile p).1.length + (s.takeWhile p).2.size ≤ s.size := by
  fun_induction takeWhile p s with
  | case1 s h => simp
  | case2 s c h hp run rest hr ih =>
    have := size_skip_lt h
    simp_all
    omega
  | case3 s c h hp => simp

theorem size_takeWhile_le (p : Char → Bool) (s : Stream) : (s.takeWhile p).2.size ≤ s.size := by
  have := length_takeWhile_add_size_le p s
  omega

/-- A run that starts is not empty. -/
theorem takeWhile_ne_nil {p : Char → Bool} {s : Stream} {c : Char} (h : s.peek = some c)
    (hp : p c) : (s.takeWhile p).1 ≠ [] := by
  unfold takeWhile
  split
  · simp_all
  · simp_all

theorem size_takeWhile_lt {p : Char → Bool} {s : Stream} {c : Char} (h : s.peek = some c)
    (hp : p c) : (s.takeWhile p).2.size < s.size := by
  have := length_takeWhile_add_size_le p s
  have := List.length_pos_iff.2 (takeWhile_ne_nil h hp)
  omega

/-- The text of line `n`: a finished line as delivered, the line in progress as delivered and
with what is requested of it, nothing for any other number. -/
def lineText (s : Stream) (n : Nat) : Option (List Char) :=
  (s.lines.line? n).map fun delivered =>
    if n < s.lines.count then delivered
    else delivered ++ s.pending.takeWhile fun c => c ≠ '\n' && c ≠ '\r'

end Stream

end Offside.Source
