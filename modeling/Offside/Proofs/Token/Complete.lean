import Offside.Proofs.Token.Counted

/-!
# Lines that are known in full

A stream keeps the lines that it has delivered, and of the line in progress also what has been
requested. So it knows every line before the one in progress, and that one too as soon as any part
of it has been requested: requests are for whole lines. Only right after a line feed the stream may
know nothing of the line in progress.

## Main definitions

* `Offside.Source.Stream.Of`: a stream of a given text.
* `Offside.Source.Stream.Covers`: the stream knows a line in full.
* `Offside.Location.Within`: a place in a text, or just past the end of one of its lines.
* `Offside.Location.PointsInto`: a place on a line that the stream knows in full.

## Main results

* `Offside.Source.Stream.Of.lineText`: what a stream knows of a line is the line of the text.
* `Offside.Source.Stream.Covers.mono`: a line once known stays known.
-/

namespace Offside

open Source

namespace Source

/-! ### The lines of a text -/

theorem splitOn_newline (cs : List Char) :
    ('\n' :: cs).splitOn '\n' = [] :: cs.splitOn '\n' := by
  rw [List.splitOn, List.splitOnP_cons_eq_if_modifyHead, if_pos (by decide)]
  rfl

theorem splitOn_cons_of_ne {c : Char} (cs : List Char) (hc : c ≠ '\n') :
    (c :: cs).splitOn '\n' = (cs.splitOn '\n').modifyHead (List.cons c) := by
  rw [List.splitOn, List.splitOnP_cons_eq_if_modifyHead, if_neg (by simpa using hc)]
  rfl

theorem length_splitOn_newline (cs : List Char) :
    (cs.splitOn '\n').length = cs.count '\n' + 1 := by
  induction cs with
  | nil => rfl
  | cons c cs ih =>
    by_cases hc : c = '\n'
    · rw [hc, splitOn_newline, List.length_cons, ih, List.count_cons_self]
    · rw [splitOn_cons_of_ne _ hc, List.length_modifyHead, ih, List.count_cons_of_ne hc]

theorem head?_splitOn (cs : List Char) :
    (cs.splitOn '\n').head? = some (cs.takeWhile (· ≠ '\n')) := by
  induction cs with
  | nil => simp
  | cons c cs ih =>
    by_cases hc : c = '\n'
    · simp [hc, splitOn_newline]
    · simp [hc, splitOn_cons_of_ne, List.head?_modifyHead, ih]

theorem modifyHead_nil_append (lines : List (List Char)) :
    lines.modifyHead ([] ++ ·) = lines := by
  cases lines <;> rfl

/-- Where a line ends does not depend on how the line end is written. -/
theorem takeWhile_normalise (cs : List Char) :
    (normalise cs).takeWhile (· ≠ '\n') = cs.takeWhile fun c => c ≠ '\n' && c ≠ '\r' := by
  fun_induction normalise cs with
  | case1 => rfl
  | case2 cs ih => simp
  | case3 c cs h ih =>
    rw [List.takeWhile_cons, List.takeWhile_cons, ih]
    by_cases hr : c = '\r'
    · simp [hr, normaliseChar]
    · simp [hr, normaliseChar]

namespace Stream

/-! ### Streams of a text -/

/-- The stream `s` reads `text`: what it has delivered and what it has still to deliver are the
text. -/
structure Of (text : List Char) (s : Stream) : Prop where
  lineWise : s.LineWise
  counted : s.Counted
  lines : text.splitOn '\n' = s.lines.finished.reverse ++
    (s.remaining.splitOn '\n').modifyHead (s.lines.current.reverse ++ ·)

variable {text : List Char} {s t : Stream} {n : Nat}

theorem of_ofInput (input : Input) : (ofInput input).Of (normalise input.text) := by
  refine ⟨lineWise_ofInput input, counted_ofInput input, ?_⟩
  exact (modifyHead_nil_append _).symm

theorem Of.fill (h : s.Of text) : s.fill.Of text :=
  ⟨lineWise_fill h.lineWise, h.counted.fill, by rw [lines_fill, remaining_fill, h.lines]⟩

theorem lines_skip (hs : s.LineWise) {c : Char} (h : s.peek = some c) :
    s.skip.lines = s.lines.push c := by
  rcases skip_cases hs h with ⟨rest, -, rfl, he⟩ | ⟨d, rest, -, rfl, -, he⟩
  · rw [he, deliver, lines_fill]
  · rw [he, deliver, lines_fill]

theorem Of.skip (h : s.Of text) : s.skip.Of text := by
  cases hp : s.peek with
  | none =>
    rw [skip_of_pending (by rw [peek] at hp; simpa using hp)]
    exact h.fill
  | some c =>
    refine ⟨lineWise_skip h.lineWise, h.counted.skip, ?_⟩
    rw [h.lines, lines_skip h.lineWise hp, remaining_eq_cons hp, remaining_skip h.lineWise,
      Lines.push]
    split
    · next hc =>
      rw [hc, splitOn_newline, List.reverse_cons, List.append_assoc, List.reverse_nil,
        modifyHead_nil_append]
      simp
    · next hc =>
      rw [splitOn_cons_of_ne _ hc, List.modifyHead_modifyHead]
      simp [Function.comp_def]

/-! ### The line in progress -/

/-- Something of the line in progress has been requested, or nothing is left to request. -/
def Requested (s : Stream) : Prop := s.unread = [] ∨ s.pending ≠ []

theorem requested_fill (s : Stream) : s.fill.Requested := by
  by_cases h : s.fill.pending = []
  · exact .inl (unread_fill_of_pending h)
  · exact .inr h

theorem requested_of_fill (h : s.fill = s) : s.Requested := h ▸ requested_fill s

/-- Until the line feed is read, the rest of the line is among the requested characters. -/
theorem requested_skip {c : Char} (hs : s.LineWise) (hp : s.peek = some c) (hc : c ≠ '\n') :
    s.skip.Requested := by
  have hfill := lineWise_fill hs
  rcases skip_cases hs hp with ⟨rest, -, rfl, -⟩ | ⟨d, rest, hpending, rfl, -, he⟩
  · exact absurd rfl hc
  · rw [he, Requested]
    cases rest with
    | cons e rest => exact .inr (List.cons_ne_nil e rest)
    | nil =>
      rcases hfill with hu | hu | hu
      · exact .inl hu
      · rw [hpending] at hu
        cases hu
      · rw [hpending] at hu
        obtain rfl : d = '\n' := by simpa using hu
        exact absurd rfl hc

theorem Requested.takeWhile_append (h : s.Requested) (hs : s.LineWise) :
    (s.pending ++ s.unread).takeWhile (fun c => c ≠ '\n' && c ≠ '\r') =
      s.pending.takeWhile fun c => c ≠ '\n' && c ≠ '\r' := by
  by_cases hunread : s.unread = []
  · rw [hunread, List.append_nil]
  · obtain ⟨before, hpending⟩ : ∃ before, s.pending = before ++ ['\n'] := by
      rcases hs with hu | hu | hu
      · exact absurd hu hunread
      · exact absurd hu (h.resolve_left hunread)
      · exact List.getLast?_eq_some_iff.1 hu
    rw [hpending, List.append_assoc, List.singleton_append]
    clear hpending
    induction before with
    | nil => simp
    | cons c before ih => rw [List.cons_append, List.takeWhile_cons, ih, List.cons_append,
        List.takeWhile_cons]

/-- The stream knows line `n` in full: it is finished, or something of it has been requested. -/
def Covers (s : Stream) (n : Nat) : Prop :=
  n < s.location.line ∨ n = s.location.line ∧ s.Requested

theorem Covers.le (h : s.Covers n) : n ≤ s.location.line :=
  h.elim Nat.le_of_lt fun hn => Nat.le_of_eq hn.1

/-- What a stream knows of a line that it knows in full is the line of the text. -/
theorem Of.lineText (h : s.Of text) (hn : 0 < n) (covers : s.Covers n) :
    s.lineText n = (text.splitOn '\n')[n - 1]? ∧ (s.lineText n).isSome := by
  have hcounted := h.counted
  obtain ⟨m, rfl⟩ : ∃ m, n = m + 1 := ⟨n - 1, by omega⟩
  rw [Counted, Lines.count] at hcounted
  rw [Covers, hcounted] at covers
  rw [h.lines, Stream.lineText, Lines.line?, Lines.toList, Lines.count, Nat.add_sub_cancel]
  rcases covers with hlt | ⟨heq, hrequested⟩
  · have hm : m < s.lines.finished.reverse.length := by
      rw [List.length_reverse]
      exact Nat.lt_of_succ_lt_succ hlt
    rw [List.getElem?_append_left hm, List.getElem?_append_left hm, List.getElem?_eq_getElem hm,
      Option.map_some, if_pos hlt]
    exact ⟨rfl, rfl⟩
  · obtain rfl : m = s.lines.finished.length := Nat.succ.inj heq
    have hhead := head?_splitOn s.remaining
    rw [remaining, takeWhile_normalise, hrequested.takeWhile_append h.lineWise,
      List.head?_eq_getElem?, ← remaining] at hhead
    rw [List.getElem?_append_right (by simp), List.getElem?_append_right (by simp)]
    simp [hhead]

/-- The line in progress is a line of the text, and what is delivered of it comes first in it. -/
theorem Of.exists_line (h : s.Of text) :
    ∃ line, (text.splitOn '\n')[s.location.line - 1]? = some line ∧
      s.location.column ≤ line.length := by
  have hcounted := h.counted
  have hhead := head?_splitOn s.remaining
  rw [Counted, Lines.count] at hcounted
  rw [List.head?_eq_getElem?] at hhead
  rw [h.lines, hcounted, Nat.add_sub_cancel, List.getElem?_append_right (by simp)]
  refine ⟨s.lines.current.reverse ++ s.remaining.takeWhile (· ≠ '\n'), ?_, ?_⟩
  · simp [hhead]
  · simp

/-! ### Reading on -/

/-- Reading in a text: lines are passed one after another, and as long as the line in progress is the
same, what has been requested of it stays known. -/
def ReadsIn (text : List Char) (s t : Stream) : Prop :=
  s.Of text → t.Of text ∧ s.location.line ≤ t.location.line ∧
    (s.location.line = t.location.line → s.Requested → t.Requested)

instance : Frame (ReadsIn text) where
  refl _ h := ⟨h, Nat.le_refl _, fun _ h => h⟩
  trans s t u h k hs := by
    obtain ⟨ht, hle, hkeeps⟩ := h hs
    obtain ⟨hu, hle', hkeeps'⟩ := k ht
    refine ⟨hu, Nat.le_trans hle hle', fun heq hrequested => ?_⟩
    have hline : s.location.line = t.location.line := by omega
    exact hkeeps' (hline.symm.trans heq) (hkeeps hline hrequested)
  fill s h := by
    refine ⟨h.fill, Nat.le_of_eq ?_, fun _ _ => requested_fill s⟩
    rw [location_fill]
  skip s h := by
    refine ⟨h.skip, ?_⟩
    cases hp : s.peek with
    | none =>
      rw [skip_of_pending (by rw [peek] at hp; simpa using hp), location_fill]
      exact ⟨Nat.le_refl _, fun _ _ => requested_fill s⟩
    | some c =>
      rw [location_skip h.lineWise hp, Location.next]
      split
      · exact ⟨Nat.le_succ _, fun heq => absurd heq (Nat.ne_of_lt (Nat.lt_succ_self _))⟩
      · next hc => exact ⟨Nat.le_refl _, fun _ _ => requested_skip h.lineWise hp hc⟩

/-- A line once known stays known. -/
theorem Covers.mono (h : s.Covers n) (hs : s.Of text) (reads : ReadsIn text s t) : t.Covers n := by
  obtain ⟨-, hle, hkeeps⟩ := reads hs
  rcases h with hlt | ⟨rfl, hrequested⟩
  · exact .inl (Nat.lt_of_lt_of_le hlt hle)
  · rcases Nat.lt_or_eq_of_le hle with hlt | heq
    · exact .inl hlt
    · exact .inr ⟨heq, hkeeps heq hrequested⟩

end Stream

end Source

/-! ### Places in a text -/

namespace Location

variable {text : List Char} {place : Location} {s : Stream}

/-- A character of a text, or the place just past the end of a line. -/
structure Within (text : List Char) (place : Location) : Prop where
  line_pos : 1 ≤ place.line
  column_pos : 1 ≤ place.column
  column_le : ∃ line, (text.splitOn '\n')[place.line - 1]? = some line ∧
    place.column ≤ line.length + 1

/-- A place on a line that has been begun, and of which the stream knows the whole text. -/
structure PointsInto (text : List Char) (s : Stream) (place : Location) : Prop
    extends place.Within text where
  line_le : place.line ≤ s.location.line
  known : s.lineText place.line = (text.splitOn '\n')[place.line - 1]?

theorem Within.pointsInto (h : place.Within text) (hs : s.Of text) (covers : s.Covers place.line) :
    place.PointsInto text s :=
  ⟨h, covers.le, (hs.lineText h.line_pos covers).1⟩

end Location

end Offside
