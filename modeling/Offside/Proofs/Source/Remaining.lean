import Offside.Source.Stream

/-!
# What a stream has still to deliver

A stream requests its input line by line and turns line ends into line feeds as it delivers them.
Neither shows to a reader: looking ahead and reading are looking at and taking from the front of
one list of characters, the normalised rest of the text.

## Main definitions

* `Offside.Location.after`: the moving place after a sequence of characters.
* `Offside.Source.Stream.LineWise`: the requested characters end with a line feed or the input.
* `Offside.Source.Stream.Reads`: a stream reads on over a sequence of characters.

## Main results

* `Offside.Source.Stream.peek_eq_head?`: the next character is the first of the rest.
* `Offside.Source.Stream.remaining_skip`: reading takes that character away.
* `Offside.Source.Stream.takeWhile_fst`, `Offside.Source.Stream.remaining_takeWhile`: a run of
  characters is the longest prefix of the rest.
-/

namespace Offside

/-- The moving place after reading the characters `cs`. -/
def Location.after (place : Location) (cs : List Char) : Location := cs.foldl Location.next place

@[simp] theorem Location.after_nil (place : Location) : place.after [] = place := rfl

@[simp] theorem Location.after_cons (place : Location) (c : Char) (cs : List Char) :
    place.after (c :: cs) = (place.next c).after cs := rfl

theorem Location.after_append (place : Location) (xs ys : List Char) :
    place.after (xs ++ ys) = (place.after xs).after ys := List.foldl_append

/-- Reading goes down. -/
theorem Location.line_le_after (place : Location) (cs : List Char) :
    place.line ≤ (place.after cs).line := by
  induction cs generalizing place with
  | nil => exact Nat.le_refl _
  | cons c cs ih =>
    refine Nat.le_trans ?_ (ih (place.next c))
    rw [next]
    split
    · exact Nat.le_succ _
    · exact Nat.le_refl _

/-- Each line feed starts a line. -/
theorem Location.line_after (place : Location) (cs : List Char) :
    (place.after cs).line = place.line + cs.count '\n' := by
  induction cs generalizing place with
  | nil => rfl
  | cons c cs ih =>
    rw [after_cons, ih]
    by_cases hc : c = '\n'
    · subst hc
      rw [next_newline, List.count_cons_self]
      exact (Nat.succ_add_eq_add_succ _ _)
    · rw [next_of_ne place hc, List.count_cons_of_ne hc]
      rfl

/-- After a line feed the moving place is at the start of a line. -/
theorem Location.column_after {place : Location} {cs : List Char} (h : cs.getLast? = some '\n') :
    (place.after cs).column = 0 := by
  obtain ⟨cs, rfl⟩ := List.getLast?_eq_some_iff.1 h
  rw [after_append]
  rfl

/-- On one line the moving place goes right. -/
theorem Location.after_of_line {place : Location} {cs : List Char} (h : '\n' ∉ cs) :
    place.after cs = ⟨place.line, place.column + cs.length⟩ := by
  induction cs generalizing place with
  | nil => rfl
  | cons c cs ih =>
    obtain ⟨hc, hcs⟩ := List.ne_and_not_mem_of_not_mem_cons h
    rw [after_cons, next_of_ne place (Ne.symm hc), ih hcs]
    simp only [following, List.length_cons, Location.mk.injEq, true_and]
    omega

namespace Source

/-! ### Normalised texts -/

theorem normalise_crlf (cs : List Char) :
    normalise ('\r' :: '\n' :: cs) = '\n' :: normalise cs := rfl

theorem normalise_cons {c : Char} {cs : List Char} (h : c = '\r' → cs.head? ≠ some '\n') :
    normalise (c :: cs) = normaliseChar c :: normalise cs := by
  refine normalise.eq_3 c cs ?_
  rintro rest rfl rfl
  exact h rfl rfl

theorem head?_normalise (cs : List Char) :
    (normalise cs).head? = cs.head?.map normaliseChar := by
  fun_cases normalise cs with
  | case1 => rfl
  | case2 cs => rfl
  | case3 c cs h => rfl

theorem normaliseChar_ne (c : Char) : normaliseChar c ≠ '\r' := by
  rw [normaliseChar]
  split
  · decide
  · assumption

/-- A normalised text has no carriage return left. -/
theorem not_mem_normalise (cs : List Char) : '\r' ∉ normalise cs := by
  fun_induction normalise cs with
  | case1 => simp
  | case2 cs ih => simpa using ih
  | case3 c cs h ih => simpa using ⟨(normaliseChar_ne c).symm, ih⟩

/-- A text without carriage returns is as it will be delivered. -/
theorem normalise_of_not_mem {cs : List Char} (h : '\r' ∉ cs) : normalise cs = cs := by
  induction cs with
  | nil => rfl
  | cons c cs ih =>
    obtain ⟨hc, hcs⟩ := List.ne_and_not_mem_of_not_mem_cons h
    rw [normalise_cons fun h => absurd h.symm hc, ih hcs, normaliseChar, if_neg (Ne.symm hc)]

namespace Stream

/-! ### Requested lines -/

/-- The requested characters end with a line feed, unless they are used up or are the last. -/
def LineWise (s : Stream) : Prop :=
  s.unread = [] ∨ s.pending = [] ∨ s.pending.getLast? = some '\n'

theorem lineWise_ofInput (input : Input) : (ofInput input).LineWise := .inr (.inl rfl)

theorem splitLine_getLast? (cs : List Char) :
    (splitLine cs).2 = [] ∨ (splitLine cs).1.getLast? = some '\n' := by
  induction cs with
  | nil => exact .inl rfl
  | cons c cs ih =>
    by_cases hc : c = '\n'
    · simp [splitLine, hc]
    · refine ih.imp ?_ ?_ <;> intro h
      · simpa [splitLine, hc] using h
      · simp [splitLine, hc, List.getLast?_cons, h]

theorem lineWise_fill {s : Stream} (h : s.LineWise) : s.fill.LineWise := by
  rw [fill]
  split
  · exact h
  · next c cs hp hu => exact (splitLine_getLast? (c :: cs)).imp_right .inr
  · next hp hu =>
    split
    · exact .inl hu
    · exact h

/-- After a request, no requested character means no character. -/
theorem unread_fill_of_pending {s : Stream} (h : s.fill.pending = []) : s.fill.unread = [] := by
  rw [fill] at h ⊢
  split at h
  · next hp => simp_all
  · next c cs hp hu => exact absurd h (splitLine_fst_ne_nil (List.cons_ne_nil c cs))
  · next hp hu => split <;> simpa using hu

@[simp] theorem remaining_fill (s : Stream) : s.fill.remaining = s.remaining := by
  unfold fill remaining
  split
  · rfl
  · next c cs hp hu =>
    simp only [hp, hu, List.nil_append]
    rw [splitLine_append]
  · next hp hu => split <;> simp [hp, hu]

@[simp] theorem location_fill (s : Stream) : s.fill.location = s.location := by
  rw [fill]
  split
  · rfl
  · rfl
  · split <;> rfl

/-! ### Looking ahead and reading -/

/-- The next character is the first of the rest. -/
theorem peek_eq_head? (s : Stream) : s.peek = s.remaining.head? := by
  rw [← remaining_fill, remaining, head?_normalise]
  rw [peek]
  cases hp : s.fill.pending with
  | nil => rw [unread_fill_of_pending hp]; rfl
  | cons c cs => rfl

theorem remaining_eq_cons {s : Stream} {c : Char} (h : s.peek = some c) :
    s.remaining = c :: s.remaining.tail := by
  rw [peek_eq_head?, List.head?_eq_some_iff] at h
  obtain ⟨cs, h⟩ := h
  rw [h, List.tail_cons]

theorem peek_eq_none_iff {s : Stream} : s.peek = none ↔ s.remaining = [] := by
  rw [peek_eq_head?, List.head?_eq_none_iff]

/-- The two ways in which a character is delivered: a two-character line end, or one character
which is no part of such a line end. -/
theorem skip_cases {s : Stream} {c : Char} (hs : s.LineWise) (h : s.peek = some c) :
    (∃ rest, s.fill.pending = '\r' :: '\n' :: rest ∧ c = '\n' ∧
      s.skip = s.fill.deliver '\n' rest) ∨
    ∃ d rest, s.fill.pending = d :: rest ∧ c = normaliseChar d ∧
      (d = '\r' → (rest ++ s.fill.unread).head? ≠ some '\n') ∧
      s.skip = s.fill.deliver (normaliseChar d) rest := by
  have hw := lineWise_fill hs
  rw [peek] at h
  unfold skip advance
  dsimp only
  split
  · next hp => simp [hp] at h
  · next rest hp =>
    refine .inl ⟨rest, hp, ?_, rfl⟩
    simpa [hp, normaliseChar] using h.symm
  · next d rest hcr hp =>
    refine .inr ⟨d, rest, hp, by simpa [hp] using h.symm, ?_, rfl⟩
    rintro rfl
    cases rest with
    | nil =>
      rcases hw with hu | hu | hu
      · simp [hu]
      · simp [hp] at hu
      · simp [hp] at hu
    | cons e rest =>
      rintro he
      obtain rfl : e = '\n' := by simpa using he
      exact hcr rest rfl rfl

theorem skip_of_pending {s : Stream} (h : s.fill.pending = []) : s.skip = s.fill := by
  rw [skip, advance]
  simp only [h]

/-- Reading takes the first character of the rest away. -/
theorem remaining_skip {s : Stream} (hs : s.LineWise) : s.skip.remaining = s.remaining.tail := by
  cases h : s.peek with
  | none =>
    have hp : s.fill.pending = [] := by
      rw [peek] at h
      simpa using h
    rw [skip_of_pending hp, remaining_fill, peek_eq_none_iff.1 h]
    rfl
  | some c =>
    rw [← remaining_fill s]
    rcases skip_cases hs h with ⟨rest, hp, -, he⟩ | ⟨d, rest, hp, -, hd, he⟩
    · rw [he, remaining, remaining, hp]
      rfl
    · rw [he, remaining, remaining, hp, List.cons_append, normalise_cons hd]
      rfl

theorem lineWise_deliver {s : Stream} {c : Char} (taken : List Char) {rest : List Char}
    (hs : s.LineWise) (h : s.pending = taken ++ rest) : (s.deliver c rest).LineWise := by
  rcases hs with hu | hp | hl
  · exact .inl hu
  · rw [h, List.append_eq_nil_iff] at hp
    exact .inr (.inl hp.2)
  · cases rest with
    | nil => exact .inr (.inl rfl)
    | cons d rest =>
      refine .inr (.inr ?_)
      rw [← hl, h, List.getLast?_append]
      simp [deliver, List.getLast?_cons]

theorem lineWise_skip {s : Stream} (hs : s.LineWise) : s.skip.LineWise := by
  have hw := lineWise_fill hs
  unfold skip advance
  dsimp only
  split
  · exact hw
  · next rest hp => exact lineWise_deliver ['\r', '\n'] hw hp
  · next c rest _ hp => exact lineWise_deliver [c] hw hp

theorem location_skip {s : Stream} {c : Char} (hs : s.LineWise) (h : s.peek = some c) :
    s.skip.location = s.location.next c := by
  rcases skip_cases hs h with ⟨rest, -, rfl, he⟩ | ⟨d, rest, -, rfl, -, he⟩ <;>
    simp [he, deliver]

/-- The character after the next one, where it is not a line end, is the second of the rest. -/
theorem peekSecond_any {s : Stream} {p : Char → Bool} (hs : s.LineWise) (hf : s.fill = s)
    (hn : p '\n' = false) (hr : p '\r' = false) {c : Char} (hc : c ≠ '\n')
    (h : s.peek = some c) : s.peekSecond.any p = (s.remaining[1]?).any p := by
  rcases skip_cases hs h with ⟨rest, -, rfl, -⟩ | ⟨d, rest, hp, rfl, hd, -⟩
  · exact absurd rfl hc
  · rw [hf] at hp hd
    have hd' : d ≠ '\r' := by
      rintro rfl
      exact hc rfl
    have hrem : s.remaining = normaliseChar d :: normalise (rest ++ s.unread) := by
      rw [remaining, hp, List.cons_append, normalise_cons hd]
    rw [hrem, peekSecond, hp, List.getElem?_cons_succ, List.getElem?_cons_succ,
      ← List.head?_eq_getElem?, ← List.head?_eq_getElem?, head?_normalise]
    have hnorm (e : Char) : p (normaliseChar e) = p e := by
      rw [normaliseChar]
      split
      · next he => rw [he, hn, hr]
      · rfl
    cases rest with
    | cons e rest => simp [hnorm]
    | nil =>
      have hu : s.unread = [] := by
        rcases hs with hu | hu | hu
        · exact hu
        · simp [hp] at hu
        · exact absurd (by simpa [hp] using hu : d = '\n') (by rintro rfl; exact hc rfl)
      simp [hu]

/-! ### Runs of characters -/

theorem takeWhile_of_peek {p : Char → Bool} {s : Stream} {c : Char} (h : s.peek = some c)
    (hp : p c) : s.takeWhile p = (c :: (s.skip.takeWhile p).1, (s.skip.takeWhile p).2) := by
  rw [takeWhile.eq_def]
  split
  · simp_all
  · simp_all

/-- What a run of characters does to a stream: it delivers the longest prefix of the rest. -/
theorem takeWhile_spec {s : Stream} (p : Char → Bool) (hs : s.LineWise) :
    (s.takeWhile p).1 = s.remaining.takeWhile p ∧
      (s.takeWhile p).2.remaining = s.remaining.dropWhile p ∧ (s.takeWhile p).2.LineWise ∧
      (s.takeWhile p).2.fill = (s.takeWhile p).2 ∧
      (s.takeWhile p).2.location = s.location.after (s.remaining.takeWhile p) := by
  fun_induction takeWhile p s with
  | case1 s h =>
    have hr := peek_eq_none_iff.1 h
    simp [hr, lineWise_fill hs]
  | case2 s c h hp run rest hrun ih =>
    have hr : s.remaining = c :: s.skip.remaining := by
      rw [remaining_skip hs]
      exact remaining_eq_cons h
    have ih := ih (lineWise_skip hs)
    rw [hrun] at ih
    obtain ⟨h₁, h₂, h₃, h₄, h₅⟩ := ih
    rw [hr, List.takeWhile_cons_of_pos hp, List.dropWhile_cons_of_pos hp]
    refine ⟨congrArg (c :: ·) h₁, h₂, h₃, h₄, ?_⟩
    rw [Location.after_cons, ← location_skip hs h]
    exact h₅
  | case3 s c h hp =>
    have hr : s.remaining = c :: s.remaining.tail := remaining_eq_cons h
    rw [hr, List.takeWhile_cons_of_neg hp, List.dropWhile_cons_of_neg hp, ← hr]
    exact ⟨rfl, remaining_fill s, lineWise_fill hs, fill_fill s, location_fill s⟩

section

variable {s : Stream} (p : Char → Bool) (hs : s.LineWise)
include hs

theorem takeWhile_fst : (s.takeWhile p).1 = s.remaining.takeWhile p := (takeWhile_spec p hs).1

theorem remaining_takeWhile : (s.takeWhile p).2.remaining = s.remaining.dropWhile p :=
  (takeWhile_spec p hs).2.1

theorem lineWise_takeWhile : (s.takeWhile p).2.LineWise := (takeWhile_spec p hs).2.2.1

theorem fill_takeWhile : (s.takeWhile p).2.fill = (s.takeWhile p).2 :=
  (takeWhile_spec p hs).2.2.2.1

theorem location_takeWhile :
    (s.takeWhile p).2.location = s.location.after (s.remaining.takeWhile p) :=
  (takeWhile_spec p hs).2.2.2.2

end

/-! ### Reading on -/

/-- The stream `s` has become `t` by delivering the characters `used`. -/
structure Reads (s : Stream) (used : List Char) (t : Stream) : Prop where
  lineWise : t.LineWise
  remaining : s.remaining = used ++ t.remaining
  location : t.location = s.location.after used

theorem Reads.refl {s : Stream} (hs : s.LineWise) : s.Reads [] s := ⟨hs, rfl, rfl⟩

theorem Reads.trans {s t u : Stream} {xs ys : List Char} (h : s.Reads xs t) (k : t.Reads ys u) :
    s.Reads (xs ++ ys) u where
  lineWise := k.lineWise
  remaining := by rw [h.remaining, k.remaining, List.append_assoc]
  location := by rw [k.location, h.location, Location.after_append]

/-- What is left after reading is what follows the characters read. -/
theorem Reads.rest {s t : Stream} {used rest : List Char} (h : s.Reads used t)
    (he : s.remaining = used ++ rest) : t.remaining = rest := by
  have := h.remaining
  rw [he, List.append_cancel_left_eq] at this
  exact this.symm

theorem Reads.length_le {s t : Stream} {used : List Char} (h : s.Reads used t) :
    t.remaining.length ≤ s.remaining.length := by
  rw [h.remaining, List.length_append]
  omega

theorem reads_fill {s : Stream} (hs : s.LineWise) : s.Reads [] s.fill :=
  ⟨lineWise_fill hs, (remaining_fill s).symm, location_fill s⟩

theorem reads_skip {s : Stream} {c : Char} (hs : s.LineWise) (h : s.peek = some c) :
    s.Reads [c] s.skip where
  lineWise := lineWise_skip hs
  remaining := by
    rw [remaining_skip hs]
    exact remaining_eq_cons h
  location := location_skip hs h

theorem reads_takeWhile {s : Stream} (p : Char → Bool) (hs : s.LineWise) :
    s.Reads (s.remaining.takeWhile p) (s.takeWhile p).2 where
  lineWise := lineWise_takeWhile p hs
  remaining := by rw [remaining_takeWhile p hs, List.takeWhile_append_dropWhile]
  location := location_takeWhile p hs

/-- Reading at the end of the input changes nothing that a reader sees. -/
theorem reads_skip_of_none {s : Stream} (hs : s.LineWise) (h : s.peek = none) :
    s.Reads [] s.skip := by
  have hp : s.fill.pending = [] := by
    rw [peek] at h
    simpa using h
  rw [skip_of_pending hp]
  exact reads_fill hs

end Stream

end Source

end Offside
