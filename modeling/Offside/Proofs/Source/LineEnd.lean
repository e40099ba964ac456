import Offside.Proofs.Source.Remaining

/-!
# How lines end

A line may end in a line feed, in a carriage return, or in both. Texts are delivered with one line
feed for each of them. Where two texts are put together, a carriage return at the end of the first
one and a line feed at the start of the second one become the end of one line.

## Main definitions

* `Offside.LineEnd`: a way to end a line.
* `Offside.LineEnd.write`: a text with its line feeds written in another way.
* `Offside.Source.LineBoundary`: a place between two lines of a text.

## Main results

* `Offside.LineEnd.normalise_write`: how line ends are written makes no difference to a text.
* `Offside.Source.normalise_append`: two texts that are put together.
-/

namespace Offside

open Source

namespace Source

/-- What a carriage return leaves of the text after it: a line feed belongs to it. -/
def afterReturn : List Char → List Char
  | '\n' :: cs => cs
  | cs => cs

theorem afterReturn_of_ne {cs : List Char} (h : cs.head? ≠ some '\n') : afterReturn cs = cs := by
  fun_cases afterReturn cs with
  | case1 cs => exact absurd rfl h
  | case2 cs => rfl

theorem afterReturn_append {xs : List Char} (h : xs ≠ []) (ys : List Char) :
    afterReturn (xs ++ ys) = afterReturn xs ++ ys := by
  obtain ⟨c, cs, rfl⟩ := List.exists_cons_of_ne_nil h
  by_cases hc : c = '\n'
  · rw [hc]
    rfl
  · rw [afterReturn_of_ne (by simpa using hc), afterReturn_of_ne (by simpa using hc)]

theorem normalise_return (cs : List Char) :
    normalise ('\r' :: cs) = '\n' :: normalise (afterReturn cs) := by
  by_cases h : cs.head? = some '\n'
  · obtain ⟨cs, rfl⟩ := List.head?_eq_some_iff.1 h
    rw [normalise_crlf, afterReturn]
  · rw [normalise_cons fun _ => h, afterReturn_of_ne h]
    rfl

/-- Texts that are put together, where a carriage return and a line feed may meet. -/
theorem normalise_append (xs ys : List Char) :
    normalise (xs ++ ys) =
      normalise xs ++ normalise (if xs.getLast? = some '\r' then afterReturn ys else ys) := by
  fun_induction normalise xs with
  | case1 => rfl
  | case2 cs ih =>
    rw [List.cons_append, List.cons_append, normalise_crlf, ih, List.cons_append]
    cases cs with
    | nil => rfl
    | cons c cs => rw [List.getLast?_cons_cons, List.getLast?_cons_cons]
  | case3 c cs h ih =>
    cases cs with
    | nil =>
      rw [List.singleton_append, List.getLast?_singleton]
      by_cases hc : c = '\r'
      · rw [hc, normalise_return, if_pos rfl]
        rfl
      · rw [normalise_cons fun h => absurd h hc, if_neg (by simpa using hc)]
        rfl
    | cons d cs =>
      have hd : c = '\r' → ((d :: cs) ++ ys).head? ≠ some '\n' := by
        rintro rfl hd
        exact h cs rfl (by rw [Option.some.inj hd])
      rw [List.cons_append, normalise_cons hd, ih, List.getLast?_cons_cons, List.cons_append]

theorem getLast?_normalise (cs : List Char) :
    (normalise cs).getLast? = cs.getLast?.map normaliseChar := by
  fun_induction normalise cs with
  | case1 => rfl
  | case2 cs ih => cases cs <;> simp [List.getLast?_cons, ih, normaliseChar]
  | case3 c cs h ih => cases cs <;> simp [List.getLast?_cons, ih]

/-- A place between two lines of a text: its start, or the place after the end of a line. -/
structure LineBoundary (before after : List Char) : Prop where
  ended : before = [] ∨ before.getLast? = some '\n' ∨ before.getLast? = some '\r'
  apart : before.getLast? = some '\r' → after.head? ≠ some '\n'

namespace LineBoundary

variable {before after : List Char}

theorem normalise_append (h : LineBoundary before after) :
    normalise (before ++ after) = normalise before ++ normalise after := by
  rw [Source.normalise_append]
  split
  · next hlast => rw [afterReturn_of_ne (h.apart hlast)]
  · rfl

/-- The lines before a boundary are complete. -/
theorem normalise_ended (h : LineBoundary before after) :
    normalise before = [] ∨ (normalise before).getLast? = some '\n' := by
  rw [getLast?_normalise]
  rcases h.ended with rfl | hlast | hlast
  · exact .inl rfl
  all_goals
    right
    rw [hlast]
    rfl

end LineBoundary

end Source

/-- A way to end a line. -/
inductive LineEnd
  | lineFeed
  | carriageReturn
  | both
  deriving DecidableEq, Repr

namespace LineEnd

/-- The characters that end a line. -/
def chars : LineEnd → List Char
  | lineFeed => ['\n']
  | carriageReturn => ['\r']
  | both => ['\r', '\n']

/-- A text with its line feeds written in another way. -/
def write (style : LineEnd) (text : List Char) : List Char :=
  text.flatMap fun c => if c = '\n' then style.chars else [c]

/-- A text is delivered as it was before its line ends were written in another way. -/
theorem normalise_write (style : LineEnd) {text : List Char} (plain : '\r' ∉ text) :
    normalise (style.write text) = text := by
  induction text with
  | nil => rfl
  | cons c text ih =>
    obtain ⟨hc, hplain⟩ := List.ne_and_not_mem_of_not_mem_cons plain
    have hrest := ih hplain
    rw [write, List.flatMap_cons, ← write]
    by_cases hn : c = '\n'
    · subst hn
      rw [if_pos rfl]
      cases style with
      | lineFeed => rw [chars, List.singleton_append, normalise_cons (by simp), hrest]; rfl
      | both =>
        rw [chars, List.cons_append, List.cons_append, List.nil_append, normalise_crlf, hrest]
      | carriageReturn =>
        -- A line feed would be taken together with the carriage return, but none is written.
        have hhead : (carriageReturn.write text).head? ≠ some '\n' := by
          cases text with
          | nil => simp [write]
          | cons d text =>
            rw [write, List.flatMap_cons]
            split
            · simp [chars]
            · simpa using ‹_›
        rw [chars, List.singleton_append, normalise_cons fun _ => hhead, hrest]
        rfl
    · rw [if_neg hn, List.singleton_append, normalise_cons fun h => absurd h.symm hc, hrest,
        normaliseChar, if_neg (Ne.symm hc)]

end LineEnd

end Offside
