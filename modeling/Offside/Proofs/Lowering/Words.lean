import Mathlib.Data.List.TakeWhile
import Offside.Lowering.SExpr

/-!
# Reading S-expressions

In the printed form of an S-expression, words end at a space or at a closing parenthesis, and only
lists begin with an opening one. So S-expressions of plain words are told apart by their printed
forms, even before other text.

## Main definitions

* `Offside.SExpr.IsPlain`: words without blanks and parentheses.
* `Offside.SExpr.Plain`: S-expressions of such words.

## Main results

* `Offside.SExpr.text_injective`: they have different printed forms.
-/

namespace Offside.SExpr

/-- Characters that end a word or begin a list. -/
def isDelimiter (c : Char) : Bool := c = ' ' || c = '(' || c = ')'

/-- A word in which no other word begins. -/
def IsPlain (word : String) : Prop :=
  word.toList ≠ [] ∧ ∀ c ∈ word.toList, isDelimiter c = false

instance (word : String) : Decidable (IsPlain word) :=
  decidable_of_bool (!word.toList.isEmpty && word.toList.all fun c => !isDelimiter c)
    (by simp [IsPlain])

mutual

/-- An S-expression of plain words. -/
def Plain : SExpr → Prop
  | word text => IsPlain text
  | list items => PlainAll items

/-- S-expressions of plain words. -/
def PlainAll : List SExpr → Prop
  | [] => True
  | item :: items => item.Plain ∧ PlainAll items

end

theorem plainAll_iff {items : List SExpr} : PlainAll items ↔ ∀ item ∈ items, item.Plain := by
  induction items with
  | nil => simp [PlainAll]
  | cons item items ih => simp [PlainAll, ih]

/-- What follows an item of a list, or nothing. -/
def Delimited (rest : List Char) : Prop := ∀ c ∈ rest.head?, isDelimiter c

theorem delimited_nil : Delimited [] := by
  rintro c ⟨⟩

theorem delimited_tailText (items : List SExpr) (rest : List Char) :
    Delimited ((tailText items).toList ++ rest) := by
  intro c hc
  cases items with
  | nil =>
    obtain rfl : ')' = c := by simpa [tailText] using hc
    rfl
  | cons item items =>
    obtain rfl : ' ' = c := by simpa [tailText] using hc
    rfl

/-- A word is cut off where it ends. -/
theorem takeWhile_word {cs rest : List Char} (hcs : ∀ c ∈ cs, isDelimiter c = false)
    (hrest : Delimited rest) : (cs ++ rest).takeWhile (fun c => !isDelimiter c) = cs := by
  rw [List.takeWhile_append_of_pos fun c hc => by rw [hcs c hc]; rfl]
  cases rest with
  | nil => simp
  | cons c rest => simp [hrest c rfl]

theorem toList_text_nil : (list []).text.toList = ['(', ')'] := by
  simp [text]

theorem toList_text_cons (item : SExpr) (items : List SExpr) :
    (list (item :: items)).text.toList = '(' :: (item.text.toList ++ (tailText items).toList) := by
  simp [text]

theorem toList_tailText_nil : (tailText []).toList = [')'] := by
  simp [tailText]

theorem toList_tailText_cons (item : SExpr) (items : List SExpr) :
    (tailText (item :: items)).toList = ' ' :: (item.text.toList ++ (tailText items).toList) := by
  simp [tailText]

/-- Nothing begins with a closing parenthesis, and only lists begin with an opening one. -/
theorem exists_text_eq_cons {s : SExpr} (hs : s.Plain) : ∃ c cs, s.text.toList = c :: cs ∧
    c ≠ ')' ∧ (c = '(' ↔ ∃ items, s = list items) := by
  cases s with
  | word text =>
    obtain ⟨hne, hall⟩ := hs
    obtain ⟨c, cs, hcs⟩ := List.exists_cons_of_ne_nil hne
    have hc : isDelimiter c = false := hall c (by rw [hcs]; exact List.mem_cons_self)
    refine ⟨c, cs, hcs, ?_, iff_of_false ?_ ?_⟩
    · rintro rfl
      cases hc
    · rintro rfl
      cases hc
    · rintro ⟨items, ⟨⟩⟩
  | list items =>
    cases items with
    | nil => exact ⟨'(', _, toList_text_nil, by decide, iff_of_true rfl ⟨_, rfl⟩⟩
    | cons item items =>
      exact ⟨'(', _, toList_text_cons item items, by decide, iff_of_true rfl ⟨_, rfl⟩⟩

/-- A word is not mistaken for a list. -/
theorem text_word_ne_list {word : String} {items : List SExpr} (hword : IsPlain word)
    (hitems : PlainAll items) (rest rest' : List Char) :
    (SExpr.word word).text.toList ++ rest ≠ (list items).text.toList ++ rest' := by
  intro h
  obtain ⟨c, cs, hcs, -, hc⟩ := exists_text_eq_cons (s := SExpr.word word) hword
  obtain ⟨d, ds, hds, -, hd⟩ := exists_text_eq_cons (s := list items) hitems
  rw [hcs, hds] at h
  obtain rfl := (List.cons.inj h).1
  obtain ⟨_, ⟨⟩⟩ := hc.1 (hd.2 ⟨items, rfl⟩)

/-- An empty list is not mistaken for one with an item. -/
theorem text_nil_ne_cons {item : SExpr} {items : List SExpr} (hitem : item.Plain)
    (rest rest' : List Char) :
    (list []).text.toList ++ rest ≠ (list (item :: items)).text.toList ++ rest' := by
  intro h
  obtain ⟨c, cs, hcs, hne, -⟩ := exists_text_eq_cons hitem
  rw [toList_text_nil, toList_text_cons, hcs] at h
  exact hne (List.cons.inj (List.cons.inj h).2).1.symm

mutual

/-- The printed form of a plain S-expression is read up to its end. -/
theorem text_append : (s t : SExpr) → s.Plain → t.Plain → {rest rest' : List Char} →
    Delimited rest → Delimited rest' → s.text.toList ++ rest = t.text.toList ++ rest' →
    s = t ∧ rest = rest'
  | word a, word b, ha, hb, rest, rest', hrest, hrest', h => by
    have htake := congrArg (List.takeWhile fun c => !isDelimiter c) h
    rw [text, text, takeWhile_word ha.2 hrest, takeWhile_word hb.2 hrest',
      String.toList_inj] at htake
    subst htake
    exact ⟨rfl, List.append_cancel_left h⟩
  | word _, list _, ha, hb, rest, rest', _, _, h => absurd h (text_word_ne_list ha hb rest rest')
  | list _, word _, ha, hb, rest, rest', _, _, h =>
    absurd h.symm (text_word_ne_list hb ha rest' rest)
  | list [], list [], _, _, rest, rest', _, _, h => ⟨rfl, List.append_cancel_left h⟩
  | list [], list (_ :: _), _, hb, rest, rest', _, _, h =>
    absurd h (text_nil_ne_cons hb.1 rest rest')
  | list (_ :: _), list [], ha, _, rest, rest', _, _, h =>
    absurd h.symm (text_nil_ne_cons ha.1 rest' rest)
  | list (item :: items), list (item' :: items'), ha, hb, rest, rest', _, _, h => by
    rw [toList_text_cons, toList_text_cons, List.cons_append, List.cons_append, List.append_assoc,
      List.append_assoc] at h
    obtain ⟨rfl, htail⟩ := text_append item item' ha.1 hb.1 (delimited_tailText items rest)
      (delimited_tailText items' rest') (List.cons.inj h).2
    obtain ⟨rfl, hrest⟩ := tailText_append items items' ha.2 hb.2 htail
    exact ⟨rfl, hrest⟩

/-- So are the items of a list. -/
theorem tailText_append : (ss ts : List SExpr) → PlainAll ss → PlainAll ts →
    {rest rest' : List Char} → (tailText ss).toList ++ rest = (tailText ts).toList ++ rest' →
    ss = ts ∧ rest = rest'
  | [], [], _, _, rest, rest', h => ⟨rfl, List.append_cancel_left h⟩
  | [], t :: ts, _, _, rest, rest', h => by
    rw [toList_tailText_nil, toList_tailText_cons] at h
    exact absurd (List.cons.inj h).1 (by decide)
  | s :: ss, [], _, _, rest, rest', h => by
    rw [toList_tailText_nil, toList_tailText_cons] at h
    exact absurd (List.cons.inj h).1 (by decide)
  | s :: ss, t :: ts, hs, ht, rest, rest', h => by
    rw [toList_tailText_cons, toList_tailText_cons, List.cons_append, List.cons_append,
      List.append_assoc, List.append_assoc] at h
    obtain ⟨rfl, htail⟩ := text_append s t hs.1 ht.1 (delimited_tailText ss rest)
      (delimited_tailText ts rest') (List.cons.inj h).2
    obtain ⟨rfl, hrest⟩ := tailText_append ss ts hs.2 ht.2 htail
    exact ⟨rfl, hrest⟩

end

/-- S-expressions of plain words have different printed forms. -/
theorem text_injective {s t : SExpr} (hs : s.Plain) (ht : t.Plain) (h : s.text = t.text) :
    s = t := by
  refine (text_append s t hs ht delimited_nil delimited_nil ?_).1
  rw [h]

end Offside.SExpr
