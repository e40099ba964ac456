import Offside.Proofs.Session.Moved
import Offside.Proofs.Source.LineEnd
import Offside.Proofs.Token.Inserted

/-!
# Blank lines in a text

A complete line of spaces and tabs, perhaps with a comment, may be put between any two lines of a
text. The tokens stay what they are, those of the lines below stand further down, and a session does
what it did before: only the places that it tells are further down.

An inserted line may lose its end to the text around it: where a line feed meets a carriage return
the two end one line. Then the text gains fewer lines than were inserted, perhaps none.

## Main definitions

* `Offside.Source.WrittenBlank`: a complete line without content, as it may be written.

## Main results

* `Offside.Source.exists_blankLines`: what a text becomes by inserting such lines.
* `Offside.Session.insert_blank_lines`: they make no difference.
-/

namespace Offside

open Source Token

/-- If a carriage return takes away a line feed at the start of blank lines, one line less is left. -/
theorem Token.BlankLines.afterReturn {cs : List Char} (h : BlankLines (normalise cs)) :
    BlankLines (normalise (afterReturn cs)) := by
  by_cases hfirst : cs.head? = some '\n'
  · obtain ⟨cs, rfl⟩ := List.head?_eq_some_iff.1 hfirst
    rw [normalise_cons fun h => by cases h] at h
    exact h.of_newline
  · rwa [afterReturn_of_ne hfirst]

namespace Source

/-! ### Lines to insert -/

/-- A complete line without content, as it may be written: spaces and tabs in any order, perhaps a
comment, and the end of the line. -/
structure WrittenBlank where
  margin : List Char
  comment : Option (List Char)
  lineEnd : LineEnd
  isMargin : margin.all Margin.isMarginChar
  inLine : ∀ cs ∈ comment, '\n' ∉ cs ∧ '\r' ∉ cs

namespace WrittenBlank

/-- The characters of a line without its end. -/
def body (line : WrittenBlank) : List Char := line.margin ++ line.comment.elim [] ('#' :: ·)

/-- The characters of several lines. -/
def chars (lines : List WrittenBlank) : List Char :=
  lines.flatMap fun line => line.body ++ line.lineEnd.chars

variable (line : WrittenBlank)

theorem not_mem_body : '\n' ∉ line.body ∧ '\r' ∉ line.body := by
  have hmargin (c : Char) (hc : Margin.isMarginChar c = false) : c ∉ line.margin := fun hmem => by
    rw [List.all_eq_true.1 line.isMargin c hmem] at hc
    cases hc
  rw [body, List.mem_append, List.mem_append, not_or, not_or]
  refine ⟨⟨hmargin _ (by decide), ?_⟩, ⟨hmargin _ (by decide), ?_⟩⟩
  all_goals
    cases h : line.comment with
    | none => exact List.not_mem_nil
    | some cs => simp [line.inLine cs h]

theorem blankLine_body : BlankLine line.body where
  line := line.not_mem_body.1
  blank c hc := by
    rw [body, List.dropWhile_append_of_pos (List.all_eq_true.1 line.isMargin)] at hc
    cases h : line.comment with
    | none => simp [h] at hc
    | some cs => simpa [h, List.dropWhile_cons, Margin.isMarginChar, eq_comm] using hc

/-- A line is read up to its end. -/
theorem normalise_body_append (more : List Char) :
    normalise (line.body ++ more) = line.body ++ normalise more := by
  rw [normalise_append, normalise_of_not_mem line.not_mem_body.2, if_neg]
  exact fun hlast => line.not_mem_body.2 (List.mem_of_getLast? hlast)

/-- Lines without content are blank lines of the text. -/
theorem blankLines_normalise (lines : List WrittenBlank) : BlankLines (normalise (chars lines)) := by
  induction lines with
  | nil => exact .nil
  | cons line lines ih =>
    have hend : ∃ more, normalise (line.lineEnd.chars ++ chars lines) = '\n' :: more ∧
        BlankLines more := by
      cases line.lineEnd with
      | lineFeed => exact ⟨_, normalise_cons (fun h => by cases h), ih⟩
      | carriageReturn => exact ⟨_, normalise_return _, ih.afterReturn⟩
      | both => exact ⟨_, normalise_crlf _, ih⟩
    obtain ⟨more, hmore, hlater⟩ := hend
    rw [chars, List.flatMap_cons, List.append_assoc, normalise_body_append, ← chars, hmore]
    exact .cons line.blankLine_body hlater

end WrittenBlank

/-- Between two lines of a text, inserted lines take the place of blank lines that may have been
there. -/
theorem exists_blankLines {before after : List Char} (h : LineBoundary before after)
    (lines : List WrittenBlank) :
    ∃ blank blank' more k, BlankLines blank ∧ BlankLines blank' ∧ (blank' = [] → blank = []) ∧
      blank'.count '\n' = blank.count '\n' + k ∧
      normalise (before ++ after) = normalise before ++ (blank ++ more) ∧
      normalise (before ++ (WrittenBlank.chars lines ++ after)) =
        normalise before ++ (blank' ++ more) := by
  have hblank := WrittenBlank.blankLines_normalise lines
  generalize WrittenBlank.chars lines = inserted at *
  have hafter := h.normalise_append
  -- A carriage return before the lines may take away a line feed from them.
  obtain ⟨inserted', hblank', hnormalise⟩ : ∃ inserted', BlankLines (normalise inserted') ∧
      normalise (before ++ (inserted ++ after)) =
        normalise before ++ normalise (inserted' ++ after) := by
    rw [normalise_append]
    split
    · next hlast =>
      by_cases hnil : inserted = []
      · subst hnil
        refine ⟨[], hblank, ?_⟩
        rw [List.nil_append, afterReturn_of_ne (h.apart hlast)]
      · refine ⟨afterReturn inserted, hblank.afterReturn, ?_⟩
        rw [afterReturn_append hnil]
    · exact ⟨inserted, hblank, rfl⟩
  rw [hafter, hnormalise]
  by_cases hmeet : inserted'.getLast? = some '\r' ∧ after.head? = some '\n'
  · -- The last of the lines ends in a line feed of the text: it takes the place of a blank line.
    obtain ⟨hlast, hfirst⟩ := hmeet
    obtain ⟨after, rfl⟩ := List.head?_eq_some_iff.1 hfirst
    have hend : (normalise inserted').getLast? = some '\n' := by
      rw [getLast?_normalise, hlast]
      rfl
    have hcount := List.count_pos_iff.2 (List.mem_of_getLast? hend)
    obtain ⟨k, hk⟩ := Nat.exists_eq_add_of_le hcount
    refine ⟨['\n'], normalise inserted', normalise after, k, ?_, hblank', ?_, hk, ?_, ?_⟩
    · have hempty : BlankLine [] := ⟨List.not_mem_nil, fun c hc => by cases hc⟩
      exact .cons hempty .nil
    · intro hnil
      simp [hnil] at hend
    · rw [normalise_cons fun h => by cases h]
      rfl
    · rw [normalise_append, if_pos hlast, afterReturn]
  · refine ⟨[], normalise inserted', normalise after, (normalise inserted').count '\n', .nil, hblank',
      fun _ => rfl, ?_, rfl, ?_⟩
    · rw [List.count_nil, Nat.zero_add]
    · rw [normalise_append]
      split
      · next hlast => rw [afterReturn_of_ne fun hfirst => hmeet ⟨hlast, hfirst⟩]
      · rfl

end Source

/-! ### What they change -/

section

variable {before after : List Char} (h : LineBoundary before after) (lines : List WrittenBlank)
include h

/-- The tokens of a text with inserted lines. -/
theorem Lexer.exists_downFrom_ofInput :
    let input : Input := ⟨before ++ after, false⟩
    let input' : Input := ⟨before ++ (WrittenBlank.chars lines ++ after), false⟩
    ∃ k, (normalise input'.text).count '\n' = (normalise input.text).count '\n' + k ∧
      List.Forall₂ (Lexeme.DownFrom ((normalise before).count '\n' + 1) k)
        (ofInput input).lexemes (ofInput input').lexemes := by
  intro input input'
  obtain ⟨blank, blank', more, k, hblank, hblank', hnil, hk, htext, htext'⟩ :=
    exists_blankLines h lines
  refine ⟨k, ?_, ?_⟩
  · rw [htext, htext', List.count_append, List.count_append, List.count_append, List.count_append]
    omega
  · by_cases hsame : blank' = []
    · -- Nothing is gained: the two texts are delivered alike.
      obtain rfl : k = 0 := by
        rw [hsame, hnil hsame] at hk
        omega
      have hdown : List.Forall₂ (Lexeme.Down 0) (ofInput input).lexemes (ofInput input').lexemes := by
        refine (abreast_ofInput ?_).down_lexemes (of_ofInput input) (of_ofInput input')
        rw [htext, htext', hsame, hnil hsame]
      refine hdown.imp fun x x' hx => ?_
      rw [Lexeme.DownFrom, ite_self]
      exact hx
    · have habreast : (ofInput input).Abreast 0 (blank ++ more) (blank' ++ more) (normalise before)
          (ofInput input') := (fresh_ofInput input).abreast (fresh_ofInput input') htext htext' rfl
      exact habreast.forall₂_downFrom (of_ofInput input) (of_ofInput input') (fun _ => .inl rfl)
        (h.normalise_ended.symm.imp_left .inr) (.inr ⟨rfl, rfl⟩) hblank hblank' hsame hk
        (Nat.add_comm _ _)

/-- Blank lines make no difference. Complete lines of spaces and tabs in any mixture, each perhaps
with a comment, may be put between any two lines of a text, at its start or at its end. The text gains
`k` lines. Its tokens have the kinds that they had, with the same values, and the same widths of
indentation; they are listed in the same way. They stand where they stood, or `k` lines further down if
they are on the line after the place in question or below. In either mode, after any number of steps,
sessions on the two texts have done the same: the outcome of the next step is the same, the same items
have been accepted, with the same S-expressions, the same has been declared, and the same prompts have
been written and the same diagnostics reported, where only the places are further down. -/
theorem Session.insert_blank_lines :
    let input : Input := ⟨before ++ after, false⟩
    let input' : Input := ⟨before ++ (WrittenBlank.chars lines ++ after), false⟩
    let xs := (Lexer.ofInput input).lexemes
    let xs' := (Lexer.ofInput input').lexemes
    let line := (normalise before).count '\n' + 1
    ∃ k, (normalise input'.text).count '\n' = (normalise input.text).count '\n' + k ∧
      List.Forall₂ (Lexeme.DownFrom line k) xs xs' ∧ listing xs' = listing xs ∧
      ∀ (options : SessionOptions) (n : Nat),
        SameMoved (Location.downFrom line k) ((ofInput input options).after n)
          ((ofInput input' options).after n) := by
  intro input input' xs xs' line
  obtain ⟨k, hcount, htokens⟩ := Lexer.exists_downFrom_ofInput h lines
  have hstart : Location.downFrom line k ⟨0, 0⟩ = ⟨0, 0⟩ := by
    rw [Location.downFrom, if_pos (Nat.succ_pos _)]
    rfl
  refine ⟨k, hcount, htokens, listing_of_down (htokens.imp fun x x' hx => ⟨_, hx⟩), ?_⟩
  exact sameMoved_after (htokens.imp fun x x' hx => hx.beside) hstart

end

/-- A jump that leaves no loop is refused, also behind a comment with a mixed margin, which would be an
error on another line. -/
theorem Session.insert_blank_lines_jump :
    let before := "x = 1\n".toList
    let after := "break\n".toList
    let note : WrittenBlank := ⟨" \t ".toList, some " stop".toList, .both, rfl, by simp⟩
    let text := before ++ (WrittenBlank.chars [note] ++ after)
    LineBoundary before after ∧ text = "x = 1\n \t # stop\r\nbreak\n".toList ∧
      ((ofInput ⟨before ++ after, false⟩ ⟨.interactive, defaultPrompt⟩).after 1).step.1 = .failed ∧
      ((ofInput ⟨text, false⟩ ⟨.interactive, defaultPrompt⟩).after 1).step.1 = .failed := by
  intro before after note text
  have h : LineBoundary before after := ⟨by decide, by decide⟩
  have hfailed : ((ofInput ⟨before ++ after, false⟩ ⟨.interactive, defaultPrompt⟩).after 1).step.1 =
      .failed := by
    decide +kernel
  obtain ⟨_, -, -, -, hsessions⟩ := insert_blank_lines h [note]
  exact ⟨h, by decide, hfailed, (hsessions ⟨.interactive, defaultPrompt⟩ 1).outcome.trans hfailed⟩

end Offside
