import Offside.Proofs.Session.Moved
import Offside.Proofs.Session.Pointing
import Offside.Proofs.Source.LineEnd
import Offside.Proofs.Token.Down

/-!
# Three ways to end a line

A line may end in a line feed, in a carriage return, or in both. A stream requests its text up to the
next line feed, so that the three are buffered in different ways: a text whose lines end in carriage
returns is requested at once. What is delivered is the same, and so is everything that is made of it:
the tokens with their places, their listing, and all that can be seen of a session at any moment, with
every diagnostic shown under the same line of the text.

## Main definitions

* `Offside.Session.SameSeen`: sessions that cannot be told apart.

## Main results

* `Offside.Session.sameSeen_after`: sessions on texts that are delivered alike.
* `Offside.LineEnd.same_write`: it makes no difference how the lines of a text end.
-/

namespace Offside

open Source

/-! ### Texts that are delivered alike -/

/-- How a diagnostic is shown that points into a known line of a text. -/
def Diagnostic.shownIn (text : List Char) (d : Diagnostic) : String :=
  d.underlined (((text.splitOn '\n')[d.location.line - 1]?).getD [])

theorem Diagnostic.ShownIn.render {text : List Char} {x : Lexeme} {d : Diagnostic}
    (h : d.ShownIn text x) : d.render x.after.stream = d.shownIn text := by
  obtain ⟨line, hline, hshown⟩ := h.underlined
  rw [hshown, Diagnostic.shownIn, hline, Option.getD_some]

section

variable {input input' : Input}

/-- What a listing of the tokens shows is determined by the diagnostics and the text. -/
theorem Lexer.shown_listingJournal (input : Input) :
    ∀ entry ∈ (listingJournal (ofInput input).lexemes).shown,
      entry.2 = entry.1.shownIn (normalise input.text) := by
  intro entry hentry
  rw [Journal.shown_listingJournal] at hentry
  obtain ⟨x, hx, hshown⟩ := List.mem_filterMap.1 hentry
  obtain ⟨before, after, hcut⟩ := List.append_of_mem hx
  obtain ⟨d, hd, rfl⟩ := Option.map_eq_some_iff.1 hshown
  exact (Token.shownIn_of_diagnostic? hcut hd).render

/-- The tokens are the same, at the same places. -/
theorem Lexer.forall₂_down_ofInput (same : normalise input'.text = normalise input.text) :
    List.Forall₂ (Lexeme.Down 0) (ofInput input).lexemes (ofInput input').lexemes :=
  (abreast_ofInput same).down_lexemes (of_ofInput input) (of_ofInput input')

/-- The tokens are the same, and so is what a listing of them shows. -/
theorem Lexer.same_listing (same : normalise input'.text = normalise input.text) :
    let xs := (ofInput input).lexemes
    let xs' := (ofInput input').lexemes
    xs'.map Lexeme.token = xs.map Lexeme.token ∧ listing xs' = listing xs ∧
      (listingJournal xs').output = (listingJournal xs).output := by
  intro xs xs'
  have hdown : List.Forall₂ (Lexeme.Down 0) xs xs' := forall₂_down_ofInput same
  have htokens : xs'.map Lexeme.token = xs.map Lexeme.token := by
    clear_value xs xs'
    induction hdown with
    | nil => rfl
    | cons hx hxs ih => rw [List.map_cons, List.map_cons, ih, hx.token]; rfl
  refine ⟨htokens, listing_of_down (hdown.imp fun _ _ hx => ⟨0, hx⟩), ?_⟩
  rw [Journal.output_eq_told (shown_listingJournal input),
    Journal.output_eq_told (shown_listingJournal input'), Journal.told_listingJournal,
    Journal.told_listingJournal, same]
  have htold (ys : List Lexeme) :
      (ys.flatMap fun x => x.token.diagnostic?.toList.map Told.diagnostic) =
        (ys.map Lexeme.token).flatMap fun token => token.diagnostic?.toList.map .diagnostic := by
    rw [List.flatMap_map]
  rw [htold, htold, htokens]

namespace Session

/-- What a session shows is determined by the diagnostics and the text. -/
theorem shown_after (input : Input) (options : SessionOptions) (n : Nat) :
    ∀ entry ∈ ((ofInput input options).after n).journal.shown,
      entry.2 = entry.1.shownIn (normalise input.text) := by
  have hreads : (Parser.ofLexer (.ofInput input)).ReadsOn (ofInput input options).parser :=
    .here rfl rfl rfl
  have hstart : (ofInput input options).parser.Accounted input [] :=
    ⟨rfl, rfl, fun _ hr => absurd hr List.not_mem_nil⟩
  obtain ⟨reports, h⟩ := frame_after (Parser.showFrame_keepsAccount input) hreads n ⟨[], hstart⟩
  intro entry hentry
  rw [journal, h.shown] at hentry
  obtain ⟨r, hr, hentry⟩ := List.mem_flatMap.1 hentry
  obtain ⟨d, hd, rfl⟩ := List.mem_map.1 hentry
  exact (h.shownIn r hr d hd).render

/-- Two sessions that cannot be told apart: what is accepted, declared, shown and written is the same,
and so is the outcome of the next step. -/
structure SameSeen (s s' : Session) : Prop where
  outcome : s'.step.1 = s.step.1
  items : s'.items = s.items
  sexprs : s'.items.map (Item.sexpr s'.types) = s.items.map (Item.sexpr s.types)
  types : s'.types = s.types
  symbols : s'.symbols = s.symbols
  shown : s'.journal.shown = s.journal.shown
  output : s'.journal.output = s.journal.output

/-- Sessions on texts that are delivered alike cannot be told apart. -/
theorem sameSeen_after (same : normalise input'.text = normalise input.text)
    (options : SessionOptions) (n : Nat) :
    SameSeen ((ofInput input options).after n) ((ofInput input' options).after n) := by
  have htokens := (Lexer.forall₂_down_ofInput same).imp fun _ _ => Lexeme.Down.beside
  have hmoved := sameMoved_after htokens rfl options n
  rw [show Location.down 0 = id from rfl] at hmoved
  have hshown := shown_after input options n
  have hshown' := shown_after input' options n
  rw [same] at hshown'
  have htypes := hmoved.types.trans (TypeEnv.relocate_id _)
  have hitems : ((ofInput input' options).after n).items = ((ofInput input options).after n).items := by
    rw [hmoved.items, Array.map_congr_left fun item _ => item.relocate_id, Array.map_id']
  have htold : ((ofInput input' options).after n).journal.told =
      ((ofInput input options).after n).journal.told := by
    rw [hmoved.told, List.map_congr_left fun told _ => told.relocate_id, List.map_id']
  refine ⟨hmoved.outcome, hitems, ?_, htypes, hmoved.symbols, ?_, ?_⟩
  · rw [hitems, htypes]
  · rw [Journal.shown_eq_map hshown, Journal.shown_eq_map hshown', Journal.diagnostics_eq_told,
      Journal.diagnostics_eq_told, htold]
  · rw [Journal.output_eq_told hshown, Journal.output_eq_told hshown', htold]

end Session

end

/-! ### Line ends -/

/-- It makes no difference how the lines of a text end. A text without carriage returns has the same
tokens, at the same places, as the text with each of its line feeds written in another way; they are
listed in the same way. In either mode, sessions on the two texts cannot be told apart after any
number of steps: each next step has the same outcome, and the same items have been accepted, with the
same S-expressions, the same has been declared, and the same prompts and diagnostics have been
written. -/
theorem LineEnd.same_write (style : LineEnd) (text : List Char) (plain : '\r' ∉ text) :
    let input : Input := ⟨text, false⟩
    let input' : Input := ⟨style.write text, false⟩
    let xs := (Lexer.ofInput input).lexemes
    let xs' := (Lexer.ofInput input').lexemes
    xs'.map Lexeme.token = xs.map Lexeme.token ∧ listing xs' = listing xs ∧
      (listingJournal xs').output = (listingJournal xs).output ∧
      ∀ (options : SessionOptions) (n : Nat),
        ((Session.ofInput input options).after n).SameSeen
          ((Session.ofInput input' options).after n) := by
  intro input input' xs xs'
  have hsame : normalise input'.text = normalise input.text := by
    rw [style.normalise_write plain, normalise_of_not_mem plain]
  obtain ⟨htokens, hlisting, houtput⟩ := Lexer.same_listing hsame
  exact ⟨htokens, hlisting, houtput, Session.sameSeen_after hsame⟩

/-- A jump that leaves no loop is refused on the second line of a text, also where carriage returns
end the lines. -/
theorem LineEnd.same_write_jump :
    let text := "x = 1\nbreak\n".toList
    '\r' ∉ text ∧ carriageReturn.write text = "x = 1\rbreak\r".toList ∧
      ((Session.ofInput ⟨text, false⟩ ⟨.file, defaultPrompt⟩).after 1).step.1 = .failed ∧
      ((Session.ofInput ⟨carriageReturn.write text, false⟩ ⟨.file, defaultPrompt⟩).after 1).step.1 =
        .failed := by
  intro text
  have plain : '\r' ∉ text := by decide
  have hfailed : ((Session.ofInput ⟨text, false⟩ ⟨.file, defaultPrompt⟩).after 1).step.1 = .failed := by
    decide +kernel
  obtain ⟨-, -, -, hsessions⟩ := carriageReturn.same_write text plain
  exact ⟨plain, by decide, hfailed, (hsessions ⟨.file, defaultPrompt⟩ 1).outcome.trans hfailed⟩

end Offside
