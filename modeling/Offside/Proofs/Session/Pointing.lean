import Offside.Proofs.Session.Showing
import Offside.Proofs.Token.Pointed

/-!
# Diagnostics point into the text

Everything that a session shows is accounted for by the tokens that it has read: each diagnostic was
shown while some token was the last one read, with the text that was known at that moment. A
diagnostic points to a token that had been read by then, and the line of this token was known in full
by then. So it is shown with the line of the text that it points into, and with a caret under this
line or just past its end.

## Main definitions

* `Offside.Report`: what has been shown while a token was the last one read.
* `Offside.Diagnostic.ShownIn`: a diagnostic that points into the text and is shown with its line.
* `Offside.Parser.Accounted`: all that has been shown is in the reports on the tokens read.

## Main results

* `Offside.Diagnostic.ArisesAt.shownIn`: diagnostics that arise after reading point into the text.
* `Offside.Session.exists_reports`: so does everything that a session or a listing shows.
-/

namespace Offside

open Source

/-! ### How a diagnostic is shown -/

/-- A diagnostic shown with the line that it points into and a caret under its column. -/
def Diagnostic.underlined (d : Diagnostic) (line : List Char) : String :=
  errorHeader d.message d.location ++ "\n" ++
    String.ofList (line ++ '\n' ::
      (List.replicate (d.location.column - 1) ' ' ++ ['^', '~', '~', '~', '\n']))

/-- The diagnostic `d`, shown while `x` is the last token read, points into the text. It is shown with
the whole line that it points into. An error at the end of a line points just past the last character
of the line that it ends. -/
structure Diagnostic.ShownIn (text : List Char) (x : Lexeme) (d : Diagnostic) : Prop where
  pointsInto : d.location.PointsInto text x.after.stream
  underlined : ∃ line, (text.splitOn '\n')[d.location.line - 1]? = some line ∧
    d.render x.after.stream = d.underlined line
  lineEnd (expected : Expectation) (h : d.cause = .syntactic expected .endOfLine) :
    x.token.kind = .endOfLine ∧
      ∃ line, (text.splitOn '\n')[x.after.stream.location.line - 2]? = some line ∧
        d.location = ⟨x.after.stream.location.line - 1, line.length + 1⟩

variable {input : Input} {before after : List Lexeme} {x y : Lexeme} {d : Diagnostic}

theorem Location.PointsInto.underlined {text : List Char} {s : Stream}
    (h : d.location.PointsInto text s) :
    ∃ line, (text.splitOn '\n')[d.location.line - 1]? = some line ∧
      d.render s = d.underlined line := by
  obtain ⟨line, htext, -⟩ := h.column_le
  refine ⟨line, htext, ?_⟩
  rw [Diagnostic.render, renderError, h.known, htext]
  rfl

/-- A diagnostic that arises after reading points into the text. -/
theorem Diagnostic.ArisesAt.shownIn (h : d.ArisesAt before x)
    (tokens : (Lexer.ofInput input).lexemes = before ++ x :: after) :
    d.ShownIn (normalise input.text) x := by
  have hof := Lexer.of_ofInput input
  have hpoints : d.location.PointsInto (normalise input.text) x.after.stream := by
    obtain ⟨y, hy, hplace⟩ := h.place
    rw [hplace]
    rcases List.mem_append.1 hy with hy | hy
    · obtain ⟨xs, ys, rfl⟩ := List.append_of_mem hy
      have hcut : (Lexer.ofInput input).lexemes = xs ++ y :: (ys ++ x :: after) := by
        rw [tokens, List.append_assoc, List.cons_append]
      exact Lexer.pointsInto_of_before hof hcut (by simp)
    · rw [List.mem_singleton.1 hy]
      exact Lexer.pointsInto_of_before hof tokens List.mem_cons_self
  refine ⟨hpoints, hpoints.underlined, fun expected hcause => ?_⟩
  obtain ⟨hkind, hplace⟩ := h.syntactic expected .endOfLine hcause
  obtain ⟨hstands, hafter⟩ := Lexer.stands_of_mem hof (y := x) (by simp [tokens])
  obtain ⟨line, htext, hanchor⟩ := hstands.anchor_of_lineEnd hafter.stream hkind.symm
  exact ⟨hkind.symm, line, htext, hplace.trans hanchor⟩

/-- So does the diagnostic of a refused token. -/
theorem Token.shownIn_of_diagnostic?
    (tokens : (Lexer.ofInput input).lexemes = before ++ x :: after)
    (h : x.token.diagnostic? = some d) : d.ShownIn (normalise input.text) x := by
  have hpoints := Lexer.pointsInto_of_before (Lexer.of_ofInput input) tokens List.mem_cons_self
  rw [Token.diagnostic?] at h
  split at h
  · next error hk =>
    obtain rfl := Option.some.inj h
    rw [Lexeme.anchor_of_ne (by rw [hk]; exact Kind.noConfusion)] at hpoints
    exact ⟨hpoints, Location.PointsInto.underlined hpoints,
      fun expected hcause => (by cases hcause)⟩
  · cases h

/-! ### Reports -/

/-- What has been shown while a token was the last one read. -/
structure Report where
  token : Lexeme
  diagnostics : List Diagnostic

namespace Report

/-- What a report makes a journal show: each diagnostic with the text known after the token. -/
def shown (r : Report) : List (Diagnostic × String) :=
  r.diagnostics.map fun d => (d, d.render r.token.after.stream)

/-- The report on a token that has just been read. -/
def ofLexeme (x : Lexeme) : Report := ⟨x, x.token.diagnostic?.toList⟩

theorem shown_ofLexeme (x : Lexeme) : (ofLexeme x).shown = x.shown?.toList := by
  rw [ofLexeme, Report.shown, Lexeme.shown?]
  cases x.token.diagnostic? <;> rfl

/-- A report with one more diagnostic. -/
def add (r : Report) (d : Diagnostic) : Report := { r with diagnostics := r.diagnostics ++ [d] }

theorem shown_add (r : Report) (d : Diagnostic) :
    (r.add d).shown = r.shown ++ [(d, d.render r.token.after.stream)] := by
  simp [Report.shown, add]

end Report

namespace Parser

/-- All that has been shown is in the reports on the tokens read so far, and points into the text. -/
structure Accounted (input : Input) (p : Parser) (reports : List Report) : Prop where
  tokens : (Lexer.ofInput input).lexemes = reports.map Report.token ++ p.rest
  shown : p.journal.shown = reports.flatMap Report.shown
  shownIn : ∀ r ∈ reports, ∀ d ∈ r.diagnostics, d.ShownIn (normalise input.text) r.token

/-- Reading and showing that leaves everything accounted for. -/
def KeepsAccount (input : Input) (p q : Parser) : Prop :=
  (∃ reports, p.Accounted input reports) → ∃ reports, q.Accounted input reports

variable {p q : Parser}

theorem keepsAccount_of_same (rest : q.rest = p.rest) (shown : q.journal.shown = p.journal.shown) :
    KeepsAccount input p q := by
  rintro ⟨reports, h⟩
  exact ⟨reports, rest ▸ h.tokens, shown.trans h.shown, h.shownIn⟩

theorem keepsAccount_advance (p : Parser) : KeepsAccount input p p.advance := by
  rw [advance]
  split
  · exact keepsAccount_of_same rfl rfl
  · next x rest hrest =>
    rintro ⟨reports, h⟩
    have htokens := h.tokens
    rw [hrest] at htokens
    refine ⟨reports ++ [.ofLexeme x], ?_, ?_, ?_⟩
    · rw [List.map_append, htokens]
      simp [Report.ofLexeme]
    · rw [List.flatMap_append, List.flatMap_singleton, Report.shown_ofLexeme, ← h.shown]
      exact Journal.shown_lexeme _ x
    · intro r hr d hd
      rcases List.mem_append.1 hr with hr | hr
      · exact h.shownIn r hr d hd
      · obtain rfl := List.mem_singleton.1 hr
        exact Token.shownIn_of_diagnostic? htokens (Option.mem_toList.1 hd)

theorem keepsAccount_emit {p : Parser} (tokens : (Lexer.ofInput input).lexemes = before ++ x :: p.rest)
    (stands : p.StandsOn x) (arises : d.ArisesAt before x) : KeepsAccount input p (p.emit d) := by
  rintro ⟨reports, h⟩
  -- The token in hand is that of the last report.
  have hcut : reports.map Report.token = before ++ [x] := by
    have htokens := h.tokens
    rw [tokens, List.append_cons, List.append_cancel_right_eq] at htokens
    exact htokens.symm
  obtain ⟨rs, last, rfl, hrs, hlast⟩ := List.map_eq_append_iff.1 hcut
  obtain ⟨r, rfl, hr⟩ := List.map_eq_singleton_iff.1 hlast
  refine ⟨rs ++ [r.add d], ?_, ?_, ?_⟩
  · rw [h.tokens, List.map_append, List.map_append]
    rfl
  · show (p.journal.emit d p.stream).shown = _
    rw [Journal.shown_emit, h.shown, List.flatMap_append, List.flatMap_append,
      List.flatMap_singleton, List.flatMap_singleton, Report.shown_add, hr, stream, stands.lexer,
      List.append_assoc]
  · intro r' hr' d' hd'
    rcases List.mem_append.1 hr' with hr' | hr'
    · exact h.shownIn r' (List.mem_append_left _ hr') d' hd'
    · obtain rfl := List.mem_singleton.1 hr'
      rcases List.mem_append.1 hd' with hd' | hd'
      · exact h.shownIn r (List.mem_append_right _ List.mem_cons_self) d' hd'
      · rw [List.mem_singleton.1 hd', show (r.add d).token = x from hr]
        exact arises.shownIn tokens

instance : TableFrame (KeepsAccount input) where
  refl _ := id
  trans _ _ _ h k hp := k (h hp)
  advance := keepsAccount_advance
  note _ _ := keepsAccount_of_same rfl (Journal.shown_note _ _)
  addExpr _ _ _ := keepsAccount_of_same rfl rfl
  addStmt _ _ _ := keepsAccount_of_same rfl rfl
  setTypes _ _ := keepsAccount_of_same rfl rfl

theorem showFrame_keepsAccount (input : Input) : ShowFrame (.ofInput input) (KeepsAccount input) where
  prompt _ _ := keepsAccount_of_same rfl (Journal.shown_prompt _ _)
  rollback _ _ := keepsAccount_of_same rfl rfl
  emit _ _ _ _ := keepsAccount_emit

end Parser

/-! ### Sessions and listings -/

namespace Session

/-- Every diagnostic points into the text. At any time, what a session has shown is what there is in
some reports on the tokens that it has read: each diagnostic of a report was shown with the text as
it was known after the token of the report, it points into that part of the text, and it is shown
with the whole line that it points into. The same is true of what a listing of the tokens shows. -/
theorem exists_reports (input : Input) (options : SessionOptions) (n : Nat) :
    let s := (ofInput input options).after n
    let xs := (Lexer.ofInput input).lexemes
    (∃ reports : List Report,
      xs = reports.map Report.token ++ s.parser.rest ∧
        s.journal.shown = reports.flatMap Report.shown ∧
        ∀ r ∈ reports, ∀ d ∈ r.diagnostics, d.ShownIn (normalise input.text) r.token) ∧
      (listingJournal xs).shown = (xs.map Report.ofLexeme).flatMap Report.shown ∧
      ∀ r ∈ xs.map Report.ofLexeme, ∀ d ∈ r.diagnostics,
        d.ShownIn (normalise input.text) r.token := by
  intro s xs
  refine ⟨?_, ?_, ?_⟩
  · have hreads : (Parser.ofLexer (.ofInput input)).ReadsOn (ofInput input options).parser :=
      .here rfl rfl rfl
    have hstart : (ofInput input options).parser.Accounted input [] :=
      ⟨rfl, rfl, fun _ hr => absurd hr List.not_mem_nil⟩
    obtain ⟨reports, h⟩ :=
      frame_after (Parser.showFrame_keepsAccount input) hreads n ⟨[], hstart⟩
    exact ⟨reports, h.tokens, h.shown, h.shownIn⟩
  · rw [Journal.shown_listingJournal]
    induction xs with
    | nil => rfl
    | cons x xs ih =>
      rw [List.map_cons, List.flatMap_cons, Report.shown_ofLexeme, ← ih, List.filterMap_cons]
      cases x.shown? <;> rfl
  · intro r hr d hd
    obtain ⟨x, hx, rfl⟩ := List.mem_map.1 hr
    obtain ⟨before, after, hcut⟩ := List.append_of_mem hx
    exact Token.shownIn_of_diagnostic? hcut (Option.mem_toList.1 hd)

end Session

end Offside
