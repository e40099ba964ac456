import Offside.Proofs.Parser.Anchored
import Offside.Proofs.Parser.Replay
import Offside.Proofs.Session.Ends
import Offside.Proofs.Typing.Placed

/-!
# What a session shows

A session shows diagnostics in two ways. That of a refused token is shown when the token is read. Any
other one arises while an item is read or checked, and is shown while the parser still stands on the
last token of that item: it points to a token read so far, and where a token is not the one that was
expected, it points to this token.

So a relation between parsers that allows reading and showing such diagnostics is kept by every step.
The first use is that no diagnostic of a refused token is lost, or shown twice.

## Main definitions

* `Offside.Diagnostic.ArisesAt`: how a diagnostic that is shown after reading arises.
* `Offside.Parser.ShowFrame`: relations that allow what a session does to its parser.
* `Offside.Parser.ShowsRefused`: of the refused tokens, exactly those that are read are shown.

## Main results

* `Offside.Session.frame_step`, `Offside.Session.frame_after`: what steps keep.
* `Offside.Session.lexical_run`: a run shows every refused token once.
-/

namespace Offside

/-! ### Diagnostics after reading -/

/-- How a diagnostic arises when the last token read is `x`, and those read before it are `before`. -/
structure Diagnostic.ArisesAt (before : List Lexeme) (x : Lexeme) (d : Diagnostic) : Prop where
  place : ∃ y ∈ before ++ [x], d.location = y.anchor
  notLexical : d.stage ≠ .lexical
  syntactic (expected : Expectation) (found : Kind) (h : d.cause = .syntactic expected found) :
    found = x.token.kind ∧ d.location = x.anchor

namespace Parser

/-- Relations between parsers of the tokens of `l` that allow what a session does: reading tokens, and
showing diagnostics that arise at the token in hand. -/
structure ShowFrame (l : Lexer) (R : Parser → Parser → Prop) : Prop extends TableFrame R where
  prompt (p : Parser) (text : String) : R p { p with journal := p.journal.prompt text }
  rollback (p : Parser) (mark : Arena.Mark) : R p (p.rollback mark)
  emit (p : Parser) (d : Diagnostic) (before : List Lexeme) (x : Lexeme)
    (tokens : l.lexemes = before ++ x :: p.rest) (stands : p.StandsOn x)
    (arises : d.ArisesAt before x) : R p (p.emit d)

variable {l : Lexer} {R : Parser → Parser → Prop} {p q : Parser} {before : List Lexeme} {x : Lexeme}

/-- Where a parser stands that has read on. -/
theorem ReadsOn.exists_standsOn (h : p.ReadsOn q) (hp : p.StandsOn x) :
    ∃ xs pre y, p.rest = xs ++ q.rest ∧ x :: xs = pre ++ [y] ∧ q.StandsOn y := by
  cases h with
  | here current lexer rest =>
    exact ⟨[], [], x, rest.symm, rfl, current.trans hp.current, lexer.trans hp.lexer⟩
  | on mid y current lexer rest =>
    exact ⟨mid ++ [y], x :: mid, y, by simp [rest], rfl, current, lexer⟩

theorem frame_notes [Frame R] (p : Parser) (ns : List Note) :
    R p { p with journal := p.journal.notes ns } := by
  induction ns generalizing p with
  | nil => exact refl_of R p
  | cons n ns ih => exact trans_of R (Frame.note p n) (ih (p.note n))

/-- What is done about an item that is read, or that cannot be read. -/
theorem ShowFrame.parseItem (hR : ShowFrame l R) (tokens : l.lexemes = before ++ x :: p.rest)
    (stands : p.StandsOn x) (bounded : p.Bounded) : R p p.parseItem.2 := by
  have := hR.toTableFrame
  have hkeeps := Parse.ensures_item (R := R) p.fuel p
  have hreads := Parse.ensures_item (R := ReadsOn) p.fuel p
  rw [Parser.parseItem]
  split
  · next hrun => exact (hkeeps.ok hrun).1
  · next failure q hrun =>
    have hreport : R q (q.report failure) := by
      cases failure with
      | diagnostic d =>
        obtain ⟨xs, pre, y, hrest, hxs, hy⟩ := (hreads.error hrun).exists_standsOn stands
        have hplace := (yields_anchored stands bounded).error hrun xs hrest d rfl
        have harises := (upheld_true.yields_item trivial bounded).error hrun
        refine hR.emit q d (before ++ pre) y ?_ hy ⟨?_, ?_, ?_⟩
        · rw [tokens, hrest, ← List.cons_append, hxs]
          simp
        · obtain ⟨z, hz, hd⟩ := List.mem_map.1 hplace
          rw [hxs] at hz
          exact ⟨z, by simp_all, hd.symm⟩
        · obtain ⟨cause, place⟩ := d
          cases cause with
          | lexical => exact harises.2.1.elim
          | syntactic | semantic => exact Stage.noConfusion
        · rintro expected found hcause
          obtain ⟨cause, place⟩ := d
          obtain rfl : cause = .syntactic expected found := hcause
          obtain ⟨hfound, hanchor⟩ := harises.2.1
          exact ⟨by rw [hfound, hy.current], hanchor.trans hy.anchor⟩
      | shown | tooDeep => exact refl_of R q
    have hrecover : R (q.report failure)
        (((q.report failure).rollback p.arena.mark).recover endsLine) :=
      trans_of R (hR.rollback _ _)
        (trans_of R (Frame.skipUntil endsLine _) (Frame.note _ _))
    exact trans_of R (hkeeps.error hrun) (trans_of R hreport hrecover)

/-- An item that has been read is the result of reading it. -/
theorem run_of_read {item : Item} (h : p.parseItem = (some item, q)) :
    (Parse.item p.fuel).run p = .ok item q := by
  rw [Parser.parseItem] at h
  split at h
  · next hrun =>
    cases h
    exact hrun
  · cases h

/-- An error of checking an item that has been read. -/
theorem ShowFrame.emit_of_check (hR : ShowFrame l R) (tokens : l.lexemes = before ++ x :: p.rest)
    (stands : p.StandsOn x) (bounded : p.Bounded) {item : Item}
    (read : p.parseItem = (some item, q)) {s c : CheckState} {d : Diagnostic}
    (checked : (checkItem item).run s = .error d c) {r : Parser} (current : r.current = q.current)
    (lexer : r.lexer = q.lexer) (rest : r.rest = q.rest) : R r (r.emit d) := by
  have hreads : p.ReadsOn r := by
    have hq : p.ReadsOn q := by
      have := TokenFrame.parseItem (R := ReadsOn) p
      rwa [read] at this
    exact trans_of ReadsOn hq (.here current lexer rest)
  obtain ⟨xs, pre, y, hrest, hxs, hy⟩ := hreads.exists_standsOn stands
  have hfixed := (yields_anchored stands bounded).ok (run_of_read read) xs (rest ▸ hrest)
  obtain ⟨hplace, hstage⟩ := Yields.error (blames_checkItem hfixed s) checked
  refine hR.emit r d (before ++ pre) y ?_ hy ⟨?_, ?_, fun expected found hcause => ?_⟩
  · rw [tokens, hrest, ← List.cons_append, hxs]
    simp
  · obtain ⟨z, hz, hd⟩ := List.mem_map.1 (Location.outside_eq_self.1 hplace)
    rw [hxs] at hz
    exact ⟨z, by simp_all, hd.symm⟩
  · rw [hstage]
    exact Stage.noConfusion
  · rw [Diagnostic.stage, hcause] at hstage
    cases hstage

end Parser

namespace Session

variable {l : Lexer} {R : Parser → Parser → Prop} {s : Session}

/-- A session that is about to read an item stands on the first token of it. -/
theorem exists_atItem (reads : (Parser.ofLexer l).ReadsOn s.parser)
    (more : s.atItem.current.kind ≠ .endOfInput) :
    s.atItem.Bounded ∧
      ∃ before x, l.lexemes = before ++ x :: s.atItem.rest ∧ s.atItem.StandsOn x := by
  have hreads := trans_of Parser.ReadsOn reads (readsOn_atItem s)
  have hbounded := hreads.bounded (Parser.bounded_beforeFirst l)
  refine ⟨hbounded, ?_⟩
  cases hreads with
  | here current lexer rest =>
    exact absurd (congrArg Token.kind current)
      (kind_skipToItem_ne _ (hbounded.rest_ne_nil more))
  | on before x current lexer rest => exact ⟨before, x, rest, current, lexer⟩

/-- What a step keeps. -/
theorem frame_step (hR : Parser.ShowFrame l R) (reads : (Parser.ofLexer l).ReadsOn s.parser) :
    R s.parser s.step.2.parser := by
  have := hR.toTableFrame
  have hitem : R s.parser s.atItem := by
    refine frame_skipToItem s.options (fun p => ?_) s.parser
    rw [prompt]
    split
    · exact refl_of R p
    · exact hR.prompt p _
  have hcheck {q : Parser} (c : CheckState) : R q (afterCheck q c) :=
    trans_of R (Parser.TableFrame.setTypes q c.types) (Parser.frame_notes _ _)
  have hfail (t : Session) : R t.parser t.fail.2.parser := by
    rw [fail]
    split
    · exact Parser.Frame.note t.parser _
    · exact refl_of R t.parser
  have hstepped := stepped_step s
  generalize s.step = outcome at *
  cases hstepped with
  | halted => exact refl_of R s.parser
  | ended => exact hitem
  | unread q _ more read =>
    obtain ⟨hbounded, before, x, htokens, hstands⟩ := exists_atItem reads more
    have hread := hR.parseItem htokens hstands hbounded
    rw [read] at hread
    exact trans_of R hitem (trans_of R hread (hfail { s with parser := q }))
  | refused item q d c _ more read checked =>
    obtain ⟨hbounded, before, x, htokens, hstands⟩ := exists_atItem reads more
    have hread := hR.parseItem htokens hstands hbounded
    rw [read] at hread
    have hemit : R (afterCheck q c) ((afterCheck q c).emit d) :=
      hR.emit_of_check htokens hstands hbounded read checked rfl rfl rfl
    refine trans_of R hitem (trans_of R hread (trans_of R (hcheck c) (trans_of R hemit ?_)))
    exact trans_of R (hR.rollback _ s.atItem.arena.mark)
      (hfail { s with parser := ((afterCheck q c).emit d).rollback s.atItem.arena.mark })
  | accepted item q c _ more read =>
    obtain ⟨hbounded, before, x, htokens, hstands⟩ := exists_atItem reads more
    have hread := hR.parseItem htokens hstands hbounded
    rw [read] at hread
    exact trans_of R hitem (trans_of R hread (trans_of R (hcheck c) (Parser.Frame.note _ _)))

/-- What steps keep. -/
theorem frame_after (hR : Parser.ShowFrame l R) (reads : (Parser.ofLexer l).ReadsOn s.parser)
    (n : Nat) : R s.parser (s.after n).parser := by
  have := hR.toTableFrame
  induction n with
  | zero => exact refl_of R s.parser
  | succ n ih =>
    refine trans_of R ih (frame_step hR ?_)
    exact trans_of Parser.ReadsOn reads (readsOn_after n s)

end Session

/-! ### Refused tokens -/

namespace Parser

/-- Of the refused tokens, exactly those that are read are shown, in their order. -/
def ShowsRefused (p q : Parser) : Prop :=
  ∃ xs, p.rest = xs ++ q.rest ∧
    q.journal.lexical = p.journal.lexical ++ xs.filterMap Lexeme.shown?

theorem showsRefused_of_same {p q : Parser} (rest : q.rest = p.rest)
    (lexical : q.journal.lexical = p.journal.lexical) : ShowsRefused p q :=
  ⟨[], by rw [rest, List.nil_append], by rw [lexical, List.filterMap_nil, List.append_nil]⟩

instance : TableFrame ShowsRefused where
  refl _ := showsRefused_of_same rfl rfl
  trans _ _ _ h k := by
    obtain ⟨xs, hrest, hshown⟩ := h
    obtain ⟨ys, hrest', hshown'⟩ := k
    refine ⟨xs ++ ys, by rw [hrest, hrest', List.append_assoc], ?_⟩
    rw [hshown', hshown, List.filterMap_append, List.append_assoc]
  advance p := by
    rw [advance]
    split
    · exact showsRefused_of_same rfl rfl
    · next x rest hrest =>
      refine ⟨[x], hrest, ?_⟩
      rw [Journal.lexical_lexeme, List.filterMap_cons]
      cases x.shown? <;> rfl
  note p n := showsRefused_of_same rfl (by simp [note, Journal.lexical])
  addExpr _ _ _ := showsRefused_of_same rfl rfl
  addStmt _ _ _ := showsRefused_of_same rfl rfl
  setTypes _ _ := showsRefused_of_same rfl rfl

theorem showFrame_showsRefused (l : Lexer) : ShowFrame l ShowsRefused where
  prompt _ _ := showsRefused_of_same rfl (by simp [Journal.lexical])
  rollback _ _ := showsRefused_of_same rfl rfl
  emit _ _ _ _ _ _ arises :=
    showsRefused_of_same rfl (Journal.lexical_emit _ arises.notLexical _)

end Parser

namespace Session

/-- A run shows, of the refused tokens, those that it reads; in interactive mode these are all. -/
theorem exists_lexical_run (input : Source.Input) (options : SessionOptions) :
    ∃ xs rest, (Lexer.ofInput input).lexemes = xs ++ rest ∧
      (ofInput input options).run.journal.lexical = xs.filterMap Lexeme.shown? ∧
      (options.mode = .interactive → rest = []) := by
  let s := (ofInput input options).note (.sessionStarted options.mode)
  have hreads : (Parser.ofLexer (.ofInput input)).ReadsOn s.parser := .here rfl rfl rfl
  have hbounded : s.parser.Bounded := hreads.bounded (Parser.bounded_beforeFirst _)
  obtain ⟨n, -, hn, htrace⟩ := exists_trace hbounded
  obtain ⟨xs, hrest, hlexical⟩ :=
    frame_after (Parser.showFrame_showsRefused _) hreads (n + 1)
  refine ⟨xs, (s.after (n + 1)).parser.rest, hrest, ?_, fun interactive => ?_⟩
  · have hlast : s.trace.2.journal.lexical = xs.filterMap Lexeme.shown? := by
      rw [htrace]
      exact hlexical
    rw [← hlast]
    show List.filter _ (s.trace.2.journal.note _).shown = _
    rw [Journal.shown_note]
    rfl
  · have hongoing : s.Ongoing := ⟨interactive, rfl⟩
    exact rest_of_finished (bounded_after hbounded n) hn (hongoing.after n).running

/-- No refused token is lost or reported twice. A run in interactive mode shows for the refused tokens
of a text what a listing of the tokens shows, one diagnostic for each of them; a run in file mode
shows the first ones of these. -/
theorem lexical_run (input : Source.Input) (promptText : String) :
    let xs := (Lexer.ofInput input).lexemes
    let listed := (listingJournal xs).shown
    (ofInput input ⟨.interactive, promptText⟩).run.journal.lexical = listed ∧
      (ofInput input ⟨.file, promptText⟩).run.journal.lexical <+: listed ∧
      listed = xs.filterMap Lexeme.shown? ∧
      listed.length = xs.countP (·.token.kind.isInvalid) := by
  intro xs listed
  have hlisted : listed = xs.filterMap Lexeme.shown? := Journal.shown_listingJournal xs
  refine ⟨?_, ?_, hlisted, ?_⟩
  · obtain ⟨ys, rest, hcut, hlexical, hall⟩ := exists_lexical_run input ⟨.interactive, promptText⟩
    have hxs : xs = ys := by rw [show xs = _ from hcut, hall rfl, List.append_nil]
    rw [hlexical, hlisted, hxs]
  · obtain ⟨ys, rest, hcut, hlexical, -⟩ := exists_lexical_run input ⟨.file, promptText⟩
    rw [hlexical, hlisted, show xs = _ from hcut, List.filterMap_append]
    exact List.prefix_append _ _
  · rw [hlisted, List.length_filterMap_eq_countP]
    simp only [Lexeme.isSome_shown?]

end Session

end Offside
