import Offside.Proofs.Parser.Followed
import Offside.Proofs.Session.Beside
import Offside.Proofs.Session.Finite
import Offside.Proofs.Source.Bytes

/-!
# One line at a time

A session never needs the next line to handle the line in hand. When it stands on the end of a line,
all that it has done is settled by the text up to there, and nothing after it has been requested.

## Main definitions

* `Offside.Session.Forked`: sessions that differ only in what follows the whole lines.
* `Offside.Session.SameAnswers`: sessions that have done and shown the same.

## Main results

* `Offside.Session.Forked.step`: a step on the whole lines is the same whatever follows them.
* `Offside.Session.sameAnswers_of_lineEnd`: what a session has done on the end of a line.
-/

namespace Offside

open Source

namespace Parser

/-- A parser that stands on the end of the last of some complete lines has not read beyond them, and
it waits for what follows. -/
theorem StandsAt.awaits_of_lineEnd {text : List Char} {later : Input} {common : List Lexeme}
    {e : Lexer} {p : Parser} {i : ℕ} (h : p.StandsAt (.ofInput (later.prepend text)) i)
    (lexemes : (Lexer.ofInput (later.prepend text)).lexemes =
      common.map (·.followedBy later) ++ (e.followedBy later).lexemes)
    (lines : ∀ x ∈ common, x.after.stream.failed = false ∧
      (x.token = ⟨.endOfLine, ⟨(normalise text).count '\n' + 1, 1⟩⟩ →
        x.after.stream.pending = [] ∧ x.after.stream.unread = []))
    (below : ∀ x ∈ (e.followedBy later).lexemes, x.token.kind = .endOfLine →
      (normalise text).count '\n' + 1 < x.token.location.line)
    (stands : p.current = ⟨.endOfLine, ⟨(normalise text).count '\n' + 1, 1⟩⟩) :
    (e.followedBy later).lexemes.length ≤ p.rest.length ∧ p.Awaits later := by
  cases h with
  | start current => exact absurd (stands.symm.trans current) (by simp [beforeFirst])
  | on x i token hx rest =>
    rw [hx.current] at stands
    rw [lexemes] at token rest
    by_cases hi : i < common.length
    · rw [List.getElem?_append_left (by simpa using hi), List.getElem?_map,
        List.getElem?_eq_getElem hi, Option.map_some, Option.some.injEq] at token
      subst token
      obtain ⟨hmet, hlast⟩ := lines _ (List.getElem_mem hi)
      obtain ⟨hpending, hunread⟩ := hlast stands
      have hstream : p.stream = common[i].after.stream.followedBy later :=
        congrArg Lexer.stream hx.lexer
      refine ⟨?_, ?_, ?_, ?_, ?_⟩
      · rw [rest, List.length_drop, List.length_append, List.length_map]
        omega
      · rw [hstream]
        exact hpending
      · rw [hstream, Stream.followedBy, hunread, List.nil_append]
      · rw [hstream]
        rfl
      · rw [hstream]
        exact hmet
    · rw [List.getElem?_append_right (by simpa using hi)] at token
      have hline := below x (List.mem_of_getElem? token) (by rw [stands])
      rw [stands] at hline
      exact absurd hline (Nat.lt_irrefl _)

end Parser

namespace Session

variable {w : Parser.Fork} {s s' : Session} {p p' : Parser}

/-- Sessions that differ only in what follows the whole lines. -/
inductive Forked (w : Parser.Fork) : Session → Session → Prop
  | mk (s : Session) (p p' : Parser) (h : Parser.Forked w p p') :
    Forked w { s with parser := p } { s with parser := p' }

theorem prompt_forked (options : SessionOptions) (h : Parser.Forked w p p') :
    Parser.Forked w (prompt options p) (prompt options p') := by
  obtain ⟨p, l, common⟩ := h
  rw [prompt, prompt]
  split
  · exact ⟨p, l, common⟩
  · exact ⟨{ p with journal := p.journal.prompt options.prompt }, l, common⟩

/-- An item is refused in both. -/
theorem fail_forked (s : Session) (h : Parser.Forked w p p') :
    (fail { s with parser := p' }).1 = (fail { s with parser := p }).1 ∧
      Forked w (fail { s with parser := p }).2 (fail { s with parser := p' }).2 := by
  rw [fail, fail]
  dsimp only
  split
  · exact ⟨rfl, .mk { s with halted := true } _ _ (h.note .halting)⟩
  · exact ⟨rfl, .mk s _ _ h⟩

/-- The check of an item does not depend on what follows it. -/
theorem check_forked (s : Session) (h : Parser.Forked w p p') (mark : Arena.Mark) (item : Item) :
    (check { s with parser := p' } mark item).1 = (check { s with parser := p } mark item).1 ∧
      Forked w (check { s with parser := p } mark item).2
        (check { s with parser := p' } mark item).2 := by
  obtain ⟨p, l, common⟩ := h
  have hsame (later : Input) (tail : List Lexeme) :
      (checkItem item).run (.initial
          ({ s with parser := p.onWholeLines l common later tail } : Session).types s.symbols) =
        (checkItem item).run (.initial p.types s.symbols) := rfl
  have hforked (c : CheckState) :
      Parser.Forked w (afterCheck (p.onWholeLines l common w.later w.tail) c)
        (afterCheck (p.onWholeLines l common w.later' w.tail') c) :=
    ⟨afterCheck p c, l, common⟩
  rw [check, check]
  dsimp only
  rw [hsame, hsame]
  cases (checkItem item).run (.initial p.types s.symbols) with
  | ok _ c =>
    exact ⟨rfl, .mk { s with symbols := c.symbols, items := s.items.push item } _ _
      ((hforked c).note _)⟩
  | error d c => exact fail_forked s (((hforked c).emit d).rollback mark)

namespace Forked

/-- A step on the whole lines has the same outcome in both, and leaves them the same but for what
follows. -/
theorem step (h : Forked w s s') (bounded : s.parser.Bounded) (bounded' : s'.parser.Bounded) :
    s'.step.1 = s.step.1 ∧ Forked w s.step.2 s'.step.2 ∨ w.Beyond s.step.2.parser := by
  obtain ⟨s, p, p', h⟩ := h
  by_cases hhalted : s.halted = true
  · rw [step_of_halted (s := { s with parser := p }) hhalted,
      step_of_halted (s := { s with parser := p' }) hhalted]
    exact .inl ⟨rfl, .mk s p p' h⟩
  have hrunning : s.halted = false := by simpa using hhalted
  have hstep (q : Parser) := step_of_running (s := { s with parser := q }) hrunning
  have hreads (q : Parser) := readsOn_atItem { s with parser := q }
  have hskip : Parser.Forked w (atItem { s with parser := p }) (atItem { s with parser := p' }) ∨
      w.Beyond (atItem { s with parser := p }) :=
    w.comparison.skipToItem (fun _ _ hq => prompt_forked s.options hq) h
  have hbeyond := readsOn_step_of_parseItem (s := { s with parser := p }) hrunning
  rcases hskip with hitem | hb
  · have hkind : _ = _ := w.comparison.kind hitem
    have hmark : _ = _ := w.comparison.mark hitem
    have hitems := hitem.parseItem ((hreads p).bounded bounded) ((hreads p').bounded bounded')
    rw [hstep] at hbeyond
    rw [hstep, hstep, hkind, hmark]
    by_cases hend : (atItem { s with parser := p }).current.kind = .endOfInput
    · rw [if_pos hend, if_pos hend]
      exact .inl ⟨rfl, .mk s _ _ hitem⟩
    · rw [if_neg hend] at hbeyond
      rw [if_neg hend, if_neg hend]
      generalize (atItem { s with parser := p }).parseItem = result at *
      generalize (atItem { s with parser := p' }).parseItem = result' at *
      obtain ⟨found, q⟩ := result
      obtain ⟨found', q'⟩ := result'
      rcases hitems with ⟨hfound, hq⟩ | hb
      · obtain rfl : found' = found := hfound
        cases found' with
        | none => exact .inl (fail_forked s hq)
        | some item => exact .inl (check_forked s hq _ item)
      · exact .inr (hb.mono (hbeyond hend))
  · exact .inr (hb.mono (readsOn_step_of_atItem (s := { s with parser := p }) hrunning))

/-- Several steps on the whole lines have the same outcomes. -/
theorem after (h : Forked w s s') (bounded : s.parser.Bounded) (bounded' : s'.parser.Bounded)
    {k : ℕ} (within : ¬ w.Beyond (s.after k).parser) :
    (∀ m < k, (s'.after m).step.1 = (s.after m).step.1) ∧
      ∀ m ≤ k, Forked w (s.after m) (s'.after m) := by
  have hwithin (m : ℕ) (hm : m ≤ k) : ¬ w.Beyond (s.after m).parser := fun hb => by
    have hreads := readsOn_after (k - m) (s.after m)
    rw [← after_add, Nat.add_sub_cancel' hm] at hreads
    exact within (hb.mono hreads)
  have hstep (m : ℕ) (hm : m < k) (hforked : Forked w (s.after m) (s'.after m)) :=
    (hforked.step (bounded_after bounded m) (bounded_after bounded' m)).resolve_right
      (hwithin (m + 1) hm)
  have hforked (m : ℕ) (hm : m ≤ k) : Forked w (s.after m) (s'.after m) := by
    induction m with
    | zero => exact h
    | succ m ih => exact (hstep m hm (ih (by omega))).2
  exact ⟨fun m hm => (hstep m hm (hforked m hm.le)).1, hforked⟩

end Forked

/-! ### What a session has done -/

/-- The two sessions have accepted the same items, hold the same tables and have shown and noted the
same. -/
structure SameAnswers (s s' : Session) : Prop where
  items : s'.items = s.items
  types : s'.types = s.types
  symbols : s'.symbols = s.symbols
  journal : s'.journal = s.journal
  halted : s'.halted = s.halted

theorem Forked.awaits (h : Forked w s s') (awaits : s.parser.Awaits w.later) :
    s'.parser.Awaits w.later' := by
  obtain ⟨s, p, p', h⟩ := h
  exact h.awaits awaits

theorem Forked.sameAnswers (h : Forked w s s') : SameAnswers s s' := by
  obtain ⟨s, -, -, p, l, common⟩ := h
  exact ⟨rfl, rfl, rfl, rfl, rfl⟩

/-- On the end of the last of some complete lines, a session has done what it would have done if
anything else followed them, and has requested nothing of what follows. -/
theorem sameAnswers_of_prepend {text : List Char} (ends : ∀ c ∈ text.getLast?, c = '\n')
    (later later' : Input) (options : SessionOptions) (k : ℕ)
    (stands : ((ofInput (later.prepend text) options).after k).parser.current =
      ⟨.endOfLine, ⟨(normalise text).count '\n' + 1, 1⟩⟩) :
    let s := ofInput (later.prepend text) options
    let s' := ofInput (later'.prepend text) options
    (∀ m < k, (s'.after m).step.1 = (s.after m).step.1) ∧
      (∀ m ≤ k, SameAnswers (s.after m) (s'.after m)) ∧
      (s.after k).parser.Awaits later ∧ (s'.after k).parser.Awaits later' := by
  intro s s'
  obtain ⟨common, e, hlexemes, hcommon, hbelow⟩ := Lexer.exists_lexemes_prepend ends
  let w : Parser.Fork := ⟨later, later', (e.followedBy later).lexemes,
    (e.followedBy later').lexemes, Lexer.lexemes_ne_nil _, Lexer.lexemes_ne_nil _⟩
  have hforked : Forked w s s' := by
    have hparser (later : Input) : Parser.ofLexer (.ofInput (later.prepend text)) =
        (Parser.ofLexer (.ofInput ⟨text, false⟩)).onWholeLines (.ofInput ⟨text, false⟩) common
          later (e.followedBy later).lexemes := by
      rw [Parser.ofLexer, hlexemes later]
      rfl
    refine .mk (ofInput ⟨text, false⟩ options) _ _ ?_
    rw [hparser, hparser]
    exact .mk (w := w) _ _ common
  have hstands : s.parser.StandsAt (.ofInput (later.prepend text)) 0 := standsAt_ofLexer _ _
  have hstands' : s'.parser.StandsAt (.ofInput (later'.prepend text)) 0 := standsAt_ofLexer _ _
  obtain ⟨i, hi⟩ := exists_standsAt_after hstands k
  obtain ⟨hwithin, hawaits⟩ :=
    hi.awaits_of_lineEnd (hlexemes later) hcommon (hbelow later) stands
  obtain ⟨houtcomes, hafter⟩ := hforked.after hstands.bounded hstands'.bounded hwithin.not_gt
  exact ⟨houtcomes, fun m hm => (hafter m hm).sameAnswers, hawaits,
    (hafter k (Nat.le_refl k)).awaits hawaits⟩

/-- A session handles the line in hand without the next one. If the bytes of a text of complete
lines are followed by any others, readable or not, and the session stands on the end of the last of
these lines, then every step so far has had the outcome that it has if still others follow, and the
session has done, shown and declared the same. Nothing after the lines has been requested. -/
theorem sameAnswers_of_lineEnd {text : List Char} (ends : text.getLast? = some '\n')
    (bytes bytes' : List UInt8) (options : SessionOptions) (k : ℕ)
    (stands : ((ofInput (.ofBytes (utf8 text ++ bytes)) options).after k).parser.current =
      ⟨.endOfLine, ⟨(normalise text).count '\n' + 1, 1⟩⟩) :
    let s := ofInput (.ofBytes (utf8 text ++ bytes)) options
    let s' := ofInput (.ofBytes (utf8 text ++ bytes')) options
    (∀ m < k, (s'.after m).step.1 = (s.after m).step.1) ∧
      (∀ m ≤ k, SameAnswers (s.after m) (s'.after m)) ∧
      (s.after k).parser.Awaits (.ofBytes bytes) ∧
      (s'.after k).parser.Awaits (.ofBytes bytes') := by
  have hlast : ∀ c ∈ text.getLast?, c = '\n' := by simp [ends]
  rw [Input.ofBytes_utf8_append hlast] at stands
  rw [Input.ofBytes_utf8_append hlast, Input.ofBytes_utf8_append hlast]
  exact sameAnswers_of_prepend hlast _ _ options k stands

/-- Two lines, the second of which is refused. -/
def refusedSum : List Char := "x = 1\n2 +\n".toList

/-- The session has answered both lines, whether an item follows or a byte that is no text. -/
theorem sameAnswers_of_lineEnd_refusedSum :
    let options : SessionOptions := ⟨.interactive, defaultPrompt⟩
    let s := ofInput (.ofBytes (utf8 refusedSum ++ utf8 "3\n".toList)) options
    let s' := ofInput (.ofBytes (utf8 refusedSum ++ [255])) options
    (s'.after 0).step.1 = .item 0 ∧ (s'.after 1).step.1 = .failed ∧
      SameAnswers (s.after 2) (s'.after 2) ∧ (s'.after 2).parser.Awaits ⟨[], true⟩ := by
  intro options s s'
  have hinput : Input.ofBytes (utf8 refusedSum ++ utf8 "3\n".toList) =
      .ofString "x = 1\n2 +\n3\n" := by
    decide +kernel
  have hinvalid : Input.ofBytes [255] = ⟨[], true⟩ := by decide +kernel
  have hends : refusedSum.getLast? = some '\n' := by decide
  obtain ⟨houtcomes, hsame, -, hawaits⟩ := sameAnswers_of_lineEnd hends
    (utf8 "3\n".toList) [255] options 2 (by
      rw [hinput]
      decide +kernel)
  have hsteps : (s.after 0).step.1 = .item 0 ∧ (s.after 1).step.1 = .failed := by
    rw [show s = ofInput (.ofString "x = 1\n2 +\n3\n") options from
      congrArg (ofInput · options) hinput]
    decide +kernel
  exact ⟨(houtcomes 0 (by decide)).trans hsteps.1, (houtcomes 1 (by decide)).trans hsteps.2,
    hsame 2 (Nat.le_refl 2), hinvalid ▸ hawaits⟩

end Session

end Offside
