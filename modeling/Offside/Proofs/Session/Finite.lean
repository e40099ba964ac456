import Offside.Proofs.Parser.Anchored
import Offside.Proofs.Session.Undone
import Offside.Proofs.Token.Finite

/-!
# Every text is handled in as many steps as it has tokens

A parser has read some number of tokens of its text and stands on the last of these. A step that
does something reads further tokens, so that this number grows from step to step; the first step
reads at least two tokens, since before it the parser stands on none. The number of tokens bounds
the number of steps, and the length of the text bounds the number of tokens.

## Main definitions

* `Offside.Parser.StandsAt`: how many tokens of a text a parser has read.

## Main results

* `Offside.Session.exists_standsAt_step`: every step but the last reads on.
* `Offside.Session.finished_iff_standsAt`: which step is the last.
* `Offside.Session.run_of_standsAt`: a run handles every text, in as many steps as it has tokens.
-/

namespace Offside

open Source

namespace Parser

variable {l : Lexer} {p q : Parser} {i : Nat}

/-- The parser has read `i` tokens of a text, and stands on the last of them. -/
inductive StandsAt (l : Lexer) (p : Parser) : Nat → Prop
  | start (current : p.current = beforeFirst) (lexer : p.lexer = l) (rest : p.rest = l.lexemes) :
    StandsAt l p 0
  | on (x : Lexeme) (i : Nat) (token : l.lexemes[i]? = some x) (stands : p.StandsOn x)
    (rest : p.rest = l.lexemes.drop (i + 1)) : StandsAt l p (i + 1)

theorem standsAt_of_append {before : List Lexeme} {x : Lexeme}
    (tokens : l.lexemes = before ++ x :: p.rest) (stands : p.StandsOn x) :
    p.StandsAt l (before.length + 1) := by
  refine .on x before.length ?_ stands ?_
  · rw [tokens, List.getElem?_append_right (Nat.le_refl _), Nat.sub_self, List.getElem?_cons_zero]
  · rw [tokens, List.append_cons, List.drop_append_of_le_length (by simp), List.drop_of_length_le]
    · rfl
    · simp

/-- The tokens that have been read and those that are left are all there are. -/
theorem StandsAt.rest_eq (h : p.StandsAt l i) : p.rest = l.lexemes.drop i := by
  cases h with
  | start _ _ rest => exact rest
  | on _ _ _ _ rest => exact rest

theorem StandsAt.length_rest (h : p.StandsAt l i) : p.rest.length + i = l.lexemes.length := by
  have hle : i ≤ l.lexemes.length := by
    cases h with
    | start => exact Nat.zero_le _
    | on x i token => exact (List.getElem?_eq_some_iff.1 token).1
  rw [h.rest_eq, List.length_drop]
  omega

theorem StandsAt.readsOn (h : p.StandsAt l i) : (ofLexer l).ReadsOn p := by
  cases h with
  | start current lexer rest => exact .here current lexer rest
  | on x i token stands rest =>
    obtain ⟨hi, rfl⟩ := List.getElem?_eq_some_iff.1 token
    refine .on (l.lexemes.take i) _ stands.current stands.lexer ?_
    rw [rest, List.getElem_cons_drop, List.take_append_drop]
    rfl

theorem StandsAt.bounded (h : p.StandsAt l i) : p.Bounded :=
  h.readsOn.bounded (bounded_beforeFirst l)

/-- The end of the input is the last token. -/
theorem StandsAt.kind_iff (h : p.StandsAt l i) :
    p.current.kind = .endOfInput ↔ i = l.lexemes.length := by
  have hlength := h.length_rest
  constructor
  · intro hend
    rw [h.bounded.rest_of_end hend] at hlength
    simpa using hlength
  · rintro rfl
    by_contra hmore
    exact h.bounded.rest_ne_nil hmore (List.eq_nil_of_length_eq_zero (by omega))

/-- A parser that reads on has read at least as many tokens. -/
theorem StandsAt.exists_of_readsOn (h : p.StandsAt l i) (reads : p.ReadsOn q) :
    ∃ j, i ≤ j ∧ q.StandsAt l j := by
  have hle := reads.length_le
  have hlength := h.length_rest
  have hreads := trans_of ReadsOn h.readsOn reads
  cases hreads with
  | here current lexer rest =>
    have hrest : q.rest = l.lexemes := rest
    rw [hrest] at hle
    exact ⟨0, by omega, .start current lexer rest⟩
  | on before x current lexer rest =>
    have hj := standsAt_of_append rest ⟨current, lexer⟩
    have hlater := hj.length_rest
    exact ⟨_, by omega, hj⟩

/-- Recovery stops where reading can go on. -/
theorem Bounded.stop_recover {stop : Kind → Bool} (h : p.Bounded) (hend : stop .endOfInput = true) :
    stop (p.recover stop).current.kind = true := by
  have hskips : p.ReadsOn (p.skipUntil stop).2 := Frame.skipUntil stop p
  by_cases hk : (p.skipUntil stop).2.current.kind = .endOfInput
  · show stop (p.skipUntil stop).2.current.kind = true
    rw [hk, hend]
  · exact (stop_skipUntil stop p).resolve_right ((hskips.bounded h).rest_ne_nil hk)

end Parser

namespace Session

variable {l : Lexer} {s : Session} {i : Nat}

theorem standsAt_ofLexer (l : Lexer) (options : SessionOptions) :
    (ofLexer l options).parser.StandsAt l 0 := .start rfl rfl rfl

/-- Skipping to an item leaves no line end and no end of a block before it. -/
theorem kind_atItem_ne (h : s.parser.Bounded) :
    s.atItem.current.kind ≠ .endOfLine ∧ s.atItem.current.kind ≠ .dedent := by
  have hbounded := (readsOn_atItem s).bounded h
  unfold atItem at hbounded ⊢
  generalize s.parser = p at *
  fun_induction skipToItem s.options p with
  | case1 p hk ih =>
    obtain ⟨journal, hprompt, -⟩ := exists_prompt s.options p
    refine ih ?_ hbounded
    have hprompted : p.ReadsOn (prompt s.options p) := by
      rw [hprompt]
      exact .here rfl rfl rfl
    exact (trans_of Parser.ReadsOn hprompted (Parser.Frame.advance _)).bounded h
  | case2 p h₁ h₂ ih =>
    have hreads : p.ReadsOn p.advance := Parser.Frame.advance p
    exact ih (hreads.bounded h) hbounded
  | case3 p h₁ h₂ =>
    constructor
    · exact fun hk => h₁ ⟨hk, hbounded.rest_ne_nil (by rw [hk]; exact Kind.noConfusion)⟩
    · exact fun hk => h₂ ⟨hk, hbounded.rest_ne_nil (by rw [hk]; exact Kind.noConfusion)⟩

/-- Before an item that stands after a line end, the line end is read. -/
theorem length_atItem_lt (hk : s.parser.current.kind = .endOfLine) (hrest : s.parser.rest ≠ []) :
    s.atItem.rest.length < s.parser.rest.length := by
  obtain ⟨journal, hprompt, -⟩ := exists_prompt s.options s.parser
  have hreads := readsOn_skipToItem s.options (prompt s.options s.parser).advance
  have hlength := hreads.length_le
  rw [atItem, skipToItem, if_pos ⟨hk, hrest⟩]
  rw [Parser.length_rest_advance, hprompt] at hlength
  have := List.length_pos_iff.2 hrest
  rw [hprompt]
  exact Nat.lt_of_le_of_lt hlength (Nat.sub_lt this Nat.one_pos)

/-- Every step but the last stands on a later token than the first one of its item. -/
theorem length_step_lt_atItem (bounded : s.parser.Bounded) (h : s.step.1 ≠ .finished) :
    s.step.2.parser.rest.length < s.atItem.rest.length := by
  obtain ⟨hrunning, hmore⟩ := not_or.1 (mt finished_iff.2 h)
  rw [Bool.not_eq_true] at hrunning
  have hread := Parser.length_parseItem_lt ((readsOn_atItem s).bounded bounded) hmore
    (kind_atItem_ne bounded).1
  exact Nat.lt_of_le_of_lt (readsOn_step_of_parseItem hrunning hmore).length_le hread

/-- Every step but the last reads on. -/
theorem exists_standsAt_step (h : s.parser.StandsAt l i) (more : s.step.1 ≠ .finished) :
    ∃ j, i < j ∧ s.step.2.parser.StandsAt l j := by
  obtain ⟨j, -, hj⟩ := h.exists_of_readsOn (readsOn_step s)
  have hlength := h.length_rest
  have hlater := hj.length_rest
  have hlt := length_step_lt h.bounded more
  exact ⟨j, by omega, hj⟩

/-- The last step is the one that finds the session halted, or no item before the last token. -/
theorem finished_iff_standsAt (h : s.parser.StandsAt l i) :
    s.step.1 = .finished ↔ s.halted = true ∨ s.atItem.StandsAt l l.lexemes.length := by
  obtain ⟨j, -, hj⟩ := h.exists_of_readsOn (readsOn_atItem s)
  rw [finished_iff]
  refine or_congr_right ⟨fun hend => ?_, fun hlast => hlast.kind_iff.2 rfl⟩
  rwa [hj.kind_iff.1 hend] at hj

/-- So the session has halted after it, or stands on the last token. -/
theorem halted_or_standsAt_of_finished (h : s.parser.StandsAt l i) (finished : s.step.1 = .finished) :
    s.step.2.halted = true ∨ s.step.2.parser.StandsAt l l.lexemes.length := by
  rcases (finished_iff_standsAt h).1 finished with hhalted | hlast
  · rw [step_of_halted hhalted]
    exact .inl hhalted
  · by_cases hhalted : s.halted = true
    · rw [step_of_halted hhalted]
      exact .inl hhalted
    · rw [step_of_running (by simpa using hhalted), if_pos (hlast.kind_iff.2 rfl)]
      exact .inr hlast

theorem exists_standsAt_after (h : s.parser.StandsAt l i) (m : Nat) :
    ∃ j, (s.after m).parser.StandsAt l j := by
  obtain ⟨j, -, hj⟩ := h.exists_of_readsOn (readsOn_after m s)
  exact ⟨j, hj⟩

/-- As long as no step is the last, each has read another token, and the first one two. -/
theorem exists_standsAt_of_running (h : s.parser.StandsAt l 0) {m : Nat}
    (running : ∀ n < m + 1, (s.after n).step.1 ≠ .finished) :
    ∃ j, m + 2 ≤ j ∧ (s.after (m + 1)).parser.StandsAt l j := by
  induction m with
  | zero =>
    have hmore := running 0 (Nat.zero_lt_succ 0)
    obtain ⟨j, -, hj⟩ := h.exists_of_readsOn (readsOn_step s)
    refine ⟨j, ?_, hj⟩
    have hrest : s.parser.rest ≠ [] := by
      rw [h.rest_eq, List.drop_zero]
      exact l.lexemes_ne_nil
    have hkind : s.parser.current.kind = .endOfLine := by
      cases h with
      | start current => rw [current]; rfl
    have hlength := h.length_rest
    have hlater := hj.length_rest
    have hitem := length_atItem_lt hkind hrest
    have hstep := length_step_lt_atItem h.bounded hmore
    omega
  | succ m ih =>
    obtain ⟨j, hle, hj⟩ := ih fun n hn => running n (by omega)
    obtain ⟨k, hlt, hk⟩ := exists_standsAt_step hj (running (m + 1) (by omega))
    exact ⟨k, by omega, hk⟩

/-- Whatever the text is, it has at most two tokens to a character and one more, the last of which
is its first end of the input, and so is every token requested after it. From the start of the text
each step of a session, in either mode, reads on among these tokens until one is the last. This is
the first step that finds the session halted, or no item before the last token, and it comes after
at most as many steps as there are tokens; a run ends there, halted or on the last token. At no
token is the bound on the depth of the recursion met, or recovery cut short. -/
theorem run_of_standsAt (input : Input) {s : Session}
    (start : s.parser.StandsAt (.ofInput input) 0) :
    let l := Lexer.ofInput input
    let count := l.lexemes.length
    let noted := s.note (.sessionStarted s.options.mode)
    (count ≤ 2 * (normalise input.text).length + 1 ∧
      (∀ k < count, l.lexemes[k]? = some (l.ahead k).next) ∧
      ∀ k, (l.ahead k).next.token.kind = .endOfInput ↔ count ≤ k + 1) ∧
    (∀ m, ∃ i, (s.after m).parser.StandsAt l i ∧
      ((s.after m).step.1 ≠ .finished → ∃ j, i < j ∧ (s.after (m + 1)).parser.StandsAt l j) ∧
      ((s.after m).step.1 = .finished ↔
        (s.after m).halted = true ∨ (s.after m).atItem.StandsAt l count)) ∧
    (∀ p i, p.StandsAt l i →
      (∀ q, (Parse.item p.fuel).run p ≠ .error .tooDeep q) ∧
      Parser.endsLine (p.recover Parser.endsLine).current.kind = true ∧
      Parser.endsBlock (p.recover Parser.endsBlock).current.kind = true) ∧
    ∃ m < count, (∀ n < m, (noted.after n).step.1 ≠ .finished) ∧
      (noted.after m).step.1 = .finished ∧
      ((noted.after (m + 1)).halted = true ∨ (noted.after (m + 1)).parser.StandsAt l count) ∧
      s.run = (noted.after (m + 1)).note
        (.sessionFinished (noted.after (m + 1)).items.size
          (noted.after (m + 1)).journal.errorCount) := by
  intro l count noted
  refine ⟨⟨Lexer.length_lexemes_ofInput_le input, fun k => Lexer.getElem?_lexemes,
    fun k => Lexer.kind_ahead_iff (Stream.lineWise_ofInput input)⟩, fun m => ?_,
    fun p i hp => ?_, ?_⟩
  · obtain ⟨i, hi⟩ := exists_standsAt_after start m
    exact ⟨i, hi, exists_standsAt_step hi, finished_iff_standsAt hi⟩
  · exact ⟨fun q => Parse.item_ne_tooDeep hp.bounded, hp.bounded.stop_recover rfl,
      hp.bounded.stop_recover rfl⟩
  · have hnoted : noted.parser.StandsAt l 0 := by
      cases start with
      | start current lexer rest => exact .start current lexer rest
    obtain ⟨m, hrunning, hend, htrace⟩ := exists_trace hnoted.bounded
    obtain ⟨i, hi⟩ := exists_standsAt_after hnoted m
    refine ⟨m, ?_, hrunning, hend, halted_or_standsAt_of_finished hi hend, ?_⟩
    · cases m with
      | zero => exact List.length_pos_iff.2 l.lexemes_ne_nil
      | succ m =>
        obtain ⟨j, hle, hj⟩ := exists_standsAt_of_running hnoted hrunning
        have hlength := hj.length_rest
        omega
    · rw [run, htrace]

/-- A refused character, a line that is too deep, and a line behind which the end of the input closes
a block: three steps fail, each with a diagnostic, and the fourth one is the last. -/
theorem run_of_standsAt_malformed :
    let input : Input := .ofString "if a:\n  b $\n   (\r\n  x"
    let l := Lexer.ofInput input
    let s := ofInput input ⟨.interactive, defaultPrompt⟩
    let noted := s.note (.sessionStarted .interactive)
    s.parser.StandsAt l 0 ∧
      l.lexemes.map (·.token.kind) =
        [.keyword .ifWord, .identifier "a", .symbol .colon, .endOfLine, .indent, .identifier "b",
          .invalid (.unexpected '$'), .endOfLine, .indent, .symbol .openParen, .endOfLine, .dedent,
          .identifier "x", .dedent, .endOfInput] ∧
      (normalise input.text).length = 20 ∧
      (∀ m, (s.after m).step.1 ≠ .finished →
        (s.after (m + 1)).parser.rest.length < (s.after m).parser.rest.length) ∧
      (∀ m < 3, (s.after m).step.1 = .failed) ∧ (s.after 3).step.1 = .finished ∧
      (s.after 3).halted = false ∧ (s.after 3).atItem.StandsAt l 15 ∧
      (noted.after 4).journal.diagnostics =
        [⟨.lexical (.unexpected '$'), ⟨2, 5⟩⟩, ⟨.syntactic .noIndent .indent, ⟨3, 4⟩⟩,
          ⟨.syntactic (.lineEnd .topLevelItem) .dedent, ⟨4, 4⟩⟩] ∧
      s.run = (noted.after 4).note (.sessionFinished 0 3) := by
  intro input l s noted
  have hstart : s.parser.StandsAt l 0 := standsAt_ofLexer l ⟨.interactive, defaultPrompt⟩
  have hcount : l.lexemes.length = 15 := by decide +kernel
  have hend : (s.after 3).step.1 = .finished := by decide +kernel
  have hrunning : (s.after 3).halted = false := by decide +kernel
  have hfirst : ∀ m < 3, (noted.after m).step.1 ≠ .finished := by decide +kernel
  obtain ⟨-, hsteps, -, m, -, hbefore, hlast, -, hrun⟩ := run_of_standsAt input (s := s) hstart
  have hm : m = 3 := by
    refine Nat.le_antisymm (Nat.le_of_not_lt fun hlt => hbefore 3 hlt (by decide +kernel)) ?_
    exact Nat.le_of_not_lt fun hlt => hfirst m hlt hlast
  subst hm
  refine ⟨hstart, by decide +kernel, by decide +kernel, fun m hmore => ?_, by decide +kernel, hend,
    hrunning, ?_, by decide +kernel, ?_⟩
  · obtain ⟨i, hi, hlater, -⟩ := hsteps m
    obtain ⟨j, hlt, hj⟩ := hlater hmore
    have hlength := hi.length_rest
    have hlength' := hj.length_rest
    omega
  · obtain ⟨_, _, -, hfinished⟩ := hsteps 3
    rw [← hcount]
    exact (hfinished.1 hend).resolve_left (by simp [hrunning])
  · have hitems : (noted.after 4).items.size = 0 := by decide +kernel
    have herrors : (noted.after 4).journal.errorCount = 3 := by decide +kernel
    rw [← hitems, ← herrors]
    exact hrun

end Session

end Offside
