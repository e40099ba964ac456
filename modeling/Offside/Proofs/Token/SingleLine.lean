import Offside.Proofs.Token.Abreast

/-!
# A line on its own

A line that starts at the left margin while no block is open leaves no block open, and holds no
layout: the lexer is at its end as it was at its start, one line further down.

## Main definitions

* `Offside.Lexer.Fresh`: the lexer is at the start of a line and no block is open.

## Main results

* `Offside.Lexer.Fresh.line`: a line that starts without a margin.
* `Offside.Lexer.Fresh.abreast`: lexers at the start of the same lines.
* `Offside.Lexer.abreast_ofInput`: lexers of the same text, however its lines end.
-/

namespace Offside

open Source Token

namespace Lexer

variable {l m : Lexer}

/-- The lexer is at the start of a line, no block is open and no dedent is owed. -/
structure Fresh (l : Lexer) : Prop where
  lineWise : l.stream.LineWise
  counted : l.stream.Counted
  noBlocks : l.blocks = []
  paid : l.owed = 0
  start : l.atLineStart = true
  column : l.stream.location.column = 0

theorem fresh_ofInput (input : Input) : (ofInput input).Fresh :=
  ⟨Stream.lineWise_ofInput input, Stream.counted_ofInput input, rfl, rfl, rfl, rfl⟩

/-- Lexers at the start of the same lines, at different places of two texts. -/
theorem Fresh.abreast {d : Nat} {rest rest' common : List Char} (h : l.Fresh) (h' : m.Fresh)
    (hrem : l.stream.remaining = common ++ rest) (hrem' : m.stream.remaining = common ++ rest')
    (hplace : m.stream.location = l.stream.location.down d) :
    l.Abreast d rest rest' common m :=
  ⟨⟨h.lineWise, h'.lineWise, h.counted, h'.counted, hrem, hrem', hplace⟩,
    h'.noBlocks.trans h.noBlocks.symm, h'.paid.trans h.paid.symm, h'.start.trans h.start.symm⟩

/-- How the line ends of a text are written makes no difference to its lexer. -/
theorem abreast_ofInput {input input' : Input} (h : normalise input'.text = normalise input.text) :
    (ofInput input).Abreast 0 [] [] (normalise input.text) (ofInput input') := by
  refine (fresh_ofInput input).abreast (fresh_ofInput input') ?_ ?_ rfl
  · exact (List.append_nil _).symm
  · rw [List.append_nil]
    exact h

/-- A lexer abreast of one at the start of a line is at the start of a line itself. -/
theorem Abreast.fresh {d : Nat} {rest rest' common : List Char}
    (h : l.Abreast d rest rest' common m) (hl : l.Fresh) : m.Fresh :=
  ⟨h.stream.lineWise', h.stream.counted', h.blocks.trans hl.noBlocks, h.owed.trans hl.paid,
    h.atLineStart.trans hl.start, by rw [h.stream.location]; exact hl.column⟩

/-! ### The ends of lines -/

private theorem start_of_inLine (hs : l.stream.LineWise) (paid : l.owed = 0)
    (hk : l.inLine.token.kind = .endOfLine) :
    l.inLine.after.owed = 0 ∧ l.inLine.after.atLineStart = true := by
  have hgap := Stream.lineWise_takeWhile isGap hs
  have hfill := Stream.fill_takeWhile isGap hs
  unfold inLine at hk ⊢
  dsimp only at hk ⊢
  generalize (l.stream.takeWhile isGap).2 = s at *
  have finish {t : Stream} {place : Location} :
      (finish { l with stream := t } place).token.kind ≠ .endOfLine := by
    rw [Lexer.finish]
    split <;> exact Kind.noConfusion
  cases hp : s.peek with
  | none =>
    simp only [hp] at hk
    exact absurd hk finish
  | some c =>
    simp only [hp] at hk ⊢
    split at hk
    · next hn => rw [if_pos hn]; exact ⟨paid, rfl⟩
    · next hn =>
      rw [if_neg hn]
      split at hk
      · next hc =>
        rw [if_pos hc]
        split at hk
        · next hb => rw [if_pos hb]; exact ⟨paid, rfl⟩
        · exact absurd hk finish
      · have hscan : (scan c s).1 = .endOfLine := hk
        rw [(agrees_scan hgap hfill hp hn).kind] at hscan
        exact absurd hscan (tokenOf_ne_end _ _).1

/-- After the end of a line no dedent is owed, and the margin of the next line comes first. -/
theorem start_of_lineEnd (hs : l.stream.LineWise) (hk : l.read.token.kind = .endOfLine) :
    l.read.after.owed = 0 ∧ l.read.after.atLineStart = true := by
  obtain ⟨used, hcontent⟩ := reads_firstContent hs
  have hread := readCases_read l
  generalize l.read = x at *
  cases hread with
  | dedent => exact absurd hk Kind.noConfusion
  | within paid => exact start_of_inLine hs paid hk
  | first paid stream => exact start_of_inLine (stream ▸ hcontent.lineWise) paid hk
  | layout _ _ kind => exact absurd hk (Kind.ne_endOfLine_of_isLayout kind)

/-- A lexer after the end of a line, with no block open, is at the start of the next line. -/
theorem fresh_of_endOfLine (hs : l.stream.LineWise) (hc : l.stream.Counted) {x : Lexeme}
    (hx : x ∈ l.lexemes) (hk : x.token.kind = .endOfLine) (hblocks : x.after.blocks = []) :
    x.after.Fresh := by
  obtain ⟨m, ⟨hmw, hmc⟩, htoken, hafter⟩ :=
    exists_read (I := fun m => m.stream.LineWise ∧ m.stream.Counted) ⟨hs, hc⟩
      (fun m ⟨hmw, hmc⟩ =>
        have ⟨_, hread, _⟩ := reads_read hmw
        ⟨hread.lineWise, counted_read hmc⟩) hx
  obtain ⟨_, hread, -⟩ := reads_read hmw
  obtain ⟨paid, start⟩ := start_of_lineEnd hmw (htoken ▸ hk)
  rw [← hafter] at hread paid start
  obtain ⟨used, hline, hlast⟩ := reads_of_endOfLine hs hx hk
  obtain ⟨text, rfl⟩ := List.getLast?_eq_some_iff.1 hlast
  refine ⟨hread.lineWise, hafter ▸ counted_read hmc, hblocks, paid, start, ?_⟩
  rw [hline.location, Location.after_append]
  exact congrArg Location.column (Location.next_newline _)

/-! ### From the start to the end of a line -/

/-- What is known of the end `y` of a line that a lexer is on, and of the tokens before it. -/
structure EndsLine (l : Lexer) (before : List Lexeme) (y : Lexeme) : Prop where
  plain : ∀ z ∈ before, z.token.kind.isLayout = false
  blocks : y.after.blocks = l.blocks
  location : y.after.stream.location = ⟨l.stream.location.line + 1, 0⟩

/-- On a line either its end comes next, or a token that is no layout and no line end. -/
private theorem InLine.read_cases {cs more : List Char} (hm : m.InLine)
    (hrem : m.stream.remaining = cs ++ '\n' :: more) (hcs : '\n' ∉ cs) :
    (∃ s, s.LineWise ∧ s.remaining = more ∧ s.location = ⟨m.stream.location.line + 1, 0⟩ ∧
      m.read = endLine { m with stream := s }) ∨
    ∃ c ds s es place, s.LineWise ∧ s.remaining = es ++ '\n' :: more ∧ '\n' ∉ es ∧
      s.location.line = m.stream.location.line ∧ m.read = m.deliver place (tokenOf c ds).1 s := by
  by_cases hblank : ∀ c, (m.stream.remaining.dropWhile isGap).head? = some c → c = '\n' ∨ c = '#'
  · have hline : m.stream.remaining.dropWhile (· ≠ '\n') = '\n' :: more := by
      rw [hrem, (takeWhile_append_of_line hcs _).2]
      rfl
    obtain ⟨s, hreads, hloc, hend⟩ := read_of_lineEnd hm hblank hline
    refine .inl ⟨s, hreads.lineWise, hreads.rest ?_, hloc, hend⟩
    rw [hrem, (takeWhile_append_of_line hcs _).1, List.takeWhile_cons_of_neg (by simp)]
    simp
  · simp only [Classical.not_forall, not_or] at hblank
    obtain ⟨c, hc, hne, hcomment⟩ := hblank
    obtain ⟨ds, hds⟩ := List.head?_eq_some_iff.1 hc
    obtain ⟨s, used, hused, hreads, -, -, hscan⟩ := read_of_scan hm hds hne hcomment
    have hline : s.location.line = m.stream.location.line := by
      rw [hreads.location, Location.after_of_line hused]
    -- The token is a part of the line.
    have hall := hrem.symm.trans hreads.remaining
    rcases List.append_eq_append_iff.1 hall with ⟨es, hes, hall⟩ | ⟨es, hes, hall⟩
    · cases es with
      | nil => exact .inr ⟨c, ds, s, [], _, hreads.lineWise, by simpa using hall.symm, by simp,
          hline, hscan⟩
      | cons e es =>
        rw [List.cons_append, List.cons.injEq] at hall
        refine absurd ?_ hused
        rw [hes, hall.1]
        simp
    · exact .inr ⟨c, ds, s, es, _, hreads.lineWise, hall,
        fun h => hcs (hes ▸ List.mem_append_right _ h), hline, hscan⟩

/-- No later line end is where the line in hand ends. -/
private theorem not_later {s : Stream} {more : List Char} {y : Lexeme} (hm : m.stream = s)
    (hs : s.LineWise) (hrem : s.remaining = more) (hy : y ∈ m.lexemes)
    (hk : y.token.kind = .endOfLine) : y.after.stream.remaining ≠ more := by
  intro hrest
  have hlt := remaining_lt_of_endOfLine (hm ▸ hs) hy hk
  rw [hrest, hm, hrem] at hlt
  exact Nat.lt_irrefl _ hlt

/-- Past its margin a line holds no layout. The first token may be read by another lexer, one that
is still before the margin. -/
theorem InLine.line {cs more : List Char} {before after : List Lexeme} {y : Lexeme}
    (hm : m.InLine) (hread : l.read = m.read) (hrem : m.stream.remaining = cs ++ '\n' :: more)
    (hcs : '\n' ∉ cs) (hy : l.lexemes = before ++ y :: after) (hk : y.token.kind = .endOfLine)
    (hrest : y.after.stream.remaining = more) : m.EndsLine before y := by
  induction before generalizing l m cs with
  | nil =>
    obtain ⟨rfl, -⟩ := lexemes_after hy (by rw [hk]; exact Kind.noConfusion)
    rcases hm.read_cases hrem hcs with ⟨s, -, -, hloc, hend⟩ | ⟨c, ds, s, es, place, -, -, -, -, hscan⟩
    · have hafter := after_next l
      rw [hread, hend] at hafter
      exact ⟨by simp, by rw [hafter]; rfl, by rw [hafter]; exact hloc⟩
    · rw [token_next, hread, hscan] at hk
      exact absurd hk (tokenOf_ne_end c ds).1
  | cons z before ih =>
    have hmem : y ∈ before ++ y :: after := by simp
    have hmore : l.next.token.kind ≠ .endOfInput := by
      intro hend
      rw [lexemes_eq_singleton hend] at hy
      simp at hy
    rw [lexemes_eq_cons hmore, List.cons_append, List.cons.injEq] at hy
    obtain ⟨rfl, hy⟩ := hy
    have htoken := token_next l
    have hafter := after_next l
    rcases hm.read_cases hrem hcs with ⟨s, hs, hsrem, -, hend⟩ |
      ⟨c, ds, s, es, place, hs, hsrem, hes, hline, hscan⟩
    · rw [hread, hend] at hafter
      exact absurd hrest (not_later (by rw [hafter]; rfl) hs hsrem (hy ▸ hmem) hk)
    · rw [hread, hscan] at htoken hafter
      have hinside : l.next.after.InLine := by
        rw [hafter]
        exact ⟨hs, hm.paid, hm.inside⟩
      have hends := ih hinside rfl (by rw [hafter]; exact hsrem) hes hy
      refine ⟨?_, hends.blocks.trans (by rw [hafter]; rfl), ?_⟩
      · rintro x hx
        rcases List.mem_cons.1 hx with rfl | hx
        · rw [htoken]
          exact isLayout_tokenOf c ds
        · exact hends.plain x hx
      · rw [hends.location, hafter, ← hline]
        rfl

/-- The margin of a line that starts with its content calls for no layout. -/
private theorem read_of_content (h : l.Fresh) {c : Char} {cs : List Char}
    (hrem : l.stream.remaining = c :: cs) (hc : Margin.isMarginChar c = false)
    (hn : c ≠ '\n' ∧ c ≠ '#') :
    ∃ s, l.stream.Reads [] s ∧ l.read = inLine { l with stream := s, atLineStart := false } := by
  have hmargin := Stream.reads_takeWhile Margin.isMarginChar h.lineWise
  have hrun := Stream.takeWhile_fst Margin.isMarginChar h.lineWise
  have htake : l.stream.remaining.takeWhile Margin.isMarginChar = [] := by
    rw [hrem, List.takeWhile_cons_of_neg (by simp [hc])]
  rw [htake] at hmargin hrun
  have hpeek : (l.stream.takeWhile Margin.isMarginChar).2.peek = some c := by
    rw [Stream.peek_eq_head?, ← List.nil_append (Stream.remaining _), ← hmargin.remaining, hrem]
    rfl
  refine ⟨_, hmargin, ?_⟩
  rw [read, if_neg (by rw [h.paid]; exact Nat.lt_irrefl 0), if_pos h.start, startLine,
    firstContent_of_content hpeek hn]
  dsimp only
  rw [hpeek, if_neg (by simp), hrun]
  have hnone : Lexer.layout? { l with
      stream := (l.stream.takeWhile Margin.isMarginChar).2, atLineStart := false }
      (Margin.ofRun []) = none := by
    have hmixed : (Margin.ofRun []).isMixed = false := rfl
    have hwidth : (Margin.ofRun []).width = 0 := rfl
    simp [Lexer.layout?, Lexer.margin, h.noBlocks, hmixed, hwidth]
  rw [hnone, Option.getD_none]

/-- Blank lines and lines that hold nothing but a comment are passed over. -/
private theorem exists_of_passed {s : Stream} (h : l.Fresh)
    (hpass : firstContent l.stream = firstContent s) {y : Lexeme} (hy : y ∈ l.lexemes) :
    ∃ z ∈ lexemes { l with stream := s }, z.token = y.token ∧ z.after = y.after := by
  have hread : read { l with stream := s } = l.read := by
    have hl : l.read = l.startLine := by simp [read, h.paid, h.start]
    have hs : read { l with stream := s } = startLine { l with stream := s } := by
      simp [read, h.paid, h.start]
    rw [hl, hs, startLine, startLine]
    dsimp only
    rw [hpass]
  have htoken : (next { l with stream := s }).token = l.next.token := by
    rw [token_next, token_next, hread]
  have hafter : (next { l with stream := s }).after = l.next.after := by
    rw [after_next, after_next, hread]
  by_cases hend : l.next.token.kind = .endOfInput
  · rw [lexemes_eq_singleton hend, List.mem_singleton] at hy
    rw [lexemes_eq_singleton (l := { l with stream := s }) (by rwa [htoken])]
    exact ⟨_, List.mem_singleton_self _, hy ▸ htoken, hy ▸ hafter⟩
  · rw [lexemes_eq_cons hend] at hy
    rw [lexemes_eq_cons (l := { l with stream := s }) (by rwa [htoken]), hafter]
    rcases List.mem_cons.1 hy with rfl | hy
    · exact ⟨_, List.mem_cons_self, htoken, hafter⟩
    · exact ⟨y, List.mem_cons_of_mem _ hy, rfl, rfl⟩

/-- A line without a margin, from a fresh start to its own end. -/
theorem Fresh.line (h : l.Fresh) {cs more : List Char} {before after : List Lexeme} {y : Lexeme}
    (hrem : l.stream.remaining = cs ++ '\n' :: more) (hcs : '\n' ∉ cs)
    (hmargin : ∀ c, cs.head? = some c → Margin.isMarginChar c = false)
    (hy : l.lexemes = before ++ y :: after) (hk : y.token.kind = .endOfLine)
    (hrest : y.after.stream.remaining = more) : l.EndsLine before y := by
  -- If the line has no content, `y` would be the end of a later one.
  have passed {s : Stream} {used : List Char} (hpass : firstContent l.stream = firstContent s)
      (hreads : l.stream.Reads used s) (hs : s.remaining = more) : l.EndsLine before y := by
    have hmem : y ∈ l.lexemes := by
      rw [hy]
      simp
    obtain ⟨z, hz, htoken, hafter⟩ := exists_of_passed h hpass hmem
    exact absurd (hafter ▸ hrest)
      (not_later (m := { l with stream := s }) rfl hreads.lineWise hs hz (htoken ▸ hk))
  have hrun := Stream.reads_takeWhile Margin.isMarginChar h.lineWise
  have hnone : l.stream.remaining.takeWhile Margin.isMarginChar = [] := by
    rw [hrem]
    cases cs with
    | nil => rfl
    | cons c cs => rw [List.cons_append, List.takeWhile_cons_of_neg (by simp [hmargin c rfl])]
  rw [hnone] at hrun
  have hcontent : (l.stream.takeWhile Margin.isMarginChar).2.remaining = cs ++ '\n' :: more :=
    hrun.rest hrem
  cases cs with
  | nil =>
    have hpeek : (l.stream.takeWhile Margin.isMarginChar).2.peek = some '\n' := by
      rw [Stream.peek_eq_head?, hcontent]
      rfl
    have hskip := Stream.reads_skip hrun.lineWise hpeek
    exact passed (firstContent_of_newline hpeek) (hrun.trans hskip) (hskip.rest hcontent)
  | cons c cs =>
    have hpeek : (l.stream.takeWhile Margin.isMarginChar).2.peek = some c := by
      rw [Stream.peek_eq_head?, hcontent]
      rfl
    have hn : c ≠ '\n' := fun hn => hcs (by simp [hn])
    by_cases hc : c = '#'
    · subst hc
      rcases reads_skipComment hrun.lineWise with ⟨_, -, -, hskip⟩ | ⟨hlast, -⟩
      · refine passed (firstContent_of_comment hpeek) (hrun.trans hskip) (hskip.rest ?_)
        rw [hcontent, (takeWhile_append_of_line hcs _).1, List.takeWhile_cons_of_neg (by simp)]
        simp
      · rw [hcontent, (takeWhile_append_of_line hcs _).2, List.dropWhile_cons_of_neg (by simp)]
          at hlast
        cases hlast
    · obtain ⟨s, hreads, hread⟩ := read_of_content h (by rw [hrem]; rfl) (hmargin c rfl) ⟨hn, hc⟩
      have hinside : InLine { l with stream := s, atLineStart := false } :=
        ⟨hreads.lineWise, h.paid, rfl⟩
      rw [← hinside.read_eq] at hread
      have hline := hinside.line hread (hreads.rest hrem) hcs hy hk hrest
      refine ⟨hline.plain, hline.blocks, hline.location.trans ?_⟩
      show (⟨s.location.line + 1, 0⟩ : Location) = _
      rw [hreads.location]
      rfl

end Lexer

end Offside
