import Offside.Proofs.Source.Bytes
import Offside.Proofs.Token.WholeLines

/-!
# Texts that go on

On whole lines a lexer delivers the same tokens whatever follows them, and goes through the same
states; what follows is still unread then. Only at the start of a line, on the way to the next
content, it goes beyond them. By then the end of the last line with content has been delivered.

## Main definitions

* `Offside.Lexer.followedBy`, `Offside.Lexeme.followedBy`: a lexer whose input goes on.
* `Offside.Lexer.StaysIn`: a token that lies within the whole lines.
* `Offside.Lexer.OnWholeLines`: a lexer that leaves whole lines.

## Main results

* `Offside.Lexer.OnWholeLines.read`: the next token lies within the whole lines, or they are passed.
* `Offside.Lexer.exists_lexemes_followedBy`: the tokens of the whole lines, and those after them.
* `Offside.Source.Stream.Of.spent`: on the line after the whole lines nothing of them is left.
* `Offside.Lexer.exists_lexemes_prepend`: the tokens of a text that goes on, and where its lines
  end.
-/

namespace Offside

open Source Token

/-! ### Lexers that go on -/

/-- The input goes on with another one. -/
def Lexer.followedBy (l : Lexer) (later : Input) : Lexer :=
  { l with stream := l.stream.followedBy later }

/-- The input goes on with another one. -/
def Lexeme.followedBy (x : Lexeme) (later : Input) : Lexeme :=
  { x with after := x.after.followedBy later }

theorem Lexer.followedBy_nil {l : Lexer} (h : l.stream.Complete) :
    l.followedBy ⟨[], false⟩ = l := by
  rw [followedBy, h.followedBy_nil]

theorem Lexeme.followedBy_nil {x : Lexeme} (h : x.after.stream.Complete) :
    x.followedBy ⟨[], false⟩ = x := by
  rw [followedBy, Lexer.followedBy_nil h]

namespace Lexer

variable {l : Lexer} {text : List Char}

@[simp] theorem blocks_followedBy (l : Lexer) (later : Input) :
    (l.followedBy later).blocks = l.blocks := rfl

/-- The token that `f` delivers lies within the whole lines that are left. If it uses them up, it is
the end of the last one, and the lexer goes on with the next line. -/
structure StaysIn (f : Lexer → Lexeme) (l : Lexer) : Prop where
  same (later : Input) : f (l.followedBy later) = (f l).followedBy later
  last (spent : (f l).after.stream.remaining = []) : (f l).token.kind = .endOfLine ∧
    (f l).after.atLineStart = true ∧ (f l).after.owed = 0

theorem StaysIn.of_eq {f g : Lexer → Lexeme} (h : StaysIn g l) (here : f l = g l)
    (there : ∀ later, f (l.followedBy later) = g (l.followedBy later)) : StaysIn f l :=
  ⟨fun later => by rw [there, here, h.same], fun spent => by
    rw [here] at spent ⊢
    exact h.last spent⟩

theorem inLine_of_peek {s : Stream} {c : Char} (hs : (l.stream.takeWhile isGap).2 = s)
    (hc : s.peek = some c) : l.inLine =
      if c = '\n' then endLine { l with stream := s.skip }
      else if c = '#' then
        if (skipComment s).1 then endLine { l with stream := (skipComment s).2 }
        else finish { l with stream := (skipComment s).2 } s.location.following
      else l.deliver s.location.following (scan c s).1 (scan c s).2 := by
  rw [inLine, hs, hc]

theorem staysIn_inLine (whole : l.stream.Complete) (more : l.stream.remaining ≠ [])
    (paid : l.owed = 0) : StaysIn inLine l := by
  have htake := staysIn_takeWhile whole (p := isGap) (by decide) more
  have hkeeps : l.stream.KeepsComplete (l.stream.takeWhile isGap).2 := Stream.Frame.takeWhile _ _
  have hwhole := hkeeps whole
  have hmore := htake.more
  have hsame (later : Input) : ((l.followedBy later).stream.takeWhile isGap).2 =
      (l.stream.takeWhile isGap).2.followedBy later := congrArg Prod.snd (htake.same later)
  generalize hgap : (l.stream.takeWhile isGap).2 = s at *
  obtain ⟨c, hc⟩ := Stream.exists_peek hmore
  have hhere := inLine_of_peek hgap hc
  have hthere (later : Input) :=
    inLine_of_peek (hsame later) ((Stream.peek_followedBy hwhole later hmore).trans hc)
  by_cases hn : c = '\n'
  · refine ⟨fun later => ?_, fun _ => ?_⟩
    · rw [hthere, hhere, if_pos hn, if_pos hn, Stream.skip_followedBy hwhole later hmore]
      rfl
    · rw [hhere, if_pos hn]
      exact ⟨rfl, rfl, paid⟩
  · by_cases hcom : c = '#'
    · have hended := skipComment_fst hwhole hmore
      refine ⟨fun later => ?_, fun _ => ?_⟩
      · rw [hthere, hhere, if_neg hn, if_pos hcom, if_neg hn, if_pos hcom,
          skipComment_followedBy hwhole later hmore, hended]
        rfl
      · rw [hhere, if_neg hn, if_pos hcom, hended]
        exact ⟨rfl, rfl, paid⟩
    · have hscan := staysIn_scan hwhole hc hn
      refine ⟨fun later => ?_, fun spent => ?_⟩
      · rw [hthere, hhere, if_neg hn, if_neg hcom, if_neg hn, if_neg hcom, hscan.same later]
        rfl
      · rw [hhere, if_neg hn, if_neg hcom] at spent
        exact absurd spent hscan.more

theorem layout?_followedBy (later : Input) (margin : Margin) :
    (l.followedBy later).layout? margin = (l.layout? margin).map (·.followedBy later) := by
  rw [layout?, layout?, Lexer.margin, blocks_followedBy, ← Lexer.margin]
  dsimp only
  split
  · rfl
  · split
    · rfl
    · split
      · rfl
      · split <;> rfl

theorem startLine_of_peek {margin : Margin} {s : Stream} {c : Char}
    (hs : firstContent l.stream = (margin, s)) (hc : s.peek = some c) : l.startLine =
      (layout? { l with stream := s, atLineStart := false } margin).getD
        (inLine { l with stream := s, atLineStart := false }) := by
  simp only [startLine, hs, hc]
  rfl

/-- The first token of a line with content. -/
theorem staysIn_startLine (whole : l.stream.Complete) (paid : l.owed = 0)
    (content : Token.StaysIn firstContent l.stream) : StaysIn startLine l := by
  have hkeeps : l.stream.KeepsComplete (firstContent l.stream).2 := frame_firstContent _
  have hwhole := hkeeps whole
  obtain ⟨more, same⟩ := content
  obtain ⟨c, hc⟩ := Stream.exists_peek more
  have hhere := startLine_of_peek rfl hc
  have hthere (later : Input) := startLine_of_peek (l := l.followedBy later) (same later)
    ((Stream.peek_followedBy hwhole later more).trans hc)
  have hline := staysIn_inLine
    (l := { l with stream := (firstContent l.stream).2, atLineStart := false }) hwhole more paid
  have hlayout (later : Input) := layout?_followedBy
    (l := { l with stream := (firstContent l.stream).2, atLineStart := false }) later
    (firstContent l.stream).1
  cases hx : layout? { l with stream := (firstContent l.stream).2, atLineStart := false }
      (firstContent l.stream).1 with
  | none =>
    rw [hx, Option.getD_none] at hhere
    refine ⟨fun later => ?_, fun spent => ?_⟩
    · rw [hx] at hlayout
      rw [hthere, hhere, ← hline.same later]
      exact congrArg (Option.getD · _) (hlayout later)
    · rw [hhere] at spent ⊢
      exact hline.last spent
  | some x =>
    rw [hx, Option.getD_some] at hhere
    refine ⟨fun later => ?_, fun spent => ?_⟩
    · rw [hx] at hlayout
      rw [hthere, hhere]
      exact congrArg (Option.getD · _) (hlayout later)
    · rw [hhere, (of_layout? hx).1] at spent
      exact absurd spent more

/-- On whole lines, a lexer that has used them up is at the start of a line. -/
structure OnWholeLines (l : Lexer) : Prop where
  whole : l.stream.Complete
  spent (h : l.stream.remaining = []) : l.atLineStart = true ∧ l.owed = 0

theorem onWholeLines_ofInput (ends : ∀ c ∈ text.getLast?, c = '\n') :
    (ofInput ⟨text, false⟩).OnWholeLines where
  whole := ⟨fun _ h => (Option.not_mem_none _ h).elim, ends, rfl, rfl⟩
  spent _ := ⟨rfl, rfl⟩

/-- The next token lies within the whole lines, or the lexer looks for it in what follows them. Then
it might as well start where they end. -/
theorem OnWholeLines.read (h : l.OnWholeLines) :
    StaysIn Lexer.read l ∨
      ∃ t : Stream, t.Complete ∧ t.remaining = [] ∧ Passes l.stream t ∧ l.atLineStart = true ∧
        l.owed = 0 := by
  by_cases howed : 0 < l.owed
  · have hread (m : Lexer) (hm : 0 < m.owed) : m.read = m.payDedent := by rw [Lexer.read, if_pos hm]
    refine .inl (StaysIn.of_eq (g := payDedent) ⟨fun _ => rfl, fun spent => ?_⟩ (hread l howed)
      fun _ => hread _ howed)
    rw [(h.spent spent).2] at howed
    exact absurd howed (Nat.lt_irrefl 0)
  · have paid : l.owed = 0 := by omega
    by_cases hstart : l.atLineStart = true
    · have hread (m : Lexer) (hm : m.owed = 0) (hs : m.atLineStart = true) :
          m.read = m.startLine := by
        rw [Lexer.read, hm, if_neg (Nat.lt_irrefl 0), if_pos hs]
      obtain ⟨t, ht, hpasses, hstays | hspent⟩ := exists_passes h.whole
      · have hcontent := hpasses.staysIn h.whole ht hstays
        exact .inl ((staysIn_startLine h.whole paid hcontent).of_eq (hread l paid hstart)
          fun _ => hread _ paid hstart)
      · exact .inr ⟨t, ht, hspent, hpasses, hstart, paid⟩
    · have hread (m : Lexer) (hm : m.owed = 0) (hs : ¬ m.atLineStart = true) :
          m.read = m.inLine := by
        rw [Lexer.read, hm, if_neg (Nat.lt_irrefl 0), if_neg hs]
      have hline := staysIn_inLine h.whole (fun hspent => hstart (h.spent hspent).1) paid
      exact .inl (hline.of_eq (hread l paid hstart) fun _ => hread _ paid hstart)

theorem OnWholeLines.read_after (h : l.OnWholeLines) (stays : StaysIn Lexer.read l) :
    l.read.after.OnWholeLines :=
  have hkeeps : l.stream.KeepsComplete l.read.after.stream := frame_read l
  ⟨hkeeps h.whole, fun spent => (stays.last spent).2⟩

/-- Without a failed request nothing is noted. -/
theorem next_of_met (h : l.read.after.stream.failed = false) : l.next = l.read := by
  rw [next, if_neg (by simp [h])]

theorem OnWholeLines.next_followedBy (h : l.OnWholeLines) (stays : StaysIn Lexer.read l)
    (later : Input) : (l.followedBy later).next = l.next.followedBy later := by
  have hmet := (h.read_after stays).whole.met
  rw [next_of_met hmet, ← stays.same later]
  refine next_of_met ?_
  rw [stays.same later]
  exact hmet

/-- Lexers that read the same token next, and whose requests have been met, deliver the same
tokens. -/
theorem lexemes_congr {m : Lexer} (read : l.read = m.read)
    (met : l.stream.failed = m.stream.failed) : l.lexemes = m.lexemes := by
  have hnext : l.next = m.next := by rw [next, next, read, met]
  rw [lexemes.eq_def, lexemes.eq_def m, hnext]

/-- The tokens of the whole lines, each with the lexer after it, and then those of what follows. The
lexer `e` has used up the whole lines. -/
theorem exists_lexemes_followedBy (h : l.OnWholeLines) :
    ∃ (common : List Lexeme) (e : Lexer), e.stream.Complete ∧ e.stream.remaining = [] ∧
      (∀ x ∈ common, x.after.stream.Complete) ∧
      ∀ later, (l.followedBy later).lexemes =
          common.map (·.followedBy later) ++ (e.followedBy later).lexemes ∧
        ∀ text, (l.followedBy later).Of text → (e.followedBy later).Of text := by
  induction hw : l.weight using Nat.strongRecOn generalizing l with
  | _ w ih =>
    rcases h.read with hstays | ⟨t, ht, hspent, hpasses, hstart, paid⟩
    · have hafter := h.read_after hstays
      have hmore : l.next.token.kind ≠ .endOfInput := fun hend => by
        have hdrained := drained_of_endOfInput h.whole.lineWise hend
        have hremaining := hdrained.remaining
        rw [after_next] at hremaining
        rw [token_next, (hstays.last hremaining).1] at hend
        cases hend
      obtain ⟨common, e, hwhole, hspent, hcommon, hlexemes⟩ :=
        ih l.next.after.weight (hw ▸ weight_next_lt hmore) (after_next l ▸ hafter) rfl
      refine ⟨l.next :: common, e, hwhole, hspent, ?_, fun later => ⟨?_, fun text htext => ?_⟩⟩
      · rw [List.forall_mem_cons]
        exact ⟨(after_next l ▸ hafter : l.next.after.OnWholeLines).whole, hcommon⟩
      · have hsame := h.next_followedBy hstays later
        have hmore' : (l.followedBy later).next.token.kind ≠ .endOfInput := by rwa [hsame]
        rw [lexemes_eq_cons hmore', hsame, List.map_cons, List.cons_append]
        exact congrArg _ (hlexemes later).1
      · refine (hlexemes later).2 text ?_
        have hof := htext.read
        rwa [← after_next, h.next_followedBy hstays later] at hof
    · refine ⟨[], { l with stream := t }, ht, hspent, fun x hx => (List.not_mem_nil hx).elim,
        fun later => ⟨?_, fun text htext => ?_⟩⟩
      · refine lexemes_congr ?_ ?_
        · exact read_of_firstContent (l := l.followedBy later) (t := t.followedBy later) paid hstart
            (hpasses.same later)
        · exact h.whole.met.trans ht.met.symm
      · have hreads : Stream.ReadsIn text _ (t.followedBy later) := hpasses.reads later _
        exact ⟨(hreads htext.stream).1, fun howed => absurd howed (by
          show ¬ 0 < l.owed
          rw [paid]
          exact Nat.lt_irrefl 0)⟩

end Lexer

/-! ### The end of the whole lines -/

namespace Source.Stream

variable {s : Stream} {text : List Char}

/-- The line of a stream counts the line ends that it has passed. -/
theorem Of.line (h : s.Of text) :
    s.location.line + s.remaining.count '\n' = text.count '\n' + 1 := by
  have hcounted := congrArg Location.line h.counted
  have hlines := congrArg List.length h.lines
  rw [List.length_append, List.length_modifyHead, length_splitOn_newline, length_splitOn_newline,
    List.length_reverse] at hlines
  rw [hcounted, Lines.count]
  dsimp only
  omega

/-- On the line after the whole lines nothing of them is left. -/
theorem Of.spent (h : s.Of text) (whole : s.Complete) (line : text.count '\n' < s.location.line) :
    s.remaining = [] := by
  have hnone : s.remaining.count '\n' = 0 := by
    have := h.line
    omega
  by_contra hne
  have hlast := List.getLast?_eq_some_getLast hne
  have hmem := List.getLast_mem hne
  rw [whole.ended _ hlast] at hmem
  exact List.count_eq_zero.1 hnone hmem

/-- A stream that has nothing left has requested everything and delivered all of it. -/
theorem unread_of_spent (spent : s.remaining = []) : s.pending = [] ∧ s.unread = [] :=
  List.append_eq_nil_iff.1 (normalise_eq_nil_iff.1 spent)

end Source.Stream

namespace Lexer

/-- The tokens of a text that starts with complete lines. Those in `common` do not depend on what
follows the lines; a line end among them that is placed below the last line leaves nothing of the
lines. The line ends among the other tokens are further down. -/
theorem exists_lexemes_prepend {text : List Char} (ends : ∀ c ∈ text.getLast?, c = '\n') :
    ∃ (common : List Lexeme) (e : Lexer),
      (∀ later, (ofInput (later.prepend text)).lexemes =
        common.map (·.followedBy later) ++ (e.followedBy later).lexemes) ∧
      (∀ x ∈ common, x.after.stream.failed = false ∧
        (x.token = ⟨.endOfLine, ⟨(normalise text).count '\n' + 1, 1⟩⟩ →
          x.after.stream.pending = [] ∧ x.after.stream.unread = [])) ∧
      ∀ later, ∀ x ∈ (e.followedBy later).lexemes, x.token.kind = .endOfLine →
        (normalise text).count '\n' + 1 < x.token.location.line := by
  have hwhole := onWholeLines_ofInput ends
  obtain ⟨common, e, hcomplete, hspent, hcommon, hlexemes⟩ := exists_lexemes_followedBy hwhole
  have halone := hlexemes ⟨[], false⟩
  rw [followedBy_nil hwhole.whole, followedBy_nil hcomplete] at halone
  refine ⟨common, e, fun later => (hlexemes later).1, fun x hx => ?_, fun later x hx hends => ?_⟩
  · refine ⟨(hcommon x hx).met, fun htoken => ?_⟩
    have hmem : x ∈ (ofInput ⟨text, false⟩).lexemes := by
      rw [halone.1]
      exact List.mem_append_left _
        (List.mem_map.2 ⟨x, hx, Lexeme.followedBy_nil (hcommon x hx)⟩)
    obtain ⟨hstands, hof⟩ := stands_of_mem (of_ofInput _) hmem
    have hline := congrArg Location.line (hstands.lineEnd (by rw [htoken])).1
    rw [htoken] at hline
    refine Stream.unread_of_spent (hof.stream.spent (hcommon x hx) ?_)
    exact Nat.lt_of_succ_le (Nat.le_of_eq hline)
  · have hof := (hlexemes later).2 _ (of_ofInput (later.prepend text))
    have hbelow := line_lt_of_lineEnd hof hx hends
    have hline := (halone.2 _ (of_ofInput _)).stream.line
    rw [hspent, List.count_nil, Nat.add_zero] at hline
    rw [← hline]
    exact hbelow

end Lexer

end Offside
