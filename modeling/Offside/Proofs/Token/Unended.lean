import Offside.Proofs.Source.LineEnd
import Offside.Proofs.Token.SingleLine

/-!
# A last line without an end

The end of the input ends the last line of a text as a line feed would. With a line feed after it,
the text has the same tokens up to the last ones, which close the blocks that are still open. Before
these there is one line end more, if the last line has content.

## Main definitions

* `Offside.Kind.closing`: the tokens at the end of the input.
* `Offside.Token.Unended`: tokens that are the same but for a line end before the last ones.
* `Offside.Lexer.ReadsUnended`: a token of a text, and of the text with a line feed after it.

## Main results

* `Offside.Lexer.Abreast.read_unended`: one token of both texts.
* `Offside.Lexer.unended_ofInput`: the tokens of both texts.
-/

namespace Offside

open Source Token

/-- The tokens at the end of the input where `n` blocks are open. -/
def Kind.closing (n : Nat) : List Kind := List.replicate n .dedent ++ [.endOfInput]

/-- The second tokens are the first ones, but there may be a line end before those that close the
blocks at the end of the input. The places of the latter may differ. -/
inductive Token.Unended : List Token → List Token → Prop
  | cons (t : Token) {ts ts' : List Token} (later : Unended ts ts') : Unended (t :: ts) (t :: ts')
  | closed {ts ts' : List Token} (n : Nat) (kinds : ts.map kind = Kind.closing n)
    (kinds' : ts'.map kind = Kind.closing n) : Unended ts ts'
  | lineEnd {ts ts' : List Token} (n : Nat) (kinds : ts.map kind = Kind.closing n)
    (kinds' : ts'.map kind = .endOfLine :: Kind.closing n) : Unended ts ts'

/-- Tokens that end where the input ends are related to themselves. -/
theorem Token.Unended.refl {ts : List Token} (h : (ts.map kind).getLast? = some .endOfInput) :
    Unended ts ts := by
  induction ts with
  | nil => cases h
  | cons t ts ih =>
    cases ts with
    | nil =>
      have hkinds : [t].map kind = Kind.closing 0 := congrArg (· :: []) (Option.some.inj h)
      exact .closed 0 hkinds hkinds
    | cons u ts =>
      rw [List.map_cons, List.map_cons, List.getLast?_cons_cons] at h
      exact .cons t (ih h)

namespace Source.Stream.Abreast

variable {d : Nat} {common : List Char} {s s' : Stream}

/-! ### Streams -/

/-- A run of characters of a class without the line feed ends before the last line feed. -/
theorem takeWhile_unended (h : Abreast d [] ['\n'] common s s') {p : Char → Bool}
    (hp : p '\n' = false) :
    (s'.takeWhile p).1 = (s.takeWhile p).1 ∧
      Abreast d [] ['\n'] (common.dropWhile p) (s.takeWhile p).2 (s'.takeWhile p).2 :=
  h.takeWhile_of (by rw [List.append_nil]) (takeWhile_append_stop hp common []).1

theorem peek_unended (h : Abreast d [] ['\n'] common s s') :
    s.peek = common.head? ∧ s'.peek = (common ++ ['\n']).head? := by
  rw [peek_eq_head?, peek_eq_head?, h.remaining, h.remaining', List.append_nil]
  exact ⟨rfl, rfl⟩

/-- Past the last line feed nothing is left of either text. -/
theorem skip_unended (h : Abreast d [] ['\n'] [] s s') :
    s.skip.LineWise ∧ s.skip.remaining = [] ∧ s'.skip.LineWise ∧ s'.skip.remaining = [] := by
  have hread := reads_skip_of_none h.lineWise (peek_eq_none_iff.2 h.remaining)
  have hread' := reads_skip h.lineWise' h.peek_unended.2
  exact ⟨hread.lineWise, hread.rest h.remaining, hread'.lineWise, hread'.rest h.remaining'⟩

/-- Up to the end of the line in hand. -/
theorem lineEnd_unended (h : Abreast d [] ['\n'] common s s') :
    ∃ cs, Abreast d [] ['\n'] cs (s.takeWhile (· ≠ '\n')).2 (s'.takeWhile (· ≠ '\n')).2 ∧
      (cs = [] ∨ ∃ ds, cs = '\n' :: ds) := by
  refine ⟨_, (h.takeWhile_unended (p := (· ≠ '\n')) (by decide)).2, ?_⟩
  have hstop := List.head?_dropWhile_not (fun c : Char => decide (c ≠ '\n')) common
  generalize common.dropWhile _ = cs at *
  cases cs with
  | nil => exact .inl rfl
  | cons c cs =>
    obtain rfl : c = '\n' := by simpa using hstop
    exact .inr ⟨cs, rfl⟩

/-- The next line with content is the same in both texts, or there is none in either. -/
theorem firstContent_unended (h : Abreast d [] ['\n'] common s s') :
    (∃ c cs, (Token.firstContent s').1 = (Token.firstContent s).1 ∧
      Abreast d [] ['\n'] (c :: cs) (Token.firstContent s).2 (Token.firstContent s').2) ∨
    (Token.firstContent s).2.remaining = [] ∧ (Token.firstContent s').2.remaining = [] := by
  induction hn : s.size using Nat.strongRecOn generalizing s s' common with
  | _ n ih =>
    obtain ⟨hrun, hmargin⟩ := h.takeWhile_unended isMarginChar_newline
    obtain ⟨hpeek, hpeek'⟩ := hmargin.peek_unended
    have hle := size_takeWhile_le Margin.isMarginChar s
    generalize common.dropWhile _ = cs at *
    cases cs with
    | nil =>
      right
      obtain ⟨-, -, hskip, hend⟩ := hmargin.skip_unended
      rw [firstContent_of_none hpeek, firstContent_of_newline hpeek']
      exact ⟨hmargin.remaining, (Lexer.firstContent_of_remaining hskip hend).2⟩
    | cons c cs =>
      by_cases hc : c = '\n'
      · subst hc
        rw [firstContent_of_newline hpeek, firstContent_of_newline hpeek']
        have hlt := size_skip_lt hpeek
        exact ih _ (by omega) hmargin.skip rfl
      · by_cases hcomment : c = '#'
        · subst hcomment
          rw [firstContent_of_comment hpeek, firstContent_of_comment hpeek']
          have hlt := size_skipComment_lt hpeek
          obtain ⟨ds, hline, rfl | ⟨ds, rfl⟩⟩ := hmargin.lineEnd_unended
          · obtain ⟨hskip, hend, hskip', hend'⟩ := hline.skip_unended
            exact .inr ⟨(Lexer.firstContent_of_remaining hskip hend).2,
              (Lexer.firstContent_of_remaining hskip' hend').2⟩
          · exact ih (skipComment _).2.size (by omega) hline.skip rfl
        · refine .inl ⟨c, cs, ?_⟩
          rw [firstContent_of_content hpeek ⟨hc, hcomment⟩,
            firstContent_of_content hpeek' ⟨hc, hcomment⟩, hrun]
          exact ⟨rfl, hmargin⟩

end Source.Stream.Abreast

/-! ### Tokens -/

/-- The end of the input, where `n` blocks are open. -/
def Lexeme.Finishes (x : Lexeme) (n : Nat) : Prop :=
  ∃ m place, x = Lexer.finish m place ∧ m.stream.LineWise ∧ m.stream.remaining = [] ∧ m.depth = n

namespace Lexer

variable {l l' : Lexer} {n : Nat} {common : List Char}

theorem kinds_of_finishes (h : l.read.Finishes n) : l.tokens.map Token.kind = Kind.closing n := by
  obtain ⟨m, place, hread, hs, hend, rfl⟩ := h
  exact kinds_of_finish hread hs hend

/-- At the start of a line after which no line has content. -/
theorem finishes_startLine (hs : l.stream.LineWise)
    (h : (firstContent l.stream).2.remaining = []) : l.startLine.Finishes l.depth := by
  obtain ⟨used, hread⟩ := reads_firstContent hs
  rw [startLine]
  dsimp only
  rw [if_pos (by simp [Stream.peek_eq_none_iff.2 h])]
  obtain ⟨s, place, hsw, hrem, hline⟩ :=
    inLine_of_remaining (l := { l with stream := (firstContent l.stream).2 }) hread.lineWise h
  exact ⟨_, place, hline, hsw, hrem, rfl⟩

/-- The next token of a text, and of the text with a line feed after it: the same token, or the end
of the input, and in the second text perhaps the end of the last line. -/
inductive ReadsUnended (x x' : Lexeme) : Prop
  | same (common : List Char) (token : x'.token = x.token) (more : x.token.kind ≠ .endOfInput)
    (after : Abreast 0 [] ['\n'] common x.after x'.after)
  | closed (n : Nat) (finishes : x.Finishes n) (finishes' : x'.Finishes n)
  | lineEnd (n : Nat) (finishes : x.Finishes n) (kind : x'.token.kind = .endOfLine)
    (finishes' : x'.after.read.Finishes n)

namespace Abreast

/-- The last line feed is the end of a line, and the end of the input follows. -/
private theorem endLine_unended {s s' : Stream} {place : Location}
    (h : l.Abreast 0 [] ['\n'] common l') (paid : l.owed = 0) (hs : s.LineWise)
    (hend : s.remaining = []) (hs' : s'.LineWise) (hend' : s'.remaining = []) :
    ReadsUnended (Lexer.finish { l with stream := s } place)
      (Lexer.endLine { l' with stream := s' }) := by
  refine .lineEnd l.depth ⟨_, place, rfl, hs, hend, rfl⟩ rfl ?_
  have hdepth : l'.depth = l.depth := congrArg List.length h.blocks
  have hread : (Lexer.endLine { l' with stream := s' }).after.read =
      Lexer.startLine (Lexer.endLine { l' with stream := s' }).after := by
    simp [Lexer.read, Lexer.endLine, h.owed.trans paid]
  rw [hread, ← hdepth]
  exact finishes_startLine hs' (firstContent_of_remaining hs' hend').2

/-- The end of a line that is not the last. -/
private theorem endLine_of_skip {s s' : Stream} {cs : List Char}
    (h : l.Abreast 0 [] ['\n'] common l') (hs : Stream.Abreast 0 [] ['\n'] cs s s') :
    ReadsUnended (Lexer.endLine { l with stream := s }) (Lexer.endLine { l' with stream := s' }) := by
  refine .same cs ?_ Kind.noConfusion ⟨hs, h.blocks, h.owed, rfl⟩
  exact congrArg (Token.mk .endOfLine) (h.withStream hs).place

private theorem inLine_unended (h : l.Abreast 0 [] ['\n'] common l') (paid : l.owed = 0) :
    ReadsUnended l.inLine l'.inLine := by
  obtain ⟨-, hgap⟩ := h.stream.takeWhile_unended isGap_newline
  have hfill := Stream.fill_takeWhile isGap h.stream.lineWise
  have hfill' := Stream.fill_takeWhile isGap h.stream.lineWise'
  obtain ⟨hpeek, hpeek'⟩ := hgap.peek_unended
  unfold Lexer.inLine
  dsimp only
  generalize (l.stream.takeWhile isGap).2 = s at *
  generalize (l'.stream.takeWhile isGap).2 = s' at *
  generalize common.dropWhile isGap = cs at *
  have hplace : s'.location.following = s.location.following := by rw [hgap.location]; rfl
  rw [hpeek, hpeek', hplace]
  cases cs with
  | nil =>
    obtain ⟨-, -, hskip, hend⟩ := hgap.skip_unended
    exact h.endLine_unended paid hgap.lineWise hgap.remaining hskip hend
  | cons c cs =>
    dsimp only [List.cons_append, List.head?_cons]
    by_cases hn : c = '\n'
    · subst hn
      rw [if_pos rfl, if_pos rfl]
      exact h.endLine_of_skip hgap.skip
    · rw [if_neg hn, if_neg hn]
      by_cases hc : c = '#'
      · rw [if_pos hc, if_pos hc, skipComment, skipComment]
        dsimp only
        obtain ⟨ds, hline, rfl | ⟨ds, rfl⟩⟩ := hgap.lineEnd_unended
        · obtain ⟨hskip, hend, hskip', hend'⟩ := hline.skip_unended
          obtain ⟨hlast, hlast'⟩ := hline.peek_unended
          rw [hlast, hlast']
          exact h.endLine_unended paid hskip hend hskip' hend'
        · obtain ⟨hnext, hnext'⟩ := hline.peek_unended
          rw [hnext, hnext']
          exact h.endLine_of_skip hline.skip
      · rw [if_neg hc, if_neg hc]
        obtain ⟨hkind, hfirst, hscan, -⟩ := hgap.scan_of hfill hfill' hn
          (by rw [List.append_nil, List.append_nil]) (tokenOf_lineEnd cs [] c)
        refine .same _ ?_ ?_ (h.withStream hscan)
        · show Token.mk (scan c s').1 _ = ⟨(scan c s).1, _⟩
          rw [hkind]
        · show (scan c s).1 ≠ .endOfInput
          rw [hfirst]
          exact (tokenOf_ne_end c cs).2

private theorem startLine_unended (h : l.Abreast 0 [] ['\n'] common l') (paid : l.owed = 0) :
    ReadsUnended l.startLine l'.startLine := by
  rcases h.stream.firstContent_unended with ⟨c, cs, hmargin, hcontent⟩ | ⟨hend, hend'⟩
  · obtain ⟨hpeek, hpeek'⟩ := hcontent.peek_unended
    rw [Lexer.startLine, Lexer.startLine]
    dsimp only
    rw [hmargin, hpeek, hpeek', if_neg (by simp), if_neg (by simp)]
    generalize (firstContent l.stream).1 = margin
    generalize (firstContent l.stream).2 = s at *
    generalize (firstContent l'.stream).2 = s' at *
    have hline : Abreast 0 [] ['\n'] (c :: cs) { l with stream := s, atLineStart := false }
        { l' with stream := s', atLineStart := false } := ⟨hcontent, h.blocks, h.owed, rfl⟩
    rcases hline.layout? with ⟨hnone, hnone'⟩ | ⟨x, x', hx, hx', hkind, hafter⟩
    · rw [hnone, hnone']
      exact hline.inLine_unended paid
    · obtain ⟨-, hplace, hlayout⟩ := of_layout? hx
      obtain ⟨-, hplace', -⟩ := of_layout? hx'
      rw [hx, hx', Option.getD_some, Option.getD_some]
      refine .same _ (congrArg₂ Token.mk hkind ?_) (fun hk => ?_) hafter
      · rw [hplace, hplace', hline.place]
        rfl
      · rw [hk] at hlayout
        cases hlayout
  · have hdepth : l'.depth = l.depth := congrArg List.length h.blocks
    exact .closed l.depth (finishes_startLine h.stream.lineWise hend)
      (hdepth ▸ finishes_startLine h.stream.lineWise' hend')

/-- One token of a text, and of the text with a line feed after it. -/
theorem read_unended (h : l.Abreast 0 [] ['\n'] common l') : ReadsUnended l.read l'.read := by
  unfold Lexer.read
  rw [h.owed, h.atLineStart]
  split
  · refine .same common ?_ Kind.noConfusion
      ⟨h.stream, h.blocks, congrArg (· - 1) h.owed, h.atLineStart⟩
    exact congrArg (Token.mk .dedent) h.place
  · next howed =>
    have paid : l.owed = 0 := by omega
    split
    · exact h.startLine_unended paid
    · exact h.inLine_unended paid

/-- All tokens of a text, and of the text with a line feed after it. -/
theorem tokens_unended (h : l.Abreast 0 [] ['\n'] common l') : Token.Unended l.tokens l'.tokens := by
  induction hw : l.weight using Nat.strongRecOn generalizing l l' common with
  | _ w ih =>
    cases h.read_unended with
    | same common token more after =>
      rw [tokens_eq_cons more, tokens_eq_cons (l := l') (by rwa [token]), token]
      have hlt := weight_next_lt (l := l) (by rwa [token_next])
      rw [after_next, hw] at hlt
      exact .cons _ (ih _ hlt after rfl)
    | closed n finishes finishes' =>
      exact .closed n (kinds_of_finishes finishes) (kinds_of_finishes finishes')
    | lineEnd n finishes kind finishes' =>
      refine .lineEnd n (kinds_of_finishes finishes) ?_
      rw [tokens_eq_cons (l := l') (by rw [kind]; exact Kind.noConfusion), List.map_cons, kind,
        kinds_of_finishes finishes']

end Abreast

/-- A line feed after a text adds at most one line end to its tokens. After a carriage return it
would not be a line end of its own. -/
theorem unended_ofInput {text : List Char} (h : text.getLast? ≠ some '\r') (broken : Bool) :
    Token.Unended (ofInput ⟨text, broken⟩).tokens (ofInput ⟨text ++ ['\n'], broken⟩).tokens := by
  have habreast : (ofInput ⟨text, broken⟩).Abreast 0 [] ['\n'] (normalise text)
      (ofInput ⟨text ++ ['\n'], broken⟩) := by
    refine (fresh_ofInput _).abreast (fresh_ofInput _) (List.append_nil _).symm ?_ rfl
    show normalise (text ++ ['\n']) = _
    rw [normalise_append, if_neg h]
    rfl
  exact habreast.tokens_unended

end Lexer

end Offside
