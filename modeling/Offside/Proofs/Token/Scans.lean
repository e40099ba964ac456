import Offside.Proofs.Token.Layout

/-!
# Characters that fall into tokens

The characters of a line fall into tokens with gaps between them. Where they do, the lexer reads
these tokens, on this line and on every other one.

## Main definitions

* `Offside.Token.Scans`: characters that fall into tokens of given kinds.
* `Offside.Token.HasComment`: a comment starts between two tokens.

## Main results

* `Offside.Token.Scans.append`: a delimiter may follow.
* `Offside.Token.exists_scans`: a line without a comment falls into tokens.
* `Offside.Lexer.kinds_of_scans`: the lexer reads the tokens that the characters fall into.
* `Offside.Lexer.read_of_margin`: the lexer at the start of a line that is not blank.
-/

namespace Offside

open Source Token

namespace Token

/-- The characters up to `rest` fall into tokens of the given kinds and gaps between them. -/
inductive Scans : List Char → List Kind → List Char → Prop
  | done (cs : List Char) : Scans cs [] cs
  | gap {c : Char} {cs rest : List Char} {kinds : List Kind} (hc : isGap c)
      (h : Scans cs kinds rest) : Scans (c :: cs) kinds rest
  | token {c : Char} {cs rest : List Char} {kinds : List Kind} (hgap : isGap c = false)
      (hc : c ≠ '\n' ∧ c ≠ '#') (h : Scans (tokenOf c cs).2 kinds rest) :
      Scans (c :: cs) ((tokenOf c cs).1 :: kinds) rest

variable {cs rest rest' : List Char} {kinds kinds' : List Kind}

theorem Scans.trans (h : Scans cs kinds rest) (k : Scans rest kinds' rest') :
    Scans cs (kinds ++ kinds') rest' := by
  induction h with
  | done cs => exact k
  | gap hc _ ih => exact .gap hc (ih k)
  | token hgap hc _ ih => exact .token hgap hc (ih k)

/-- Tokens that are not refused stay the same when a delimiter and more characters follow. -/
theorem Scans.append {d : Char} (hd : isDelimiter d) (more : List Char) (h : Scans cs kinds rest)
    (valid : ∀ k ∈ kinds, k.isInvalid = false) :
    Scans (cs ++ d :: more) kinds (rest ++ d :: more) := by
  induction h with
  | done cs => exact .done _
  | gap hc _ ih => exact .gap hc (ih valid)
  | @token c cs rest kinds hgap hc _ ih =>
    have happend := tokenOf_append hd more (valid _ List.mem_cons_self)
    have ih := ih fun k hk => valid k (List.mem_cons_of_mem _ hk)
    have hsplit : Scans (c :: (cs ++ d :: more)) ((tokenOf c (cs ++ d :: more)).1 :: kinds)
        (rest ++ d :: more) := .token hgap hc (by rwa [happend])
    rwa [happend] at hsplit

/-- The same where a delimiter follows, if anything does. -/
theorem Scans.append_of_head? {more : List Char} (h : Scans cs kinds [])
    (valid : ∀ k ∈ kinds, k.isInvalid = false) (ends : ∀ d ∈ more.head?, isDelimiter d) :
    Scans (cs ++ more) kinds more := by
  cases more with
  | nil => rwa [List.append_nil]
  | cons d ds => exact h.append (ends d rfl) ds valid

/-! ### Comments -/

theorem closeOf_suffix (c : Char) (cs : List Char) : (closeOf c cs).2 <:+ cs := by
  rw [closeOf]
  split
  · exact List.tail_suffix cs
  · exact List.suffix_refl cs

theorem characterOf_suffix (cs : List Char) : (characterOf cs).2 <:+ cs := by
  unfold characterOf
  split
  · exact List.suffix_refl _
  · next c cs =>
    split
    · exact List.suffix_refl _
    · split
      · exact List.suffix_cons c cs
      · split
        · refine List.IsSuffix.trans ?_ (List.suffix_cons c cs)
          unfold escapeOf
          split
          · exact List.suffix_refl _
          · next letter cs =>
            split
            · exact List.suffix_refl _
            · split
              · exact (closeOf_suffix _ cs).trans (List.suffix_cons letter cs)
              · exact List.suffix_cons letter cs
        · exact (closeOf_suffix c cs).trans (List.suffix_cons c cs)

theorem symbolOf_suffix (c : Char) (cs : List Char) : (symbolOf c cs).2 <:+ cs := by
  rw [symbolOf]
  split
  · exact List.tail_suffix cs
  · split
    · exact List.suffix_refl cs
    · exact List.suffix_refl cs

/-- A token uses up its first character at least. -/
theorem tokenOf_suffix (c : Char) (cs : List Char) : (tokenOf c cs).2 <:+ cs := by
  rw [tokenOf]
  split
  · exact characterOf_suffix cs
  · split
    · next h =>
      have hc : isNumberChar c := by
        simp only [startsNumber, Bool.or_eq_true, Bool.and_eq_true, isNumberChar] at h ⊢
        exact h.imp id And.left
      rw [numberOf, List.dropWhile_cons_of_pos hc]
      exact List.dropWhile_suffix _
    · split
      · next h =>
        rw [wordOf, List.dropWhile_cons_of_pos (isWordChar_of_isWordStart h)]
        exact List.dropWhile_suffix _
      · exact symbolOf_suffix c cs

theorem Scans.suffix (h : Scans cs kinds rest) : rest <:+ cs := by
  induction h with
  | done cs => exact List.suffix_refl cs
  | gap _ _ ih => exact ih.trans (List.suffix_cons _ _)
  | token _ _ _ ih => exact (ih.trans (tokenOf_suffix _ _)).trans (List.suffix_cons _ _)

/-- A comment starts after some tokens of a line. -/
def HasComment (cs : List Char) : Prop := ∃ kinds rest, Scans cs kinds ('#' :: rest)

/-- Without the sign of a comment there is none; the sign may also stand in a literal. -/
theorem not_hasComment_of_not_mem (h : '#' ∉ cs) : ¬ HasComment cs := by
  rintro ⟨kinds, rest, hscans⟩
  exact h (hscans.suffix.subset List.mem_cons_self)

/-- A line without a comment falls into tokens. -/
theorem exists_scans (hn : '\n' ∉ cs) (hc : ¬ HasComment cs) : ∃ kinds, Scans cs kinds [] := by
  induction hlen : cs.length using Nat.strongRecOn generalizing cs with
  | _ n ih =>
    cases cs with
    | nil => exact ⟨[], .done []⟩
    | cons c cs =>
      obtain ⟨hcn, hn⟩ := List.ne_and_not_mem_of_not_mem_cons hn
      cases hgap : isGap c with
      | true =>
        have hc' : ¬ HasComment cs := fun ⟨kinds, rest, h⟩ => hc ⟨kinds, rest, .gap hgap h⟩
        obtain ⟨kinds, h⟩ := ih _ (by simp [← hlen]) hn hc' rfl
        exact ⟨kinds, .gap hgap h⟩
      | false =>
        have hcc : c ≠ '#' := by
          rintro rfl
          exact hc ⟨[], cs, .done _⟩
        have hsuffix := tokenOf_suffix c cs
        have hc' : ¬ HasComment (tokenOf c cs).2 :=
          fun ⟨kinds, rest, h⟩ => hc ⟨_, rest, .token hgap ⟨hcn.symm, hcc⟩ h⟩
        have hlt : (tokenOf c cs).2.length < n := by
          have := hsuffix.length_le
          rw [← hlen, List.length_cons]
          omega
        obtain ⟨kinds, h⟩ := ih _ hlt (fun hm => hn (hsuffix.subset hm)) hc' rfl
        exact ⟨_, .token hgap ⟨hcn.symm, hcc⟩ h⟩

end Token

namespace Lexer

variable {l : Lexer}

/-- A gap before a token makes no difference. -/
theorem tokens_of_gap (hl : l.InLine) {c : Char} {cs : List Char}
    (h : l.stream.remaining = c :: cs) (hc : isGap c) :
    ∃ s, s.LineWise ∧ s.remaining = cs ∧ l.tokens = { l with stream := s }.tokens := by
  have hpeek : l.stream.peek = some c := by rw [Stream.peek_eq_head?, h, List.head?_cons]
  have hl' : InLine { l with stream := l.stream.skip } :=
    ⟨Stream.lineWise_skip hl.lineWise, hl.paid, hl.inside⟩
  refine ⟨l.stream.skip, hl'.lineWise, ?_, tokens_congr ?_⟩
  · rw [Stream.remaining_skip hl.lineWise, h, List.tail_cons]
  · rw [hl.read_eq, hl'.read_eq, inLine, inLine, Stream.takeWhile_of_peek hpeek hc]
    rfl

/-- The lexer reads the tokens that the characters fall into. -/
theorem kinds_of_scans (hl : l.InLine) {cs rest : List Char} {kinds : List Kind}
    (h : Scans cs kinds rest) (hcs : l.stream.remaining = cs) :
    ∃ s, s.LineWise ∧ s.remaining = rest ∧
      l.tokens.map Token.kind = kinds ++ { l with stream := s }.tokens.map Token.kind := by
  induction h generalizing l with
  | done cs => exact ⟨l.stream, hl.lineWise, hcs, rfl⟩
  | gap hc _ ih =>
    obtain ⟨s, hs, hrest, htokens⟩ := tokens_of_gap hl hcs hc
    obtain ⟨t, ht, hrest', hkinds⟩ :=
      ih (l := { l with stream := s }) ⟨hs, hl.paid, hl.inside⟩ hrest
    exact ⟨t, ht, hrest', by rw [htokens, hkinds]⟩
  | @token c cs rest kinds hgap hc _ ih =>
    have hdrop : l.stream.remaining.dropWhile isGap = c :: cs := by
      rw [hcs, List.dropWhile_cons_of_neg (by simp [hgap])]
    obtain ⟨s, used, -, hreads, hrest, -, htokens⟩ := tokens_of_scan hl hdrop hc.1 hc.2
    obtain ⟨t, ht, hrest', hkinds⟩ :=
      ih (l := { l with stream := s }) ⟨hreads.lineWise, hl.paid, hl.inside⟩ hrest
    exact ⟨t, ht, hrest', by rw [htokens, List.map_cons, hkinds, List.cons_append]⟩

/-- The same up to the end of a line. -/
theorem kinds_of_scans_line (hl : l.InLine) {more : List Char} {kinds : List Kind}
    (h : Scans l.stream.remaining kinds ('\n' :: more)) :
    ∃ s, s.LineWise ∧ s.remaining = more ∧
      l.tokens.map Token.kind =
        kinds ++ .endOfLine ::
          { l with stream := s, atLineStart := true }.tokens.map Token.kind := by
  obtain ⟨s, hs, hrest, hkinds⟩ := kinds_of_scans hl h rfl
  have hstop : s.remaining.dropWhile isGap = '\n' :: more := by
    rw [hrest, List.dropWhile_cons_of_neg (by decide)]
  have hline : s.remaining.dropWhile (· ≠ '\n') = '\n' :: more := by
    rw [hrest, List.dropWhile_cons_of_neg (by decide)]
  obtain ⟨t, hreads, htokens⟩ := tokens_of_lineEnd (l := { l with stream := s })
    ⟨hs, hl.paid, hl.inside⟩ (fun c hc => .inl (by simpa [hstop] using hc.symm)) hline
  refine ⟨t, hreads.lineWise, hreads.rest ?_, ?_⟩
  · rw [hrest]
    simp
  · rw [hkinds, htokens]
    rfl

/-- The same up to the end of the input. -/
theorem kinds_of_scans_end (hl : l.InLine) {kinds : List Kind}
    (h : Scans l.stream.remaining kinds []) :
    l.tokens.map Token.kind = kinds ++ List.replicate l.depth .dedent ++ [.endOfInput] := by
  obtain ⟨s, hs, hrest, hkinds⟩ := kinds_of_scans hl h rfl
  have hend := kinds_of_inputEnd (l := { l with stream := s }) ⟨hs, hl.paid, hl.inside⟩
    (by simp [hrest]) (by simp [hrest])
  rw [hkinds, hend, List.append_assoc]
  rfl

/-! ### The start of a line -/

/-- The margin of a line whose first character after it is neither blank nor the start of a
comment. -/
theorem read_of_margin (hs : l.stream.LineWise) (paid : l.owed = 0) (start : l.atLineStart = true)
    {run cs : List Char} {c : Char} (h : l.stream.remaining = run ++ c :: cs)
    (hrun : ∀ d ∈ run, Margin.isMarginChar d) (hc : Margin.isMarginChar c = false)
    (hn : c ≠ '\n' ∧ c ≠ '#') :
    ∃ s, s.LineWise ∧ s.remaining = c :: cs ∧
      l.read = ({ l with stream := s, atLineStart := false }.layout? (Margin.ofRun run)).getD
        { l with stream := s, atLineStart := false }.inLine := by
  have htake : l.stream.remaining.takeWhile Margin.isMarginChar = run := by
    rw [h, List.takeWhile_append_of_pos hrun, List.takeWhile_cons_of_neg (by simp [hc]),
      List.append_nil]
  have hdrop : l.stream.remaining.dropWhile Margin.isMarginChar = c :: cs := by
    rw [h, List.dropWhile_append_of_pos hrun, List.dropWhile_cons_of_neg (by simp [hc])]
  have hrem := Stream.remaining_takeWhile Margin.isMarginChar hs
  have hfst := Stream.takeWhile_fst Margin.isMarginChar hs
  have hwise := Stream.lineWise_takeWhile Margin.isMarginChar hs
  rw [hdrop] at hrem
  rw [htake] at hfst
  have hpeek : (l.stream.takeWhile Margin.isMarginChar).2.peek = some c := by
    rw [Stream.peek_eq_head?, hrem, List.head?_cons]
  have hcontent : firstContent l.stream =
      (Margin.ofRun run, (l.stream.takeWhile Margin.isMarginChar).2) := by
    rw [firstContent.eq_def]
    dsimp only
    split
    · next hnone =>
      rw [hpeek] at hnone
      cases hnone
    · next d hd =>
      obtain rfl : c = d := Option.some.inj (hpeek.symm.trans hd)
      rw [if_neg hn.1, if_neg hn.2, hfst]
  refine ⟨(l.stream.takeWhile Margin.isMarginChar).2, hwise, hrem, ?_⟩
  have hread : l.read = l.startLine := by simp [read, paid, start]
  rw [hread, startLine, hcontent]
  simp [hpeek]

end Lexer

end Offside
