import Offside.Proofs.Token.Characters
import Offside.Token.Lexer

/-!
# The tokens of one line

Once the margin of a line is dealt with, the lexer reads the line token by token, and nothing that
it meets there is layout. What remains is a line end, with or without a comment before it, or the
end of the input, which closes the open blocks.

## Main definitions

* `Offside.Lexer.tokens`: the tokens from here to the end of the input.
* `Offside.Kind.isLayout`: the kinds of token that margins give rise to.
* `Offside.Token.IsWord`: a token in the middle of a line.
* `Offside.Lexer.InLine`: the lexer is past a margin and owes nothing.

## Main results

* `Offside.Lexer.tokens_of_scan`: a token on the line.
* `Offside.Lexer.tokens_of_lineEnd`, `Offside.Lexer.tokens_of_inputEnd`: the end of the line.
* `Offside.Lexer.exists_body`: a whole line holds words, unless it is blank, and no layout.
-/

namespace Offside

open Source Token

/-- Kinds of token that the margin of a line, or the end of the input, gives rise to. -/
def Kind.isLayout : Kind → Bool
  | indent | dedent | invalid .mixedMargin | invalid .unmatchedDedent => true
  | _ => false

/-- The end of a line is no layout. -/
theorem Kind.ne_endOfLine_of_isLayout {kind : Kind} (h : kind.isLayout) : kind ≠ .endOfLine := by
  rintro rfl
  cases h

/-- Whether a token belongs to line `n`. The end of a line is placed at the start of the next. -/
def Token.OnLine (n : Nat) (t : Token) : Prop :=
  if t.kind = .endOfLine then t.location = ⟨n + 1, 1⟩ else t.location.line = n

namespace Token

/-- A token in the middle of line `n`, which some characters of the line form. It may be refused. -/
structure IsWord (n : Nat) (t : Token) : Prop where
  plain : t.kind.isLayout = false
  noEnd : t.kind ≠ .endOfLine ∧ t.kind ≠ .endOfInput
  line : t.location.line = n

theorem IsWord.onLine {n : Nat} {t : Token} (h : t.IsWord n) : t.OnLine n := by
  rw [OnLine, if_neg h.noEnd.1]
  exact h.line

/-! ### No layout inside a line -/

theorem isLayout_ofWord (word : String) : (Kind.ofWord word).isLayout = false := by
  rw [Kind.ofWord]
  split <;> rfl

theorem isLayout_closeOf (c : Char) (cs : List Char) : (closeOf c cs).1.isLayout = false := by
  rw [closeOf]
  split <;> rfl

theorem isLayout_characterOf (cs : List Char) : (characterOf cs).1.isLayout = false := by
  unfold characterOf escapeOf
  repeat' split
  all_goals first
    | rfl
    | exact isLayout_closeOf _ _

theorem isLayout_symbolOf (c : Char) (cs : List Char) : (symbolOf c cs).1.isLayout = false := by
  rw [symbolOf]
  repeat' split
  all_goals rfl

theorem isLayout_numberKind (run : List Char) : (numberKind run).isLayout = false := by
  rw [numberKind]
  split <;> rfl

/-- What the characters of a line form is never layout. -/
theorem isLayout_tokenOf (c : Char) (cs : List Char) : (tokenOf c cs).1.isLayout = false := by
  rw [tokenOf]
  repeat' split
  · exact isLayout_characterOf cs
  · exact isLayout_numberKind _
  · exact isLayout_ofWord _
  · exact isLayout_symbolOf c cs

/-- Nor is it the end of a line or of the input. -/
theorem tokenOf_ne_end (c : Char) (cs : List Char) :
    (tokenOf c cs).1 ≠ .endOfLine ∧ (tokenOf c cs).1 ≠ .endOfInput := by
  unfold tokenOf characterOf escapeOf closeOf symbolOf numberOf numberKind wordOf Kind.ofWord
  repeat' split
  all_goals exact ⟨Kind.noConfusion, Kind.noConfusion⟩

/-- Skipping a comment reads the rest of the line and its end, if it has one. -/
theorem reads_skipComment {s : Stream} (hs : s.LineWise) :
    (∃ more, s.remaining.dropWhile (· ≠ '\n') = '\n' :: more ∧ (skipComment s).1 = true ∧
      s.Reads (s.remaining.takeWhile (· ≠ '\n') ++ ['\n']) (skipComment s).2) ∨
    s.remaining.dropWhile (· ≠ '\n') = [] ∧ (skipComment s).1 = false ∧
      s.Reads (s.remaining.takeWhile (· ≠ '\n')) (skipComment s).2 := by
  have hread := Stream.reads_takeWhile (· ≠ '\n') hs
  have hrem := Stream.remaining_takeWhile (· ≠ '\n') hs
  rw [skipComment]
  dsimp only
  cases hp : (s.takeWhile (· ≠ '\n')).2.peek with
  | none =>
    refine .inr ⟨?_, rfl, ?_⟩
    · rw [← hrem, Stream.peek_eq_none_iff.1 hp]
    · simpa using hread.trans (Stream.reads_skip_of_none hread.lineWise hp)
  | some c =>
    have hc := Stream.remaining_eq_cons hp
    obtain rfl : c = '\n' := by
      have := List.head?_dropWhile_not (fun c : Char => decide (c ≠ '\n')) s.remaining
      rw [← hrem, hc] at this
      simpa using this
    refine .inl ⟨_, hrem.symm.trans hc, rfl, ?_⟩
    exact hread.trans (Stream.reads_skip hread.lineWise hp)

end Token

/-- A gap lies on one line. -/
theorem takeWhile_gap_append (cs : List Char) :
    cs.takeWhile isGap ++ (cs.dropWhile isGap).takeWhile (· ≠ '\n') = cs.takeWhile (· ≠ '\n') ∧
      (cs.dropWhile isGap).dropWhile (· ≠ '\n') = cs.dropWhile (· ≠ '\n') := by
  induction cs with
  | nil => exact ⟨rfl, rfl⟩
  | cons c cs ih =>
    by_cases hc : isGap c
    · have hn : c ≠ '\n' := by
        rintro rfl
        exact absurd hc (by decide)
      simpa [hc, hn] using ih
    · simp [hc]

/-- What follows characters of one line is cut at the same line feed. -/
theorem takeWhile_append_of_line {cs : List Char} (h : '\n' ∉ cs) (more : List Char) :
    (cs ++ more).takeWhile (· ≠ '\n') = cs ++ more.takeWhile (· ≠ '\n') ∧
      (cs ++ more).dropWhile (· ≠ '\n') = more.dropWhile (· ≠ '\n') := by
  have hcs : ∀ c ∈ cs, decide (c ≠ '\n') = true := by
    intro c hc
    simpa using fun he : c = '\n' => h (he ▸ hc)
  exact ⟨List.takeWhile_append_of_pos hcs, List.dropWhile_append_of_pos hcs⟩

namespace Lexer

/-- The tokens from here to the end of the input. -/
def tokens (l : Lexer) : List Token := l.lexemes.map Lexeme.token

theorem token_next (l : Lexer) : l.next.token = l.read.token := by
  unfold next
  dsimp only
  split <;> rfl

theorem after_next (l : Lexer) : l.next.after = l.read.after := by
  unfold next
  dsimp only
  split <;> rfl

theorem tokens_eq_cons {l : Lexer} (h : l.read.token.kind ≠ .endOfInput) :
    l.tokens = l.read.token :: l.read.after.tokens := by
  rw [tokens, lexemes.eq_def, dif_neg (by rwa [token_next]), List.map_cons, token_next,
    after_next]
  rfl

theorem tokens_eq_singleton {l : Lexer} (h : l.read.token.kind = .endOfInput) :
    l.tokens = [l.read.token] := by
  rw [tokens, lexemes.eq_def, dif_pos (by rwa [token_next]), List.map_singleton, token_next]

/-! ### Reading on a line -/

/-- The lexer is past the margin of a line and owes no dedent. -/
structure InLine (l : Lexer) : Prop where
  lineWise : l.stream.LineWise
  paid : l.owed = 0
  inside : l.atLineStart = false

theorem InLine.read_eq {l : Lexer} (hl : l.InLine) : l.read = l.inLine := by
  simp [read, hl.paid, hl.inside]

theorem isGap_newline : isGap '\n' = false := by decide

section

variable {l : Lexer} (hl : l.InLine)
include hl

/-- The stream after the gap before the next token. -/
private theorem reads_gap :
    l.stream.Reads (l.stream.remaining.takeWhile isGap) (l.stream.takeWhile isGap).2 ∧
      (l.stream.takeWhile isGap).2.remaining = l.stream.remaining.dropWhile isGap :=
  ⟨Stream.reads_takeWhile isGap hl.lineWise, Stream.remaining_takeWhile isGap hl.lineWise⟩

/-- Reading a token on the line: it stands where the gap before it ends, and stays on the line. -/
theorem read_of_scan {c : Char} {cs : List Char}
    (h : l.stream.remaining.dropWhile isGap = c :: cs) (hn : c ≠ '\n') (hc : c ≠ '#') :
    ∃ s used, '\n' ∉ used ∧ l.stream.Reads used s ∧ s.remaining = (tokenOf c cs).2 ∧
      s.size < l.stream.size ∧
      l.read = l.deliver (l.stream.location.after (l.stream.remaining.takeWhile isGap)).following
        (tokenOf c cs).1 s := by
  obtain ⟨hgap, hrem⟩ := reads_gap hl
  have hfill := Stream.fill_takeWhile isGap hl.lineWise
  have hloc := hgap.location
  have hsize := Stream.size_takeWhile_le isGap l.stream
  have hread : l.read = _ := hl.read_eq
  unfold inLine at hread
  dsimp only at hread
  generalize (l.stream.takeWhile isGap).2 = s at *
  have hp : s.peek = some c := by rw [Stream.peek_eq_head?, hrem, h, List.head?_cons]
  have hagree := agrees_scan hgap.lineWise hfill hp hn
  rw [hrem, h, List.tail_cons] at hagree
  obtain ⟨used, hused, hreads⟩ := hagree.reads
  simp only [hp, hn, hc, if_false] at hread
  refine ⟨(scan c s).2, _ ++ used, ?_, hgap.trans hreads, hagree.rest, ?_, ?_⟩
  · rw [List.mem_append, not_or]
    exact ⟨not_mem_takeWhile isGap_newline _, hused⟩
  · exact Nat.lt_of_lt_of_le (size_scan_lt hp) hsize
  · rw [hread, ← hloc, ← hagree.kind]

/-- The same, as the next of the tokens. -/
theorem tokens_of_scan {c : Char} {cs : List Char}
    (h : l.stream.remaining.dropWhile isGap = c :: cs) (hn : c ≠ '\n') (hc : c ≠ '#') :
    ∃ s used, '\n' ∉ used ∧ l.stream.Reads used s ∧ s.remaining = (tokenOf c cs).2 ∧
      s.size < l.stream.size ∧
      l.tokens = ⟨(tokenOf c cs).1,
        (l.stream.location.after (l.stream.remaining.takeWhile isGap)).following⟩ ::
          { l with stream := s }.tokens := by
  obtain ⟨s, used, hused, hreads, hrest, hsize, hread⟩ := read_of_scan hl h hn hc
  refine ⟨s, used, hused, hreads, hrest, hsize, ?_⟩
  have hne : l.read.token.kind ≠ .endOfInput := by
    rw [hread]
    exact (tokenOf_ne_end c cs).2
  rw [tokens_eq_cons hne, hread]
  rfl

/-- Reading the end of a line whose rest is blank or a comment. -/
theorem read_of_lineEnd {more : List Char}
    (hblank : ∀ c, (l.stream.remaining.dropWhile isGap).head? = some c → c = '\n' ∨ c = '#')
    (h : l.stream.remaining.dropWhile (· ≠ '\n') = '\n' :: more) :
    ∃ s, l.stream.Reads (l.stream.remaining.takeWhile (· ≠ '\n') ++ ['\n']) s ∧
      s.location = ⟨l.stream.location.line + 1, 0⟩ ∧ l.read = endLine { l with stream := s } := by
  obtain ⟨hgap, hrem⟩ := reads_gap hl
  have hread : l.read = _ := hl.read_eq
  unfold inLine at hread
  dsimp only at hread
  generalize (l.stream.takeWhile isGap).2 = s at *
  -- What is delivered up to the line feed, whether or not it passes through a comment.
  have hline : s.remaining.dropWhile (· ≠ '\n') = '\n' :: more ∧
      l.stream.remaining.takeWhile isGap ++ s.remaining.takeWhile (· ≠ '\n') =
        l.stream.remaining.takeWhile (· ≠ '\n') := by
    have := takeWhile_gap_append l.stream.remaining
    rw [hrem]
    exact ⟨this.2.trans h, this.1⟩
  have hend {t : Stream} (ht : s.Reads (s.remaining.takeWhile (· ≠ '\n') ++ ['\n']) t)
      (he : l.read = endLine { l with stream := t }) :
      ∃ s, l.stream.Reads (l.stream.remaining.takeWhile (· ≠ '\n') ++ ['\n']) s ∧
        s.location = ⟨l.stream.location.line + 1, 0⟩ ∧ l.read = endLine { l with stream := s } := by
    have hall := hgap.trans ht
    rw [← List.append_assoc, hline.2] at hall
    refine ⟨t, hall, ?_, he⟩
    rw [hall.location, Location.after_append,
      Location.after_of_line (not_mem_takeWhile (p := (· ≠ '\n')) (by decide) _)]
    rfl
  cases hp : s.peek with
  | none =>
    rw [Stream.peek_eq_none_iff.1 hp] at hline
    exact absurd hline.1 (by simp)
  | some c =>
    have hs := Stream.remaining_eq_cons hp
    simp only [hp] at hread
    by_cases hn : c = '\n'
    · subst hn
      rw [if_pos rfl] at hread
      refine hend ?_ hread
      rw [hs]
      exact Stream.reads_skip hgap.lineWise hp
    · have hc : c = '#' := by
        refine (hblank c ?_).resolve_left hn
        rw [← hrem, ← Stream.peek_eq_head?, hp]
      rw [if_neg hn, if_pos hc] at hread
      rcases reads_skipComment hgap.lineWise with ⟨_, -, hb, hcomment⟩ | ⟨hnone, -⟩
      · rw [hb, if_pos rfl] at hread
        exact hend hcomment hread
      · rw [hline.1] at hnone
        exact absurd hnone (List.cons_ne_nil _ _)

/-- The same, as the next of the tokens. -/
theorem tokens_of_lineEnd {more : List Char}
    (hblank : ∀ c, (l.stream.remaining.dropWhile isGap).head? = some c → c = '\n' ∨ c = '#')
    (h : l.stream.remaining.dropWhile (· ≠ '\n') = '\n' :: more) :
    ∃ s, l.stream.Reads (l.stream.remaining.takeWhile (· ≠ '\n') ++ ['\n']) s ∧
      l.tokens = ⟨.endOfLine, ⟨l.stream.location.line + 1, 1⟩⟩ ::
        { l with stream := s, atLineStart := true }.tokens := by
  obtain ⟨s, hreads, hloc, hread⟩ := read_of_lineEnd hl hblank h
  refine ⟨s, hreads, ?_⟩
  have hne : l.read.token.kind ≠ .endOfInput := by
    rw [hread]
    exact Kind.noConfusion
  have hplace : { l with stream := s }.place = ⟨l.stream.location.line + 1, 1⟩ := by
    rw [place, hloc]
    rfl
  rw [tokens_eq_cons hne, hread, ← hplace]
  rfl

end

/-! ### The end of the input -/

/-- Where nothing is left to read, the lexer is at the end of the input. -/
theorem inLine_of_remaining {l : Lexer} (hs : l.stream.LineWise) (h : l.stream.remaining = []) :
    ∃ s place, s.LineWise ∧ s.remaining = [] ∧ l.inLine = finish { l with stream := s } place := by
  have hrem := Stream.remaining_takeWhile isGap hs
  rw [h, List.dropWhile_nil] at hrem
  refine ⟨(l.stream.takeWhile isGap).2, (l.stream.takeWhile isGap).2.location.following,
    Stream.lineWise_takeWhile isGap hs, hrem, ?_⟩
  rw [inLine]
  simp only [Stream.peek_eq_none_iff.2 hrem]

theorem firstContent_of_remaining {s : Stream} (hs : s.LineWise) (h : s.remaining = []) :
    (firstContent s).2.LineWise ∧ (firstContent s).2.remaining = [] := by
  have hrem := Stream.remaining_takeWhile Margin.isMarginChar hs
  rw [h, List.dropWhile_nil] at hrem
  have hnone := Stream.peek_eq_none_iff.2 hrem
  have he : (firstContent s).2 = (s.takeWhile Margin.isMarginChar).2 := by
    rw [firstContent.eq_def]
    dsimp only
    split
    · rfl
    · simp_all
  rw [he]
  exact ⟨Stream.lineWise_takeWhile _ hs, hrem⟩

/-- With no block open, the dedents still owed come before the end of the input. -/
theorem kinds_of_noBlocks {l : Lexer} (hs : l.stream.LineWise) (h : l.stream.remaining = [])
    (hb : l.blocks = []) :
    l.tokens.map Token.kind = List.replicate l.owed .dedent ++ [.endOfInput] := by
  induction ho : l.owed generalizing l with
  | zero =>
    have hread : l.read.token.kind = .endOfInput := by
      have hend {l : Lexer} (hs : l.stream.LineWise) (h : l.stream.remaining = [])
          (hb : l.blocks = []) : l.inLine.token.kind = .endOfInput := by
        obtain ⟨s, place, -, -, he⟩ := inLine_of_remaining hs h
        rw [he, finish, if_pos (by simp [hb])]
      rw [read, startLine]
      rw [if_neg (by omega)]
      obtain ⟨hs', h'⟩ := firstContent_of_remaining hs h
      split
      · dsimp only
        rw [if_pos (by simp [Stream.peek_eq_none_iff.2 h'])]
        exact hend hs' h' hb
      · exact hend hs h hb
    rw [tokens_eq_singleton hread, List.map_singleton, hread]
    rfl
  | succ n ih =>
    have hread : l.read = l.payDedent := by
      rw [read, if_pos (by omega)]
    have hne : l.read.token.kind ≠ .endOfInput := by
      rw [hread]
      exact Kind.noConfusion
    have hpaid : l.payDedent.after.owed = n := by
      simp only [payDedent, ho]
      omega
    rw [tokens_eq_cons hne, hread, List.map_cons, ih (l := l.payDedent.after) hs h hb hpaid]
    rfl

/-- The end of the input closes every open block. -/
theorem kinds_of_finish {l m : Lexer} {place : Location} (hread : l.read = m.finish place)
    (hs : m.stream.LineWise) (h : m.stream.remaining = []) :
    l.tokens.map Token.kind = List.replicate m.depth .dedent ++ [.endOfInput] := by
  rw [finish] at hread
  split at hread
  · next hb =>
    have hkind : l.read.token.kind = .endOfInput := by rw [hread]
    rw [tokens_eq_singleton hkind, List.map_singleton, hkind, depth, List.isEmpty_iff.1 hb]
    rfl
  · next hb =>
    have hne : l.read.token.kind ≠ .endOfInput := by
      rw [hread]
      exact Kind.noConfusion
    have hd : m.depth = m.depth - 1 + 1 := by
      have := List.length_pos_iff.2 (fun he => hb (List.isEmpty_iff.2 he))
      rw [depth]
      omega
    rw [tokens_eq_cons hne, hread, List.map_cons,
      kinds_of_noBlocks (l := { m with blocks := [], owed := m.depth - 1 }) hs h rfl, hd]
    rfl

/-- The end of the input on a line whose rest is blank or a comment. -/
theorem kinds_of_inputEnd {l : Lexer} (hl : l.InLine)
    (hblank : ∀ c, (l.stream.remaining.dropWhile isGap).head? = some c → c = '\n' ∨ c = '#')
    (h : '\n' ∉ l.stream.remaining) :
    l.tokens.map Token.kind = List.replicate l.depth .dedent ++ [.endOfInput] := by
  obtain ⟨hgap, hrem⟩ := reads_gap hl
  have hread : l.read = _ := hl.read_eq
  unfold inLine at hread
  dsimp only at hread
  generalize (l.stream.takeWhile isGap).2 = s at *
  have hline : '\n' ∉ s.remaining := by
    rw [hrem]
    exact fun hm => h ((List.dropWhile_sublist _).subset hm)
  cases hp : s.peek with
  | none =>
    simp only [hp] at hread
    exact kinds_of_finish (m := { l with stream := s }) hread hgap.lineWise
      (Stream.peek_eq_none_iff.1 hp)
  | some c =>
    have hs := Stream.remaining_eq_cons hp
    have hn : c ≠ '\n' := by
      rintro rfl
      exact hline (hs ▸ List.mem_cons_self)
    have hc : c = '#' := by
      refine (hblank c ?_).resolve_left hn
      rw [← hrem, ← Stream.peek_eq_head?, hp]
    simp only [hp, if_neg hn, if_pos hc] at hread
    rcases reads_skipComment hgap.lineWise with ⟨more, hm, -⟩ | ⟨hd, hb, hcomment⟩
    · have : '\n' ∈ s.remaining :=
        (List.dropWhile_sublist _).subset (hm ▸ List.mem_cons_self)
      exact absurd this hline
    · rw [hb, if_neg Bool.false_ne_true] at hread
      refine kinds_of_finish (m := { l with stream := (skipComment s).2 }) hread
        hcomment.lineWise ?_
      have hall := List.takeWhile_append_dropWhile (p := (· ≠ '\n')) (l := s.remaining)
      have hrest := hcomment.remaining
      rw [hd, List.append_nil] at hall
      rw [hall, List.self_eq_append_right] at hrest
      exact hrest

/-! ### A whole line -/

/-- The words of a line and its end, after which the lexer is at the start of the next line, or its
words and the end of the input. -/
inductive Body (l : Lexer) (words : List Token) : Prop
  /-- The line has an end. -/
  | lineEnd (more : List Char) (s : Stream)
      (cut : l.stream.remaining.dropWhile (· ≠ '\n') = '\n' :: more)
      (reads : l.stream.Reads (l.stream.remaining.takeWhile (· ≠ '\n') ++ ['\n']) s)
      (tokens : l.tokens = words ++ ⟨.endOfLine, ⟨l.stream.location.line + 1, 1⟩⟩ ::
        { l with stream := s, atLineStart := true }.tokens)
  /-- The line is the last one and has no end. -/
  | inputEnd (ends : List Token) (last : '\n' ∉ l.stream.remaining)
      (tokens : l.tokens = words ++ ends)
      (closing : ends.map Token.kind = List.replicate l.depth .dedent ++ [.endOfInput])

/-- Past its margin a line holds no layout. There are words on it unless all that follows is blank
or a comment. -/
theorem exists_body {l : Lexer} (hl : l.InLine) :
    ∃ words, l.Body words ∧ (∀ t ∈ words, t.IsWord l.stream.location.line) ∧
      (words = [] ↔
        ∀ c, (l.stream.remaining.dropWhile isGap).head? = some c → c = '\n' ∨ c = '#') := by
  induction hn : l.stream.size using Nat.strongRecOn generalizing l with
  | _ n ih =>
    -- Either a token follows, and the induction reads on after it, or the line is over.
    by_cases hblank : ∀ c, (l.stream.remaining.dropWhile isGap).head? = some c →
        c = '\n' ∨ c = '#'
    · refine ⟨[], ?_, List.forall_mem_nil _, iff_of_true rfl hblank⟩
      cases hd : l.stream.remaining.dropWhile (· ≠ '\n') with
      | nil =>
        have hlast : '\n' ∉ l.stream.remaining := by
          have hall := List.takeWhile_append_dropWhile (p := (· ≠ '\n')) (l := l.stream.remaining)
          rw [hd, List.append_nil] at hall
          rw [← hall]
          exact not_mem_takeWhile (p := (· ≠ '\n')) (by decide) _
        exact .inputEnd _ hlast rfl (kinds_of_inputEnd hl hblank hlast)
      | cons c more =>
        obtain rfl : c = '\n' := by
          have := List.head?_dropWhile_not (fun c : Char => decide (c ≠ '\n')) l.stream.remaining
          rw [hd] at this
          simpa using this
        obtain ⟨s, hreads, htokens⟩ := tokens_of_lineEnd hl hblank hd
        exact .lineEnd more s hd hreads htokens
    · have hword := hblank
      simp only [Classical.not_forall, not_or] at hblank
      obtain ⟨c, hc, hne, hcomment⟩ := hblank
      obtain ⟨cs, hcs⟩ := List.head?_eq_some_iff.1 hc
      obtain ⟨s, used, hused, hreads, -, hsize, htokens⟩ := tokens_of_scan hl hcs hne hcomment
      have hl' : InLine { l with stream := s } := ⟨hreads.lineWise, hl.paid, hl.inside⟩
      obtain ⟨words, hbody, hwords, -⟩ := ih _ (hn ▸ hsize) hl' rfl
      obtain ⟨htake, hdrop⟩ := takeWhile_append_of_line hused s.remaining
      rw [← hreads.remaining] at htake hdrop
      have hplace : s.location.line = l.stream.location.line := by
        rw [hreads.location, Location.after_of_line hused]
      let place := (l.stream.location.after (l.stream.remaining.takeWhile isGap)).following
      have hplaced : place.line = l.stream.location.line := by
        simp only [place, Location.following,
          Location.after_of_line (not_mem_takeWhile isGap_newline _)]
      refine ⟨⟨(tokenOf c cs).1, place⟩ :: words, ?_, List.forall_mem_cons.2 ⟨?_, ?_⟩,
        iff_of_false (List.cons_ne_nil _ _) hword⟩
      · cases hbody with
        | lineEnd more t cut reads tokens =>
          refine .lineEnd more t (hdrop.trans cut) ?_ (by rw [htokens, tokens, hplace]; rfl)
          rw [htake, List.append_assoc]
          exact hreads.trans reads
        | inputEnd ends last tokens closing =>
          refine .inputEnd ends ?_ (by rw [htokens, tokens]; rfl) closing
          rw [hreads.remaining, List.mem_append, not_or]
          exact ⟨hused, last⟩
      · exact ⟨isLayout_tokenOf c cs, tokenOf_ne_end c cs, hplaced⟩
      · rw [← hplace]
        exact hwords

end Lexer

end Offside
