import Offside.Proofs.Token.Line
import Offside.Proofs.Token.Margins

/-!
# The layout of a text

The tokens of a text fall into lines. Each line with content starts with the layout that its margin
calls for, as read without a stack, and holds no other layout; the end of the input closes the
blocks that are still open. No prefix of the tokens closes more blocks than it opens.

## Main definitions

* `Offside.ContentLine`: a line with content, by its number and its margin.
* `Offside.ContentLine.ofText`: the content lines of a text.
* `Offside.ContentLine.layout`: the layout at the start of a line, given the lines before it.
* `Offside.LaidOut`: tokens that fall into lines laid out in this way.
* `Offside.ContentLine.Holds`: the words of a line.

## Main results

* `Offside.Lexer.laidOut_tokens`: so do the tokens of the lexer from the start of a line.
* `Offside.Lexer.layout_of_text`: so do the tokens of a text, with balanced blocks.
-/

namespace Offside

open Source Token

namespace Token

theorem isMarginChar_iff {c : Char} : Margin.isMarginChar c ↔ c = ' ' ∨ c = '\t' := by
  simp [Margin.isMarginChar]

theorem isMarginChar_newline : Margin.isMarginChar '\n' = false := by decide

end Token

/-! ### Content lines -/

/-- A line whose first character after its margin exists and starts no comment. -/
structure ContentLine where
  number : ℕ
  /-- The run of spaces and tabs at the start of the line. -/
  margin : List Char

namespace ContentLine

/-- Whether the margin holds both a space and a tab. -/
def IsMixed (line : ContentLine) : Prop := ' ' ∈ line.margin ∧ '\t' ∈ line.margin

instance (line : ContentLine) : Decidable line.IsMixed :=
  inferInstanceAs (Decidable (' ' ∈ line.margin ∧ '\t' ∈ line.margin))

/-- The number of spaces, with eight for each tab. -/
def width (line : ContentLine) : ℕ :=
  line.margin.count ' ' + tabWidth * line.margin.count '\t'

/-- The place of the first character after the margin. -/
def place (line : ContentLine) : Location := ⟨line.number, line.margin.length + 1⟩

/-- The content line that the characters `cs` of line `n` make, if they have content. -/
def ofLine? (n : ℕ) (cs : List Char) : Option ContentLine :=
  if (cs.dropWhile Margin.isMarginChar).head?.any (· ≠ '#') then
    some ⟨n, cs.takeWhile Margin.isMarginChar⟩
  else none

/-- The content lines of a text whose first line has the number `n`. -/
def ofText (n : ℕ) (text : List Char) : List ContentLine :=
  ((text.splitOn '\n').zipIdx n).filterMap fun entry => ofLine? entry.2 entry.1

/-- The widths of the lines that count: those whose margins are not mixed. -/
def widths (lines : List ContentLine) : List ℕ :=
  (lines.filter fun line => ¬ line.IsMixed).map width

/-- The layout at the start of a line after the lines `before`. A mixed margin is refused and
otherwise counts for nothing. -/
def layout (before : List ContentLine) (line : ContentLine) : List Token :=
  let kinds :=
    if line.IsMixed then [.invalid .mixedMargin]
    else Margins.layout (Margins.sinceRefusal (widths before)) line.width
  kinds.map fun kind => ⟨kind, line.place⟩

/-- The content lines after line `n`, of which the characters `cs` are left. -/
def later (n : ℕ) (cs : List Char) : List ContentLine :=
  match cs.dropWhile (· ≠ '\n') with
  | [] => []
  | _ :: more => ofText (n + 1) more

theorem ofText_eq (n : ℕ) (cs : List Char) :
    ofText n cs = (ofLine? n (cs.takeWhile (· ≠ '\n'))).toList ++ later n cs := by
  have hall := List.takeWhile_append_dropWhile (p := (· ≠ '\n')) (l := cs)
  have hline := not_mem_takeWhile (p := (· ≠ '\n')) (by decide) cs
  have hhead := List.head?_dropWhile_not (fun c : Char => decide (c ≠ '\n')) cs
  rw [later]
  generalize cs.takeWhile (· ≠ '\n') = line at *
  cases hd : cs.dropWhile (· ≠ '\n') with
  | nil =>
    rw [hd, List.append_nil] at hall
    rw [← hall, ofText, List.splitOn_eq_singleton hline, List.zipIdx_singleton]
    cases h : ofLine? n line <;> simp [h]
  | cons c more =>
    obtain rfl : c = '\n' := by
      rw [hd] at hhead
      simpa using hhead
    rw [hd] at hall
    dsimp only
    unfold ofText
    rw [← hall, List.splitOn_append_cons_self_of_not_mem hline, List.zipIdx_cons]
    cases h : ofLine? n line <;> simp [h]

@[simp] theorem later_nil (n : ℕ) : later n [] = [] := rfl

theorem later_newline (n : ℕ) (cs : List Char) : later n ('\n' :: cs) = ofText (n + 1) cs := rfl

theorem later_append {cs : List Char} (h : '\n' ∉ cs) (n : ℕ) (more : List Char) :
    later n (cs ++ more) = later n more := by
  rw [later, (takeWhile_append_of_line h more).2, later]

/-- The first line of a text, as its margin and what follows the margin tell. -/
theorem ofText_margin (n : ℕ) (cs : List Char) :
    ofText n cs =
      (if (cs.dropWhile Margin.isMarginChar).head?.any fun c => c ≠ '\n' && c ≠ '#' then
        [⟨n, cs.takeWhile Margin.isMarginChar⟩] else []) ++
      later n (cs.dropWhile Margin.isMarginChar) := by
  have hsplit := List.takeWhile_append_dropWhile (p := Margin.isMarginChar) (l := cs)
  have hrun := List.all_eq_true.1 (List.all_takeWhile (p := Margin.isMarginChar) (l := cs))
  have hline := not_mem_takeWhile isMarginChar_newline cs
  have hstop := List.head?_dropWhile_not Margin.isMarginChar cs
  generalize cs.takeWhile Margin.isMarginChar = run at *
  generalize cs.dropWhile Margin.isMarginChar = rest at *
  subst hsplit
  rw [ofText_eq, (takeWhile_append_of_line hline rest).1, later_append hline, ofLine?,
    List.dropWhile_append_of_pos hrun, List.takeWhile_append_of_pos hrun]
  cases rest with
  | nil => simp
  | cons c rest =>
    have hc : Margin.isMarginChar c = false := by simpa using hstop
    by_cases hn : c = '\n'
    · simp [hn]
    · by_cases hh : c = '#' <;> simp [hn, hh, hc]
      rfl

theorem widths_append (lines : List ContentLine) (line : ContentLine) :
    widths (lines ++ [line]) =
      if line.IsMixed then widths lines else widths lines ++ [line.width] := by
  rw [widths, List.filter_append, List.map_append]
  by_cases h : line.IsMixed <;> simp [h, widths]

/-- The layout of a line is one token or some dedents. -/
theorem layout_cases (before : List ContentLine) (line : ContentLine) :
    (∃ kind : Kind, kind.isLayout ∧ line.layout before = [⟨kind, line.place⟩]) ∨
      ∃ n, line.layout before = List.replicate n ⟨.dedent, line.place⟩ := by
  rw [layout]
  split
  · exact .inl ⟨_, rfl, rfl⟩
  · rcases Margins.openBlocks_append (widths before) line.width with
      ⟨hlayout, -⟩ | ⟨n, hlayout, -⟩ | ⟨hlayout, -⟩
    · rw [hlayout]
      exact .inl ⟨_, rfl, rfl⟩
    · rw [hlayout]
      exact .inr ⟨n, List.map_replicate⟩
    · rw [hlayout]
      exact .inl ⟨_, rfl, rfl⟩

theorem mem_layout {before : List ContentLine} {line : ContentLine} {t : Token}
    (h : t ∈ line.layout before) : t.kind.isLayout ∧ t.location = line.place := by
  rcases layout_cases before line with ⟨kind, hkind, hlayout⟩ | ⟨n, hlayout⟩
  · rw [hlayout, List.mem_singleton] at h
    rw [h]
    exact ⟨hkind, rfl⟩
  · rw [hlayout, List.mem_replicate] at h
    rw [h.2]
    exact ⟨rfl, rfl⟩

end ContentLine

/-! ### Margins of characters -/

namespace Token

/-- A margin holds a space and a tab exactly if its run of characters does. -/
theorem Margin.isMixed_ofRun {run : List Char} (h : ∀ c ∈ run, isMarginChar c) :
    (ofRun run).isMixed ↔ ' ' ∈ run ∧ '\t' ∈ run := by
  have hfold (m : Margin) :
      ((run.foldl extend m).spaces ↔ m.spaces ∨ ' ' ∈ run) ∧
        ((run.foldl extend m).tabs ↔ m.tabs ∨ '\t' ∈ run) := by
    induction run generalizing m with
    | nil => simp
    | cons c run ih =>
      obtain ⟨h₁, h₂⟩ := ih (fun d hd => h d (List.mem_cons_of_mem c hd)) (m.extend c)
      rw [List.foldl_cons, h₁, h₂]
      rcases isMarginChar_iff.1 (h c List.mem_cons_self) with rfl | rfl <;> simp [extend]
  have := hfold none
  rw [isMixed, Bool.and_eq_true, ofRun, this.1, this.2]
  simp [none]

private theorem Margin.width_foldl_spaces {run : List Char} (h : ∀ c ∈ run, isMarginChar c)
    (ht : '\t' ∉ run) (m : Margin) : (run.foldl extend m).width = m.width + run.count ' ' := by
  induction run generalizing m with
  | nil => rfl
  | cons c run ih =>
    obtain ⟨hc, hrun⟩ := List.ne_and_not_mem_of_not_mem_cons ht
    obtain rfl : c = ' ' := (isMarginChar_iff.1 (h c List.mem_cons_self)).resolve_right hc.symm
    have hw : (m.extend ' ').width = m.width + 1 := by simp [extend]
    rw [List.foldl_cons, ih (fun d hd => h d (List.mem_cons_of_mem _ hd)) hrun, hw,
      List.count_cons_self]
    omega

private theorem Margin.width_foldl_tabs {run : List Char} (h : ∀ c ∈ run, isMarginChar c)
    (hs : ' ' ∉ run) (m : Margin) (hm : m.width % tabWidth = 0) :
    (run.foldl extend m).width = m.width + tabWidth * run.count '\t' := by
  induction run generalizing m with
  | nil => rfl
  | cons c run ih =>
    obtain ⟨hc, hrun⟩ := List.ne_and_not_mem_of_not_mem_cons hs
    obtain rfl : c = '\t' := (isMarginChar_iff.1 (h c List.mem_cons_self)).resolve_left hc.symm
    have hw : (m.extend '\t').width = m.width + tabWidth := by simp [extend, hm]
    rw [List.foldl_cons, ih (fun d hd => h d (List.mem_cons_of_mem _ hd)) hrun _
      (by rw [hw, Nat.add_mod_right, hm]), hw, List.count_cons_self, Nat.mul_succ]
    omega

/-- The width of a margin that is not mixed: its spaces, and eight for each tab. -/
theorem Margin.width_ofRun {run : List Char} (h : ∀ c ∈ run, isMarginChar c)
    (hm : ¬ (' ' ∈ run ∧ '\t' ∈ run)) :
    (ofRun run).width = run.count ' ' + tabWidth * run.count '\t' := by
  by_cases ht : '\t' ∈ run
  · have hs : ' ' ∉ run := fun hs => hm ⟨hs, ht⟩
    rw [ofRun, width_foldl_tabs h hs none rfl, List.count_eq_zero.2 hs]
    simp [none]
  · rw [ofRun, width_foldl_spaces h ht none, List.count_eq_zero.2 ht]
    simp [none]

/-- What skipping to the next content line does: either no content line is left, or the stream
stands after the margin of the first one. -/
inductive FirstContent (s : Stream) (margin : Margin) (t : Stream) : Prop
  | none (rest : t.remaining = []) (lines : ContentLine.ofText s.location.line s.remaining = [])
  | some (line : ContentLine) (c : Char) (head : t.peek = some c) (content : c ≠ '\n' ∧ c ≠ '#')
      (run : ∀ d ∈ line.margin, Margin.isMarginChar d)
      (margin_eq : margin = Margin.ofRun line.margin)
      (place : t.location = ⟨line.number, line.margin.length⟩)
      (lines : ContentLine.ofText s.location.line s.remaining =
        line :: ContentLine.later line.number t.remaining)
      (shorter : t.remaining.length ≤ s.remaining.length)

/-- Lines without content may be skipped before. -/
theorem FirstContent.of_lines {s u t : Stream} {margin : Margin} (h : FirstContent u margin t)
    (hlines : ContentLine.ofText s.location.line s.remaining =
      ContentLine.ofText u.location.line u.remaining)
    (hle : u.remaining.length ≤ s.remaining.length) : FirstContent s margin t := by
  cases h with
  | none rest lines => exact .none rest (hlines.trans lines)
  | some line c head content run margin_eq place lines shorter =>
    exact .some line c head content run margin_eq place (hlines.trans lines) (shorter.trans hle)

theorem firstContent_spec {s : Stream} (hs : s.LineWise)
    (hcol : s.location.column = 0 ∨ s.remaining = []) :
    (firstContent s).2.LineWise ∧ FirstContent s (firstContent s).1 (firstContent s).2 := by
  fun_induction firstContent s with
  | case1 s line h =>
    have hrest := Stream.peek_eq_none_iff.1 h
    refine ⟨Stream.lineWise_takeWhile _ hs, .none hrest ?_⟩
    rw [ContentLine.ofText_margin, ← Stream.remaining_takeWhile _ hs, hrest]
    rfl
  | case2 s line h ih =>
    have hread := (Stream.reads_takeWhile _ hs).trans
      (Stream.reads_skip (Stream.lineWise_takeWhile _ hs) h)
    have hrest := Stream.remaining_takeWhile Margin.isMarginChar hs
    have hloc : line.2.skip.location = ⟨s.location.line + 1, 0⟩ := by
      rw [hread.location, Location.after_append,
        Location.after_of_line (not_mem_takeWhile isMarginChar_newline _)]
      rfl
    obtain ⟨hwise, hfirst⟩ := ih hread.lineWise (.inl (by rw [hloc]))
    refine ⟨hwise, hfirst.of_lines ?_ ?_⟩
    · rw [ContentLine.ofText_margin, ← hrest, Stream.remaining_eq_cons h, hloc,
        Stream.remaining_skip (Stream.lineWise_takeWhile _ hs), ContentLine.later_newline]
      rfl
    · exact hread.length_le
  | case3 s line h _ ih =>
    have hline := Stream.lineWise_takeWhile Margin.isMarginChar hs
    have hrest := Stream.remaining_takeWhile Margin.isMarginChar hs
    have hloc := Stream.location_takeWhile Margin.isMarginChar hs
    rw [Location.after_of_line (not_mem_takeWhile isMarginChar_newline _)] at hloc
    have hlines : ContentLine.ofText s.location.line s.remaining =
        ContentLine.later s.location.line line.2.remaining := by
      rw [ContentLine.ofText_margin, ← hrest, ← Stream.peek_eq_head?, h]
      rfl
    have hle := (Stream.reads_takeWhile Margin.isMarginChar hs).length_le
    -- The comment is followed by the next line or by the end of the input.
    rcases reads_skipComment hline with ⟨more, hcut, -, hread⟩ | ⟨hcut, -, hread⟩
    · have hmore : (skipComment line.2).2.remaining = more := by
        refine hread.rest ?_
        rw [List.append_assoc, List.singleton_append, ← hcut, List.takeWhile_append_dropWhile]
      have hnext : (skipComment line.2).2.location = ⟨s.location.line + 1, 0⟩ := by
        rw [hread.location, Location.after_append, hloc,
          Location.after_of_line (not_mem_takeWhile (p := (· ≠ '\n')) (by decide) _)]
        rfl
      obtain ⟨hwise, hfirst⟩ := ih hread.lineWise (.inl (by rw [hnext]))
      refine ⟨hwise, hfirst.of_lines ?_ ?_⟩
      · rw [hlines, ContentLine.later, hcut, hnext, hmore]
      · exact hread.length_le.trans hle
    · have hnone : (skipComment line.2).2.remaining = [] := by
        refine hread.rest ?_
        rw [← hcut, List.takeWhile_append_dropWhile]
      obtain ⟨hwise, hfirst⟩ := ih hread.lineWise (.inr hnone)
      refine ⟨hwise, hfirst.of_lines ?_ ?_⟩
      · rw [hlines, ContentLine.later, hcut, hnone]
        rfl
      · rw [hnone]
        simp
  | case4 s line c h hn hc =>
    have hrest := Stream.remaining_takeWhile Margin.isMarginChar hs
    have hcol : s.location.column = 0 := by
      refine hcol.resolve_right fun he => ?_
      rw [he, List.dropWhile_nil, ← Stream.peek_eq_none_iff] at hrest
      rw [hrest] at h
      cases h
    refine ⟨Stream.lineWise_takeWhile _ hs,
      .some ⟨s.location.line, s.remaining.takeWhile Margin.isMarginChar⟩ c h ⟨hn, hc⟩
        (List.all_eq_true.1 List.all_takeWhile) ?_ ?_ ?_ ?_⟩
    · rw [← Stream.takeWhile_fst _ hs]
    · rw [Stream.location_takeWhile _ hs,
        Location.after_of_line (not_mem_takeWhile isMarginChar_newline _), hcol, Nat.zero_add]
    · rw [ContentLine.ofText_margin, ← hrest, ← Stream.peek_eq_head?, h]
      simp [hn, hc]
      rfl
    · exact (Stream.reads_takeWhile _ hs).length_le

end Token

/-! ### Tokens line by line -/

/-- The tokens after the content lines `before` fall into the content lines that follow: each
starts with its layout, and its other tokens stand on it and are no layout. After the last one the
open blocks are closed. -/
inductive LaidOut : List ContentLine → List ContentLine → List Token → Prop
  | done (before : List ContentLine) (ends : List Token)
      (closing : ends.map Token.kind =
        List.replicate (Margins.openBlocks (ContentLine.widths before)) .dedent ++
          [.endOfInput]) :
      LaidOut before [] ends
  | line (before : List ContentLine) (line : ContentLine) (lines : List ContentLine)
      (body tokens : List Token)
      (plain : ∀ t ∈ body, t.kind.isLayout = false ∧ t.OnLine line.number)
      (rest : LaidOut (before ++ [line]) lines tokens) :
      LaidOut before (line :: lines) (line.layout before ++ body ++ tokens)

/-- At the end of the input there are only dedents before it. -/
theorem Token.kind_of_closing {ends : List Token} {n : ℕ}
    (closing : ends.map Token.kind = List.replicate n .dedent ++ [.endOfInput]) :
    ∀ t ∈ ends, t.kind = .dedent ∨ t.kind = .endOfInput := by
  intro t ht
  have hkind := List.mem_map_of_mem (f := Token.kind) ht
  rw [closing, List.mem_append, List.mem_singleton] at hkind
  exact hkind.imp_left fun h => (List.mem_replicate.1 h).2

/-- The stream is past the margin of a line on which `words` follow. There are some unless the rest
of the line is blank or a comment. -/
structure ContentLine.Holds (line : ContentLine) (words : List Token) (s : Stream) : Prop where
  place : s.location = ⟨line.number, line.margin.length⟩
  isWord : ∀ t ∈ words, t.IsWord line.number
  nil_iff : words = [] ↔
    ∀ c, (s.remaining.dropWhile isGap).head? = some c → c = '\n' ∨ c = '#'

theorem ContentLine.Holds.plain {line : ContentLine} {words : List Token} {s : Stream}
    (h : line.Holds words s) :
    ∀ t ∈ words, t.kind.isLayout = false ∧ t.OnLine line.number :=
  fun t ht => ⟨(h.isWord t ht).plain, (h.isWord t ht).onLine⟩

namespace Lexer

open ContentLine (widths ofText later)

theorem tokens_congr {l m : Lexer} (h : l.read = m.read) : l.tokens = m.tokens := by
  by_cases hk : l.read.token.kind = .endOfInput
  · rw [tokens_eq_singleton hk, h, tokens_eq_singleton (h ▸ hk)]
  · have hk' : m.read.token.kind ≠ .endOfInput := h ▸ hk
    rw [tokens_eq_cons hk, tokens_eq_cons hk', h]

/-- The dedents owed come first. -/
theorem tokens_of_owed (l : Lexer) :
    l.tokens = List.replicate l.owed ⟨.dedent, l.place⟩ ++ { l with owed := 0 }.tokens := by
  induction hn : l.owed generalizing l with
  | zero =>
    have : { l with owed := 0 } = l := by rw [← hn]
    rw [this]
    rfl
  | succ n ih =>
    have hread : l.read = l.payDedent := if_pos (by omega)
    have hne : l.read.token.kind ≠ .endOfInput := by
      rw [hread]
      exact Kind.noConfusion
    have hpaid : l.payDedent.after.owed = n := by
      simp only [payDedent, hn]
      omega
    rw [tokens_eq_cons hne, hread, ih l.payDedent.after hpaid, List.replicate_succ]
    rfl

/-- The lexer past the margin of a line, before its layout: its stack holds the open blocks of the
lines `before`. -/
structure AtMargin (before : List ContentLine) (line : ContentLine) (l : Lexer) : Prop where
  inLine : l.InLine
  place : l.stream.location = ⟨line.number, line.margin.length⟩
  run : ∀ c ∈ line.margin, Margin.isMarginChar c
  stacked : Margins.Stacked l.blocks (Margins.sinceRefusal (widths before))

/-- The layout of a line comes before its other tokens, and the stack follows the lines. -/
theorem AtMargin.tokens_eq {before : List ContentLine} {line : ContentLine} {l : Lexer}
    (h : AtMargin before line l) {m : Lexer}
    (hm : m.read = (l.layout? (Margin.ofRun line.margin)).getD l.inLine) :
    ∃ n : Lexer, n.InLine ∧ n.stream = l.stream ∧
      Margins.Stacked n.blocks (Margins.sinceRefusal (widths (before ++ [line]))) ∧
      m.tokens = line.layout before ++ n.tokens := by
  obtain ⟨hl, hplace, hrun, hstack⟩ := h
  have hline : l.place = line.place := by
    rw [Lexer.place, hplace]
    rfl
  have hcons {lexeme : Lexeme} (hread : m.read = lexeme) (hne : lexeme.token.kind ≠ .endOfInput) :
      m.tokens = lexeme.token :: lexeme.after.tokens := by
    rw [← hread]
    exact tokens_eq_cons (hread ▸ hne)
  rw [layout?] at hm
  rw [ContentLine.widths_append, ContentLine.layout]
  by_cases hmixed : line.IsMixed
  · rw [if_pos ((Margin.isMixed_ofRun hrun).2 hmixed), Option.getD_some] at hm
    rw [if_pos hmixed, if_pos hmixed]
    refine ⟨l, hl, rfl, hstack, ?_⟩
    rw [hcons hm Kind.noConfusion, deliver, hline]
    rfl
  rw [if_neg (mt (Margin.isMixed_ofRun hrun).1 hmixed)] at hm
  rw [if_neg hmixed, if_neg hmixed, Margins.sinceRefusal_append]
  have hwidth : (Margin.ofRun line.margin).width = line.width := Margin.width_ofRun hrun hmixed
  dsimp only at hm
  rw [hwidth] at hm
  by_cases hdeeper : l.margin < line.width
  · obtain ⟨hlayout, hextend⟩ := hstack.layout_push hdeeper
    rw [if_pos hdeeper, Option.getD_some] at hm
    rw [hlayout, hextend]
    refine ⟨{ l with blocks := line.width :: l.blocks, lastWidth := line.width },
      ⟨hl.lineWise, hl.paid, hl.inside⟩, rfl, hstack.push hdeeper, ?_⟩
    rw [hcons hm Kind.noConfusion, hline]
    rfl
  rw [if_neg hdeeper] at hm
  by_cases hsame : line.width = l.margin
  · have hmem := hstack.zero_or_mem hsame
    have hkept : l.blocks.dropWhile (line.width < ·) = l.blocks := by
      rw [hsame, margin]
      cases l.blocks <;> simp
    obtain ⟨hlayout, hextend⟩ := hstack.layout_pop hsame.le hmem
    have hpop := hstack.pop hmem
    rw [hkept] at hlayout hpop
    rw [if_pos hsame, Option.getD_none, ← hl.read_eq] at hm
    rw [hlayout, hextend, Nat.sub_self]
    exact ⟨l, hl, rfl, hpop, tokens_congr hm⟩
  have hshallower : line.width < l.margin := by omega
  rw [if_neg hsame] at hm
  by_cases hback : (l.blocks.dropWhile (line.width < ·)).headD 0 = line.width
  · have hmem := hstack.head_pop.1 hback
    obtain ⟨hlayout, hextend⟩ := hstack.layout_pop hshallower.le hmem
    rw [if_pos hback, Option.getD_some] at hm
    rw [hlayout, hextend]
    refine ⟨{ l with blocks := l.blocks.dropWhile (line.width < ·) },
      ⟨hl.lineWise, hl.paid, hl.inside⟩, rfl, hstack.pop hmem, ?_⟩
    rw [hcons hm Kind.noConfusion, tokens_of_owed, hline]
    have hclosed : l.blocks.length - (l.blocks.dropWhile (line.width < ·)).length =
        l.depth - (l.blocks.dropWhile (line.width < ·)).length - 1 + 1 := by
      have := Margins.length_dropWhile_lt hshallower
      simp only [depth]
      omega
    rw [hclosed, List.replicate_succ, List.map_cons, List.map_replicate, ← hline, ← hl.paid]
    rfl
  · obtain ⟨hlayout, hextend⟩ := hstack.layout_refused hshallower (mt hstack.head_pop.2 hback)
    rw [if_neg hback, Option.getD_some] at hm
    rw [hlayout, hextend]
    refine ⟨{ l with blocks := [] }, ⟨hl.lineWise, hl.paid, hl.inside⟩, rfl, .nil, ?_⟩
    rw [hcons hm Kind.noConfusion, List.map_singleton, ← hline]
    rfl

/-- The content lines that are left of the text. -/
def contentLines (l : Lexer) : List ContentLine := ofText l.stream.location.line l.stream.remaining

/-- The lexer at the start of a line, or where nothing is left: its stack holds the open blocks of
the lines `before`. -/
structure AtStart (before : List ContentLine) (l : Lexer) : Prop where
  lineWise : l.stream.LineWise
  paid : l.owed = 0
  start : l.atLineStart = true
  column : l.stream.location.column = 0 ∨ l.stream.remaining = []
  stacked : Margins.Stacked l.blocks (Margins.sinceRefusal (widths before))

/-- The tokens of the first content line that is left, if there is one. -/
inductive FirstLine (before : List ContentLine) (l : Lexer) : Prop
  | none (lines : l.contentLines = [])
      (closing : l.tokens.map Token.kind =
        List.replicate (Margins.openBlocks (widths before)) .dedent ++ [.endOfInput])
  /-- The line has an end. -/
  | line (line : ContentLine) (words : List Token) (m : Lexer)
      (next : AtStart (before ++ [line]) m) (lines : l.contentLines = line :: m.contentLines)
      (shorter : m.stream.remaining.length < l.stream.remaining.length)
      (holds : line.Holds words (firstContent l.stream).2)
      (reads : ∃ used, (firstContent l.stream).2.Reads used m.stream)
      (tokens : l.tokens =
        line.layout before ++ (words ++ [⟨.endOfLine, ⟨line.number + 1, 1⟩⟩]) ++ m.tokens)
  /-- The line is the last one and has no end. -/
  | last (line : ContentLine) (words ends : List Token) (lines : l.contentLines = [line])
      (holds : line.Holds words (firstContent l.stream).2)
      (unended : (firstContent l.stream).2.remaining ≠ [] ∧
        '\n' ∉ (firstContent l.stream).2.remaining)
      (tokens : l.tokens = line.layout before ++ words ++ ends)
      (closing : ends.map Token.kind =
        List.replicate (Margins.openBlocks (widths (before ++ [line]))) .dedent ++ [.endOfInput])

theorem AtStart.firstLine {before : List ContentLine} {l : Lexer} (h : AtStart before l) :
    FirstLine before l := by
  obtain ⟨hs, paid, start, hcol, stacked⟩ := h
  have hread : l.read = l.startLine := by simp [read, paid, start]
  obtain ⟨hwise, hfirst⟩ := firstContent_spec hs hcol
  rw [startLine] at hread
  dsimp only at hread
  cases hfirst with
  | none hrest hlines =>
    rw [if_pos (by rw [Stream.peek_eq_none_iff.2 hrest]; rfl)] at hread
    obtain ⟨s, place, hs', hrest', he⟩ :=
      inLine_of_remaining (l := { l with stream := (firstContent l.stream).2 }) hwise hrest
    refine .none hlines ?_
    rw [kinds_of_finish (hread.trans he) hs' hrest', Margins.openBlocks, stacked.card_enclosing]
    rfl
  | some line c head content run margin_eq hplace hlines shorter =>
    rw [if_neg (by simp [head]), margin_eq] at hread
    have hmargin : AtMargin before line
        { l with stream := (firstContent l.stream).2, atLineStart := false } :=
      ⟨⟨hwise, paid, rfl⟩, hplace, run, stacked⟩
    obtain ⟨m, hm, hstream, hstacked, htokens⟩ := hmargin.tokens_eq hread
    dsimp only at hstream
    obtain ⟨words, hbody, hwords, hnil⟩ := exists_body hm
    rw [hstream, hplace] at hwords
    rw [hstream] at hnil
    have holds : line.Holds words (firstContent l.stream).2 := ⟨hplace, hwords, hnil⟩
    cases hbody with
    | lineEnd more s cut reads tokens =>
      have hmore : s.remaining = more := by
        refine reads.rest ?_
        rw [List.append_assoc, List.singleton_append, ← cut, List.takeWhile_append_dropWhile]
      have hloc : s.location = ⟨line.number + 1, 0⟩ := by
        rw [reads.location, Location.after_append, hstream, hplace,
          Location.after_of_line (not_mem_takeWhile (p := (· ≠ '\n')) (by decide) _)]
        rfl
      rw [hstream, hplace] at tokens
      rw [hstream] at cut reads
      refine .line line words { m with stream := s, atLineStart := true }
        ⟨reads.lineWise, hm.paid, rfl, .inl (by rw [hloc]), hstacked⟩ ?_ ?_ holds ⟨_, reads⟩
        (by rw [htokens, tokens]; simp)
      · rw [contentLines, hlines, later, cut]
        dsimp only
        rw [← hmore, contentLines, hloc]
      · have := reads.remaining
        rw [this] at shorter
        simp only [List.length_append, List.length_singleton] at shorter
        show s.remaining.length < _
        omega
    | inputEnd ends last tokens closing =>
      rw [hstream] at last
      have hlater : later line.number (firstContent l.stream).2.remaining = [] := by
        have := ContentLine.later_append last line.number []
        rwa [List.append_nil] at this
      refine .last line words ends (by rw [contentLines, hlines, hlater]) holds ⟨?_, last⟩
        (by rw [htokens, tokens, List.append_assoc]) ?_
      · rw [Stream.remaining_eq_cons head]
        exact List.cons_ne_nil _ _
      · rw [closing, Margins.openBlocks, hstacked.card_enclosing]
        rfl

/-- From the start of a line the tokens fall into lines, each with its layout. -/
theorem laidOut_tokens {before : List ContentLine} {l : Lexer} (hs : l.stream.LineWise)
    (paid : l.owed = 0) (start : l.atLineStart = true)
    (hcol : l.stream.location.column = 0 ∨ l.stream.remaining = [])
    (stacked : Margins.Stacked l.blocks (Margins.sinceRefusal (widths before))) :
    LaidOut before (ofText l.stream.location.line l.stream.remaining) l.tokens := by
  have h : AtStart before l := ⟨hs, paid, start, hcol, stacked⟩
  show LaidOut before l.contentLines l.tokens
  clear hs paid start hcol stacked
  induction hn : l.stream.remaining.length using Nat.strongRecOn generalizing before l with
  | _ n ih =>
    cases h.firstLine with
    | none lines closing =>
      rw [lines]
      exact .done before _ closing
    | line line words m next lines shorter holds _ tokens =>
      rw [lines, tokens]
      refine .line before line _ _ _ (List.forall_mem_append.2 ⟨holds.plain, ?_⟩)
        (ih _ (hn ▸ shorter) next rfl)
      exact List.forall_mem_singleton.2 ⟨rfl, rfl⟩
    | last line words ends lines holds _ tokens closing =>
      rw [lines, tokens]
      exact .line before line [] words ends holds.plain (.done _ _ closing)

end Lexer

/-! ### Balance -/

/-- Tokens read with `o` blocks open close no block that is not open, and leave `o'` blocks open.
A refused dedent closes all blocks without a dedent. -/
structure Kind.Nested (o : ℕ) (kinds : List Kind) (o' : ℕ) : Prop where
  inside : ∀ i, (kinds.take i).count .dedent ≤ (kinds.take i).count .indent + o
  after_le : kinds.count .dedent + o' ≤ kinds.count .indent + o
  after_eq : .invalid .unmatchedDedent ∉ kinds → kinds.count .dedent + o' = kinds.count .indent + o

namespace Kind

theorem Nested.append {o o' o'' : ℕ} {xs ys : List Kind} (h : Nested o xs o')
    (k : Nested o' ys o'') : Nested o (xs ++ ys) o'' where
  inside i := by
    rw [List.take_append, List.count_append, List.count_append]
    by_cases hi : i < xs.length
    · rw [Nat.sub_eq_zero_of_le hi.le, List.take_zero]
      simpa using h.inside i
    · have := k.inside (i - xs.length)
      have := h.after_le
      rw [List.take_of_length_le (by omega)]
      omega
  after_le := by
    have := h.after_le
    have := k.after_le
    rw [List.count_append, List.count_append]
    omega
  after_eq hmem := by
    rw [List.mem_append, not_or] at hmem
    have := h.after_eq hmem.1
    have := k.after_eq hmem.2
    rw [List.count_append, List.count_append]
    omega

/-- Tokens that are no layout neither open nor close a block. -/
theorem nested_of_plain (o : ℕ) {kinds : List Kind} (h : ∀ kind ∈ kinds, kind.isLayout = false) :
    Nested o kinds o := by
  have hnot {kind : Kind} (hkind : kind.isLayout) : kind ∉ kinds := fun hmem => by
    simp [h kind hmem] at hkind
  have hdedent : kinds.count .dedent = 0 := List.count_eq_zero.2 (hnot rfl)
  refine ⟨fun i => ?_, by omega, fun _ => ?_⟩
  · have := (List.take_sublist i kinds).count_le .dedent
    omega
  · rw [hdedent, List.count_eq_zero.2 (hnot rfl)]

theorem nested_indent (o : ℕ) : Nested o [.indent] (o + 1) := by
  have hdedent : [Kind.indent].count .dedent = 0 := by decide
  have hindent : [Kind.indent].count .indent = 1 := by decide
  refine ⟨fun i => ?_, by omega, fun _ => by omega⟩
  have := (List.take_sublist i [Kind.indent]).count_le .dedent
  omega

theorem nested_dedents (n o : ℕ) : Nested (o + n) (List.replicate n .dedent) o := by
  have hdedent : (List.replicate n Kind.dedent).count .dedent = n := List.count_replicate_self
  have hindent : (List.replicate n Kind.dedent).count .indent = 0 := by
    simp [List.count_replicate]
  refine ⟨fun i => ?_, by omega, fun _ => by omega⟩
  have := (List.take_sublist i (List.replicate n Kind.dedent)).count_le .dedent
  omega

theorem nested_unmatchedDedent (o : ℕ) : Nested o [.invalid .unmatchedDedent] 0 := by
  have hdedent : [Kind.invalid .unmatchedDedent].count .dedent = 0 := by decide
  refine ⟨fun i => ?_, by omega, fun h => absurd List.mem_cons_self h⟩
  have := (List.take_sublist i [Kind.invalid .unmatchedDedent]).count_le .dedent
  omega

end Kind

/-- The layout of a line takes the open blocks of the lines before it to those after it. -/
theorem ContentLine.nested_layout (before : List ContentLine) (line : ContentLine) :
    Kind.Nested (Margins.openBlocks (widths before)) ((line.layout before).map Token.kind)
      (Margins.openBlocks (widths (before ++ [line]))) := by
  rw [widths_append, layout, List.map_map, Function.comp_def, List.map_id']
  by_cases h : line.IsMixed
  · rw [if_pos h, if_pos h]
    have hdedent : [Kind.invalid .mixedMargin].count .dedent = 0 := by decide
    have hindent : [Kind.invalid .mixedMargin].count .indent = 0 := by decide
    refine ⟨fun i => ?_, by omega, fun _ => by omega⟩
    have := (List.take_sublist i [Kind.invalid .mixedMargin]).count_le .dedent
    omega
  rw [if_neg h, if_neg h]
  rcases Margins.openBlocks_append (widths before) line.width with
    ⟨hlayout, hopen⟩ | ⟨n, hlayout, hopen⟩ | ⟨hlayout, hopen⟩
  · rw [hlayout, hopen]
    exact Kind.nested_indent _
  · rw [hlayout, ← hopen]
    exact Kind.nested_dedents n _
  · rw [hlayout, hopen]
    exact Kind.nested_unmatchedDedent _

theorem LaidOut.nested {before lines : List ContentLine} {tokens : List Token}
    (h : LaidOut before lines tokens) :
    Kind.Nested (Margins.openBlocks (ContentLine.widths before)) (tokens.map Token.kind) 0 := by
  induction h with
  | done before ends closing =>
    rw [closing]
    have := Kind.nested_dedents (Margins.openBlocks (ContentLine.widths before)) 0
    rw [Nat.zero_add] at this
    exact this.append (Kind.nested_of_plain 0 (by simp [Kind.isLayout]))
  | line before line lines body tokens plain rest ih =>
    rw [List.map_append, List.map_append]
    refine ((ContentLine.nested_layout before line).append (Kind.nested_of_plain _ ?_)).append ih
    intro kind hkind
    obtain ⟨t, ht, rfl⟩ := List.mem_map.1 hkind
    exact (plain t ht).1

/-- The tokens of a text fall into its content lines, each with its layout; no prefix of them
closes more blocks than it opens, and unless a dedent is refused, all blocks opened are closed. -/
theorem Lexer.layout_of_text (input : Input) :
    let tokens := (Lexer.ofInput input).tokens
    let kinds := tokens.map Token.kind
    LaidOut [] (ContentLine.ofText 1 (normalise input.text)) tokens ∧
      (∀ before, before <+: kinds → before.count .dedent ≤ before.count .indent) ∧
      (.invalid .unmatchedDedent ∉ kinds → kinds.count .dedent = kinds.count .indent) := by
  have hlaid : LaidOut [] (ContentLine.ofText 1 (normalise input.text)) (ofInput input).tokens :=
    laidOut_tokens (l := ofInput input) (Stream.lineWise_ofInput input) rfl rfl (.inl rfl) .nil
  obtain ⟨hinside, -, hafter⟩ := hlaid.nested
  refine ⟨hlaid, fun before hbefore => ?_, fun hmem => ?_⟩
  · rw [List.prefix_iff_eq_take.1 hbefore]
    exact hinside _
  · exact hafter hmem

end Offside
