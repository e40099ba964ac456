import Mathlib.Data.List.Chain
import Offside.Proofs.Source.Delivered
import Offside.Proofs.Token.LineEnds

/-!
# What a line yields

A line yields tokens if the first character after its margin exists and starts no comment. It then
yields the layout that its margin calls for, a word for what follows, and its end. A margin is made
of spaces and tabs, but between the words of a line any other blank is skipped as well. So there are
lines with content and without a word: after the margin they hold another blank, such as a form
feed, and then at most blanks and a comment. A line end or an indent of such a line stands beside no
word of it.

On all other lines they do. What is blank from the first character on yields nothing at all.

## Main definitions

* `Offside.ContentLine.IsBlank`, `Offside.ContentLine.IsStray`: lines of nothing but blanks and a
  comment, and those among them whose margin is followed by another blank.
* `Offside.Token.Filled`: tokens that are those of the lines of a text.
* `Offside.Token.Joined`: neighbouring tokens that are a word and the layout or line end beside it.

## Main results

* `Offside.ContentLine.isStray_iff`: the stray lines are the blank lines that take part in the
  tokens.
* `Offside.Lexer.filled_tokens`: what the lines yield from some line on.
* `Offside.Token.Filled.isChain`: how the tokens of lines are joined.
* `Offside.Lexer.content_of_text`: what stands beside line ends and indents, and what lines yield.
-/

namespace Offside

open Source Token

/-! ### Blank lines -/

namespace ContentLine

/-- A line of nothing but blanks and a comment. -/
def IsBlank (line : List Char) : Prop := ∀ c ∈ (line.dropWhile isGap).head?, c = '#'

instance (line : List Char) : Decidable (IsBlank line) :=
  decidable_of_iff ((line.dropWhile isGap).head?.all (· = '#'))
    (by simp [IsBlank, Option.all_eq_true])

/-- A blank line whose margin is followed by a blank that no margin is made of. -/
def IsStray (line : List Char) : Prop :=
  IsBlank line ∧ ∃ c ∈ (line.dropWhile Margin.isMarginChar).head?, isGap c

theorem isGap_of_isMarginChar {c : Char} (h : Margin.isMarginChar c) : isGap c := by
  rcases isMarginChar_iff.1 h with rfl | rfl <;> decide

/-- What is skipped between words is skipped of a line together with its margin. -/
theorem dropWhile_margin (line : List Char) :
    (line.dropWhile Margin.isMarginChar).dropWhile isGap = line.dropWhile isGap := by
  induction line with
  | nil => rfl
  | cons c line ih =>
    by_cases hc : Margin.isMarginChar c
    · rw [List.dropWhile_cons_of_pos hc, List.dropWhile_cons_of_pos (isGap_of_isMarginChar hc), ih]
    · rw [List.dropWhile_cons_of_neg hc]

/-- A gap ends with its line at the latest. -/
theorem dropWhile_gap (cs : List Char) :
    (cs.takeWhile (· ≠ '\n')).dropWhile isGap = (cs.dropWhile isGap).takeWhile (· ≠ '\n') := by
  induction cs with
  | nil => rfl
  | cons c cs ih =>
    by_cases hn : c = '\n'
    · subst hn
      rfl
    · rw [List.takeWhile_cons_of_pos (by simpa using hn)]
      by_cases hc : isGap c
      · rw [List.dropWhile_cons_of_pos hc, List.dropWhile_cons_of_pos hc, ih]
      · rw [List.dropWhile_cons_of_neg hc, List.dropWhile_cons_of_neg hc,
          List.takeWhile_cons_of_pos (by simpa using hn)]

/-- A blank line is stray exactly if it takes part in the tokens. -/
theorem isStray_iff {line : List Char} : IsStray line ↔ IsBlank line ∧ HasContent line := by
  refine and_congr_right fun hblank => ?_
  rw [IsBlank, ← dropWhile_margin] at hblank
  rw [HasContent]
  generalize line.dropWhile Margin.isMarginChar = rest at hblank ⊢
  cases rest with
  | nil => simp
  | cons c rest =>
    by_cases hc : isGap c
    · have hne : c ≠ '#' := by
        rintro rfl
        exact absurd hc (by decide)
      simp [hc, hne]
    · rw [List.dropWhile_cons_of_neg hc] at hblank
      obtain rfl : c = '#' := hblank c rfl
      simp [hc]

theorem hasContent_of_not_isBlank {line : List Char} (h : ¬ IsBlank line) : HasContent line := by
  rw [IsBlank, ← dropWhile_margin] at h
  rw [HasContent]
  cases hrest : line.dropWhile Margin.isMarginChar with
  | nil => simp [hrest] at h
  | cons c rest =>
    refine decide_eq_true fun hc => h ?_
    rw [hrest, hc, List.dropWhile_cons_of_neg (by decide)]
    simp

/-- The content lines of a text are its lines that have content. -/
theorem mem_ofText_iff {text : List Char} {line : ContentLine} :
    line ∈ ofText 1 text ↔ ∃ cs, lineAt text line.number = some cs ∧ HasContent cs ∧
      line.margin = cs.takeWhile Margin.isMarginChar := by
  rw [ofText, List.mem_filterMap]
  constructor
  · rintro ⟨⟨cs, n⟩, hmem, hline⟩
    obtain ⟨hn, hcs⟩ := List.mk_mem_zipIdx_iff_le_and_getElem?_sub.1 hmem
    rw [ofLine?] at hline
    split at hline
    · next hcontent =>
      obtain rfl := (Option.some.inj hline).symm
      exact ⟨cs, by rw [lineAt_of_pos hn]; exact hcs, hcontent, rfl⟩
    · cases hline
  · rintro ⟨cs, hcs, hcontent, hmargin⟩
    have hn : 1 ≤ line.number := by
      by_contra hzero
      rw [Nat.not_le, Nat.lt_one_iff] at hzero
      rw [hzero] at hcs
      cases hcs
    rw [lineAt_of_pos hn] at hcs
    refine ⟨(cs, line.number), List.mk_mem_zipIdx_iff_le_and_getElem?_sub.2 ⟨hn, hcs⟩, ?_⟩
    exact (if_pos hcontent).trans (by rw [← hmargin])

end ContentLine

open ContentLine

/-! ### The tokens of the lines of a text -/

/-- The words of a line of a text. There are some unless the line is blank. -/
structure ContentLine.Fills (text : List Char) (line : ContentLine) (words : List Token) :
    Prop where
  isWord : ∀ t ∈ words, t.IsWord line.number
  nil_iff {cs : List Char} (hcs : lineAt text line.number = some cs) : words = [] ↔ IsBlank cs

/-- After the content lines `before`, the tokens are those of the content lines that follow: each
has its layout, its words, and its end, which only the last one may lack. Then the open blocks are
closed. -/
inductive Token.Filled (text : List Char) :
    List ContentLine → List ContentLine → List Token → Prop
  | done (before : List ContentLine) (ends : List Token)
      (closing : ends.map Token.kind =
        List.replicate (Margins.openBlocks (widths before)) .dedent ++ [.endOfInput]) :
      Filled text before [] ends
  | line (before : List ContentLine) (line : ContentLine) (lines : List ContentLine)
      (words tokens : List Token) (fills : line.Fills text words)
      (rest : Filled text (before ++ [line]) lines tokens) :
      Filled text before (line :: lines)
        (line.layout before ++ words ++ line.lineEnd :: tokens)
  | last (before : List ContentLine) (line : ContentLine) (words ends : List Token)
      (fills : line.Fills text words)
      (closing : ends.map Token.kind =
        List.replicate (Margins.openBlocks (widths (before ++ [line]))) .dedent ++
          [.endOfInput]) :
      Filled text before [line] (line.layout before ++ words ++ ends)

/-! ### Neighbouring tokens -/

namespace ContentLine

/-- The end of a line is on that line alone. -/
theorem number_of_lineEnd {line : ContentLine} {n : ℕ} (h : line.lineEnd.OnLine n) :
    line.number = n := by
  have hplace : line.lineEnd.location = ⟨n + 1, 1⟩ := h
  exact Nat.succ.inj (Location.mk.inj hplace).1

end ContentLine

namespace Token

theorem OnLine.line_eq {n : ℕ} {t : Token} (h : t.OnLine n) (hne : t.kind ≠ .endOfLine) :
    t.location.line = n := by
  rwa [OnLine, if_neg hne] at h

theorem OnLine.eq {m n : ℕ} {t : Token} (hm : t.OnLine m) (hn : t.OnLine n) : m = n := by
  rw [OnLine] at hm hn
  split at hm
  · next hkind =>
    rw [if_pos hkind, hm] at hn
    exact Nat.succ.inj (Location.mk.inj hn).1
  · next hkind => exact hm.symm.trans ((if_neg hkind).mp hn)

theorem IsWord.ne_indent {n : ℕ} {t : Token} (h : t.IsWord n) : t.kind ≠ .indent := by
  intro hkind
  have := h.plain
  rw [hkind] at this
  cases this

/-- Neighbouring tokens of a text: on a line that is not blank, what the end of the line follows is
a word of the line, and so is what an indent comes before. -/
structure Joined (text : List Char) (u v : Token) : Prop where
  ended {n : ℕ} {cs : List Char} (line : lineAt text n = some cs) (content : ¬ IsBlank cs)
    (ends : v.kind = .endOfLine) (on : v.OnLine n) : u.IsWord n
  opened {n : ℕ} {cs : List Char} (line : lineAt text n = some cs) (content : ¬ IsBlank cs)
    (opens : u.kind = .indent) (on : u.OnLine n) : v.IsWord n

variable {text : List Char} {u v : Token} {words rest tokens : List Token} {line : ContentLine}
  {before lines : List ContentLine}

theorem joined_of_ne (hu : u.kind ≠ .indent) (hv : v.kind ≠ .endOfLine) : Joined text u v :=
  ⟨fun _ _ ends => absurd ends hv, fun _ _ opens => absurd opens hu⟩

theorem isChain_of_ne (h : ∀ t ∈ tokens, t.kind ≠ .indent ∧ t.kind ≠ .endOfLine) :
    tokens.IsChain (Joined text) :=
  (List.pairwise_of_forall_mem_list fun _ hu _ hv => joined_of_ne (h _ hu).1 (h _ hv).2).isChain

/-- The tokens may follow any token that is no indent. -/
def FollowsAny (text : List Char) (tokens : List Token) : Prop :=
  ∀ u : Token, u.kind ≠ .indent → ∀ v ∈ tokens.head?, Joined text u v

/-- After the margin of a line, its words and its end are joined to what comes before them. -/
theorem joined_of_fills (fills : line.Fills text words)
    (hrest : ∀ v ∈ rest.head?, v.kind = .endOfLine → v = line.lineEnd)
    (hu : u.kind = .indent → u.location = line.place) :
    ∀ v ∈ (words ++ rest).head?, Joined text u v := by
  have hnumber {n : ℕ} (opens : u.kind = .indent) (on : u.OnLine n) : n = line.number := by
    rw [← on.line_eq (by rw [opens]; exact Kind.noConfusion), hu opens]
    rfl
  intro v hv
  cases words with
  | nil =>
    -- The line is blank, so nothing is said of its end and of its indent.
    refine ⟨fun hline content ends on => ?_, fun hline content opens on => ?_⟩
    · rw [hrest v hv ends] at on
      rw [← number_of_lineEnd on] at hline
      exact absurd ((fills.nil_iff hline).1 rfl) content
    · rw [hnumber opens on] at hline
      exact absurd ((fills.nil_iff hline).1 rfl) content
  | cons word words =>
    obtain rfl : word = v := Option.some.inj hv
    have hword := fills.isWord word List.mem_cons_self
    refine ⟨fun _ _ ends => absurd ends hword.noEnd.1, fun _ _ opens on => ?_⟩
    rw [hnumber opens on]
    exact hword

theorem isChain_layout (before : List ContentLine) (line : ContentLine) :
    (line.layout before).IsChain (Joined text) := by
  rcases layout_cases before line with ⟨kind, -, hlayout⟩ | ⟨n, hlayout⟩
  · rw [hlayout]
    exact List.isChain_singleton _
  · rw [hlayout]
    refine isChain_of_ne fun t ht => ?_
    rw [(List.mem_replicate.1 ht).2]
    exact ⟨Kind.noConfusion, Kind.noConfusion⟩

/-- The words of a line are joined to its end. -/
theorem isChain_words (isWord : ∀ t ∈ words, t.IsWord line.number)
    (hrest : ∀ v ∈ rest.head?, v.kind = .endOfLine → v = line.lineEnd)
    (chain : rest.IsChain (Joined text)) : (words ++ rest).IsChain (Joined text) := by
  refine List.isChain_append.2 ⟨isChain_of_ne fun t ht => ?_, chain, fun u hu v hv => ?_⟩
  · exact ⟨(isWord t ht).ne_indent, (isWord t ht).noEnd.1⟩
  · have hword := isWord u (List.mem_of_getLast? hu)
    refine ⟨fun _ _ ends on => ?_, fun _ _ opens => absurd opens hword.ne_indent⟩
    rw [hrest v hv ends] at on
    rw [← number_of_lineEnd on]
    exact hword

/-- The tokens of a line are joined, to each other and to those that follow. -/
theorem isChain_line (before : List ContentLine) (fills : line.Fills text words)
    (hrest : ∀ v ∈ rest.head?, v.kind = .endOfLine → v = line.lineEnd)
    (chain : rest.IsChain (Joined text)) :
    (line.layout before ++ words ++ rest).IsChain (Joined text) ∧
      FollowsAny text (line.layout before ++ words ++ rest) := by
  have hwords := isChain_words fills.isWord hrest chain
  rw [List.append_assoc]
  refine ⟨List.isChain_append.2 ⟨isChain_layout before line, hwords, fun u hu => ?_⟩,
    fun u hu v hv => ?_⟩
  · exact joined_of_fills fills hrest fun _ => (mem_layout (List.mem_of_getLast? hu)).2
  · cases hhead : line.layout before with
    | nil =>
      rw [hhead, List.nil_append] at hv
      exact joined_of_fills fills hrest (fun hindent => absurd hindent hu) v hv
    | cons t layout =>
      rw [hhead] at hv
      obtain rfl : t = v := Option.some.inj hv
      have ht : t ∈ line.layout before := by
        rw [hhead]
        exact List.mem_cons_self
      exact joined_of_ne hu (Kind.ne_endOfLine_of_isLayout (mem_layout ht).1)

/-- In the tokens of lines, ends of lines and indents are joined to the words beside them. -/
theorem Filled.isChain (h : Filled text before lines tokens) :
    tokens.IsChain (Joined text) ∧ FollowsAny text tokens := by
  have hclosing {ends : List Token} {n : ℕ}
      (closing : ends.map Token.kind = List.replicate n .dedent ++ [.endOfInput]) :
      ∀ t ∈ ends, t.kind ≠ .indent ∧ t.kind ≠ .endOfLine := by
    intro t ht
    rcases kind_of_closing closing t ht with hkind | hkind <;> rw [hkind] <;>
      exact ⟨Kind.noConfusion, Kind.noConfusion⟩
  induction h with
  | done before ends closing =>
    refine ⟨isChain_of_ne (hclosing closing), fun u hu v hv => ?_⟩
    exact joined_of_ne hu (hclosing closing v (List.mem_of_head? hv)).2
  | line before line lines words tokens fills _ ih =>
    refine isChain_line before fills (fun v hv _ => (Option.some.inj hv).symm) ?_
    exact List.isChain_cons.2 ⟨ih.2 line.lineEnd Kind.noConfusion, ih.1⟩
  | last before line words ends fills closing =>
    refine isChain_line before fills (fun v hv hends => ?_) (isChain_of_ne (hclosing closing))
    exact absurd hends (hclosing closing v (List.mem_of_head? hv)).2

/-! ### The tokens of one line -/

/-- What a content line yields: its layout, its words, if it is not blank, and its end. -/
inductive Belongs (text : List Char) (line : ContentLine) (t : Token) : Prop
  | layout (kind : t.kind.isLayout) (place : t.location = line.place)
  | word (isWord : t.IsWord line.number)
      (content : ∀ cs, lineAt text line.number = some cs → ¬ IsBlank cs)
  | lineEnd (eq : t = line.lineEnd)

variable {t : Token} {n : ℕ}

theorem Belongs.onLine (h : t.Belongs text line) : t.OnLine line.number := by
  cases h with
  | layout kind place =>
    rw [OnLine, if_neg (Kind.ne_endOfLine_of_isLayout kind), place]
    rfl
  | word isWord => exact isWord.onLine
  | lineEnd eq =>
    rw [eq]
    exact rfl

/-- A word belongs to one line, which is not blank. -/
theorem Belongs.content (h : t.Belongs text line) (word : t.IsWord n) {cs : List Char}
    (hcs : lineAt text n = some cs) : ¬ IsBlank cs := by
  have hn : line.number = n := (h.onLine.line_eq word.noEnd.1).symm.trans word.line
  cases h with
  | layout kind => exact absurd kind (by simp [word.plain])
  | word _ content => exact content cs (hn ▸ hcs)
  | lineEnd eq => exact absurd (congrArg Token.kind eq) word.noEnd.1

theorem belongs_of_fills (before : List ContentLine) (fills : line.Fills text words) :
    ∀ t ∈ line.layout before ++ words, t.Belongs text line := by
  refine List.forall_mem_append.2 ⟨fun t ht => ?_, fun t ht => .word (fills.isWord t ht) ?_⟩
  · exact .layout (mem_layout ht).1 (mem_layout ht).2
  · intro cs hcs
    rw [← fills.nil_iff hcs]
    exact List.ne_nil_of_mem ht

theorem exists_word_of_fills (fills : line.Fills text words) {cs : List Char}
    (hcs : lineAt text line.number = some cs) (content : ¬ IsBlank cs) :
    ∃ t ∈ words, t.IsWord line.number := by
  obtain ⟨t, ht⟩ := List.exists_mem_of_ne_nil words (mt (fills.nil_iff hcs).1 content)
  exact ⟨t, ht, fills.isWord t ht⟩

/-- Up to the end of the input, each token belongs to a content line, and each of these that is not
blank has a word. -/
theorem Filled.exists_body (h : Filled text before lines tokens) :
    ∃ body closing, tokens = body ++ closing ∧
      (∃ n, closing.map Token.kind = List.replicate n .dedent ++ [.endOfInput]) ∧
      (∀ t ∈ body, ∃ line ∈ lines, t.Belongs text line) ∧
      ∀ line ∈ lines, ∀ cs, lineAt text line.number = some cs → ¬ IsBlank cs →
        ∃ t ∈ body, t.IsWord line.number := by
  induction h with
  | done before ends closing =>
    exact ⟨[], ends, rfl, ⟨_, closing⟩, List.forall_mem_nil _, List.forall_mem_nil _⟩
  | line before line lines words tokens fills _ ih =>
    obtain ⟨body, closing, rfl, hclosing, hbelongs, hwords⟩ := ih
    refine ⟨line.layout before ++ words ++ line.lineEnd :: body, closing, by simp, hclosing,
      List.forall_mem_append.2 ⟨fun t ht => ?_, List.forall_mem_cons.2 ⟨?_, fun t ht => ?_⟩⟩,
      List.forall_mem_cons.2 ⟨fun cs hcs content => ?_, fun later hlater cs hcs content => ?_⟩⟩
    · exact ⟨line, List.mem_cons_self, belongs_of_fills before fills t ht⟩
    · exact ⟨line, List.mem_cons_self, .lineEnd rfl⟩
    · obtain ⟨later, hlater, ht⟩ := hbelongs t ht
      exact ⟨later, List.mem_cons_of_mem _ hlater, ht⟩
    · obtain ⟨t, ht, hword⟩ := exists_word_of_fills fills hcs content
      exact ⟨t, by simp [ht], hword⟩
    · obtain ⟨t, ht, hword⟩ := hwords later hlater cs hcs content
      exact ⟨t, by simp [ht], hword⟩
  | last before line words ends fills closing =>
    refine ⟨_, ends, rfl, ⟨_, closing⟩, fun t ht => ?_, fun later hlater cs hcs content => ?_⟩
    · exact ⟨line, List.mem_singleton_self _, belongs_of_fills before fills t ht⟩
    · obtain rfl := List.mem_singleton.1 hlater
      obtain ⟨t, ht, hword⟩ := exists_word_of_fills fills hcs content
      exact ⟨t, List.mem_append_right _ ht, hword⟩

/-- A token of lines belongs to one of them, if it is not of the end of the input. -/
theorem Filled.exists_belongs (h : Filled text before lines tokens) (ht : t ∈ tokens)
    (hne : t.kind ≠ .dedent ∧ t.kind ≠ .endOfInput) : ∃ line ∈ lines, t.Belongs text line := by
  obtain ⟨body, closing, rfl, ⟨k, hclosing⟩, hbelongs, -⟩ := h.exists_body
  refine hbelongs t ((List.mem_append.1 ht).resolve_right fun ht => ?_)
  exact (kind_of_closing hclosing t ht).elim hne.1 hne.2

theorem Filled.exists_last (h : Filled text before lines tokens) :
    ∃ t ∈ tokens.getLast?, t.kind = .endOfInput := by
  obtain ⟨body, closing, rfl, ⟨k, hclosing⟩, -⟩ := h.exists_body
  have hlast := congrArg List.getLast? hclosing
  rw [List.getLast?_map, List.getLast?_concat] at hlast
  obtain ⟨t, ht, hkind⟩ := Option.map_eq_some_iff.1 hlast
  exact ⟨t, by rw [List.getLast?_append, ht]; rfl, hkind⟩

/-! ### All lines of a text -/

section

variable (h : Filled text [] (ofText 1 text) tokens)
include h

theorem Filled.exists_line (ht : t ∈ tokens) (hne : t.kind ≠ .dedent ∧ t.kind ≠ .endOfInput) :
    ∃ n line, t.OnLine n ∧ lineAt text n = some line ∧ HasContent line := by
  obtain ⟨line, hmem, hbelongs⟩ := h.exists_belongs ht hne
  obtain ⟨cs, hcs, hcontent, -⟩ := mem_ofText_iff.1 hmem
  exact ⟨line.number, cs, hbelongs.onLine, hcs, hcontent⟩

theorem Filled.not_isBlank (ht : t ∈ tokens) (word : t.IsWord n) {line : List Char}
    (hline : lineAt text n = some line) : ¬ IsBlank line := by
  have hne : t.kind ≠ .dedent := fun hkind => by simpa [hkind, Kind.isLayout] using word.plain
  obtain ⟨_, -, hbelongs⟩ := h.exists_belongs ht ⟨hne, word.noEnd.2⟩
  exact hbelongs.content word hline

/-- The end of a line directly follows a word of the line, unless the line is stray. -/
theorem Filled.lineEnd_iff {init rest : List Token} (hsplit : tokens = init ++ t :: rest)
    (ends : t.kind = .endOfLine) :
    ∃ n line, t.OnLine n ∧ lineAt text n = some line ∧ HasContent line ∧
      ((∃ u ∈ init.getLast?, u.IsWord n) ↔ ¬ IsStray line) := by
  have ht : t ∈ tokens := by simp [hsplit]
  have hkind : t.kind ≠ .indent ∧ t.kind ≠ .dedent ∧ t.kind ≠ .endOfInput := by
    rw [ends]
    exact ⟨Kind.noConfusion, Kind.noConfusion, Kind.noConfusion⟩
  obtain ⟨n, line, hon, hline, hcontent⟩ := h.exists_line ht hkind.2
  refine ⟨n, line, hon, hline, hcontent, ?_, fun hstray => ?_⟩
  · rintro ⟨u, hu, word⟩ hstray
    have hmem : u ∈ tokens := hsplit ▸ List.mem_append_left _ (List.mem_of_getLast? hu)
    exact h.not_isBlank hmem word hline hstray.1
  · have hblank : ¬ IsBlank line := fun hblank => hstray (isStray_iff.2 ⟨hblank, hcontent⟩)
    obtain ⟨hchain, hfollows⟩ := h.isChain
    rw [hsplit] at hchain hfollows
    cases hlast : init.getLast? with
    | none =>
      -- The tokens do not begin with the end of a line that has words.
      rw [List.getLast?_eq_none_iff.1 hlast] at hfollows
      have hself := (hfollows t hkind.1 t rfl).ended hline hblank ends hon
      exact absurd ends hself.noEnd.1
    | some u =>
      have hjoined := (List.isChain_append.1 hchain).2.2 u hlast t rfl
      exact ⟨u, rfl, hjoined.ended hline hblank ends hon⟩

/-- An indent comes directly before a word of its line, unless the line is stray. -/
theorem Filled.indent_iff {init rest : List Token} (hsplit : tokens = init ++ t :: rest)
    (opens : t.kind = .indent) :
    ∃ n line, t.OnLine n ∧ lineAt text n = some line ∧ HasContent line ∧
      ((∃ u ∈ rest.head?, u.IsWord n) ↔ ¬ IsStray line) := by
  have ht : t ∈ tokens := by simp [hsplit]
  have hkind : t.kind ≠ .dedent ∧ t.kind ≠ .endOfInput := by
    rw [opens]
    exact ⟨Kind.noConfusion, Kind.noConfusion⟩
  obtain ⟨n, line, hon, hline, hcontent⟩ := h.exists_line ht hkind
  refine ⟨n, line, hon, hline, hcontent, ?_, fun hstray => ?_⟩
  · rintro ⟨u, hu, word⟩ hstray
    have hmem : u ∈ tokens :=
      hsplit ▸ List.mem_append_right _ (List.mem_cons_of_mem _ (List.mem_of_head? hu))
    exact h.not_isBlank hmem word hline hstray.1
  · have hblank : ¬ IsBlank line := fun hblank => hstray (isStray_iff.2 ⟨hblank, hcontent⟩)
    have hchain := h.isChain.1
    rw [hsplit] at hchain
    cases rest with
    | nil =>
      obtain ⟨u, hu, hend⟩ := h.exists_last
      rw [hsplit, List.getLast?_concat] at hu
      obtain rfl : t = u := Option.some.inj hu
      exact absurd hend hkind.2
    | cons v rest =>
      have hjoined := (List.isChain_cons.1 (List.isChain_append.1 hchain).2.1).1 v rfl
      exact ⟨v, rfl, hjoined.opened hline hblank opens hon⟩

end

end Token

namespace Lexer

variable {input : Input} {before : List ContentLine} {l : Lexer}

/-- Past the margin of a line of the text, its words are those that the stream has before it. -/
theorem fills_of_holds {line : ContentLine} {words : List Token} {used : List Char} {s : Stream}
    (reads : (Stream.ofInput input).Reads used s) (holds : line.Holds words s)
    (hline : line ∈ ofText 1 (normalise input.text)) :
    line.Fills (normalise input.text) words := by
  refine ⟨holds.isWord, fun {cs} hcs => ?_⟩
  obtain ⟨_, hcs', -, hmargin⟩ := mem_ofText_iff.1 hline
  obtain rfl : cs = _ := Option.some.inj (hcs.symm.trans hcs')
  have htext : normalise input.text = used ++ s.remaining := reads.remaining
  have hplace : s.location = _ := reads.location.trans (after_start used)
  rw [holds.place, Location.mk.injEq] at hplace
  obtain ⟨hnumber, hlength⟩ := hplace
  rw [htext, hnumber, Nat.add_comm, lineAt_place, Option.some.injEq] at hcs
  -- What has been read of the line is its margin.
  have hread : used.rtakeWhile (· ≠ '\n') = line.margin := by
    have hprefix : line.margin <+: cs := hmargin ▸ List.takeWhile_prefix _
    exact (List.prefix_of_prefix_length_le (hcs ▸ List.prefix_append _ _) hprefix hlength.ge)
      |>.eq_of_length hlength.symm
  have hgap : ∀ c ∈ line.margin, isGap c := by
    intro c hc
    rw [hmargin] at hc
    exact isGap_of_isMarginChar (List.all_eq_true.1 List.all_takeWhile c hc)
  rw [holds.nil_iff, IsBlank, ← hcs, hread, List.dropWhile_append_of_pos hgap, dropWhile_gap]
  cases s.remaining.dropWhile isGap with
  | nil => simp
  | cons c rest => by_cases hc : c = '\n' <;> simp [hc]

/-- What the lines of a text yield from the start of some line on. -/
theorem filled_tokens {used : List Char} (h : AtStart before l)
    (reads : (Stream.ofInput input).Reads used l.stream)
    (lines : l.contentLines ⊆ ofText 1 (normalise input.text)) :
    Filled (normalise input.text) before l.contentLines l.tokens := by
  induction hn : l.stream.remaining.length using Nat.strongRecOn generalizing before l used with
  | _ n ih =>
    obtain ⟨gap, hcontent⟩ := reads_firstContent h.lineWise
    cases h.firstLine with
    | none hlines closing =>
      rw [hlines]
      exact .done before _ closing
    | line line words m next hlines shorter holds hreads tokens =>
      obtain ⟨rest, hreads⟩ := hreads
      rw [hlines] at lines ⊢
      have hfills := fills_of_holds (reads.trans hcontent) holds (lines List.mem_cons_self)
      have hnext := ih _ (hn ▸ shorter) next ((reads.trans hcontent).trans hreads)
        (fun _ hmem => lines (List.mem_cons_of_mem _ hmem)) rfl
      have htokens : l.tokens = line.layout before ++ words ++ line.lineEnd :: m.tokens := by
        rw [tokens]
        simp [lineEnd]
      rw [htokens]
      exact .line before line _ words _ hfills hnext
    | last line words ends hlines holds unended tokens closing =>
      rw [hlines] at lines ⊢
      rw [tokens]
      exact .last before line words ends
        (fills_of_holds (reads.trans hcontent) holds (lines List.mem_cons_self)) closing

/-- Line ends and indents stand on lines with content. A line end directly follows a word of its
line, and an indent comes directly before one, exactly if the line is not stray. Up to the end of
the input, which closes the open blocks, a blank line yields nothing unless it is stray, a stray
line yields no word, and every other line yields one. -/
theorem content_of_text (input : Input) :
    let text := normalise input.text
    let tokens := (ofInput input).tokens
    (∀ before t after, tokens = before ++ t :: after → t.kind = .endOfLine →
      ∃ n line, t.OnLine n ∧ lineAt text n = some line ∧ HasContent line ∧
        ((∃ u ∈ before.getLast?, u.IsWord n) ↔ ¬ IsStray line)) ∧
    (∀ before t after, tokens = before ++ t :: after → t.kind = .indent →
      ∃ n line, t.OnLine n ∧ lineAt text n = some line ∧ HasContent line ∧
        ((∃ u ∈ after.head?, u.IsWord n) ↔ ¬ IsStray line)) ∧
    ∃ body closing, tokens = body ++ closing ∧
      (∃ n, closing.map Token.kind = List.replicate n .dedent ++ [.endOfInput]) ∧
      ∀ n line, lineAt text n = some line →
        (IsBlank line → ¬ IsStray line → ∀ t ∈ body, ¬ t.OnLine n) ∧
        (IsStray line → ∀ t ∈ body, t.OnLine n → t.kind.isLayout ∨ t.kind = .endOfLine) ∧
        (¬ IsBlank line → ∃ t ∈ body, t.IsWord n) := by
  intro text tokens
  have hstart : AtStart [] (ofInput input) :=
    ⟨Stream.lineWise_ofInput input, rfl, rfl, .inl rfl, .nil⟩
  have hfilled : Filled text [] (ofText 1 text) tokens :=
    filled_tokens hstart (.refl hstart.lineWise) (List.Subset.refl _)
  refine ⟨fun _ _ _ hsplit => hfilled.lineEnd_iff hsplit,
    fun _ _ _ hsplit => hfilled.indent_iff hsplit, ?_⟩
  obtain ⟨body, closing, htokens, hclosing, hbelongs, hwords⟩ := hfilled.exists_body
  refine ⟨body, closing, htokens, hclosing, fun n line hline => ⟨?_, ?_, fun hblank => ?_⟩⟩
  · intro hblank hstray t ht hon
    obtain ⟨content, hmem, h⟩ := hbelongs t ht
    obtain ⟨cs, hcs, hcontent, -⟩ := mem_ofText_iff.1 hmem
    obtain rfl : cs = line := Option.some.inj (hcs.symm.trans (h.onLine.eq hon ▸ hline))
    exact hstray (isStray_iff.2 ⟨hblank, hcontent⟩)
  · intro hstray t ht hon
    obtain ⟨content, -, h⟩ := hbelongs t ht
    obtain rfl := h.onLine.eq hon
    cases h with
    | layout kind => exact .inl kind
    | word _ content => exact absurd hstray.1 (content line hline)
    | lineEnd eq => exact .inr (congrArg Token.kind eq)
  · have hmem : ⟨n, line.takeWhile Margin.isMarginChar⟩ ∈ ofText 1 text :=
      mem_ofText_iff.2 ⟨line, hline, hasContent_of_not_isBlank hblank, rfl⟩
    exact hwords _ hmem line hline hblank

/-- A form feed after the margin. The line is blank, and yet it opens a block, with nothing but its
own end in it. -/
theorem indent_of_formFeed :
    let input : Input := ⟨"x\n  \x0c\ny\n".toList, false⟩
    lineAt (normalise input.text) 2 = some [' ', ' ', '\x0c'] ∧ IsBlank [' ', ' ', '\x0c'] ∧
      ∃ before t u after, (ofInput input).tokens = before ++ t :: u :: after ∧
        t.kind = .indent ∧ t.OnLine 2 ∧ u.kind = .endOfLine ∧ u.OnLine 2 := by
  intro input
  have htokens : (ofInput input).tokens =
      [⟨.identifier "x", ⟨1, 1⟩⟩, ⟨.endOfLine, ⟨2, 1⟩⟩] ++
        ⟨.indent, ⟨2, 3⟩⟩ :: ⟨.endOfLine, ⟨3, 1⟩⟩ ::
          [⟨.dedent, ⟨3, 1⟩⟩, ⟨.identifier "y", ⟨3, 1⟩⟩, ⟨.endOfLine, ⟨4, 1⟩⟩,
            ⟨.endOfInput, ⟨4, 1⟩⟩] := by decide +kernel
  exact ⟨by decide, by decide, _, _, _, _, htokens, rfl, rfl, rfl, rfl⟩

end Lexer

end Offside
