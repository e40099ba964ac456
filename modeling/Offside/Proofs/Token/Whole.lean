import Offside.Proofs.Token.Counted
import Offside.Proofs.Token.Scans
import Offside.Proofs.Tree.Relocated

/-!
# Texts with common lines

Two texts that go on with the same whole lines are scanned alike as long as these lines last,
whatever follows them in either text, and whatever came before. No scanner looks past the end of the
line that it is on.

## Main definitions

* `Offside.Token.Whole`: characters that go on to the end of a line, or of both texts.
* `Offside.Token.BlankLines`: the characters of complete lines that have no content.
* `Offside.Source.Stream.Abreast`: streams that go on with the same characters.

## Main results

* `Offside.Token.Whole.tokenOf`: a token does not look past the end of the line.
* `Offside.Source.Stream.Abreast.scan`: a token is the same in both streams.
* `Offside.Source.Stream.Abreast.firstContent`: so is the next line with content, if it is common.
-/

namespace Offside

open Source Token

/-! ### Characters before the end of a line -/

namespace Token

/-- Characters that either go on to the end of a line, or to the end of both texts: whatever `rest`
and `rest'` are left of the two texts after them. -/
def Whole (rest rest' common : List Char) : Prop :=
  rest = [] ∧ rest' = [] ∨ common.getLast? = some '\n'

variable {rest rest' cs : List Char} {c : Char} {p : Char → Bool}

theorem Whole.symm (h : Whole rest rest' cs) : Whole rest' rest cs := h.imp And.symm id

/-- Before the end of the line there is more to come. -/
theorem Whole.of_append (used : List Char) (h : Whole rest rest' (used ++ cs))
    (hused : '\n' ∉ used) : Whole rest rest' cs := by
  refine h.imp_right fun hlast => ?_
  cases cs with
  | nil =>
    rw [List.append_nil] at hlast
    exact absurd (List.mem_of_getLast? hlast) hused
  | cons c cs => rwa [List.getLast?_append_of_ne_nil _ (List.cons_ne_nil c cs)] at hlast

/-- A run of characters of a class without the line feed ends in the common part. -/
theorem Whole.takeWhile (h : Whole rest rest' cs) (hp : p '\n' = false) :
    (cs ++ rest).takeWhile p = cs.takeWhile p ∧
      (cs ++ rest).dropWhile p = cs.dropWhile p ++ rest ∧
      Whole rest rest' (cs.dropWhile p) := by
  have hsplit := List.takeWhile_append_dropWhile (p := p) (l := cs)
  have hwhole : Whole rest rest' (cs.dropWhile p) := by
    refine Whole.of_append _ ?_ (not_mem_takeWhile hp cs)
    rwa [hsplit]
  refine ⟨?_, ?_, hwhole⟩
  · rcases h with ⟨rfl, -⟩ | hlast
    · rw [List.append_nil]
    · obtain ⟨cs, rfl⟩ := List.getLast?_eq_some_iff.1 hlast
      rw [List.append_assoc, List.singleton_append, (takeWhile_append_stop hp cs rest).1,
        (takeWhile_append_stop hp cs []).1]
  · rcases h with ⟨rfl, -⟩ | hlast
    · rw [List.append_nil, List.append_nil]
    · obtain ⟨cs, rfl⟩ := List.getLast?_eq_some_iff.1 hlast
      rw [List.append_assoc, List.singleton_append, (takeWhile_append_stop hp cs rest).2,
        (takeWhile_append_stop hp cs []).2, List.append_assoc, List.singleton_append]

/-- The first of the characters to come. -/
theorem Whole.head? (h : Whole rest rest' cs) : (cs ++ rest).head? = cs.head? := by
  rcases h with ⟨rfl, -⟩ | hlast
  · rw [List.append_nil]
  · cases cs with
    | nil => cases hlast
    | cons c cs => rfl

theorem Whole.of_cons (h : Whole rest rest' (c :: cs)) (hc : c ≠ '\n') : Whole rest rest' cs :=
  Whole.of_append [c] h (by simpa using hc.symm)

/-! ### Tokens before the end of a line -/

section

variable (cs more : List Char)

theorem closeOf_lineEnd (c : Char) :
    closeOf c (cs ++ '\n' :: more) = ((closeOf c cs).1, (closeOf c cs).2 ++ '\n' :: more) := by
  cases cs with
  | nil => rfl
  | cons d cs => by_cases hd : d = quote <;> simp [closeOf, hd]

theorem escapeOf_lineEnd :
    escapeOf (cs ++ '\n' :: more) = ((escapeOf cs).1, (escapeOf cs).2 ++ '\n' :: more) := by
  cases cs with
  | nil => rfl
  | cons letter cs =>
    rw [List.cons_append, escapeOf, escapeOf]
    split
    · rfl
    · split
      · exact closeOf_lineEnd cs more _
      · rfl

theorem characterOf_lineEnd :
    characterOf (cs ++ '\n' :: more) =
      ((characterOf cs).1, (characterOf cs).2 ++ '\n' :: more) := by
  cases cs with
  | nil => rfl
  | cons c cs =>
    rw [List.cons_append, characterOf, characterOf]
    split
    · rfl
    · split
      · rfl
      · split
        · exact escapeOf_lineEnd cs more
        · exact closeOf_lineEnd cs more c

theorem symbolOf_lineEnd (c : Char) :
    symbolOf c (cs ++ '\n' :: more) = ((symbolOf c cs).1, (symbolOf c cs).2 ++ '\n' :: more) := by
  cases cs with
  | nil =>
    rw [symbolOf, symbolOf, List.nil_append, List.head?_cons, Option.bind_some,
      ofPair?_of_isDelimiter (by decide)]
    dsimp only [List.head?_nil, Option.bind_none]
    cases Symbol.ofChar? c <;> rfl
  | cons d cs =>
    rw [symbolOf, symbolOf, List.cons_append, List.head?_cons, List.head?_cons]
    cases (some d).bind (Symbol.ofPair? c) with
    | some sign => rfl
    | none => cases Symbol.ofChar? c <;> rfl

/-- A token does not look past the end of the line, whether or not it is refused. -/
theorem tokenOf_lineEnd (c : Char) :
    tokenOf c (cs ++ '\n' :: more) = ((tokenOf c cs).1, (tokenOf c cs).2 ++ '\n' :: more) := by
  have hnum : startsNumber c (cs ++ '\n' :: more) = startsNumber c cs := by
    cases cs with
    | nil => rw [startsNumber, startsNumber]; rfl
    | cons d cs => rfl
  rw [tokenOf, tokenOf, hnum]
  split
  · exact characterOf_lineEnd cs more
  · split
    · have hstop : isNumberChar '\n' = false := by decide
      obtain ⟨htake, hdrop⟩ := takeWhile_append_stop hstop (c :: cs) more
      rw [numberOf, ← List.cons_append, htake, hdrop]
      rfl
    · split
      · have hstop : isWordChar '\n' = false := by decide
        obtain ⟨htake, hdrop⟩ := takeWhile_append_stop hstop (c :: cs) more
        rw [wordOf, ← List.cons_append, htake, hdrop]
        rfl
      · exact symbolOf_lineEnd cs more c

end

/-- A token of the common part ends in it. -/
theorem Whole.tokenOf (h : Whole rest rest' (c :: cs)) (hc : c ≠ '\n') :
    tokenOf c (cs ++ rest) = ((tokenOf c cs).1, (tokenOf c cs).2 ++ rest) := by
  rcases h.of_cons hc with ⟨rfl, -⟩ | hlast
  · rw [List.append_nil, List.append_nil]
  · obtain ⟨cs, rfl⟩ := List.getLast?_eq_some_iff.1 hlast
    rw [List.append_assoc, List.singleton_append, tokenOf_lineEnd cs rest c,
      tokenOf_lineEnd cs [] c, List.append_assoc, List.singleton_append]

/-- Characters of which whole lines are left, or none. -/
def Left (rest rest' common : List Char) : Prop := Whole rest rest' common ∨ common = []

/-- If none are left, the texts may still go on. -/
theorem Left.cases (h : Left rest rest' cs) :
    Whole rest rest' cs ∨ cs = [] ∧ ¬ Whole rest rest' [] := by
  by_cases hwhole : Whole rest rest' cs
  · exact .inl hwhole
  · obtain rfl := h.resolve_left hwhole
    exact .inr ⟨rfl, hwhole⟩

/-- After the end of a line whole lines are left, or none. -/
theorem Whole.left_of_cons (h : Whole rest rest' (c :: cs)) : Left rest rest' cs := by
  by_cases hcs : cs = []
  · exact .inr hcs
  · exact .inl (h.imp_right fun hlast => by rwa [List.getLast?_cons_of_ne_nil hcs] at hlast)

end Token

/-! ### Blank lines -/

namespace Token

/-- The characters of a line that has no content: a margin, and perhaps a comment. -/
structure BlankLine (cs : List Char) : Prop where
  line : '\n' ∉ cs
  blank : ∀ c, (cs.dropWhile Margin.isMarginChar).head? = some c → c = '#'

/-- The characters of complete lines that have no content. -/
inductive BlankLines : List Char → Prop
  | nil : BlankLines []
  | cons {line more : List Char} (blank : BlankLine line) (later : BlankLines more) :
    BlankLines (line ++ '\n' :: more)

variable {cs ds : List Char}

theorem BlankLines.newline (h : cs.dropWhile Margin.isMarginChar = '\n' :: ds)
    (later : BlankLines ds) : BlankLines cs := by
  rw [← List.takeWhile_append_dropWhile (p := Margin.isMarginChar) (l := cs), h]
  refine .cons ⟨not_mem_takeWhile isMarginChar_newline _, fun c hc => ?_⟩ later
  have hall := List.all_eq_true.1 (List.all_takeWhile (p := Margin.isMarginChar) (l := cs))
  rw [← List.append_nil (List.takeWhile _ _), List.dropWhile_append_of_pos hall] at hc
  cases hc

theorem BlankLines.comment {es : List Char} (h : cs.dropWhile Margin.isMarginChar = '#' :: es)
    (hline : ('#' :: es).dropWhile (· ≠ '\n') = '\n' :: ds) (later : BlankLines ds) :
    BlankLines cs := by
  have hall := List.all_eq_true.1 (List.all_takeWhile (p := Margin.isMarginChar) (l := cs))
  rw [← List.takeWhile_append_dropWhile (p := Margin.isMarginChar) (l := cs), h,
    ← List.takeWhile_append_dropWhile (p := (· ≠ '\n')) (l := '#' :: es), hline, ← List.append_assoc]
  refine .cons ⟨?_, fun c hc => ?_⟩ later
  · rw [List.mem_append, not_or]
    exact ⟨not_mem_takeWhile isMarginChar_newline _, not_mem_takeWhile (by decide) _⟩
  · rw [List.dropWhile_append_of_pos hall, List.takeWhile_cons_of_pos (by decide),
      List.dropWhile_cons_of_neg (by decide)] at hc
    exact (Option.some.inj hc).symm

end Token

/-! ### Streams -/

theorem Location.after_down (d : Nat) (place : Location) (cs : List Char) :
    (place.down d).after cs = (place.after cs).down d := by
  induction cs generalizing place with
  | nil => rfl
  | cons c cs ih => rw [after_cons, next_down, ih, after_cons]

namespace Source.Stream

/-- Two streams that go on with the characters `common`, after which `rest` and `rest'` are left; the
second one is `d` lines further down. -/
structure Abreast (d : Nat) (rest rest' common : List Char) (s s' : Stream) : Prop where
  lineWise : s.LineWise
  lineWise' : s'.LineWise
  counted : s.Counted
  counted' : s'.Counted
  remaining : s.remaining = common ++ rest
  remaining' : s'.remaining = common ++ rest'
  location : s'.location = s.location.down d

variable {d : Nat} {rest rest' common : List Char} {c : Char} {s s' t t' : Stream}

namespace Abreast

/-- Both streams read on over the same characters. -/
theorem reads {used : List Char} (h : Abreast d rest rest' (used ++ common) s s')
    (hread : s.Reads used t) (hread' : s'.Reads used t') (ht : t.Counted) (ht' : t'.Counted) :
    Abreast d rest rest' common t t' where
  lineWise := hread.lineWise
  lineWise' := hread'.lineWise
  counted := ht
  counted' := ht'
  remaining := hread.rest (by rw [h.remaining, List.append_assoc])
  remaining' := hread'.rest (by rw [h.remaining', List.append_assoc])
  location := by rw [hread'.location, h.location, Location.after_down, hread.location]

theorem peek (h : Abreast d rest rest' common s s') (whole : Whole rest rest' common) :
    s.peek = common.head? ∧ s'.peek = common.head? := by
  rw [peek_eq_head?, peek_eq_head?, h.remaining, h.remaining']
  exact ⟨whole.head?, whole.symm.head?⟩

/-- A run of characters that ends in the common part. -/
theorem takeWhile_of {p : Char → Bool} (h : Abreast d rest rest' common s s')
    (htake : (common ++ rest).takeWhile p = common.takeWhile p)
    (htake' : (common ++ rest').takeWhile p = common.takeWhile p) :
    (s'.takeWhile p).1 = (s.takeWhile p).1 ∧
      Abreast d rest rest' (common.dropWhile p) (s.takeWhile p).2 (s'.takeWhile p).2 := by
  have hread := reads_takeWhile p h.lineWise
  have hread' := reads_takeWhile p h.lineWise'
  rw [h.remaining, htake] at hread
  rw [h.remaining', htake'] at hread'
  refine ⟨?_, reads ?_ hread hread' (h.counted.takeWhile p) (h.counted'.takeWhile p)⟩
  · rw [takeWhile_fst p h.lineWise, takeWhile_fst p h.lineWise', h.remaining, h.remaining', htake,
      htake']
  · rwa [List.takeWhile_append_dropWhile]

theorem takeWhile (h : Abreast d rest rest' common s s') (whole : Whole rest rest' common)
    {p : Char → Bool} (hp : p '\n' = false) :
    (s'.takeWhile p).1 = (s.takeWhile p).1 ∧
      Abreast d rest rest' (common.dropWhile p) (s.takeWhile p).2 (s'.takeWhile p).2 :=
  h.takeWhile_of (whole.takeWhile hp).1 (whole.symm.takeWhile hp).1

theorem skip (h : Abreast d rest rest' (c :: common) s s') :
    Abreast d rest rest' common s.skip s'.skip := by
  have hpeek : s.peek = some c := by rw [peek_eq_head?, h.remaining, List.cons_append, List.head?_cons]
  have hpeek' : s'.peek = some c := by
    rw [peek_eq_head?, h.remaining', List.cons_append, List.head?_cons]
  exact reads h (reads_skip h.lineWise hpeek) (reads_skip h.lineWise' hpeek')
    h.counted.skip h.counted'.skip

/-- At the end of both texts. -/
theorem skip_end (h : Abreast d [] [] [] s s') : Abreast d [] [] [] s.skip s'.skip :=
  reads h (reads_skip_of_none h.lineWise (peek_eq_none_iff.2 h.remaining))
    (reads_skip_of_none h.lineWise' (peek_eq_none_iff.2 h.remaining')) h.counted.skip
    h.counted'.skip

/-- A token that ends in the common part is the same in both streams. -/
theorem scan_of (h : Abreast d rest rest' (c :: common) s s') (hf : s.fill = s)
    (hf' : s'.fill = s') (hc : c ≠ '\n')
    (htoken : tokenOf c (common ++ rest) = ((tokenOf c common).1, (tokenOf c common).2 ++ rest))
    (htoken' : tokenOf c (common ++ rest') = ((tokenOf c common).1, (tokenOf c common).2 ++ rest')) :
    (Token.scan c s').1 = (Token.scan c s).1 ∧
      (Token.scan c s).1 = (tokenOf c common).1 ∧
      Abreast d rest rest' (tokenOf c common).2 (Token.scan c s).2 (Token.scan c s').2 ∧
      ∃ used, '\n' ∉ used ∧ used ++ (tokenOf c common).2 = c :: common := by
  have hpeek : s.peek = some c := by rw [peek_eq_head?, h.remaining, List.cons_append, List.head?_cons]
  have hpeek' : s'.peek = some c := by
    rw [peek_eq_head?, h.remaining', List.cons_append, List.head?_cons]
  have hagree := agrees_scan h.lineWise hf hpeek hc
  have hagree' := agrees_scan h.lineWise' hf' hpeek' hc
  rw [h.remaining, List.cons_append, List.tail_cons, htoken] at hagree
  rw [h.remaining', List.cons_append, List.tail_cons, htoken'] at hagree'
  -- Both have used up what the token leaves of the common part.
  obtain ⟨used, hused, hread⟩ := hagree.reads
  obtain ⟨used', -, hread'⟩ := hagree'.reads
  have hsplit : used ++ (tokenOf c common).2 = c :: common := by
    have := hread.remaining
    rw [hagree.rest, h.remaining, ← List.append_assoc, List.append_cancel_right_eq] at this
    exact this.symm
  have hsplit' : used' ++ (tokenOf c common).2 = c :: common := by
    have := hread'.remaining
    rw [hagree'.rest, h.remaining', ← List.append_assoc, List.append_cancel_right_eq] at this
    exact this.symm
  obtain rfl : used = used' := List.append_cancel_right (hsplit.trans hsplit'.symm)
  refine ⟨hagree'.kind.trans hagree.kind.symm, hagree.kind, ?_, used, hused, hsplit⟩
  refine reads ?_ hread hread' (counted_scan h.counted c) (counted_scan h.counted' c)
  rwa [hsplit]

/-- A token is the same in both streams. -/
theorem scan (h : Abreast d rest rest' (c :: common) s s') (whole : Whole rest rest' (c :: common))
    (hf : s.fill = s) (hf' : s'.fill = s') (hc : c ≠ '\n') :
    (Token.scan c s').1 = (Token.scan c s).1 ∧
      (Token.scan c s).1 = (tokenOf c common).1 ∧
      Abreast d rest rest' (tokenOf c common).2 (Token.scan c s).2 (Token.scan c s').2 ∧
      Whole rest rest' (tokenOf c common).2 := by
  obtain ⟨hkind, hfirst, hscan, used, hused, hsplit⟩ :=
    h.scan_of hf hf' hc (whole.tokenOf hc) (whole.symm.tokenOf hc)
  exact ⟨hkind, hfirst, hscan, Whole.of_append used (by rwa [hsplit]) hused⟩

/-- An error at the end of a line points to corresponding places. -/
theorem anchor_skip (h : Abreast d rest rest' ('\n' :: common) s s') :
    anchor s'.skip.location.following .endOfLine s'.skip =
      (anchor s.skip.location.following .endOfLine s.skip).down d := by
  have hpeek : s.peek = some '\n' := by
    rw [peek_eq_head?, h.remaining, List.cons_append, List.head?_cons]
  have hpeek' : s'.peek = some '\n' := by
    rw [peek_eq_head?, h.remaining', List.cons_append, List.head?_cons]
  rw [Stream.anchor_skip h.lineWise h.counted hpeek,
    Stream.anchor_skip h.lineWise' h.counted' hpeek', h.location, Location.following_down]

/-- Up to the end of the line in hand, or of both texts. -/
theorem lineEnd (h : Abreast d rest rest' common s s') (whole : Whole rest rest' common) :
    (∃ cs, common.dropWhile (· ≠ '\n') = '\n' :: cs ∧ Left rest rest' cs ∧
      Abreast d rest rest' ('\n' :: cs) (s.takeWhile (· ≠ '\n')).2 (s'.takeWhile (· ≠ '\n')).2) ∨
    rest = [] ∧ rest' = [] ∧
      Abreast d rest rest' [] (s.takeWhile (· ≠ '\n')).2 (s'.takeWhile (· ≠ '\n')).2 := by
  have hwhole := (whole.takeWhile (p := (· ≠ '\n')) (by decide)).2.2
  have htaken := (h.takeWhile whole (p := (· ≠ '\n')) (by decide)).2
  have hstop := List.head?_dropWhile_not (fun c : Char => decide (c ≠ '\n')) common
  generalize common.dropWhile _ = cs at *
  cases cs with
  | nil =>
    obtain ⟨h₁, h₂⟩ := hwhole.resolve_right (by simp)
    exact .inr ⟨h₁, h₂, htaken⟩
  | cons c cs =>
    obtain rfl : c = '\n' := by simpa using hstop
    exact .inl ⟨cs, rfl, hwhole.left_of_cons, htaken⟩

end Abreast

end Source.Stream

namespace Token

/-! ### The first line with content -/

section

variable {s : Stream}

theorem reads_firstContent (hs : s.LineWise) : ∃ used, s.Reads used (firstContent s).2 := by
  fun_induction firstContent s with
  | case1 s line h => exact ⟨_, Stream.reads_takeWhile _ hs⟩
  | case2 s line h ih =>
    have hline := Stream.reads_takeWhile Margin.isMarginChar hs
    have hskip := hline.trans (Stream.reads_skip hline.lineWise h)
    obtain ⟨used, hread⟩ := ih hskip.lineWise
    exact ⟨_, hskip.trans hread⟩
  | case3 s line h _ ih =>
    have hline := Stream.reads_takeWhile Margin.isMarginChar hs
    rcases reads_skipComment hline.lineWise with ⟨_, -, -, hcomment⟩ | ⟨-, -, hcomment⟩ <;>
    · obtain ⟨used, hread⟩ := ih hcomment.lineWise
      exact ⟨_, (hline.trans hcomment).trans hread⟩
  | case4 s line c h => exact ⟨_, Stream.reads_takeWhile _ hs⟩

theorem firstContent_of_none (h : (s.takeWhile Margin.isMarginChar).2.peek = none) :
    firstContent s =
      (Margin.ofRun (s.takeWhile Margin.isMarginChar).1, (s.takeWhile Margin.isMarginChar).2) := by
  rw [firstContent.eq_def]
  dsimp only
  split <;> simp_all

theorem firstContent_of_newline (h : (s.takeWhile Margin.isMarginChar).2.peek = some '\n') :
    firstContent s = firstContent (s.takeWhile Margin.isMarginChar).2.skip := by
  rw [firstContent.eq_def]
  dsimp only
  split <;> simp_all

theorem firstContent_of_comment (h : (s.takeWhile Margin.isMarginChar).2.peek = some '#') :
    firstContent s = firstContent (skipComment (s.takeWhile Margin.isMarginChar).2).2 := by
  rw [firstContent.eq_def]
  dsimp only
  split <;> simp_all

theorem firstContent_of_content {c : Char}
    (h : (s.takeWhile Margin.isMarginChar).2.peek = some c) (hc : c ≠ '\n' ∧ c ≠ '#') :
    firstContent s =
      (Margin.ofRun (s.takeWhile Margin.isMarginChar).1, (s.takeWhile Margin.isMarginChar).2) := by
  rw [firstContent.eq_def]
  dsimp only
  split <;> simp_all

end

end Token

namespace Source.Stream

/-- Skipping to the next content line either finds it in the common part, or there is none in it. -/
theorem Abreast.firstContent {d : Nat} {rest rest' common : List Char} {s s' : Stream}
    (h : Abreast d rest rest' common s s') (left : Left rest rest' common) :
    (∃ common', (Token.firstContent s').1 = (Token.firstContent s).1 ∧
      Abreast d rest rest' common' (Token.firstContent s).2 (Token.firstContent s').2 ∧
      Whole rest rest' common') ∨
    BlankLines common ∧ ¬ Whole rest rest' [] ∧
      (Token.firstContent s).2.remaining.length ≤ rest.length := by
  induction hn : s.size using Nat.strongRecOn generalizing s s' common with
  | _ n ih =>
    rcases left.cases with whole | ⟨rfl, hopen⟩
    · obtain ⟨hrun, hmargin⟩ := h.takeWhile whole isMarginChar_newline
      have hwhole := (whole.takeWhile isMarginChar_newline).2.2
      obtain ⟨hpeek, hpeek'⟩ := hmargin.peek hwhole
      have hle := size_takeWhile_le Margin.isMarginChar s
      generalize hcs : common.dropWhile _ = cs at *
      cases cs with
      | nil =>
        refine .inl ⟨[], ?_⟩
        rw [firstContent_of_none hpeek, firstContent_of_none hpeek', hrun]
        exact ⟨rfl, hmargin, hwhole⟩
      | cons c cs =>
        by_cases hc : c = '\n'
        · subst hc
          rw [firstContent_of_newline hpeek, firstContent_of_newline hpeek']
          have hlt := size_skip_lt hpeek
          have hlater := ih _ (by omega) hmargin.skip hwhole.left_of_cons rfl
          exact hlater.imp_right fun hblank => ⟨hblank.1.newline hcs, hblank.2⟩
        · by_cases hcomment : c = '#'
          · subst hcomment
            rw [firstContent_of_comment hpeek, firstContent_of_comment hpeek']
            have hlt := size_skipComment_lt hpeek
            rcases hmargin.lineEnd hwhole with ⟨ds, hds, hleft, hline⟩ | ⟨hrest, hrest', hend⟩
            · have hlater := ih (skipComment _).2.size (by omega) hline.skip hleft rfl
              exact hlater.imp_right fun hblank => ⟨hblank.1.comment hcs hds, hblank.2⟩
            · subst hrest hrest'
              have hlater := ih (skipComment _).2.size (by omega) hend.skip_end (.inr rfl) rfl
              exact hlater.imp_right fun hblank => absurd (.inl ⟨rfl, rfl⟩) hblank.2.1
          · refine .inl ⟨c :: cs, ?_⟩
            rw [firstContent_of_content hpeek ⟨hc, hcomment⟩,
              firstContent_of_content hpeek' ⟨hc, hcomment⟩, hrun]
            exact ⟨rfl, hmargin, hwhole⟩
    · obtain ⟨used, hread⟩ := reads_firstContent h.lineWise
      exact .inr ⟨.nil, hopen, by simpa [h.remaining] using hread.length_le⟩

end Source.Stream

end Offside
