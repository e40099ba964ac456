import Offside.Proofs.Token.Whole

/-!
# Tokens of common lines

Two lexers that go on with the same whole lines, and have the same blocks open, deliver the same
tokens as long as these lines last; only the numbers of the lines may differ. A token that lies
beyond the common lines leaves less of the text than what follows them.

## Main definitions

* `Offside.Lexer.Abreast`: lexers that go on with the same characters and have the same blocks open.
* `Offside.Lexeme.Beside`: the same token, where every place corresponds.

## Main results

* `Offside.Lexer.Abreast.exists_lexemes`: the tokens of the common lines.
* `Offside.Lexer.Abreast.lexemes`: the tokens to the end of the input.
-/

namespace Offside

open Source Token

/-- The same token in another text, where places correspond by `f`. -/
structure Lexeme.Beside (f : Location → Location) (x x' : Lexeme) : Prop where
  kind : x'.token.kind = x.token.kind
  location (inside : x.token.kind ≠ .endOfLine) : x'.token.location = f x.token.location
  anchor : x'.anchor = f x.anchor

namespace Lexer

variable {l : Lexer}

/-- Reading on a line reads on, and the end of a line is a line feed. -/
theorem reads_inLine (hs : l.stream.LineWise) :
    ∃ used, l.stream.Reads used l.inLine.after.stream ∧
      (l.inLine.token.kind = .endOfLine → used.getLast? = some '\n') := by
  have hgap := Stream.reads_takeWhile isGap hs
  have hfill := Stream.fill_takeWhile isGap hs
  unfold inLine
  dsimp only
  generalize (l.stream.takeWhile isGap).2 = s at *
  have finish {t : Stream} {used : List Char} {place : Location} (ht : s.Reads used t) :
      ∃ used, l.stream.Reads used (finish { l with stream := t } place).after.stream ∧
        ((finish { l with stream := t } place).token.kind = .endOfLine →
          used.getLast? = some '\n') := by
    refine ⟨l.stream.remaining.takeWhile isGap ++ used, ?_, fun hk => ?_⟩
    · rw [Lexer.finish]
      split <;> exact hgap.trans ht
    · rw [Lexer.finish] at hk
      split at hk <;> cases hk
  split
  · exact finish (.refl hgap.lineWise)
  · next c hp =>
    split
    · next hn =>
      subst hn
      exact ⟨_, hgap.trans (Stream.reads_skip hgap.lineWise hp), fun _ => by simp⟩
    · next hn =>
      split
      · rcases reads_skipComment hgap.lineWise with ⟨_, -, hb, hcomment⟩ | ⟨-, hb, hcomment⟩
        · rw [hb, if_pos rfl]
          exact ⟨_, hgap.trans hcomment, fun _ => by simp⟩
        · rw [hb, if_neg Bool.false_ne_true]
          exact finish hcomment
      · have hagree := agrees_scan hgap.lineWise hfill hp hn
        obtain ⟨used, -, hread⟩ := hagree.reads
        refine ⟨_, hgap.trans hread, fun hk => ?_⟩
        have hkind : (scan c s).1 = .endOfLine := hk
        exact absurd (hagree.kind.symm.trans hkind) (tokenOf_ne_end _ _).1

/-- Reading a token reads on, and the end of a line is a line feed. -/
theorem reads_read (hs : l.stream.LineWise) :
    ∃ used, l.stream.Reads used l.read.after.stream ∧
      (l.read.token.kind = .endOfLine → used.getLast? = some '\n') := by
  have onLine {used : List Char} {m : Lexer} (hm : l.stream.Reads used m.stream) :
      ∃ used, l.stream.Reads used m.inLine.after.stream ∧
        (m.inLine.token.kind = .endOfLine → used.getLast? = some '\n') := by
    obtain ⟨more, hmore, hlast⟩ := reads_inLine hm.lineWise
    exact ⟨_, hm.trans hmore, fun hk => by simp [hlast hk]⟩
  obtain ⟨used, hcontent⟩ := reads_firstContent hs
  have hread := readCases_read l
  generalize l.read = x at *
  cases hread with
  | dedent => exact ⟨[], .refl hs, fun hk => by cases hk⟩
  | within => exact onLine (.refl hs)
  | first _ stream => exact onLine (stream ▸ hcontent)
  | layout stream _ kind =>
    exact ⟨used, stream ▸ hcontent, fun hk => absurd hk (Kind.ne_endOfLine_of_isLayout kind)⟩

/-- Two lexers that go on with the characters `common`, after which `rest` and `rest'` are left, and
have the same blocks open. -/
structure Abreast (d : Nat) (rest rest' common : List Char) (l l' : Lexer) : Prop where
  stream : Stream.Abreast d rest rest' common l.stream l'.stream
  blocks : l'.blocks = l.blocks
  owed : l'.owed = l.owed
  atLineStart : l'.atLineStart = l.atLineStart

/-- A token that lies in the common part. More of its line is to come, unless it ends the line. -/
inductive ReadsWithin (d : Nat) (rest rest' : List Char) (x x' : Lexeme) : Prop
  | mk (common : List Char) (left : Left rest rest' common)
    (inside : x.token.kind ≠ .endOfLine → Whole rest rest' common)
    (beside : x.Beside (Location.down d) x') (after : Abreast d rest rest' common x.after x'.after)

/-- A token that lies in the common part, or one beyond it, if no content is left in this part. -/
inductive ReadsAbreast (d : Nat) (rest rest' common : List Char) (x x' : Lexeme) : Prop
  | within (within : ReadsWithin d rest rest' x x')
  | beyond (goesOn : ¬ Whole rest rest' []) (blank : BlankLines common)
      (length : x.after.stream.remaining.length ≤ rest.length)
      (lineEnd : x.token.kind = .endOfLine → x.after.stream.remaining.length < rest.length)

namespace Abreast

variable {d : Nat} {rest rest' common : List Char} {l' : Lexer}

/-- A token that is placed alike and is no end of a line. -/
private theorem beside {x x' : Lexeme} (hkind : x'.token.kind = x.token.kind)
    (hplace : x'.token.location = x.token.location.down d) (hne : x.token.kind ≠ .endOfLine) :
    x.Beside (Location.down d) x' := by
  refine ⟨hkind, fun _ => hplace, ?_⟩
  rw [Lexeme.anchor, Lexeme.anchor, hkind, Offside.anchor, Offside.anchor, if_neg (fun h => hne h.1),
    if_neg (fun h => hne h.1)]
  exact hplace

private theorem finish {place : Location} (h : l.Abreast d rest rest' common l')
    (whole : Whole rest rest' common) :
    ReadsWithin d rest rest' (l.finish place) (l'.finish (place.down d)) := by
  rw [Lexer.finish, Lexer.finish, h.blocks]
  split
  · exact .mk common (.inl whole) (fun _ => whole) (beside rfl rfl Kind.noConfusion) h
  · refine .mk common (.inl whole) (fun _ => whole) (beside rfl rfl Kind.noConfusion)
      ⟨h.stream, rfl, ?_, h.atLineStart⟩
    rw [depth, depth, h.blocks]

private theorem endLine {s s' : Stream} (h : l.Abreast d rest rest' common l')
    (left : Left rest rest' common) (hskip : l.stream = s.skip) (hskip' : l'.stream = s'.skip)
    (hs : Stream.Abreast d rest rest' ('\n' :: common) s s') :
    ReadsWithin d rest rest' l.endLine l'.endLine := by
  refine .mk common left (fun hne => absurd rfl hne) ⟨rfl, fun hne => absurd rfl hne, ?_⟩
    ⟨h.stream, h.blocks, h.owed, rfl⟩
  have hanchor := hs.anchor_skip
  rw [← hskip, ← hskip'] at hanchor
  exact hanchor

/-- The streams behind a token. -/
theorem withStream {s s' : Stream} (h : l.Abreast d rest rest' common l')
    {common' : List Char} (hs : Stream.Abreast d rest rest' common' s s') :
    Abreast d rest rest' common' { l with stream := s } { l' with stream := s' } :=
  ⟨hs, h.blocks, h.owed, h.atLineStart⟩

theorem inLine (h : l.Abreast d rest rest' common l') (whole : Whole rest rest' common) :
    ReadsWithin d rest rest' l.inLine l'.inLine := by
  obtain ⟨-, hgap⟩ := h.stream.takeWhile whole isGap_newline
  have hwhole := (whole.takeWhile isGap_newline).2.2
  have hfill := Stream.fill_takeWhile isGap h.stream.lineWise
  have hfill' := Stream.fill_takeWhile isGap h.stream.lineWise'
  obtain ⟨hpeek, hpeek'⟩ := hgap.peek hwhole
  unfold Lexer.inLine
  dsimp only
  generalize (l.stream.takeWhile isGap).2 = s at *
  generalize (l'.stream.takeWhile isGap).2 = s' at *
  generalize common.dropWhile isGap = cs at *
  rw [hpeek, hpeek', hgap.location, Location.following_down]
  cases cs with
  | nil => exact (h.withStream hgap).finish hwhole
  | cons c cs =>
    dsimp only [List.head?_cons]
    by_cases hn : c = '\n'
    · subst hn
      rw [if_pos rfl, if_pos rfl]
      exact (h.withStream hgap.skip).endLine hwhole.left_of_cons rfl rfl hgap
    · rw [if_neg hn, if_neg hn]
      by_cases hc : c = '#'
      · rw [if_pos hc, if_pos hc, skipComment, skipComment]
        dsimp only
        rcases hgap.lineEnd hwhole with ⟨ds, -, hleft, hline⟩ | ⟨hrest, hrest', hend⟩
        · obtain ⟨hnext, hnext'⟩ :
              (s.takeWhile (· ≠ '\n')).2.peek = some '\n' ∧
                (s'.takeWhile (· ≠ '\n')).2.peek = some '\n' := by
            rw [Stream.peek_eq_head?, Stream.peek_eq_head?, hline.remaining, hline.remaining']
            exact ⟨rfl, rfl⟩
          rw [hnext, hnext', Option.isSome_some, if_pos rfl, if_pos rfl]
          exact (h.withStream hline.skip).endLine hleft rfl rfl hline
        · subst hrest hrest'
          rw [Stream.peek_eq_none_iff.2 hend.remaining, Stream.peek_eq_none_iff.2 hend.remaining',
            Option.isSome_none, if_neg Bool.false_ne_true, if_neg Bool.false_ne_true]
          exact (h.withStream hend.skip_end).finish (.inl ⟨rfl, rfl⟩)
      · rw [if_neg hc, if_neg hc]
        obtain ⟨hkind, hfirst, hscan, hleft⟩ := hgap.scan hwhole hfill hfill' hn
        refine .mk _ (.inl hleft) (fun _ => hleft) (beside hkind rfl ?_) (h.withStream hscan)
        show (scan c s).1 ≠ .endOfLine
        rw [hfirst]
        exact (tokenOf_ne_end c cs).1

/-- Where nothing of the common part is left, a token lies beyond it. -/
private theorem beyond_of_reads {x x' : Lexeme} {m : Lexer} {used : List Char}
    (goesOn : ¬ Whole rest rest' []) (blank : BlankLines common)
    (hread : m.stream.Reads used x.after.stream)
    (hlast : x.token.kind = .endOfLine → used.getLast? = some '\n')
    (hle : m.stream.remaining.length ≤ rest.length) : ReadsAbreast d rest rest' common x x' := by
  have hlength := congrArg List.length hread.remaining
  rw [List.length_append] at hlength
  refine .beyond goesOn blank (by omega) fun hk => ?_
  have := List.length_pos_of_mem (List.mem_of_getLast? (hlast hk))
  omega

/-- A margin calls for the same layout in both. -/
theorem layout? {margin : Margin} (h : l.Abreast d rest rest' common l') :
    (l.layout? margin = none ∧ l'.layout? margin = none) ∨
      ∃ x x', l.layout? margin = some x ∧ l'.layout? margin = some x' ∧
        x'.token.kind = x.token.kind ∧ Abreast d rest rest' common x.after x'.after := by
  have hmargin : l'.margin = l.margin := by rw [Lexer.margin, Lexer.margin, h.blocks]
  have hdepth : l'.depth = l.depth := by rw [depth, depth, h.blocks]
  unfold Lexer.layout?
  dsimp only
  rw [hmargin, h.blocks, hdepth]
  split
  · exact .inr ⟨_, _, rfl, rfl, rfl, h.stream, h.blocks, h.owed, h.atLineStart⟩
  · split
    · exact .inr ⟨_, _, rfl, rfl, rfl, h.stream, rfl, h.owed, h.atLineStart⟩
    · split
      · exact .inl ⟨rfl, rfl⟩
      · split
        · exact .inr ⟨_, _, rfl, rfl, rfl, h.stream, rfl, rfl, h.atLineStart⟩
        · exact .inr ⟨_, _, rfl, rfl, rfl, h.stream, rfl, h.owed, h.atLineStart⟩

theorem place (h : l.Abreast d rest rest' common l') : l'.place = l.place.down d := by
  rw [Lexer.place, Lexer.place, h.stream.location, Location.following_down]

private theorem startLine (h : l.Abreast d rest rest' common l') (left : Left rest rest' common) :
    ReadsAbreast d rest rest' common l.startLine l'.startLine := by
  obtain ⟨used, hread⟩ := reads_firstContent h.stream.lineWise
  generalize hx' : l'.startLine = x'
  unfold Lexer.startLine at hx' ⊢
  dsimp only at hx' ⊢
  rcases h.stream.firstContent left with ⟨common', hmargin, hcontent, whole⟩ | ⟨blank, goesOn, hle⟩
  · obtain ⟨hpeek, hpeek'⟩ := hcontent.peek whole
    rw [hmargin, hpeek'] at hx'
    rw [hpeek]
    generalize firstContent l.stream = content at *
    generalize (firstContent l'.stream).2 = t' at *
    have hline : Abreast d rest rest' common' { l with stream := content.2, atLineStart := false }
        { l' with stream := t', atLineStart := false } := ⟨hcontent, h.blocks, h.owed, rfl⟩
    subst hx'
    split
    · exact .within ((h.withStream hcontent).inLine whole)
    · rcases hline.layout? with ⟨hnone, hnone'⟩ | ⟨x, x', hx, hx', hkind, hafter⟩
      · rw [hnone, hnone']
        exact .within (hline.inLine whole)
      · obtain ⟨-, hplace, hlayout⟩ := of_layout? hx
        obtain ⟨-, hplace', -⟩ := of_layout? hx'
        have htoken : x'.token.location = x.token.location.down d := by
          rw [hplace, hplace', hline.place]
        rw [hx, hx']
        exact .within (.mk common' (.inl whole) (fun _ => whole)
          (beside hkind htoken (Kind.ne_endOfLine_of_isLayout hlayout)) hafter)
  · generalize firstContent l.stream = content at *
    have onLine {m : Lexer} (hm : m.stream = content.2) :
        ReadsAbreast d rest rest' common m.inLine x' := by
      obtain ⟨more, hmore, hlast⟩ := reads_inLine (hm ▸ hread.lineWise)
      exact beyond_of_reads goesOn blank hmore hlast (hm ▸ hle)
    split
    · exact onLine rfl
    · cases hx : Lexer.layout? { l with stream := content.2, atLineStart := false } content.1 with
      | none => exact onLine rfl
      | some x =>
        refine .beyond goesOn blank ?_ fun hk =>
          absurd hk (Kind.ne_endOfLine_of_isLayout (of_layout? hx).2.2)
        rw [Option.getD_some, (of_layout? hx).1]
        exact hle

private theorem payDedent (h : l.Abreast d rest rest' common l') (whole : Whole rest rest' common) :
    ReadsWithin d rest rest' l.payDedent l'.payDedent := by
  exact .mk common (.inl whole) (fun _ => whole) (beside rfl h.place Kind.noConfusion)
    ⟨h.stream, h.blocks, by simp only [Lexer.payDedent, h.owed], h.atLineStart⟩

theorem read (h : l.Abreast d rest rest' common l') (left : Left rest rest' common) :
    ReadsAbreast d rest rest' common l.read l'.read := by
  unfold Lexer.read
  rw [h.owed, h.atLineStart]
  split
  · rcases left.cases with whole | ⟨rfl, goesOn⟩
    · exact .within (h.payDedent whole)
    · exact .beyond goesOn .nil (Nat.le_of_eq (congrArg List.length h.stream.remaining))
        Kind.noConfusion
  · split
    · exact h.startLine left
    · rcases left.cases with whole | ⟨rfl, goesOn⟩
      · exact .within (h.inLine whole)
      · obtain ⟨used, hread, hlast⟩ := reads_inLine h.stream.lineWise
        exact beyond_of_reads goesOn .nil hread hlast (by rw [h.stream.remaining, List.nil_append])

/-- A token lies in the common part unless the next line with content is beyond it. -/
theorem read_within (h : l.Abreast d rest rest' common l') (left : Left rest rest' common)
    (inside : Whole rest rest' common ∨ l.owed = 0 ∧ l.atLineStart = true)
    (content : ¬ (l.owed = 0 ∧ l.atLineStart = true ∧ BlankLines common)) :
    ReadsWithin d rest rest' l.read l'.read := by
  unfold Lexer.read
  rw [h.owed, h.atLineStart]
  split
  · next howed => exact h.payDedent (inside.resolve_right fun hstart => by omega)
  · next howed =>
    split
    · next hstart =>
      cases h.startLine left with
      | within within => exact within
      | beyond _ blank => exact absurd ⟨by omega, hstart, blank⟩ content
    · next hstart => exact h.inLine (inside.resolve_right fun h => hstart h.2)

end Abreast

/-! ### Sequences of tokens -/

theorem lexemes_eq_cons (h : l.next.token.kind ≠ .endOfInput) :
    l.lexemes = l.next :: l.next.after.lexemes := by
  rw [lexemes.eq_def, dif_neg h]

theorem lexemes_eq_singleton (h : l.next.token.kind = .endOfInput) : l.lexemes = [l.next] := by
  rw [lexemes.eq_def, dif_pos h]

theorem next_mem_lexemes (l : Lexer) : l.next ∈ l.lexemes := by
  by_cases hend : l.next.token.kind = .endOfInput
  · rw [lexemes_eq_singleton hend]
    exact List.mem_cons_self
  · rw [lexemes_eq_cons hend]
    exact List.mem_cons_self

/-- What follows a token that is not the last one are the tokens of the lexer after it. -/
theorem lexemes_after {x : Lexeme} {xs : List Lexeme} (h : l.lexemes = x :: xs)
    (hx : x.token.kind ≠ .endOfInput) : x = l.next ∧ xs = x.after.lexemes := by
  by_cases hk : l.next.token.kind = .endOfInput
  · rw [lexemes_eq_singleton hk] at h
    cases h
    exact absurd hk hx
  · rw [lexemes_eq_cons hk] at h
    cases h
    exact ⟨rfl, rfl⟩

/-- The same further on. -/
theorem lexemes_after_append {before after : List Lexeme} {x : Lexeme}
    (h : l.lexemes = before ++ x :: after) (hx : x.token.kind ≠ .endOfInput) :
    after = x.after.lexemes := by
  induction before generalizing l with
  | nil => exact (lexemes_after h hx).2
  | cons y before ih =>
    by_cases hk : l.next.token.kind = .endOfInput
    · rw [lexemes_eq_singleton hk] at h
      simp at h
    · rw [lexemes_eq_cons hk, List.cons_append, List.cons.injEq] at h
      exact ih h.2

/-- The end of the input comes last. -/
theorem nil_of_endOfInput {before after : List Lexeme} {x : Lexeme}
    (h : l.lexemes = before ++ x :: after) (hx : x.token.kind = .endOfInput) : after = [] := by
  induction before generalizing l with
  | nil =>
    by_cases hk : l.next.token.kind = .endOfInput
    · rw [lexemes_eq_singleton hk] at h
      exact (List.cons.inj h).2.symm
    · rw [lexemes_eq_cons hk] at h
      exact absurd ((List.cons.inj h).1 ▸ hx) hk
  | cons y before ih =>
    by_cases hk : l.next.token.kind = .endOfInput
    · rw [lexemes_eq_singleton hk] at h
      simp at h
    · rw [lexemes_eq_cons hk, List.cons_append, List.cons.injEq] at h
      exact ih h.2

/-- Every token is read by a lexer for which any invariant of reading holds. -/
theorem exists_read {I : Lexer → Prop} (start : I l) (keeps : ∀ m, I m → I m.read.after)
    {x : Lexeme} (hx : x ∈ l.lexemes) :
    ∃ m, I m ∧ x.token = m.read.token ∧ x.after = m.read.after := by
  induction hw : l.weight using Nat.strongRecOn generalizing l with
  | _ w ih =>
    have here (hx : x = l.next) : ∃ m, I m ∧ x.token = m.read.token ∧ x.after = m.read.after :=
      ⟨l, start, hx ▸ token_next l, hx ▸ after_next l⟩
    by_cases hend : l.next.token.kind = .endOfInput
    · rw [lexemes_eq_singleton hend, List.mem_singleton] at hx
      exact here hx
    · rw [lexemes_eq_cons hend] at hx
      rcases List.mem_cons.1 hx with hx | hx
      · exact here hx
      · exact ih _ (hw ▸ weight_next_lt hend) (after_next l ▸ keeps l start) hx rfl

/-- Up to the end of a line a text is read to a line feed. -/
theorem reads_of_endOfLine (hs : l.stream.LineWise) {x : Lexeme} (hx : x ∈ l.lexemes)
    (hk : x.token.kind = .endOfLine) :
    ∃ used, l.stream.Reads used x.after.stream ∧ used.getLast? = some '\n' := by
  obtain ⟨m, ⟨used, hread⟩, htoken, hafter⟩ :=
    exists_read (I := fun m => ∃ used, l.stream.Reads used m.stream) ⟨[], .refl hs⟩
      (fun m ⟨used, hread⟩ =>
        have ⟨more, hmore, _⟩ := reads_read hread.lineWise
        ⟨_, hread.trans hmore⟩) hx
  obtain ⟨more, hmore, hlast⟩ := reads_read hread.lineWise
  refine ⟨used ++ more, hafter ▸ hread.trans hmore, ?_⟩
  rw [List.getLast?_append, hlast (htoken ▸ hk)]
  rfl

/-- After the end of a line less is left. -/
theorem remaining_lt_of_endOfLine (hs : l.stream.LineWise) {x : Lexeme} (hx : x ∈ l.lexemes)
    (hk : x.token.kind = .endOfLine) :
    x.after.stream.remaining.length < l.stream.remaining.length := by
  obtain ⟨used, hread, hlast⟩ := reads_of_endOfLine hs hx hk
  have := List.length_pos_of_mem (List.mem_of_getLast? hlast)
  rw [hread.remaining, List.length_append]
  omega

/-- The note of a failed read makes no difference. -/
theorem ReadsWithin.next {d : Nat} {rest rest' : List Char} {l' : Lexer}
    (h : ReadsWithin d rest rest' l.read l'.read) : ReadsWithin d rest rest' l.next l'.next := by
  have htoken := token_next l
  have htoken' := token_next l'
  have hafter := after_next l
  have hafter' := after_next l'
  obtain ⟨common, left, inside, beside, after⟩ := h
  rw [← hafter, ← hafter'] at after
  refine .mk common left (htoken ▸ inside) ⟨?_, ?_, ?_⟩ after
  · rw [htoken, htoken']
    exact beside.kind
  · rw [htoken, htoken']
    exact beside.location
  · rw [Lexeme.anchor, Lexeme.anchor, htoken, htoken', hafter, hafter']
    exact beside.anchor

namespace Abreast

variable {d : Nat} {rest rest' common : List Char} {l' : Lexer}

theorem next (h : l.Abreast d rest rest' common l') (left : Left rest rest' common) :
    ReadsAbreast d rest rest' common l.next l'.next := by
  have hafter := after_next l
  cases h.read left with
  | within within => exact .within within.next
  | beyond goesOn blank length lineEnd =>
    rw [← hafter] at length lineEnd
    rw [← token_next l] at lineEnd
    exact .beyond goesOn blank length lineEnd

/-- Up to the end of the last of the common lines the tokens are the same. -/
theorem exists_lexemes (h : l.Abreast d rest rest' common l') (left : Left rest rest' common)
    {before after : List Lexeme} {x : Lexeme} (hx : l.lexemes = before ++ x :: after)
    (hk : x.token.kind = .endOfLine) (hrest : x.after.stream.remaining = rest) :
    ∃ before' x', l'.lexemes = before' ++ x' :: x'.after.lexemes ∧
      List.Forall₂ (Lexeme.Beside (Location.down d)) before before' ∧
      x.Beside (Location.down d) x' ∧ x.after.Abreast d rest rest' [] x'.after := by
  induction before generalizing l l' common with
  | nil =>
    have hne : x.token.kind ≠ .endOfInput := by
      rw [hk]
      exact Kind.noConfusion
    obtain ⟨rfl, -⟩ := lexemes_after hx hne
    cases h.next left with
    | within within =>
      obtain ⟨common, left, -, beside, after⟩ := within
      have hcommon := after.stream.remaining
      rw [hrest, List.self_eq_append_left] at hcommon
      subst hcommon
      exact ⟨[], l'.next, lexemes_eq_cons (beside.kind ▸ hne), .nil, beside, after⟩
    | beyond _ _ length lineEnd =>
      have := lineEnd hk
      rw [hrest] at this
      omega
  | cons y before ih =>
    have hmem : x ∈ before ++ x :: after := by simp
    have hne : y.token.kind ≠ .endOfInput := by
      intro hy
      by_cases hend : l.next.token.kind = .endOfInput
      · rw [lexemes_eq_singleton hend] at hx
        simp at hx
      · rw [lexemes_eq_cons hend] at hx
        obtain rfl := (List.cons.inj hx).1
        exact hend hy
    obtain ⟨rfl, hafter⟩ := lexemes_after hx hne
    cases h.next left with
    | within within =>
      obtain ⟨common, left, -, beside, after⟩ := within
      obtain ⟨before', x', hx', hbefore, hrelated, hlast⟩ := ih after left hafter.symm
      refine ⟨l'.next :: before', x', ?_, .cons beside hbefore, hrelated, hlast⟩
      rw [lexemes_eq_cons (beside.kind ▸ hne), hx', List.cons_append]
    | beyond _ _ length lineEnd =>
      obtain ⟨used, hread, -⟩ := reads_read h.stream.lineWise
      have := remaining_lt_of_endOfLine (l := l.next.after) (after_next l ▸ hread.lineWise)
        (hafter ▸ hmem) hk
      rw [hrest] at this
      omega

/-- Where nothing follows the common part, all tokens are the same. -/
theorem lexemes (h : l.Abreast d [] [] common l') :
    List.Forall₂ (Lexeme.Beside (Location.down d)) l.lexemes l'.lexemes := by
  induction hw : l.weight using Nat.strongRecOn generalizing l l' common with
  | _ w ih =>
    cases h.next (.inl (.inl ⟨rfl, rfl⟩)) with
    | within within =>
      obtain ⟨common, -, -, beside, after⟩ := within
      by_cases hend : l.next.token.kind = .endOfInput
      · rw [lexemes_eq_singleton hend, lexemes_eq_singleton (l := l') (beside.kind ▸ hend)]
        exact .cons beside .nil
      · rw [lexemes_eq_cons hend, lexemes_eq_cons (l := l') (beside.kind ▸ hend)]
        exact .cons beside (ih _ (hw ▸ weight_next_lt hend) after rfl)
    | beyond goesOn => exact absurd (.inl ⟨rfl, rfl⟩) goesOn

end Abreast

end Lexer

end Offside
