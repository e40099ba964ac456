import Offside.Proofs.Source.LineEnd
import Offside.Proofs.Token.LineEnds

/-!
# Whole lines that are followed by others

A line is requested only when nothing is left of the line before. So as long as whole lines are left
to a stream, reading and scanning do the same whatever follows them, and what follows stays unread.
Only the search for the next content goes on after the last line.

## Main definitions

* `Offside.Source.Stream.followedBy`: a stream whose input goes on.
* `Offside.Source.Stream.Complete`: whole lines are left.
* `Offside.Token.StaysIn`: a scanner that does not go beyond them.
* `Offside.Token.Passes`: lines without content that are passed whatever follows.

## Main results

* `Offside.Source.Stream.takeWhile_followedBy`: a run of characters ends on its line.
* `Offside.Token.staysIn_scan`: a token that begins in the whole lines ends in them.
* `Offside.Token.exists_passes`: the next content is in the whole lines, or they are passed.
-/

namespace Offside

open Source Token

/-! ### Streams that go on -/

namespace Source

theorem splitLine_append_of_mem {cs : List Char} (h : '\n' ∈ cs) (ds : List Char) :
    splitLine (cs ++ ds) = ((splitLine cs).1, (splitLine cs).2 ++ ds) := by
  induction cs with
  | nil => cases h
  | cons c cs ih =>
    by_cases hc : c = '\n'
    · simp [splitLine, hc]
    · have htail := ih ((List.mem_cons.1 h).resolve_left (Ne.symm hc))
      simp [splitLine, hc, htail]

theorem normalise_eq_nil_iff {cs : List Char} : normalise cs = [] ↔ cs = [] := by
  rw [← List.head?_eq_none_iff, head?_normalise, Option.map_eq_none_iff, List.head?_eq_none_iff]

namespace Stream

variable {s : Stream} {c : Char} {p : Char → Bool}

/-- The input goes on with another one. -/
def followedBy (s : Stream) (later : Input) : Stream :=
  { s with unread := s.unread ++ later.text, broken := later.broken }

@[simp] theorem pending_followedBy (s : Stream) (later : Input) :
    (s.followedBy later).pending = s.pending := rfl

/-- Whole lines are left, requested or not, and every request has been met. -/
structure Complete (s : Stream) : Prop where
  pending : ∀ c ∈ s.pending.getLast?, c = '\n'
  unread : ∀ c ∈ s.unread.getLast?, c = '\n'
  readable : s.broken = false
  met : s.failed = false

namespace Complete

theorem followedBy_nil (h : s.Complete) : s.followedBy ⟨[], false⟩ = s := by
  rw [followedBy, List.append_nil, ← h.readable]

theorem lineWise (h : s.Complete) : s.LineWise := by
  cases hp : s.pending.getLast? with
  | none => exact .inr (.inl (List.getLast?_eq_none_iff.1 hp))
  | some c =>
    obtain rfl := h.pending c hp
    exact .inr (.inr hp)

theorem ended (h : s.Complete) : s.Ended := by
  have hlast : ∀ c ∈ (s.pending ++ s.unread).getLast?, c = '\n' := by
    intro c hc
    rw [List.getLast?_append] at hc
    cases hu : s.unread.getLast? with
    | none => exact h.pending c (by simpa [hu] using hc)
    | some d =>
      obtain rfl : d = c := by simpa [hu] using hc
      exact h.unread d hu
  intro c hc
  rw [remaining, getLast?_normalise] at hc
  obtain ⟨d, hd, rfl⟩ := Option.map_eq_some_iff.1 hc
  rw [hlast d hd]
  rfl

theorem fill (h : s.Complete) : s.fill.Complete := by
  rw [Stream.fill]
  split
  · exact h
  · next c cs hp hu =>
    have hsplit := splitLine_append (c :: cs)
    refine ⟨fun d hd => ?_, fun d hd => ?_, h.readable, h.met⟩
    · rcases splitLine_getLast? (c :: cs) with hnil | hlast
      · refine h.unread d ?_
        rw [hu, ← hsplit, hnil, List.append_nil]
        exact hd
      · exact (Option.some.inj (hlast.symm.trans hd)).symm
    · refine h.unread d ?_
      rw [hu, ← hsplit, List.getLast?_append, hd]
      rfl
  · rw [if_neg (by simp [h.readable])]
    exact h

theorem skip (h : s.Complete) : s.skip.Complete := by
  have hfill := h.fill
  have hdeliver {d : Char} (taken : List Char) {rest : List Char}
      (hp : s.fill.pending = taken ++ rest) :
      (s.fill.deliver d rest).Complete := by
    refine ⟨fun e he => hfill.pending e ?_, hfill.unread, hfill.readable, hfill.met⟩
    rw [hp, List.getLast?_append, show rest.getLast? = some e from he]
    rfl
  rw [Stream.skip, advance]
  split
  · exact hfill
  · next rest hp => exact hdeliver ['\r', '\n'] hp
  · next d rest _ hp => exact hdeliver [d] hp

end Complete

/-- Reading leaves whole lines. -/
def KeepsComplete (s t : Stream) : Prop := s.Complete → t.Complete

instance : Frame KeepsComplete where
  refl _ h := h
  trans _ _ _ h k hs := k (h hs)
  fill _ h := h.fill
  skip _ h := h.skip

/-! ### Reading whole lines -/

variable (whole : s.Complete) (later : Input)
include whole

/-- As long as something is left, a request is met by what is left. -/
theorem fill_followedBy (more : s.remaining ≠ []) :
    (s.followedBy later).fill = s.fill.followedBy later := by
  rw [fill.eq_def s, fill.eq_def (s.followedBy later)]
  cases hp : s.pending with
  | cons c cs => simp only [pending_followedBy, hp]
  | nil =>
    cases hu : s.unread with
    | nil =>
      rw [remaining, hp, hu] at more
      exact absurd rfl more
    | cons c cs =>
      have hlast := List.getLast?_eq_some_getLast (List.cons_ne_nil c cs)
      have hmem : '\n' ∈ c :: cs := by
        rw [← whole.unread _ (by rw [hu]; exact hlast)]
        exact List.getLast_mem _
      have hsplit := splitLine_append_of_mem hmem later.text
      rw [List.cons_append] at hsplit
      simp only [followedBy, hp, hu, List.cons_append, hsplit]

theorem peek_followedBy (more : s.remaining ≠ []) : (s.followedBy later).peek = s.peek := by
  rw [peek, peek, fill_followedBy whole later more, pending_followedBy]

theorem skip_followedBy (more : s.remaining ≠ []) :
    (s.followedBy later).skip = s.skip.followedBy later := by
  rw [skip, skip, advance, advance, fill_followedBy whole later more]
  dsimp only [pending_followedBy]
  split <;> rfl

/-- The end of the last line is not passed before it is read. -/
theorem remaining_skip_ne_nil (hp : s.peek = some c) (hc : c ≠ '\n') : s.skip.remaining ≠ [] := by
  intro hnil
  have hrem := remaining_eq_cons hp
  rw [← remaining_skip whole.lineWise, hnil] at hrem
  exact hc (whole.ended c (by rw [hrem]; rfl))

omit whole in
theorem exists_peek (more : s.remaining ≠ []) : ∃ c, s.peek = some c :=
  Option.ne_none_iff_exists'.1 (mt peek_eq_none_iff.1 more)

/-- A run of characters ends on the line on which it starts. -/
theorem takeWhile_followedBy (hp : p '\n' = false) (more : s.remaining ≠ []) :
    (s.followedBy later).takeWhile p =
        ((s.takeWhile p).1, (s.takeWhile p).2.followedBy later) ∧
      (s.takeWhile p).2.remaining ≠ [] := by
  fun_induction Stream.takeWhile p s with
  | case1 s hnone =>
    obtain ⟨c, hc⟩ := exists_peek more
    rw [hnone] at hc
    cases hc
  | case2 s c hc hpc run rest hrun ih =>
    have hne : c ≠ '\n' := by
      rintro rfl
      rw [hp] at hpc
      cases hpc
    obtain ⟨hsame, hleft⟩ := ih whole.skip (remaining_skip_ne_nil whole hc hne)
    rw [Stream.takeWhile.eq_def, skip_followedBy whole later more, hsame]
    have hpeek := (peek_followedBy whole later more).trans hc
    split
    · next hnone =>
      rw [hpeek] at hnone
      cases hnone
    · next d hd =>
      obtain rfl : c = d := Option.some.inj (hpeek.symm.trans hd)
      rw [hrun] at hleft ⊢
      rw [if_pos hpc]
      exact ⟨rfl, hleft⟩
  | case3 s c hc hpc =>
    have hpeek := (peek_followedBy whole later more).trans hc
    refine ⟨?_, by simpa using more⟩
    rw [Stream.takeWhile.eq_def]
    split
    · next hnone =>
      rw [hpeek] at hnone
      cases hnone
    · next d hd =>
      obtain rfl : c = d := Option.some.inj (hpeek.symm.trans hd)
      rw [if_neg hpc, fill_followedBy whole later more]

end Stream

end Source

/-! ### Scanning whole lines -/

namespace Token

variable {α : Type} {s : Stream} {c : Char}

/-- On the whole lines that are left the scanner `f` does not go beyond them: it does the same
whatever follows them, and the end of the last one is still to be read. -/
structure StaysIn (f : Stream → α × Stream) (s : Stream) : Prop where
  more : (f s).2.remaining ≠ []
  same (later : Input) : f (s.followedBy later) = ((f s).1, (f s).2.followedBy later)

section

variable (whole : s.Complete)
include whole

theorem staysIn_takeWhile {p : Char → Bool} (hp : p '\n' = false) (more : s.remaining ≠ []) :
    StaysIn (Stream.takeWhile p) s :=
  ⟨(Stream.takeWhile_followedBy whole default hp more).2, fun later =>
    (Stream.takeWhile_followedBy whole later hp more).1⟩

theorem staysIn_scanWord (more : s.remaining ≠ []) : StaysIn scanWord s := by
  have hword := staysIn_takeWhile whole (p := isWordChar) (by decide) more
  exact ⟨hword.more, fun later => by rw [scanWord, hword.same later, scanWord]⟩

theorem staysIn_scanNumber (more : s.remaining ≠ []) : StaysIn scanNumber s := by
  have hnumber := staysIn_takeWhile whole (p := isNumberChar) (by decide) more
  refine ⟨by rw [size_scanNumber]; exact hnumber.more, fun later => ?_⟩
  rw [scanNumber, hnumber.same later, scanNumber]
  dsimp only
  split <;> rfl

theorem staysIn_closeCharacter (c : Char) (more : s.remaining ≠ []) :
    StaysIn (closeCharacter c) s := by
  refine ⟨?_, fun later => ?_⟩
  · rw [closeCharacter]
    split
    · next hp => exact Stream.remaining_skip_ne_nil whole hp (by decide)
    · exact more
  · rw [closeCharacter, closeCharacter, Stream.peek_followedBy whole later more,
      Stream.skip_followedBy whole later more]
    split <;> rfl

theorem staysIn_scanCharacter (more : s.remaining ≠ []) : StaysIn scanCharacter s := by
  obtain ⟨c, hc⟩ := Stream.exists_peek more
  have hpeek (later : Input) := (Stream.peek_followedBy whole later more).trans hc
  have hskipped (later : Input) := Stream.skip_followedBy whole later more
  by_cases hn : c = '\n'
  · refine ⟨?_, fun later => ?_⟩
    · rw [scanCharacter, hc]
      simpa [hn] using more
    · rw [scanCharacter, scanCharacter, hpeek, hc]
      simp [hn]
  · have hskip := Stream.remaining_skip_ne_nil whole hc hn
    have hclose := staysIn_closeCharacter whole.skip c hskip
    obtain ⟨letter, hl⟩ := Stream.exists_peek hskip
    -- The character after a backslash, and what follows it, are on the same line too.
    have hletter (later : Input) := (Stream.peek_followedBy whole.skip later hskip).trans hl
    have hagain (later : Input) := Stream.skip_followedBy whole.skip later hskip
    refine ⟨?_, fun later => ?_⟩
    · rw [scanCharacter, hc]
      dsimp only
      rw [if_neg hn, hl]
      split
      · exact hskip
      · split
        · dsimp only
          split
          · exact hskip
          · next hne =>
            have htwice := Stream.remaining_skip_ne_nil whole.skip hl hne
            split
            · exact (staysIn_closeCharacter whole.skip.skip _ htwice).more
            · exact htwice
        · exact hclose.more
    · rw [scanCharacter, scanCharacter, hpeek, hc]
      dsimp only
      rw [if_neg hn, if_neg hn, hskipped, hletter, hl, hclose.same, hagain]
      split
      · rfl
      · split
        · dsimp only
          split
          · rfl
          · next hne =>
            have htwice := Stream.remaining_skip_ne_nil whole.skip hl hne
            split
            · exact (staysIn_closeCharacter whole.skip.skip _ htwice).same later
            · rfl
        · rfl

theorem staysIn_scanSymbol (c : Char) (more : s.remaining ≠ []) : StaysIn (scanSymbol c) s := by
  obtain ⟨d, hd⟩ := Stream.exists_peek more
  refine ⟨?_, fun later => ?_⟩
  · rw [scanSymbol, hd]
    split
    · next sign hsign =>
      refine Stream.remaining_skip_ne_nil whole hd ?_
      rintro rfl
      rw [Option.bind_some, ofPair?_of_isDelimiter (by decide)] at hsign
      cases hsign
    · split <;> exact more
  · rw [scanSymbol, scanSymbol, Stream.peek_followedBy whole later more,
      Stream.skip_followedBy whole later more]
    split
    · rfl
    · split <;> rfl

/-- A token that begins in the whole lines ends in them. -/
theorem staysIn_scan (hp : s.peek = some c) (hc : c ≠ '\n') : StaysIn (scan c) s := by
  have more : s.remaining ≠ [] := by
    rw [Stream.remaining_eq_cons hp]
    exact List.cons_ne_nil _ _
  have hskip := Stream.remaining_skip_ne_nil whole hp hc
  have hchar := staysIn_scanCharacter whole.skip hskip
  have hnumber := staysIn_scanNumber whole more
  have hword := staysIn_scanWord whole more
  have hsymbol := staysIn_scanSymbol whole.skip c hskip
  refine ⟨?_, fun later => ?_⟩
  · rw [scan]
    split
    · exact hchar.more
    · split
      · exact hnumber.more
      · split
        · exact hword.more
        · exact hsymbol.more
  · rw [scan, scan, Stream.skip_followedBy whole later more, hchar.same, hnumber.same, hword.same,
      hsymbol.same, Stream.peekSecond, Stream.pending_followedBy, Stream.peekSecond]
    split
    · rfl
    · split
      · rfl
      · split <;> rfl

/-- A comment is ended by the end of its line. -/
theorem skipComment_fst (more : s.remaining ≠ []) : (skipComment s).1 = true := by
  have hrun := staysIn_takeWhile whole (p := (· ≠ '\n')) (by decide) more
  obtain ⟨c, hc⟩ := Stream.exists_peek hrun.more
  rw [skipComment]
  dsimp only
  rw [hc, Option.isSome_some]

theorem skipComment_followedBy (later : Input) (more : s.remaining ≠ []) :
    skipComment (s.followedBy later) = (true, (skipComment s).2.followedBy later) := by
  have hrun := staysIn_takeWhile whole (p := (· ≠ '\n')) (by decide) more
  have hkeeps : s.KeepsComplete (s.takeWhile (· ≠ '\n')).2 := Stream.Frame.takeWhile _ s
  obtain ⟨c, hc⟩ := Stream.exists_peek hrun.more
  rw [skipComment, hrun.same later, skipComment]
  dsimp only
  rw [Stream.peek_followedBy (hkeeps whole) later hrun.more,
    Stream.skip_followedBy (hkeeps whole) later hrun.more, hc, Option.isSome_some]

end

/-- Only lines without content lie between `s` and `t`, whatever follows the whole lines. -/
structure Passes (s t : Stream) : Prop where
  same (later : Input) : firstContent (s.followedBy later) = firstContent (t.followedBy later)
  reads (later : Input) (R : Stream → Stream → Prop) [Stream.Frame R] :
    R (s.followedBy later) (t.followedBy later)

theorem Passes.refl (s : Stream) : Passes s s := ⟨fun _ => rfl, fun _ R _ => refl_of R _⟩

theorem Passes.trans {t u : Stream} (h : Passes s t) (k : Passes t u) : Passes s u :=
  ⟨fun later => (h.same later).trans (k.same later), fun later R _ =>
    trans_of R (h.reads later R) (k.reads later R)⟩

theorem Passes.staysIn {t : Stream} (h : Passes s t) (hs : s.Complete) (ht : t.Complete)
    (stays : StaysIn firstContent t) : StaysIn firstContent s := by
  have hsame := h.same ⟨[], false⟩
  rw [hs.followedBy_nil, ht.followedBy_nil] at hsame
  exact ⟨hsame ▸ stays.more, fun later => by rw [h.same, hsame, stays.same]⟩

/-- The next content is in the whole lines, or they hold none and what follows them is searched. -/
theorem exists_passes (whole : s.Complete) :
    ∃ t : Stream, t.Complete ∧ Passes s t ∧ (StaysIn firstContent t ∨ t.remaining = []) := by
  induction hsize : s.size using Nat.strongRecOn generalizing s with
  | _ n ih =>
    by_cases more : s.remaining = []
    · exact ⟨s, whole, .refl s, .inr more⟩
    have htake := staysIn_takeWhile whole isMarginChar_newline more
    have hkeeps : s.KeepsComplete (s.takeWhile Margin.isMarginChar).2 := Stream.Frame.takeWhile _ s
    have hreads (later : Input) (R : Stream → Stream → Prop) [Stream.Frame R] :
        R (s.followedBy later) ((s.followedBy later).takeWhile Margin.isMarginChar).2 :=
      Stream.Frame.takeWhile _ _
    have hle := Stream.size_takeWhile_le Margin.isMarginChar s
    have hwhole := hkeeps whole
    obtain ⟨c, hc⟩ := Stream.exists_peek htake.more
    have hpeek (later : Input) :
        ((s.followedBy later).takeWhile Margin.isMarginChar).2.peek = some c := by
      rw [htake.same later]
      exact (Stream.peek_followedBy hwhole later htake.more).trans hc
    have hskip (later : Input) := Stream.skip_followedBy hwhole later htake.more
    have hcomment (later : Input) := skipComment_followedBy hwhole later htake.more
    have hsame (later : Input) := htake.same later
    -- A line without content is passed, and the search goes on after it.
    have pass {u : Stream} (hu : u.Complete) (hlt : u.size < s.size) (hpasses : Passes s u) :
        ∃ t : Stream, t.Complete ∧ Passes s t ∧ (StaysIn firstContent t ∨ t.remaining = []) := by
      obtain ⟨t, ht, hpass, hstops⟩ := ih u.size (hsize ▸ hlt) hu rfl
      exact ⟨t, ht, hpasses.trans hpass, hstops⟩
    by_cases hn : c = '\n'
    · subst hn
      have hlt := Stream.size_skip_lt hc
      refine pass hwhole.skip (by omega) ⟨fun later => ?_, fun later R _ => ?_⟩
      · rw [firstContent_of_newline (hpeek later), hsame, hskip]
      · have hread := trans_of R (hreads later R) (Stream.Frame.skip _)
        rwa [hsame, hskip] at hread
    · by_cases hcom : c = '#'
      · subst hcom
        have hlt := size_skipComment_lt hc
        have hkept : (s.takeWhile Margin.isMarginChar).2.KeepsComplete
            (skipComment (s.takeWhile Margin.isMarginChar).2).2 := frame_skipComment _
        refine pass (hkept hwhole) (by omega) ⟨fun later => ?_, fun later R _ => ?_⟩
        · rw [firstContent_of_comment (hpeek later), hsame, hcomment]
        · have hread := trans_of R (hreads later R) (frame_skipComment _)
          rwa [hsame, hcomment] at hread
      · refine ⟨s, whole, .refl s, .inl ⟨?_, fun later => ?_⟩⟩
        · rw [firstContent_of_content hc ⟨hn, hcom⟩]
          exact htake.more
        · rw [firstContent_of_content (hpeek later) ⟨hn, hcom⟩,
            firstContent_of_content hc ⟨hn, hcom⟩, hsame]

end Token

end Offside
