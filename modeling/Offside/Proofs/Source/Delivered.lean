import Mathlib.Data.List.DropRight
import Offside.Proofs.Token.Complete

/-!
# What a reader is given

Whoever reads a text asks a stream for the next character, to look at it or to have it delivered.
Looking makes no difference to what is delivered: the characters of the normalised text, one after
another, until there are no more of them.

The place of the stream and the lines that it keeps are those of the characters delivered so far.
Asked for the text of a line, it gives the whole of every line that is finished, and of the line in
progress as well if a character of that line has been delivered or the last request was to look.
Right after a line end it may not know the next line yet, and then it gives nothing of it.

## Main definitions

* `Offside.Source.lineAt`: the lines of a text by their numbers.
* `Offside.Source.Request`: what may be asked of a stream.
* `Offside.Source.Stream.serve`: the answers to some requests, and the stream after them.
* `Offside.Source.Stream.Records`: a stream delivers some characters and keeps them.
* `Offside.Source.Stream.Accounts`: what a stream tells of a text.

## Main results

* `Offside.Source.Stream.records_serve`: what some requests deliver.
* `Offside.Source.Stream.accounts_serve`: what a stream tells of its text after any requests.
* `Offside.Source.Stream.not_lineText_eq_none_of_advance`: it need not have looked ahead for this.
-/

namespace Offside

namespace Source

/-! ### Lines by their numbers -/

/-- Line `n` of a text, counted from 1, without its end. -/
def lineAt (text : List Char) : ℕ → Option (List Char)
  | 0 => none
  | n + 1 => (text.splitOn '\n')[n]?

theorem lineAt_of_pos {text : List Char} {n : ℕ} (h : 0 < n) :
    lineAt text n = (text.splitOn '\n')[n - 1]? := by
  obtain ⟨n, rfl⟩ := Nat.exists_eq_add_of_lt h
  rw [Nat.zero_add]
  rfl

/-- The line that a place lies on: what stands on it before the place, and what follows. -/
theorem lineAt_place (before after : List Char) :
    lineAt (before ++ after) (before.count '\n' + 1) =
      some (before.rtakeWhile (· ≠ '\n') ++ after.takeWhile (· ≠ '\n')) := by
  induction before using List.reverseRecOn generalizing after with
  | nil =>
    rw [List.count_nil, lineAt, ← List.head?_eq_getElem?, List.nil_append, head?_splitOn]
    rfl
  | append_singleton before c ih =>
    rw [List.append_assoc, List.singleton_append]
    by_cases hc : c = '\n'
    · -- The line starts here, after the lines of `before`.
      have hlines : (before ++ '\n' :: after).splitOn '\n' =
          before.splitOn '\n' ++ after.splitOn '\n' :=
        List.splitOnP_append_cons before after (by decide)
      rw [hc, List.rtakeWhile_concat_neg _ _ _ (by simp), List.count_append, lineAt, hlines,
        List.getElem?_append_right (by rw [length_splitOn_newline]; rfl), length_splitOn_newline,
        List.count_singleton_self, Nat.sub_self, ← List.head?_eq_getElem?, head?_splitOn]
      rfl
    · have hcount : (before ++ [c]).count '\n' = before.count '\n' := by
        rw [List.count_append, List.count_singleton, if_neg (by simpa using hc), Nat.add_zero]
      rw [hcount, ih, List.rtakeWhile_concat_pos _ _ _ (by simpa using hc),
        List.takeWhile_cons_of_pos (by simpa using hc), List.append_assoc, List.singleton_append]

/-! ### What is kept of the characters delivered -/

/-- The lines that are kept, after further characters. -/
theorem Lines.toList_pushAll (lines : Lines) (cs : List Char) :
    (lines.pushAll cs).toList =
      lines.finished.reverse ++ (cs.splitOn '\n').modifyHead (lines.current.reverse ++ ·) := by
  induction cs generalizing lines with
  | nil => simp [pushAll, toList]
  | cons c cs ih =>
    rw [pushAll, List.foldl_cons, ← pushAll, ih, push]
    split
    · next hc =>
      rw [hc, splitOn_newline, List.reverse_nil, modifyHead_nil_append]
      simp
    · next hc =>
      rw [splitOn_cons_of_ne _ hc, List.modifyHead_modifyHead]
      simp [Function.comp_def]

/-- The lines that are kept of some characters are their lines. -/
theorem Lines.line?_pushAll (cs : List Char) (n : ℕ) :
    (empty.pushAll cs).line? n = lineAt cs n := by
  have hlines : (empty.pushAll cs).toList = cs.splitOn '\n' := by
    rw [toList_pushAll]
    exact modifyHead_nil_append _
  cases n with
  | zero => rfl
  | succ n => rw [line?, hlines, lineAt]

/-- The moving place after some characters of a text: it counts the line ends among them, and the
characters after the last one. -/
theorem after_start (cs : List Char) :
    Location.start.after cs = ⟨1 + cs.count '\n', (cs.rtakeWhile (· ≠ '\n')).length⟩ := by
  induction cs using List.reverseRecOn with
  | nil => rfl
  | append_singleton cs c ih =>
    rw [Location.after_append, ih, Location.after_cons, Location.after_nil, List.count_append]
    by_cases hc : c = '\n'
    · rw [hc, Location.next_newline, List.rtakeWhile_concat_neg _ _ _ (by simp)]
      rfl
    · rw [Location.next_of_ne _ hc, List.rtakeWhile_concat_pos _ _ _ (by simpa using hc),
        List.count_singleton]
      simp [Location.following, hc]

/-! ### Requests -/

/-- What may be asked of a stream: to show its next character, or to deliver it. -/
inductive Request
  | peek
  | advance
  deriving DecidableEq, Repr

/-- The characters that are delivered in the course of some requests, given with their answers. -/
def Request.delivered (answers : List (Request × Option Char)) : List Char :=
  answers.filterMap fun answer => if answer.1 = .advance then answer.2 else none

namespace Stream

/-- The answer to a request, and the stream after it. -/
def answer (s : Stream) : Request → Option Char × Stream
  | .peek => (s.peek, s.fill)
  | .advance => s.advance

/-- Some requests with their answers, and the stream after them. -/
def serve (s : Stream) : List Request → List (Request × Option Char) × Stream
  | [] => ([], s)
  | request :: requests =>
    let later := (s.answer request).2.serve requests
    ((request, (s.answer request).1) :: later.1, later.2)

/-- The stream `s` has become `t` by delivering the characters `used`, and has kept them. -/
structure Records (s : Stream) (used : List Char) (t : Stream) : Prop extends s.Reads used t where
  lines : t.lines = s.lines.pushAll used

variable {s t u : Stream} {xs ys : List Char} {requests : List Request}

theorem Records.trans (h : s.Records xs t) (k : t.Records ys u) : s.Records (xs ++ ys) u :=
  ⟨h.toReads.trans k.toReads, by rw [k.lines, h.lines]; exact List.foldl_append.symm⟩

theorem records_fill (hs : s.LineWise) : s.Records [] s.fill := ⟨reads_fill hs, lines_fill s⟩

/-- Reading delivers the next character, if there is one. -/
theorem records_skip (hs : s.LineWise) : s.Records s.peek.toList s.skip := by
  cases hp : s.peek with
  | none =>
    have hskip : s.skip = s.fill := skip_of_pending (by rw [peek] at hp; simpa using hp)
    rw [hskip]
    exact records_fill hs
  | some c => exact ⟨reads_skip hs hp, lines_skip hs hp⟩

theorem delivered_peek (s : Stream) (requests : List Request) :
    Request.delivered (s.serve (.peek :: requests)).1 =
      Request.delivered (s.fill.serve requests).1 := rfl

theorem delivered_advance (s : Stream) (requests : List Request) :
    Request.delivered (s.serve (.advance :: requests)).1 =
      s.peek.toList ++ Request.delivered (s.skip.serve requests).1 := by
  show List.filterMap _ ((Request.advance, s.advance.1) :: (s.skip.serve requests).1) = _
  rw [List.filterMap_cons, peek_eq_advance]
  cases s.advance.1 <;> rfl

/-- What requests do to a stream: it delivers characters and keeps them. -/
theorem records_serve (hs : s.LineWise) (requests : List Request) :
    s.Records (Request.delivered (s.serve requests).1) (s.serve requests).2 := by
  induction requests generalizing s with
  | nil => exact ⟨.refl hs, rfl⟩
  | cons request requests ih =>
    cases request with
    | peek => exact (records_fill hs).trans (ih (lineWise_fill hs))
    | advance =>
      rw [delivered_advance]
      exact (records_skip hs).trans (ih (lineWise_skip hs))

/-- One character is delivered for each request that is not only to look, as long as there are
characters left. -/
theorem delivered_serve (hs : s.LineWise) (requests : List Request) :
    Request.delivered (s.serve requests).1 = s.remaining.take (requests.count .advance) := by
  induction requests generalizing s with
  | nil => rfl
  | cons request requests ih =>
    cases request with
    | peek =>
      rw [delivered_peek, ih (lineWise_fill hs), remaining_fill, List.count_cons_of_ne (by decide)]
    | advance =>
      rw [delivered_advance, ih (lineWise_skip hs), remaining_skip hs, List.count_cons_self,
        peek_eq_head?]
      cases s.remaining <;> simp

/-- Once there is no character to deliver, all of them have been delivered. -/
theorem delivered_of_none (hs : s.LineWise) (h : (.advance, none) ∈ (s.serve requests).1) :
    Request.delivered (s.serve requests).1 = s.remaining := by
  induction requests generalizing s with
  | nil => cases h
  | cons request requests ih =>
    rcases List.mem_cons.1 h with hnone | hlater
    · obtain ⟨rfl, hnone⟩ := Prod.mk.inj hnone
      have hrest : s.remaining = [] := by
        rw [← peek_eq_none_iff, peek_eq_advance]
        exact hnone.symm
      rw [delivered_serve hs, hrest, List.take_nil]
    · cases request with
      | peek => rw [delivered_peek, ih (lineWise_fill hs) hlater, remaining_fill]
      | advance =>
        rw [delivered_advance, ih (lineWise_skip hs) hlater, remaining_skip hs, peek_eq_head?]
        cases s.remaining <;> rfl

/-- What looking ahead and reading keep is kept by any requests. -/
theorem frame_serve {R : Stream → Stream → Prop} [Frame R] (s : Stream) (requests : List Request) :
    R s (s.serve requests).2 := by
  induction requests generalizing s with
  | nil => exact refl s
  | cons request requests ih =>
    cases request with
    | peek => exact trans_of R (Frame.fill s) (ih s.fill)
    | advance => exact trans_of R (Frame.skip s) (ih s.skip)

/-! ### The line in progress -/

/-- Once a character of the line in progress has been delivered, something of it has been
requested. -/
def Begun (s : Stream) : Prop := s.location.column ≠ 0 → s.Requested

/-- Reading that keeps this. -/
def KeepsBegun (s t : Stream) : Prop := s.LineWise ∧ s.Begun → t.LineWise ∧ t.Begun

instance : Frame KeepsBegun where
  refl _ h := h
  trans _ _ _ h k hs := k (h hs)
  fill s h := ⟨lineWise_fill h.1, fun _ => requested_fill s⟩
  skip s h := by
    refine ⟨lineWise_skip h.1, fun hcolumn => ?_⟩
    cases hp : s.peek with
    | none =>
      rw [skip_of_pending (by rw [peek] at hp; simpa using hp)]
      exact requested_fill s
    | some c =>
      refine requested_skip h.1 hp ?_
      rintro rfl
      rw [location_skip h.1 hp] at hcolumn
      exact hcolumn rfl

/-- After a look ahead something of the line in progress has been requested. -/
theorem requested_serve_of_peek (s : Stream) (h : requests.getLast? = some .peek) :
    (s.serve requests).2.Requested := by
  induction requests generalizing s with
  | nil => cases h
  | cons request requests ih =>
    cases requests with
    | nil =>
      obtain rfl : request = .peek := Option.some.inj h
      exact requested_fill s
    | cons next requests => exact ih _ (by rwa [List.getLast?_cons_cons] at h)

/-! ### What a stream tells -/

/-- The stream gives the whole of line `n` of the text. -/
def Knows (text : List Char) (n : ℕ) (s : Stream) : Prop :=
  ∃ line, lineAt text n = some line ∧ s.lineText n = some line

/-- What a stream tells of a text when the characters `delivered` have been read of it. -/
structure Accounts (text delivered : List Char) (s : Stream) : Prop where
  /-- The place counts the line ends, and the characters after the last of them. -/
  location : s.location = ⟨1 + delivered.count '\n', (delivered.rtakeWhile (· ≠ '\n')).length⟩
  /-- The lines that are kept are those of what has been delivered. -/
  line? (n : ℕ) : s.lines.line? n = lineAt delivered n
  /-- They are numbered from 1 to the number of the line in progress. -/
  isSome_line?_iff (n : ℕ) : (s.lines.line? n).isSome ↔ 1 ≤ n ∧ n ≤ s.lines.count
  /-- The finished lines are given as they are in the text. -/
  finished {n : ℕ} (hn : 1 ≤ n) (before : n < s.lines.count) : s.Knows text n
  /-- So is the line in progress, unless nothing has been delivered or requested of it. -/
  inProgress : s.Knows text s.lines.count ∨
    s.location.column = 0 ∧ s.lineText s.lines.count = some []
  /-- There is nothing to give of any other line. -/
  outside {n : ℕ} (hn : n = 0 ∨ s.lines.count < n) : s.lineText n = none

theorem Of.knows {text : List Char} {n : ℕ} (h : s.Of text) (hn : 0 < n) (covers : s.Covers n) :
    s.Knows text n := by
  obtain ⟨htext, hsome⟩ := h.lineText hn covers
  obtain ⟨line, hline⟩ := Option.isSome_iff_exists.1 hsome
  exact ⟨line, by rw [lineAt_of_pos hn, ← htext, hline], hline⟩

theorem Of.accounts {input : Input} {text delivered : List Char} (h : s.Of text)
    (records : (ofInput input).Records delivered s) (begun : s.Begun) :
    s.Accounts text delivered := by
  have hcounted := h.counted
  have hline : s.location.line = s.lines.count := by rw [hcounted]
  have hlines (n : ℕ) : s.lines.line? n = lineAt delivered n := by
    rw [records.lines]
    exact Lines.line?_pushAll delivered n
  have hsome (n : ℕ) : (s.lines.line? n).isSome ↔ 1 ≤ n ∧ n ≤ s.lines.count := by
    rw [Option.isSome_iff_ne_none, ne_eq, Lines.line?_eq_none_iff]
    omega
  refine ⟨?_, hlines, hsome, fun hn before => h.knows hn (.inl (by rwa [hline])), ?_, fun hn => ?_⟩
  · rw [records.location]
    exact after_start delivered
  · by_cases hrequested : s.Requested
    · exact .inl (h.knows (Nat.succ_pos _) (.inr ⟨hline.symm, hrequested⟩))
    · -- Nothing of the line has been requested, so nothing of it can have been delivered.
      have hcolumn : s.location.column = 0 := by
        by_contra hne
        exact hrequested (begun hne)
      have hpending : s.pending = [] := by
        by_contra hne
        exact hrequested (.inr hne)
      have hcurrent : s.lines.current = [] := by
        rw [hcounted] at hcolumn
        exact List.length_eq_zero_iff.1 hcolumn
      refine .inr ⟨hcolumn, ?_⟩
      simp [Stream.lineText, Lines.count, Lines.line?, Lines.toList, hpending, hcurrent]
  · rw [Stream.lineText, (Lines.line?_eq_none_iff _ _).2 hn, Option.map_none]

/-- What is asked of a stream makes no difference to what it tells: this depends on the characters
delivered alone, and these are the text from its start, one for each request that is not only to
look. Only of the line in progress the stream may know nothing before it has looked into it. -/
theorem accounts_serve (input : Input) (requests : List Request) :
    let text := normalise input.text
    let served := (ofInput input).serve requests
    let delivered := Request.delivered served.1
    delivered <+: text ∧ delivered = text.take (requests.count .advance) ∧
      ((.advance, none) ∈ served.1 → delivered = text) ∧ served.2.Accounts text delivered ∧
      (requests.getLast? = some .peek → served.2.Knows text served.2.lines.count) := by
  intro text served delivered
  have hs := lineWise_ofInput input
  have htake : delivered = text.take (requests.count .advance) := delivered_serve hs requests
  have hof : served.2.Of text :=
    (frame_serve (R := ReadsIn text) (ofInput input) requests (of_ofInput input)).1
  have hbegun : served.2.Begun :=
    (frame_serve (R := KeepsBegun) (ofInput input) requests ⟨hs, fun h => absurd rfl h⟩).2
  refine ⟨htake ▸ List.take_prefix _ _, htake, delivered_of_none hs,
    hof.accounts (records_serve hs requests) hbegun, fun hlast => ?_⟩
  have hline : served.2.location.line = served.2.lines.count := by rw [hof.counted]
  exact hof.knows (Nat.succ_pos _) (.inr ⟨hline.symm, requested_serve_of_peek _ hlast⟩)

/-- It takes no look ahead to be told a line in progress: a stream that has delivered one character
gives all of the line around it. -/
theorem not_lineText_eq_none_of_advance :
    ¬ ∀ (input : Input) (requests : List Request) (n : ℕ),
      let s := ((ofInput input).serve requests).2
      ¬ (1 ≤ n ∧ n < s.lines.count) →
        ¬ (n = s.lines.count ∧ requests.getLast? = some .peek) → s.lineText n = none := by
  intro h
  let s := ((ofInput ⟨"ab".toList, false⟩).serve [.advance]).2
  have hline : s.lineText 1 = some ['a', 'b'] := by decide
  have hnone : s.lineText 1 = none :=
    h ⟨"ab".toList, false⟩ [.advance] 1 (fun hn => absurd hn.2 (by decide))
      fun hn => absurd hn.2 (by decide)
  exact Option.some_ne_none _ (hline.symm.trans hnone)

/-- Right after a line end the next line is not known before a look ahead; after a lone carriage
return it is, being part of what has been requested. -/
example :
    let after (requests : List Request) := ((ofInput ⟨"a\nb\rc".toList, false⟩).serve requests).2
    (after [.advance, .advance]).lineText 2 = some [] ∧
      (after [.advance, .advance, .peek]).lineText 2 = some ['b'] ∧
      (after [.advance, .advance, .advance, .advance]).lineText 3 = some ['c'] := by decide

end Stream

end Source

end Offside
