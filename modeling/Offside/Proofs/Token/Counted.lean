import Mathlib.Order.Defs.Unbundled
import Offside.Diagnostic.Basic
import Offside.Proofs.Token.Line

/-!
# Places and the lines they point into

A stream counts lines and columns while it delivers characters, and it keeps the lines that it has
delivered. The two agree, so an error at the end of a line points just past the last character that
was read of this line.

Whatever reads a token only looks ahead and reads characters, so a relation between streams that
allows these two steps is kept by every scanner.

## Main definitions

* `Offside.Source.Stream.Frame`: relations that allow looking ahead and reading.
* `Offside.Source.Stream.Counted`: the place of a stream tells how much it has delivered.
* `Offside.Lexeme.anchor`: where an error at a token points.

## Main results

* `Offside.Token.frame_scan`, `Offside.Token.frame_firstContent`: what scanning keeps.
* `Offside.Lexer.readCases_read`, `Offside.Lexer.frame_read`: how a token is read, and what reading
  one keeps.
* `Offside.Source.Stream.anchor_skip`: where an error at the end of a line points.
-/

namespace Offside

/-! ### What scanning keeps -/

namespace Source.Stream

/-- Relations between an earlier and a later stream that allow looking ahead and reading. -/
class Frame (R : Stream → Stream → Prop) : Prop extends IsPreorder Stream R where
  fill (s : Stream) : R s s.fill
  skip (s : Stream) : R s s.skip

theorem Frame.takeWhile {R : Stream → Stream → Prop} [Frame R] (p : Char → Bool) (s : Stream) :
    R s (s.takeWhile p).2 := by
  fun_induction Stream.takeWhile p s with
  | case1 s hp => exact Frame.fill s
  | case2 s c hc hp run rest hrun ih =>
    rw [hrun] at ih
    exact trans_of R (Frame.skip s) ih
  | case3 s c hc hp => exact Frame.fill s

end Source.Stream

open Source

variable {R : Stream → Stream → Prop} [Stream.Frame R]

namespace Token

variable (s : Stream)

theorem frame_closeCharacter (c : Char) : R s (closeCharacter c s).2 := by
  rw [closeCharacter]
  split
  · exact Stream.Frame.skip s
  · exact refl s

theorem frame_scanCharacter : R s (scanCharacter s).2 := by
  have h₁ : R s s.skip := Stream.Frame.skip s
  have h₂ : R s s.skip.skip := trans_of R h₁ (Stream.Frame.skip _)
  unfold scanCharacter
  repeat' split
  all_goals first
    | exact refl s
    | exact h₁
    | exact h₂
    | exact trans_of R h₁ (frame_closeCharacter _ _)
    | exact trans_of R h₂ (frame_closeCharacter _ _)

theorem frame_scanSymbol (c : Char) : R s (scanSymbol c s).2 := by
  unfold scanSymbol
  repeat' split
  · exact Stream.Frame.skip s
  · exact refl s
  · exact refl s

theorem frame_scan (c : Char) : R s (scan c s).2 := by
  have hskip : R s s.skip := Stream.Frame.skip s
  unfold scan
  split
  · exact trans_of R hskip (frame_scanCharacter _)
  · split
    · rw [size_scanNumber]
      exact Stream.Frame.takeWhile _ s
    · split
      · exact Stream.Frame.takeWhile _ s
      · exact trans_of R hskip (frame_scanSymbol _ c)

theorem frame_skipComment : R s (skipComment s).2 :=
  trans_of R (Stream.Frame.takeWhile _ s) (Stream.Frame.skip _)

theorem frame_firstContent : R s (firstContent s).2 := by
  fun_induction firstContent s with
  | case1 s line hp => exact Stream.Frame.takeWhile _ s
  | case2 s line hp ih =>
    exact trans_of R (Stream.Frame.takeWhile _ s) (trans_of R (Stream.Frame.skip _) ih)
  | case3 s line hp _ ih =>
    exact trans_of R (Stream.Frame.takeWhile _ s) (trans_of R (frame_skipComment _) ih)
  | case4 s line c hp => exact Stream.Frame.takeWhile _ s

end Token

open Token

namespace Lexer

variable {l : Lexer}

theorem stream_finish (l : Lexer) (place : Location) : (l.finish place).after.stream = l.stream := by
  rw [finish]
  split <;> rfl

theorem frame_inLine (l : Lexer) : R l.stream l.inLine.after.stream := by
  have hgap : R l.stream (l.stream.takeWhile isGap).2 := Stream.Frame.takeWhile _ _
  unfold inLine
  dsimp only
  generalize (l.stream.takeWhile isGap).2 = s at hgap
  have hcomment : R l.stream (skipComment s).2 := trans_of R hgap (frame_skipComment s)
  split
  · rw [stream_finish]
    exact hgap
  · split
    · exact trans_of R hgap (Stream.Frame.skip s)
    · split
      · split
        · exact hcomment
        · rw [stream_finish]
          exact hcomment
      · exact trans_of R hgap (frame_scan s _)

/-- What a margin calls for is layout. It stands where the lexer is, and is found without reading
on. -/
theorem of_layout? {margin : Margin} {x : Lexeme} (h : l.layout? margin = some x) :
    x.after.stream = l.stream ∧ x.token.location = l.place ∧ x.token.kind.isLayout := by
  unfold layout? at h
  dsimp only at h
  split at h
  · cases h
    exact ⟨rfl, rfl, rfl⟩
  · split at h
    · cases h
      exact ⟨rfl, rfl, rfl⟩
    · split at h
      · cases h
      · split at h
        · cases h
          exact ⟨rfl, rfl, rfl⟩
        · cases h
          exact ⟨rfl, rfl, rfl⟩

/-- How a token is read: a dedent is owed, or the line goes on, or the next line with content begins,
perhaps with what its margin calls for. -/
inductive ReadCases (l : Lexer) : Lexeme → Prop
  | dedent (owed : 0 < l.owed) : ReadCases l l.payDedent
  | within (paid : l.owed = 0) : ReadCases l l.inLine
  | first {m : Lexer} (paid : m.owed = 0) (stream : m.stream = (firstContent l.stream).2) :
    ReadCases l m.inLine
  | layout {x : Lexeme} (stream : x.after.stream = (firstContent l.stream).2)
    (location : x.token.location = x.after.stream.location.following)
    (kind : x.token.kind.isLayout) : ReadCases l x

theorem readCases_read (l : Lexer) : l.ReadCases l.read := by
  unfold read
  split
  · next howed => exact .dedent howed
  · next howed =>
    have paid : l.owed = 0 := by omega
    split
    · unfold startLine
      dsimp only
      split
      · exact .first (m := { l with stream := (firstContent l.stream).2 }) paid rfl
      · cases hx : layout? { l with stream := (firstContent l.stream).2, atLineStart := false }
            (firstContent l.stream).1 with
        | none =>
          exact .first (m := { l with stream := (firstContent l.stream).2, atLineStart := false })
            paid rfl
        | some x =>
          obtain ⟨hstream, hplace, hkind⟩ := of_layout? hx
          exact .layout hstream (by rw [Option.getD_some, hplace, hstream]; rfl) hkind
    · exact .within paid

/-- What reading a token keeps. -/
theorem frame_read (l : Lexer) : R l.stream l.read.after.stream := by
  have hcontent : R l.stream (firstContent l.stream).2 := frame_firstContent _
  have hread := readCases_read l
  generalize l.read = x at *
  cases hread with
  | dedent => exact refl l.stream
  | within => exact frame_inLine l
  | @first m _ stream => exact trans_of R hcontent (stream ▸ frame_inLine m)
  | layout stream => exact stream ▸ hcontent

end Lexer

/-! ### Lines and columns -/

namespace Source.Stream

/-- The place tells how many lines are finished, and how long the line in progress is. -/
def Counted (s : Stream) : Prop := s.location = ⟨s.lines.count, s.lines.current.length⟩

theorem counted_ofInput (input : Input) : (ofInput input).Counted := rfl

variable {s : Stream}

theorem lines_fill (s : Stream) : s.fill.lines = s.lines := by
  rw [fill]
  split
  · rfl
  · rfl
  · split <;> rfl

theorem Counted.fill (h : s.Counted) : s.fill.Counted := by
  rw [Counted, location_fill, lines_fill]
  exact h

theorem Counted.deliver (h : s.Counted) (c : Char) (rest : List Char) :
    (s.deliver c rest).Counted := by
  rw [Counted] at h
  rw [Counted, Stream.deliver, h, Location.next, Lines.push]
  split
  · simp [Lines.count]
  · simp [Lines.count]

theorem Counted.skip (h : s.Counted) : s.skip.Counted := by
  unfold Stream.skip advance
  dsimp only
  split
  · exact h.fill
  · exact h.fill.deliver _ _
  · exact h.fill.deliver _ _

/-- Reading that keeps count. -/
def KeepsCount (s t : Stream) : Prop := s.Counted → t.Counted

instance : Frame KeepsCount where
  refl _ h := h
  trans _ _ _ h k hs := k (h hs)
  fill _ h := h.fill
  skip _ h := h.skip

theorem Counted.takeWhile (h : s.Counted) (p : Char → Bool) : (s.takeWhile p).2.Counted :=
  Frame.takeWhile (R := KeepsCount) p s h

/-- An error at the end of a line points just past the last character read before it. -/
theorem anchor_skip (hs : s.LineWise) (h : s.Counted) (hp : s.peek = some '\n') :
    anchor s.skip.location.following .endOfLine s.skip = s.location.following := by
  have hlines : s.skip.lines = s.lines.push '\n' := by
    rcases skip_cases hs hp with ⟨rest, -, -, he⟩ | ⟨c, rest, -, hc, -, he⟩
    · rw [he, Stream.deliver, lines_fill]
    · rw [he, ← hc, Stream.deliver, lines_fill]
  have hloc := location_skip hs hp
  rw [Counted] at h
  rw [Location.next_newline] at hloc
  have htext : s.skip.lineText s.location.line = some s.lines.current.reverse := by
    rw [lineText, hlines, h, Lines.push, if_pos rfl]
    simp [Lines.count, Lines.line?, Lines.toList]
  have hline : 2 ≤ s.location.line + 1 := by
    rw [h]
    exact Nat.succ_le_succ (Nat.succ_le_succ (Nat.zero_le _))
  rw [anchor, hloc, Location.following, if_pos ⟨rfl, hline⟩]
  dsimp only
  rw [Nat.add_sub_cancel, htext, Location.following, h]
  simp

end Source.Stream

theorem Token.counted_scan {s : Stream} (h : s.Counted) (c : Char) : (scan c s).2.Counted :=
  frame_scan (R := Stream.KeepsCount) s c h

theorem Lexer.counted_read {l : Lexer} (h : l.stream.Counted) : l.read.after.stream.Counted :=
  frame_read (R := Stream.KeepsCount) l h

/-- Where an error at a token points. -/
def Lexeme.anchor (x : Lexeme) : Location :=
  Offside.anchor x.token.location x.token.kind x.after.stream

/-- An error at a token that ends no line points to the token. -/
theorem Lexeme.anchor_of_ne {x : Lexeme} (h : x.token.kind ≠ .endOfLine) :
    x.anchor = x.token.location := by
  rw [Lexeme.anchor, Offside.anchor, if_neg fun hline => h hline.1]

end Offside
