import Offside.Proofs.Token.SingleLine

/-!
# The tokens of a text come to an end

Tokens are requested one at a time. The end of the input is among them, and whoever goes on to
request tokens after it is given the end of the input again and again. So the tokens of a text are
those that are requested up to the first end of the input.

Their number is bounded by the length of the text as it is delivered, where a line end is one
character however it is written.

## Main definitions

* `Offside.Lexer.ahead`: the lexer after some requests.
* `Offside.Lexer.Drained`: the lexer has delivered everything.

## Main results

* `Offside.Lexer.getElem?_lexemes`, `Offside.Lexer.kind_ahead_iff`: the tokens of a text are those
  requested up to the first end of the input, and all later ones are the end of the input.
* `Offside.Lexer.length_lexemes_ofInput_le`: a text of `n` characters has at most `2 * n + 1`
  tokens.
-/

namespace Offside.Lexer

open Source Token

variable {l : Lexer} {k : Nat}

/-- The lexer after some tokens have been requested. -/
def ahead : Nat → Lexer → Lexer
  | 0, l => l
  | n + 1, l => ahead n l.next.after

/-! ### The end of the input -/

/-- The lexer has delivered everything: no character is left, and no block is to be closed. -/
structure Drained (l : Lexer) : Prop where
  lineWise : l.stream.LineWise
  remaining : l.stream.remaining = []
  noBlocks : l.blocks = []
  paid : l.owed = 0

private theorem drained_of_inLine (hs : l.stream.LineWise) (paid : l.owed = 0)
    (hk : l.inLine.token.kind = .endOfInput) : l.inLine.after.Drained := by
  have hgap := Stream.lineWise_takeWhile isGap hs
  have hfill := Stream.fill_takeWhile isGap hs
  have finish {t : Stream} {place : Location} (ht : t.LineWise) (hrest : t.remaining = [])
      (hk : (finish { l with stream := t } place).token.kind = .endOfInput) :
      (finish { l with stream := t } place).after.Drained := by
    rw [Lexer.finish] at hk ⊢
    split at hk
    · next hb =>
      rw [if_pos hb]
      exact ⟨ht, hrest, List.isEmpty_iff.1 hb, paid⟩
    · cases hk
  unfold inLine at hk ⊢
  dsimp only at hk ⊢
  generalize (l.stream.takeWhile isGap).2 = s at *
  cases hp : s.peek with
  | none =>
    simp only [hp] at hk ⊢
    exact finish hgap (Stream.peek_eq_none_iff.1 hp) hk
  | some c =>
    simp only [hp] at hk ⊢
    by_cases hn : c = '\n'
    · rw [if_pos hn] at hk
      cases hk
    rw [if_neg hn] at hk ⊢
    by_cases hc : c = '#'
    · rw [if_pos hc] at hk ⊢
      rcases reads_skipComment hgap with ⟨_, -, hb, -⟩ | ⟨hlast, hb, hcomment⟩
      · rw [hb, if_pos rfl] at hk
        cases hk
      · rw [hb, if_neg Bool.false_ne_true] at hk ⊢
        -- The comment is the last line, so all that was left has been read.
        have hwhole := List.takeWhile_append_dropWhile (p := (· ≠ '\n')) (l := s.remaining)
        rw [hlast] at hwhole
        exact finish hcomment.lineWise (hcomment.rest hwhole.symm) hk
    · rw [if_neg hc] at hk
      have hscan : (scan c s).1 = .endOfInput := hk
      rw [(agrees_scan hgap hfill hp hn).kind] at hscan
      exact absurd hscan (tokenOf_ne_end _ _).2

/-- The end of the input leaves nothing to be delivered. -/
theorem drained_of_endOfInput (hs : l.stream.LineWise) (hk : l.next.token.kind = .endOfInput) :
    l.next.after.Drained := by
  rw [token_next] at hk
  rw [after_next]
  obtain ⟨used, hcontent⟩ := reads_firstContent hs
  have hread := readCases_read l
  generalize l.read = x at *
  cases hread with
  | dedent => cases hk
  | within paid => exact drained_of_inLine hs paid hk
  | first paid stream => exact drained_of_inLine (stream ▸ hcontent.lineWise) paid hk
  | layout _ _ kind => simp [hk, Kind.isLayout] at kind

/-- Where everything has been delivered, the end of the input is delivered once more. -/
theorem Drained.next (h : l.Drained) :
    l.next.token.kind = .endOfInput ∧ l.next.after.Drained := by
  have hkinds := kinds_of_noBlocks h.lineWise h.remaining h.noBlocks
  rw [h.paid] at hkinds
  have hk : l.next.token.kind = .endOfInput := by
    by_contra hne
    rw [token_next] at hne
    rw [tokens_eq_cons hne, List.map_cons] at hkinds
    exact hne (List.cons.inj hkinds).1
  exact ⟨hk, drained_of_endOfInput h.lineWise hk⟩

theorem Drained.kind_ahead (h : l.Drained) (k : Nat) :
    (l.ahead k).next.token.kind = .endOfInput := by
  induction k generalizing l with
  | zero => exact h.next.1
  | succ k ih => exact ih h.next.2

/-! ### The tokens up to the end of the input -/

/-- The tokens of a text are requested one after the other. -/
theorem getElem?_lexemes (hk : k < l.lexemes.length) : l.lexemes[k]? = some (l.ahead k).next := by
  induction k generalizing l with
  | zero =>
    by_cases hend : l.next.token.kind = .endOfInput
    · rw [lexemes_eq_singleton hend]
      rfl
    · rw [lexemes_eq_cons hend]
      rfl
  | succ k ih =>
    by_cases hend : l.next.token.kind = .endOfInput
    · rw [lexemes_eq_singleton hend] at hk
      exact absurd hk (by simp)
    · rw [lexemes_eq_cons hend] at hk ⊢
      rw [List.getElem?_cons_succ]
      exact ih (Nat.lt_of_succ_lt_succ hk)

/-- Exactly the last of them, and every token requested after it, is the end of the input. -/
theorem kind_ahead_iff (hs : l.stream.LineWise) :
    (l.ahead k).next.token.kind = .endOfInput ↔ l.lexemes.length ≤ k + 1 := by
  induction k generalizing l with
  | zero =>
    by_cases hend : l.next.token.kind = .endOfInput
    · rw [lexemes_eq_singleton hend]
      exact iff_of_true hend (Nat.le_refl _)
    · have := List.length_pos_iff.2 l.next.after.lexemes_ne_nil
      rw [lexemes_eq_cons hend, List.length_cons]
      exact iff_of_false hend (by omega)
  | succ k ih =>
    have hnext : l.next.after.stream.LineWise := by
      obtain ⟨_, hread, -⟩ := reads_read hs
      rw [after_next]
      exact hread.lineWise
    by_cases hend : l.next.token.kind = .endOfInput
    · rw [lexemes_eq_singleton hend]
      refine iff_of_true ((drained_of_endOfInput hs hend).kind_ahead k) ?_
      rw [List.length_singleton]
      omega
    · rw [lexemes_eq_cons hend, List.length_cons, Nat.add_le_add_iff_right]
      exact ih hnext

/-! ### The number of tokens -/

theorem normalise_normalise (cs : List Char) : normalise (normalise cs) = normalise cs :=
  normalise_of_not_mem (not_mem_normalise cs)

/-- A text of `n` characters has at most `2 * n + 1` tokens. -/
theorem length_lexemes_ofInput_le (input : Input) :
    (ofInput input).lexemes.length ≤ 2 * (normalise input.text).length + 1 := by
  -- The text with each line end written as one line feed has the same tokens.
  let plain : Input := ⟨normalise input.text, false⟩
  have hplain : normalise plain.text = normalise input.text := normalise_normalise _
  have hlength := (abreast_ofInput hplain).lexemes.length_eq
  have hbound := length_lexemes_le (ofInput plain)
  rw [hlength]
  simpa [weight, Stream.size, ofInput, Stream.ofInput, depth] using! hbound

end Offside.Lexer
