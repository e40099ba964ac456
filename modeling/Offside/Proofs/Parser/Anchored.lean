import Offside.Proofs.Parser.Beside

/-!
# Places in a tree

The places in a tree are those of the tokens from which it is read, and so is the place where the
reason is reported if there is no tree. A line end is no exception: where it is reported an error
points to the line that it ends, and no tree stands at a line end.

This is true because places are only passed on. If those of the tokens that are read are left alone
and every other place is moved, the same tree is read.

## Main definitions

* `Offside.Location.outside`: move every place but some.

## Main results

* `Offside.Parser.yields_anchored`: reading an item makes up no place.
-/

namespace Offside

/-- Move every place but those given. -/
def Location.outside (places : List Location) (place : Location) : Location :=
  if place ∈ places then place else ⟨place.line + 1, place.column⟩

theorem Location.outside_eq_self {places : List Location} {place : Location} :
    place.outside places = place ↔ place ∈ places := by
  rw [outside]
  split
  · next h => exact iff_of_true rfl h
  · next h =>
    refine iff_of_false (fun he => ?_) h
    have hline := congrArg Location.line he
    exact absurd hline (Nat.succ_ne_self _)

namespace Parser

variable {p q : Parser} {x : Lexeme} {xs : List Lexeme}

/-- The parser stands on the token `x`. -/
structure StandsOn (p : Parser) (x : Lexeme) : Prop where
  current : p.current = x.token
  lexer : p.lexer = x.after

theorem StandsOn.anchor (h : p.StandsOn x) :
    anchor p.current.location p.current.kind p.stream = x.anchor := by
  rw [Parser.stream, h.current, h.lexer, Lexeme.anchor]

/-- A parser beside itself, where every place is moved but those of the tokens to be read. -/
theorem beside_self (hp : p.StandsOn x) {tail : List Lexeme} (hrest : p.rest = xs ++ tail) :
    Beside ⟨Location.outside ((x :: xs).map Lexeme.anchor), tail, tail, p.types.structDecls,
      p.journal.diagnostics, p.journal.diagnostics, id⟩ p p := by
  have fixed (y : Lexeme) (hy : y ∈ x :: xs) :
      y.anchor.outside ((x :: xs).map Lexeme.anchor) = y.anchor :=
    Location.outside_eq_self.2 (List.mem_map_of_mem hy)
  have hx := fixed x List.mem_cons_self
  refine ⟨rfl, fun hk => ?_, ?_, ⟨xs, xs, ?_, hrest, hrest⟩, rfl, rfl,
    TypeEnv.relocated_self p.types, ⟨[], by simp, by simp⟩⟩
  · rw [hp.current] at hk ⊢
    rw [← Lexeme.anchor_of_ne hk]
    exact hx.symm
  · rw [hp.anchor]
    exact hx.symm
  · refine List.forall₂_same.2 fun y hy => ?_
    have hy := fixed y (List.mem_cons_of_mem _ hy)
    refine ⟨rfl, fun hk => ?_, hy.symm⟩
    rw [← Lexeme.anchor_of_ne hk]
    exact hy.symm

/-- The places of an item that is read are those of the tokens from its first one on, and so is the
place where it is reported that no item can be read. -/
theorem yields_anchored (hp : p.StandsOn x) (bounded : p.Bounded) :
    Yields p (Parse.item p.fuel)
      (fun item q => ∀ xs, p.rest = xs ++ q.rest →
        item.relocate (Location.outside ((x :: xs).map Lexeme.anchor)) = item)
      fun e q => ∀ xs, p.rest = xs ++ q.rest → ∀ d, e = .diagnostic d →
        d.location ∈ (x :: xs).map Lexeme.anchor := by
  rw [Yields]
  split
  · next item q hrun =>
    intro xs hrest
    rcases Parse.couples_item (w := Passage.comparison _) (beside_self hp hrest) bounded bounded with
      hsame | hbeyond
    · rw [Couples, hrun] at hsame
      exact hsame.1.symm
    · rw [Yields, hrun] at hbeyond
      exact absurd hbeyond (Nat.lt_irrefl _)
  · next e q hrun =>
    rintro xs hrest d rfl
    rcases Parse.couples_item (w := Passage.comparison _) (beside_self hp hrest) bounded bounded with
      hsame | hbeyond
    · rw [Couples, hrun] at hsame
      obtain ⟨hd, -⟩ := hsame
      rw [Failure.relocate, Failure.diagnostic.injEq] at hd
      exact Location.outside_eq_self.1 (congrArg Diagnostic.location hd).symm
    · rw [Yields, hrun] at hbeyond
      exact absurd hbeyond (Nat.lt_irrefl _)

end Parser

end Offside
