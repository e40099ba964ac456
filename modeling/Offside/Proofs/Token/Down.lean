import Offside.Proofs.Token.Pointed
import Offside.Proofs.Token.Unclosed

/-!
# The same tokens further down

Where two texts have the same lines, the tokens of one are those of the other, some lines further
down: kinds and columns are the same, and so are the widths of the blocks that are opened. The place
of a line end, which is the start of the next line, is no exception.

## Main definitions

* `Offside.Lexeme.Down`: the same token some lines further down.

## Main results

* `Offside.Lexer.ReadsWithin.down`: one token of common lines.
* `Offside.Lexer.Abreast.down_lexemes`: the tokens to the end of the input.
-/

namespace Offside

open Source Token

/-- The same token, `d` lines further down. If it opens a block, the block has the same width. -/
structure Lexeme.Down (d : Nat) (x x' : Lexeme) : Prop where
  token : x'.token = ⟨x.token.kind, x.token.location.down d⟩
  anchor : x'.anchor = x.anchor.down d
  width (opens : x.token.kind = .indent) : x'.after.lastWidth = x.after.lastWidth

namespace Lexeme.Down

variable {d : Nat} {x x' : Lexeme}

theorem kind (h : x.Down d x') : x'.token.kind = x.token.kind := by rw [h.token]

theorem beside (h : x.Down d x') : x.Beside (Location.down d) x' :=
  ⟨h.kind, fun _ => by rw [h.token], h.anchor⟩

/-- It is listed in the same way. -/
theorem listed (h : x.Down d x') : x'.listed = x.listed := by
  rw [Lexeme.listed, Lexeme.listed, h.kind]
  split
  · next hk => rw [h.width hk]
  · rfl

end Lexeme.Down

/-- Tokens that are the same are listed in the same way. -/
theorem listing_of_down {xs xs' : List Lexeme}
    (h : List.Forall₂ (fun x x' => ∃ d, x.Down d x') xs xs') : listing xs' = listing xs := by
  have hmap : (xs'.map fun x => x.listed ++ if x.token.endsLine then "\n" else " ") =
      xs.map fun x => x.listed ++ if x.token.endsLine then "\n" else " " := by
    induction h with
    | nil => rfl
    | @cons x x' xs xs' hx hxs ih =>
      obtain ⟨d, hx⟩ := hx
      rw [List.map_cons, List.map_cons, ih, hx.listed, Token.endsLine, Token.endsLine, hx.kind]
  rw [listing, listing, hmap]

namespace Lexer

variable {d : Nat} {rest rest' common text text' : List Char} {l l' : Lexer}

theorem Of.next (h : l.Of text) : l.next.after.Of text := after_next l ▸ h.read

theorem stands_next (h : l.Of text) : l.next.Stands := (stands_of_mem h l.next_mem_lexemes).1

/-- A block that is opened is the innermost one, and it has the width that the lexer keeps. -/
theorem margin_of_indent (hs : l.stream.LineWise) (hk : l.next.token.kind = .indent) :
    l.next.after.margin = l.next.after.lastWidth := by
  have hshifts := shifts_next hs
  generalize l.next = x at *
  cases hshifts with
  | opened kind paid still blocks => rw [margin, blocks, List.headD_cons]
  | closed _ kind | forgotten kind | ended kind => cases hk.symm.trans kind
  | plain indent => exact absurd hk indent

/-- A token of common lines is the same in both texts. -/
theorem ReadsWithin.down (h : ReadsWithin d rest rest' l.next l'.next) (hl : l.Of text)
    (hl' : l'.Of text') : l.next.Down d l'.next := by
  obtain ⟨common, -, -, hbeside, hafter⟩ := h
  have hkind := hbeside.kind
  refine ⟨?_, hbeside.anchor, fun hk => ?_⟩
  · have hplace : l'.next.token.location = l.next.token.location.down d := by
      by_cases hline : l.next.token.kind = .endOfLine
      · rw [((stands_next hl).lineEnd hline).1, ((stands_next hl').lineEnd (hkind.trans hline)).1,
          hafter.stream.location, Location.following_down]
      · exact hbeside.location hline
    rw [← hkind, ← hplace]
  · rw [← margin_of_indent hl.stream.lineWise hk,
      ← margin_of_indent hl'.stream.lineWise (hkind.trans hk), margin, margin, hafter.blocks]

/-- Where nothing follows the common lines, all tokens are the same. -/
theorem Abreast.down_lexemes (h : l.Abreast d [] [] common l') (hl : l.Of text) (hl' : l'.Of text') :
    List.Forall₂ (Lexeme.Down d) l.lexemes l'.lexemes := by
  induction hw : l.weight using Nat.strongRecOn generalizing l l' common with
  | _ w ih =>
    cases h.next (.inl (.inl ⟨rfl, rfl⟩)) with
    | within within =>
      have hdown := within.down hl hl'
      obtain ⟨common, -, -, -, hafter⟩ := within
      by_cases hend : l.next.token.kind = .endOfInput
      · rw [lexemes_eq_singleton hend, lexemes_eq_singleton (l := l') (hdown.kind ▸ hend)]
        exact .cons hdown .nil
      · rw [lexemes_eq_cons hend, lexemes_eq_cons (l := l') (hdown.kind ▸ hend)]
        exact .cons hdown (ih _ (hw ▸ weight_next_lt hend) hafter hl.next hl'.next rfl)
    | beyond goesOn => exact absurd (.inl ⟨rfl, rfl⟩) goesOn

end Lexer

end Offside
