import Offside.Proofs.Canonical.Parts
import Offside.Proofs.Parser.Named

/-!
# Types spelled out

A type is read back from its text, whatever the depth of its pointers: a builtin name is read as the
builtin type, `ptr` before a bracket as a pointer, and any other name, `ptr` among them, as itself. And
nothing else is ever read as a type: its names are names that are not builtin, and the tokens that were
read are those of its text.

## Main results

* `Offside.TypeExpr.textKinds_text`: the tokens of the text of a type.
* `Offside.Parse.reads_typeExpr`: the tokens that are read as a type.
* `Offside.Parse.typeExpr_read_back`: types are read back, and only such types are read.
-/

namespace Offside

open Source Token

namespace TypeExpr

/-! ### The text of a type -/

/-- The text of a type is put together from its pieces. -/
theorem toList_text (type : TypeExpr) : type.text.toList = type.pieces.flatMap Piece.chars := by
  induction type with
  | builtin b => simp [text, pieces, Piece.chars]
  | named name => simp [text, pieces, Piece.chars]
  | pointer element ih =>
    rw [toList_text_pointer, ih, pieces, List.flatMap_append, List.flatMap_append]
    rfl

theorem exists_firstPiece (type : TypeExpr) :
    ∃ a rest, type.pieces = a :: rest ∧ a.isFirst := by
  cases type <;> exact ⟨_, _, rfl, rfl⟩

/-- The tokens of the text are those of the pieces. -/
theorem textKinds_text {type : TypeExpr} (h : type.Writable) :
    textKinds type.text = type.pieces.flatMap Piece.kinds := by
  have hjoined := joined_pieces h
  have hend : ∀ d ∈ ([] : List Char).head?, isDelimiter d := nofun
  have hscans := Piece.scans_pieces hjoined hend
  rw [List.append_nil, ← toList_text] at hscans
  have hreturn : '\r' ∉ type.text.toList := by
    rw [toList_text, List.mem_flatMap]
    rintro ⟨a, ha, hmem⟩
    exact Piece.not_mem_chars (hjoined.sound a ha) hmem
  obtain ⟨a, rest, hpieces, hfirst⟩ := type.exists_firstPiece
  obtain ⟨c, cs, hchars, hmargin, hn⟩ :=
    Piece.exists_first (hjoined.sound a (by rw [hpieces]; exact List.mem_cons_self)) hfirst
  have htext : type.text.toList = c :: (cs ++ rest.flatMap Piece.chars) := by
    rw [toList_text, hpieces, List.flatMap_cons, hchars, List.cons_append]
  exact textKinds_of_scans hreturn htext hmargin hn hscans

theorem kinds_pieces_ofName (name : String) :
    (ofName name).pieces.flatMap Piece.kinds = [.identifier name] := by
  rw [ofName]
  split
  · next b hb => simp [pieces, Piece.kinds, Builtin.name_of_ofName? hb]
  · simp [pieces, Piece.kinds]

end TypeExpr

/-! ### What is read as a type -/

namespace Parse

variable {p : Parser}

/-- The tokens that are read as a type are those of its text, and it is one that has a text if the
identifiers among them are names. -/
theorem reads_typeExpr (hp : p.Bounded) (fuel : Nat) :
    Reads p (typeExpr fuel) fun used type _ =>
      used = type.pieces.flatMap Piece.kinds ∧ ((∀ kind ∈ used, kind.Named) → type.Writable) := by
  induction fuel generalizing p with
  | zero => exact reads_throw
  | succ fuel ih =>
    rw [typeExpr]
    refine reads_expectName hp fun name q hq => reads_kind ?_
    split
    · next hpointer =>
      obtain ⟨rfl, hbracket⟩ := hpointer
      refine reads_advance hq hbracket Kind.noConfusion fun r hr => ?_
      refine reads_bind (ih hr) fun used element s hs hused => ?_
      obtain ⟨rfl, hwritable⟩ := hused
      refine reads_expect hs Kind.noConfusion fun t ht => reads_pure ht ⟨?_, fun hnamed => ?_⟩
      · simp [TypeExpr.pieces, Piece.kinds]
      · exact hwritable fun kind hkind => hnamed kind (by simp [hkind])
    · refine reads_pure hq ⟨(TypeExpr.kinds_pieces_ofName name).symm, fun hnamed => ?_⟩
      exact writable_ofName (hnamed _ List.mem_cons_self name rfl)

/-- Types are read back from their texts. Whenever a type is written out and nothing else, it is read
to the end of the input; and whenever a type is read, anywhere in the tokens of any text, its names are
names and not builtin, and the tokens that were read are those of its text. -/
theorem typeExpr_read_back :
    (∀ type : TypeExpr, type.Writable → ∃ q,
      (typeExpr (Parser.ofText type.text).fuel).run (Parser.ofText type.text) = .ok type q ∧
        q.kinds = [.endOfInput]) ∧
    ∀ (l : Lexer) (p q : Parser) (fuel : Nat) (type : TypeExpr),
      p.kinds <:+ (Parser.ofLexer l).kinds → (typeExpr fuel).run p = .ok type q →
        type.Writable ∧ p.kinds = textKinds type.text ++ q.kinds := by
  refine ⟨fun type h => ?_, fun l p q fuel type hp hrun => ?_⟩
  · have hkinds := Parser.kinds_ofText type.text
    rw [TypeExpr.textKinds_text h] at hkinds
    obtain ⟨t, q, hrun, rfl, hq⟩ :=
      (TypeExpr.succeeds_typeExpr h hkinds Kind.noConfusion
        ((Parser.ofText type.text).enough_fuel.weaken (Nat.zero_le _))).exists
    exact ⟨q, hrun, hq⟩
  · obtain ⟨before, hbefore⟩ := hp
    have hbounded : p.Bounded := (Parser.bounded_beforeFirst l).of_append hbefore.symm
    obtain ⟨-, used, hused, rfl, hwritable⟩ := (reads_typeExpr hbounded fuel).exists hrun
    have hnamed : ∀ kind ∈ type.pieces.flatMap Piece.kinds, kind.Named := fun kind hkind => by
      refine (Parser.named_ofLexer l).kinds kind ?_
      rw [← hbefore, hused]
      simp [hkind]
    have h := hwritable hnamed
    exact ⟨h, by rw [TypeExpr.textKinds_text h, hused]⟩

/-- A pointer to a pointer to a type whose name is `ptr`. -/
theorem typeExpr_read_back_pointers :
    let type : TypeExpr := .pointer (.pointer (.named "ptr"))
    let p := Parser.ofText "ptr[ptr[ptr]]"
    type.text = "ptr[ptr[ptr]]" ∧ ∃ q, (typeExpr p.fuel).run p = .ok type q ∧
      q.kinds = [.endOfInput] ∧ type.Writable ∧ p.kinds = textKinds "ptr[ptr[ptr]]" ++ q.kinds := by
  intro type p
  have htext : type.text = "ptr[ptr[ptr]]" := by decide
  have hname : IsName "ptr" ∧ Builtin.ofName? "ptr" = none := by decide
  obtain ⟨q, hrun, hq⟩ := typeExpr_read_back.1 type hname
  rw [htext] at hrun
  let l := Lexer.ofInput (Input.ofString "ptr[ptr[ptr]]")
  have hplace : (Parser.ofLexer l).ReadsOn p := Parser.TokenFrame.advance _
  obtain ⟨used, hused⟩ := hplace.exists_kinds
  have hread := typeExpr_read_back.2 l p q p.fuel type ⟨used, hused.symm⟩ hrun
  rw [htext] at hread
  exact ⟨htext, q, hrun, hq, hread⟩

end Parse

end Offside
