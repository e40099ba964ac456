import Offside.Proofs.Parser.Nested
import Offside.Proofs.Session.Finite
import Offside.Proofs.Session.Showing
import Offside.Proofs.Token.Unclosed

/-!
# Every block that is read has been closed

The tokens tell which blocks are open, and reading follows this account token by token. So the
lines of a block that a parser reads after an indent come to an end at the dedent that closes the
block of this very indent, whatever else is open, and no session ever misses the end of a block. An
item leaves the blocks as they were before its first token: none of its blocks is open or to be
closed.

## Main definitions

* `Offside.Parser.Within`: the blocks that are open before the token in hand.
* `Offside.Parse.ReadsLines`: the lines of a block, up to its end.

## Main results

* `Offside.Parser.nesting_within`: reading follows the account that the tokens give.
* `Offside.Session.blocks_of_standsAt`: no block is left open by reading.
-/

namespace Offside

open Source

namespace Parser

variable {l : Lexer} {p q : Parser} {i : Nat} {blocks : List OpenBlock}

theorem StandsAt.advance (h : p.StandsAt l i) (hrest : p.rest ≠ []) :
    p.advance.StandsAt l (i + 1) := by
  obtain ⟨x, rest, hcons⟩ := List.exists_cons_of_ne_nil hrest
  have hdrop := h.rest_eq.symm.trans hcons
  have htoken : l.lexemes[i]? = some x := by
    rw [← Nat.add_zero i, ← List.getElem?_drop, hdrop, List.getElem?_cons_zero]
  rw [Parser.advance, hcons]
  refine .on x i htoken ⟨rfl, rfl⟩ ?_
  rw [← List.tail_drop, hdrop, List.tail_cons]

/-- A parser that stands on a given token of a text. -/
def onToken (l : Lexer) (i : Nat) : Parser :=
  { ofLexer l with
    current := (l.ahead i).next.token, lexer := (l.ahead i).next.after,
    rest := l.lexemes.drop (i + 1) }

theorem standsAt_onToken (hi : i < l.lexemes.length) : (onToken l i).StandsAt l (i + 1) :=
  .on _ i (Lexer.getElem?_lexemes hi) ⟨rfl, rfl⟩ rfl

/-- The token in hand is one of those that can be requested. -/
theorem StandsAt.current_eq (h : p.StandsAt l (i + 1)) : p.current = (l.ahead i).next.token := by
  cases h with
  | on x _ token stands =>
    obtain ⟨hi, -⟩ := List.getElem?_eq_some_iff.1 token
    rw [Lexer.getElem?_lexemes hi] at token
    rw [stands.current, ← Option.some.inj token]

/-- These blocks are open before the token in hand. -/
def Within (l : Lexer) (blocks : List OpenBlock) (p : Parser) : Prop :=
  ∃ i, p.StandsAt l i ∧ l.unclosed (i - 1) = blocks

theorem within_of_standsAt (h : p.StandsAt l (i + 1)) : p.Within l (l.unclosed i) := ⟨i + 1, h, rfl⟩

/-- Outside of the line ends before the first token, a parser stands on a token. -/
theorem Within.exists_standsAt (h : p.Within l blocks) (hk : p.current.kind ≠ .endOfLine) :
    ∃ i, p.StandsAt l (i + 1) ∧ l.unclosed i = blocks := by
  obtain ⟨i, hi, hblocks⟩ := h
  cases i with
  | zero =>
    cases hi with
    | start current => exact absurd (congrArg Token.kind current) hk
  | succ i => exact ⟨i, hi, hblocks⟩

/-- After the token in hand, the blocks are as this token has left them. -/
theorem StandsAt.within_advance (h : p.StandsAt l (i + 1)) (hk : p.current.kind ≠ .endOfInput) :
    p.advance.Within l (OpenBlock.after i (l.ahead i).next (l.unclosed i)) :=
  ⟨i + 2, h.advance (h.bounded.rest_ne_nil hk), rfl⟩

/-- Reading follows the account that the tokens give of the open blocks. -/
theorem nesting_within (hs : l.stream.LineWise) (hl : l.Holds []) : Nesting (Within l) where
  plain {blocks p} h hk := by
    obtain ⟨i, hi, rfl⟩ := h
    have hmore : p.current.kind ≠ .endOfInput := fun hend => by rw [hend] at hk; cases hk
    refine ⟨i + 1, hi.advance (hi.bounded.rest_ne_nil hmore), ?_⟩
    cases i with
    | zero => rfl
    | succ i =>
      show OpenBlock.after i (l.ahead i).next (l.unclosed i) = l.unclosed i
      rw [hi.current_eq] at hk
      rw [OpenBlock.after]
      split <;> simp_all [Kind.keepsBlocks, Kind.isPlain]
  opens {blocks p} h hk := by
    obtain ⟨i, hi, rfl⟩ := h.exists_standsAt (by rw [hk]; exact Kind.noConfusion)
    have hopen := hi.within_advance (by rw [hk]; exact Kind.noConfusion)
    rw [OpenBlock.after, ← hi.current_eq, hk] at hopen
    exact ⟨_, hopen⟩
  closes {block blocks p} h hk := by
    obtain ⟨i, hi, hblocks⟩ := h.exists_standsAt (by rw [hk]; exact Kind.noConfusion)
    have hclosed := hi.within_advance (by rw [hk]; exact Kind.noConfusion)
    rwa [OpenBlock.after, ← hi.current_eq, hk, hblocks] at hclosed
  inside {block blocks p} h hk := by
    obtain ⟨i, hi, hblocks⟩ := h.exists_standsAt (by rw [hk]; exact Kind.noConfusion)
    rw [hi.current_eq] at hk
    cases hblocks.symm.trans (Lexer.unclosed_of_endOfInput hs hl hk)
  same {blocks p q} h current lexer rest := by
    obtain ⟨i, hi, hblocks⟩ := h
    refine ⟨i, ?_, hblocks⟩
    cases hi with
    | start hcurrent hlexer hrest =>
      exact .start (current.trans hcurrent) (lexer.trans hlexer) (rest.trans hrest)
    | on x i token stands hrest =>
      exact .on x i token ⟨current.trans stands.current, lexer.trans stands.lexer⟩
        (rest.trans hrest)

/-- Where no block is open there is no dedent. -/
theorem Within.kind_ne_dedent (hs : l.stream.LineWise)
    (hl : l.Holds []) (h : p.Within l []) : p.current.kind ≠ .dedent := by
  intro hk
  obtain ⟨i, hi, hnone⟩ := h.exists_standsAt (by rw [hk]; exact Kind.noConfusion)
  rw [hi.current_eq] at hk
  exact Lexer.unclosed_ne_nil_of_dedent hs hl hk hnone

/-! ### What is shown -/

/-- The later parser has missed no more ends of blocks. -/
def MissesNoMore (p q : Parser) : Prop :=
  ∀ entry ∈ q.journal.shown, entry.1.MissesBlockEnd → entry ∈ p.journal.shown

theorem missesNoMore_of_shown (shown : q.journal.shown = p.journal.shown) : MissesNoMore p q :=
  fun _ hentry _ => shown ▸ hentry

instance : TableFrame MissesNoMore where
  refl _ := fun _ hentry _ => hentry
  trans _ _ _ h k := fun entry hentry hmisses => h entry (k entry hentry hmisses) hmisses
  advance p := by
    rw [Parser.advance]
    split
    · exact missesNoMore_of_shown rfl
    · next x rest hrest =>
      rintro entry hentry ⟨block, found, hcause⟩
      rw [Journal.shown_lexeme] at hentry
      refine (List.mem_append.1 hentry).resolve_right fun hx => ?_
      have hstage := Lexeme.stage_of_shown? (Option.mem_toList.1 hx)
      rw [Diagnostic.stage, hcause] at hstage
      cases hstage
  note _ _ := missesNoMore_of_shown (Journal.shown_note _ _)
  addExpr _ _ _ := missesNoMore_of_shown rfl
  addStmt _ _ _ := missesNoMore_of_shown rfl
  setTypes _ _ := missesNoMore_of_shown rfl

theorem missesNoMore_emit {d : Diagnostic} (h : ¬ d.MissesBlockEnd) (p : Parser) :
    MissesNoMore p (p.emit d) := by
  intro entry hentry hmisses
  rw [Parser.emit, Journal.shown_emit] at hentry
  refine (List.mem_append.1 hentry).resolve_right fun hd => ?_
  rw [List.mem_singleton.1 hd] at hmisses
  exact h hmisses

theorem missesNoMore_parseItem (hitem : Parse.Attains p (Within l blocks) (Parse.item p.fuel)) :
    MissesNoMore p p.parseItem.2 := by
  have hkeeps := Parse.ensures_item (R := MissesNoMore) p.fuel p
  rw [Parser.parseItem]
  split
  · next hrun => exact (hkeeps.ok hrun).1
  · next failure q hrun =>
    have hspares := hitem.error hrun
    have hreport : MissesNoMore q ((q.report failure).rollback p.arena.mark) := by
      cases failure with
      | diagnostic d => exact missesNoMore_emit hspares q
      | shown | tooDeep => exact missesNoMore_of_shown rfl
    exact trans_of MissesNoMore (hkeeps.error hrun)
      (trans_of MissesNoMore hreport
        (trans_of MissesNoMore (Frame.skipUntil endsLine _) (Frame.note _ _)))

end Parser

/-! ### The lines of a block -/

/-- The lines of a block are read from `p` on, and are over at `q`. -/
inductive Parse.ReadsLines (fuel : Nat) (p q : Parser) : Block → Prop
  | statements (before stmts : List Stmt)
    (run : (blockStatements fuel before).run p = .ok stmts q) : ReadsLines fuel p q .statements
  | cases (before arms : List Arm) (run : (Parse.arms fuel before).run p = .ok arms q) :
    ReadsLines fuel p q .cases
  | fields (name : String) (before fields : List Binding)
    (run : (Parse.fields name fuel before).run p = .ok fields q) : ReadsLines fuel p q .fields

theorem Parse.ReadsLines.atBlockEnd {ι : Type} {P : List ι → Parser → Prop}
    (hP : Parser.Nesting P) {fuel : Nat} {p q : Parser} {block : Block}
    (h : Parse.ReadsLines fuel p q block) {blocks : List ι} (hp : P blocks p) :
    P blocks q ∧ q.atBlockEnd := by
  cases h with
  | statements before stmts run => exact (attains_blockStatements hP fuel hp before).ok run
  | cases before arms run => exact (attains_arms hP fuel hp before).ok run
  | fields name before fields run => exact (attains_fields hP fuel hp name before).ok run

/-- The lines of a block that can be read have an end. -/
theorem Parse.exists_readsLines_statements {fuel : Nat} {p : Parser}
    (h : ((Parse.blockStatements fuel []).run p matches .ok _ _) = true) :
    ∃ q, Parse.ReadsLines fuel p q .statements := by
  cases hrun : (Parse.blockStatements fuel []).run p with
  | ok stmts q => exact ⟨q, .statements [] stmts hrun⟩
  | error e q =>
    rw [hrun] at h
    cases h

/-- The lines after an indent are over at the dedent that closes its block. -/
theorem Parse.ReadsLines.exists_dedent {l : Lexer} (hP : Parser.Nesting (Parser.Within l))
    {p q : Parser} {i fuel : Nat} {block : Block} (hp : p.StandsAt l (i + 1))
    (hk : p.current.kind = .indent) (h : Parse.ReadsLines fuel p.advance q block) :
    ∃ j b, q.StandsAt l (j + 1) ∧ q.current.kind = .dedent ∧ b.position = i ∧
      l.unclosed j = b :: l.unclosed i ∧ l.unclosed (j + 1) = l.unclosed i := by
  have hopen := hp.within_advance (by rw [hk]; exact Kind.noConfusion)
  rw [OpenBlock.after, ← hp.current_eq, hk] at hopen
  obtain ⟨hq, hend⟩ := h.atBlockEnd hP hopen
  have hdedent := Parse.kind_of_atBlockEnd hP hq hend
  obtain ⟨j, hj, hblocks⟩ := hq.exists_standsAt (by rw [hdedent]; exact Kind.noConfusion)
  refine ⟨j, _, hj, hdedent, rfl, hblocks, ?_⟩
  rw [Lexer.unclosed, OpenBlock.after, ← hj.current_eq, hdedent, hblocks]
  rfl

namespace Session

variable {l : Lexer} {s : Session} {i : Nat}

/-- A step shows no missing end of a block. -/
theorem missesNoMore_step (hP : Parser.Nesting (Parser.Within l)) (h : s.parser.StandsAt l i) :
    Parser.MissesNoMore s.parser s.step.2.parser := by
  have hitem : Parser.MissesNoMore s.parser s.atItem := by
    refine frame_skipToItem s.options (fun p => ?_) s.parser
    rw [prompt]
    split
    · exact refl_of Parser.MissesNoMore p
    · exact Parser.missesNoMore_of_shown (Journal.shown_prompt _ _)
  obtain ⟨j, -, hj⟩ := h.exists_of_readsOn (readsOn_atItem s)
  have hread : Parser.MissesNoMore s.parser s.atItem.parseItem.2 :=
    trans_of Parser.MissesNoMore hitem
      (Parser.missesNoMore_parseItem (Parse.attains_item hP _ ⟨j, hj, rfl⟩))
  have hfail (t : Session) : Parser.MissesNoMore t.parser t.fail.2.parser := by
    rw [fail]
    split
    · exact Parser.Frame.note t.parser _
    · exact refl_of Parser.MissesNoMore t.parser
  have hcheck {q : Parser} (c : CheckState) : Parser.MissesNoMore q (afterCheck q c) :=
    Parser.missesNoMore_of_shown (Journal.shown_notes _ _)
  have hstepped := stepped_step s
  generalize s.step = outcome at *
  cases hstepped with
  | halted => exact refl_of Parser.MissesNoMore s.parser
  | ended => exact hitem
  | unread q _ _ read =>
    rw [read] at hread
    exact trans_of Parser.MissesNoMore hread (hfail { s with parser := q })
  | refused item q d c _ _ read checked =>
    rw [read] at hread
    have hsemantic := (Yields.error (blames_checkItem item.relocate_id _) checked).2
    have hemit : Parser.MissesNoMore (afterCheck q c)
        (((afterCheck q c).emit d).rollback s.atItem.arena.mark) := by
      refine Parser.missesNoMore_emit ?_ (afterCheck q c)
      rintro ⟨block, found, hcause⟩
      rw [Diagnostic.stage, hcause] at hsemantic
      cases hsemantic
    exact trans_of Parser.MissesNoMore hread (trans_of Parser.MissesNoMore (hcheck c)
      (trans_of Parser.MissesNoMore hemit
        (hfail { s with parser := ((afterCheck q c).emit d).rollback s.atItem.arena.mark })))
  | accepted item q c _ _ read =>
    rw [read] at hread
    exact trans_of Parser.MissesNoMore hread
      (trans_of Parser.MissesNoMore (hcheck c) (Parser.Frame.note _ _))

/-- An accepted item leaves the open blocks as they were before its first token. -/
theorem unclosed_of_accepted (hP : Parser.Nesting (Parser.Within l)) (h : s.parser.StandsAt l i)
    {k : Nat} (accepted : s.step.1 = .item k) :
    ∃ i j, i < j ∧ s.atItem.StandsAt l (i + 1) ∧ s.step.2.parser.StandsAt l (j + 1) ∧
      l.unclosed j = l.unclosed i := by
  have hbounded : s.atItem.Bounded := (readsOn_atItem s).bounded h.bounded
  obtain ⟨n, -, hn⟩ := h.exists_of_readsOn (readsOn_atItem s)
  obtain ⟨i, hi, -⟩ := Parser.Within.exists_standsAt ⟨n, hn, rfl⟩ (kind_atItem_ne h.bounded).1
  have hlater := length_step_lt_atItem h.bounded (by rw [accepted]; exact Step.noConfusion)
  have hwithin : s.step.2.parser.Within l (l.unclosed i) := by
    have hstepped := stepped_step s
    generalize s.step = outcome at *
    cases hstepped with
    | halted | ended => cases accepted
    | unread | refused => exact absurd (accepted.symm.trans (outcome_fail _)) Step.noConfusion
    | accepted item q c _ _ read =>
      have hitem := Parse.attains_item hP s.atItem.fuel (Parser.within_of_standsAt hi)
      exact hP.same (hitem.ok (Parser.run_of_read read)) rfl rfl rfl
  obtain ⟨m, hm, hblocks⟩ := hwithin
  have hlength := hi.length_rest
  have hlength' := hm.length_rest
  obtain ⟨j, rfl⟩ : ∃ j, m = j + 1 := ⟨m - 1, by omega⟩
  exact ⟨i, j, by omega, hi, hm, hblocks⟩

/-- The lexer keeps account of the blocks that are open after each token. When a parser has read an
indent and then the lines of its block, whatever the block holds, it stands on a dedent, and this is
the one that closes the block of this indent. So reading an item never fails for a missing end of a
block, and no step of a session, in either mode, shows such an error. When a step accepts an item,
the lexer counts none of the blocks that the tokens of the item have opened, neither as open nor as
still to be closed. -/
theorem blocks_of_standsAt (input : Input) :
    let l := Lexer.ofInput input
    (∀ n, (l.ahead n).Holds (l.unclosed n)) ∧
    (∀ (p : Parser) (i : Nat), p.StandsAt l (i + 1) → p.current.kind = .indent →
      ∀ fuel block q, Parse.ReadsLines fuel p.advance q block →
        ∃ j b, q.StandsAt l (j + 1) ∧ q.current.kind = .dedent ∧ b.position = i ∧
          l.unclosed j = b :: l.unclosed i ∧ l.unclosed (j + 1) = l.unclosed i) ∧
    (∀ (p : Parser) (i : Nat), p.StandsAt l i → ∀ fuel e q, (Parse.item fuel).run p = .error e q →
      ¬ e.MissesBlockEnd) ∧
    ∀ s : Session, s.parser.StandsAt l 0 → ∀ n,
      (∀ entry ∈ (s.after (n + 1)).journal.shown, entry.1.MissesBlockEnd →
        entry ∈ s.journal.shown) ∧
      ∀ k, (s.after n).step.1 = .item k → ∃ i j, i < j ∧
        (s.after n).atItem.StandsAt l (i + 1) ∧ (s.after (n + 1)).parser.StandsAt l (j + 1) ∧
        l.unclosed j = l.unclosed i ∧
        ∀ b ∈ l.unclosed (j + 1), ¬ (i ≤ b.position ∧ b.position < j) := by
  intro l
  have hs : l.stream.LineWise := Stream.lineWise_ofInput input
  have hl : l.Holds [] := Lexer.holds_ofInput input
  have hP := Parser.nesting_within hs hl
  refine ⟨Lexer.holds_ahead hs hl, fun p i hp hk fuel block q hread => hread.exists_dedent hP hp hk,
    fun p i hp fuel e q hrun => ?_, fun s hstart n => ⟨?_, fun k haccepted => ?_⟩⟩
  · exact (Parse.attains_item hP fuel ⟨i, hp, rfl⟩).error hrun
  · have hafter : Parser.MissesNoMore s.parser (s.after (n + 1)).parser := by
      induction n + 1 with
      | zero => exact refl_of Parser.MissesNoMore s.parser
      | succ n ih =>
        obtain ⟨i, hi⟩ := exists_standsAt_after hstart n
        rw [after_succ]
        exact trans_of Parser.MissesNoMore ih (missesNoMore_step hP hi)
    exact hafter
  · obtain ⟨m, hm⟩ := exists_standsAt_after hstart n
    obtain ⟨i, j, hlt, hi, hj, hblocks⟩ := unclosed_of_accepted hP hm haccepted
    refine ⟨i, j, hlt, hi, hj, hblocks, fun b hb hinside => ?_⟩
    rcases Lexer.mem_unclosed_succ hb with hposition | hb
    · exact absurd hposition (Nat.ne_of_lt hinside.2)
    · rw [hblocks] at hb
      exact absurd (Lexer.position_lt_of_mem_unclosed hb) (Nat.not_lt.2 hinside.1)

/-- The dedent after the lines of an outer block, which another block ends. -/
theorem blocks_of_standsAt_nested :
    let input : Input := .ofString "if 1 < 2:\n  while 1 < 2:\n    break\nprint(3)\n"
    let l := Lexer.ofInput input
    let s := ofInput input ⟨.interactive, defaultPrompt⟩
    let p := Parser.onToken l 6
    p.StandsAt l (6 + 1) ∧ p.current.kind = .indent ∧
      (∃ q, Parse.ReadsLines 20 p.advance q .statements ∧
        ∃ j b, q.StandsAt l (j + 1) ∧ b.position = 6 ∧ l.unclosed j = [b]) ∧
      (s.after 0).step.1 = .item 0 ∧
      ∃ i j, i < j ∧ (s.after (0 + 1)).parser.StandsAt l (j + 1) ∧ l.unclosed j = l.unclosed i := by
  intro input l s p
  obtain ⟨-, hread, -, hsession⟩ := blocks_of_standsAt input
  have hp : p.StandsAt l (6 + 1) := Parser.standsAt_onToken (by decide +kernel)
  have hk : p.current.kind = .indent := by decide +kernel
  have hlines : ∃ q, Parse.ReadsLines 20 p.advance q .statements :=
    Parse.exists_readsLines_statements (by decide +kernel)
  have haccepted : (s.after 0).step.1 = .item 0 := by decide +kernel
  have hstart := standsAt_ofLexer l ⟨.interactive, defaultPrompt⟩
  obtain ⟨q, hq⟩ := hlines
  obtain ⟨j, b, hj, -, hposition, hblocks, -⟩ := hread p 6 hp hk 20 .statements q hq
  have hbefore : l.unclosed 6 = [] := by decide +kernel
  obtain ⟨i, k, hlt, -, hk', hsame, -⟩ := (hsession s hstart 0).2 0 haccepted
  exact ⟨hp, hk, ⟨q, hq, j, b, hj, hposition, by rw [hblocks, hbefore]⟩, haccepted, i, k, hlt, hk',
    hsame⟩

end Session

end Offside
