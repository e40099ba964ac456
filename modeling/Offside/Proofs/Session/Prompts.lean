import Offside.Proofs.Session.Finite
import Offside.Proofs.Session.Modes
import Offside.Proofs.Token.LineEnds

/-!
# Prompts and lines

A prompt is written when a line end is passed on the way to an item, and nowhere else. The lexer
passes a line without content together with the margin of the next line, and no token tells of it;
so there is one prompt for each line with content, and one before the end of the input.

## Main definitions

* `Offside.Parser.SamePrompts`: reading that writes no prompt.
* `Offside.Session.TakesLine`: a step that reads one line.

## Main results

* `Offside.Session.prompts_skipToItem`: one prompt for each line end before an item.
* `Offside.Session.count_of_takesLine`: an item on one line passes no line end.
* `Offside.Session.prompts_of_singleLines`: the prompts of a session on items that take one line each.
-/

namespace Offside

open Source Token

namespace Parser

/-- Reading that writes no prompt. -/
def SamePrompts (p q : Parser) : Prop := q.journal.prompts = p.journal.prompts

instance : TableFrame SamePrompts where
  refl _ := rfl
  trans _ _ _ h k := k.trans h
  advance p := by
    rw [SamePrompts, advance]
    split
    · rfl
    · exact Journal.prompts_lexeme _ _
  note _ _ := Journal.prompts_note _ _
  addExpr _ _ _ := rfl
  addStmt _ _ _ := rfl
  setTypes _ _ := rfl

end Parser

namespace Session

variable {s : Session} {options : SessionOptions} {l : Lexer} {text : List Char} {i : ℕ}

/-! ### Line ends between items -/

/-- One prompt is written for each line end that is passed on the way to an item. -/
theorem prompts_skipToItem (interactive : options.mode = .interactive) {p : Parser}
    (bounded : p.Bounded) :
    ∃ n, (skipToItem options p).journal.prompts =
        p.journal.prompts ++ List.replicate n options.prompt ∧
      p.kinds.count .endOfLine = n + (skipToItem options p).kinds.count .endOfLine := by
  fun_induction skipToItem options p with
  | case1 p h ih =>
    have hmore : p.current.kind ≠ .endOfInput := by
      rw [h.1]
      exact Kind.noConfusion
    have hkinds : (prompt options p).kinds = p.kinds := by
      rw [Parser.kinds, current_prompt, rest_prompt, Parser.kinds]
    have hbounded : (prompt options p).Bounded := by rwa [Parser.Bounded, hkinds]
    obtain ⟨hnext, hbounded'⟩ := hbounded.advance (by rwa [current_prompt])
    have hprompts : (prompt options p).advance.journal.prompts =
        p.journal.prompts ++ [options.prompt] := by
      have hadvance : (prompt options p).SamePrompts (prompt options p).advance :=
        Parser.Frame.advance _
      rw [hadvance, prompt, interactive]
      exact Journal.prompts_prompt _ _
    obtain ⟨n, hwritten, hcount⟩ := ih hbounded'
    refine ⟨n + 1, ?_, ?_⟩
    · rw [hwritten, hprompts, List.append_assoc, List.replicate_succ]
      rfl
    · rw [← hkinds, hnext, current_prompt, h.1, List.count_cons_self, hcount]
      omega
  | case2 p h₁ h₂ ih =>
    obtain ⟨hnext, hbounded⟩ := bounded.advance (by rw [h₂.1]; exact Kind.noConfusion)
    have hprompts : p.SamePrompts p.advance := Parser.Frame.advance p
    obtain ⟨n, hwritten, hcount⟩ := ih hbounded
    refine ⟨n, by rw [hwritten, hprompts], ?_⟩
    rw [hnext, h₂.1, List.count_cons_of_ne Kind.noConfusion, hcount]
  | case3 p h₁ h₂ => exact ⟨0, by simp, (Nat.zero_add _).symm⟩

/-- Nothing else in a step writes a prompt. -/
theorem prompts_step (running : s.halted = false) :
    s.step.2.journal.prompts = s.atItem.journal.prompts := by
  have hfail (t : Session) : t.fail.2.journal.prompts = t.journal.prompts := by
    rw [fail]
    split
    · exact Journal.prompts_note _ _
    · rfl
  have hread : s.atItem.SamePrompts s.atItem.parseItem.2 :=
    Parser.TableFrame.parseItem (fun _ _ => Journal.prompts_emit _ _ _) (fun _ _ => rfl) s.atItem
  have hstepped := stepped_step s
  generalize s.step = outcome at *
  cases hstepped with
  | halted halted => exact absurd halted (by simp [running])
  | ended => rfl
  | unread q _ _ read =>
    rw [read] at hread
    exact (hfail _).trans hread
  | refused item q d c _ _ read =>
    rw [read] at hread
    refine (hfail _).trans ?_
    refine Eq.trans (Journal.prompts_emit _ _ _) ?_
    exact (Journal.prompts_notes _ _).trans hread
  | accepted item q c _ _ read =>
    rw [read] at hread
    refine Eq.trans (Journal.prompts_note _ _) ?_
    exact (Journal.prompts_notes _ _).trans hread

/-! ### Items on one line -/

/-- The step ends on the end of the line on which its item begins. -/
def TakesLine (s : Session) : Prop :=
  s.step.2.parser.current = ⟨.endOfLine, ⟨s.atItem.current.location.line + 1, 1⟩⟩

instance (s : Session) : Decidable s.TakesLine := inferInstanceAs (Decidable (_ = _))

/-- Such a step passes no line end after the first token of its item. -/
theorem count_of_takesLine (hl : l.Of text) (stands : s.parser.StandsAt l i)
    (running : s.halted = false) (takes : s.TakesLine) :
    s.step.2.parser.kinds.count .endOfLine = s.atItem.kinds.count .endOfLine := by
  obtain ⟨hline, -⟩ := kind_atItem_ne stands.bounded
  obtain ⟨j, -, hitem⟩ := stands.exists_of_readsOn (readsOn_atItem s)
  have hkind : s.step.2.parser.current.kind = .endOfLine := by rw [takes]
  cases readsOn_step_of_atItem running with
  | here current => exact absurd (current ▸ hkind) hline
  | on before x current _ rest =>
    rw [current] at hkind
    cases hitem with
    | start current' => exact absurd (by rw [current']; rfl) hline
    | on y k token stands' rest' =>
      obtain ⟨hk, rfl⟩ := List.getElem?_eq_some_iff.1 token
      have hcut : l.lexemes = l.lexemes.take k ++ l.lexemes[k] :: s.atItem.rest := by
        rw [rest', List.getElem_cons_drop, List.take_append_drop]
      have hcurrent : s.atItem.current = l.lexemes[k].token := stands'.current
      generalize l.lexemes[k] = y at *
      obtain ⟨hstands, hof⟩ := Lexer.stands_of_mem hl (show y ∈ l.lexemes by rw [hcut]; simp)
      have hmore : y.token.kind ≠ .endOfInput := fun hend => by
        have hnil := Lexer.nil_of_endOfInput hcut hend
        rw [rest] at hnil
        simp at hnil
      have hrest := Lexer.lexemes_after_append hcut hmore
      rw [hrest] at rest
      have hnone := Lexer.ne_lineEnd_of_before hof rest hkind (by
        rw [← hstands.line (by rwa [← hcurrent]), ← current, takes, hcurrent])
      have hbefore : (before.map (·.token.kind)).count .endOfLine = 0 := by
        rw [List.count_eq_zero]
        intro hmem
        obtain ⟨z, hz, hends⟩ := List.mem_map.1 hmem
        exact hnone z hz hends
      rw [Parser.kinds, Parser.kinds, hrest, rest, current, hkind, List.map_append, List.map_cons,
        hkind, List.count_cons_of_ne hline, List.count_append, hbefore, Nat.zero_add]

/-- As long as each step takes one line, one prompt is written for each line end that is passed. -/
theorem prompts_after (ongoing : s.Ongoing) (hl : l.Of text) (stands : s.parser.StandsAt l i)
    (silent : s.journal.prompts = []) {m : ℕ} (takes : ∀ n < m, (s.after n).TakesLine) :
    ∃ n, (s.after m).journal.prompts = List.replicate n s.options.prompt ∧
      s.parser.kinds.count .endOfLine = n + (s.after m).parser.kinds.count .endOfLine := by
  induction m with
  | zero => exact ⟨0, silent, (Nat.zero_add _).symm⟩
  | succ m ih =>
    obtain ⟨n, hwritten, hcount⟩ := ih fun n hn => takes n (Nat.lt_succ_of_lt hn)
    obtain ⟨j, hj⟩ := exists_standsAt_after stands m
    have hrunning := (ongoing.after m).running
    obtain ⟨k, hskip, hskipped⟩ := prompts_skipToItem (ongoing.after m).interactive hj.bounded
    refine ⟨n + k, ?_, ?_⟩
    · rw [after_succ, prompts_step hrunning, atItem, hskip, ← List.replicate_append_replicate,
        options_after]
      exact congrArg (· ++ _) hwritten
    · rw [after_succ, count_of_takesLine hl hj hrunning (takes m (Nat.lt_succ_self m)), hcount,
        hskipped, atItem]
      omega

/-- The last step passes the line ends that are left. -/
theorem prompts_of_finished (ongoing : s.Ongoing) (bounded : s.parser.Bounded)
    (finished : s.step.1 = .finished) :
    s.step.2.journal.prompts =
      s.journal.prompts ++ List.replicate (s.parser.kinds.count .endOfLine) s.options.prompt := by
  obtain ⟨n, hskip, hskipped⟩ := prompts_skipToItem ongoing.interactive bounded
  have hkind := (finished_iff.1 finished).resolve_left (by simp [ongoing.running])
  have hkinds : s.atItem.kinds = [.endOfInput] :=
    ((readsOn_atItem s).bounded bounded).kinds_of_end hkind
  have hnone : s.atItem.kinds.count .endOfLine = 0 := by
    rw [hkinds]
    rfl
  rw [← atItem, hnone, Nat.add_zero] at hskipped
  rw [prompts_step ongoing.running, hskipped]
  exact hskip

/-! ### Lines with content -/

private theorem count_lineEnds (xs : List Lexeme) : (xs.map (·.token.kind)).count .endOfLine =
    ((xs.map Lexeme.token).filter (·.kind = .endOfLine)).length := by
  rw [List.count, List.countP_map, List.filter_map, List.length_map, ← List.countP_eq_length_filter]
  refine List.countP_congr fun x _ => ?_
  simp

section

variable {input : Input} {lines : List (List Char)} (whole : ∀ line ∈ lines, '\n' ∉ line)
  (written : normalise input.text = ofLines lines)
include whole written

open ContentLine (HasContent ofText lineEnd)

/-- On a line end, the lines with content are those up to it and those after it. -/
theorem count_of_standsAt {p : Parser} (stands : p.StandsAt (.ofInput input) i)
    (ends : p.current.kind = .endOfLine) :
    (lines.take (p.current.location.line - 1)).countP HasContent + p.kinds.count .endOfLine =
      lines.countP HasContent + 1 := by
  have hends := Lexer.lineEnds_ofInput written
  have hlength := ContentLine.length_ofText (n := 1) whole
  rw [Lexer.tokens] at hends
  rw [Parser.kinds, ends, List.count_cons_self, count_lineEnds]
  cases stands with
  | start current _ rest =>
    rw [current, rest, hends, List.length_map, hlength]
    simp [Parser.beforeFirst]
  | on x k token stands rest =>
    obtain ⟨hk, rfl⟩ := List.getElem?_eq_some_iff.1 token
    have hcut : (Lexer.ofInput input).lexemes =
        (Lexer.ofInput input).lexemes.take k ++ (Lexer.ofInput input).lexemes[k] :: p.rest := by
      rw [rest, List.getElem_cons_drop, List.take_append_drop]
    rw [stands.current] at ends ⊢
    generalize (Lexer.ofInput input).lexemes[k] = x at *
    rw [hcut, List.map_append, List.map_cons, List.filter_append,
      List.filter_cons_of_pos (by simpa using ends)] at hends
    obtain ⟨read, unread, hread, -, hunread⟩ := List.append_eq_map_iff.1 hends
    obtain ⟨line, later, rfl, hline, hlater⟩ := List.map_eq_cons_iff.1 hunread
    have hordered := ContentLine.pairwise_ofText (n := 1) whole
    rw [hread, List.pairwise_append, List.pairwise_cons] at hordered
    obtain ⟨-, ⟨hafter, -⟩, hbefore⟩ := hordered
    have hcount := ContentLine.countP_ofText (n := 1) whole line.number
    rw [hread, List.length_append, List.length_cons] at hlength
    rw [hread, List.countP_append, List.countP_cons_of_pos (by simp),
      List.countP_eq_length.2 fun other hother => ?_, List.countP_eq_zero.2 fun other hother => ?_]
      at hcount
    · rw [← hline, ← hlater, List.length_map, lineEnd]
      dsimp only
      rw [Nat.add_sub_cancel, ← hcount]
      omega
    · have := hafter other hother
      simp only [decide_eq_true_eq]
      omega
    · have := hbefore other hother line List.mem_cons_self
      simp only [decide_eq_true_eq]
      omega

/-- In an interactive session on complete lines, each item of which stays on its line, as many prompts
have been written between two steps as lines with content have been read, and in the end one more.
A line without content is passed without a prompt; so there is one prompt for each line and one
before the end of the input exactly if there is no such line. -/
theorem prompts_of_singleLines (interactive : options.mode = .interactive)
    (single : ∀ m, ((ofInput input options).after m).step.1 ≠ .finished →
      ((ofInput input options).after m).TakesLine) :
    let s := ofInput input options
    ∃ k, (∀ m < k, (s.after m).step.1 ≠ .finished) ∧ (s.after k).step.1 = .finished ∧
      (∀ m ≤ k, (s.after m).journal.prompts = List.replicate
        ((lines.take ((s.after m).parser.current.location.line - 1)).countP HasContent)
        options.prompt) ∧
      (s.after (k + 1)).journal.prompts =
        List.replicate (lines.countP HasContent + 1) options.prompt ∧
      ((s.after (k + 1)).journal.prompts.length = lines.length + 1 ↔
        ∀ line ∈ lines, HasContent line) := by
  intro s
  have ongoing : s.Ongoing := ⟨interactive, rfl⟩
  have stands : s.parser.StandsAt (.ofInput input) 0 := standsAt_ofLexer _ _
  have hof := Lexer.of_ofInput input
  have htotal : s.parser.kinds.count .endOfLine = lines.countP HasContent + 1 := by
    have := count_of_standsAt whole written stands rfl
    rwa [show s.parser.current.location.line - 1 = 0 from rfl, List.take_zero, List.countP_nil,
      Nat.zero_add] at this
  obtain ⟨k, hbefore, hend, -⟩ := exists_trace stands.bounded
  have hprompts (m : ℕ) (hm : m ≤ k) :=
    prompts_after (m := m) ongoing hof stands rfl fun n hn => single n (hbefore n (by omega))
  have hfinal : (s.after (k + 1)).journal.prompts =
      List.replicate (lines.countP HasContent + 1) options.prompt := by
    obtain ⟨n, hwritten, hcount⟩ := hprompts k (Nat.le_refl k)
    rw [after_succ, prompts_of_finished (ongoing.after k) (bounded_after stands.bounded k) hend,
      hwritten, options_after, List.replicate_append_replicate, ← hcount, htotal]
    rfl
  refine ⟨k, hbefore, hend, fun m hm => ?_, hfinal, ?_⟩
  · obtain ⟨n, hwritten, hcount⟩ := hprompts m hm
    have hkind : (s.after m).parser.current.kind = .endOfLine := by
      cases m with
      | zero => rfl
      | succ m =>
        have htakes := single m (hbefore m hm)
        rw [after_succ, htakes]
    obtain ⟨j, hj⟩ := exists_standsAt_after stands m
    have hread := count_of_standsAt whole written hj hkind
    have hn : n = (lines.take ((s.after m).parser.current.location.line - 1)).countP HasContent := by
      omega
    rw [hwritten, hn]
    rfl
  · rw [hfinal, List.length_replicate, Nat.add_right_cancel_iff, List.countP_eq_length]

end

/-- Two items with a blank line in between. -/
def blankBetween : Session := ofInput (.ofString "1\n\n2\n") ⟨.interactive, defaultPrompt⟩

/-- Each of the two items takes one line of the three, and three prompts are written. -/
theorem prompts_blankBetween :
    let s := blankBetween
    (∀ m < 2, (s.after m).step.1 ≠ .finished ∧ (s.after m).TakesLine) ∧
      (s.after 2).step.1 = .finished ∧
      "1\n\n2\n".toList = ofLines (["1", "", "2"].map String.toList) ∧
      (s.after 3).journal.prompts.length ≠ ["1", "", "2"].length + 1 := by
  decide +kernel

/-- Lines with and without content, two of which hold an item that is refused and one of which is
indented. -/
def sparseLines : List (List Char) :=
  ["1", "", "  # note", "x = ", "  y", "\t", "2 +", "3"].map String.toList

theorem prompts_of_singleLines_sparseLines :
    let s := ofInput ⟨ofLines sparseLines, false⟩ ⟨.interactive, defaultPrompt⟩
    (∀ m, (s.after m).step.1 ≠ .finished → (s.after m).TakesLine) ∧
      ∃ k, (s.after k).step.1 = .finished ∧
        (s.after (k + 1)).journal.prompts = List.replicate 6 defaultPrompt := by
  intro s
  have hend : (s.after 5).step.1 = .finished := by decide +kernel
  have hsingle (m : ℕ) (hm : (s.after m).step.1 ≠ .finished) : (s.after m).TakesLine := by
    have hfew : m < 5 := by
      by_contra hle
      refine hm ?_
      rw [show m = 5 + (m - 5) by omega]
      exact finished_after hend _
    have hall : ∀ m < 5, (s.after m).TakesLine := by decide +kernel
    exact hall m hfew
  have hwhole : ∀ line ∈ sparseLines, '\n' ∉ line := by decide
  have hcontent : sparseLines.countP ContentLine.HasContent = 5 := by decide
  obtain ⟨k, -, hk, -, hprompts, -⟩ :=
    prompts_of_singleLines hwhole (by decide +kernel) rfl hsingle
  rw [hcontent] at hprompts
  exact ⟨hsingle, k, hk, hprompts⟩

end Session

end Offside
