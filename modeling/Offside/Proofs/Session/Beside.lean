import Offside.Proofs.Parser.Beside
import Offside.Proofs.Session.Kept
import Offside.Proofs.Typing.Relocated

/-!
# Sessions on texts with a common part

Two sessions stand side by side if they have declared the same and their texts go on alike. Then
they do the same at every step, only at other places, as long as the first one does not read on
beyond the common part and no alias is given another target.

## Main definitions

* `Offside.Session.Passage`: the common part of two texts and what was accepted before it.
* `Offside.Session.Beside`: sessions side by side.

## Main results

* `Offside.Session.Beside.step`: a step keeps them side by side and has the same outcome.
-/

namespace Offside

/-! ### Between items -/

/-- Sessions that write their prompts alike read up to the next item side by side. -/
theorem Parser.Comparison.skipToItem (w : Comparison) {options options' : SessionOptions}
    (prompts : ∀ p p', w.Like p p' →
      w.Like (Session.prompt options p) (Session.prompt options' p'))
    {p p' : Parser} (h : w.Like p p') :
    w.Like (Session.skipToItem options p) (Session.skipToItem options' p') ∨
      w.Beyond (Session.skipToItem options p) := by
  have hstops {p p' : Parser} (h : w.Like p p') {k : Kind}
      (hp : ¬ (p.current.kind = k ∧ p.rest ≠ [])) : ¬ (p'.current.kind = k ∧ p'.rest ≠ []) :=
    fun h' => hp ⟨w.kind h ▸ h'.1, fun hnil => h'.2 (w.ends h hnil)⟩
  fun_induction Session.skipToItem options p generalizing p' with
  | case1 p hline ih =>
    have hprompt := prompts p p' h
    have hbeyond (hb : w.Beyond (Session.prompt options p).advance) :=
      hb.mono (Session.readsOn_skipToItem options _)
    rcases w.goesOn hprompt (by simpa using hline.2) with hne | hb
    · rcases w.advance hprompt (by simp [hline.1, Kind.isInvalid]) with hnext | hb
      · rw [Session.rest_prompt] at hne
        rw [Session.skipToItem.eq_def options' p', if_pos ⟨(w.kind h).trans hline.1, hne⟩]
        exact ih hnext
      · exact .inr (hbeyond hb)
    · exact .inr (hbeyond hb)
  | case2 p hline hblock ih =>
    have hbeyond (hb : w.Beyond p.advance) := hb.mono (Session.readsOn_skipToItem options _)
    rcases w.goesOn h hblock.2 with hne | hb
    · rcases w.advance h (by simp [hblock.1, Kind.isInvalid]) with hnext | hb
      · rw [Session.skipToItem.eq_def options' p', if_neg (hstops h hline),
          if_pos ⟨(w.kind h).trans hblock.1, hne⟩]
        exact ih hnext
      · exact .inr (hbeyond hb)
    · exact .inr (hbeyond hb)
  | case3 p hline hblock =>
    rw [Session.skipToItem, if_neg (hstops h hline), if_neg (hstops h hblock)]
    exact .inl h

namespace Parser.Beside

variable {w : Passage} {p p' : Parser}

theorem prompt (h : Beside w p p') (options options' : SessionOptions) :
    Beside w (Session.prompt options p) (Session.prompt options' p') := by
  obtain ⟨journal, hp, hj⟩ := Session.exists_prompt options p
  obtain ⟨journal', hp', hj'⟩ := Session.exists_prompt options' p'
  rw [hp, hp']
  exact h.withTypes h.types hj hj'

theorem skipToItem (h : Beside w p p') (options options' : SessionOptions) :
    Beside w (Session.skipToItem options p) (Session.skipToItem options' p') ∨
      w.Beyond (Session.skipToItem options p) :=
  w.comparison.skipToItem (fun _ _ hq => Beside.prompt hq options options') h

end Parser.Beside

namespace Session

/-- The common part of the texts of two sessions, and the items that were accepted before it. -/
structure Passage extends Parser.Passage where
  items : List Item
  items' : List Item

/-- Sessions whose texts go on alike, and which have declared the same. -/
structure Beside (w : Passage) (s s' : Session) : Prop where
  parser : Parser.Beside w.toPassage s.parser s'.parser
  bounded : s.parser.Bounded
  bounded' : s'.parser.Bounded
  types : TypeEnv.Matches w.place w.declared s.types s'.types
  symbols : s.symbols.Twin s.types s'.types s'.symbols
  items : ∃ new, s.items.toList = w.items ++ new ∧
    s'.items.toList = w.items' ++ new.map (Item.relocate w.place)
  size : s'.items.size = s.items.size
  ongoing : s.Ongoing
  ongoing' : s'.Ongoing

variable {w : Passage} {s s' : Session} {q q' : Parser}

namespace Beside

/-- Both have read on. -/
theorem withParser (h : Beside w s s') (hq : Parser.Beside w.toPassage q q')
    (reads : s.parser.ReadsOn q) (reads' : s'.parser.ReadsOn q')
    (layouts : s.types.KeepsLayouts q.types) (layouts' : s'.types.KeepsLayouts q'.types) :
    Beside w { s with parser := q } { s' with parser := q' } := by
  obtain ⟨sound, keeps⟩ := layouts h.types.sound
  obtain ⟨sound', keeps'⟩ := layouts' h.types.sound'
  exact ⟨hq, reads.bounded h.bounded, reads'.bounded h.bounded', ⟨hq.types, sound, sound'⟩,
    h.symbols.mono keeps keeps', h.items, h.size, ⟨h.ongoing.interactive, h.ongoing.running⟩,
    ⟨h.ongoing'.interactive, h.ongoing'.running⟩⟩

/-- Both refuse an item. -/
theorem fail (h : Beside w s s') : s'.fail.1 = s.fail.1 ∧ Beside w s.fail.2 s'.fail.2 := by
  rw [h.ongoing.fail, h.ongoing'.fail]
  exact ⟨rfl, h⟩

/-- An item that has been read in both is accepted in both, or refused in both. -/
theorem check (h : Beside w s s') (mark : Arena.Mark) (item : Item) :
    (s'.check mark (item.relocate w.place)).1 = (s.check mark item).1 ∧
      Beside w (s.check mark item).2 (s'.check mark (item.relocate w.place)).2 := by
  have hchecks : ChecksAt w.place w.declared (.initial s.types s.symbols)
      (.initial s'.types s'.symbols) AnyResults (checkItem item) (checkItem (item.relocate w.place)) :=
    checksAlike_checkItem item _ _ ⟨⟨h.types, h.symbols, .nil, .none⟩, rfl⟩
  -- The parsers after the check, whatever its outcome.
  have hafter {c c' : CheckState} (types : TypeEnv.Matches w.place w.declared c.types c'.types) :
      Parser.Beside w.toPassage (afterCheck s.parser c) (afterCheck s'.parser c') :=
    h.parser.withTypes types.toRelocated (Journal.diagnostics_notes _ _)
      (Journal.diagnostics_notes _ _)
  have hbounded {t : Session} {p : Parser} (ht : t.parser.Bounded)
      (current : p.current = t.parser.current) (lexer : p.lexer = t.parser.lexer)
      (rest : p.rest = t.parser.rest) : p.Bounded :=
    (Parser.ReadsOn.here current lexer rest).bounded ht
  rw [ChecksAt, Couples] at hchecks
  rw [Session.check, Session.check, EStateM.run, EStateM.run]
  dsimp only
  split at hchecks
  · next c _ c' hc hc' =>
    obtain ⟨-, hgo⟩ := hchecks
    rw [hc, hc']
    refine ⟨?_, ?_⟩
    · show Step.item _ = Step.item _
      rw [Array.size_push, Array.size_push, h.size]
    · refine ⟨(hafter hgo.twin.types).note _ _, hbounded h.bounded rfl rfl rfl,
        hbounded h.bounded' rfl rfl rfl, hgo.twin.types, hgo.twin.symbols, ?_, ?_,
        ⟨h.ongoing.interactive, h.ongoing.running⟩, ⟨h.ongoing'.interactive, h.ongoing'.running⟩⟩
      · obtain ⟨new, hnew, hnew'⟩ := h.items
        refine ⟨new ++ [item], ?_, ?_⟩
        · show (s.items.push item).toList = _
          rw [Array.toList_push, hnew, List.append_assoc]
        · show (s'.items.push (item.relocate w.place)).toList = _
          rw [Array.toList_push, hnew', List.append_assoc, List.map_append]
          rfl
      · show (s'.items.push (item.relocate w.place)).size = (s.items.push item).size
        rw [Array.size_push, Array.size_push, h.size]
  · next d c d' c' hc hc' =>
    obtain ⟨rfl, hgo⟩ := hchecks
    rw [hc, hc']
    have hparser : Parser.Beside w.toPassage (((afterCheck s.parser c).emit d).rollback mark)
        (((afterCheck s'.parser c').emit (d.relocate w.place)).rollback mark) :=
      ((hafter hgo.twin.types).emit d).rollback
    have hrefused : Beside w { s with parser := ((afterCheck s.parser c).emit d).rollback mark }
        { s' with parser := ((afterCheck s'.parser c').emit (d.relocate w.place)).rollback mark } :=
      ⟨hparser, hbounded h.bounded rfl rfl rfl, hbounded h.bounded' rfl rfl rfl, hgo.twin.types,
        h.symbols.mono hgo.keeps hgo.keeps', h.items, h.size,
        ⟨h.ongoing.interactive, h.ongoing.running⟩, ⟨h.ongoing'.interactive, h.ongoing'.running⟩⟩
    exact hrefused.fail
  · exact hchecks.elim
  · exact hchecks.elim

theorem atItem (h : Beside w s s') :
    Parser.Beside w.toPassage s.atItem s'.atItem ∨ w.Beyond s.atItem :=
  h.parser.skipToItem s.options s'.options

/-- A step has the same outcome in both, and leaves them side by side. -/
theorem step (h : Beside w s s') (keeps : s.types.KeepsAliases s.step.2.types) :
    s'.step.1 = s.step.1 ∧ Beside w s.step.2 s'.step.2 ∨ w.Beyond s.step.2.parser := by
  rcases h.atItem with hitem | hbeyond
  · have htypes := types_atItem s
    have htypes' := types_atItem s'
    have hreads := readsOn_atItem s
    have hreads' := readsOn_atItem s'
    by_cases hend : s.atItem.current.kind = .endOfInput
    · rw [step_of_running h.ongoing.running, if_pos hend, step_of_running h.ongoing'.running,
        if_pos (hitem.kind.trans hend)]
      refine .inl ⟨rfl, h.withParser hitem hreads hreads' ?_ ?_⟩
      · exact htypes ▸ refl_of TypeEnv.KeepsLayouts s.types
      · exact htypes' ▸ refl_of TypeEnv.KeepsLayouts s'.types
    · have hend' : s'.atItem.current.kind ≠ .endOfInput := fun hend' =>
        hend (hitem.kind.symm.trans hend')
      rcases hitem.parseItem (hreads.bounded h.bounded) (hreads'.bounded h.bounded') with
        ⟨hfound, hq⟩ | hbeyond
      · have hread := trans_of Parser.ReadsOn hreads (Parser.TokenFrame.parseItem s.atItem)
        have hread' := trans_of Parser.ReadsOn hreads' (Parser.TokenFrame.parseItem s'.atItem)
        rw [step_of_running h.ongoing.running, if_neg hend] at keeps ⊢
        rw [step_of_running h.ongoing'.running, if_neg hend']
        have hmark := hitem.mark
        generalize hparse : s.atItem.parseItem = result at *
        generalize hparse' : s'.atItem.parseItem = result' at *
        obtain ⟨found, q⟩ := result
        obtain ⟨found', q'⟩ := result'
        obtain rfl : found' = found.map (Item.relocate w.place) := hfound
        -- The aliases of the second session are those of the first one.
        have keeps' (kept : s.types.KeepsAliases q.types) : s'.types.KeepsAliases q'.types :=
          kept.congr h.types.aliases hq.types.aliases
        cases found with
        | none =>
          have hsame := types_fail { s with parser := q }
          have kept : s.types.KeepsAliases q.types := keeps.congr rfl (by rw [hsame]; rfl)
          refine .inl (h.withParser hq hread hread' ?_ ?_).fail
          · exact htypes ▸ keepsLayouts_of_unread hparse (htypes.symm ▸ kept)
          · exact htypes' ▸ keepsLayouts_of_unread hparse' (htypes'.symm ▸ keeps' kept)
        | some item =>
          have hsame := sameDecls_check { s with parser := q } s.atItem.arena.mark item
          have kept : s.types.KeepsAliases q.types := keeps.congr rfl hsame.aliases.symm
          obtain ⟨hitem, -⟩ := Parser.parseItem_some hparse
          obtain ⟨hitem', -⟩ := Parser.parseItem_some hparse'
          dsimp only [Option.map_some]
          rw [hmark]
          refine .inl ((h.withParser hq hread hread' ?_ ?_).check _ item)
          · exact htypes ▸ keepsLayouts_of_read hitem (htypes.symm ▸ kept)
          · exact htypes' ▸ keepsLayouts_of_read hitem' (htypes'.symm ▸ keeps' kept)
      · exact .inr (hbeyond.mono (readsOn_step_of_parseItem h.ongoing.running hend))
  · exact .inr (hbeyond.mono (readsOn_step_of_atItem h.ongoing.running))

/-- So do several steps. -/
theorem after (h : Beside w s s') (n : Nat)
    (keeps : ∀ m < n, (s.after m).types.KeepsAliases (s.after (m + 1)).types) :
    Beside w (s.after n) (s'.after n) ∨ w.Beyond (s.after n).parser := by
  induction n with
  | zero => exact .inl h
  | succ n ih =>
    rw [after_succ, after_succ]
    rcases ih fun m hm => keeps m (Nat.lt_succ_of_lt hm) with hn | hbeyond
    · exact (hn.step (keeps n (Nat.lt_succ_self n))).imp_left And.right
    · exact .inr (hbeyond.mono (readsOn_step _))

end Beside

end Session

end Offside
