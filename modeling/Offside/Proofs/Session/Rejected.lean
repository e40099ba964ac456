import Offside.Proofs.Lowering.Relocated
import Offside.Proofs.Session.Beside
import Offside.Proofs.Token.SingleLine

/-!
# A rejected line leaves no trace

A session that stands on the end of a line, with no block open, goes on as its text does: what came
before shows only in what has been declared and in the numbers of the lines. So two sessions that
have declared the same, and that are about to read the same text, do the same from there on.

In interactive mode a line that is refused on its own may as well not have been typed. What comes
before it is read alike with and without it; the refused line closes no block and leaves nothing but
layouts behind; and what comes after it is read alike, one line further down.

## Main definitions

* `Offside.Session.BetweenLines`: a session on the end of a line with no block open.
* `Offside.Session.nextLine`: the session on the first token after it.
* `Offside.Session.AddsAlike`: two sessions have added the same, at other places.

## Main results

* `Offside.Session.BetweenLines.step_after`: every step is one from there.
* `Offside.Session.BetweenLines.beside`: sessions that are about to read the same text.
* `Offside.Session.after_commonLines`: two texts that begin with the same lines.
* `Offside.Session.BetweenLines.rejected`: what a refused line leaves behind.
* `Offside.Session.BetweenLines.addsAlike`: two texts that go on with the same lines.
* `Offside.Session.addsAlike_of_rejected`: a text with a refused line, and without it.
-/

namespace Offside

open Source Token

/-! ### Between two lines -/

namespace Lexer

variable {l l' : Lexer} {rest rest' common : List Char} {q : Parser}

/-- A parser of a text, on the end of a line. -/
theorem lexemes_of_readsOn (reads : (Parser.ofLexer l).ReadsOn q)
    (hk : q.current.kind = .endOfLine) : q.rest = q.lexer.lexemes := by
  cases reads with
  | here _ lexer rest => rw [lexer, rest]; rfl
  | on before x current lexer rest =>
    rw [lexer]
    exact lexemes_after_append rest (by rw [← current, hk]; exact Kind.noConfusion)

/-- If no block is open there, it is at the start of the next line. -/
theorem fresh_of_readsOn (fresh : l.Fresh) (reads : (Parser.ofLexer l).ReadsOn q)
    (hk : q.current.kind = .endOfLine) (hblocks : q.lexer.blocks = []) : q.lexer.Fresh := by
  cases reads with
  | here _ lexer => rwa [lexer]
  | on before x current lexer rest =>
    rw [lexer] at hblocks ⊢
    refine fresh_of_endOfLine fresh.lineWise fresh.counted (x := x) ?_ (current ▸ hk) hblocks
    rw [show l.lexemes = _ from rest]
    simp

end Lexer

namespace Session

variable {s s' : Session} {rest : List Char}

/-- The session stands on the end of a line, and `rest` is left of its text. -/
structure AtLineEnd (s : Session) (rest : List Char) : Prop where
  kind : s.parser.current.kind = .endOfLine
  unread : s.parser.lexer.stream.remaining = rest

/-- The session stands on the end of a line, with no block open, and is about to read `rest`. -/
structure BetweenLines (s : Session) (rest : List Char) : Prop extends s.AtLineEnd rest where
  fresh : s.parser.lexer.Fresh
  tokens : s.parser.rest = s.parser.lexer.lexemes

/-- The session on the token after the end of a line. -/
def nextLine (s : Session) : Session := { s with parser := (prompt s.options s.parser).advance }

theorem types_nextLine (s : Session) : s.nextLine.types = s.types := by
  obtain ⟨journal, hprompt, -⟩ := exists_prompt s.options s.parser
  rw [nextLine, hprompt]
  exact Parser.types_advance _

theorem BetweenLines.rest_ne_nil (h : s.BetweenLines rest) : s.parser.rest ≠ [] := by
  rw [h.tokens]
  exact s.parser.lexer.lexemes_ne_nil

theorem BetweenLines.step_nextLine (h : s.BetweenLines rest) (running : s.halted = false) :
    s.step = s.nextLine.step := by
  have hitem : s.atItem = s.nextLine.atItem := by
    rw [atItem, skipToItem, if_pos ⟨h.kind, h.rest_ne_nil⟩]
    rfl
  have running' : s.nextLine.halted = false := running
  rw [step_of_running running, step_of_running running', hitem]
  rfl

/-- Every step is one from the token after the end of the line. -/
theorem BetweenLines.step_after (h : s.BetweenLines rest) (running : s.halted = false) (n : Nat) :
    (s.after n).step = (s.nextLine.after n).step := by
  induction n with
  | zero => exact h.step_nextLine running
  | succ n ih => rw [after_succ, after_succ, ih]

theorem BetweenLines.types_after (h : s.BetweenLines rest) (running : s.halted = false) (n : Nat) :
    (s.nextLine.after n).types = (s.after n).types := by
  cases n with
  | zero => exact types_nextLine s
  | succ n => rw [after_succ, after_succ, h.step_after running]

/-- Two sessions that have declared the same, up to now at the same places, and go on after errors. -/
structure DeclaresAlike (place : Location → Location) (s s' : Session) : Prop where
  mark : s'.parser.arena.mark = s.parser.arena.mark
  types : TypeEnv.Matches place s.types.structDecls s.types s'.types
  symbols : s.symbols.Twin s.types s'.types s'.symbols
  size : s'.items.size = s.items.size
  bounded : s.parser.Bounded
  bounded' : s'.parser.Bounded
  ongoing : s.Ongoing
  ongoing' : s'.Ongoing

/-- It makes no difference whether the second one goes on laying out structs. -/
theorem DeclaresAlike.onlyLaidOut {place : Location → Location} {t : Session}
    (h : DeclaresAlike place s s') (added : s'.OnlyLaidOut t) (ongoing : t.Ongoing)
    (bounded : t.parser.Bounded) : DeclaresAlike place s t := by
  obtain ⟨sound, keeps⟩ := added.layouts h.types.sound'
  refine ⟨by rw [added.arena, h.mark], ⟨?_, h.types.sound, sound⟩, ?_,
    by rw [added.items, h.size], h.bounded, bounded, h.ongoing, ongoing⟩
  · exact h.types.toRelocated.congr (refl_of TypeEnv.SameDecls _) added.same
  · rw [added.symbols]
    exact h.symbols.mono (refl_of TypeEnv.KeepsNumbers _) keeps

/-- All that is left of two texts, from the sessions `s` and `s'` on. -/
def remainder (place : Location → Location) (s s' : Session) : Passage where
  place := place
  tail := []
  tail' := []
  declared := s.types.structDecls
  shown := s.journal.diagnostics
  shown' := s'.journal.diagnostics
  ends _ := rfl
  items := s.items.toList
  items' := s'.items.toList

/-- Sessions that have declared the same and are about to read the same text stand side by side. -/
theorem BetweenLines.beside {d : Nat} (h : s.BetweenLines rest) (h' : s'.BetweenLines rest)
    (hplace : s'.parser.lexer.stream.location = s.parser.lexer.stream.location.down d)
    (same : DeclaresAlike (Location.down d) s s') :
    Beside (remainder (Location.down d) s s') s.nextLine s'.nextLine := by
  have habreast : s.parser.lexer.Abreast d [] [] rest s'.parser.lexer :=
    h.fresh.abreast h'.fresh (by rw [h.unread, List.append_nil])
      (by rw [h'.unread, List.append_nil]) hplace
  have htokens := habreast.lexemes
  rw [← h.tokens, ← h'.tokens] at htokens
  have hreads (t : Session) : t.parser.ReadsOn t.nextLine.parser := by
    obtain ⟨journal, hprompt, -⟩ := exists_prompt t.options t.parser
    rw [nextLine, hprompt]
    refine trans_of Parser.ReadsOn ?_ (Parser.TokenFrame.advance _)
    exact .here rfl rfl rfl
  refine ⟨?_, (hreads s).bounded same.bounded, (hreads s').bounded same.bounded', ?_, ?_,
    ⟨[], (List.append_nil _).symm, (List.append_nil _).symm⟩, same.size,
    ⟨same.ongoing.interactive, same.ongoing.running⟩,
    ⟨same.ongoing'.interactive, same.ongoing'.running⟩⟩
  · obtain ⟨journal, hprompt, hj⟩ := exists_prompt s.options s.parser
    obtain ⟨journal', hprompt', hj'⟩ := exists_prompt s'.options s'.parser
    rw [nextLine, nextLine, hprompt, hprompt']
    obtain ⟨x, xs, hrest⟩ := List.exists_cons_of_ne_nil h.rest_ne_nil
    obtain ⟨x', xs', hrest'⟩ := List.exists_cons_of_ne_nil h'.rest_ne_nil
    rw [hrest, hrest'] at htokens
    obtain ⟨hx, hxs⟩ := List.forall₂_cons.1 htokens
    have hleft : ({ s.parser with journal } : Parser).rest = x :: xs := hrest
    have hright : ({ s'.parser with journal := journal' } : Parser).rest = x' :: xs' := hrest'
    refine Parser.beside_advance (w := (remainder (Location.down d) s s').toPassage) hleft hright
      hx hxs (List.append_nil _).symm (List.append_nil _).symm (h'.kind.trans h.kind.symm) same.mark
      same.types.toRelocated ⟨[], ?_, ?_⟩
    · rw [List.append_nil]
      exact hj
    · rw [List.map_nil, List.append_nil]
      exact hj'
  · rw [types_nextLine, types_nextLine]
    exact same.types
  · rw [types_nextLine, types_nextLine]
    exact same.symbols

end Session

namespace Lexer

variable {l l' : Lexer} {text rest rest' : List Char} {q : Parser}

/-- Two texts begin with the same lines. After these lines a parser of the first text stands at the
same place as some parser of the second one. -/
theorem exists_abreast (h : l.Abreast 0 rest rest' text l') (reads : (Parser.ofLexer l).ReadsOn q)
    (hk : q.current.kind = .endOfLine) (hrest : q.lexer.stream.remaining = rest) :
    ∃ r, (Parser.ofLexer l').ReadsOn r ∧ r.rest = r.lexer.lexemes ∧
      q.lexer.Abreast 0 rest rest' [] r.lexer ∧
      ∃ common common', List.Forall₂ (Lexeme.Beside (Location.down 0)) common common' ∧
        l.lexemes = common ++ q.rest ∧ l'.lexemes = common' ++ r.rest := by
  cases reads with
  | here _ lexer hq =>
    have htext := h.stream.remaining
    rw [lexer] at hrest ⊢
    rw [show l.stream.remaining = rest from hrest, List.self_eq_append_left] at htext
    subst htext
    exact ⟨.ofLexer l', refl_of Parser.ReadsOn _, rfl, h, [], [], .nil, hq.symm, rfl⟩
  | on before x current lexer hx =>
    have hx : l.lexemes = before ++ x :: q.rest := hx
    rw [lexer] at hrest ⊢
    rw [current] at hk
    obtain ⟨used, hread, hlast⟩ := reads_of_endOfLine h.stream.lineWise (x := x) (by simp [hx]) hk
    have htext := h.stream.remaining.symm.trans hread.remaining
    rw [hrest, List.append_cancel_right_eq] at htext
    subst htext
    obtain ⟨before', x', hx', hbefore, hbeside, hafter⟩ :=
      h.exists_lexemes (.inl (.inr hlast)) hx hk hrest
    refine ⟨{ Parser.ofLexer l' with
      current := x'.token, lexer := x'.after, rest := x'.after.lexemes }, .on before' x' rfl rfl hx',
      rfl, hafter, before ++ [x], before' ++ [x'], List.rel_append hbefore (.cons hbeside .nil),
      ?_, ?_⟩
    · rw [List.append_assoc]
      exact hx
    · rw [List.append_assoc]
      exact hx'

end Lexer

namespace Session

variable {s : Session} {left right : Input} {options : SessionOptions} {text rest rest' : List Char}
  {k : Nat}

/-! ### The lines before -/

/-- Sessions at the start of texts that begin with the same tokens. -/
theorem beside_ofInput (interactive : options.mode = .interactive)
    {tail tail' common common' : List Lexeme}
    (hcommon : List.Forall₂ (Lexeme.Beside (Location.down 0)) common common')
    (hleft : (Lexer.ofInput left).lexemes = common ++ tail)
    (hright : (Lexer.ofInput right).lexemes = common' ++ tail') (ends : tail = [] → tail' = []) :
    Beside ⟨⟨Location.down 0, tail, tail', [], [], [], ends⟩, [], []⟩ (ofInput left options)
      (ofInput right options) := by
  have hdecls : TypeEnv.initial.structDecls = [] := rfl
  have htypes : TypeEnv.Relocated (Location.down 0) [] .initial .initial :=
    hdecls ▸ TypeEnv.relocated_self .initial
  have sound := TypeEnv.unresolved_initial.sound
  refine ⟨⟨rfl, fun _ => rfl, ?_, ⟨common, common', hcommon, hleft, hright⟩, rfl, rfl, htypes,
    ⟨[], rfl, rfl⟩⟩, Parser.bounded_beforeFirst _, Parser.bounded_beforeFirst _, ⟨htypes, sound, sound⟩,
    Symbols.twin_empty, ⟨[], rfl, rfl⟩, rfl, ⟨interactive, rfl⟩, ⟨interactive, rfl⟩⟩
  rfl

/-- After the common lines of two texts both sessions stand between lines and have declared the
same. -/
theorem after_commonLines (interactive : options.mode = .interactive)
    (hleft : normalise left.text = text ++ rest) (hright : normalise right.text = text ++ rest')
    (stands : ((ofInput left options).after k).AtLineEnd rest)
    (noBlock : ((ofInput left options).after k).parser.lexer.blocks = [])
    (keeps : ∀ n < k, ((ofInput left options).after n).types.KeepsAliases
      ((ofInput left options).after (n + 1)).types) (place : Location → Location) :
    ((ofInput left options).after k).BetweenLines rest ∧
      ((ofInput right options).after k).BetweenLines rest' ∧
      ((ofInput right options).after k).parser.lexer.stream.location =
        ((ofInput left options).after k).parser.lexer.stream.location ∧
      DeclaresAlike place ((ofInput left options).after k) ((ofInput right options).after k) := by
  have fresh := Lexer.fresh_ofInput left
  have reads := readsOn_after k (ofInput left options)
  have reads' := readsOn_after k (ofInput right options)
  have hbetween : ((ofInput left options).after k).BetweenLines rest :=
    ⟨stands, Lexer.fresh_of_readsOn fresh reads stands.kind noBlock,
      Lexer.lexemes_of_readsOn reads stands.kind⟩
  obtain ⟨r, hr, htokens, hafter, common, common', hcommon, hlexemes, hlexemes'⟩ :=
    Lexer.exists_abreast (fresh.abreast (Lexer.fresh_ofInput right) hleft hright rfl) reads
      stands.kind stands.unread
  have hstart := beside_ofInput interactive hcommon hlexemes hlexemes' fun hnil =>
    absurd hnil hbetween.rest_ne_nil
  rcases hstart.after k keeps with hbeside | hbeyond
  · obtain ⟨none, none', hnone, hrest, hrest'⟩ := hbeside.parser.rest
    obtain rfl : none = [] := List.self_eq_append_left.1 hrest
    cases hnone
    have hlexer := reads'.lexer_eq hr hrest'
    refine ⟨hbetween, ⟨⟨hbeside.parser.kind.trans stands.kind, ?_⟩, ?_, ?_⟩, ?_, hbeside.parser.mark,
      ⟨⟨hbeside.types.aliases, [], ?_, ?_⟩, hbeside.types.sound, hbeside.types.sound'⟩,
      hbeside.symbols, hbeside.size, hbeside.bounded, hbeside.bounded', hbeside.ongoing,
      hbeside.ongoing'⟩
    · rw [hlexer]
      exact hafter.stream.remaining'
    · rw [hlexer]
      exact hafter.fresh hbetween.fresh
    · rw [hlexer]
      exact hrest'.trans htokens
    · rw [hlexer]
      exact hafter.stream.location
    · rw [List.append_nil]
    · obtain ⟨new, hnew, hnew'⟩ := hbeside.types.structDecls
      rw [hnew, hnew', TypeEnv.relocateDecls_down_zero, TypeEnv.relocateDecls_nil, List.append_nil]
  · exact absurd hbeyond (Nat.lt_irrefl _)

/-! ### The rejected line -/

/-- A line that is refused up to its own end, and no further, is no stray alias: nothing on it
closes a block. -/
theorem not_strayAlias {before : List Lexeme} {y : Lexeme}
    (failed : s.step.1 = .failed) (running : s.halted = false)
    (line : s.parser.rest = before ++ y :: s.step.2.parser.rest)
    (kind : s.parser.current.kind = .endOfLine) (stops : s.step.2.parser.current.kind = .endOfLine)
    (plain : ∀ z ∈ before, z.token.kind.isLayout = false) (name : String) (target : TypeExpr) :
    ¬ s.atItem.StrayAlias name target := by
  rintro ⟨q, hrun, hdedent, -⟩
  have more : s.atItem.current.kind ≠ .endOfInput := by
    intro hend
    rw [step_of_running running, if_pos hend] at failed
    cases failed
  have hto : s.parser.ReadsOn q :=
    trans_of Parser.ReadsOn (readsOn_atItem s) ((Parse.ensures_itemShape _ _ _).ok hrun).1
  have hfrom : q.ReadsOn s.step.2.parser :=
    trans_of Parser.ReadsOn (Parser.readsOn_of_itemShape hrun)
      (readsOn_step_of_parseItem running more)
  cases hto with
  | here current =>
    rw [current, kind] at hdedent
    cases hdedent
  | on before₁ z current _ rest₁ =>
    cases hfrom with
    | here current' =>
      rw [current', hdedent] at stops
      cases stops
    | on before₂ y' _ _ rest₂ =>
      -- The dedent is one of the tokens before the end of the line.
      rw [line, rest₂, ← List.cons_append, ← List.append_assoc, List.append_cons before,
        List.append_cons (before₁ ++ z :: before₂), List.append_cancel_right_eq] at rest₁
      have hz : z ∈ before := by
        rw [(List.append_inj' rest₁ rfl).1]
        simp
      have hplain := plain z hz
      rw [← current, hdedent] at hplain
      cases hplain

/-- A line that starts without a margin, and is refused up to its own end, leaves the session on that
end with no block open, one line further down, and nothing behind but layouts. -/
theorem BetweenLines.rejected {line : List Char} (h : s.BetweenLines (line ++ '\n' :: rest))
    (running : s.halted = false) (single : '\n' ∉ line)
    (margin : ∀ c, line.head? = some c → Margin.isMarginChar c = false)
    (failed : s.step.1 = .failed) (stops : s.step.2.AtLineEnd rest) :
    s.step.2.BetweenLines rest ∧ s.OnlyLaidOut s.step.2 ∧
      s.step.2.parser.lexer.stream.location = s.parser.lexer.stream.location.down 1 := by
  cases readsOn_step s with
  | here _ lexer =>
    have hlength := congrArg List.length (h.unread.symm.trans (lexer ▸ stops.unread))
    simp at hlength
    omega
  | on before y current lexer htokens =>
    have hlexemes := h.tokens.symm.trans htokens
    have hkind : y.token.kind = .endOfLine := current ▸ stops.kind
    have hends := h.fresh.line h.unread single margin hlexemes hkind (lexer ▸ stops.unread)
    have hfresh := Lexer.fresh_of_endOfLine h.fresh.lineWise h.fresh.counted (x := y)
      (by simp [hlexemes]) hkind (hends.blocks.trans h.fresh.noBlocks)
    refine ⟨⟨stops, lexer ▸ hfresh, ?_⟩, ?_, ?_⟩
    · rw [lexer]
      exact Lexer.lexemes_after_append hlexemes (by rw [hkind]; exact Kind.noConfusion)
    · exact onlyLaidOut_of_failed failed
        (not_strayAlias failed running htokens h.kind stops.kind hends.plain)
    · rw [lexer, hends.location, ← h.fresh.column]
      rfl

/-! ### The lines after -/

/-- What the sessions `s` and `s'` have added when they are at `t` and `t'` is the same, at other
places. -/
structure AddsAlike (place : Location → Location) (s s' t t' : Session) : Prop where
  diagnostics : ∃ new, t.journal.diagnostics = s.journal.diagnostics ++ new ∧
    t'.journal.diagnostics = s'.journal.diagnostics ++ new.map (Diagnostic.relocate place)
  items : ∃ new, t.items.toList = s.items.toList ++ new ∧
    t'.items.toList = s'.items.toList ++ new.map (Item.relocate place)
  size : t'.items.size = t.items.size
  sexprs : ∀ item : Item, (item.relocate place).sexpr t'.types =
    (item.sexpr t.types).mapError (LowerError.relocate place)
  aliases : t'.types.aliases = t.types.aliases
  structDecls : ∃ new, t.types.structDecls = s.types.structDecls ++ new ∧
    t'.types.structDecls = s.types.structDecls ++ TypeEnv.relocateDecls place new
  names : t'.symbols.describe t'.types = t.symbols.describe t.types

theorem Beside.addsAlike {place : Location → Location} {s s' t t' : Session}
    (h : Beside (remainder place s s') t t') : AddsAlike place s s' t t' :=
  ⟨h.parser.diagnostics, h.items, h.size, fun item => item.sexpr_relocate h.types.structDecl?,
    h.types.aliases, h.types.structDecls, h.symbols.describe h.types.sound h.types.sound'⟩

/-- Sessions that have declared the same and are about to read the same text have the same outcomes
from there on, and add the same. -/
theorem BetweenLines.addsAlike {d : Nat} {s s' : Session} (h : s.BetweenLines rest)
    (h' : s'.BetweenLines rest)
    (hplace : s'.parser.lexer.stream.location = s.parser.lexer.stream.location.down d)
    (same : DeclaresAlike (Location.down d) s s')
    (keeps : ∀ n, (s.after n).types.KeepsAliases (s.after (n + 1)).types) (n : Nat) :
    (s'.after n).step.1 = (s.after n).step.1 ∧
      AddsAlike (Location.down d) s s' (s.after (n + 1)) (s'.after (n + 1)) := by
  have hkeeps (n : Nat) :
      (s.nextLine.after n).types.KeepsAliases (s.nextLine.after (n + 1)).types := by
    rw [h.types_after same.ongoing.running, h.types_after same.ongoing.running]
    exact keeps n
  have hnever {t : Session} : ¬ (remainder (Location.down d) s s').Beyond t.parser :=
    Nat.not_lt_zero _
  have hn := ((h.beside h' hplace same).after n fun m _ => hkeeps m).resolve_right hnever
  obtain ⟨houtcome, hnext⟩ := (hn.step (hkeeps n)).resolve_right hnever
  rw [after_succ, after_succ, h.step_after same.ongoing.running,
    h'.step_after same.ongoing'.running]
  exact ⟨houtcome, hnext.addsAlike⟩

/-- In interactive mode a rejected line leaves no trace. Let a session, on a text that begins with the
lines `text`, stand between these and the rest of the text after `k` steps. If another line stands
there in a second text, if the next step refuses that line up to its own end, and if no alias is
given another target, then both sessions do the same from there on: they have the same outcomes,
accept the same items, show the same diagnostics and declare the same, one line further down. -/
theorem addsAlike_of_rejected (interactive : options.mode = .interactive) {line : List Char}
    (hleft : normalise left.text = text ++ rest)
    (hright : normalise right.text = text ++ (line ++ '\n' :: rest))
    (stands : ((ofInput left options).after k).AtLineEnd rest)
    (noBlock : ((ofInput left options).after k).parser.lexer.blocks = [])
    (single : '\n' ∉ line) (margin : ∀ c, line.head? = some c → Margin.isMarginChar c = false)
    (failed : ((ofInput right options).after k).step.1 = .failed)
    (stops : ((ofInput right options).after (k + 1)).AtLineEnd rest)
    (keeps : ∀ n, ((ofInput left options).after n).types.KeepsAliases
      ((ofInput left options).after (n + 1)).types) (n : Nat) :
    ((ofInput right options).after (k + 1 + n)).step.1 =
        ((ofInput left options).after (k + n)).step.1 ∧
      AddsAlike (Location.down 1) ((ofInput left options).after k)
        ((ofInput right options).after (k + 1)) ((ofInput left options).after (k + n + 1))
        ((ofInput right options).after (k + 1 + n + 1)) := by
  obtain ⟨hbefore, hbefore', hplace, hsame⟩ := after_commonLines interactive hleft hright stands
    noBlock (fun m _ => keeps m) (Location.down 1)
  obtain ⟨hafter, hadded, hdown⟩ := hbefore'.rejected hsame.ongoing'.running single margin failed stops
  have hsame' := hsame.onlyLaidOut hadded hsame.ongoing'.step
    ((readsOn_step _).bounded hsame.bounded')
  have hadds := hbefore.addsAlike hafter (hdown.trans (congrArg _ hplace)) hsame'
    (fun m => by rw [← after_add, ← after_add]; exact keeps (k + m)) n
  rw [← after_succ, ← after_add, ← after_add, ← after_add, ← after_add] at hadds
  exact hadds

/-- Two assignments. -/
def assignments : Session := ofInput (.ofString "x = 1\ny = 2\n") ⟨.interactive, defaultPrompt⟩

/-- The same with a jump between them that leaves no loop. -/
def assignmentsAroundJump : Session :=
  ofInput (.ofString "x = 1\nbreak\ny = 2\n") ⟨.interactive, defaultPrompt⟩

theorem addsAlike_of_rejected_jump :
    assignmentsAroundJump.step.2.step.1 = .failed ∧
      assignmentsAroundJump.step.2.step.2.step.1 = assignments.step.2.step.1 ∧
      AddsAlike (Location.down 1) assignments.step.2 assignmentsAroundJump.step.2.step.2
        assignments.step.2.step.2 assignmentsAroundJump.step.2.step.2.step.2 := by
  have hend : (assignments.after 2).step.1 = .finished := by decide +kernel
  have keeps (n : Nat) :
      (assignments.after n).types.KeepsAliases (assignments.after (n + 1)).types := by
    have hsame : (assignments.after (n + 1)).types.aliases = (assignments.after n).types.aliases := by
      match n with
      | 0 | 1 | 2 => decide +kernel
      | n + 3 =>
        rw [show n + 3 + 1 = 2 + 1 + (n + 1) by omega, show n + 3 = 2 + 1 + n by omega,
          after_of_finished hend, after_of_finished hend]
    intro name target h
    rwa [TypeEnv.alias?, hsame]
  have failed : (assignmentsAroundJump.after 1).step.1 = .failed := by decide +kernel
  have stands : (assignments.after 1).AtLineEnd "y = 2\n".toList :=
    ⟨by decide +kernel, by decide +kernel⟩
  have stops : (assignmentsAroundJump.after 2).AtLineEnd "y = 2\n".toList :=
    ⟨by decide +kernel, by decide +kernel⟩
  have hleft : normalise (Input.ofString "x = 1\ny = 2\n").text =
      "x = 1\n".toList ++ "y = 2\n".toList := by
    decide +kernel
  have hright : normalise (Input.ofString "x = 1\nbreak\ny = 2\n").text =
      "x = 1\n".toList ++ ("break".toList ++ '\n' :: "y = 2\n".toList) := by
    decide +kernel
  have margin (c : Char) (hc : "break".toList.head? = some c) : Margin.isMarginChar c = false := by
    obtain rfl : 'b' = c := by simpa using hc
    decide
  exact ⟨failed, addsAlike_of_rejected rfl hleft hright stands (by decide +kernel)
    (by decide) margin failed stops keeps 0⟩

end Session

end Offside
