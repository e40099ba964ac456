import Offside.Proofs.Canonical.Item
import Offside.Proofs.Session.Step

/-!
# Reading a canonical text

A session reads items until the input is at its end and skips what stands between them. The items
of a canonical text are the constructs that it was written from, whatever these are, how deep they
are nested and however their expressions are spelled.

## Main definitions

* `Offside.ReadsItems`: reading items up to the end of the input.

## Main results

* `Offside.Construct.readsItems_text`: a canonical text is read back.
* `Offside.spells_name`: a name is a text of a variable.
-/

namespace Offside

open Source Parse Line

/-! ### Between items -/

namespace Session

variable (options : SessionOptions)

theorem quiet_skipToItem (p : Parser) : p.Quiet (skipToItem options p) := by
  refine frame_skipToItem options (fun p hvalid => ?_) p
  rw [prompt]
  split
  · exact ⟨hvalid, rfl⟩
  · exact ⟨hvalid, Journal.diagnostics_prompt p.journal options.prompt⟩

theorem kinds_prompt (p : Parser) : (prompt options p).kinds = p.kinds := by
  rw [prompt]
  split <;> rfl

/-- The line end behind an item is skipped, and no more. -/
theorem kinds_skipToItem {p : Parser} {k : Kind} {K : List Kind} (hp : p.Ended (k :: K))
    (hk : k ≠ .endOfLine ∧ k ≠ .dedent) : (skipToItem options p).kinds = k :: K := by
  have hstop {q : Parser} (hq : q.kinds = k :: K) : (skipToItem options q).kinds = k :: K := by
    rw [skipToItem, Parser.current_of_kinds hq, if_neg (fun h => hk.1 h.1),
      if_neg (fun h => hk.2 h.1), hq]
  rcases hp with hp | ⟨hp, -⟩
  · rw [skipToItem, if_pos ⟨Parser.current_of_kinds hp,
      Parser.rest_ne_nil_of_kinds hp (List.cons_ne_nil k K)⟩]
    rw [← kinds_prompt options] at hp
    exact hstop (Parser.kinds_advance hp (List.cons_ne_nil k K))
  · exact hstop hp

end Session

/-- Reading items one after the other, as a session does, up to the end of the input. -/
inductive ReadsItems (options : SessionOptions) : Parser → List Item → Parser → Prop
  | ended {p : Parser} (ended : (Session.skipToItem options p).current.kind = .endOfInput) :
    ReadsItems options p [] (Session.skipToItem options p)
  | item {p q r : Parser} {item : Item} {items : List Item}
    (more : (Session.skipToItem options p).current.kind ≠ .endOfInput)
    (read : (Session.skipToItem options p).parseItem = (some item, q))
    (others : ReadsItems options q items r) : ReadsItems options p (item :: items) r

/-- What is read is determined by where reading starts. -/
theorem ReadsItems.unique {options : SessionOptions} {p q q' : Parser} {items items' : List Item}
    (h : ReadsItems options p items q) (h' : ReadsItems options p items' q') :
    items = items' ∧ q = q' := by
  induction h generalizing items' q' with
  | ended ended =>
    cases h' with
    | ended => exact ⟨rfl, rfl⟩
    | item more => exact absurd ended more
  | item more read _ ih =>
    cases h' with
    | ended ended => exact absurd ended more
    | item _ read' others' =>
      obtain ⟨rfl, rfl⟩ : _ ∧ _ := by simpa using read.symm.trans read'
      obtain ⟨rfl, rfl⟩ := ih others'
      exact ⟨rfl, rfl⟩

/-! ### Names as texts -/

/-- A name is one token. -/
theorem textKinds_name {name : String} (h : IsName name) : textKinds name = [.identifier name] := by
  have hsound : (Piece.name name).Sound := h
  obtain ⟨c, cs, htext, hc, hn⟩ := Piece.exists_first hsound rfl
  exact textKinds_of_scans (Piece.not_mem_chars hsound) htext hc hn (Piece.scans_self hsound).1

/-- A name is a text of a variable. -/
theorem spells_name {name : String} (h : IsName name) (tag : Tag) :
    Spells name (.var tag name) := by
  have hword {c : Char} (hc : Token.isWordChar c = false) : c ∉ name.toList := by
    intro hmem
    rw [List.all_eq_true.1 h.2.1 c hmem] at hc
    cases hc
  refine spells_of_derives ⟨hword (by decide), hword (by decide)⟩ (hword (by decide)) ?_
  rw [textKinds_name h]
  exact (Derives.name name).expression_of_suffixed

/-! ### The tokens of a canonical text -/

namespace Construct

variable {spell : Expr → String} {env : TypeEnv} {cs : List Construct}

/-- Every construct starts on a line that no block contains. -/
theorem lines_sound (h : WritableAll spell env cs) :
    (∀ line ∈ cs.flatMap (lines spell), line.Sound) ∧
      Line.Stepwise 0 (cs.flatMap (lines spell)) := by
  induction cs generalizing env with
  | nil => exact ⟨by rintro _ ⟨⟩, trivial⟩
  | cons c cs ih =>
    have hblock := block_lines h.1
    obtain ⟨hsound, hstepwise⟩ := ih h.2
    rw [List.flatMap_cons]
    refine ⟨fun line hline => ?_, hblock.stepwise.append le_rfl hblock.deep hstepwise⟩
    exact (List.mem_append.1 hline).elim (hblock.sound line) (hsound line)

/-- The tokens of a canonical text. -/
theorem kinds_text {unit : ℕ} (hunit : 0 < unit) (h : WritableAll spell env cs) :
    (Lexer.ofInput ⟨text spell unit cs, false⟩).tokens.map Token.kind =
      layoutKinds 0 (cs.flatMap (lines spell)) := by
  obtain ⟨hsound, hstepwise⟩ := lines_sound h
  refine Lexer.kinds_of_lines hunit hsound hstepwise (Stream.lineWise_ofInput _) rfl rfl rfl ?_
  exact normalise_of_not_mem (Line.not_mem_text hsound)

/-! ### The items of a canonical text -/

/-- Constructs are read back one after the other. -/
theorem readsItems_lines (options : SessionOptions) {p : Parser} (h : WritableAll spell env cs)
    (hp : p.Ended (layoutKinds 0 (cs.flatMap (lines spell)))) (hvalid : p.Valid)
    (htypes : p.types.erase = env.erase) :
    ∃ items q, ReadsItems options p items q ∧
      items.map (·.shape.erase) = cs.map (·.shape.erase) ∧
      q.types.erase = (cs.foldl declare env).erase ∧ q.kinds = [.endOfInput] ∧
      q.journal.diagnostics = p.journal.diagnostics := by
  induction cs generalizing p env with
  | nil =>
    have hkinds := Session.kinds_skipToItem options hp (by simp)
    refine ⟨[], _, .ended (Parser.current_of_kinds hkinds), rfl, ?_, hkinds, ?_⟩
    · rw [Session.types_skipToItem, htypes]
      rfl
    · exact (Session.quiet_skipToItem options p hvalid).2
  | cons c cs ih =>
    obtain ⟨hc, hcs⟩ := h
    obtain ⟨hshallow, hbranch⟩ := noBranch_lines hcs
    obtain ⟨k, K, hk, hstarts⟩ := exists_first hc (cs.flatMap (lines spell))
    rw [List.flatMap_cons, hk] at hp
    have hkinds := Session.kinds_skipToItem options hp (by
      constructor
      · rintro rfl
        cases hstarts
      · rintro rfl
        cases hstarts)
    have hmore : (Session.skipToItem options p).current.kind ≠ .endOfInput := by
      rw [Parser.current_of_kinds hkinds]
      rintro rfl
      cases hstarts
    obtain ⟨hvalid', hsame⟩ := Session.quiet_skipToItem options p hvalid
    obtain ⟨item, q, hread, hshape, hdeclared, hq, hquiet⟩ :=
      parseItem_eq hc (hkinds.trans hk.symm) hshallow hbranch
        (by rw [Session.types_skipToItem, htypes])
    obtain ⟨hvalid', hsame'⟩ := hquiet hvalid'
    obtain ⟨items, r, hitems, hshapes, htypes', hr, hsame''⟩ := ih hcs hq hvalid' hdeclared
    refine ⟨item :: items, r, .item hmore hread hitems, ?_, htypes', hr, ?_⟩
    · rw [List.map_cons, List.map_cons, hshape, hshapes]
    · rw [hsame'', hsame', hsame]

/-- The items of a canonical text are the constructs that it was written from, declared as they
are, and no diagnostic is shown. -/
theorem readsItems_text (options : SessionOptions) {unit : ℕ} (hunit : 0 < unit)
    (h : WritableAll spell .initial cs) :
    ∃ items q, ReadsItems options (.ofLexer (.ofInput ⟨text spell unit cs, false⟩)) items q ∧
      items.map (·.shape.erase) = cs.map (·.shape.erase) ∧
      q.types.erase = (cs.foldl declare .initial).erase ∧ q.kinds = [.endOfInput] ∧
      q.journal.diagnostics = [] := by
  have hkinds : (Parser.ofLexer (.ofInput ⟨text spell unit cs, false⟩)).kinds =
      .endOfLine :: layoutKinds 0 (cs.flatMap (lines spell)) := by
    rw [← kinds_text hunit h]
    simp [Parser.kinds, Parser.ofLexer, Parser.beforeFirst, Lexer.tokens]
  refine readsItems_lines options h (.inl hkinds) ?_ rfl
  rw [Parser.Valid, hkinds]
  exact List.forall_mem_cons.2 ⟨rfl, Line.valid_layoutKinds (lines_sound h).1 0⟩

/-- Variables by their names. -/
def nameText (e : Expr) : String := e.plainName?.getD ""

/-- An alias, a struct with a field of this type, a function with bodies in bodies, and a
statement. -/
def nested : List Construct :=
  let x : Expr := .var .erased "x"
  [.typeAlias "Word" (.builtin .u64),
    .struct ⟨"Pair", [⟨"first", .named "Word"⟩, ⟨"next", .pointer (.named "Pair")⟩], .erased⟩,
    .function ⟨"f", [⟨"x", .named "Word"⟩], .builtin .void, .erased⟩
      (.mk .erased
        [.branch .erased x
          (.mk .erased [.whileLoop .erased x (.mk .erased [.jump .erased .breakLoop])])
          (some (.mk .erased
            [.select .erased x [.mk .erased .wildcard (.mk .erased [.ret .erased none])]])),
        .assign .erased x x]),
    .statement (.expr .erased x)]

theorem writableAll_nested : WritableAll nameText .initial nested := by
  have hx : Expr.Spelled nameText (.var .erased "x") := spells_name (by decide) _
  have hstarts : StartsWithName (nameText (.var .erased "x")) :=
    ⟨"x", congrArg List.head? (textKinds_name (by decide))⟩
  have hword : (TypeExpr.named "Word").Writable := ⟨by decide, by decide⟩
  have hpair : (TypeExpr.named "Pair").Writable := ⟨by decide, by decide⟩
  have hreturn : (Stmt.ret .erased none).Writable nameText := by rintro _ ⟨⟩
  refine ⟨⟨by decide, trivial, by decide⟩,
    ⟨by decide, by simp, ⟨by decide, ?_⟩, by decide, by decide⟩,
    ⟨⟨by decide, ⟨by decide, ?_⟩, trivial⟩, by simp, ?_, ⟨hx, rfl, hstarts, hx⟩, trivial⟩,
    hx, trivial⟩
  · exact List.forall_mem_cons.2
      ⟨⟨by decide, hword⟩, List.forall_mem_singleton.2 ⟨by decide, hpair⟩⟩
  · exact List.forall_mem_singleton.2 ⟨by decide, hword⟩
  · exact ⟨hx, ⟨by simp, ⟨hx, by simp, trivial, trivial⟩, trivial⟩,
      by simp, ⟨hx, by simp, by decide, trivial, ⟨by simp, hreturn, trivial⟩, trivial⟩, trivial⟩

theorem readsItems_text_nested :
    0 < 2 ∧ WritableAll nameText .initial nested ∧
      ∃ items q,
        ReadsItems ⟨.file, defaultPrompt⟩
          (.ofLexer (.ofInput ⟨text nameText 2 nested, false⟩)) items q ∧
        items.map (·.shape.erase) = nested.map (·.shape.erase) ∧
        q.types.erase = (nested.foldl declare .initial).erase ∧ q.kinds = [.endOfInput] ∧
        q.journal.diagnostics = [] :=
  ⟨by decide, writableAll_nested, readsItems_text _ (by decide) writableAll_nested⟩

end Construct

end Offside
