import Offside.Proofs.Couples
import Offside.Proofs.Parser.Nested
import Offside.Proofs.Parser.Onward
import Offside.Proofs.Token.Unended

/-!
# Reading without a last line end

Where the end of the input ends a construct, a line end before it would end the construct as well.
So two parsers read the same, or both fail, if their tokens are the same up to the tokens that close
the blocks at the end of the input, and the second one may find a line end before these. This is the
calculus in which that is said.

At the end of a line, of a block or of the input the two may stand on tokens of different kinds. What
a computation does there has to be the same for all of these kinds. Elsewhere the two stand on the
same token.

## Main definitions

* `Offside.Parser.Unended`: parsers whose tokens are the same but for a last line end.
* `Offside.Parser.Inside`: the same, at no end of a line, of a block or of the input.
* `Offside.Parser.Level`: the same, on tokens of the same kind.
* `Offside.Parse.Agrees`: a computation that reads the same in both, or fails in both.

## Main results

* `Offside.Parser.Unended.skipLineEnds`: past the line ends the kinds are the same.
* `Offside.Parse.agrees_seq`: sequences of such computations.
* `Offside.Parse.agrees_of_fails`, `Offside.Parse.agrees_of_default`: computations that cannot tell
  the ends apart.
-/

namespace Offside

/-- The first token at the end of the input. -/
theorem Kind.exists_closing (n : Nat) :
    ∃ k K, closing n = k :: K ∧ k.isEnd ∧ k ≠ .endOfLine ∧ k ≠ .indent := by
  cases n with
  | zero => exact ⟨_, _, rfl, rfl, Kind.noConfusion, Kind.noConfusion⟩
  | succ n => exact ⟨_, _, rfl, rfl, Kind.noConfusion, Kind.noConfusion⟩

theorem Token.Unended.ne_nil {ts ts' : List Token} (h : Token.Unended ts ts') :
    ts ≠ [] ∧ ts' ≠ [] := by
  cases h with
  | cons t later => exact ⟨List.cons_ne_nil _ _, List.cons_ne_nil _ _⟩
  | closed n kinds kinds' =>
    obtain ⟨k, K, hn, -⟩ := Kind.exists_closing n
    rw [hn] at kinds kinds'
    constructor
    · rintro rfl
      cases kinds
    · rintro rfl
      cases kinds'
  | lineEnd n kinds kinds' =>
    obtain ⟨k, K, hn, -⟩ := Kind.exists_closing n
    rw [hn] at kinds
    constructor
    · rintro rfl
      cases kinds
    · rintro rfl
      cases kinds'

theorem Token.Unended.length_le {ts ts' : List Token} (h : Token.Unended ts ts') :
    ts.length ≤ ts'.length := by
  induction h with
  | cons t later ih => exact Nat.succ_le_succ ih
  | closed n kinds kinds' | lineEnd n kinds kinds' =>
    have hlength := congrArg List.length kinds
    have hlength' := congrArg List.length kinds'
    simp only [List.length_map, List.length_cons] at hlength hlength'
    omega

namespace Parser

/-- The tokens after the current one. -/
def restTokens (p : Parser) : List Token := p.rest.map Lexeme.token

/-- Parsers whose tokens are the same, but the second one may find a line end before the tokens that
close the blocks at the end of the input. -/
structure Unended (p p' : Parser) : Prop where
  tokens : Token.Unended (p.current :: p.restTokens) (p'.current :: p'.restTokens)
  afterDedent : p.current.kind.isEnd = false → p'.afterDedent = p.afterDedent
  arena : p'.arena = p.arena
  types : p'.types = p.types

/-- The same, at no end of a line, of a block or of the input. -/
structure Inside (p p' : Parser) : Prop extends Unended p p' where
  inside : p.current.kind.isEnd = false

/-- The same, on tokens of the same kind. -/
structure Level (p p' : Parser) : Prop extends Unended p p' where
  kind : p'.current.kind = p.current.kind

variable {p p' : Parser}

theorem kinds_eq_map (p : Parser) : p.kinds = (p.current :: p.restTokens).map Token.kind := by
  simp [kinds, restTokens]

/-- How far two such parsers have come: before the end of the input, at it, or there up to a line end
that is still to be read. -/
theorem Unended.cases (h : Unended p p') :
    p'.current = p.current ∧ Token.Unended p.restTokens p'.restTokens ∨
    (∃ n, p.kinds = Kind.closing n ∧ p'.kinds = Kind.closing n) ∨
    ∃ n, p.kinds = Kind.closing n ∧ p'.current.kind = .endOfLine ∧
      p'.restTokens.map Token.kind = Kind.closing n := by
  obtain ⟨tokens⟩ := h
  generalize hts : p.current :: p.restTokens = ts at tokens
  generalize hts' : p'.current :: p'.restTokens = ts' at tokens
  cases tokens with
  | cons t later =>
    cases hts
    obtain ⟨hcurrent, rfl⟩ := List.cons.inj hts'
    exact .inl ⟨hcurrent, later⟩
  | closed n closing closing' =>
    exact .inr (.inl ⟨n, by rw [kinds_eq_map, hts, closing], by rw [kinds_eq_map, hts', closing']⟩)
  | lineEnd n closing closing' =>
    subst hts'
    obtain ⟨hline, hrest⟩ := List.cons.inj closing'
    exact .inr (.inr ⟨n, by rw [kinds_eq_map, hts, closing], hline, hrest⟩)

/-- The kinds of the current tokens are the same, or only a line end is still to be read. -/
theorem Unended.kind_eq_or (h : Unended p p') :
    p'.current.kind = p.current.kind ∨
    ∃ n, p.kinds = Kind.closing n ∧ p'.current.kind = .endOfLine ∧
      p'.restTokens.map Token.kind = Kind.closing n := by
  rcases h.cases with ⟨hcurrent, -⟩ | ⟨n, hkinds, hkinds'⟩ | hline
  · exact .inl (congrArg Token.kind hcurrent)
  · exact .inl (List.cons.inj (hkinds'.trans hkinds.symm)).1
  · exact .inr hline

/-- Before the last line end the first parser is at an end. -/
theorem isEnd_of_closing {n : Nat} (h : p.kinds = Kind.closing n) :
    p.current.kind.isEnd ∧ p.current.kind ≠ .endOfLine ∧ p.current.kind ≠ .indent := by
  obtain ⟨k, K, hn, hend, hline, hindent⟩ := Kind.exists_closing n
  obtain rfl := current_of_kinds (h.trans hn)
  exact ⟨hend, hline, hindent⟩

/-- Either both are at an end or neither is. -/
theorem Unended.isEnd (h : Unended p p') : p'.current.kind.isEnd = p.current.kind.isEnd := by
  rcases h.kind_eq_or with hkind | ⟨n, hkinds, hline, -⟩
  · rw [hkind]
  · rw [hline, (isEnd_of_closing hkinds).1]
    rfl

/-- At no end both are on the same token. -/
theorem Inside.current (h : Inside p p') : p'.current = p.current := by
  rcases h.toUnended.cases with ⟨hcurrent, -⟩ | ⟨n, hkinds, -⟩ | ⟨n, hkinds, -⟩
  · exact hcurrent
  · exact absurd (isEnd_of_closing hkinds).1 (by simp [h.inside])
  · exact absurd (isEnd_of_closing hkinds).1 (by simp [h.inside])

theorem Inside.level (h : Inside p p') : Level p p' := ⟨h.toUnended, congrArg Token.kind h.current⟩

/-- Where the first parser is on a line end, so is the second one. -/
theorem Unended.level_of_endOfLine (h : Unended p p') (hk : p.current.kind = .endOfLine) :
    Level p p' := by
  refine ⟨h, ?_⟩
  rcases h.kind_eq_or with hkind | ⟨n, hkinds, -⟩
  · exact hkind
  · exact absurd hk (isEnd_of_closing hkinds).2.1

theorem rest_ne_nil_of_restTokens (h : p.restTokens ≠ []) : p.rest ≠ [] := by
  rintro hnil
  exact h (by rw [restTokens, hnil]; rfl)

theorem tokens_advance (h : p.rest ≠ []) :
    p.advance.current :: p.advance.restTokens = p.restTokens := by
  rw [advance, restTokens, restTokens]
  cases hrest : p.rest with
  | nil => exact absurd hrest h
  | cons x rest => rfl

/-- Both read a token of the same kind. -/
theorem Level.advance (h : Level p p') (more : p.current.kind ≠ .endOfInput) :
    p.rest ≠ [] ∧ p'.rest ≠ [] ∧ Unended p.advance p'.advance := by
  have hlater : Token.Unended p.restTokens p'.restTokens := by
    rcases h.toUnended.cases with ⟨-, hlater⟩ | ⟨n, hkinds, hkinds'⟩ | ⟨n, hkinds, hline, -⟩
    · exact hlater
    · cases n with
      | zero => exact absurd (current_of_kinds hkinds) more
      | succ n =>
        refine .closed n ?_ ?_
        · rw [restTokens, List.map_map]
          exact (List.cons.inj hkinds).2
        · rw [restTokens, List.map_map]
          exact (List.cons.inj hkinds').2
    · exact absurd (h.kind.symm.trans hline) (isEnd_of_closing hkinds).2.1
  have hrest := rest_ne_nil_of_restTokens hlater.ne_nil.1
  have hrest' := rest_ne_nil_of_restTokens hlater.ne_nil.2
  refine ⟨hrest, hrest', ?_, fun _ => ?_, ?_, ?_⟩
  · rwa [tokens_advance hrest, tokens_advance hrest']
  · rw [afterDedent_advance, afterDedent_advance, h.kind]
  · rw [arena_advance, arena_advance, h.arena]
  · rw [types_advance, types_advance, h.types]

/-- Where only a line end is still to be read, the kinds are the same after it. -/
theorem Unended.advance_lineEnd (h : Unended p p') {n : Nat} (hkinds : p.kinds = Kind.closing n)
    (hrest : p'.restTokens.map Token.kind = Kind.closing n) :
    p'.rest ≠ [] ∧ Level p p'.advance := by
  have hne : p'.rest ≠ [] := by
    refine rest_ne_nil_of_restTokens fun hnil => ?_
    obtain ⟨k, K, hn, -⟩ := Kind.exists_closing n
    rw [hnil, hn] at hrest
    cases hrest
  have htokens := tokens_advance hne
  have hkinds' := p.kinds_eq_map.symm.trans hkinds
  refine ⟨hne, ⟨.closed n hkinds' (htokens ▸ hrest), fun hinside => ?_, ?_, ?_⟩, ?_⟩
  · exact absurd (isEnd_of_closing hkinds).1 (by simp [hinside])
  · rw [arena_advance, h.arena]
  · rw [types_advance, h.types]
  · exact (List.cons.inj ((htokens ▸ hrest).trans hkinds'.symm)).1

/-- Past the line ends the kinds are the same. -/
theorem Unended.skipLineEnds (h : Unended p p') : Level p.skipLineEnds p'.skipLineEnds := by
  fun_induction Parser.skipLineEnds p generalizing p' with
  | case1 p hgo ih =>
    have hlevel := h.level_of_endOfLine hgo.1
    obtain ⟨-, hrest', hnext⟩ := hlevel.advance (hgo.1.trans_ne Kind.noConfusion)
    rw [Parser.skipLineEnds.eq_def p', if_pos ⟨hlevel.kind.trans hgo.1, hrest'⟩]
    exact ih hnext
  | case2 p hgo =>
    have hline : p.current.kind ≠ .endOfLine := fun hk =>
      hgo ⟨hk, ((h.level_of_endOfLine hk).advance (hk.trans_ne Kind.noConfusion)).1⟩
    rcases h.kind_eq_or with hkind | ⟨n, hkinds, hline', hrest⟩
    · rw [Parser.skipLineEnds, if_neg fun h => hline (hkind.symm.trans h.1)]
      exact ⟨h, hkind⟩
    · obtain ⟨hne, hlevel⟩ := h.advance_lineEnd hkinds hrest
      rw [Parser.skipLineEnds, if_pos ⟨hline', hne⟩, Parser.skipLineEnds.eq_def p'.advance,
        if_neg fun h => hline (hlevel.kind.symm.trans h.1)]
      exact hlevel

/-- A statement may end here in both or in neither. -/
theorem Unended.atStatementEnd (h : Unended p p') : p'.atStatementEnd = p.atStatementEnd := by
  have hends {q : Parser} (hq : q.current.kind.isEnd) : q.atStatementEnd = true := by
    unfold Parser.atStatementEnd
    rcases Kind.eq_of_isEnd hq with hk | hk | hk <;> simp [hk]
  cases hp : p.current.kind.isEnd with
  | true => rw [hends hp, hends (h.isEnd.trans hp)]
  | false =>
    have hinside : Inside p p' := ⟨h, hp⟩
    rw [Parser.atStatementEnd, Parser.atStatementEnd, hinside.current, h.afterDedent hp]

/-- Where no block is left open, an item may end in both or in neither. -/
theorem Unended.atItemEnd (h : Unended p p') (hp : p.current.kind ≠ .dedent) :
    p'.atItemEnd = p.atItemEnd := by
  have hends {q : Parser} (hq : q.current.kind.isEnd) (hdedent : q.current.kind ≠ .dedent) :
      q.atItemEnd = true := by
    unfold Parser.atItemEnd
    rcases Kind.eq_of_isEnd hq with hk | hk | hk
    · simp [hk]
    · exact absurd hk hdedent
    · simp [hk]
  cases hinside : p.current.kind.isEnd with
  | true =>
    rw [hends hinside hp, hends (h.isEnd.trans hinside)]
    rcases h.kind_eq_or with hkind | ⟨n, -, hline, -⟩
    · rwa [hkind]
    · rw [hline]
      exact Kind.noConfusion
  | false =>
    have hsame : Inside p p' := ⟨h, hinside⟩
    rw [Parser.atItemEnd, Parser.atItemEnd, hsame.current, h.afterDedent hinside]

theorem Level.atBlockEnd (h : Level p p') : p'.atBlockEnd = p.atBlockEnd := by
  rw [Parser.atBlockEnd, Parser.atBlockEnd, h.kind]

/-- What reading changes besides the tokens. -/
theorem Unended.same {q q' : Parser} (h : Unended p p') (current : q.current = p.current)
    (rest : q.rest = p.rest) (afterDedent : q.afterDedent = p.afterDedent)
    (current' : q'.current = p'.current) (rest' : q'.rest = p'.rest)
    (afterDedent' : q'.afterDedent = p'.afterDedent) (arena : q'.arena = q.arena)
    (types : q'.types = q.types) : Unended q q' := by
  refine ⟨?_, ?_, arena, types⟩
  · rw [restTokens, restTokens, current, rest, current', rest']
    exact h.tokens
  · rw [current, afterDedent, afterDedent']
    exact h.afterDedent

theorem Unended.length_le (h : Unended p p') : p.rest.length ≤ p'.rest.length := by
  have := h.tokens.length_le
  simpa [restTokens] using this

end Parser

namespace Parse

variable {p p' : Parser} {R S : Parser → Parser → Prop} {α β : Type}

/-- The computation `x`, started in `p` and in `p'`, has the same result and leads to parsers that
are related by `R`, or it fails in both. -/
def AgreeAt (p p' : Parser) (R : Parser → Parser → Prop) (x : Parse α) : Prop :=
  Couples p p' x x (fun a q a' q' => a' = a ∧ R q q') fun _ _ _ _ => True

/-- The same in all parsers whose tokens are the same but for a last line end. -/
def Agrees (R : Parser → Parser → Prop) (x : Parse α) : Prop :=
  ∀ p p', p.Unended p' → AgreeAt p p' R x

theorem AgreeAt.mono {x : Parse α} (h : AgreeAt p p' R x) (hR : ∀ q q', R q q' → S q q') :
    AgreeAt p p' S x :=
  Couples.mono h (fun _ _ _ _ hq => ⟨hq.1, hR _ _ hq.2⟩) fun _ _ _ _ he => he

theorem agreeAt_bind {x : Parse α} {f : α → Parse β} (hx : AgreeAt p p' R x)
    (hf : ∀ a q q', R q q' → AgreeAt q q' S (f a)) : AgreeAt p p' S (x >>= f) := by
  refine couples_bind (Couples.mono hx (fun a q a' q' hq => ?_) fun _ _ _ _ he => he)
  obtain ⟨rfl, hR⟩ := hq
  exact hf a' q q' hR

theorem agreeAt_seq {x : Parse α} {f : α → Parse β} (hx : AgreeAt p p' Parser.Unended x)
    (hf : ∀ a, Agrees R (f a)) : AgreeAt p p' R (x >>= f) :=
  agreeAt_bind hx fun a q q' => hf a q q'

theorem agrees_seq {x : Parse α} {f : α → Parse β} (hx : Agrees Parser.Unended x)
    (hf : ∀ a, Agrees R (f a)) : Agrees R (x >>= f) :=
  fun p p' h => agreeAt_seq (hx p p' h) hf

/-- What is known of the first run. -/
theorem AgreeAt.and {x : Parse α} {Q : Parser → Prop} (h : AgreeAt p p' R x) (hx : Attains p Q x) :
    AgreeAt p p' (fun q q' => R q q' ∧ Q q) x :=
  (Couples.and_left h hx).mono (fun _ _ _ _ hq => ⟨hq.1.1, hq.1.2, hq.2⟩) fun _ _ _ _ _ => trivial

theorem agreeAt_of_fails {x : Parse α} (h : Fails p x) (h' : Fails p' x) : AgreeAt p p' R x := by
  rw [AgreeAt, Couples]
  rw [Fails, Yields] at h h'
  split at h
  · exact h.elim
  · next hx =>
    split at h'
    · exact h'.elim
    · next hx' =>
      rw [hx, hx']
      trivial

theorem agrees_of_fails {x : Parse α} (h : ∀ p, Fails p x) : Agrees R x :=
  fun p p' _ => agreeAt_of_fails (h p) (h p')

/-- A computation that fails at every end. -/
theorem agrees_of_inside {x : Parse α} (fails : ∀ p, p.current.kind.isEnd → Fails p x)
    (inside : ∀ p p', p.Inside p' → AgreeAt p p' R x) : Agrees R x := by
  intro p p' h
  cases hp : p.current.kind.isEnd with
  | true => exact agreeAt_of_fails (fails p hp) (fails p' (h.isEnd.trans hp))
  | false => exact inside p p' ⟨h, hp⟩

/-- A computation that does the same at every end. -/
theorem agrees_of_default {x y : Parse α} (default : ∀ p, p.current.kind.isEnd → x p = y p)
    (hy : Agrees R y) (inside : ∀ p p', p.Inside p' → AgreeAt p p' R x) : Agrees R x := by
  intro p p' h
  cases hp : p.current.kind.isEnd with
  | true => exact couples_congr (default p hp) (default p' (h.isEnd.trans hp)) (hy p p' h)
  | false => exact inside p p' ⟨h, hp⟩

/-! ### The basic steps -/

theorem agreeAt_pure {a : α} (h : R p p') : AgreeAt p p' R (pure a) := ⟨rfl, h⟩

theorem agrees_pure {a : α} : Agrees Parser.Unended (pure a) := fun _ _ h => agreeAt_pure h

theorem agreeAt_kind {f : Kind → Parse α} (h : p.Level p')
    (hf : AgreeAt p p' R (f p.current.kind)) : AgreeAt p p' R (kind >>= f) := by
  refine couples_congr (show (kind >>= f) p = f p.current.kind p from rfl) ?_ hf
  show f p'.current.kind p' = _
  rw [h.kind]

/-- A decision that is the same at every end. -/
theorem agrees_kind {f : Kind → Parse α} {y : Parse α} (default : ∀ k, k.isEnd → f k = y)
    (hy : Agrees R y) (inside : ∀ p p', p.Inside p' → AgreeAt p p' R (f p.current.kind)) :
    Agrees R (kind >>= f) :=
  agrees_of_default (fun p hp => congrFun (default _ hp) p) hy fun p p' h =>
    agreeAt_kind h.level (inside p p' h)

theorem agreeAt_place {f : Location → Parse α} (h : p.Inside p')
    (hf : AgreeAt p p' R (f p.current.location)) : AgreeAt p p' R (place >>= f) := by
  refine couples_congr (show (place >>= f) p = f p.current.location p from rfl) ?_ hf
  show f p'.current.location p' = _
  rw [h.current]

/-- A decision that takes no notice of the place and is the same at every end. -/
theorem agrees_place_kind {f : Location → Kind → Parse α} {y : Parse α}
    (default : ∀ place k, k.isEnd → f place k = y) (hy : Agrees R y)
    (inside : ∀ p p', p.Inside p' → AgreeAt p p' R (f p.current.location p.current.kind)) :
    Agrees R (place >>= fun place => kind >>= f place) :=
  agrees_of_default (fun p hp => congrFun (default _ _ hp) p) hy fun p p' h =>
    agreeAt_place h (agreeAt_kind h.level (inside p p' h))

/-- A decision on the state of the parser. -/
theorem agreeAt_get {f : Parser → Parse α} (same : f p' = f p) (h : AgreeAt p p' R (f p)) :
    AgreeAt p p' R (get >>= f) :=
  couples_congr (show (get >>= f) p = f p p from rfl)
    (show (get >>= f) p' = f p p' by rw [← same]; rfl) h

theorem agrees_get {f : Parser → Parse α} (same : ∀ p p', p.Unended p' → f p' = f p)
    (h : ∀ p, Agrees R (f p)) : Agrees R (get >>= f) :=
  fun p p' hp => agreeAt_get (same p p' hp) (h p p p' hp)

/-- Reading the token that is there. -/
theorem agreeAt_advance {f : Unit → Parse α} (h : p.Inside p') (hf : Agrees R (f ())) :
    AgreeAt p p' R (advance >>= f) := by
  refine hf _ _ (h.level.advance ?_).2.2
  intro hk
  have := h.inside
  rw [hk] at this
  cases this

theorem agrees_modify {f : Parser → Parser} (h : ∀ p p', p.Unended p' → R (f p) (f p')) :
    Agrees R (modify f) := fun p p' hp => ⟨rfl, h p p' hp⟩

theorem agrees_note (n : Note) : Agrees Parser.Unended (note n) :=
  agrees_modify fun _ _ h => h.same rfl rfl rfl rfl rfl rfl h.arena h.types

theorem agrees_skipLineEnds : Agrees Parser.Level (modify Parser.skipLineEnds) :=
  agrees_modify fun _ _ h => h.skipLineEnds

theorem agrees_refuse {expected : Expectation} : Agrees R (refuse expected : Parse α) :=
  agrees_of_fails fun _ => fails_refuse

theorem agrees_fail {error : SemanticError} {place : Location} :
    Agrees R (fail error place : Parse α) :=
  agrees_of_fails fun _ => fails_fail

/-- A test that may end a computation. -/
theorem agreeAt_guard {c : Prop} [Decidable c] {x : Parse α} {y : Parse β} (hx : ∀ p, Fails p x)
    (hy : AgreeAt p p' R y) : AgreeAt p p' R (if c then x >>= fun _ => y else y) := by
  split
  · exact agreeAt_of_fails (fails_bind (hx p)) (fails_bind (hx p'))
  · exact hy

theorem agrees_guard {c : Prop} [Decidable c] {x : Parse α} {y : Parse β} (hx : ∀ p, Fails p x)
    (hy : Agrees R y) : Agrees R (if c then x >>= fun _ => y else y) :=
  fun p p' h => agreeAt_guard hx (hy p p' h)

theorem agrees_ite {c : Prop} [Decidable c] {x y : Parse α} (hx : Agrees R x) (hy : Agrees R y) :
    Agrees R (if c then x else y) := by
  split
  · exact hx
  · exact hy

/-- Whether a token that is no end is there. -/
theorem agrees_test {mark : Kind} {x y : Parse α} (hmark : mark.isEnd = false)
    (hx : ∀ p p', p.Inside p' → p.current.kind = mark → AgreeAt p p' R x) (hy : Agrees R y) :
    Agrees R (kind >>= fun k => if k = mark then x else y) := by
  refine agrees_kind (fun k hk => if_neg (Kind.ne_of_isEnd hk hmark)) hy fun p p' h => ?_
  split
  · next hk => exact hx p p' h hk
  · exact hy p p' h.toUnended

theorem agrees_accept? {mark : Kind} (hmark : mark.isEnd = false) :
    Agrees Parser.Unended (accept? mark) :=
  agrees_test hmark (fun _ _ h _ => agreeAt_advance h agrees_pure) agrees_pure

theorem agrees_expect {mark : Kind} {expected : Expectation} (hmark : mark.isEnd = false) :
    Agrees Parser.Unended (expect mark expected) :=
  agrees_test hmark (fun _ _ h _ => agreeAt_advance h agrees_pure) agrees_refuse

theorem fails_expectName {naming : Naming} (h : p.current.kind.isEnd) :
    Fails p (expectName naming) := by
  refine fails_kind ?_
  split
  · next hk =>
    rw [hk] at h
    cases h
  · exact fails_refuse

theorem agrees_expectName {naming : Naming} : Agrees Parser.Unended (expectName naming) := by
  refine agrees_of_inside (fun p hp => fails_expectName hp) fun p p' h => agreeAt_kind h.level ?_
  split
  · exact agreeAt_advance h agrees_pure
  · exact agrees_refuse p p' h.toUnended

/-- A name with its place. -/
theorem agrees_named {naming : Naming} {f : Location → String → Parse α}
    (hf : ∀ place name, Agrees R (f place name)) :
    Agrees R (place >>= fun place => expectName naming >>= f place) :=
  agrees_of_inside (fun _ hp => fails_place fun _ => fails_bind (fails_expectName hp))
    fun p p' h => agreeAt_place h (agreeAt_seq (agrees_expectName p p' h.toUnended) (hf _))

theorem agrees_expectStatementEnd {after : Ending} :
    Agrees Parser.Unended (expectStatementEnd after) :=
  agrees_get (fun _ _ h => by rw [h.atStatementEnd]) fun _ => agrees_ite agrees_refuse agrees_pure

theorem agrees_finishExpr {place : Location} {build : Tag → Expr} :
    Agrees Parser.Unended (finishExpr place build) := by
  intro p p' h
  refine ⟨?_, h.same rfl rfl rfl rfl rfl rfl ?_ h.types⟩
  · rw [h.arena]
  · rw [h.arena]

theorem agrees_finishStmt {place : Location} {build : Tag → Stmt} :
    Agrees Parser.Unended (finishStmt place build) := by
  intro p p' h
  refine ⟨?_, h.same rfl rfl rfl rfl rfl rfl ?_ h.types⟩
  · rw [h.arena]
  · rw [h.arena]

/-! ### Blocks -/

theorem fails_advance {f : Unit → Parse α} (h : Fails p.advance (f ())) :
    Fails p (advance >>= f) := h

/-- Where only a line end is still to be read, no block starts after it. -/
theorem fails_indent_lineEnd {f : Unit → Parse α} {expected : Expectation} (h : p.Unended p')
    (hk : p.current.kind ≠ .endOfLine) (hk' : p'.current.kind = .endOfLine) :
    Fails p'.advance (expect .indent expected >>= f) := by
  rcases h.kind_eq_or with hkind | ⟨n, hkinds, -, hrest⟩
  · exact absurd (hkind.symm.trans hk') hk
  · refine fails_bind (fails_kind ?_)
    rw [(h.advance_lineEnd hkinds hrest).2.kind, if_neg (Parser.isEnd_of_closing hkinds).2.2]
    exact fails_refuse

/-- A line end with the indent of a block after it. -/
theorem agrees_header {expected expected' : Expectation} :
    Agrees Parser.Unended (expect .endOfLine expected >>= fun _ => expect .indent expected') := by
  intro p p' h
  have hfails {q : Parser} (hq : q.current.kind ≠ .endOfLine) :
      Fails q (expect .endOfLine expected >>= fun _ => expect .indent expected') := by
    refine fails_bind (fails_kind ?_)
    rw [if_neg hq]
    exact fails_refuse
  by_cases hk : p.current.kind = .endOfLine
  · have hlevel := h.level_of_endOfLine hk
    refine agreeAt_seq (agreeAt_kind hlevel ?_) fun _ => agrees_expect rfl
    rw [if_pos hk]
    exact ⟨rfl, (hlevel.advance (by rw [hk]; exact Kind.noConfusion)).2.2⟩
  · refine agreeAt_of_fails (hfails hk) ?_
    by_cases hk' : p'.current.kind = .endOfLine
    · have hindent : Fails p'.advance (expect .indent expected' >>= pure) :=
        fails_indent_lineEnd h hk hk'
      rw [bind_pure] at hindent
      rw [expect, bind_assoc]
      refine fails_kind ?_
      rw [if_pos hk']
      exact fails_advance hindent
    · exact hfails hk'

/-- The dedent that ends a block. -/
theorem agreeAt_dedent {f : Unit → Parse α} {expected : Expectation} (h : p.Level p')
    (hf : Agrees R (f ())) : AgreeAt p p' R (expect .dedent expected >>= f) := by
  refine agreeAt_seq (agreeAt_kind h ?_) fun _ => hf
  split
  · next hk => exact ⟨rfl, (h.advance (by rw [hk]; exact Kind.noConfusion)).2.2⟩
  · exact agrees_refuse p p' h.toUnended

end Parse

end Offside
