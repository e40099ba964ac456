import Offside.Proofs.Parser.Frame
import Offside.Proofs.Token.Line

/-!
# Reading by kinds

Whether a construct can be read from here on, and what is left after it, depends on the kinds of
the tokens to come. This is the calculus in which that is said: a parser is known by these kinds
alone, and each basic step takes the first of them away.

## Main definitions

* `Offside.Kind.isEnd`: the end of a line, of a block or of the input.
* `Offside.Parser.kinds`: the kinds of the tokens to come.
* `Offside.Parser.Bounded`: the end of the input comes, and comes last.
* `Offside.Parser.Enough`: a bound on the depth of the recursion that is high enough.
* `Offside.Parse.Succeeds`, `Offside.Parse.Fails`: a computation succeeds, with what is then true,
  or does not.

## Main results

* `Offside.Parse.succeeds_expect`: reading a token that is there.
* `Offside.Parser.bounded_ofLexer`: a parser of a text will find its end.
-/

namespace Offside

/-- The end of a line, of a block or of the input. -/
def Kind.isEnd : Kind → Bool
  | endOfLine | dedent | endOfInput => true
  | _ => false

theorem Kind.eq_of_isEnd {k : Kind} (h : k.isEnd) :
    k = .endOfLine ∨ k = .dedent ∨ k = .endOfInput := by
  unfold Kind.isEnd at h
  split at h
  · exact .inl rfl
  · exact .inr (.inl rfl)
  · exact .inr (.inr rfl)
  · cases h

theorem Kind.ne_of_isEnd {k mark : Kind} (h : k.isEnd) (hmark : mark.isEnd = false) : k ≠ mark := by
  rintro rfl
  rw [h] at hmark
  cases hmark

namespace Parser

/-- The kinds of the tokens from the current one on. -/
def kinds (p : Parser) : List Kind := p.current.kind :: p.rest.map (·.token.kind)

/-- The end of the input comes, and comes last. -/
def Bounded (p : Parser) : Prop :=
  ∃ before, p.kinds = before ++ [.endOfInput] ∧ .endOfInput ∉ before

variable {p : Parser}

@[simp] theorem kinds_ne_nil : p.kinds ≠ [] := List.cons_ne_nil _ _

theorem head?_kinds : p.kinds.head? = some p.current.kind := rfl

theorem current_of_kinds {k : Kind} {K : List Kind} (h : p.kinds = k :: K) : p.current.kind = k :=
  (List.cons.inj h).1

theorem current_congr {q : Parser} (h : p.kinds = q.kinds) : p.current.kind = q.current.kind :=
  current_of_kinds h

theorem length_kinds : p.kinds.length = p.rest.length + 1 := by simp [kinds]

theorem rest_ne_nil_of_kinds {k : Kind} {K : List Kind} (h : p.kinds = k :: K) (hK : K ≠ []) :
    p.rest ≠ [] := by
  rintro he
  exact hK (by simpa [kinds, he] using (List.cons.inj h).2.symm)

theorem kinds_advance {k : Kind} {K : List Kind} (h : p.kinds = k :: K) (hK : K ≠ []) :
    p.advance.kinds = K := by
  have hrest := (List.cons.inj h).2
  rw [advance]
  cases hr : p.rest with
  | nil => exact absurd hr (rest_ne_nil_of_kinds h hK)
  | cons x rest =>
    rw [hr] at hrest
    exact hrest

/-- Only at the end of the input is nothing left. -/
theorem Bounded.advance (h : p.Bounded) (hk : p.current.kind ≠ .endOfInput) :
    p.kinds = p.current.kind :: p.advance.kinds ∧ p.advance.Bounded := by
  obtain ⟨before, hkinds, hbefore⟩ := h
  cases before with
  | nil => exact absurd (current_of_kinds hkinds) hk
  | cons k before =>
    have hrest := kinds_advance (K := before ++ [.endOfInput]) hkinds (by simp)
    rw [hrest, current_of_kinds hkinds, hkinds]
    exact ⟨rfl, before, hrest, fun hmem => hbefore (List.mem_cons_of_mem _ hmem)⟩

theorem Bounded.of_append {q : Parser} {used : List Kind} (h : p.Bounded)
    (hp : p.kinds = used ++ q.kinds) : q.Bounded := by
  obtain ⟨before, hkinds, hbefore⟩ := h
  obtain ⟨a, b, hab⟩ : ∃ a b, q.kinds = a ++ [b] :=
    ⟨_, _, (List.dropLast_concat_getLast kinds_ne_nil).symm⟩
  rw [hp, hab, ← List.append_assoc] at hkinds
  obtain ⟨hl, hr⟩ := List.append_inj' hkinds rfl
  refine ⟨a, by rw [hab, hr], fun hmem => hbefore ?_⟩
  rw [← hl]
  exact List.mem_append_right _ hmem

theorem Bounded.kinds_of_end (h : p.Bounded) (hk : p.current.kind = .endOfInput) :
    p.kinds = [.endOfInput] := by
  obtain ⟨before, hkinds, hbefore⟩ := h
  cases before with
  | nil => exact hkinds
  | cons k before =>
    have hhead : p.current.kind = k := current_of_kinds hkinds
    exact absurd (by rw [← hk, hhead]; exact List.mem_cons_self) hbefore

end Parser

/-! ### Enough steps -/

/-- Enough steps are left to read what is to come, and `slack` more. -/
def Parser.Enough (p : Parser) (slack fuel : Nat) : Prop :=
  stepsPerToken * p.kinds.length + slack ≤ fuel

namespace Parser.Enough

variable {p q : Parser} {slack fuel : Nat}

theorem weaken {less : Nat} (h : p.Enough slack fuel) (hless : less ≤ slack) :
    p.Enough less fuel := by
  rw [Enough] at h ⊢
  omega

theorem mono (h : p.Enough slack fuel) (hle : q.kinds.length ≤ p.kinds.length) :
    q.Enough slack fuel := by
  rw [Enough, stepsPerToken] at h ⊢
  omega

/-- A step that reads nothing. -/
theorem here (h : p.Enough (slack + 1) (fuel + 1)) : p.Enough slack fuel := by
  rw [Enough] at h ⊢
  omega

/-- A token that is read makes up for sixteen steps. -/
theorem later (h : p.Enough slack fuel) (hlt : q.kinds.length < p.kinds.length) :
    q.Enough 16 fuel := by
  rw [Enough, stepsPerToken] at h ⊢
  omega

/-- The same after a step. -/
theorem after (h : p.Enough slack (fuel + 1)) (hlt : q.kinds.length < p.kinds.length) :
    q.Enough 15 fuel := (h.later hlt).here

theorem exists_succ (h : p.Enough slack fuel) : ∃ n, fuel = n + 1 := by
  have := p.length_kinds
  refine ⟨fuel - 1, ?_⟩
  rw [Enough, stepsPerToken] at h
  omega

end Parser.Enough

/-- The bound that a parser starts with is high enough. -/
theorem Parser.enough_fuel (p : Parser) : p.Enough 16 p.fuel := by
  rw [Enough, fuel, length_kinds, stepsPerToken]
  omega

/-! ### The end of the input -/

theorem Lexer.exists_tokens (l : Lexer) :
    ∃ before, l.tokens.map Token.kind = before ++ [.endOfInput] ∧ .endOfInput ∉ before := by
  rw [Lexer.tokens]
  fun_induction Lexer.lexemes l with
  | case1 l h => exact ⟨[], by simp [h], by simp⟩
  | case2 l h ih =>
    obtain ⟨before, hkinds, hbefore⟩ := ih
    refine ⟨l.next.token.kind :: before, by simp [hkinds], ?_⟩
    simpa using ⟨Ne.symm h, hbefore⟩

theorem Parser.kinds_ofLexer (l : Lexer) :
    (Parser.ofLexer l).advance.kinds = l.tokens.map Token.kind := by
  have hkinds : (Parser.ofLexer l).kinds = .endOfLine :: l.tokens.map Token.kind := by
    simp [Parser.kinds, Parser.ofLexer, Parser.beforeFirst, Lexer.tokens]
  refine Parser.kinds_advance hkinds ?_
  simpa [Lexer.tokens] using l.lexemes_ne_nil

/-- A parser on the first token of a text will find the end of the text. -/
theorem Parser.bounded_ofLexer (l : Lexer) : (Parser.ofLexer l).advance.Bounded := by
  obtain ⟨before, hkinds, hbefore⟩ := l.exists_tokens
  exact ⟨before, by rw [Parser.kinds_ofLexer, hkinds], hbefore⟩

/-- So will a parser before the first token. -/
theorem Parser.bounded_beforeFirst (l : Lexer) : (Parser.ofLexer l).Bounded := by
  obtain ⟨before, hkinds, hbefore⟩ := l.exists_tokens
  refine ⟨.endOfLine :: before, ?_, by simpa using hbefore⟩
  rw [Lexer.tokens, List.map_map] at hkinds
  exact congrArg (Kind.endOfLine :: ·) hkinds

/-! ### Success -/

namespace Parse

variable {α β : Type} {p : Parser}

/-- The computation `x`, started in `p`, succeeds, and then `ok` is true. -/
def Succeeds (p : Parser) (x : Parse α) (ok : α → Parser → Prop) : Prop :=
  Yields p x ok fun _ _ => False

/-- Success on a given text can be computed. -/
instance {x : Parse α} {ok : α → Parser → Prop} [∀ a q, Decidable (ok a q)] :
    Decidable (Succeeds p x ok) :=
  match h : x p with
  | .ok a q => decidable_of_iff (ok a q) (by rw [Succeeds, Yields, h])
  | .error _ _ => .isFalse (by rw [Succeeds, Yields, h]; exact id)

/-- The computation `x`, started in `p`, does not succeed. -/
def Fails (p : Parser) (x : Parse α) : Prop := Yields p x (fun _ _ => False) fun _ _ => True

theorem Succeeds.mono {x : Parse α} {ok ok' : α → Parser → Prop} (h : Succeeds p x ok)
    (hok : ∀ a q, ok a q → ok' a q) : Succeeds p x ok' :=
  Yields.mono h hok fun _ _ hbad => hbad

theorem Succeeds.exists {x : Parse α} {ok : α → Parser → Prop} (h : Succeeds p x ok) :
    ∃ a q, x.run p = .ok a q ∧ ok a q := by
  cases hx : x.run p with
  | ok a q => exact ⟨a, q, rfl, Yields.ok h hx⟩
  | error e q => exact (Yields.error h hx).elim

/-- What is known of either outcome is known of a run that succeeds. -/
theorem Succeeds.and_yields {x : Parse α} {ok ok' : α → Parser → Prop}
    {bad : Failure → Parser → Prop} (h : Succeeds p x ok) (hx : Yields p x ok' bad) :
    Succeeds p x fun a q => ok a q ∧ ok' a q := by
  obtain ⟨a, q, hrun, hok⟩ := h.exists
  have hok' := hx.ok hrun
  rw [EStateM.run] at hrun
  rw [Succeeds, Yields]
  rw [hrun]
  exact ⟨hok, hok'⟩

/-- What every run keeps is kept by a run that succeeds. -/
theorem Succeeds.and {x : Parse α} {ok : α → Parser → Prop} {R : Parser → Parser → Prop}
    {Q : α → Prop} (h : Succeeds p x ok) (hx : Ensures R Q x) :
    Succeeds p x fun a q => ok a q ∧ R p q :=
  (h.and_yields (hx p)).mono fun _ _ hok => ⟨hok.1, hok.2.1⟩

theorem succeeds_bind {x : Parse α} {f : α → Parse β} {ok : β → Parser → Prop}
    (h : Succeeds p x fun a q => Succeeds q (f a) ok) : Succeeds p (x >>= f) ok :=
  yields_bind h

theorem succeeds_kind {f : Kind → Parse β} {ok : β → Parser → Prop} {k : Kind} {K : List Kind}
    (hp : p.kinds = k :: K) (h : Succeeds p (f k) ok) : Succeeds p (kind >>= f) ok := by
  obtain rfl := Parser.current_of_kinds hp
  exact h

theorem succeeds_place {f : Location → Parse β} {ok : β → Parser → Prop}
    (h : ∀ place, Succeeds p (f place) ok) : Succeeds p (place >>= f) ok := h _

theorem succeeds_advance {f : Unit → Parse β} {ok : β → Parser → Prop} {k : Kind} {K : List Kind}
    (hp : p.kinds = k :: K) (hK : K ≠ [])
    (h : ∀ q, q.kinds = K → q.afterDedent = decide (k = .dedent) → Succeeds q (f ()) ok) :
    Succeeds p (advance >>= f) ok := by
  refine h p.advance (Parser.kinds_advance hp hK) ?_
  rw [Parser.afterDedent_advance, Parser.current_of_kinds hp]

/-- A token that is there is left behind. -/
theorem succeeds_expect_advance {f : Unit → Parse β} {ok : β → Parser → Prop} {mark : Kind}
    {expected : Expectation} {K : List Kind} (hp : p.kinds = mark :: K)
    (h : Succeeds p.advance (f ()) ok) : Succeeds p (expect mark expected >>= f) ok := by
  refine succeeds_bind (succeeds_kind hp ?_)
  rw [if_pos rfl]
  exact h

theorem succeeds_expect {f : Unit → Parse β} {ok : β → Parser → Prop} {mark : Kind}
    {expected : Expectation} {K : List Kind} (hp : p.kinds = mark :: K) (hK : K ≠ [])
    (h : ∀ q, q.kinds = K → q.afterDedent = decide (mark = .dedent) → Succeeds q (f ()) ok) :
    Succeeds p (expect mark expected >>= f) ok := by
  refine succeeds_expect_advance hp (h p.advance (Parser.kinds_advance hp hK) ?_)
  rw [Parser.afterDedent_advance, Parser.current_of_kinds hp]

theorem succeeds_expectName_advance {f : String → Parse β} {ok : β → Parser → Prop} {name : String}
    {naming : Naming} {K : List Kind} (hp : p.kinds = .identifier name :: K)
    (h : Succeeds p.advance (f name) ok) : Succeeds p (expectName naming >>= f) ok :=
  succeeds_bind (succeeds_kind hp h)

theorem succeeds_expectName {f : String → Parse β} {ok : β → Parser → Prop} {name : String}
    {naming : Naming} {K : List Kind} (hp : p.kinds = .identifier name :: K) (hK : K ≠ [])
    (h : ∀ q, q.kinds = K → q.afterDedent = false → Succeeds q (f name) ok) :
    Succeeds p (expectName naming >>= f) ok := by
  refine succeeds_expectName_advance hp (h p.advance (Parser.kinds_advance hp hK) ?_)
  rw [Parser.afterDedent_advance, Parser.current_of_kinds hp]
  rfl

/-- An optional token that is there. -/
theorem succeeds_accept?_of_eq {f : Bool → Parse β} {ok : β → Parser → Prop} {mark : Kind}
    {K : List Kind} (hp : p.kinds = mark :: K) (hK : K ≠ [])
    (h : ∀ q, q.kinds = K → Succeeds q (f true) ok) : Succeeds p (accept? mark >>= f) ok := by
  refine succeeds_bind (succeeds_kind hp ?_)
  rw [if_pos rfl]
  exact h p.advance (Parser.kinds_advance hp hK)

/-- An optional token that is not there. -/
theorem succeeds_accept?_of_ne {f : Bool → Parse β} {ok : β → Parser → Prop} {mark k : Kind}
    {K : List Kind} (hp : p.kinds = k :: K) (hk : k ≠ mark) (h : Succeeds p (f false) ok) :
    Succeeds p (accept? mark >>= f) ok := by
  refine succeeds_bind (succeeds_kind hp ?_)
  rw [if_neg hk]
  exact h

theorem succeeds_finishStmt {place : Location} {build : Tag → Stmt} {ok : Stmt → Parser → Prop}
    (h : ∀ tag q, q.kinds = p.kinds → q.afterDedent = p.afterDedent → ok (build tag) q) :
    Succeeds p (finishStmt place build) ok := h _ _ rfl rfl

theorem fails_bind {x : Parse α} {f : α → Parse β} (h : Fails p x) : Fails p (x >>= f) :=
  yields_bind (Yields.mono h (fun _ _ hf => hf.elim) fun _ _ hbad => hbad)

theorem fails_kind {f : Kind → Parse β} (h : Fails p (f p.current.kind)) :
    Fails p (kind >>= f) := h

theorem fails_place {f : Location → Parse β} (h : ∀ place, Fails p (f place)) :
    Fails p (place >>= f) := h _

theorem fails_refuse {expected : Expectation} : Fails p (refuse expected : Parse α) := by
  show Yields p (if p.current.kind.isInvalid then _ else _) _ _
  split <;> exact trivial

theorem fails_fail {error : SemanticError} {place : Location} :
    Fails p (fail error place : Parse α) := trivial

theorem Fails.not_ok {x : Parse α} (h : Fails p x) {a : α} {q : Parser} : x.run p ≠ .ok a q :=
  fun hx => Yields.ok h hx

end Parse

end Offside
