import Offside.Proofs.Parser.Depth
import Offside.Proofs.Parser.Elsewhere

/-!
# Statements before a branch

A statement that is read to the end of a line may also stand before a branch of an `if` around it.
It then either leaves the branch to that `if`, or the last `if` in it that has no other branch takes
the branch. Which of the two it is can be told from the statement alone, and so can the tree that it
has once it has taken a branch: what matters of the branch is what it is read as.

A bare `return` is an exception. It ends at the end of a line, but not before a branch.

## Main definitions

* `Offside.Parse.OneLine`: the tokens of a statement on one line.
* `Offside.Parse.ReadsBranch`: tokens that are read as the other branch of an `if`.
* `Offside.Parse.Leaves`, `Offside.Parse.AbsorbsAs`: tokens before which a branch is left, or taken.
* `Offside.Parse.Wraps`: a construct around another one.
* `Offside.Parse.Takes`: bodies that make up a statement with a branch behind them.

## Main results

* `Offside.Parse.dangles_statement`: statements on one line leave a branch or take it.
* `Offside.Parse.Dangles.takes`: so does an `if` with such a body.
-/

namespace Offside.Parse

variable {α β γ δ σ ε : Type} {bound fuel : Nat} {p q : Parser} {used before : List Kind}

/-! ### Tokens that were read -/

/-- The tokens of a statement on one line that does not end in a bare `return`. -/
structure OneLine (used : List Kind) : Prop where
  plain : ∀ k ∈ used, k.isPlain
  last : used.getLast? ≠ some (.keyword .returnWord)

theorem OneLine.of_append (h : OneLine (before ++ used)) : OneLine used where
  plain k hk := h.plain k (List.mem_append_right _ hk)
  last hlast := h.last (by rw [List.getLast?_append, hlast]; rfl)

private theorem head?_of_used {K : List Kind} (hp : p.kinds = used ++ K) (hne : used ≠ []) :
    used.head? = some p.current.kind := by
  obtain ⟨u, us, rfl⟩ := List.exists_cons_of_ne_nil hne
  rw [Parser.current_of_kinds hp]
  rfl

/-- What follows the tokens does not matter for the first one. -/
private theorem head?_append_of_used {K K' : List Kind} (hp : p.kinds = used ++ K)
    (hne : used ≠ []) : (used ++ K').head? = p.kinds.head? := by
  rw [hp, List.head?_append, List.head?_append, head?_of_used hp hne]
  rfl

/-- The first of the tokens is the same. -/
private theorem current_of_used {K after : List Kind} {p' : Parser} (hp : p.kinds = used ++ K)
    (hp' : p'.kinds = used ++ after) (hne : used ≠ []) :
    p'.current.kind = p.current.kind := by
  obtain ⟨u, us, rfl⟩ := List.exists_cons_of_ne_nil hne
  rw [Parser.current_of_kinds hp, Parser.current_of_kinds hp']

/-- A construct that has a token has one whatever the bound under which it was read. -/
theorem used_ne_nil {view : α → γ} {y : Nat → Parse α} {slack : Nat}
    (hy : ∀ n, fuel ≤ n → Repeats view (y fuel) (y n))
    (hfits : ∀ n, p.Enough slack n → Fits p 1 (y n)) {a : α} (hp : p.Bounded)
    (hrun : (y fuel).run p = .ok a q) (hkinds : p.kinds = used ++ q.kinds) : used ≠ [] := by
  rintro rfl
  have hle : fuel ≤ stepsPerToken * p.kinds.length + slack + fuel := Nat.le_add_left _ _
  have hagain := RepeatsFrom.copy (hy _ hle _) hp hrun hkinds hkinds rfl rfl
  obtain ⟨a', r, hrun', -, hr, -⟩ := hagain.exists
  have hlength := ((hfits _ (Nat.le_add_right _ _)).ok hrun').length
  rw [hr, hkinds, List.nil_append] at hlength
  omega

/-- What was read in three parts. -/
private theorem used_eq_append {p₁ p₂ : Parser} {used₀ used₁ used₂ : List Kind}
    (h₀ : p.kinds = used₀ ++ p₁.kinds) (h₁ : p₁.kinds = used₁ ++ p₂.kinds)
    (h₂ : p₂.kinds = used₂ ++ q.kinds) (h : p.kinds = used ++ q.kinds) :
    used = used₀ ++ (used₁ ++ used₂) := by
  rw [h₀, h₁, h₂, ← List.append_assoc, ← List.append_assoc] at h
  rw [← List.append_assoc]
  exact (List.append_cancel_right h).symm

/-! ### Branches -/

/-- The first of the tokens is of one of the kinds `kinds`. -/
def StartsWith (kinds : Kind → Bool) (ks : List Kind) : Prop := ∃ k, ks.head? = some k ∧ kinds k

theorem StartsWith.mono {kinds kinds' : Kind → Bool} {ks : List Kind} (h : StartsWith kinds ks)
    (hkinds : ∀ k, kinds k → kinds' k) : StartsWith kinds' ks :=
  h.imp fun k hk => ⟨hk.1, hkinds k hk.2⟩

theorem StartsWith.ne_nil {kinds : Kind → Bool} {ks : List Kind} (h : StartsWith kinds ks) :
    ks ≠ [] := by
  rintro rfl
  obtain ⟨k, hk, -⟩ := h
  cases hk

/-- No branch starts at the end of a line. -/
theorem StartsWith.not_isBranch {ks : List Kind} (h : StartsWith Kind.isEnd ks) :
    StartsWith (!·.isBranch) ks :=
  h.mono fun _ hk => by rw [Kind.isBranch_of_isEnd hk]; rfl

/-- The tokens `ks` are read as the other branch `other` of an `if`, under a bound of `least` or
more, and the tokens `after` follow. -/
structure ReadsBranch (least : Nat) (ks : List Kind) (other : Suite) (after : List Kind) :
    Prop where
  starts : StartsWith Kind.isBranch ks
  reads {p : Parser} {n : Nat} (hp : p.kinds = ks) (hn : least ≤ n) :
    Succeeds p (elseSuite n) fun s q => Suite.eraseElse s = some other ∧ q.kinds = after

theorem ReadsBranch.mono {least least' : Nat} {ks after : List Kind} {other : Suite}
    (h : ReadsBranch least ks other after) (hle : least ≤ least') :
    ReadsBranch least' ks other after where
  starts := h.starts
  reads hp hn := h.reads hp (Nat.le_trans hle hn)

/-- The tokens `used` are read as `c` before tokens of the kinds `stop`, which are left. -/
def Leaves (stop : Kind → Bool) (bound : Nat) (y : Nat → Parse α) (view : α → γ) (used : List Kind)
    (c : γ) : Prop :=
  ∀ ⦃n : Nat⦄ ⦃p : Parser⦄ ⦃after : List Kind⦄, bound ≤ n → p.kinds = used ++ after →
    StartsWith stop after → Succeeds p (y n) fun a q => view a = c ∧ q.kinds = after

/-- The tokens `used` are read together with a branch behind them, as `complete` of the branch, if
no other one follows. -/
def AbsorbsAs (bound : Nat) (y : Nat → Parse α) (view : α → γ) (used : List Kind)
    (complete : Suite → γ) : Prop :=
  ∀ ⦃least n : Nat⦄ ⦃p : Parser⦄ ⦃ks after : List Kind⦄ ⦃other : Suite⦄, bound + least ≤ n →
    ReadsBranch least ks other after → StartsWith (!·.isBranch) after →
    p.kinds = used ++ ks → Succeeds p (y n) fun a q => view a = complete other ∧ q.kinds = after

/-- The tokens `used` are read as `c` before the end of a line. Before a branch they are read so as
well, or they take the branch. -/
def Dangles (bound : Nat) (y : Nat → Parse α) (view : α → γ) (used : List Kind) (c : γ) : Prop :=
  Leaves Kind.endsStmt bound y view used c ∨
    Leaves Kind.isEnd bound y view used c ∧ ∃ complete, AbsorbsAs bound y view used complete

/-- Around what `y` reads from a token of kind `k` on, `z` reads only the tokens `before`, and it
makes `wrap c` of what is read as `c`. -/
def Wraps (bound : Nat) (y : Nat → Parse α) (view : α → γ) (z : Nat → Parse β) (view' : β → δ)
    (before : List Kind) (k : Kind) (wrap : γ → δ) : Prop :=
  ∀ ⦃n : Nat⦄ ⦃p : Parser⦄ ⦃K K' : List Kind⦄ ⦃c : γ⦄, bound ≤ n → p.kinds = before ++ K →
    K.head? = some k →
    (∀ q : Parser, q.kinds = K → Succeeds q (y n) fun a r => view a = c ∧ r.kinds = K') →
    Succeeds p (z (n + 1)) fun b r => view' b = wrap c ∧ r.kinds = K'

section

variable {y : Nat → Parse α} {view : α → γ} {z : Nat → Parse β} {view' : β → δ} {k : Kind}

theorem Leaves.mono {stop stop' : Kind → Bool} {c : γ} (h : Leaves stop bound y view used c)
    (hstop : ∀ k, stop' k → stop k) : Leaves stop' bound y view used c :=
  fun _ _ _ hn hp hafter => h hn hp (hafter.mono hstop)

/-- In either case the tokens are read before the end of a line. -/
theorem Dangles.leaves {c : γ} (h : Dangles bound y view used c) :
    Leaves Kind.isEnd bound y view used c :=
  h.elim (fun h => h.mono fun _ hk => Bool.or_eq_true_iff.2 (.inl hk)) And.left

theorem Leaves.wrap {stop : Kind → Bool} {c : γ} {wrap : γ → δ}
    (h : Leaves stop bound y view used c)
    (hwraps : Wraps bound y view z view' before k wrap) (hk : used.head? = some k) :
    Leaves stop (bound + 1) z view' (before ++ used) (wrap c) := by
  intro n p after hn hp hstop
  obtain ⟨n, rfl⟩ : ∃ m, n = m + 1 := ⟨n - 1, by omega⟩
  refine hwraps (by omega) (by rw [hp, List.append_assoc]) ?_ fun q hq => h (by omega) hq hstop
  rw [List.head?_append, hk]
  rfl

/-- A construct around another one does with a branch what that one does. -/
theorem Dangles.wrap {c : γ} {wrap : γ → δ} (h : Dangles bound y view used c)
    (hwraps : Wraps bound y view z view' before k wrap) (hk : used.head? = some k) :
    Dangles (bound + 1) z view' (before ++ used) (wrap c) := by
  rcases h with hleaves | ⟨hleaves, complete, habsorbs⟩
  · exact .inl (hleaves.wrap hwraps hk)
  · refine .inr ⟨hleaves.wrap hwraps hk, wrap ∘ complete, ?_⟩
    intro least n p ks after other hn hreads hstop hp
    obtain ⟨n, rfl⟩ : ∃ m, n = m + 1 := ⟨n - 1, by omega⟩
    refine hwraps (by omega) (by rw [hp, List.append_assoc]) ?_ fun q hq => ?_
    · rw [List.head?_append, hk]
      rfl
    · exact habsorbs (by omega) hreads hstop hq

/-- What is read before the end of a line in the same way as before a branch leaves the branch. -/
theorem leaves_of_transfers {x : Nat → Location → Parse β} {start : Location} {b : β}
    (hx : ∀ n start', bound ≤ n →
      TransfersFrom Kind.endsStmt p.current.kind view' (x bound start) (x n start'))
    (hz : ∀ (n : Nat) (r : Parser) (ok : β → Parser → Prop), r.current.kind = p.current.kind →
      (∀ start, Succeeds r (x n start) ok) → Succeeds r (z (n + 1)) ok)
    (hp : p.Bounded) (hrun : (x bound start).run p = .ok b q) (hkinds : p.kinds = used ++ q.kinds)
    (hne : used ≠ []) (hend : q.current.kind.isEnd) :
    Leaves Kind.endsStmt (bound + 1) z view' used (view' b) := by
  intro n p' after hn hp' hstop
  obtain ⟨n, rfl⟩ : ∃ m, n = m + 1 := ⟨n - 1, by omega⟩
  refine hz n p' _ (current_of_used hkinds hp' hne) fun start => ?_
  refine ((hx n start (by omega)).copy hp hrun hkinds hp' (.inr ⟨_, rfl, hend, hstop⟩)).mono ?_
  exact fun _ _ h => ⟨h.1, h.2.1⟩

/-- A header that was read before another construct, and nothing behind that, wrap it. -/
theorem wraps_of_transfers {x : Nat → Parse σ} {f : Location → σ → α → Parse β} {viewσ : σ → ε}
    {s : σ} {wrap : γ → δ}
    (hx : ∀ n, bound ≤ n → TransfersFrom Kind.endsStmt p.current.kind viewσ (x bound) (x n))
    (hz : ∀ (n : Nat) (r : Parser) (ok : β → Parser → Prop), r.current.kind = p.current.kind →
      (∀ start, Succeeds r (x n >>= fun s => y n >>= f start s) ok) → Succeeds r (z (n + 1)) ok)
    (hf : ∀ start s' a (r : Parser), viewσ s' = viewσ s → Succeeds r (f start s' a) fun b r' =>
      view' b = wrap (view a) ∧ r'.kinds = r.kinds)
    (hp : p.Bounded) (hrun : (x bound).run p = .ok s q) (hkinds : p.kinds = before ++ q.kinds)
    (hne : before ≠ []) :
    Wraps bound y view z view' before q.current.kind wrap := by
  intro n p' K K' c hn hp' hK hy
  refine hz n p' _ (current_of_used hkinds hp' hne) fun start => ?_
  refine succeeds_bind (((hx n hn).copy hp hrun hkinds hp' (.inl ?_)).mono ?_)
  · rw [hK, Parser.head?_kinds]
  · rintro s' r ⟨hs', hr, -⟩
    refine succeeds_bind ((hy r hr).mono ?_)
    rintro a t ⟨rfl, ht⟩
    exact (hf start s' a t hs').mono fun b r' hb => ⟨hb.1, hb.2.trans ht⟩

/-- So does a construct before which nothing stands. -/
theorem wraps_of_here {f : Location → α → Parse β} {wrap : γ → δ}
    (hz : ∀ (n : Nat) (r : Parser) (ok : β → Parser → Prop), r.current.kind = k →
      (∀ start, Succeeds r (y n >>= f start) ok) → Succeeds r (z (n + 1)) ok)
    (hf : ∀ start a (r : Parser), Succeeds r (f start a) fun b r' =>
      view' b = wrap (view a) ∧ r'.kinds = r.kinds) :
    Wraps bound y view z view' [] k wrap := by
  intro n p K K' c hn hp hK hy
  have hk : p.current.kind = k := by
    rw [List.nil_append] at hp
    rw [← hp, Parser.head?_kinds] at hK
    exact Option.some.inj hK
  refine hz n p _ hk fun start => succeeds_bind ((hy p hp).mono ?_)
  rintro a t ⟨rfl, ht⟩
  exact (hf start a t).mono fun b r' hb => ⟨hb.1, hb.2.trans ht⟩

/-- A body on one line is a statement. -/
theorem wraps_suite {u : Kind} (hu : u ≠ .endOfLine) :
    Wraps bound statement Stmt.erase suite Suite.erase [] u fun c => .mk .erased [c] := by
  refine wraps_of_here (f := fun start s => pure (.mk start [s])) (fun n r ok hr h => ?_)
    fun _ _ _ => ⟨rfl, rfl⟩
  rw [suite]
  refine (?_ : Succeeds r (if r.current.kind = .endOfLine then _ else _) _)
  rw [hr, if_neg hu]
  exact succeeds_place h

end

/-! ### Statements -/

/-- What `y` reads to the end of a line, under the bound `fuel`, leaves a branch or takes it. -/
def EndsLine (fuel : Nat) (y : Nat → Parse α) (view : α → γ) : Prop :=
  ∀ ⦃p q : Parser⦄ ⦃a : α⦄ ⦃used : List Kind⦄, p.Bounded → (y fuel).run p = .ok a q →
    p.kinds = used ++ q.kinds → used ≠ [] → q.current.kind.isEnd → OneLine used →
    Dangles fuel y view used (view a)

/-- The first word of a construct with a condition, and the condition. -/
def conditionHeader (after : Header) (fuel : Nat) : Parse Expr := do
  advance
  let condition ← expression fuel
  expectColon after
  return condition

/-- The header of a counting loop with its first word. -/
def rangeHeader (fuel : Nat) : Parse Range := do
  advance
  range fuel

/-- A word with a colon behind it. -/
def wordHeader (after : Header) : Parse Unit := do
  advance
  expectColon after

/-- The end of a loop whose condition comes last. -/
def whileEnd (fuel : Nat) : Parse Expr := do
  expect (.keyword .whileWord) .whileWord
  expression fuel

/-- The lines of a `match`. -/
def matchLines (fuel : Nat) (start : Location) (scrutinee : Expr) : Parse Stmt := do
  expect .indent (.blockStart .cases)
  let arms ← arms fuel []
  if arms.isEmpty then refuse .matchCase
  expect .dedent (.blockEnd .cases)
  finishStmt start (.select · scrutinee arms)

section

variable {n : Nat} {k : Kind} (hk : k.isPlain)
include hk

omit hk in
theorem transfers_conditionRest (hle : fuel ≤ n) (after : Header) :
    Transfers Kind.endsStmt Expr.erase (do
      let condition ← expression fuel
      expectColon after
      return condition) (do
      let condition ← expression n
      expectColon after
      return condition) := by
  refine transfers_bind (transfers_value hle fun _ h => h) fun e e' he => ?_
  exact transfers_bind (transfers_expect rfl) fun _ _ _ _ => transfersFrom_pure he

theorem transfers_conditionHeader (hle : fuel ≤ n) (after : Header) :
    TransfersFrom Kind.endsStmt k Expr.erase (conditionHeader after fuel)
      (conditionHeader after n) :=
  transfersFrom_bind (transfersFrom_advance hk) fun _ _ _ => transfers_conditionRest hle after

theorem transfers_rangeHeader (hle : fuel ≤ n) :
    TransfersFrom Kind.endsStmt k Range.erase (rangeHeader fuel) (rangeHeader n) :=
  transfersFrom_bind (transfersFrom_advance hk) fun _ _ _ => transfers_range hle fun _ h => h

theorem transfers_wordHeader (after : Header) :
    TransfersFrom Kind.endsStmt k (fun _ => ()) (wordHeader after) (wordHeader after) :=
  transfersFrom_bind (transfersFrom_advance hk) fun _ _ _ => transfers_expect rfl

omit hk in
theorem transfers_whileEnd (hle : fuel ≤ n) :
    Transfers Kind.endsStmt Expr.erase (whileEnd fuel) (whileEnd n) :=
  transfers_bind (transfers_expect rfl) fun _ _ _ => transfers_value hle fun _ h => h

/-- What starts with a word has a token. -/
theorem ne_nil_of_advance {view : α → γ} {x : Unit → Parse α} {y : Parse α} {a : α}
    (hpk : p.current.kind = k) (hx : Transfers Kind.endsStmt view (x ()) y) (hp : p.Bounded)
    (hrun : (advance >>= x).run p = .ok a q) (hkinds : p.kinds = used ++ q.kinds) : used ≠ [] := by
  have hne : p.current.kind ≠ .endOfInput := by
    rw [hpk]
    rintro rfl
    cases hk
  obtain ⟨hnext, hbounded⟩ := hp.advance hne
  obtain ⟨_, _, ⟨⟩, hrun⟩ := exists_of_run_bind hrun
  obtain ⟨more, -, hmore, -⟩ := hx _ _ a q hbounded rfl hrun
  rintro rfl
  rw [hmore, hkinds] at hnext
  have hlength := congrArg List.length hnext
  simp only [List.nil_append, List.length_cons, List.length_append] at hlength
  omega

end

theorem run_finishStmt {place : Location} {build : Tag → Stmt} {s : Stmt}
    (h : (finishStmt place build).run p = .ok s q) :
    ∃ tag, s = build tag ∧ q.kinds = p.kinds := by
  cases h
  exact ⟨_, rfl, rfl⟩

/-- Every function that reads a statement, or a part that may be the last one of a statement, leaves
a branch or takes it. -/
private structure StmtDangles (fuel : Nat) : Prop where
  statement : EndsLine fuel statement Stmt.erase
  ifStatement : EndsLine fuel ifStatement Stmt.erase
  elseSuite : EndsLine fuel elseSuite Suite.eraseElse
  suite : EndsLine fuel suite Suite.erase

/-- A construct of a header and another construct does with a branch what that one does. -/
theorem dangles_of_header {y : Nat → Parse α} {view : α → γ} {z : Nat → Parse β} {view' : β → δ}
    (x : Nat → Parse σ) (f : Location → σ → α → Parse β) {viewσ : σ → ε} (wrap : σ → γ → δ) {b : β}
    (start : Location)
    (hy : EndsLine fuel y view) (hrepeats : ∀ n, fuel ≤ n → Repeats view (y fuel) (y n))
    (hfits : ∀ n (r : Parser), r.Bounded → r.Enough 5 n → Fits r 1 (y n))
    (hx : ∀ n, fuel ≤ n → TransfersFrom Kind.endsStmt p.current.kind viewσ (x fuel) (x n))
    (hxne : ∀ s r before, (x fuel).run p = .ok s r → p.kinds = before ++ r.kinds → before ≠ [])
    (hz : ∀ (n : Nat) (r : Parser) (ok : β → Parser → Prop), r.current.kind = p.current.kind →
      (∀ start, Succeeds r (x n >>= fun s => y n >>= f start s) ok) → Succeeds r (z (n + 1)) ok)
    (hf : ∀ start s s' a (r : Parser), viewσ s' = viewσ s → Succeeds r (f start s' a) fun b r' =>
      view' b = wrap s (view a) ∧ r'.kinds = r.kinds)
    (hp : p.Bounded) (hrun : (x fuel >>= fun s => y fuel >>= f start s).run p = .ok b q)
    (hkinds : p.kinds = used ++ q.kinds) (hend : q.current.kind.isEnd) (hline : OneLine used) :
    Dangles (fuel + 1) z view' used (view' b) := by
  obtain ⟨s, p₁, hxrun, hrun⟩ := exists_of_run_bind hrun
  obtain ⟨a, p₂, hyrun, hrun⟩ := exists_of_run_bind hrun
  obtain ⟨b', q', hfrun, hb, hq⟩ := (hf start s s a p₂ rfl).exists
  rw [hrun] at hfrun
  obtain ⟨rfl, rfl⟩ : b = b' ∧ q = q' := by simpa using hfrun
  obtain ⟨before, -, hbefore, -⟩ := hx fuel (Nat.le_refl _) p s p₁ hp rfl hxrun
  have hp₁ : p₁.Bounded := hp.of_append hbefore
  obtain ⟨more, hmore, -⟩ := hrepeats fuel (Nat.le_refl _) _ p₁ a p₂ hp₁ rfl hyrun
  obtain rfl : used = before ++ more := by
    rw [hbefore, hmore, ← hq, ← List.append_assoc] at hkinds
    exact (List.append_cancel_right hkinds).symm
  have hne := used_ne_nil hrepeats (fun n => hfits n p₁ hp₁) hp₁ hyrun hmore
  have hend₂ : p₂.current.kind.isEnd := Parser.current_congr hq ▸ hend
  rw [hb]
  refine (hy hp₁ hyrun hmore hne hend₂ hline.of_append).wrap ?_ (head?_of_used hmore hne)
  exact wraps_of_transfers hx hz (fun start s' a r hs' => hf start s s' a r hs') hp hxrun hbefore
    (hxne s p₁ before hxrun hbefore)

/-- In the place of a token a branch of its kind is read. -/
private theorem succeeds_place_kind {f : Location → Kind → Parse β} {r : Parser} {k : Kind}
    {ok : β → Parser → Prop} (hr : r.current.kind = k) (h : ∀ start, Succeeds r (f start k) ok) :
    Succeeds r (place >>= fun start => kind >>= f start) ok := by
  obtain rfl := hr
  exact h r.current.location

/-- Where no branch starts there is none. -/
theorem succeeds_elseSuite_none {n : Nat} (hk : p.current.kind.isBranch = false) :
    Succeeds p (elseSuite (n + 1)) fun other q => other = none ∧ q = p := by
  rw [elseSuite]
  refine succeeds_place_kind rfl fun start => ?_
  split
  · next h => rw [h] at hk; cases hk
  · next h => rw [h] at hk; cases hk
  · exact ⟨rfl, rfl⟩

private theorem eq_none_of_isEnd {other : Option Suite} (hend : p.current.kind.isEnd)
    (hrun : (elseSuite fuel).run p = .ok other q) : other = none := by
  cases fuel with
  | zero => exact ((show Fails p (elseSuite 0) from trivial).not_ok hrun).elim
  | succ n =>
    obtain ⟨_, _, hnone, rfl, -⟩ :=
      (succeeds_elseSuite_none (n := n) (Kind.isBranch_of_isEnd hend)).exists
    rw [hrun] at hnone
    cases hnone
    rfl

/-- The body of an `if` with the branches that follow it. -/
def branches (fuel : Nat) (start : Location) (condition : Expr) : Parse Stmt := do
  let body ← suite fuel
  let other ← elseSuite fuel
  finishStmt start (.branch · condition body other)

/-- A body behind which no branch stands. -/
theorem succeeds_branches_none {n : Nat} {start : Location} {e : Expr} {after : List Kind}
    {c : Suite} (hstop : StartsWith (!·.isBranch) after)
    (h : Succeeds p (suite n) fun body q => body.erase = c ∧ q.kinds = after) :
    Succeeds p (branches n start e) fun s q =>
      s.erase = .branch .erased e.erase c none ∧ q.kinds = after := by
  cases n with
  | zero => exact h.elim
  | succ n =>
    refine succeeds_bind (h.mono fun body q hbody => ?_)
    obtain ⟨k, hk, hstop⟩ := hstop
    obtain rfl : q.current.kind = k := by
      rw [← hbody.2, Parser.head?_kinds] at hk
      exact Option.some.inj hk
    refine succeeds_bind ((succeeds_elseSuite_none (by simpa using hstop)).mono ?_)
    rintro _ _ ⟨rfl, rfl⟩
    exact ⟨by simp only [Stmt.erase, Suite.eraseElse, hbody.1], hbody.2⟩

/-- A body and a branch behind it make up the statement `complete` of the condition and the branch,
if the branch ends before a token of one of the kinds `stop`. -/
def Takes (stop : Kind → Bool) (bound : Nat) (used : List Kind) (complete : Expr → Suite → Stmt) :
    Prop :=
  ∀ ⦃least n : Nat⦄ ⦃p : Parser⦄ ⦃ks after : List Kind⦄ ⦃other : Suite⦄ (start : Location)
    (e : Expr), bound + least ≤ n → ReadsBranch least ks other after →
    StartsWith stop after → p.kinds = used ++ ks →
    Succeeds p (branches n start e) fun s q =>
      s.erase = complete e.erase other ∧ q.kinds = after

/-- The branch becomes part of the body, or of the statement. -/
theorem Dangles.takes {c : Suite} (h : Dangles bound suite Suite.erase used c) :
    ∃ complete, Takes (!·.isBranch) bound used complete := by
  rcases h with hleaves | ⟨-, complete, habsorbs⟩
  · refine ⟨fun e other => .branch .erased e c (some other), ?_⟩
    intro least n p ks after other start e hn hreads _ hp
    have hstop : StartsWith Kind.endsStmt ks :=
      hreads.starts.mono fun _ hk => Bool.or_eq_true_iff.2 (.inr hk)
    refine succeeds_bind ((hleaves (by omega) hp hstop).mono fun body q hbody => ?_)
    refine succeeds_bind ((hreads.reads hbody.2 (by omega)).mono fun other' r hother => ?_)
    exact ⟨by simp only [Stmt.erase, hbody.1, hother.1], hother.2⟩
  · refine ⟨fun e other => .branch .erased e (complete other) none, ?_⟩
    intro least n p ks after other start e hn hreads hstop hp
    exact succeeds_branches_none hstop (habsorbs hn hreads hstop hp)

/-- An `if` after the condition that was read in the first place. -/
theorem succeeds_ifStatement {n : Nat} {p₁ p' : Parser} {e : Expr} {K : List Kind}
    {ok : Stmt → Parser → Prop} (hplain : p.current.kind.isPlain) (hp : p.Bounded)
    (hrun : (conditionHeader .ifCondition fuel).run p = .ok e p₁)
    (hkinds : p.kinds = before ++ p₁.kinds) (hn : fuel ≤ n) (hp' : p'.kinds = before ++ K)
    (hK : K.head? = p₁.kinds.head?)
    (h : ∀ start e' r, e'.erase = e.erase → r.kinds = K → r.afterDedent = false →
      Succeeds r (branches n start e') ok) :
    Succeeds p' (ifStatement (n + 1)) ok := by
  have hne :=
    ne_nil_of_advance hplain rfl (transfers_conditionRest (Nat.le_refl _) _) hp hrun hkinds
  rw [ifStatement]
  refine succeeds_place fun start => ?_
  have hcopy := (transfers_conditionHeader hplain hn .ifCondition).copy hp hrun hkinds hp' (.inl hK)
  have hrest : Succeeds p' (conditionHeader .ifCondition n >>= branches n start) ok := by
    refine succeeds_bind (hcopy.mono ?_)
    rintro e' r ⟨he', hr, hdedent⟩
    rw [List.isEmpty_eq_false_iff.2 hne] at hdedent
    exact h start e' r he' hr hdedent
  simpa only [conditionHeader, branches, bind_assoc, pure_bind] using hrest

/-- An `if` behind which no branch stands takes one that does, or its body takes it. -/
private theorem dangles_if_none {p₁ : Parser} {e : Expr} {c : Suite}
    (hplain : p.current.kind.isPlain) (hp : p.Bounded)
    (hheader : (conditionHeader .ifCondition fuel).run p = .ok e p₁)
    (hkinds : p.kinds = before ++ p₁.kinds) (h : Dangles fuel suite Suite.erase used c)
    (hhead : used.head? = some p₁.current.kind) :
    Dangles (fuel + 1) ifStatement Stmt.erase (before ++ used)
      (.branch .erased e.erase c none) := by
  have hstart (K : List Kind) : (used ++ K).head? = p₁.kinds.head? := by
    rw [List.head?_append, hhead, Parser.head?_kinds]
    rfl
  obtain ⟨complete, htakes⟩ := h.takes
  refine .inr ⟨fun n p' after hn hp' hend => ?_, complete e.erase, ?_⟩
  · obtain ⟨n, rfl⟩ : ∃ i, n = i + 1 := ⟨n - 1, by omega⟩
    rw [List.append_assoc] at hp'
    refine succeeds_ifStatement hplain hp hheader hkinds (by omega) hp' (hstart after) ?_
    intro start e' r he' hr _
    rw [← he']
    exact succeeds_branches_none hend.not_isBranch (h.leaves (by omega) hr hend)
  · intro least n p' ks after other hn hreads hstop hp'
    obtain ⟨n, rfl⟩ : ∃ i, n = i + 1 := ⟨n - 1, by omega⟩
    rw [List.append_assoc] at hp'
    refine succeeds_ifStatement hplain hp hheader hkinds (by omega) hp' (hstart ks) ?_
    intro start e' r he' hr _
    rw [← he']
    exact htakes start e' (by omega) hreads hstop hr

/-- The condition and the body of an `if` stand before its other branch. -/
private theorem wraps_if {p₁ p₂ : Parser} {e : Expr} {body : Suite}
    (hplain : p.current.kind.isPlain) (hp : p.Bounded)
    (hheader : (conditionHeader .ifCondition fuel).run p = .ok e p₁)
    (hkinds : p.kinds = before ++ p₁.kinds) (hdedent : p₁.afterDedent = false)
    (hbody : (suite fuel).run p₁ = .ok body p₂) (hused : p₁.kinds = used ++ p₂.kinds)
    (hne : used ≠ []) :
    Wraps fuel elseSuite Suite.eraseElse ifStatement Stmt.erase (before ++ used) p₂.current.kind
      fun c => .branch .erased e.erase body.erase c := by
  intro n p' K K' c hn hp' hK hy
  rw [List.append_assoc] at hp'
  refine succeeds_ifStatement hplain hp hheader hkinds hn hp' (head?_append_of_used hused hne) ?_
  intro start e' r he' hr hr'
  refine succeeds_bind ((RepeatsFrom.copy (repeats_suite hn _) (hp.of_append hkinds) hbody hused hr
    hK (hr'.trans hdedent.symm)).mono ?_)
  rintro body' r' ⟨hbody', hr', -⟩
  refine succeeds_bind ((hy r' hr').mono fun other' r'' hother' => ?_)
  exact ⟨by simp only [Stmt.erase, he', hbody', hother'.1], hother'.2⟩

private theorem whileEnd_ne_nil {e : Expr} (hrun : (whileEnd fuel).run p = .ok e q)
    (hkinds : p.kinds = used ++ q.kinds) (hend : q.current.kind.isEnd) : used ≠ [] := by
  rintro rfl
  have hend : p.current.kind.isEnd := Parser.current_congr hkinds ▸ hend
  refine (show Fails p (whileEnd fuel) from fails_bind (fails_kind ?_)).not_ok hrun
  rw [if_neg (Kind.ne_of_isEnd hend rfl)]
  exact fails_refuse

/-- A loop whose condition comes last leaves a branch behind it. -/
private theorem leaves_doWhile (hpk : p.current.kind = .keyword .doWord) {start : Location}
    {s : Stmt} (hp : p.Bounded)
    (hrun : (wordHeader .doWord >>= fun _ => suite fuel >>= fun body => whileEnd fuel >>=
      fun e => finishStmt start (.doWhile · body e)).run p = .ok s q)
    (hkinds : p.kinds = used ++ q.kinds) (hend : q.current.kind.isEnd) :
    Leaves Kind.endsStmt (fuel + 1) statement Stmt.erase used s.erase := by
  have hplain : p.current.kind.isPlain := by rw [hpk]; rfl
  obtain ⟨_, p₁, hheader, hrun⟩ := exists_of_run_bind hrun
  obtain ⟨body, p₂, hbody, hrun⟩ := exists_of_run_bind hrun
  obtain ⟨e, p₃, hvalue, hrun⟩ := exists_of_run_bind hrun
  obtain ⟨tag, rfl, hq⟩ := run_finishStmt hrun
  obtain ⟨u₀, -, h₀, hdedent, -⟩ :=
    transfers_wordHeader hplain .doWord p _ p₁ hp rfl hheader
  have hp₁ : p₁.Bounded := hp.of_append h₀
  obtain ⟨u₁, h₁, -⟩ := repeats_suite (Nat.le_refl fuel) _ p₁ body p₂ hp₁ rfl hbody
  have hp₂ : p₂.Bounded := hp₁.of_append h₁
  obtain ⟨u₂, -, h₂, -⟩ := transfers_whileEnd (Nat.le_refl fuel) _ p₂ e p₃ hp₂ rfl hvalue
  have hne₀ := ne_nil_of_advance hplain rfl (transfers_expect rfl) hp hheader h₀
  have hend₃ : p₃.current.kind.isEnd := Parser.current_congr hq ▸ hend
  -- The end of the loop starts with a word, which tells the body that a branch is not its own.
  have hne₂ : u₂ ≠ [] := whileEnd_ne_nil hvalue h₂ hend₃
  obtain rfl : used = u₀ ++ (u₁ ++ u₂) := used_eq_append h₀ h₁ h₂ (hq ▸ hkinds)
  have hhead₂ (K : List Kind) : (u₂ ++ K).head? = p₂.kinds.head? := head?_append_of_used h₂ hne₂
  have hhead (K : List Kind) : (u₁ ++ (u₂ ++ K)).head? = p₁.kinds.head? := by
    rw [h₁, List.head?_append, hhead₂, ← List.head?_append]
  intro n p' after hn hp' hstop
  obtain ⟨n, rfl⟩ : ∃ m, n = m + 1 := ⟨n - 1, by omega⟩
  have hn : fuel ≤ n := by omega
  have hne : u₀ ++ (u₁ ++ u₂) ≠ [] := by simp [hne₀]
  rw [statement]
  refine succeeds_place_kind ((current_of_used hkinds hp' hne).trans hpk) fun start' => ?_
  rw [List.append_assoc, List.append_assoc] at hp'
  suffices h : Succeeds p' (wordHeader .doWord >>= fun _ => suite n >>= fun body' => whileEnd n >>=
      fun e' => finishStmt start' (.doWhile · body' e')) fun t r =>
        t.erase = (Stmt.doWhile tag body e).erase ∧ r.kinds = after by
    simpa only [wordHeader, whileEnd, bind_assoc] using h
  refine succeeds_bind (((transfers_wordHeader hplain _).copy hp hheader h₀ hp'
    (.inl (hhead after))).mono ?_)
  rintro _ r ⟨-, hr, hdedent'⟩
  rw [List.isEmpty_eq_false_iff.2 hne₀, Bool.false_and] at hdedent hdedent'
  refine succeeds_bind ((RepeatsFrom.copy (repeats_suite hn _) hp₁ hbody h₁ hr (hhead₂ after)
    (hdedent'.trans hdedent.symm)).mono ?_)
  rintro body' r' ⟨hbody', hr', -⟩
  refine succeeds_bind ((TransfersFrom.copy (transfers_whileEnd hn _) hp₂ hvalue h₂ hr'
    (.inr ⟨_, rfl, hend₃, hstop⟩)).mono ?_)
  rintro e' r'' ⟨he', hr'', -⟩
  exact ⟨by simp only [Stmt.erase, hbody', he'], hr''⟩

/-- A `match` does not stand on one line. -/
private theorem not_oneLine_match {start : Location} {s : Stmt} (hp : p.Bounded)
    (hplain : p.current.kind.isPlain)
    (hrun : (conditionHeader .matchExpression fuel >>= fun e =>
      expect .endOfLine (.lineEnd .matchHeader) >>= fun _ =>
        matchLines fuel start e).run p = .ok s q)
    (hkinds : p.kinds = used ++ q.kinds) : ¬OneLine used := by
  intro hline
  obtain ⟨e, p₁, hheader, hrun⟩ := exists_of_run_bind hrun
  obtain ⟨u₀, -, h₀, -⟩ :=
    transfers_conditionHeader hplain (Nat.le_refl fuel) _ p e p₁ hp rfl hheader
  have hp₁ : p₁.Bounded := hp.of_append h₀
  obtain ⟨_, p₂, hexpect, hrun⟩ := exists_of_run_bind hrun
  obtain ⟨_, _, ⟨⟩, hexpect⟩ := exists_of_run_bind hexpect
  split at hexpect
  · next hk =>
    cases hexpect
    obtain ⟨h₁, hp₂⟩ := hp₁.advance (by rw [hk]; exact Kind.noConfusion)
    have hlines : Repeats Stmt.erase (matchLines fuel start e) (matchLines fuel start e) := by
      refine repeats_bind (repeats_expect Kind.noConfusion) fun _ _ _ => ?_
      refine repeats_bind (repeats_arms (Nat.le_refl _)) fun arms arms' harms => ?_
      rw [Arm.isEmpty_congr harms]
      refine repeats_guard (repeats_bind (repeats_expect Kind.noConfusion) fun _ _ _ _ => ?_)
      exact repeatsFrom_finishStmt fun _ _ => by simp only [Stmt.erase, harms]
    obtain ⟨u₂, h₂, -⟩ := hlines _ _ _ _ hp₂ rfl hrun
    obtain rfl : used = u₀ ++ (.endOfLine :: u₂) := by
      rw [h₀, h₁, h₂, hk, ← List.cons_append, ← List.append_assoc] at hkinds
      exact (List.append_cancel_right hkinds).symm
    cases hline.plain .endOfLine (by simp)
  · exact fails_refuse.not_ok hexpect

/-- A value behind `return` is read as such. -/
private theorem succeeds_returnStatement {n : Nat} {start : Location} {ok : Stmt → Parser → Prop}
    (hdedent : p.afterDedent = false)
    (h : Succeeds p (expression n >>= fun e => finishStmt start (.ret · (some e))) ok) :
    Succeeds p (returnStatement n start) ok := by
  obtain ⟨s, q, hrun, -⟩ := h.exists
  obtain ⟨e, q', hvalue, -⟩ := exists_of_run_bind hrun
  have hstarts : startsExpr p.current.kind ≠ false :=
    fun hno => (fails_expression hno n).not_ok hvalue
  have hne {k : Kind} (hk : startsExpr k = false) : p.current.kind ≠ k := by
    rintro rfl
    exact hstarts hk
  have hend : p.atStatementEnd = false := by
    rw [Parser.atStatementEnd, hdedent, decide_eq_false (hne rfl), decide_eq_false (hne rfl),
      decide_eq_false (hne rfl)]
    rfl
  refine (?_ : Succeeds p (if p.atStatementEnd then _ else _) ok)
  rw [hend]
  exact h

/-- A `return` leaves a branch behind it, if it has a value. -/
private theorem leaves_return (hpk : p.current.kind = .keyword .returnWord) {start : Location}
    {s : Stmt} (hp : p.Bounded)
    (hrun : (advance >>= fun _ => returnStatement fuel start).run p = .ok s q)
    (hkinds : p.kinds = used ++ q.kinds) (hne : used ≠ []) (hend : q.current.kind.isEnd)
    (hline : OneLine used) : Leaves Kind.endsStmt (fuel + 1) statement Stmt.erase used s.erase := by
  have hrun' : (returnStatement fuel start).run p.advance = .ok s q := hrun
  rw [returnStatement] at hrun'
  obtain ⟨_, _, ⟨⟩, hrun'⟩ := exists_of_run_bind hrun'
  split at hrun'
  · -- A bare `return` is the last token of the line.
    obtain ⟨_, -, hq⟩ := run_finishStmt hrun'
    obtain ⟨h₀, -⟩ := hp.advance (by rw [hpk]; exact Kind.noConfusion)
    obtain rfl : used = [.keyword .returnWord] := by
      rw [h₀, hpk, ← hq] at hkinds
      have hkinds : [.keyword .returnWord] ++ q.kinds = used ++ q.kinds := hkinds
      exact (List.append_cancel_right hkinds).symm
    exact absurd rfl hline.last
  · refine leaves_of_transfers (x := fun n start => advance >>= fun _ => expression n >>= fun e =>
        finishStmt start (.ret · (some e))) ?_ ?_ hp hrun' hkinds hne hend
    · intro n start' hn
      rw [hpk]
      refine transfersFrom_bind (transfersFrom_advance rfl) fun _ _ _ => ?_
      refine transfers_bind (transfers_value hn fun _ h => h) fun e e' he _ => ?_
      exact transfersFrom_finishStmt fun _ _ => by simp only [Stmt.erase, Option.map, he]
    · intro n r ok hr h
      rw [statement]
      refine succeeds_place_kind (hr.trans hpk) fun start' => ?_
      refine succeeds_returnStatement ?_ (h start')
      rw [Parser.afterDedent_advance, hr, hpk]
      rfl

section

variable {s : Stmt} (hp : p.Bounded) (hkinds : p.kinds = used ++ q.kinds) (hne : used ≠ [])
  (hend : q.current.kind.isEnd)
include hp hkinds hne hend

private theorem leaves_print (hpk : p.current.kind = .keyword .printWord)
    (hrun : (advance >>= fun _ => printStatement fuel p.current.location).run p = .ok s q) :
    Leaves Kind.endsStmt (fuel + 1) statement Stmt.erase used s.erase := by
  refine leaves_of_transfers (x := fun n start => advance >>= fun _ => printStatement n start)
    ?_ ?_ hp hrun hkinds hne hend
  · intro n start' hn
    rw [hpk]
    exact transfersFrom_bind (transfersFrom_advance rfl) fun _ _ _ =>
      transfers_printStatement hn (fun _ h => h) _ start'
  · intro n r ok hr h
    rw [statement]
    exact succeeds_place_kind (hr.trans hpk) h

/-- A jump is read alike at the end of a line and before a branch. -/
private theorem leaves_jump {j : Jump} (hplain : p.current.kind.isPlain)
    (hz : ∀ (n : Nat) (r : Parser) (ok : Stmt → Parser → Prop), r.current.kind = p.current.kind →
      (∀ start, Succeeds r (advance >>= fun _ => finishStmt start (.jump · j)) ok) →
        Succeeds r (statement (n + 1)) ok)
    (hrun : (advance >>= fun _ => finishStmt p.current.location (.jump · j)).run p = .ok s q) :
    Leaves Kind.endsStmt (fuel + 1) statement Stmt.erase used s.erase := by
  refine leaves_of_transfers (x := fun _ start => advance >>= fun _ => finishStmt start (.jump · j))
    ?_ hz hp hrun hkinds hne hend
  exact fun n start' _ => transfersFrom_bind (transfersFrom_advance hplain) fun _ _ _ _ =>
    transfersFrom_finishStmt fun _ _ => rfl

/-- So is what starts with a name. -/
private theorem leaves_named {name : String} (hpk : p.current.kind = .identifier name)
    (hrun : (suffixed fuel >>= fun target =>
      afterTarget fuel p.current.location target).run p = .ok s q) :
    Leaves Kind.endsStmt (fuel + 1) statement Stmt.erase used s.erase := by
  refine leaves_of_transfers
    (x := fun n start => suffixed n >>= fun target => afterTarget n start target)
    ?_ ?_ hp hrun hkinds hne hend
  · intro n start' hn
    refine transfersFrom_bind (transfers_suffixed hn (fun _ hk => Kind.endsExpr_of_endsStmt hk) _)
      fun target target' htarget => ?_
    exact transfers_afterTarget hn (fun _ h => h) _ start' htarget
  · intro n r ok hr h
    rw [statement]
    exact succeeds_place_kind (hr.trans hpk) h

/-- And so is an expression that does not start with one. -/
private theorem leaves_expr (hname : ∀ name, p.current.kind ≠ .identifier name)
    (hrun : (expression fuel >>= fun e =>
      finishStmt p.current.location (.expr · e)).run p = .ok s q) :
    Leaves Kind.endsStmt (fuel + 1) statement Stmt.erase used s.erase := by
  refine leaves_of_transfers
    (x := fun n start => expression n >>= fun e => finishStmt start (.expr · e))
    ?_ ?_ hp hrun hkinds hne hend
  · intro n start' hn
    refine transfersFrom_bind (transfers_value hn (fun _ h => h) _) fun e e' he _ => ?_
    exact transfersFrom_finishStmt fun _ _ => by simp only [Stmt.erase, he]
  · intro n r ok hr h
    obtain ⟨_, _, hread, -⟩ := (h .erased).exists
    have hstarts : startsExpr r.current.kind ≠ false :=
      fun hno => (fails_bind (fails_expression hno n)).not_ok hread
    refine succeeds_statement_of_startsExpr rfl (eq_true_of_ne_false hstarts) ?_ h
    exact fun name he => hname name (hr.symm.trans he)

end

section

variable (ih : StmtDangles fuel)
include ih

private theorem dangles_suite_succ : EndsLine (fuel + 1) suite Suite.erase := by
  intro p q body used hp hrun hkinds hne hend hline
  obtain ⟨u, us, rfl⟩ := List.exists_cons_of_ne_nil hne
  have hu : u ≠ .endOfLine := by
    rintro rfl
    cases hline.plain _ List.mem_cons_self
  rw [suite] at hrun
  obtain ⟨_, _, ⟨⟩, hrun⟩ := exists_of_run_bind hrun
  rw [Parser.current_of_kinds hkinds, if_neg hu] at hrun
  obtain ⟨_, _, ⟨⟩, hrun⟩ := exists_of_run_bind hrun
  obtain ⟨s, q₁, hrun, ⟨⟩⟩ := exists_of_run_bind hrun
  exact (ih.statement hp hrun hkinds hne hend hline).wrap (wraps_suite hu) rfl

private theorem dangles_elseSuite_succ :
    EndsLine (fuel + 1) elseSuite Suite.eraseElse := by
  intro p q other used hp hrun hkinds hne hend hline
  obtain ⟨u, us, rfl⟩ := List.exists_cons_of_ne_nil hne
  have hpu := Parser.current_of_kinds hkinds
  rw [elseSuite] at hrun
  obtain ⟨start, _, ⟨⟩, hrun⟩ := exists_of_run_bind hrun
  obtain ⟨_, _, ⟨⟩, hrun⟩ := exists_of_run_bind hrun
  split at hrun
  · next hk =>
    obtain ⟨s, q₁, hrun, ⟨⟩⟩ := exists_of_run_bind hrun
    have hwraps : Wraps fuel ifStatement Stmt.erase elseSuite Suite.eraseElse [] u
        fun c => some (.mk .erased [c]) := by
      refine wraps_of_here (f := fun start s => pure (some (.mk start [s])))
        (fun n r ok hr h => ?_) fun _ _ _ => ⟨rfl, rfl⟩
      rw [elseSuite]
      exact succeeds_place_kind (hr.trans (hpu.symm.trans hk)) h
    exact (ih.ifStatement hp hrun hkinds hne hend hline).wrap hwraps rfl
  · next hk =>
    have hplain : p.current.kind.isPlain := by rw [hk]; rfl
    have hrun : (wordHeader .elseWord >>= fun _ => suite fuel >>= fun body =>
        (pure (some body) : Parse (Option Suite))).run p = .ok other q := by
      simpa only [wordHeader, bind_assoc] using hrun
    refine dangles_of_header (fun _ => wordHeader .elseWord) (fun _ _ body => pure (some body))
      (fun _ c => some c) .erased ih.suite (fun n hn => repeats_suite hn)
      (fun n r hr hn => fits_suite hr hn) (fun n _ => transfers_wordHeader hplain _)
      (fun s r before hx hbefore =>
        ne_nil_of_advance hplain rfl (transfers_expect rfl) hp hx hbefore)
      (fun n r ok hr h => ?_) (fun _ _ _ _ _ _ => ⟨rfl, rfl⟩) hp hrun hkinds hend hline
    rw [elseSuite]
    refine succeeds_place_kind (hr.trans hk) fun start => ?_
    simpa only [wordHeader, bind_assoc] using h start
  · cases hrun
    exact absurd (List.append_left_eq_self.1 hkinds.symm) hne

private theorem dangles_ifStatement_succ : EndsLine (fuel + 1) ifStatement Stmt.erase := by
  intro p q s used hp hrun hkinds hne hend hline
  obtain ⟨u, us, hused⟩ := List.exists_cons_of_ne_nil hne
  have hplain : p.current.kind.isPlain := by
    rw [Parser.current_of_kinds (hused ▸ hkinds)]
    exact hline.plain u (hused ▸ List.mem_cons_self)
  rw [ifStatement] at hrun
  obtain ⟨start, _, ⟨⟩, hrun⟩ := exists_of_run_bind hrun
  have hrun : (conditionHeader .ifCondition fuel >>= fun e => suite fuel >>= fun body =>
      elseSuite fuel >>= fun other =>
        finishStmt p.current.location (.branch · e body other)).run p = .ok s q := by
    simpa only [conditionHeader, bind_assoc, pure_bind] using hrun
  obtain ⟨e, p₁, hheader, hrun⟩ := exists_of_run_bind hrun
  obtain ⟨body, p₂, hbody, hrun⟩ := exists_of_run_bind hrun
  obtain ⟨other, p₃, hother, hrun⟩ := exists_of_run_bind hrun
  obtain ⟨tag, rfl, hq⟩ := run_finishStmt hrun
  have hstep := transfers_conditionHeader hplain (Nat.le_refl fuel) .ifCondition
  obtain ⟨u₀, -, h₀, hdedent, -⟩ := hstep p e p₁ hp rfl hheader
  have hp₁ : p₁.Bounded := hp.of_append h₀
  obtain ⟨u₁, h₁, -⟩ := repeats_suite (Nat.le_refl fuel) _ p₁ body p₂ hp₁ rfl hbody
  have hp₂ : p₂.Bounded := hp₁.of_append h₁
  obtain ⟨u₂, h₂, -⟩ := repeats_elseSuite (Nat.le_refl fuel) _ p₂ other p₃ hp₂ rfl hother
  have hend₃ : p₃.current.kind.isEnd := Parser.current_congr hq ▸ hend
  have hne₀ :=
    ne_nil_of_advance hplain rfl (transfers_conditionRest (Nat.le_refl _) _) hp hheader h₀
  have hne₁ :=
    used_ne_nil (fun n hn => repeats_suite hn) (fun n hn => fits_suite hp₁ hn) hp₁ hbody h₁
  obtain rfl : used = u₀ ++ (u₁ ++ u₂) := used_eq_append h₀ h₁ h₂ (hq ▸ hkinds)
  by_cases hne₂ : u₂ = []
  · -- There is no other branch so far: the body takes the branch behind it, or else this `if` does.
    subst hne₂
    rw [List.append_nil] at hline ⊢
    have hend₂ : p₂.current.kind.isEnd := Parser.current_congr h₂ ▸ hend₃
    obtain rfl : other = none := eq_none_of_isEnd hend₂ hother
    have hdangles := ih.suite hp₁ hbody h₁ hne₁ hend₂ hline.of_append
    exact dangles_if_none hplain hp hheader h₀ hdangles (head?_of_used h₁ hne₁)
  · -- What the other branch does with the branch behind it is what this `if` does.
    rw [List.isEmpty_eq_false_iff.2 hne₀, Bool.false_and] at hdedent
    rw [← List.append_assoc] at hline ⊢
    exact (ih.elseSuite hp₂ hother h₂ hne₂ hend₃ hline.of_append).wrap
      (wraps_if hplain hp hheader h₀ hdedent hbody h₁ hne₁) (head?_of_used h₂ hne₂)

private theorem dangles_forRange (hpk : p.current.kind = .keyword .forWord) (start : Location)
    {s : Stmt} (hp : p.Bounded)
    (hrun : (rangeHeader fuel >>= fun range => suite fuel >>= fun body => finishStmt start
      (.forRange · range.counter range.start range.stop range.step body)).run p = .ok s q)
    (hkinds : p.kinds = used ++ q.kinds) (hend : q.current.kind.isEnd) (hline : OneLine used) :
    Dangles (fuel + 1) statement Stmt.erase used s.erase := by
  have hplain : p.current.kind.isPlain := by rw [hpk]; rfl
  refine dangles_of_header rangeHeader (fun start range body => finishStmt start
      (.forRange · range.counter range.start range.stop range.step body))
    (fun range c => .forRange .erased range.counter range.start.erase range.stop.erase
      (range.step.map Expr.erase) c) start ih.suite (fun n hn => repeats_suite hn)
    (fun n r hr hn => fits_suite hr hn) (fun n hn => transfers_rangeHeader hplain hn)
    (fun range r before hx hbefore => ne_nil_of_advance hplain rfl
      (transfers_range (Nat.le_refl _) fun _ h => h) hp hx hbefore)
    (fun n r ok hr h => ?_) (fun start range range' body r hrange => ?_) hp hrun hkinds hend hline
  · rw [statement]
    refine succeeds_place_kind (hr.trans hpk) fun start => ?_
    simpa only [rangeHeader, bind_assoc] using h start
  · simp only [Range.erase, Range.mk.injEq] at hrange
    exact ⟨by simp only [Stmt.erase, hrange], rfl⟩

private theorem dangles_whileLoop (hpk : p.current.kind = .keyword .whileWord) (start : Location)
    {s : Stmt} (hp : p.Bounded)
    (hrun : (conditionHeader .whileCondition fuel >>= fun e => suite fuel >>= fun body =>
      finishStmt start (.whileLoop · e body)).run p = .ok s q)
    (hkinds : p.kinds = used ++ q.kinds) (hend : q.current.kind.isEnd) (hline : OneLine used) :
    Dangles (fuel + 1) statement Stmt.erase used s.erase := by
  have hplain : p.current.kind.isPlain := by rw [hpk]; rfl
  refine dangles_of_header (conditionHeader .whileCondition)
    (fun start e body => finishStmt start (.whileLoop · e body))
    (fun e c => .whileLoop .erased e.erase c) start ih.suite
    (fun n hn => repeats_suite hn) (fun n r hr hn => fits_suite hr hn)
    (fun n hn => transfers_conditionHeader hplain hn _)
    (fun e r before hx hbefore => ne_nil_of_advance hplain rfl
      (transfers_conditionRest (Nat.le_refl _) _) hp hx hbefore)
    (fun n r ok hr h => ?_) (fun start e e' body r he => ?_) hp hrun hkinds hend hline
  · rw [statement]
    refine succeeds_place_kind (hr.trans hpk) fun start => ?_
    simpa only [conditionHeader, bind_assoc, pure_bind] using h start
  · exact ⟨by simp only [Stmt.erase, he], rfl⟩

private theorem dangles_ifWord (hpk : p.current.kind = .keyword .ifWord) {s : Stmt}
    (hp : p.Bounded) (hrun : (ifStatement fuel).run p = .ok s q)
    (hkinds : p.kinds = used ++ q.kinds) (hne : used ≠ []) (hend : q.current.kind.isEnd)
    (hline : OneLine used) : Dangles (fuel + 1) statement Stmt.erase used s.erase := by
  have hwraps : Wraps fuel ifStatement Stmt.erase statement Stmt.erase [] (.keyword .ifWord) id := by
    refine wraps_of_here (f := fun _ s => pure s) (fun n r ok hr h => ?_) fun _ _ _ => ⟨rfl, rfl⟩
    rw [statement]
    exact succeeds_place_kind hr fun start => bind_pure (ifStatement n) ▸ h start
  refine (ih.ifStatement hp hrun hkinds hne hend hline).wrap hwraps ?_
  rw [head?_of_used hkinds hne, hpk]

private theorem dangles_statement_succ : EndsLine (fuel + 1) statement Stmt.erase := by
  intro p q s used hp hrun hkinds hne hend hline
  rw [statement] at hrun
  obtain ⟨_, _, ⟨⟩, hrun⟩ := exists_of_run_bind hrun
  obtain ⟨_, _, ⟨⟩, hrun⟩ := exists_of_run_bind hrun
  split at hrun
  · next hpk => exact dangles_ifWord ih hpk hp hrun hkinds hne hend hline
  · next hpk =>
    refine dangles_forRange ih hpk p.current.location hp ?_ hkinds hend hline
    simpa only [rangeHeader, bind_assoc] using hrun
  · next hpk =>
    refine dangles_whileLoop ih hpk p.current.location hp ?_ hkinds hend hline
    simpa only [conditionHeader, bind_assoc, pure_bind] using hrun
  · next hpk =>
    have hrun : (wordHeader .doWord >>= fun _ => suite fuel >>= fun body => whileEnd fuel >>=
        fun e => finishStmt p.current.location (.doWhile · body e)).run p = .ok s q := by
      simpa only [wordHeader, whileEnd, bind_assoc] using hrun
    exact .inl (leaves_doWhile hpk hp hrun hkinds hend)
  · next hpk =>
    have hrun : (conditionHeader .matchExpression fuel >>= fun e =>
        expect .endOfLine (.lineEnd .matchHeader) >>= fun _ =>
          matchLines fuel p.current.location e).run p = .ok s q := by
      simpa only [conditionHeader, matchLines, bind_assoc, pure_bind] using hrun
    exact absurd hline (not_oneLine_match hp (by rw [hpk]; rfl) hrun hkinds)
  · next hpk => exact .inl (leaves_return hpk hp hrun hkinds hne hend hline)
  · next hpk => exact .inl (leaves_print hp hkinds hne hend hpk hrun)
  · next hpk =>
    refine .inl (leaves_jump hp hkinds hne hend (by rw [hpk]; rfl) (fun n r ok hr h => ?_) hrun)
    rw [statement]
    exact succeeds_place_kind (hr.trans hpk) h
  · next hpk =>
    refine .inl (leaves_jump hp hkinds hne hend (by rw [hpk]; rfl) (fun n r ok hr h => ?_) hrun)
    rw [statement]
    exact succeeds_place_kind (hr.trans hpk) h
  -- Words that start no statement.
  iterate 7 exact absurd hrun fails_refuse.not_ok
  · next hpk => exact .inl (leaves_named hp hkinds hne hend hpk hrun)
  · next hname => exact .inl (leaves_expr hp hkinds hne hend hname hrun)

end

private theorem stmtDangles (fuel : Nat) : StmtDangles fuel := by
  induction fuel with
  | zero => constructor <;> intro p q a used _ hrun <;> cases hrun
  | succ fuel ih =>
    exact ⟨dangles_statement_succ ih, dangles_ifStatement_succ ih, dangles_elseSuite_succ ih,
      dangles_suite_succ ih⟩

/-- A statement on one line that does not end in a bare `return` leaves a branch that stands behind
it, or the last `if` in it takes the branch. -/
theorem dangles_statement (hp : p.Bounded) {s : Stmt} (hrun : (statement fuel).run p = .ok s q)
    (hkinds : p.kinds = used ++ q.kinds) (hne : used ≠ []) (hend : q.current.kind.isEnd)
    (hline : OneLine used) : Dangles fuel statement Stmt.erase used s.erase :=
  (stmtDangles fuel).statement hp hrun hkinds hne hend hline

end Offside.Parse
