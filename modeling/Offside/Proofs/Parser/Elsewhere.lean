import Offside.Proofs.Parser.Transfer

/-!
# Statements read the same everywhere

A statement that is read is read as the same statement wherever its tokens stand, if a token of the
same kind follows. So are the bodies, branches and lists of lines of which it is made. Nothing that
stands before the tokens matters, and of what follows them only the first token does.

The parts of a statement that stand on one line are read the same even where the first run ends at
the end of the line and the other run finds another end or a branch of an `if`.

## Main definitions

* `Offside.Kind.isBranch`: the words with which a branch of an `if` starts.
* `Offside.Kind.endsStmt`: what may stand behind a statement on one line.
* `Offside.Parse.Repeats`: whatever one computation reads, the other one reads elsewhere.

## Main results

* `Offside.Parse.repeats_bind`, `Offside.Parse.repeats_kind`: sequences and decisions.
* `Offside.Parse.transfers_afterTarget`, `Offside.Parse.transfers_range`: parts on one line.
* `Offside.Parse.repeats_statement`, `Offside.Parse.repeats_suite`: statements and their bodies.
-/

namespace Offside

/-- The words with which a branch of an `if` starts. -/
def Kind.isBranch : Kind → Bool
  | keyword .elifWord | keyword .elseWord => true
  | _ => false

theorem Kind.eq_of_isBranch {k : Kind} (h : k.isBranch) :
    k = .keyword .elifWord ∨ k = .keyword .elseWord := by
  unfold Kind.isBranch at h
  split at h
  · exact .inl rfl
  · exact .inr rfl
  · cases h

theorem Kind.isBranch_of_isEnd {k : Kind} (h : k.isEnd) : k.isBranch = false := by
  rcases Kind.eq_of_isEnd h with rfl | rfl | rfl <;> rfl

/-- Kinds of token before which a statement on one line may end. -/
def Kind.endsStmt (k : Kind) : Bool := k.isEnd || k.isBranch

theorem Kind.eq_of_endsStmt {k : Kind} (h : k.endsStmt) :
    k = .endOfInput ∨ k = .endOfLine ∨ k = .dedent ∨ k = .keyword .elifWord ∨
      k = .keyword .elseWord := by
  rcases Bool.or_eq_true_iff.1 h with h | h
  · rcases Kind.eq_of_isEnd h with rfl | rfl | rfl <;> simp
  · rcases Kind.eq_of_isBranch h with rfl | rfl <;> simp

/-- An expression may end where a statement may. -/
theorem Kind.endsExpr_of_endsStmt {k : Kind} (h : k.endsStmt) : k.endsExpr := by
  rcases Kind.eq_of_endsStmt h with rfl | rfl | rfl | rfl | rfl <;> rfl

/-- The header of a counting loop with its tags erased. -/
def Parse.Range.erase (range : Parse.Range) : Parse.Range :=
  { range with
    start := range.start.erase, stop := range.stop.erase, step := range.step.map Expr.erase }

namespace Parse

variable {α β γ δ : Type} {k : Kind} {view : α → γ} {view' : β → δ} {fuel fuel' : Nat}

/-! ### Parts of statements on one line -/

section

variable {ends : Kind → Bool}

theorem transfers_typeExpr (hle : fuel ≤ fuel') (hends : ∀ k, ends k → k.endsStmt) :
    Transfers ends id (typeExpr fuel) (typeExpr fuel') := by
  induction fuel generalizing fuel' with
  | zero => exact fun _ => transfersFrom_of_fails fun _ _ => trivial
  | succ fuel ih =>
    obtain ⟨fuel', rfl⟩ : ∃ n, fuel' = n + 1 := ⟨fuel' - 1, by omega⟩
    rw [typeExpr, typeExpr]
    refine transfers_bind transfers_expectName fun name name' hname => ?_
    obtain rfl : name' = name := hname
    refine transfers_kind (fun k => ?_) fun k k' hk hk' => ?_
    · split
      · next hopen =>
        refine transfersFrom_bind (transfersFrom_advance (by rw [hopen.2]; rfl)) fun _ _ _ => ?_
        refine transfers_bind (ih (by omega)) ?_
        rintro element _ rfl
        exact transfers_bind (transfers_expect rfl) fun _ _ _ _ => transfersFrom_pure rfl
      · exact transfersFrom_pure rfl
    · have hk' := hends k' hk'
      rw [if_neg (by rintro ⟨-, rfl⟩; cases hk), if_neg (by rintro ⟨-, rfl⟩; cases hk')]
      exact transfersFrom_pure rfl

variable (hle : fuel ≤ fuel') (hends : ∀ k, ends k → k.endsStmt)
include hle hends

theorem transfers_value : Transfers ends Expr.erase (expression fuel) (expression fuel') :=
  transfers_expression hle fun k hk => Kind.endsExpr_of_endsStmt (hends k hk)

theorem transfers_optionalAfter {mark : Kind} (hmark : mark.isPlain)
    (hstmt : mark.endsStmt = false) :
    Transfers ends (Option.map Expr.erase) (optionalAfter fuel mark)
      (optionalAfter fuel' mark) := by
  have hne : ends mark = false := by
    cases he : ends mark with
    | false => rfl
    | true => rw [hends mark he] at hstmt; cases hstmt
  refine transfers_accept? hmark ?_ (fun _ => transfersFrom_pure rfl) (.inl hne)
  refine transfers_bind (transfers_value hle hends) fun e e' he _ => transfersFrom_pure ?_
  exact congrArg some he

theorem transfers_afterTarget (start start' : Location) {target target' : Expr}
    (h : target'.erase = target.erase) :
    Transfers ends Stmt.erase (afterTarget fuel start target)
      (afterTarget fuel' start' target') := by
  have rest (k : Kind) : TransfersFrom ends k Stmt.erase
      (do finishStmt start (.expr · (← operators fuel 0 target)))
      (do finishStmt start' (.expr · (← operators fuel' 0 target'))) := by
    refine transfersFrom_bind (transfers_operators hle
      (fun k hk => Kind.endsExpr_of_endsStmt (hends k hk)) 0 h k) fun e e' he _ => ?_
    exact transfersFrom_finishStmt fun _ _ => by simp only [Stmt.erase, he]
  refine transfers_kind (fun k => ?_) fun k k' hk hk' => ?_
  · rw [Expr.Same.plainName? h, Expr.Same.isAddressable h]
    split
    · split
      · exact transfersFrom_refuse
      · refine transfersFrom_bind (transfersFrom_advance rfl) fun _ _ _ => ?_
        refine transfers_bind (transfers_typeExpr hle hends) ?_
        rintro type _ rfl
        refine transfers_bind (transfers_optionalAfter hle hends rfl rfl) ?_
        intro init init' hinit _
        exact transfersFrom_finishStmt fun _ _ => by simp only [Stmt.erase, hinit, id_eq]
    · split
      · exact transfersFrom_of_fails fun _ _ => fails_bind fails_fail
      · refine transfersFrom_bind (transfersFrom_advance rfl) fun _ _ _ => ?_
        refine transfers_bind (transfers_value hle hends) fun e e' he _ => ?_
        exact transfersFrom_finishStmt fun _ _ => by simp only [Stmt.erase, h, he]
    · exact rest _
  · rcases Kind.eq_of_isEnd hk with rfl | rfl | rfl <;>
      rcases Kind.eq_of_endsStmt (hends k' hk') with rfl | rfl | rfl | rfl | rfl <;>
        exact rest _

theorem transfers_printStatement (start start' : Location) :
    Transfers ends Stmt.erase (printStatement fuel start) (printStatement fuel' start') := by
  refine transfers_bind (transfers_expect rfl) fun _ _ _ => ?_
  refine transfers_bind (transfers_arguments hle
    (fun k hk => Kind.endsExpr_of_endsStmt (hends k hk)) _) fun args args' hargs => ?_
  refine transfers_bind (transfers_expect rfl) fun _ _ _ _ => ?_
  exact transfersFrom_finishStmt fun _ _ => by simp only [Stmt.erase, hargs]

theorem transfers_range : Transfers ends Range.erase (range fuel) (range fuel') := by
  refine transfers_bind transfers_expectName ?_
  rintro counter _ rfl
  refine transfers_bind (transfers_expect rfl) fun _ _ _ => ?_
  refine transfers_bind (transfers_expect rfl) fun _ _ _ => ?_
  refine transfers_bind (transfers_expect rfl) fun _ _ _ => ?_
  refine transfers_bind (transfers_value hle hends) fun start start' hstart => ?_
  refine transfers_bind (transfers_expect rfl) fun _ _ _ => ?_
  refine transfers_bind (transfers_value hle hends) fun stop stop' hstop => ?_
  refine transfers_bind (transfers_optionalAfter hle hends rfl rfl) fun step step' hstep => ?_
  refine transfers_bind (transfers_expect rfl) fun _ _ _ => ?_
  refine transfers_bind (transfers_expect rfl) fun _ _ _ _ => transfersFrom_pure ?_
  simp only [Range.erase, hstart, hstop, hstep, id_eq]

theorem transfers_pattern (wild : Bool) :
    Transfers ends Pattern.erase (pattern fuel wild) (pattern fuel' wild) := by
  have rest (k : Kind) : TransfersFrom ends k Pattern.erase
      (do return .value (← expression fuel)) (do return .value (← expression fuel')) :=
    transfersFrom_bind (transfers_value hle hends k) fun e e' he _ =>
      transfersFrom_pure (congrArg Pattern.value he)
  rw [pattern, pattern]
  refine transfers_kind (fun k => ?_) fun k k' hk hk' => ?_
  · split
    · next hk =>
      split
      · exact transfersFrom_of_fails fun _ _ => fails_place fun _ => fails_bind fails_fail
      · refine transfersFrom_bind (transfersFrom_advance (by rw [hk]; rfl)) fun _ _ _ _ => ?_
        exact transfersFrom_pure rfl
    · exact rest k
  · rw [if_neg (Kind.ne_of_isEnd hk rfl), if_neg]
    · exact rest k
    · rintro rfl
      cases hends _ hk'

end

/-! ### The same token behind -/

/-- Whatever `x` reads from a token of kind `k` on, `x'` reads elsewhere, with a result of the same
view, if a token of the same kind stands behind it. -/
def RepeatsFrom (k : Kind) (view : α → γ) (x x' : Parse α) : Prop :=
  ∀ p a q, p.Bounded → p.current.kind = k → x.run p = .ok a q →
    ∃ used, p.kinds = used ++ q.kinds ∧
      ∀ p' after, p'.kinds = used ++ after → after.head? = q.kinds.head? →
        p'.afterDedent = p.afterDedent →
        Succeeds p' x' fun a' q' => view a' = view a ∧ q'.kinds = after ∧
          q'.afterDedent = q.afterDedent

/-- The same from any token on. -/
def Repeats (view : α → γ) (x x' : Parse α) : Prop := ∀ k, RepeatsFrom k view x x'

/-- The tokens that were read are read elsewhere. -/
theorem RepeatsFrom.copy {x x' : Parse α} {p q : Parser} {a : α} {used : List Kind}
    (h : RepeatsFrom p.current.kind view x x') (hp : p.Bounded) (hrun : x.run p = .ok a q)
    (hkinds : p.kinds = used ++ q.kinds) {p' : Parser} {after : List Kind}
    (hp' : p'.kinds = used ++ after) (hafter : after.head? = q.kinds.head?)
    (hdedent : p'.afterDedent = p.afterDedent) :
    Succeeds p' x' fun a' q' => view a' = view a ∧ q'.kinds = after ∧
      q'.afterDedent = q.afterDedent := by
  obtain ⟨used', hkinds', hcopy⟩ := h p a q hp rfl hrun
  obtain rfl : used' = used := List.append_cancel_right (hkinds'.symm.trans hkinds)
  exact hcopy p' after hp' hafter hdedent

/-- What is read alike before other tokens is read alike before the same ones. -/
theorem TransfersFrom.repeats {x x' : Parse α} (h : TransfersFrom Kind.endsStmt k view x x') :
    RepeatsFrom k view x x' := by
  intro p a q hp hk hrun
  obtain ⟨used, -, hkinds, hdedent, hcopy⟩ := h p a q hp hk hrun
  refine ⟨used, hkinds, fun p' after hp' hafter hsame => ?_⟩
  refine (hcopy p' after hp' (.inl hafter)).mono fun a' q' ha' => ⟨ha'.1, ha'.2.1, ?_⟩
  rw [ha'.2.2, hsame, hdedent]

theorem Transfers.repeats {x x' : Parse α} (h : Transfers Kind.endsStmt view x x') :
    Repeats view x x' := fun k => (h k).repeats

theorem repeatsFrom_of_fails {x x' : Parse α} (h : ∀ p, p.current.kind = k → Fails p x) :
    RepeatsFrom k view x x' :=
  fun p _ _ _ hk hrun => absurd hrun (h p hk).not_ok

theorem repeatsFrom_refuse {expected : Expectation} {x' : Parse α} :
    RepeatsFrom k view (refuse expected) x' :=
  repeatsFrom_of_fails fun _ _ => fails_refuse

theorem repeatsFrom_pure {a a' : α} (h : view a' = view a) :
    RepeatsFrom k view (pure a) (pure a') := (transfersFrom_pure h).repeats

theorem repeatsFrom_finishStmt {place place' : Location} {build build' : Tag → Stmt}
    (h : ∀ tag tag', (build' tag').erase = (build tag).erase) :
    RepeatsFrom k Stmt.erase (finishStmt place build) (finishStmt place' build') :=
  (transfersFrom_finishStmt h).repeats

theorem repeatsFrom_bind {x x' : Parse α} {f f' : α → Parse β} (hx : RepeatsFrom k view x x')
    (hf : ∀ a a', view a' = view a → Repeats view' (f a) (f' a')) :
    RepeatsFrom k view' (x >>= f) (x' >>= f') := by
  intro p b r hp hk hrun
  obtain ⟨a, q, hxrun, hfrun⟩ := exists_of_run_bind hrun
  obtain ⟨used, hkinds, hx'⟩ := hx p a q hp hk hxrun
  have hq : q.Bounded := hp.of_append hkinds
  obtain ⟨more, hkinds', -⟩ := hf a a rfl _ q b r hq rfl hfrun
  refine ⟨used ++ more, by rw [hkinds, hkinds', List.append_assoc],
    fun p' after hp' hafter hdedent => ?_⟩
  rw [List.append_assoc] at hp'
  have hbetween : (more ++ after).head? = q.kinds.head? := by
    rw [hkinds', List.head?_append, List.head?_append, hafter]
  refine succeeds_bind ((hx' p' _ hp' hbetween hdedent).mono fun a' q' ha' => ?_)
  exact (hf a a' ha'.1 _).copy hq hfrun hkinds' ha'.2.1 hafter ha'.2.2

theorem repeats_bind {x x' : Parse α} {f f' : α → Parse β} (hx : Repeats view x x')
    (hf : ∀ a a', view a' = view a → Repeats view' (f a) (f' a')) :
    Repeats view' (x >>= f) (x' >>= f') :=
  fun k => repeatsFrom_bind (hx k) hf

theorem repeatsFrom_place {f f' : Location → Parse α}
    (h : ∀ place place', RepeatsFrom k view (f place) (f' place')) :
    RepeatsFrom k view (place >>= f) (place >>= f') := by
  rintro p a q hp rfl hrun
  obtain ⟨used, hkinds, -⟩ := h p.current.location .erased p a q hp rfl hrun
  refine ⟨used, hkinds, fun p' after hp' hafter hdedent => ?_⟩
  exact (h p.current.location p'.current.location).copy hp hrun hkinds hp' hafter hdedent

/-- Elsewhere the current token is of the same kind. -/
private theorem current_eq {p p' : Parser} {used K after : List Kind} (hp : p.kinds = used ++ K)
    (hp' : p'.kinds = used ++ after) (hafter : after.head? = K.head?) :
    p'.current.kind = p.current.kind := by
  have hhead : p'.kinds.head? = p.kinds.head? := by
    rw [hp, hp', List.head?_append, List.head?_append, hafter]
  exact Option.some.inj hhead

/-- A decision on the current token is the same elsewhere. -/
theorem repeats_kind {f f' : Kind → Parse α} (h : ∀ k, RepeatsFrom k view (f k) (f' k)) :
    Repeats view (kind >>= f) (kind >>= f') := by
  rintro _ p a q hp rfl hrun
  obtain ⟨used, hkinds, hcopy⟩ := h _ p a q hp rfl hrun
  refine ⟨used, hkinds, fun p' after hp' hafter hdedent => ?_⟩
  have hsame := hcopy p' after hp' hafter hdedent
  rw [← current_eq hkinds hp' hafter] at hsame
  exact hsame

/-- So is a test of it and of what stands before it. -/
theorem repeats_test {g : Parser → Bool} {x x' y y' : Parse α}
    (same : ∀ p p' : Parser, p'.current.kind = p.current.kind → p'.afterDedent = p.afterDedent →
      g p' = g p) (hx : Repeats view x x') (hy : Repeats view y y') :
    Repeats view (get >>= fun p => if g p then x else y)
      (get >>= fun p => if g p then x' else y') := by
  intro k p a q hp hk hrun
  have hrun : (if g p then x else y).run p = .ok a q := hrun
  have hbranch : RepeatsFrom k view (if g p then x else y) (if g p then x' else y') := by
    split
    · exact hx k
    · exact hy k
  obtain ⟨used, hkinds, hcopy⟩ := hbranch p a q hp hk hrun
  refine ⟨used, hkinds, fun p' after hp' hafter hdedent => ?_⟩
  have hsame := hcopy p' after hp' hafter hdedent
  rw [← same p p' (current_eq hkinds hp' hafter) hdedent] at hsame
  exact hsame

/-- A test that may end a computation. -/
theorem repeats_guard {c : Prop} [Decidable c] {expected : Expectation} {y y' : Parse α}
    (h : Repeats view y y') :
    Repeats view (if c then refuse expected >>= fun _ : Unit => y else y)
      (if c then refuse expected >>= fun _ : Unit => y' else y') := by
  split
  · exact fun _ => repeatsFrom_of_fails fun _ _ => fails_bind fails_refuse
  · exact h

theorem repeatsFrom_advance (hk : k ≠ .endOfInput) :
    RepeatsFrom k (fun _ => ()) advance advance := by
  rintro p _ _ hp rfl ⟨⟩
  obtain ⟨hkinds, -⟩ := hp.advance hk
  refine ⟨[p.current.kind], hkinds, fun p' after hp' hafter _ => ⟨rfl, ?_, ?_⟩⟩
  · refine Parser.kinds_advance hp' ?_
    rintro rfl
    cases hafter
  · rw [Parser.afterDedent_advance, Parser.afterDedent_advance, Parser.current_of_kinds hp']

theorem repeats_expect {mark : Kind} {expected : Expectation} (hmark : mark ≠ .endOfInput) :
    Repeats (fun _ => ()) (expect mark expected) (expect mark expected) := by
  refine repeats_kind fun k => ?_
  split
  · next hk => exact repeatsFrom_advance (hk ▸ hmark)
  · exact repeatsFrom_refuse

theorem repeats_expectStatementEnd {ending : Ending} :
    Repeats (fun _ => ()) (expectStatementEnd ending) (expectStatementEnd ending) := by
  refine repeats_test (g := fun p => !p.atStatementEnd) (fun p p' hkind hdedent => ?_)
    (fun _ => repeatsFrom_refuse) fun _ => repeatsFrom_pure rfl
  rw [Parser.atStatementEnd, Parser.atStatementEnd, hkind, hdedent]

/-- The line ends that are skipped. -/
private theorem exists_skipLineEnds {p : Parser} (hp : p.Bounded) :
    ∃ n, p.kinds = List.replicate n .endOfLine ++ p.skipLineEnds.kinds ∧
      p.skipLineEnds.current.kind ≠ .endOfLine ∧
      p.skipLineEnds.afterDedent = (decide (n = 0) && p.afterDedent) := by
  fun_induction Parser.skipLineEnds p with
  | case1 p hline ih =>
    obtain ⟨hkinds, hbounded⟩ := hp.advance (by rw [hline.1]; exact Kind.noConfusion)
    obtain ⟨n, hn, hstop, hdedent⟩ := ih hbounded
    refine ⟨n + 1, ?_, hstop, ?_⟩
    · rw [hkinds, hline.1, hn, List.replicate_succ, List.cons_append]
    · rw [hdedent, Parser.afterDedent_advance, hline.1]
      simp
  | case2 p hstop =>
    refine ⟨0, rfl, fun hk => hstop ⟨hk, ?_⟩, by simp⟩
    rintro hrest
    obtain ⟨before, hkinds, -⟩ := hp
    rw [Parser.kinds, hrest, hk] at hkinds
    cases before <;> simp at hkinds

theorem repeats_skipLineEnds :
    Repeats (fun _ => ()) (modify Parser.skipLineEnds) (modify Parser.skipLineEnds) := by
  rintro _ p _ _ hp rfl ⟨⟩
  obtain ⟨n, hkinds, hstop, hdedent⟩ := exists_skipLineEnds hp
  refine ⟨_, hkinds, fun p' after hp' hafter hsame => ⟨rfl, ?_⟩⟩
  rw [hdedent, ← hsame]
  obtain ⟨K, rfl⟩ := List.head?_eq_some_iff.1 (hafter.trans Parser.head?_kinds)
  clear hkinds hdedent hafter hsame
  -- The other parser meets as many line ends and stops before a token of the same kind.
  induction n generalizing p' with
  | zero =>
    have hk : p'.current.kind ≠ .endOfLine := by
      rw [Parser.current_of_kinds hp']
      exact hstop
    rw [Parser.skipLineEnds, if_neg fun h => hk h.1]
    exact ⟨hp', by simp⟩
  | succ n ih =>
    have hline : p'.kinds = .endOfLine :: (List.replicate n .endOfLine ++ _ :: K) := hp'
    have hnext := Parser.kinds_advance hline (by simp)
    obtain ⟨hkinds, hdedent⟩ := ih p'.advance hnext
    rw [Parser.skipLineEnds,
      if_pos ⟨Parser.current_of_kinds hline, Parser.rest_ne_nil_of_kinds hline (by simp)⟩]
    refine ⟨hkinds, hdedent.trans ?_⟩
    rw [Parser.afterDedent_advance, Parser.current_of_kinds hline]
    simp

/-! ### Statements -/

theorem repeats_returnStatement (hle : fuel ≤ fuel') (start start' : Location) :
    Repeats Stmt.erase (returnStatement fuel start) (returnStatement fuel' start') := by
  refine repeats_test (fun p p' hkind hdedent => ?_)
    (fun _ => repeatsFrom_finishStmt fun _ _ => rfl) ?_
  · rw [Parser.atStatementEnd, Parser.atStatementEnd, hkind, hdedent]
  · refine repeats_bind (transfers_value hle fun _ h => h).repeats fun e e' he _ => ?_
    exact repeatsFrom_finishStmt fun _ _ => by simp only [Stmt.erase, Option.map, he]

/-- Every function that reads a part of a statement reads the same elsewhere. -/
private structure StmtRepeats (fuel fuel' : Nat) : Prop where
  statement : Repeats Stmt.erase (statement fuel) (statement fuel')
  ifStatement k (hk : k ≠ .endOfInput) :
    RepeatsFrom k Stmt.erase (ifStatement fuel) (ifStatement fuel')
  elseSuite : Repeats Suite.eraseElse (elseSuite fuel) (elseSuite fuel')
  suite : Repeats Suite.erase (suite fuel) (suite fuel')
  blockStatements before before' (h : Stmt.eraseAll before' = Stmt.eraseAll before) :
    Repeats Stmt.eraseAll (blockStatements fuel before) (blockStatements fuel' before')
  arms before before' (h : Arm.eraseAll before' = Arm.eraseAll before) :
    Repeats Arm.eraseAll (arms fuel before) (arms fuel' before')

private theorem repeats_throw {x' : Parse α} : Repeats view (throw .tooDeep) x' :=
  fun _ => repeatsFrom_of_fails fun _ _ => trivial

section

variable (ih : StmtRepeats fuel fuel')
include ih

private theorem repeats_statement_succ (hle : fuel ≤ fuel') :
    Repeats Stmt.erase (statement (fuel + 1)) (statement (fuel' + 1)) := by
  rw [statement, statement]
  refine fun _ => repeatsFrom_place fun start start' => repeats_kind (fun k => ?_) _
  have simple (jump : Jump) (hk : k ≠ .endOfInput) : RepeatsFrom k Stmt.erase
      (advance >>= fun _ => finishStmt start (.jump · jump))
      (advance >>= fun _ => finishStmt start' (.jump · jump)) :=
    repeatsFrom_bind (repeatsFrom_advance hk) fun _ _ _ _ => repeatsFrom_finishStmt fun _ _ => rfl
  split
  · exact ih.ifStatement _ Kind.noConfusion
  · refine repeatsFrom_bind (repeatsFrom_advance Kind.noConfusion) fun _ _ _ => ?_
    refine repeats_bind (transfers_range hle fun _ h => h).repeats fun range range' hrange => ?_
    refine repeats_bind ih.suite fun body body' hbody _ => ?_
    simp only [Range.erase, Range.mk.injEq] at hrange
    exact repeatsFrom_finishStmt fun _ _ => by simp only [Stmt.erase, hrange, hbody]
  · refine repeatsFrom_bind (repeatsFrom_advance Kind.noConfusion) fun _ _ _ => ?_
    refine repeats_bind (transfers_value hle fun _ h => h).repeats fun e e' he => ?_
    refine repeats_bind (repeats_expect Kind.noConfusion) fun _ _ _ => ?_
    refine repeats_bind ih.suite fun body body' hbody _ => ?_
    exact repeatsFrom_finishStmt fun _ _ => by simp only [Stmt.erase, he, hbody]
  · refine repeatsFrom_bind (repeatsFrom_advance Kind.noConfusion) fun _ _ _ => ?_
    refine repeats_bind (repeats_expect Kind.noConfusion) fun _ _ _ => ?_
    refine repeats_bind ih.suite fun body body' hbody => ?_
    refine repeats_bind (repeats_expect Kind.noConfusion) fun _ _ _ => ?_
    refine repeats_bind (transfers_value hle fun _ h => h).repeats fun e e' he _ => ?_
    exact repeatsFrom_finishStmt fun _ _ => by simp only [Stmt.erase, he, hbody]
  · refine repeatsFrom_bind (repeatsFrom_advance Kind.noConfusion) fun _ _ _ => ?_
    refine repeats_bind (transfers_value hle fun _ h => h).repeats fun e e' he => ?_
    refine repeats_bind (repeats_expect Kind.noConfusion) fun _ _ _ => ?_
    refine repeats_bind (repeats_expect Kind.noConfusion) fun _ _ _ => ?_
    refine repeats_bind (repeats_expect Kind.noConfusion) fun _ _ _ => ?_
    refine repeats_bind (ih.arms [] [] rfl) fun arms arms' harms => ?_
    rw [Arm.isEmpty_congr harms]
    refine repeats_guard (repeats_bind (repeats_expect Kind.noConfusion) fun _ _ _ _ => ?_)
    exact repeatsFrom_finishStmt fun _ _ => by simp only [Stmt.erase, he, harms]
  · exact repeatsFrom_bind (repeatsFrom_advance Kind.noConfusion) fun _ _ _ =>
      repeats_returnStatement hle start start'
  · exact repeatsFrom_bind (repeatsFrom_advance Kind.noConfusion) fun _ _ _ =>
      (transfers_printStatement hle (fun _ h => h) start start').repeats
  · exact simple .breakLoop Kind.noConfusion
  · exact simple .continueLoop Kind.noConfusion
  · exact repeatsFrom_refuse
  · exact repeatsFrom_refuse
  · exact repeatsFrom_refuse
  · exact repeatsFrom_refuse
  · exact repeatsFrom_refuse
  · exact repeatsFrom_refuse
  · exact repeatsFrom_refuse
  · refine repeatsFrom_bind (Transfers.repeats (transfers_suffixed hle fun _ hk =>
      Kind.endsExpr_of_endsStmt hk) _) fun target target' htarget => ?_
    exact (transfers_afterTarget hle (fun _ h => h) start start' htarget).repeats
  · refine repeatsFrom_bind (Transfers.repeats (transfers_value hle fun _ h => h) _)
      fun e e' he _ => ?_
    exact repeatsFrom_finishStmt fun _ _ => by simp only [Stmt.erase, he]

private theorem repeats_ifStatement_succ (hle : fuel ≤ fuel') (hk : k ≠ .endOfInput) :
    RepeatsFrom k Stmt.erase (ifStatement (fuel + 1)) (ifStatement (fuel' + 1)) := by
  rw [ifStatement, ifStatement]
  refine repeatsFrom_place fun start start' => ?_
  refine repeatsFrom_bind (repeatsFrom_advance hk) fun _ _ _ => ?_
  refine repeats_bind (transfers_value hle fun _ h => h).repeats fun e e' he => ?_
  refine repeats_bind (repeats_expect Kind.noConfusion) fun _ _ _ => ?_
  refine repeats_bind ih.suite fun thenSuite thenSuite' hthen => ?_
  refine repeats_bind ih.elseSuite fun elseSuite elseSuite' helse _ => ?_
  exact repeatsFrom_finishStmt fun _ _ => by simp only [Stmt.erase, he, hthen, helse]

private theorem repeats_elseSuite_succ :
    Repeats Suite.eraseElse (elseSuite (fuel + 1)) (elseSuite (fuel' + 1)) := by
  rw [elseSuite, elseSuite]
  refine fun _ => repeatsFrom_place fun start start' => repeats_kind (fun k => ?_) _
  split
  · refine repeatsFrom_bind (ih.ifStatement _ Kind.noConfusion) fun s s' hs _ => ?_
    exact repeatsFrom_pure (by simp only [Suite.eraseElse, Suite.erase, Stmt.eraseAll, hs])
  · refine repeatsFrom_bind (repeatsFrom_advance Kind.noConfusion) fun _ _ _ => ?_
    refine repeats_bind (repeats_expect Kind.noConfusion) fun _ _ _ => ?_
    refine repeats_bind ih.suite fun body body' hbody _ => repeatsFrom_pure ?_
    simp only [Suite.eraseElse, hbody]
  · exact repeatsFrom_pure rfl

private theorem repeats_suite_succ :
    Repeats Suite.erase (suite (fuel + 1)) (suite (fuel' + 1)) := by
  rw [suite, suite]
  refine repeats_kind fun k => ?_
  split
  · next hk =>
    refine repeatsFrom_bind (repeatsFrom_advance (by rw [hk]; exact Kind.noConfusion))
      fun _ _ _ _ => repeatsFrom_place fun start start' => ?_
    refine repeats_bind (repeats_expect Kind.noConfusion) (fun _ _ _ => ?_) _
    refine repeats_bind (ih.blockStatements [] [] rfl) fun ss ss' hss => ?_
    rw [Stmt.isEmpty_congr hss]
    refine repeats_guard (repeats_bind (repeats_expect Kind.noConfusion) fun _ _ _ _ => ?_)
    exact repeatsFrom_pure (by simp only [Suite.erase, hss])
  · refine repeatsFrom_place fun start start' => ?_
    refine repeatsFrom_bind (ih.statement k) fun s s' hs _ => repeatsFrom_pure ?_
    simp only [Suite.erase, Stmt.eraseAll, hs]

private theorem repeats_blockStatements_succ (before before' : List Stmt)
    (h : Stmt.eraseAll before' = Stmt.eraseAll before) :
    Repeats Stmt.eraseAll (blockStatements (fuel + 1) before)
      (blockStatements (fuel' + 1) before') := by
  rw [blockStatements, blockStatements]
  refine repeats_bind repeats_skipLineEnds fun _ _ _ => ?_
  refine repeats_test (fun p p' hkind _ => ?_) (fun _ => repeatsFrom_pure h) ?_
  · rw [Parser.atBlockEnd, Parser.atBlockEnd, hkind]
  · refine repeats_bind ih.statement fun s s' hs => ?_
    refine repeats_bind repeats_expectStatementEnd fun _ _ _ => ih.blockStatements _ _ ?_
    simp only [Stmt.eraseAll_append, Stmt.eraseAll, h, hs]

private theorem repeats_arms_succ (hle : fuel ≤ fuel') (before before' : List Arm)
    (h : Arm.eraseAll before' = Arm.eraseAll before) :
    Repeats Arm.eraseAll (arms (fuel + 1) before) (arms (fuel' + 1) before') := by
  rw [arms, arms]
  refine repeats_bind repeats_skipLineEnds fun _ _ _ => ?_
  refine repeats_test (fun p p' hkind _ => ?_) (fun _ => repeatsFrom_pure h) ?_
  · rw [Parser.atBlockEnd, Parser.atBlockEnd, hkind]
  · refine fun _ => repeatsFrom_place fun start start' => ?_
    refine repeats_bind (repeats_expect Kind.noConfusion) (fun _ _ _ => ?_) _
    rw [← Arm.any_isWildcard_eraseAll before', h, Arm.any_isWildcard_eraseAll]
    refine repeats_bind (transfers_pattern hle (fun _ h => h) _).repeats
      fun pattern pattern' hpattern => ?_
    refine repeats_bind (repeats_expect Kind.noConfusion) fun _ _ _ => ?_
    refine repeats_bind ih.suite fun body body' hbody => ?_
    refine repeats_bind repeats_expectStatementEnd fun _ _ _ => ih.arms _ _ ?_
    simp only [Arm.eraseAll_append, Arm.eraseAll, h, hpattern, hbody]

end

private theorem stmtRepeats (hle : fuel ≤ fuel') : StmtRepeats fuel fuel' := by
  induction fuel generalizing fuel' with
  | zero => constructor <;> intros <;> first | exact repeats_throw | exact repeats_throw _
  | succ fuel ih =>
    obtain ⟨fuel', rfl⟩ : ∃ n, fuel' = n + 1 := ⟨fuel' - 1, by omega⟩
    have hle : fuel ≤ fuel' := by omega
    have ih := ih hle
    exact ⟨repeats_statement_succ ih hle, fun _ => repeats_ifStatement_succ ih hle,
      repeats_elseSuite_succ ih, repeats_suite_succ ih, repeats_blockStatements_succ ih,
      repeats_arms_succ ih hle⟩

/-- A statement is read the same wherever its tokens stand, before the same kind of token. -/
theorem repeats_statement (hle : fuel ≤ fuel') :
    Repeats Stmt.erase (statement fuel) (statement fuel') := (stmtRepeats hle).statement

theorem repeats_blockStatements (hle : fuel ≤ fuel') :
    Repeats Stmt.eraseAll (blockStatements fuel []) (blockStatements fuel' []) :=
  (stmtRepeats hle).blockStatements [] [] rfl

theorem repeats_arms (hle : fuel ≤ fuel') :
    Repeats Arm.eraseAll (arms fuel []) (arms fuel' []) := (stmtRepeats hle).arms [] [] rfl

theorem repeats_elseSuite (hle : fuel ≤ fuel') :
    Repeats Suite.eraseElse (elseSuite fuel) (elseSuite fuel') := (stmtRepeats hle).elseSuite

/-- So is a body. -/
theorem repeats_suite (hle : fuel ≤ fuel') : Repeats Suite.erase (suite fuel) (suite fuel') :=
  (stmtRepeats hle).suite

end Parse

end Offside
