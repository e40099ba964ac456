import Offside.Proofs.Canonical.Simple
import Offside.Proofs.Canonical.Text
import Offside.Proofs.Lowering.Printed
import Offside.Proofs.Parser.Dangling
import Offside.Proofs.Parser.Replay

/-!
# Chains of branches

An `elif` is short for an `else` with an `if` in it. A chain of branches is read as the same
statement as the `if` in which every branch but the first one stands in the `else` of the branch
before it, as a block of its own one level deeper or, if everything is on one line, behind the colon
of that `else`.

Where the bodies are blocks, both are read from the inside out, branch by branch. On one line the
body of a branch may be a statement that takes the branches behind it. It takes them in the chain
and in the nested `if`s alike, since it cannot tell the two apart.

## Main definitions

* `Offside.Parse.Branch`: the tokens of a condition and of the body behind it.
* `Offside.Parse.BodyStyle`: bodies that are blocks, and bodies on one line.
* `Offside.Parse.BodyStyle.Reads`: the tokens of a body that can be read.
* `Offside.Parse.chainTokens`, `Offside.Parse.nestedTokens`: a chain of branches and nested ones.

## Main results

* `Offside.Parse.exists_tails`: chains and nested branches are read as the same branch.
-/

namespace Offside.Parse

variable {α β : Type} {p q : Parser} {ks K : List Kind} {k : Kind}

/-! ### Tokens -/

/-- The tokens of a condition and of the body behind it. -/
structure Branch where
  condition : List Kind
  body : List Kind

/-- How the bodies of an `if` are laid out: each is a block, or all are on one line. -/
inductive BodyStyle
  | block
  | inline
  deriving DecidableEq, Repr

/-- A condition with its colon, the body and what follows it. -/
def Branch.tokens (b : Branch) (rest : List Kind) : List Kind :=
  b.condition ++ .symbol .colon :: (b.body ++ rest)

/-- An `else` with its body, if there is one. -/
def elseTokens : Option (List Kind) → List Kind
  | none => []
  | some body => .keyword .elseWord :: .symbol .colon :: body

/-- What opens a body. -/
def BodyStyle.opening : BodyStyle → List Kind
  | block => [.endOfLine, .indent]
  | inline => []

/-- What closes a body. -/
def BodyStyle.closing : BodyStyle → List Kind
  | block => [.dedent]
  | inline => []

/-- Branches that are written with `elif`, and the last one. -/
def chainTokens (other : Option (List Kind)) : List Branch → List Kind
  | [] => elseTokens other
  | b :: bs => .keyword .elifWord :: b.tokens (chainTokens other bs)

/-- The same branches, each an `if` in the `else` of the one before it. -/
def nestedTokens (style : BodyStyle) (other : Option (List Kind)) : List Branch → List Kind
  | [] => elseTokens other
  | b :: bs => .keyword .elseWord :: .symbol .colon :: (style.opening ++
      .keyword .ifWord :: (b.tokens (nestedTokens style other bs) ++ style.closing))

/-! ### Bodies -/

/-- The tokens are read as a block somewhere. -/
def ReadsBlock (ks : List Kind) : Prop :=
  ∃ p fuel body q, p.Bounded ∧ p.current.kind = .endOfLine ∧ p.kinds = ks ++ q.kinds ∧
    (suite fuel).run p = .ok body q

/-- The tokens are read as a statement on a line of its own somewhere. It does not end in a bare
`return`. -/
def ReadsInline (ks : List Kind) : Prop :=
  ∃ p fuel s q, p.Bounded ∧ p.kinds = ks ++ q.kinds ∧ q.current.kind.isEnd ∧
    (statement fuel).run p = .ok s q ∧ OneLine ks

/-- The tokens are read as a body. -/
def BodyStyle.Reads : BodyStyle → List Kind → Prop
  | block => ReadsBlock
  | inline => ReadsInline

/-- What may follow the last body. -/
def BodyStyle.stop : BodyStyle → Kind → Bool
  | block => fun _ => true
  | inline => Kind.isEnd

/-- The lines of a block. -/
def blockLines (fuel : Nat) : Parse (List Stmt) := do
  expect .indent (.blockStart .statements)
  blockStatements fuel []

theorem repeats_blockLines {fuel fuel' : Nat} (hle : fuel ≤ fuel') :
    Repeats Stmt.eraseAll (blockLines fuel) (blockLines fuel') :=
  repeats_bind (repeats_expect Kind.noConfusion) fun _ _ _ => repeats_blockStatements hle

/-- A block behind the end of a line. -/
def blockSuite (fuel : Nat) : Parse Suite := do
  let start ← place
  let stmts ← blockLines fuel
  if stmts.isEmpty then refuse .blockStatement
  expect .dedent (.blockEnd .statements)
  return .mk start stmts

theorem suite_of_endOfLine {fuel : Nat} (hk : p.current.kind = .endOfLine) :
    suite (fuel + 1) p = (advance >>= fun _ => blockSuite fuel) p := by
  rw [suite]
  refine (?_ : (if p.current.kind = .endOfLine then _ else _ : Parse Suite) p = _)
  rw [if_pos hk]
  simp only [blockSuite, blockLines, bind_assoc]

theorem succeeds_suite_block {fuel : Nat} {ok : Suite → Parser → Prop}
    (hp : p.kinds = .endOfLine :: K) (hK : K ≠ [])
    (h : ∀ q, q.kinds = K → q.afterDedent = false → Succeeds q (blockSuite fuel) ok) :
    Succeeds p (suite (fuel + 1)) ok := by
  rw [Succeeds, Yields, suite_of_endOfLine (Parser.current_of_kinds hp)]
  exact succeeds_advance hp hK h

/-- A block that was read has lines and a dedent behind them. -/
private theorem exists_of_run_block {fuel : Nat} {body : Suite} (hp : p.Bounded)
    (hk : p.current.kind = .endOfLine) (hrun : (suite (fuel + 1)).run p = .ok body q) :
    ∃ ss p₂ lines, (blockLines fuel).run p.advance = .ok ss p₂ ∧ ss.isEmpty = false ∧
      p.advance.kinds = lines ++ p₂.kinds ∧ p₂.kinds = .dedent :: q.kinds := by
  rw [EStateM.run, suite_of_endOfLine hk] at hrun
  obtain ⟨_, _, ⟨⟩, hrun⟩ := exists_of_run_bind hrun
  obtain ⟨start, _, ⟨⟩, hrun⟩ := exists_of_run_bind hrun
  obtain ⟨ss, p₂, hlines, hrun⟩ := exists_of_run_bind hrun
  have hp₁ : p.advance.Bounded := (hp.advance (by rw [hk]; exact Kind.noConfusion)).2
  obtain ⟨lines, h₁, -⟩ := repeats_blockLines (Nat.le_refl fuel) _ _ ss p₂ hp₁ rfl hlines
  have hp₂ := hp₁.of_append h₁
  split at hrun
  · exact ((fails_bind fails_refuse).not_ok hrun).elim
  · next hsome =>
    obtain ⟨_, p₃, hexpect, hrun⟩ := exists_of_run_bind hrun
    obtain ⟨_, _, ⟨⟩, hexpect⟩ := exists_of_run_bind hexpect
    split at hexpect
    · next hk₂ =>
      cases hexpect
      cases hrun
      obtain ⟨h₂, -⟩ := hp₂.advance (by rw [hk₂]; exact Kind.noConfusion)
      exact ⟨ss, p₂, lines, hlines, eq_false_of_ne_true hsome, h₁, by rw [h₂, hk₂]⟩
    · exact (fails_refuse.not_ok hexpect).elim

/-- Lines that were read are a block with a dedent behind them, whatever follows that. -/
private theorem leaves_block {fuel : Nat} {ss : List Stmt} {lines : List Kind} (hp : p.Bounded)
    (hdedent : p.afterDedent = false) (hrun : (blockLines fuel).run p = .ok ss q)
    (hsome : ss.isEmpty = false) (hlines : p.kinds = lines ++ q.kinds)
    (hk : q.current.kind = .dedent) :
    Leaves (fun _ => true) (fuel + 1) suite Suite.erase (.endOfLine :: (lines ++ [.dedent]))
      (.mk .erased (Stmt.eraseAll ss)) := by
  intro n p' after hn hp' ⟨k, hafter, _⟩
  obtain ⟨n, rfl⟩ : ∃ i, n = i + 1 := ⟨n - 1, by omega⟩
  have hp' : p'.kinds = .endOfLine :: (lines ++ .dedent :: after) := by simpa using hp'
  refine succeeds_suite_block hp' (by simp) fun r hr hdedent' => ?_
  rw [blockSuite]
  refine succeeds_place fun start' => ?_
  refine succeeds_bind ((RepeatsFrom.copy (repeats_blockLines (Nat.le_of_succ_le_succ hn) _)
    hp hrun hlines hr ?_ (hdedent'.trans hdedent.symm)).mono ?_)
  · rw [Parser.head?_kinds, hk]
    rfl
  rintro ss' r' ⟨hss, hr', -⟩
  rw [Stmt.isEmpty_congr hss, hsome, if_neg Bool.false_ne_true]
  refine succeeds_expect hr' ?_ fun r'' hr'' _ => ?_
  · rintro rfl
    cases hafter
  · exact ⟨by simp only [Suite.erase, hss], hr''⟩

/-- A block is closed by a dedent, and nothing depends on what follows that. -/
theorem ReadsBlock.exists_leaves (h : ReadsBlock ks) :
    ks.getLast? = some .dedent ∧
      ∃ bound c, Leaves (fun _ => true) bound suite Suite.erase ks c := by
  obtain ⟨p, fuel, body, q, hp, hk, hkinds, hrun⟩ := h
  cases fuel with
  | zero => cases hrun
  | succ fuel =>
    obtain ⟨ss, p₂, lines, hlines, hsome, h₁, h₂⟩ := exists_of_run_block hp hk hrun
    obtain ⟨hfirst, hp₁⟩ := hp.advance (by rw [hk]; exact Kind.noConfusion)
    obtain rfl : ks = .endOfLine :: (lines ++ [.dedent]) := by
      rw [hfirst, h₁, h₂, hk, List.append_cons, ← List.cons_append] at hkinds
      exact (List.append_cancel_right hkinds).symm
    have hdedent : p.advance.afterDedent = false := by
      rw [Parser.afterDedent_advance, hk]
      rfl
    exact ⟨by rw [← List.cons_append, List.getLast?_concat], fuel + 1, _,
      leaves_block hp₁ hdedent hlines hsome h₁ (Parser.current_of_kinds h₂)⟩

/-- A statement on one line leaves a branch behind it or takes it. -/
theorem ReadsInline.exists_dangles (h : ReadsInline ks) :
    ∃ bound c, Dangles bound suite Suite.erase ks c := by
  obtain ⟨p, fuel, s, q, hp, hkinds, hend, hrun, hline⟩ := h
  have hne : ks ≠ [] := used_ne_nil (fun n hn => repeats_statement hn)
    (fun n hn => fits_statement hp hn) hp hrun hkinds
  obtain ⟨u, us, rfl⟩ := List.exists_cons_of_ne_nil hne
  have hu : u ≠ .endOfLine := by
    rintro rfl
    cases hline.plain _ List.mem_cons_self
  exact ⟨fuel + 1, _,
    (dangles_statement hp hrun hkinds hne hend hline).wrap (wraps_suite hu) rfl⟩

/-- Whether the tokens of a text are a block can be computed. -/
theorem readsBlock_of_text (text : String)
    (h : Succeeds (Parser.ofLexer (Lexer.ofInput (Source.Input.ofString text))) (suite 200)
      fun _ q => (Parser.ofLexer (Lexer.ofInput (Source.Input.ofString text))).kinds =
        ks ++ q.kinds) : ReadsBlock ks := by
  obtain ⟨body, q, hrun, hkinds⟩ := h.exists
  exact ⟨_, _, body, q, Parser.bounded_beforeFirst _, rfl, hkinds, hrun⟩

/-- So can whether they are a statement on a line of its own. -/
theorem readsInline_of_text (text : String)
    (h : Succeeds (Parser.ofText text) (statement 200) fun _ q =>
      (Parser.ofText text).kinds = ks ++ q.kinds ∧ q.current.kind = .endOfLine)
    (plain : ks.all Kind.isPlain) (last : ks.getLast? ≠ some (.keyword .returnWord)) :
    ReadsInline ks := by
  obtain ⟨s, q, hrun, hkinds, hq⟩ := h.exists
  exact ⟨_, _, s, q, Parser.bounded_ofLexer _, hkinds, hq ▸ rfl, hrun,
    List.all_eq_true.1 plain, last⟩

theorem BodyStyle.Reads.exists_leaves {style : BodyStyle} (h : style.Reads ks) :
    ∃ bound c, Leaves style.stop bound suite Suite.erase ks c := by
  cases style with
  | block => exact (ReadsBlock.exists_leaves h).2
  | inline =>
    obtain ⟨bound, c, hdangles⟩ := ReadsInline.exists_dangles h
    exact ⟨bound, c, hdangles.leaves⟩

/-! ### An `if` -/

/-- What follows a body: a branch, or nothing before a token with which no branch starts. -/
def ReadsTail (least : Nat) (ks : List Kind) : Option Suite → List Kind → Prop
  | none, after => ks = after ∧ StartsWith (!·.isBranch) after
  | some other, after => ReadsBranch least ks other after

theorem ReadsTail.ne_nil {least : Nat} {other : Option Suite} {after : List Kind}
    (h : ReadsTail least ks other after) : ks ≠ [] := by
  cases other with
  | none => exact h.1 ▸ h.2.ne_nil
  | some other => exact h.starts.ne_nil

/-- A body and what follows it make up the statement `complete` of the condition and what
follows. -/
def Completes (style : BodyStyle) (bound : Nat) (ks : List Kind)
    (complete : Expr → Option Suite → Stmt) : Prop :=
  ∀ ⦃least n : Nat⦄ ⦃p : Parser⦄ ⦃rest after : List Kind⦄ ⦃other : Option Suite⦄
    (start : Location) (e : Expr), bound + least ≤ n → ReadsTail least rest other after →
    StartsWith style.stop after → p.kinds = ks ++ rest →
    Succeeds p (branches n start e) fun s q =>
      s.erase = complete e.erase other ∧ q.kinds = after

theorem BodyStyle.Reads.exists_completes {style : BodyStyle} (h : style.Reads ks) :
    ∃ bound complete, Completes style bound ks complete := by
  cases style with
  | block =>
    obtain ⟨-, bound, c, hleaves⟩ := ReadsBlock.exists_leaves h
    refine ⟨bound, fun e other => .branch .erased e c other, ?_⟩
    intro least n p rest after other start e hn htail hafter hp
    cases other with
    | none =>
      obtain ⟨rfl, hstop⟩ := htail
      exact succeeds_branches_none hstop (hleaves (by omega) hp hafter)
    | some other =>
      have hrest : StartsWith (fun _ => true) rest := htail.starts.mono fun _ _ => rfl
      refine succeeds_bind ((hleaves (by omega) hp hrest).mono fun body q hbody => ?_)
      refine succeeds_bind ((htail.reads hbody.2 (by omega)).mono fun other' r hother => ?_)
      exact ⟨by simp only [Stmt.erase, hbody.1, hother.1], hother.2⟩
  | inline =>
    obtain ⟨bound, c, hdangles⟩ := ReadsInline.exists_dangles h
    obtain ⟨complete, htakes⟩ := hdangles.takes
    refine ⟨bound, fun e other => other.elim (.branch .erased e c none) (complete e), ?_⟩
    intro least n p rest after other start e hn htail hafter hp
    cases other with
    | none =>
      obtain ⟨rfl, hstop⟩ := htail
      exact succeeds_branches_none hstop (hdangles.leaves (show bound ≤ n by omega) hp hafter)
    | some other => exact htakes start e hn htail hafter.not_isBranch hp

/-- The branch can be read, and with what follows it, it makes up the statement `complete`. -/
def Branch.ReadsIf (style : BodyStyle) (b : Branch) (bound : Nat)
    (complete : Option Suite → Stmt) : Prop :=
  ∀ ⦃least n : Nat⦄ ⦃p : Parser⦄ ⦃k : Kind⦄ ⦃rest after : List Kind⦄ ⦃other : Option Suite⦄,
    bound + least ≤ n → ReadsTail least rest other after → StartsWith style.stop after →
    p.kinds = k :: b.tokens rest →
    Succeeds p (ifStatement n) fun s q => s.erase = complete other ∧ q.kinds = after

/-- The parts of a branch can be read. -/
structure Branch.Reads (style : BodyStyle) (b : Branch) : Prop where
  condition : ∃ e, ReadsAs b.condition e
  body : style.Reads b.body

theorem Branch.Reads.exists_readsIf {style : BodyStyle} {b : Branch} (h : b.Reads style) :
    ∃ bound complete, b.ReadsIf style bound complete := by
  obtain ⟨e, p₀, e₀, q₀, hp₀, hkinds₀, hrun₀, he, hq₀⟩ := h.condition
  obtain ⟨bound, complete, hbody⟩ := h.body.exists_completes
  refine ⟨p₀.fuel + bound + 1, complete e.erase, ?_⟩
  intro least n p k rest after other hn htail hafter hp
  obtain ⟨n, rfl⟩ : ∃ i, n = i + 1 := ⟨n - 1, by omega⟩
  rw [ifStatement]
  refine succeeds_place fun start => succeeds_advance hp (by simp [Branch.tokens]) fun r hr _ => ?_
  have hend : q₀.kinds = [.endOfInput] := by
    obtain ⟨used, -, hused, -⟩ :=
      transfers_value (Nat.le_refl _) (fun _ h => h) _ _ _ _ hp₀ rfl hrun₀
    exact (hp₀.of_append hused).kinds_of_end hq₀
  have hcondition := TransfersFrom.copy (transfers_expression (show p₀.fuel ≤ n by omega)
    (fun _ h => h) _) hp₀ hrun₀ (by rw [hend, hkinds₀]) hr
    (.inr ⟨_, by rw [hend]; rfl, rfl, _, rfl, rfl⟩)
  refine succeeds_bind (hcondition.mono ?_)
  rintro e' r' ⟨he', hr', -⟩
  refine succeeds_expect hr' (by simp [htail.ne_nil]) fun r'' hr'' _ => ?_
  rw [← he, ← he']
  exact hbody start e' (by omega) htail hafter hr''

theorem succeeds_statement_if {n : Nat} {ok : Stmt → Parser → Prop}
    (hp : p.kinds = .keyword .ifWord :: K) (h : Succeeds p (ifStatement n) ok) :
    Succeeds p (statement (n + 1)) ok := by
  rw [statement]
  exact succeeds_place fun start => succeeds_kind hp h

/-- A block with a single `if`. -/
theorem succeeds_blockStatements_if {n : Nat} {t : Stmt} (hp : p.kinds = .keyword .ifWord :: ks)
    (h : ∀ q, q.kinds = p.kinds → Succeeds q (ifStatement n) fun s r =>
      s.erase = t ∧ r.kinds = .dedent :: K) :
    Succeeds p (blockStatements (n + 2) []) fun ss q =>
      Stmt.eraseAll ss = [t] ∧ q.kinds = .dedent :: K := by
  rw [blockStatements]
  refine succeeds_skipLineEnds (.inl hp) (by simp) fun q hq _ => succeeds_get ?_
  rw [if_neg (by simp [Parser.atBlockEnd, Parser.current_of_kinds hq])]
  refine succeeds_bind ((succeeds_statement_if hq (h q (hq.trans hp.symm))).mono fun s r hs => ?_)
  have hend : r.atStatementEnd := by simp [Parser.atStatementEnd, Parser.current_of_kinds hs.2]
  refine succeeds_bind (succeeds_get ?_)
  rw [hend]
  refine (?_ : Succeeds r (blockStatements (n + 1) ([] ++ [s])) _)
  rw [blockStatements]
  refine succeeds_skipLineEnds (.inl hs.2) (by simp) fun q' hq' _ => succeeds_get ?_
  rw [if_pos (by simp [Parser.atBlockEnd, Parser.current_of_kinds hq'])]
  exact ⟨by simp only [List.nil_append, Stmt.eraseAll, hs.1], hq'⟩

/-- A body that is nothing but an `if`. -/
theorem succeeds_suite_enclose {style : BodyStyle} {n : Nat} {t : Stmt} {after : List Kind}
    (hp : p.kinds = style.opening ++ .keyword .ifWord :: ks) (hne : after ≠ [])
    (h : ∀ n' q, n ≤ n' → q.kinds = .keyword .ifWord :: ks → Succeeds q (ifStatement n') fun s r =>
      s.erase = t ∧ r.kinds = style.closing ++ after) :
    Succeeds p (suite (n + 3)) fun body q => body.erase = .mk .erased [t] ∧ q.kinds = after := by
  cases style with
  | block =>
    refine succeeds_suite_block hp (by simp) fun q hq _ => ?_
    have hlines : Succeeds q (blockLines (n + 2)) fun ss r =>
        Stmt.eraseAll ss = [t] ∧ r.kinds = .dedent :: after :=
      succeeds_expect hq (by simp) fun q₁ h₁ _ =>
        succeeds_blockStatements_if h₁ fun r hr => h n r (Nat.le_refl n) (hr.trans h₁)
    rw [blockSuite]
    refine succeeds_place fun start => succeeds_bind (hlines.mono fun ss r hss => ?_)
    rw [← Stmt.isEmpty_eraseAll ss, hss.1, if_neg (by simp)]
    refine succeeds_expect hss.2 hne fun r' hr' _ => ?_
    exact ⟨by simp only [Suite.erase, hss.1], hr'⟩
  | inline =>
    rw [suite]
    refine succeeds_kind hp ?_
    rw [if_neg (by simp)]
    refine succeeds_place fun start => succeeds_bind ?_
    refine (succeeds_statement_if hp (h (n + 1) p (by omega) hp)).mono fun s q hs => ?_
    exact ⟨by simp only [Suite.erase, Stmt.eraseAll, hs.1], hs.2⟩

/-! ### Chains and nested branches -/

/-- What may follow a chain: at the end of a line if everything is on one line, and no branch if the
chain has no `else`. -/
structure Over (style : BodyStyle) (last : Option (List Kind)) (after : List Kind) : Prop where
  stop : StartsWith style.stop after
  alone (h : last = none) : StartsWith (!·.isBranch) after

theorem Over.closing {style : BodyStyle} {last : Option (List Kind)} {after : List Kind}
    (h : Over style last after) : Over style last (style.closing ++ after) := by
  cases style with
  | block => exact ⟨⟨.dedent, rfl, rfl⟩, fun _ => ⟨.dedent, rfl, rfl⟩⟩
  | inline => exact h

theorem Branch.tokens_append (b : Branch) (ks ks' : List Kind) :
    b.tokens ks ++ ks' = b.tokens (ks ++ ks') := by
  simp [tokens]

/-- An `else` is the branch that its body is. -/
theorem readsBranch_else {least : Nat} {c : Suite} {after : List Kind} (hne : ks ≠ [])
    (h : ∀ n q, least ≤ n → q.kinds = ks → Succeeds q (suite n) fun body r =>
      body.erase = c ∧ r.kinds = after) :
    ReadsBranch (least + 1) (.keyword .elseWord :: .symbol .colon :: ks) c after where
  starts := ⟨_, rfl, rfl⟩
  reads {p n} hp hn := by
    obtain ⟨n, rfl⟩ : ∃ i, n = i + 1 := ⟨n - 1, by omega⟩
    rw [elseSuite]
    refine succeeds_place fun start => succeeds_kind hp ?_
    refine succeeds_advance hp (by simp) fun q hq _ => succeeds_expect hq hne fun r hr _ => ?_
    refine succeeds_bind ((h n r (by omega) hr).mono fun body t hbody => ?_)
    exact ⟨by simp only [Suite.eraseElse, hbody.1], hbody.2⟩

/-- An `elif` is the branch that has an `if` as its body. -/
theorem readsBranch_elif {least : Nat} {t : Stmt} {after : List Kind}
    (h : ∀ n q, least ≤ n → q.kinds = .keyword .elifWord :: ks →
      Succeeds q (ifStatement n) fun s r => s.erase = t ∧ r.kinds = after) :
    ReadsBranch (least + 1) (.keyword .elifWord :: ks) (.mk .erased [t]) after where
  starts := ⟨_, rfl, rfl⟩
  reads {p n} hp hn := by
    obtain ⟨n, rfl⟩ : ∃ i, n = i + 1 := ⟨n - 1, by omega⟩
    rw [elseSuite]
    refine succeeds_place fun start => succeeds_kind hp ?_
    refine succeeds_bind ((h n p (by omega) hp).mono fun s r hs => ?_)
    exact ⟨by simp only [Suite.eraseElse, Suite.erase, Stmt.eraseAll, hs.1], hs.2⟩

/-- A chain and the nested branches are read as the same branch, if there is any. -/
theorem exists_tails {style : BodyStyle} {last : Option (List Kind)} {bs : List Branch}
    (hbs : ∀ b ∈ bs, b.Reads style) (hlast : ∀ ks ∈ last, style.Reads ks) :
    ∃ least other, ∀ after, Over style last after →
      ReadsTail least (chainTokens last bs ++ after) other after ∧
        ReadsTail least (nestedTokens style last bs ++ after) other after := by
  induction bs with
  | nil =>
    cases last with
    | none => exact ⟨0, none, fun after h => ⟨⟨rfl, h.alone rfl⟩, rfl, h.alone rfl⟩⟩
    | some ks =>
      obtain ⟨bound, c, hleaves⟩ := (hlast ks rfl).exists_leaves
      refine ⟨bound + 1, some c, fun after hover => ?_⟩
      have htail : ReadsBranch (bound + 1) (elseTokens (some ks) ++ after) c after :=
        readsBranch_else (by simp [hover.stop.ne_nil]) fun n q hn hq => hleaves hn hq hover.stop
      exact ⟨htail, htail⟩
  | cons b bs ih =>
    obtain ⟨least, other, htails⟩ := ih (fun c hc => hbs c (List.mem_cons_of_mem b hc))
    obtain ⟨bound, complete, hif⟩ := (hbs b List.mem_cons_self).exists_readsIf
    refine ⟨bound + least + 4, some (.mk .erased [complete other]), fun after hover => ⟨?_, ?_⟩⟩
    · obtain ⟨htail, -⟩ := htails after hover
      rw [chainTokens, List.cons_append, b.tokens_append]
      refine (readsBranch_elif fun n q hn hq => ?_).mono (show bound + least + 1 ≤ _ by omega)
      exact hif hn htail hover.stop hq
    · obtain ⟨-, htail⟩ := htails _ hover.closing
      have htokens : nestedTokens style last (b :: bs) ++ after =
          .keyword .elseWord :: .symbol .colon :: (style.opening ++ .keyword .ifWord ::
            b.tokens (nestedTokens style last bs ++ (style.closing ++ after))) := by
        simp [nestedTokens, Branch.tokens]
      rw [htokens]
      refine readsBranch_else (by simp) fun n q hn hq => ?_
      obtain ⟨n, rfl⟩ : ∃ i, n = i + 3 := ⟨n - 3, by omega⟩
      refine succeeds_suite_enclose hq hover.stop.ne_nil fun n' r hn' hr => ?_
      exact hif (by omega) htail hover.closing.stop hr

/-- A statement that is read with all bounds from some bound on is read with every bound that is
high enough for its tokens. -/
theorem succeeds_statement_of_enough {bound fuel : Nat} {t : Stmt} {after : List Kind}
    (hp : p.Bounded) (hfuel : p.Enough 4 fuel)
    (h : ∀ n, bound ≤ n → Succeeds p (statement n) fun s q => s.erase = t ∧ q.kinds = after) :
    Succeeds p (statement fuel) fun s q => s.erase = t ∧ q.kinds = after := by
  have hdeep {n : Nat} (hn : p.Enough 4 n) :
      Yields p (statement n) (fun _ _ => True) fun e _ => e ≠ .tooDeep :=
    Yields.mono (fits_statement hp hn) (fun _ _ _ => trivial) fun _ _ he => he
  have hmore : p.Enough 4 (bound + fuel) := Nat.le_trans hfuel (Nat.le_add_left _ _)
  have hsame := Parser.couples_self Stmt.relocate_id (tracks_statement fuel (bound + fuel))
    (hdeep hfuel) (hdeep hmore)
  obtain ⟨s, q, hrun, hs, hq⟩ := (h (bound + fuel) (Nat.le_add_right _ _)).exists
  rw [EStateM.run] at hrun
  rw [Couples, hrun] at hsame
  rw [Succeeds, Yields]
  split at hsame
  · next hrun' heq =>
    cases heq
    rw [hrun']
    obtain ⟨rfl, hreplays⟩ := hsame
    refine ⟨hs, ?_⟩
    rw [← hq, Parser.kinds, Parser.kinds, hreplays.current, hreplays.rest]
  · next heq => cases heq
  · next heq => cases heq
  · exact hsame.elim

/-! ### Where a chain of blocks ends -/

/-- Tokens that end in a dedent, if there are any. -/
def Closed (ks : List Kind) : Prop := ∀ k, ks.getLast? = some k → k = .dedent

theorem Closed.append {ks' : List Kind} (h : Closed ks) (h' : Closed ks') : Closed (ks ++ ks') := by
  intro k hk
  rw [List.getLast?_append, Option.or_eq_some_iff] at hk
  exact hk.elim (h' k) fun hk => h k hk.2

theorem Branch.getLast?_tokens {b : Branch} (hbody : b.body.getLast? = some .dedent)
    (h : Closed ks) : (k :: b.tokens ks).getLast? = some .dedent := by
  have hlast : (b.body ++ ks).getLast? = some .dedent := by
    rw [List.getLast?_append, hbody]
    cases hks : ks.getLast? with
    | none => rfl
    | some k => rw [h k hks]; rfl
  rw [tokens, List.append_cons, ← List.cons_append, List.getLast?_append, hlast]
  rfl

theorem closed_of_getLast? (h : ks.getLast? = some .dedent) : Closed ks :=
  fun _ hk => Option.some.inj (hk.symm.trans h)

theorem closed_tails {last : Option (List Kind)} {bs : List Branch}
    (hbs : ∀ b ∈ bs, b.body.getLast? = some .dedent)
    (hlast : ∀ ks ∈ last, ks.getLast? = some .dedent) :
    Closed (chainTokens last bs) ∧ Closed (nestedTokens .block last bs) := by
  induction bs with
  | nil =>
    have hclosed : Closed (elseTokens last) := by
      cases last with
      | none => exact fun _ hk => nomatch (show none = some _ from hk)
      | some ks => exact closed_of_getLast? (by simp [elseTokens, List.getLast?_cons, hlast ks rfl])
    exact ⟨hclosed, hclosed⟩
  | cons b bs ih =>
    have ih := ih fun c hc => hbs c (List.mem_cons_of_mem b hc)
    refine ⟨closed_of_getLast? (Branch.getLast?_tokens (hbs b List.mem_cons_self) ih.1),
      closed_of_getLast? ?_⟩
    simp [nestedTokens, BodyStyle.closing, List.getLast?_append, List.getLast?_cons]

/-- A branch and the tail of a chain are read as a statement, and the statement may end there. -/
theorem succeeds_statement_chain_tail {style : BodyStyle} {b : Branch} {bound least fuel : Nat}
    {complete : Option Suite → Stmt} {rest after : List Kind} {other : Option Suite}
    (hif : b.ReadsIf style bound complete) (hclosed : style = .block →
      (Kind.keyword .ifWord :: b.tokens rest).getLast? = some .dedent)
    (htail : ReadsTail least (rest ++ after) other after) (hafter : StartsWith style.stop after)
    (hp : p.Bounded) (hkinds : p.kinds = .keyword .ifWord :: (b.tokens rest ++ after))
    (hfuel : p.Enough 4 fuel) :
    Succeeds p (statement fuel) fun s q =>
      s.erase = complete other ∧ q.kinds = after ∧ q.atStatementEnd := by
  have hread (n : Nat) (hn : bound + least + 1 ≤ n) :
      Succeeds p (statement n) fun s q => s.erase = complete other ∧ q.kinds = after := by
    obtain ⟨n, rfl⟩ : ∃ i, n = i + 1 := ⟨n - 1, by omega⟩
    rw [b.tokens_append] at hkinds
    exact succeeds_statement_if hkinds (hif (by omega) htail hafter hkinds)
  have hread := succeeds_statement_of_enough hp hfuel hread
  refine (hread.and (ensures_statement (R := Parser.ReadsTo) fuel)).mono ?_
  rintro s q ⟨⟨hs, hq⟩, hreads⟩
  refine ⟨hs, hq, ?_⟩
  cases style with
  | block =>
    exact hreads.atStatementEnd hp (hkinds.trans (by rw [hq, List.cons_append])) (hclosed rfl)
  | inline =>
    obtain ⟨k, hk, hend⟩ := hafter
    rw [← hq, Parser.head?_kinds] at hk
    obtain rfl := Option.some.inj hk
    rcases Kind.eq_of_isEnd hend with hk | hk | hk <;> simp [Parser.atStatementEnd, hk]

/-- A chain of branches, and the `if` in which every `elif` is an `else` with an `if` in it, are
both read as statements that end where their last bodies do, and have the same text form. -/
theorem run_statement_chain_nested {style : BodyStyle} {first : Branch} {bs : List Branch}
    {last : Option (List Kind)} (hbs : ∀ b ∈ first :: bs, b.Reads style)
    (hlast : ∀ ks ∈ last, style.Reads ks) {p p' : Parser} {after after' : List Kind}
    {fuel fuel' : Nat} (hp : p.Bounded) (hp' : p'.Bounded)
    (hkinds : p.kinds = .keyword .ifWord :: (first.tokens (chainTokens last bs) ++ after))
    (hkinds' : p'.kinds = .keyword .ifWord :: (first.tokens (nestedTokens style last bs) ++ after'))
    (hafter : Over style last after) (hafter' : Over style last after')
    (hfuel : p.Enough 4 fuel) (hfuel' : p'.Enough 4 fuel') :
    ∃ s q s' q', (statement fuel).run p = .ok s q ∧ (statement fuel').run p' = .ok s' q' ∧
      s'.sexpr = s.sexpr ∧ q.kinds = after ∧ q'.kinds = after' ∧
      q.atStatementEnd ∧ q'.atStatementEnd := by
  obtain ⟨least, other, htails⟩ :=
    exists_tails (fun b hb => hbs b (List.mem_cons_of_mem _ hb)) hlast
  obtain ⟨bound, complete, hif⟩ := (hbs first List.mem_cons_self).exists_readsIf
  have hclosed (h : style = .block) :
      (Kind.keyword .ifWord :: first.tokens (chainTokens last bs)).getLast? = some .dedent ∧
        (Kind.keyword .ifWord :: first.tokens (nestedTokens style last bs)).getLast? =
          some .dedent := by
    subst h
    obtain ⟨hfirst, hbs⟩ := List.forall_mem_cons.1 hbs
    have hbody := (ReadsBlock.exists_leaves hfirst.body).1
    have htails := closed_tails (fun b hb => (ReadsBlock.exists_leaves (hbs b hb).body).1)
      fun ks hks => (ReadsBlock.exists_leaves (hlast ks hks)).1
    exact ⟨Branch.getLast?_tokens hbody htails.1, Branch.getLast?_tokens hbody htails.2⟩
  obtain ⟨s, q, hrun, hs, hq, hend⟩ := (succeeds_statement_chain_tail hif (fun h => (hclosed h).1)
    (htails after hafter).1 hafter.stop hp hkinds hfuel).exists
  obtain ⟨s', q', hrun', hs', hq', hend'⟩ := (succeeds_statement_chain_tail hif
    (fun h => (hclosed h).2) (htails after' hafter').2 hafter'.stop hp' hkinds' hfuel').exists
  refine ⟨s, q, s', q', hrun, hrun', ?_, hq, hq', hend, hend'⟩
  rw [← s'.sexpr_erase, hs', ← hs, s.sexpr_erase]

/-- Blocks one level deeper, and a statement on one line that takes the branch behind it. -/
theorem run_statement_chain_nested_elif :
    (∃ s q s' q' p p',
      p = Parser.ofText "if a:\n    x = 1\nelif b:\n    x = 2\nelse:\n    x = 3\n" ∧
      p' = Parser.ofText
        "if a:\n    x = 1\nelse:\n    if b:\n        x = 2\n    else:\n        x = 3\n" ∧
      (statement p.fuel).run p = .ok s q ∧ (statement p'.fuel).run p' = .ok s' q' ∧
      s'.sexpr = s.sexpr ∧ q.kinds = [.endOfInput] ∧ q'.kinds = [.endOfInput] ∧
      q.atStatementEnd ∧ q'.atStatementEnd) ∧
    ∃ s q s' q' p p', p = Parser.ofText "if a: if b: x = 1 elif c: x = 2\n" ∧
      p' = Parser.ofText "if a: if b: x = 1 else: if c: x = 2\n" ∧
      (statement p.fuel).run p = .ok s q ∧ (statement p'.fuel).run p' = .ok s' q' ∧
      s'.sexpr = s.sexpr ∧ q.kinds = [.endOfLine, .endOfInput] ∧
      q'.kinds = [.endOfLine, .endOfInput] ∧ q.atStatementEnd ∧ q'.atStatementEnd := by
  have hfuel (p : Parser) : p.Enough 4 p.fuel := p.enough_fuel.weaken (by omega)
  have hcondition (name : String) (h : IsName name) : ∃ e, ReadsAs [.identifier name] e :=
    ⟨_, textKinds_name h ▸ (spells_name h .erased).readsAs⟩
  have ha := hcondition "a" (by decide)
  have hb := hcondition "b" (by decide)
  constructor
  · let block (digits : String) (n : ℕ) : List Kind :=
      [.endOfLine, .indent, .identifier "x", .symbol .assign, .number digits (.int n), .endOfLine,
        .dedent]
    have hone : ReadsBlock (block "1" 1) := readsBlock_of_text "    x = 1\n" (by decide +kernel)
    have htwo : ReadsBlock (block "2" 2) := readsBlock_of_text "    x = 2\n" (by decide +kernel)
    have hthree : ReadsBlock (block "3" 3) := readsBlock_of_text "    x = 3\n" (by decide +kernel)
    let first : Branch := ⟨[.identifier "a"], block "1" 1⟩
    let second : Branch := ⟨[.identifier "b"], block "2" 2⟩
    have hover : Over .block (some (block "3" 3)) [.endOfInput] :=
      ⟨⟨.endOfInput, rfl, rfl⟩, fun h => nomatch h⟩
    have hbs : ∀ b ∈ [first, second], b.Reads .block := by
      simp only [List.forall_mem_cons]
      exact ⟨⟨ha, hone⟩, ⟨hb, htwo⟩, List.forall_mem_nil _⟩
    obtain ⟨s, q, s', q', h⟩ := run_statement_chain_nested hbs
      (fun ks hks => Option.some.inj hks ▸ hthree)
      (Parser.bounded_ofLexer _) (Parser.bounded_ofLexer _) (by decide +kernel) (by decide +kernel)
      hover hover (hfuel (Parser.ofText "if a:\n    x = 1\nelif b:\n    x = 2\nelse:\n    x = 3\n"))
      (hfuel (Parser.ofText
        "if a:\n    x = 1\nelse:\n    if b:\n        x = 2\n    else:\n        x = 3\n"))
    exact ⟨s, q, s', q', _, _, rfl, rfl, h⟩
  · let assign (digits : String) (n : ℕ) : List Kind :=
      [.identifier "x", .symbol .assign, .number digits (.int n)]
    have hc := hcondition "c" (by decide)
    let inner : List Kind :=
      .keyword .ifWord :: .identifier "b" :: .symbol .colon :: assign "1" 1
    have hone : ReadsInline inner :=
      readsInline_of_text "if b: x = 1\n" (by decide +kernel) (by decide) (by decide)
    have htwo : ReadsInline (assign "2" 2) :=
      readsInline_of_text "x = 2\n" (by decide +kernel) (by decide) (by decide)
    let first : Branch := ⟨[.identifier "a"], inner⟩
    let second : Branch := ⟨[.identifier "c"], assign "2" 2⟩
    have hover : Over .inline none [.endOfLine, .endOfInput] :=
      ⟨⟨.endOfLine, rfl, rfl⟩, fun _ => ⟨.endOfLine, rfl, rfl⟩⟩
    have hbs : ∀ b ∈ [first, second], b.Reads .inline := by
      simp only [List.forall_mem_cons]
      exact ⟨⟨ha, hone⟩, ⟨hc, htwo⟩, List.forall_mem_nil _⟩
    have hlast : ∀ ks ∈ (none : Option (List Kind)), BodyStyle.inline.Reads ks := by simp
    obtain ⟨s, q, s', q', h⟩ := run_statement_chain_nested hbs hlast
      (Parser.bounded_ofLexer _) (Parser.bounded_ofLexer _) (by decide +kernel) (by decide +kernel)
      hover hover (hfuel (Parser.ofText "if a: if b: x = 1 elif c: x = 2\n"))
      (hfuel (Parser.ofText "if a: if b: x = 1 else: if c: x = 2\n"))
    exact ⟨s, q, s', q', _, _, rfl, rfl, h⟩

end Offside.Parse
