import Offside.Proofs.Couples
import Offside.Proofs.Parser.Onward
import Offside.Proofs.Parser.Transfer
import Offside.Proofs.Tree.Relocated

/-!
# Two parsers side by side

Parsers that stand on tokens of the same kind, and go on alike, read the same constructs or fail for
the same reason. What else the two have in common is up to the purpose: they may read two texts with
a common part, or one text twice. A comparison names the relation between the two, and says that each
step of reading keeps it. Whatever is read is then the same in both, at places that correspond.

Reading takes a token away only if it has not been refused, and it takes the place of no line end, so
a comparison need not be kept by other steps. It may end where only some number of tokens is left.

## Main definitions

* `Offside.Parser.Comparison`: a relation between parsers that reading keeps.
* `Offside.Parse.Tracks`: two computations that do the same in corresponding parsers.
* `Offside.Failure.ArisesAt`: how a failure arises.

## Main results

* `Offside.Parse.tracks_bind`: sequences of computations that do the same.
* `Offside.Parse.tracks_expect`: tokens that have to be there.
-/

namespace Offside

/-! ### Failures -/

/-- How a failure of reading arises in the parser `p`: a refused token has been shown when it was
read, and any other token is reported where the parser stands on it. -/
def Failure.ArisesAt (p : Parser) : Failure → Prop
  | .diagnostic ⟨.syntactic _ found, place⟩ =>
    found = p.current.kind ∧ place = anchor p.current.location p.current.kind p.stream
  | .diagnostic ⟨.semantic _, _⟩ | .tooDeep => True
  | .diagnostic ⟨.lexical _, _⟩ => False
  | .shown => p.current.kind.isInvalid

/-! ### Corresponding parsers -/

namespace Parser

/-- A relation between two parsers that reading keeps, and how their places correspond. What happens
in the first parser when fewer than `limit` tokens are left is of no interest. -/
structure Comparison where
  place : Location → Location
  limit : Nat
  Like : Parser → Parser → Prop
  kind {p p' : Parser} (h : Like p p') : p'.current.kind = p.current.kind
  location {p p' : Parser} (h : Like p p') (inside : p.current.kind ≠ .endOfLine) :
    p'.current.location = place p.current.location
  anchor {p p' : Parser} (h : Like p p') :
    anchor p'.current.location p'.current.kind p'.stream =
      place (anchor p.current.location p.current.kind p.stream)
  afterDedent {p p' : Parser} (h : Like p p') : p'.afterDedent = p.afterDedent
  mark {p p' : Parser} (h : Like p p') : p'.arena.mark = p.arena.mark
  hasStruct {p p' : Parser} (h : Like p p') (name : String) :
    p'.types.hasStruct name = p.types.hasStruct name
  alias? {p p' : Parser} (h : Like p p') (name : String) :
    p'.types.alias? name = p.types.alias? name
  ends {p p' : Parser} (h : Like p p') (hp : p.rest = []) : p'.rest = []
  goesOn {p p' : Parser} (h : Like p p') (hp : p.rest ≠ []) :
    p'.rest ≠ [] ∨ p.advance.rest.length < limit
  advance {p p' : Parser} (h : Like p p') (accepted : p.current.kind.isInvalid = false) :
    Like p.advance p'.advance ∨ p.advance.rest.length < limit
  note {p p' : Parser} (h : Like p p') (n : Note) : Like (p.note n) (p'.note n)
  addExpr {p p' : Parser} (h : Like p p') (loc : Location) {build build' : Tag → Expr}
    (same : ∀ tag, build' (tag.relocate place) = (build tag).relocate place) :
    Like { p with arena := (p.arena.addExpr loc build).2 }
      { p' with arena := (p'.arena.addExpr (place loc) build').2 }
  addStmt {p p' : Parser} (h : Like p p') (loc : Location) {build build' : Tag → Stmt}
    (same : ∀ tag, build' (tag.relocate place) = (build tag).relocate place) :
    Like { p with arena := (p.arena.addStmt loc build).2 }
      { p' with arena := (p'.arena.addStmt (place loc) build').2 }
  declareAlias {p p' : Parser} (h : Like p p') (name : String) (target : TypeExpr) :
    Like { p with types := p.types.declareAlias name target }
      { p' with types := p'.types.declareAlias name target }
  declareStruct {p p' : Parser} (h : Like p p') (decl : StructDecl) :
    Like { p with types := p.types.declareStruct decl }
      { p' with types := p'.types.declareStruct (decl.relocate place) }

namespace Comparison

variable {w : Comparison} {p p' q : Parser}

/-- So few tokens are left that the comparison has ended. -/
def Beyond (w : Comparison) (p : Parser) : Prop := p.rest.length < w.limit

theorem Beyond.mono (h : w.Beyond p) (hq : p.ReadsOn q) : w.Beyond q :=
  Nat.lt_of_le_of_lt hq.length_le h

/-! ### Decisions -/

theorem atStatementEnd (h : w.Like p p') : p'.atStatementEnd = p.atStatementEnd := by
  rw [Parser.atStatementEnd, Parser.atStatementEnd, w.kind h, w.afterDedent h]

theorem atItemEnd (h : w.Like p p') : p'.atItemEnd = p.atItemEnd := by
  rw [Parser.atItemEnd, Parser.atItemEnd, w.kind h, w.afterDedent h]

theorem atBlockEnd (h : w.Like p p') : p'.atBlockEnd = p.atBlockEnd := by
  rw [Parser.atBlockEnd, Parser.atBlockEnd, w.kind h]

/-- Line ends are skipped in both. -/
theorem skipLineEnds (h : w.Like p p') :
    w.Like p.skipLineEnds p'.skipLineEnds ∨ w.Beyond p.skipLineEnds := by
  fun_induction Parser.skipLineEnds p generalizing p' with
  | case1 p hgo ih =>
    have hbeyond (hb : w.Beyond p.advance) : w.Beyond p.advance.skipLineEnds :=
      hb.mono (Frame.skipLineEnds _)
    rcases w.goesOn h hgo.2 with hne | hb
    · rcases w.advance h (by rw [hgo.1]; rfl) with hnext | hb
      · rw [Parser.skipLineEnds.eq_def p', if_pos ⟨(w.kind h).trans hgo.1, hne⟩]
        exact ih hnext
      · exact .inr (hbeyond hb)
    · exact .inr (hbeyond hb)
  | case2 p hgo =>
    have hstop : ¬ (p'.current.kind = .endOfLine ∧ p'.rest ≠ []) := fun hgo' =>
      hgo ⟨(w.kind h).symm.trans hgo'.1, fun hnil => hgo'.2 (w.ends h hnil)⟩
    rw [Parser.skipLineEnds, if_neg hstop]
    exact .inl h

/-- Equally many tokens are passed over in both, if refused ones do not end the comparison
either. -/
theorem skipUntil (h : w.Like p p')
    (advance : ∀ q q', w.Like q q' → w.Like q.advance q'.advance ∨ w.Beyond q.advance)
    (stop : Kind → Bool) :
    (p'.skipUntil stop).1 = (p.skipUntil stop).1 ∧
        w.Like (p.skipUntil stop).2 (p'.skipUntil stop).2 ∨
      w.Beyond (p.skipUntil stop).2 := by
  fun_induction Parser.skipUntil stop p generalizing p' with
  | case1 p hgo skipped q hskip ih =>
    have hreads : p.advance.ReadsOn q := by
      have := Frame.skipUntil (R := ReadsOn) stop p.advance
      rwa [hskip] at this
    rcases w.goesOn h hgo.2 with hne | hb
    · rcases advance p p' h with hnext | hb
      · rw [Parser.skipUntil.eq_def stop p', if_pos ⟨w.kind h ▸ hgo.1, hne⟩]
        simpa [hskip] using ih hnext
      · exact .inr (hb.mono hreads)
    · exact .inr (Beyond.mono hb hreads)
  | case2 p hgo =>
    have hstop : ¬ (¬ stop p'.current.kind ∧ p'.rest ≠ []) := fun hgo' =>
      hgo ⟨w.kind h ▸ hgo'.1, fun hnil => hgo'.2 (w.ends h hnil)⟩
    rw [Parser.skipUntil, if_neg hstop]
    exact .inl ⟨rfl, h⟩

/-- Recovery passes over the same tokens, and notes the same. -/
theorem recover (h : w.Like p p')
    (advance : ∀ q q', w.Like q q' → w.Like q.advance q'.advance ∨ w.Beyond q.advance)
    (stop : Kind → Bool) :
    w.Like (p.recover stop) (p'.recover stop) ∨ w.Beyond (p.recover stop) := by
  rw [Parser.recover, Parser.recover]
  refine (w.skipUntil h advance stop).imp_left fun ⟨hcount, hskip⟩ => ?_
  show w.Like ((p.skipUntil stop).2.note (.recovered (p.skipUntil stop).1 _))
    ((p'.skipUntil stop).2.note (.recovered (p'.skipUntil stop).1 _))
  rw [hcount, w.kind hskip]
  exact w.note hskip _

end Comparison

end Parser

namespace Parse

variable {w : Parser.Comparison} {p p' : Parser} {k : Kind} {α β : Type} {σ : α → α} {τ : β → β}

/-! ### Computations that do the same -/

/-- A run is astray if the comparison has ended or the bound on its depth has been met. -/
def Astray (w : Parser.Comparison) (p : Parser) (x : Parse α) : Prop :=
  Yields p x (fun _ q => w.Beyond q) fun e q => e = .tooDeep ∨ w.Beyond q

/-- A run that has met the bound on its depth. -/
def TooDeep (p : Parser) (x : Parse α) : Prop := Yields p x (fun _ _ => False) fun e _ => e = .tooDeep

/-- The runs of `x` from `p` and of `x'` from `p'` do the same, where results correspond by `σ`, or
they cannot be compared. -/
inductive TracksAt (w : Parser.Comparison) (σ : α → α) (p p' : Parser) (x x' : Parse α) : Prop
  | astray (h : Astray w p x)
  | tooDeep (h : TooDeep p' x')
  | same (h : Couples p p' x x' (fun a q a' q' => a' = σ a ∧ w.Like q q')
      fun e q e' q' => e' = e.relocate w.place ∧ e.ArisesAt q ∧ w.Like q q')

/-- The computations `x` and `x'` do the same in corresponding parsers on a token of kind `k`. -/
structure TracksFrom (w : Parser.Comparison) (k : Kind) (σ : α → α) (x x' : Parse α) : Prop where
  readsOn : ∀ p, p.current.kind = k → EnsuresAt p Parser.ReadsOn (fun _ => True) x
  run : ∀ p p', w.Like p p' → p.current.kind = k → TracksAt w σ p p' x x'

/-- The same on any token. -/
def Tracks (w : Parser.Comparison) (σ : α → α) (x x' : Parse α) : Prop :=
  ∀ k, TracksFrom w k σ x x'

theorem Tracks.readsOn {x x' : Parse α} (h : Tracks w σ x x') :
    Ensures Parser.ReadsOn (fun _ => True) x := fun p => (h _).readsOn p rfl

theorem Astray.bind {x : Parse α} {f : α → Parse β} (h : Astray w p x)
    (hf : ∀ a, Ensures Parser.ReadsOn (fun _ => True) (f a)) : Astray w p (x >>= f) :=
  yields_bind (Yields.mono h
    (fun a q hq => (hf a q).yields (fun _ _ hr _ => hq.mono hr) fun _ _ hr => .inr (hq.mono hr))
    fun _ _ he => he)

theorem TooDeep.bind {x : Parse α} {f : α → Parse β} (h : TooDeep p x) : TooDeep p (x >>= f) :=
  yields_bind (Yields.mono h (fun _ _ hf => hf.elim) fun _ _ he => he)

theorem TracksAt.congr {q q' : Parser} {x x' y y' : Parse α} (hx : x p = y q) (hx' : x' p' = y' q')
    (h : TracksAt w σ q q' y y') : TracksAt w σ p p' x x' := by
  cases h with
  | astray h => exact .astray (by rwa [Astray, Yields, hx])
  | tooDeep h => exact .tooDeep (by rwa [TooDeep, Yields, hx'])
  | same h => exact .same (couples_congr hx hx' h)

theorem tracksAt_bind {x x' : Parse α} {f f' : α → Parse β} (hx : TracksAt w σ p p' x x')
    (hf : ∀ a, Tracks w τ (f a) (f' (σ a))) : TracksAt w τ p p' (x >>= f) (x' >>= f') := by
  cases hx with
  | astray h => exact .astray (h.bind fun a => (hf a).readsOn)
  | tooDeep h => exact .tooDeep h.bind
  | same h =>
    rw [Couples] at h
    split at h
    · next a q a' q' hrun hrun' =>
      obtain ⟨rfl, hq⟩ := h
      refine TracksAt.congr ?_ ?_ ((hf a _).run q q' hq rfl)
      · show EStateM.bind x f p = _
        rw [EStateM.bind, hrun]
      · show EStateM.bind x' f' p' = _
        rw [EStateM.bind, hrun']
    · next e q e' q' hrun hrun' =>
      refine .same ?_
      show Couples p p' (EStateM.bind x f) (EStateM.bind x' f') _ _
      rw [Couples, EStateM.bind, EStateM.bind, hrun, hrun']
      exact h
    · exact h.elim
    · exact h.elim

theorem tracksAt_get {f f' : Parser → Parse α} (h : TracksAt w σ p p' (f p) (f' p')) :
    TracksAt w σ p p' (get >>= f) (get >>= f') :=
  h.congr (show (get >>= f) p = f p p from rfl) (show (get >>= f') p' = f' p' p' from rfl)

theorem tracksFrom_bind {x x' : Parse α} {f f' : α → Parse β} (hx : TracksFrom w k σ x x')
    (hf : ∀ a, Tracks w τ (f a) (f' (σ a))) : TracksFrom w k τ (x >>= f) (x' >>= f') :=
  ⟨fun p hk => (hx.readsOn p hk).bind fun a _ => (hf a).readsOn,
    fun p p' h hk => tracksAt_bind (hx.run p p' h hk) hf⟩

/-- The same, where results do not depend on the text. -/
theorem tracksFrom_seq {x x' : Parse α} {f f' : α → Parse β} (hx : TracksFrom w k id x x')
    (hf : ∀ a, Tracks w τ (f a) (f' a)) : TracksFrom w k τ (x >>= f) (x' >>= f') :=
  tracksFrom_bind hx hf

theorem tracks_bind {x x' : Parse α} {f f' : α → Parse β} (hx : Tracks w σ x x')
    (hf : ∀ a, Tracks w τ (f a) (f' (σ a))) : Tracks w τ (x >>= f) (x' >>= f') :=
  fun k => tracksFrom_bind (hx k) hf

theorem tracks_seq {x x' : Parse α} {f f' : α → Parse β} (hx : Tracks w id x x')
    (hf : ∀ a, Tracks w τ (f a) (f' a)) : Tracks w τ (x >>= f) (x' >>= f') :=
  tracks_bind hx hf

/-- What fails in both may be followed by anything. -/
theorem tracksFrom_of_fails {x x' : Parse α} {f f' : α → Parse β} (hx : TracksFrom w k σ x x')
    (fails : ∀ p, p.current.kind = k → Fails p x) : TracksFrom w k τ (x >>= f) (x' >>= f') := by
  refine ⟨fun p hk => ?_, fun p p' h hk => ?_⟩
  · exact yields_bind (((hx.readsOn p hk).and (fails p hk)).mono (fun _ _ h => h.2.elim)
      fun _ _ h => h.1)
  · have hfails := fails p hk
    cases hx.run p p' h hk with
    | astray hastray =>
      exact .astray (yields_bind ((Yields.and hastray hfails).mono (fun _ _ h => h.2.elim)
        fun _ _ h => h.1))
    | tooDeep htoo => exact .tooDeep htoo.bind
    | same hsame =>
      exact .same (couples_bind ((hsame.and_left hfails).mono (fun _ _ _ _ h => h.2.elim)
        fun _ _ _ _ h => h.1))

/-- The bound on the depth of the first run is met at once. -/
theorem tracks_tooDeep {x' : Parse α} : Tracks w σ (throw .tooDeep) x' :=
  fun _ => ⟨fun p _ => ensures_throw _ p, fun _ _ _ _ => .astray (.inl rfl)⟩

/-- The bound on the depth of the second run is met at once. -/
theorem TracksFrom.tooDeep {x x' : Parse α} (h : TracksFrom w k σ x x') :
    TracksFrom w k σ x (throw .tooDeep) :=
  ⟨h.readsOn, fun _ _ _ _ => .tooDeep rfl⟩

theorem Tracks.tooDeep {x x' : Parse α} (h : Tracks w σ x x') : Tracks w σ x (throw .tooDeep) :=
  fun k => (h k).tooDeep

/-! ### The basic steps -/

theorem tracksFrom_pure {a a' : α} (h : a' = σ a) : TracksFrom w k σ (pure a) (pure a') :=
  ⟨fun p _ => ensures_pure trivial p, fun _ _ hp _ => .same ⟨h, hp⟩⟩

theorem tracks_pure {a a' : α} (h : a' = σ a) : Tracks w σ (pure a) (pure a') :=
  fun _ => tracksFrom_pure h

theorem tracksFrom_kind {f f' : Kind → Parse α} (h : TracksFrom w k σ (f k) (f' k)) :
    TracksFrom w k σ (kind >>= f) (kind >>= f') := by
  refine ⟨fun p hk => ?_, fun p p' hp hk => ?_⟩
  · have hf := h.readsOn p hk
    rw [← hk] at hf
    exact hf
  · have hf := h.run p p' hp hk
    rw [← hk] at hf
    refine hf.congr (show (kind >>= f) p = f p.current.kind p from rfl) ?_
    show f' p'.current.kind p' = _
    rw [w.kind hp]

theorem tracks_kind {f f' : Kind → Parse α} (h : ∀ k, TracksFrom w k σ (f k) (f' k)) :
    Tracks w σ (kind >>= f) (kind >>= f') := fun k => tracksFrom_kind (h k)

/-- Places correspond, but for that of a line end, of which no use is made. -/
def Corresponds (w : Parser.Comparison) (k : Kind) (place place' : Location) : Prop :=
  k ≠ .endOfLine → place' = w.place place

theorem tracksFrom_place {f f' : Location → Parse α}
    (h : ∀ place place', Corresponds w k place place' → TracksFrom w k σ (f place) (f' place')) :
    TracksFrom w k σ (place >>= f) (place >>= f') := by
  refine ⟨fun p hk => ?_, fun p p' hp hk => ?_⟩
  · exact (h p.current.location (w.place p.current.location) fun _ => rfl).readsOn p hk
  · have hf := (h p.current.location p'.current.location fun hne =>
      w.location hp (by rwa [hk])).run p p' hp hk
    exact hf.congr (show (place >>= f) p = f p.current.location p from rfl)
      (show (place >>= f') p' = f' p'.current.location p' from rfl)

theorem tracks_place {f f' : Location → Parse α}
    (h : ∀ k place place', Corresponds w k place place' →
      TracksFrom w k σ (f place) (f' place')) :
    Tracks w σ (place >>= f) (place >>= f') := fun k => tracksFrom_place (h k)

/-- Decisions on the state of the parser. -/
theorem tracks_get {f f' : Parser → Parse α}
    (hreads : ∀ p, Ensures Parser.ReadsOn (fun _ => True) (f p))
    (h : ∀ p p', w.Like p p' → Tracks w σ (f p) (f' p')) :
    Tracks w σ (get >>= f) (get >>= f') :=
  fun k => ⟨fun p _ => ensures_seq ensures_get hreads p,
    fun p p' hp hk => tracksAt_get ((h p p' hp k).run p p' hp hk)⟩

/-- A decision that does not depend on the text. -/
theorem tracks_test {g : Parser → Bool} {x y x' y' : Parse α}
    (same : ∀ p p', w.Like p p' → g p' = g p) (hx : Tracks w σ x x') (hy : Tracks w σ y y') :
    Tracks w σ (get >>= fun p => if g p then x else y)
      (get >>= fun p => if g p then x' else y') := by
  refine tracks_get (fun p => ?_) fun p p' hp => ?_
  · split
    · exact hx.readsOn
    · exact hy.readsOn
  · rw [same p p' hp]
    split
    · exact hx
    · exact hy

/-- A step that is the same in both, or ends the comparison. -/
theorem tracksFrom_modify {f f' : Parser → Parser} (hreads : ∀ p : Parser, p.ReadsOn (f p))
    (h : ∀ p p', w.Like p p' → p.current.kind = k → w.Like (f p) (f' p') ∨ w.Beyond (f p)) :
    TracksFrom w k id (modify f) (modify f') :=
  ⟨fun p _ => ensures_modify hreads p, fun p p' hp hk =>
    (h p p' hp hk).elim (fun hq => .same ⟨rfl, hq⟩) fun hq => .astray hq⟩

/-- A token that has not been refused is read. -/
theorem tracksFrom_advance (hk : k.isInvalid = false) : TracksFrom w k id advance advance :=
  tracksFrom_modify Parser.Frame.advance fun _ _ hp hpk => w.advance hp (by rwa [hpk])

theorem tracks_skipLineEnds :
    Tracks w id (modify Parser.skipLineEnds) (modify Parser.skipLineEnds) :=
  fun _ => tracksFrom_modify Parser.Frame.skipLineEnds fun _ _ hp _ =>
    Parser.Comparison.skipLineEnds hp

theorem tracks_note (n : Note) : Tracks w id (note n) (note n) :=
  fun _ => tracksFrom_modify (fun p => Parser.Frame.note p n) fun _ _ hp _ => .inl (w.note hp n)

theorem tracksFrom_refuse (expected : Expectation) :
    TracksFrom w k σ (refuse expected) (refuse expected) := by
  refine ⟨fun p _ => ensures_refuse _ p, fun p p' hp _ => tracksAt_get ?_⟩
  dsimp only
  rw [w.kind hp]
  split
  · next hinvalid => exact .same ⟨rfl, hinvalid, hp⟩
  · refine .same ⟨?_, ⟨rfl, rfl⟩, hp⟩
    rw [← w.kind hp, w.anchor hp, w.kind hp]
    rfl

theorem tracks_refuse (expected : Expectation) :
    Tracks w σ (refuse expected) (refuse expected) := fun _ => tracksFrom_refuse expected

/-- Nothing follows a token that is refused. -/
theorem tracksFrom_refuse_bind {expected : Expectation} {f f' : β → Parse α} :
    TracksFrom w k σ (refuse expected >>= f) (refuse expected >>= f') :=
  tracksFrom_of_fails (σ := id) (tracksFrom_refuse expected) fun _ _ => fails_refuse

theorem tracks_fail (error : SemanticError) (place : Location) :
    Tracks w σ (fail error place) (fail error (w.place place)) :=
  fun _ => ⟨fun p _ => ensures_fail _ _ p, fun _ _ hp _ => .same ⟨rfl, trivial, hp⟩⟩

theorem tracksFrom_fail_bind {error : SemanticError} {place : Location} {f f' : β → Parse α} :
    TracksFrom w k σ (fail error place >>= f) (fail error (w.place place) >>= f') :=
  tracksFrom_of_fails (σ := id) (tracks_fail error place k) fun _ _ => fails_fail

/-- A test that does not depend on the text. -/
theorem tracksFrom_ite {c : Prop} [Decidable c] {x x' y y' : Parse α}
    (hx : TracksFrom w k σ x x') (hy : TracksFrom w k σ y y') :
    TracksFrom w k σ (if c then x else y) (if c then x' else y') := by
  split
  · exact hx
  · exact hy

theorem tracks_ite {c : Prop} [Decidable c] {x x' y y' : Parse α} (hx : Tracks w σ x x')
    (hy : Tracks w σ y y') : Tracks w σ (if c then x else y) (if c then x' else y') :=
  fun k => tracksFrom_ite (hx k) (hy k)

theorem tracks_accept? {mark : Kind} (accepted : mark.isInvalid = false) :
    Tracks w id (accept? mark) (accept? mark) := by
  refine tracks_kind fun k => ?_
  split
  · next hk => exact tracksFrom_seq (tracksFrom_advance (hk ▸ accepted)) fun _ => tracks_pure rfl
  · exact tracksFrom_pure rfl

/-- A token that has to be there, and what is done where it is. -/
theorem tracksFrom_expect {mark : Kind} {expected : Expectation} {f f' : Unit → Parse α}
    (accepted : mark.isInvalid = false) (h : k = mark → Tracks w σ (f ()) (f' ())) :
    TracksFrom w k σ (expect mark expected >>= f) (expect mark expected >>= f') := by
  rw [expect, bind_assoc, bind_assoc]
  refine tracksFrom_kind ?_
  split
  · next hk => exact tracksFrom_seq (tracksFrom_advance (hk ▸ accepted)) fun _ => h hk
  · exact tracksFrom_refuse_bind

theorem tracks_expect {mark : Kind} {expected : Expectation} {f f' : Unit → Parse α}
    (accepted : mark.isInvalid = false) (h : Tracks w σ (f ()) (f' ())) :
    Tracks w σ (expect mark expected >>= f) (expect mark expected >>= f') :=
  fun _ => tracksFrom_expect accepted fun _ => h

/-- A name that has to be there, and what is done where it is. -/
theorem tracksFrom_expectName {naming : Naming} {f f' : String → Parse α}
    (h : ∀ name, k = .identifier name → Tracks w σ (f name) (f' name)) :
    TracksFrom w k σ (expectName naming >>= f) (expectName naming >>= f') := by
  rw [expectName, bind_assoc, bind_assoc]
  refine tracksFrom_kind ?_
  split
  · next name =>
    rw [bind_assoc, bind_assoc]
    exact tracksFrom_seq (tracksFrom_advance rfl) fun _ => h name rfl
  · exact tracksFrom_refuse_bind

theorem tracks_expectName {naming : Naming} {f f' : String → Parse α}
    (h : ∀ name, Tracks w σ (f name) (f' name)) :
    Tracks w σ (expectName naming >>= f) (expectName naming >>= f') :=
  fun _ => tracksFrom_expectName fun name _ => h name

theorem tracks_expectStatementEnd (after : Ending) :
    Tracks w id (expectStatementEnd after) (expectStatementEnd after) :=
  tracks_test (fun _ _ hp => by rw [Parser.Comparison.atStatementEnd hp]) (tracks_refuse _)
    (tracks_pure rfl)

/-- A node gets the same number at the place that corresponds. -/
theorem tracks_finishExpr (place : Location) {build build' : Tag → Expr}
    (h : ∀ tag, build' (tag.relocate w.place) = (build tag).relocate w.place) :
    Tracks w (Expr.relocate w.place) (finishExpr place build)
      (finishExpr (w.place place) build') := by
  refine fun _ => ⟨fun p _ => ensures_finishExpr _ _ p, fun p p' hp _ =>
    .same ⟨?_, w.addExpr hp place h⟩⟩
  show build' ⟨p'.arena.exprs.size, w.place place⟩ = _
  rw [show p'.arena.exprs.size = p.arena.exprs.size from congrArg Arena.Mark.exprs (w.mark hp)]
  exact h ⟨_, place⟩

theorem tracks_finishStmt (place : Location) {build build' : Tag → Stmt}
    (h : ∀ tag, build' (tag.relocate w.place) = (build tag).relocate w.place) :
    Tracks w (Stmt.relocate w.place) (finishStmt place build)
      (finishStmt (w.place place) build') := by
  refine fun _ => ⟨fun p _ => ⟨Parser.Frame.addStmt p place build, trivial⟩, fun p p' hp _ =>
    .same ⟨?_, w.addStmt hp place h⟩⟩
  show build' ⟨p'.arena.stmts.size, w.place place⟩ = _
  rw [show p'.arena.stmts.size = p.arena.stmts.size from congrArg Arena.Mark.stmts (w.mark hp)]
  exact h ⟨_, place⟩

end Parse

end Offside
