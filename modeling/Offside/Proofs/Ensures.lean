import Mathlib.Order.Defs.Unbundled

/-!
# What computations keep

A computation with a state may fail, and then the state is still the one where it failed. So what
a computation does to its state is said for both outcomes: the state after it is related to the
one before. For a preorder this is true of a sequence if it is true of its parts.

## Main definitions

* `Offside.Yields`: what is true of either outcome of a computation that starts in a given state.
* `Offside.Ensures`: a computation keeps a relation, and its results have a property.

## Main results

* `Offside.ensures_bind`: sequences of such computations are such computations.
-/

namespace Offside

variable {ε σ α β : Type} {R : σ → σ → Prop} {Q : α → Prop}

/-- What is true after `x`, started in the state `s`, when it succeeds and when it fails. -/
def Yields (s : σ) (x : EStateM ε σ α) (ok : α → σ → Prop) (bad : ε → σ → Prop) : Prop :=
  match x s with
  | .ok a t => ok a t
  | .error e t => bad e t

theorem yields_bind {s : σ} {x : EStateM ε σ α} {f : α → EStateM ε σ β} {ok : β → σ → Prop}
    {bad : ε → σ → Prop} (h : Yields s x (fun a t => Yields t (f a) ok bad) bad) :
    Yields s (x >>= f) ok bad := by
  show match EStateM.bind x f s with
    | .ok b t => ok b t
    | .error e t => bad e t
  rw [Yields] at h
  rw [EStateM.bind]
  split at h
  · next hx => rwa [hx]
  · next hx => rwa [hx]

theorem Yields.ok {s t : σ} {x : EStateM ε σ α} {ok : α → σ → Prop} {bad : ε → σ → Prop} {a : α}
    (h : Yields s x ok bad) (hx : x.run s = .ok a t) : ok a t := by
  rw [EStateM.run] at hx
  rwa [Yields, hx] at h

theorem Yields.error {s t : σ} {x : EStateM ε σ α} {ok : α → σ → Prop} {bad : ε → σ → Prop} {e : ε}
    (h : Yields s x ok bad) (hx : x.run s = .error e t) : bad e t := by
  rw [EStateM.run] at hx
  rwa [Yields, hx] at h

theorem Yields.mono {s : σ} {x : EStateM ε σ α} {ok ok' : α → σ → Prop} {bad bad' : ε → σ → Prop}
    (h : Yields s x ok bad) (hok : ∀ a t, ok a t → ok' a t) (hbad : ∀ e t, bad e t → bad' e t) :
    Yields s x ok' bad' := by
  rw [Yields] at h ⊢
  split at h
  · exact hok _ _ h
  · exact hbad _ _ h

/-- What is known of either outcome, together with how it came about. -/
theorem Yields.run {s : σ} {x : EStateM ε σ α} {ok : α → σ → Prop} {bad : ε → σ → Prop}
    (h : Yields s x ok bad) :
    Yields s x (fun a t => x.run s = .ok a t ∧ ok a t)
      fun e t => x.run s = .error e t ∧ bad e t := by
  rw [Yields] at h ⊢
  split at h
  · exact ⟨‹_›, h⟩
  · exact ⟨‹_›, h⟩

/-- What is known of either outcome for two reasons. -/
theorem Yields.and {s : σ} {x : EStateM ε σ α} {ok ok' : α → σ → Prop} {bad bad' : ε → σ → Prop}
    (h : Yields s x ok bad) (h' : Yields s x ok' bad') :
    Yields s x (fun a t => ok a t ∧ ok' a t) fun e t => bad e t ∧ bad' e t := by
  rw [Yields] at h h' ⊢
  split at h
  · next hx =>
    rw [hx] at h'
    exact ⟨h, h'⟩
  · next hx =>
    rw [hx] at h'
    exact ⟨h, h'⟩

theorem yields_get {s : σ} {f : σ → EStateM ε σ α} {ok : α → σ → Prop} {bad : ε → σ → Prop}
    (h : Yields s (f s) ok bad) : Yields s (get >>= f) ok bad := h

theorem get_bind_apply (s : σ) (f : σ → EStateM ε σ α) : (get >>= f) s = f s s := rfl

/-- A sequence succeeds one part after the other. -/
theorem exists_of_run_bind {x : EStateM ε σ α} {f : α → EStateM ε σ β} {s u : σ} {b : β}
    (h : (x >>= f).run s = .ok b u) : ∃ a t, x.run s = .ok a t ∧ (f a).run t = .ok b u := by
  have h : EStateM.bind x f s = .ok b u := h
  rw [EStateM.bind] at h
  split at h
  · next a t hx => exact ⟨a, t, hx, h⟩
  · cases h

/-- The state after `x`, started in the state `s`, is related to `s` by `R`, and the result of `x`
has the property `Q`. -/
def EnsuresAt (s : σ) (R : σ → σ → Prop) (Q : α → Prop) (x : EStateM ε σ α) : Prop :=
  Yields s x (fun a t => R s t ∧ Q a) fun _ t => R s t

/-- The same in every state. -/
def Ensures (R : σ → σ → Prop) (Q : α → Prop) (x : EStateM ε σ α) : Prop :=
  ∀ s, EnsuresAt s R Q x

theorem EnsuresAt.ok {x : EStateM ε σ α} {s t : σ} {a : α} (h : EnsuresAt s R Q x)
    (hx : x.run s = .ok a t) : R s t ∧ Q a := by
  rw [EnsuresAt] at h
  exact h.ok hx

theorem EnsuresAt.error {x : EStateM ε σ α} {s t : σ} {e : ε} (h : EnsuresAt s R Q x)
    (hx : x.run s = .error e t) : R s t := by
  rw [EnsuresAt] at h
  exact h.error hx

theorem EnsuresAt.yields {s : σ} {x : EStateM ε σ α} {ok : α → σ → Prop} {bad : ε → σ → Prop}
    (h : EnsuresAt s R Q x) (hok : ∀ a t, R s t → Q a → ok a t) (hbad : ∀ e t, R s t → bad e t) :
    Yields s x ok bad :=
  Yields.mono h (fun a t hat => hok a t hat.1 hat.2) hbad

theorem ensuresAt_get {s : σ} {f : σ → EStateM ε σ α} (h : EnsuresAt s R Q (f s)) :
    EnsuresAt s R Q (get >>= f) := h

theorem Ensures.mono {Q' : α → Prop} {x : EStateM ε σ α} (h : Ensures R Q x)
    (hQ : ∀ a, Q a → Q' a) : Ensures R Q' x :=
  fun s => (h s).yields (fun a _ hR ha => ⟨hR, hQ a ha⟩) fun _ _ hR => hR

theorem ensures_modify {f : σ → σ} (hf : ∀ s, R s (f s)) :
    Ensures R (fun _ => True) (modify f : EStateM ε σ Unit) := fun s => ⟨hf s, trivial⟩

section

variable [IsPreorder σ R]

theorem ensures_pure {a : α} (ha : Q a) : Ensures R Q (pure a : EStateM ε σ α) :=
  fun s => ⟨refl s, ha⟩

theorem ensures_throw (e : ε) : Ensures R Q (throw e : EStateM ε σ α) := fun s => refl s

theorem ensures_get : Ensures R (fun _ => True) (get : EStateM ε σ σ) := fun s => ⟨refl s, trivial⟩

theorem EnsuresAt.bind {Q' : β → Prop} {x : EStateM ε σ α} {f : α → EStateM ε σ β} {s : σ}
    (hx : EnsuresAt s R Q x) (hf : ∀ a, Q a → Ensures R Q' (f a)) :
    EnsuresAt s R Q' (x >>= f) := by
  refine yields_bind (hx.yields (fun a t hst ha => ?_) fun _ _ hst => hst)
  exact (hf a ha t).yields (fun b u htu hb => ⟨trans_of R hst htu, hb⟩) fun _ _ => trans_of R hst

theorem ensures_bind {Q' : β → Prop} {x : EStateM ε σ α} {f : α → EStateM ε σ β}
    (hx : Ensures R Q x) (hf : ∀ a, Q a → Ensures R Q' (f a)) : Ensures R Q' (x >>= f) :=
  fun s => (hx s).bind hf

/-- As `ensures_bind`, where nothing has to be known about the first result. -/
theorem ensures_seq {Q' : β → Prop} {x : EStateM ε σ α} {f : α → EStateM ε σ β}
    (hx : Ensures R (fun _ => True) x) (hf : ∀ a, Ensures R Q' (f a)) : Ensures R Q' (x >>= f) :=
  ensures_bind hx fun a _ => hf a

/-- A computation that does not succeed may be followed by anything. -/
theorem ensures_absurd {Q' : β → Prop} {x : EStateM ε σ α} {f : α → EStateM ε σ β}
    (hx : Ensures R (fun _ => False) x) : Ensures R Q' (x >>= f) :=
  ensures_bind hx fun _ hf => hf.elim

/-- A test that may end a computation. -/
theorem ensures_guard {c : Prop} [Decidable c] {Q' : β → Prop} {x : EStateM ε σ α}
    {y : EStateM ε σ β} (hx : Ensures R (fun _ => False) x) (hy : ¬ c → Ensures R Q' y) :
    Ensures R Q' (if c then x >>= fun _ => y else y) := by
  split
  · exact ensures_absurd hx
  · exact hy ‹_›

end

end Offside
