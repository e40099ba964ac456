import Offside.Proofs.Ensures

/-!
# Two computations side by side

Two computations that start in related states may be said to do the same: both succeed with related
results, or both fail for related reasons, and in either case the states after them are related.

## Main definitions

* `Offside.Couples`: what is true of the two outcomes together.
* `Offside.Follows`: what is true of them if the first computation succeeds.

## Main results

* `Offside.couples_bind`, `Offside.follows_bind`: sequences whose parts do the same do the same.
-/

namespace Offside

variable {ε ε' σ τ α α' β β' : Type} {s : σ} {t : τ} {x : EStateM ε σ α} {y : EStateM ε' τ β}
  {ok : α → σ → β → τ → Prop} {bad : ε → σ → ε' → τ → Prop}

/-- What is true after `x`, started in the state `s`, and `y`, started in the state `t`: both succeed,
or both fail. -/
def Couples (s : σ) (t : τ) (x : EStateM ε σ α) (y : EStateM ε' τ β)
    (ok : α → σ → β → τ → Prop) (bad : ε → σ → ε' → τ → Prop) : Prop :=
  match x s, y t with
  | .ok a s', .ok b t' => ok a s' b t'
  | .error e s', .error e' t' => bad e s' e' t'
  | .ok _ _, .error _ _ | .error _ _, .ok _ _ => False

theorem Couples.mono {ok' : α → σ → β → τ → Prop} {bad' : ε → σ → ε' → τ → Prop}
    (h : Couples s t x y ok bad) (hok : ∀ a s' b t', ok a s' b t' → ok' a s' b t')
    (hbad : ∀ e s' e' t', bad e s' e' t' → bad' e s' e' t') : Couples s t x y ok' bad' := by
  rw [Couples] at h ⊢
  split at h
  · exact hok _ _ _ _ h
  · exact hbad _ _ _ _ h
  · exact h
  · exact h

/-- Two computations that do the same as a third one. -/
theorem Couples.trans {ε'' υ γ : Type} {u : υ} {z : EStateM ε'' υ γ}
    {ok' : β → τ → γ → υ → Prop} {bad' : ε' → τ → ε'' → υ → Prop} (h : Couples s t x y ok bad)
    (k : Couples t u y z ok' bad') :
    Couples s u x z (fun a s' c u' => ∃ b t', ok a s' b t' ∧ ok' b t' c u')
      fun e s' e'' u' => ∃ e' t', bad e s' e' t' ∧ bad' e' t' e'' u' := by
  rw [Couples] at h k ⊢
  split at h
  · next hx hy =>
    rw [hy] at k
    split at k
    · next hy' hz =>
      cases hy'
      rw [hx, hz]
      exact ⟨_, _, h, k⟩
    · next hy' _ => cases hy'
    · exact k.elim
    · exact k.elim
  · next hx hy =>
    rw [hy] at k
    split at k
    · next hy' _ => cases hy'
    · next hy' hz =>
      cases hy'
      rw [hx, hz]
      exact ⟨_, _, h, k⟩
    · exact k.elim
    · exact k.elim
  · exact h.elim
  · exact h.elim

theorem couples_congr {s' : σ} {t' : τ} {x' : EStateM ε σ α} {y' : EStateM ε' τ β}
    (hx : x s = x' s') (hy : y t = y' t') (h : Couples s' t' x' y' ok bad) :
    Couples s t x y ok bad := by
  rw [Couples, hx, hy]
  exact h

theorem couples_bind {f : α → EStateM ε σ α'} {g : β → EStateM ε' τ β'}
    {ok : α' → σ → β' → τ → Prop}
    (h : Couples s t x y (fun a s' b t' => Couples s' t' (f a) (g b) ok bad) bad) :
    Couples s t (x >>= f) (y >>= g) ok bad := by
  show match EStateM.bind x f s, EStateM.bind y g t with
    | .ok a s', .ok b t' => ok a s' b t'
    | .error e s', .error e' t' => bad e s' e' t'
    | .ok _ _, .error _ _ | .error _ _, .ok _ _ => False
  rw [Couples] at h
  rw [EStateM.bind, EStateM.bind]
  split at h
  · next hx hy =>
    rw [hx, hy]
    exact h
  · next hx hy =>
    rw [hx, hy]
    exact h
  · exact h.elim
  · exact h.elim

theorem couples_get {f : σ → EStateM ε σ α} {g : τ → EStateM ε' τ β}
    (h : Couples s t (f s) (g t) ok bad) : Couples s t (get >>= f) (get >>= g) ok bad := h

/-- What is known of each of the two is known of both together. -/
theorem Couples.and_yields {ok₁ : α → σ → Prop} {bad₁ : ε → σ → Prop} {ok₂ : β → τ → Prop}
    {bad₂ : ε' → τ → Prop} (h : Couples s t x y ok bad) (hx : Yields s x ok₁ bad₁)
    (hy : Yields t y ok₂ bad₂) :
    Couples s t x y (fun a s' b t' => ok a s' b t' ∧ ok₁ a s' ∧ ok₂ b t')
      fun e s' e' t' => bad e s' e' t' ∧ bad₁ e s' ∧ bad₂ e' t' := by
  rw [Couples] at h ⊢
  rw [Yields] at hx hy
  split at h
  · next hx' hy' =>
    rw [hx'] at hx
    rw [hy'] at hy
    exact ⟨h, hx, hy⟩
  · next hx' hy' =>
    rw [hx'] at hx
    rw [hy'] at hy
    exact ⟨h, hx, hy⟩
  · exact h.elim
  · exact h.elim

/-- What is known of the first one. -/
theorem Couples.and_left {ok₁ : α → σ → Prop} {bad₁ : ε → σ → Prop} (h : Couples s t x y ok bad)
    (hx : Yields s x ok₁ bad₁) :
    Couples s t x y (fun a s' b t' => ok a s' b t' ∧ ok₁ a s')
      fun e s' e' t' => bad e s' e' t' ∧ bad₁ e s' := by
  have hy : Yields t y (fun _ _ => True) fun _ _ => True := by
    rw [Yields]
    split <;> trivial
  exact (h.and_yields hx hy).mono (fun _ _ _ _ hok => ⟨hok.1, hok.2.1⟩)
    fun _ _ _ _ hbad => ⟨hbad.1, hbad.2.1⟩

/-- The second computation is ahead by a part that succeeds. -/
theorem couples_bind_right {y : EStateM ε' τ β} {g : β → EStateM ε' τ β'}
    {ok : α → σ → β' → τ → Prop}
    (h : Yields t y (fun b t' => Couples s t' x (g b) ok bad) fun _ _ => False) :
    Couples s t x (y >>= g) ok bad := by
  rw [Yields] at h
  split at h
  · next b t' hy =>
    have hbind : (y >>= g) t = g b t' := by
      show EStateM.bind y g t = _
      rw [EStateM.bind, hy]
    rw [Couples, hbind]
    exact h
  · exact h.elim

/-- The second computation succeeds without the first one. -/
theorem couples_of_ok {a : α} {s' : σ} (hx : x.run s = .ok a s')
    (hy : Yields t y (ok a s') fun _ _ => False) : Couples s t x y ok bad := by
  rw [EStateM.run] at hx
  rw [Couples, hx]
  rw [Yields] at hy
  split at hy
  · next hy' => rwa [hy']
  · exact hy.elim

/-- What is true after `y`, started in the state `t`, if `x`, started in the state `s`, succeeds: then
`y` succeeds as well. -/
def Follows (s : σ) (t : τ) (x : EStateM ε σ α) (y : EStateM ε' τ β)
    (ok : α → σ → β → τ → Prop) : Prop :=
  match x s with
  | .ok a s' => Yields t y (ok a s') fun _ _ => False
  | .error _ _ => True

theorem Follows.exists_ok {a : α} {s' : σ} (h : Follows s t x y ok) (hx : x.run s = .ok a s') :
    ∃ b t', y.run t = .ok b t' ∧ ok a s' b t' := by
  rw [EStateM.run] at hx
  rw [Follows, hx] at h
  dsimp only at h
  rw [Yields] at h
  split at h
  · next b t' hy => exact ⟨b, t', hy, h⟩
  · exact h.elim

theorem Follows.mono {ok' : α → σ → β → τ → Prop} (h : Follows s t x y ok)
    (hok : ∀ a s' b t', ok a s' b t' → ok' a s' b t') : Follows s t x y ok' := by
  rw [Follows] at h ⊢
  split at h
  · exact h.mono (hok _ _) fun _ _ hbad => hbad
  · exact h

/-- What is known of the outcomes, together with how they came about. -/
theorem Follows.run (h : Follows s t x y ok) :
    Follows s t x y fun a s' b t' => ok a s' b t' ∧ x.run s = .ok a s' ∧ y.run t = .ok b t' := by
  rw [Follows] at h ⊢
  split at h
  · next hx => exact h.run.mono (fun _ _ hy => ⟨hy.2, hx, hy.1⟩) fun _ _ hbad => hbad.2
  · trivial

theorem follows_bind {f : α → EStateM ε σ α'} {g : β → EStateM ε' τ β'}
    {ok : α' → σ → β' → τ → Prop}
    (h : Follows s t x y fun a s' b t' => Follows s' t' (f a) (g b) ok) :
    Follows s t (x >>= f) (y >>= g) ok := by
  show match EStateM.bind x f s with
    | .ok a s' => Yields t (y >>= g) (ok a s') fun _ _ => False
    | .error _ _ => True
  rw [Follows] at h
  rw [EStateM.bind]
  split at h
  · next a s' hx =>
    rw [hx]
    dsimp only
    split
    · next hf =>
      refine yields_bind (h.mono (fun b t' hbt => ?_) fun _ _ hbad => hbad)
      rwa [Follows, hf] at hbt
    · trivial
  · next hx =>
    rw [hx]
    trivial

end Offside
