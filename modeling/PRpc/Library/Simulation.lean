import PRpc.Library.Transition

/-!
# Forward simulation

A system `M` is simulated by a system `N` along a relation if every step of `M` leaves its state
related to the same state of `N` or is matched by one step of it. The steps of `M` are those that
meet a condition `C`, the steps of `N` meet a condition `D`. What holds of the reachable states of
`N` then holds of what a state of `M` is related to.
-/

namespace System

variable {σ τ α β : Type}

/-- The steps of `M` that meet `C` are matched by steps of `N` that meet `D`. -/
structure Simulation (M : System σ α) (C : σ → α → Prop) (N : System τ β) (D : τ → β → Prop)
    (R : σ → τ → Prop) : Prop where
  init : ∀ s, M.init s → ∃ t, N.init t ∧ R s t
  step : ∀ s a s' t, M.Reach C s → N.Reach D t → R s t → C s a → M.step s a = some s' →
    R s' t ∨ ∃ b t', D t b ∧ N.step t b = some t' ∧ R s' t'

variable {M : System σ α} {N : System τ β} {C : σ → α → Prop} {D : τ → β → Prop}
  {R : σ → τ → Prop} {s : σ}

/-- **A run is followed** by one of another system, with any number of steps for each of its own. -/
theorem Reach.followed (h : M.Reach C s) (hinit : ∀ s, M.init s → ∃ t, N.Reach D t ∧ R s t)
    (hstep : ∀ s a s' t, M.Reach C s → N.Reach D t → R s t → C s a → M.step s a = some s' →
      ∃ t', N.Reach D t' ∧ R s' t') : ∃ t, N.Reach D t ∧ R s t := by
  induction h with
  | init h0 => exact hinit _ h0
  | step hr hC hs ih =>
    obtain ⟨t, ht, hR⟩ := ih
    exact hstep _ _ _ t hr ht hR hC hs

/-- **A run is followed** by one of the simulating system. -/
theorem Reach.simulated (h : M.Reach C s) (hsim : Simulation M C N D R) :
    ∃ t, N.Reach D t ∧ R s t := by
  refine h.followed (fun s h0 => ?_) fun s a s' t hr ht hR hC hs => ?_
  · obtain ⟨t, ht, hR⟩ := hsim.init s h0
    exact ⟨t, .init ht, hR⟩
  · obtain hR' | ⟨b, t', hD, hstep, hR'⟩ := hsim.step s a s' t hr ht hR hC hs
    · exact ⟨t, ht, hR'⟩
    · exact ⟨t', .step ht hD hstep, hR'⟩

/-- A system that contains another one: every step moves the other or leaves it where it is. -/
theorem Reach.project {f : σ → τ} (h : M.Reach C s) (hinit : ∀ s, M.init s → N.init (f s))
    (hstep : ∀ s a s', C s a → M.step s a = some s' →
      f s' = f s ∨ ∃ b, D (f s) b ∧ N.step (f s) b = some (f s')) : N.Reach D (f s) := by
  have hsim : Simulation M C N D fun s t => f s = t := by
    refine ⟨fun s h0 => ⟨f s, hinit s h0, rfl⟩, ?_⟩
    rintro s a s' _ - - rfl hC hs
    obtain heq | ⟨b, hD, hb⟩ := hstep s a s' hC hs
    · exact .inl heq
    · exact .inr ⟨b, f s', hD, hb, rfl⟩
  obtain ⟨t, ht, rfl⟩ := h.simulated hsim
  exact ht

end System
