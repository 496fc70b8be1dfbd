import PRpc.Library.Transition

/-!
# Work

A system in which every step does a piece of work. `income` says how much work its environment has
brought so far, `work` how much is left; a step that brings some brings one piece more than it
leaves behind (`Pays`). So a run is no longer than what was brought (`Pays.length_run`), and the
steps that bring nothing come to an end, however they are chosen (`Pays.exists_still`).
-/

namespace System

variable {σ α : Type} {M : System σ α} {C D : σ → α → Prop} {work income : σ → ℕ} {s s' : σ}

/-- Every step of the kind does more than it leaves behind of what it brings. -/
def Pays (M : System σ α) (C : σ → α → Prop) (work income : σ → ℕ) : Prop :=
  ∀ s a s', M.Reachable s → C s a → M.step s a = some s' → work s' + income s < work s + income s'

/-- None of these actions can be taken. -/
def Still (M : System σ α) (D : σ → α → Prop) (s : σ) : Prop := ∀ a, D s a → M.step s a = none

namespace Pays

theorem mono (h : M.Pays C work income) (hDC : ∀ s a, D s a → C s a) : M.Pays D work income :=
  fun s a s' hs hD => h s a s' hs (hDC s a hD)

/-- **The length of a run** is what it was brought, less what is left to do. -/
theorem length_run [∀ s a, Decidable (D s a)] (h : M.Pays D work income) {as : List α}
    (hs : M.Reachable s) (hr : M.run D s as = some s') :
    as.length + work s' + income s ≤ work s + income s' := by
  induction as generalizing s with
  | nil =>
    cases hr
    rw [List.length_nil]
    omega
  | cons a as ih =>
    obtain ⟨t, ht, -⟩ := exists_step_of_run hr
    obtain ⟨hD, hr⟩ := (run_cons ht).mp hr
    have hpay := h s a t hs hD ht
    have hrest := ih (.step hs trivial ht) hr
    rw [List.length_cons]
    omega

theorem income_run [∀ s a, Decidable (D s a)]
    (hD : ∀ s a s', D s a → M.step s a = some s' → income s' = income s) {as : List α}
    (hr : M.run D s as = some s') : income s' = income s := by
  induction as generalizing s with
  | nil => cases hr; rfl
  | cons a as ih =>
    obtain ⟨t, ht, -⟩ := exists_step_of_run hr
    obtain ⟨hC, hrest⟩ := (run_cons ht).mp hr
    rw [ih hrest, hD s a t hC ht]

/-- **Such actions come to an end**, from wherever they start. -/
theorem exists_still [∀ s a, Decidable (D s a)] (h : M.Pays D work income)
    (hD : ∀ s a s', D s a → M.step s a = some s' → income s' = income s) (hs : M.Reachable s) :
    ∃ as s', M.run D s as = some s' ∧ M.Still D s' := by
  -- by induction on the work that is left
  induction hn : work s using Nat.strong_induction_on generalizing s with
  | _ w ih =>
    by_cases hstill : M.Still D s
    · exact ⟨[], s, rfl, hstill⟩
    · unfold Still at hstill
      push Not at hstill
      obtain ⟨a, hC, hne⟩ := hstill
      obtain ⟨t, ht⟩ := Option.ne_none_iff_exists'.mp hne
      have hpay := h s a t hs hC ht
      have hin := hD s a t hC ht
      obtain ⟨as, s', hrun, hs'⟩ := ih (work t) (by omega) (.step hs trivial ht) rfl
      exact ⟨a :: as, s', (run_cons ht).mpr ⟨hC, hrun⟩, hs'⟩

end Pays

end System
