import Mathlib.Data.Set.Basic

/-!
# Labelled transition systems

A system has initial states and a partial step function, one label for each atomic action. A
reachable state is the end of a finite run. `Reach C` keeps only the runs whose every step meets a
condition `C` on the state before it and its label; a property that the initial states have and
every such step keeps holds of every state of such a run (`Reach.invariant`).
-/

/-- Initial states and what an action does, `none` where it is not enabled. -/
structure System (σ α : Type) where
  init : σ → Prop
  step : σ → α → Option σ

namespace System

variable {σ α : Type} {M : System σ α} {C D : σ → α → Prop} {s s' : σ} {a : α}

/-- The states of the runs whose steps all meet `C`. -/
inductive Reach (M : System σ α) (C : σ → α → Prop) : σ → Prop
  | init {s : σ} : M.init s → Reach M C s
  | step {s s' : σ} {a : α} : Reach M C s → C s a → M.step s a = some s' → Reach M C s'

/-- The states of all runs. -/
abbrev Reachable (M : System σ α) : σ → Prop := M.Reach fun _ _ => True

theorem Reach.mono (h : M.Reach C s) (hCD : ∀ s a, C s a → D s a) : M.Reach D s := by
  induction h with
  | init h0 => exact .init h0
  | step _ hC hs ih => exact .step ih (hCD _ _ hC) hs

theorem Reach.reachable (h : M.Reach C s) : M.Reachable s := h.mono fun _ _ _ => trivial

/-- A property of the initial states that every step of the kind keeps. -/
theorem Reach.invariant {I : σ → Prop} (h : M.Reach C s) (h0 : ∀ s, M.init s → I s)
    (hstep : ∀ s a s', I s → C s a → M.step s a = some s' → I s') : I s := by
  induction h with
  | init hi => exact h0 _ hi
  | step _ hC hs ih => exact hstep _ _ _ ih hC hs

/-- The invariant rule with an invariant `J` that is known already. -/
theorem Reach.invariant_of {I J : σ → Prop} (h : M.Reach C s) (hJ : ∀ s, M.Reachable s → J s)
    (h0 : ∀ s, M.init s → I s)
    (hstep : ∀ s a s', J s → I s → C s a → M.step s a = some s' → I s') : I s := by
  induction h with
  | init hi => exact h0 _ hi
  | step hr hC hs ih => exact hstep _ _ _ (hJ _ hr.reachable) ih hC hs

/-- The state after a list of actions that all meet the condition. -/
def run (M : System σ α) (C : σ → α → Prop) [∀ s a, Decidable (C s a)] : σ → List α → Option σ
  | s, [] => some s
  | s, a :: as => if C s a then (M.step s a).bind fun s' => M.run C s' as else none

theorem run_cons [∀ s a, Decidable (C s a)] {t : σ} {as : List α} (ht : M.step s a = some t) :
    M.run C s (a :: as) = some s' ↔ C s a ∧ M.run C t as = some s' := by
  conv_lhs => unfold run
  by_cases hC : C s a
  · rw [if_pos hC, ht, Option.bind_some, and_iff_right hC]
  · rw [if_neg hC]
    simp [hC]

theorem exists_step_of_run [∀ s a, Decidable (C s a)] {as : List α}
    (h : M.run C s (a :: as) = some s') : ∃ t, M.step s a = some t ∧ M.run C t as = some s' := by
  unfold run at h
  split at h
  · exact Option.bind_eq_some_iff.mp h
  · cases h

theorem run_mono [∀ s a, Decidable (C s a)] [∀ s a, Decidable (D s a)] {as : List α}
    (hCD : ∀ s a, C s a → D s a) (h : M.run C s as = some s') : M.run D s as = some s' := by
  induction as generalizing s with
  | nil => exact h
  | cons a as ih =>
    obtain ⟨t, ht, hr⟩ := exists_step_of_run h
    exact (run_cons ht).mpr ⟨hCD s a ((run_cons ht).mp h).1, ih hr⟩

theorem Reach.run [∀ s a, Decidable (C s a)] {as : List α} (h : M.Reach C s)
    (hr : M.run C s as = some s') : M.Reach C s' := by
  induction as generalizing s with
  | nil => cases hr; exact h
  | cons a as ih =>
    unfold System.run at hr
    split at hr
    · next hC =>
      obtain ⟨t, ht, hr⟩ := Option.bind_eq_some_iff.mp hr
      exact ih (.step h hC ht) hr
    · cases hr

/-- A property holds in every state that a list of actions goes through. -/
def Along (M : System σ α) (P : σ → Prop) : σ → List α → Prop
  | s, [] => P s
  | s, a :: as => P s ∧ ∀ t, M.step s a = some t → M.Along P t as

/-- **Exact conditions.** If a step from such a state leads to a state with the property exactly
when it meets the condition, then a run has the property throughout exactly when all its steps
meet the condition. -/
theorem along_iff {P : σ → Prop} [∀ s a, Decidable (C s a)] (hP : ∀ s, M.Reach C s → P s)
    (hexact : ∀ s a t, M.Reach C s → M.step s a = some t → P t → C s a) {as : List α}
    (h : M.Reach C s) (hr : M.run (fun _ _ => True) s as = some s') :
    M.Along P s as ↔ M.run C s as = some s' := by
  induction as generalizing s with
  | nil =>
    cases hr
    exact iff_of_true (hP _ h) rfl
  | cons a as ih =>
    obtain ⟨t, ht, hr⟩ := exists_step_of_run hr
    constructor
    · rintro ⟨-, hrest⟩
      have hrest := hrest t ht
      have hPt : P t := by cases as with
        | nil => exact hrest
        | cons => exact hrest.1
      have hC := hexact s a t h ht hPt
      exact (run_cons ht).mpr ⟨hC, (ih (.step h hC ht) hr).mp hrest⟩
    · intro hrun
      obtain ⟨hC, hrest⟩ := (run_cons ht).mp hrun
      refine ⟨hP s h, fun t' ht' => ?_⟩
      rw [ht] at ht'
      cases ht'
      exact (ih (.step h hC ht) hr).mpr hrest

end System
