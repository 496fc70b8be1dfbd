import Mathlib.Logic.Function.Iterate

/-!
# Machines that halt

A deterministic machine is a step function; the states in which it has halted are left alone. A
measure that every other step makes smaller bounds the number of steps (`halted_of_le`), and the
state in which the machine halts does not depend on when one looks (`iterate_eq`).
-/

namespace Machine

variable {σ : Type} {step : σ → σ} {halted : σ → Prop}

theorem iterate_of_halted (hfix : ∀ x, halted x → step x = x) {x : σ} (h : halted x) (n : ℕ) :
    step^[n] x = x := Function.iterate_fixed (hfix x h) n

theorem iterate_eq_of_le (hfix : ∀ x, halted x → step x = x) {x : σ} {k n : ℕ}
    (h : halted (step^[k] x)) (hle : k ≤ n) : step^[n] x = step^[k] x := by
  obtain ⟨j, rfl⟩ := Nat.exists_eq_add_of_le hle
  rw [Nat.add_comm, Function.iterate_add_apply, iterate_of_halted hfix h]

theorem iterate_eq (hfix : ∀ x, halted x → step x = x) {x : σ} {k n : ℕ}
    (hk : halted (step^[k] x)) (hn : halted (step^[n] x)) : step^[n] x = step^[k] x := by
  obtain hle | hle := Nat.le_total k n
  · exact iterate_eq_of_le hfix hk hle
  · exact (iterate_eq_of_le hfix hn hle).symm

/-- The measure of the first state bounds the number of steps. -/
theorem halted_of_le {μ : σ → ℕ} (hfix : ∀ x, halted x → step x = x)
    (hdec : ∀ x, ¬ halted x → μ (step x) < μ x) {x : σ} {n : ℕ} (hn : μ x ≤ n) :
    halted (step^[n] x) := by
  induction n generalizing x with
  | zero =>
    by_contra h
    exact absurd (hdec x h) (by omega)
  | succ n ih =>
    by_cases h : halted x
    · rwa [iterate_of_halted hfix h]
    · exact ih (Nat.le_of_lt_succ (Nat.lt_of_lt_of_le (hdec x h) hn))

/-- A relation to the first state that every step keeps. -/
theorem iterate_rel {R : σ → σ → Prop} (hrefl : ∀ x, R x x)
    (hstep : ∀ x y, R x y → R x (step y)) (x : σ) (n : ℕ) : R x (step^[n] x) := by
  induction n with
  | zero => exact hrefl x
  | succ n ih =>
    rw [Function.iterate_succ_apply']
    exact hstep x _ ih

end Machine
