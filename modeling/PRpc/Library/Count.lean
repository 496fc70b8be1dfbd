import Mathlib.Algebra.BigOperators.Group.Finset.Basic
import Mathlib.Algebra.Order.BigOperators.Group.Finset
import Mathlib.Data.Fintype.BigOperators

/-!
# Counting over a family of threads

`total w f` adds the weights `w (f i)` of the places `f i` where the members of a finite family
are. `total_update` says how it changes when one member moves; the accounting invariants of a
concurrent system are linear equations between such totals and list counts.
-/

namespace Count

variable {ι β : Type} [Fintype ι]

/-- The weight of a family of places. -/
def total (w : β → ℕ) (f : ι → β) : ℕ := ∑ i, w (f i)

/-- **One member moves**: the total changes by the difference of its two weights. -/
theorem total_update [DecidableEq ι] (w : β → ℕ) (f : ι → β) (i : ι) (x : β) :
    total w (Function.update f i x) + w (f i) = total w f + w x := by
  unfold total
  have hrest : ∑ j ∈ Finset.univ.erase i, w (Function.update f i x j) =
      ∑ j ∈ Finset.univ.erase i, w (f j) := by
    refine Finset.sum_congr rfl fun j hj => ?_
    rw [Function.update_of_ne (Finset.ne_of_mem_erase hj)]
  rw [← Finset.add_sum_erase _ _ (Finset.mem_univ i),
    ← Finset.add_sum_erase _ _ (Finset.mem_univ i), Function.update_self, hrest]
  omega

theorem le_total (w : β → ℕ) (f : ι → β) (i : ι) : w (f i) ≤ total w f :=
  Finset.single_le_sum (f := fun j => w (f j)) (fun _ _ => Nat.zero_le _) (Finset.mem_univ i)

theorem add_le_total [DecidableEq ι] (w : β → ℕ) (f : ι → β) {i j : ι} (h : i ≠ j) :
    w (f i) + w (f j) ≤ total w f := by
  rw [← Finset.sum_pair (f := fun i => w (f i)) h]
  exact Finset.sum_le_sum_of_subset (Finset.subset_univ _)

theorem total_le_total {w w' : β → ℕ} {f : ι → β} (h : ∀ i, w (f i) ≤ w' (f i)) :
    total w f ≤ total w' f := Finset.sum_le_sum fun i _ => h i

theorem total_eq_zero {w : β → ℕ} {f : ι → β} (h : ∀ i, w (f i) = 0) : total w f = 0 :=
  Finset.sum_eq_zero fun i _ => h i

/-- **One summand changes**: the sum changes with it. -/
theorem sum_add_of_ne {α : Type} {s : Finset α} {f g : α → ℕ} {i : α} (hi : i ∈ s)
    (h : ∀ j ≠ i, f j = g j) : ∑ j ∈ s, f j + g i = ∑ j ∈ s, g j + f i := by
  classical
  have hrest : ∑ j ∈ s.erase i, f j = ∑ j ∈ s.erase i, g j :=
    Finset.sum_congr rfl fun j hj => h j (Finset.ne_of_mem_erase hj)
  rw [← Finset.add_sum_erase _ _ hi, ← Finset.add_sum_erase _ _ hi, hrest]
  omega

end Count
