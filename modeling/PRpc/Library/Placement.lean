import Mathlib.Logic.Function.Basic
import Mathlib.Logic.ExistsUnique

/-!
# Objects in exactly one place

`At x p` says that the object `x` is found at the place `p`; the places are the containers and the
threads of a system. `Coherent At place` says that each object is found where `place` puts it and
nowhere else. A step that takes one object from one place to another keeps this (`Coherent.move`).
-/

namespace Placement

variable {α π : Type} {At At' : α → π → Prop} {place : α → π}

/-- Each object is found at its place and nowhere else. -/
def Coherent (At : α → π → Prop) (place : α → π) : Prop := ∀ x p, At x p ↔ place x = p

namespace Coherent

theorem existsUnique (h : Coherent At place) (x : α) : ∃! p, At x p :=
  ⟨place x, (h x _).mpr rfl, fun _ hp => ((h x _).mp hp).symm⟩

theorem place_eq (h : Coherent At place) {x : α} {p : π} (hx : At x p) : place x = p :=
  (h x p).mp hx

theorem eq_of_at (h : Coherent At place) {x : α} {p q : π} (hp : At x p) (hq : At x q) : p = q :=
  (h.place_eq hp).symm.trans (h.place_eq hq)

/-- **One object moves** from the place where it was found to another. -/
theorem move [DecidableEq α] (h : Coherent At place) {x : α} {old new : π} (hx : At x old)
    (hne : old ≠ new) (hrest : ∀ y p, p ≠ old → p ≠ new → (At' y p ↔ At y p))
    (hout : ∀ y, At' y old ↔ At y old ∧ y ≠ x) (hin : ∀ y, At' y new ↔ At y new ∨ y = x) :
    Coherent At' (Function.update place x new) := by
  intro y p
  by_cases hyx : y = x
  · subst hyx
    rw [Function.update_self]
    by_cases hold : p = old
    · subst hold
      rw [hout]
      simp [hne.symm]
    · by_cases hnew : p = new
      · subst hnew
        rw [hin]
        simp
      · rw [hrest y p hold hnew]
        constructor
        · intro hp
          exact absurd (h.eq_of_at hp hx) hold
        · intro hp
          exact absurd hp.symm hnew
  · rw [Function.update_of_ne hyx, ← h y p]
    by_cases hold : p = old
    · subst hold
      rw [hout]
      exact and_iff_left hyx
    · by_cases hnew : p = new
      · subst hnew
        rw [hin]
        exact or_iff_left hyx
      · exact hrest y p hold hnew

end Coherent

end Placement
