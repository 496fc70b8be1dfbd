import Mathlib.Data.List.Count
import Mathlib.Data.List.Nodup

/-!
# Bounded queues

The operations of a blocking queue at the moment they take effect: a push that finds room, a pop
that finds an element. A timed operation that gives up is the `none` of these, a waiting one is an
action that is not enabled yet.
-/

namespace Queue

variable {α : Type} {max : ℕ} {q q' : List α} {x y : α} {back : Bool}

/-- Push at the back or at the front, if there is room. -/
def tryPush (max : ℕ) (q : List α) (x : α) (back : Bool) : Option (List α) :=
  if q.length < max then some (if back then q ++ [x] else x :: q) else none

/-- Pop at the front. -/
def tryPop : List α → Option (α × List α)
  | [] => none
  | x :: q => some (x, q)

theorem of_tryPush (h : tryPush max q x back = some q') :
    q.length < max ∧ q' = if back then q ++ [x] else x :: q := by
  unfold tryPush at h
  split at h
  · next hlt =>
    cases h
    exact ⟨hlt, rfl⟩
  · cases h

theorem of_tryPush_none (h : tryPush max q x back = none) : max ≤ q.length := by
  unfold tryPush at h
  split at h
  · cases h
  · next hlt => exact Nat.le_of_not_lt hlt

theorem perm_of_tryPush (h : tryPush max q x back = some q') : q'.Perm (x :: q) := by
  obtain ⟨-, rfl⟩ := of_tryPush h
  cases back
  · exact List.Perm.refl _
  · exact List.perm_append_comm

theorem length_of_tryPush (h : tryPush max q x back = some q') : q'.length = q.length + 1 :=
  (perm_of_tryPush h).length_eq

theorem mem_of_tryPush (h : tryPush max q x back = some q') : y ∈ q' ↔ y = x ∨ y ∈ q := by
  rw [(perm_of_tryPush h).mem_iff, List.mem_cons]

theorem nodup_of_tryPush (h : tryPush max q x back = some q') : q'.Nodup ↔ x ∉ q ∧ q.Nodup := by
  rw [(perm_of_tryPush h).nodup_iff, List.nodup_cons]

theorem count_of_tryPush [DecidableEq α] (h : tryPush max q x back = some q') :
    q'.count y = q.count y + if x = y then 1 else 0 := by
  rw [(perm_of_tryPush h).count_eq, List.count_cons]
  simp

theorem of_tryPop (h : tryPop q = some (x, q')) : q = x :: q' := by
  cases q with
  | nil => cases h
  | cons y q => cases h; rfl

theorem of_tryPop_none (h : tryPop q = none) : q = [] := by
  cases q with
  | nil => rfl
  | cons y q => cases h

end Queue
