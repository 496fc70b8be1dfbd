import Mathlib.Logic.Function.Basic
import PRpc.Library.Transition

/-!
# A mutex that is locked by hand

Threads run statements that may lock or unlock one mutex; where a statement leads to depends on a
label, such as the branch that is taken or an exception. Whether a thread is to hold the mutex is
given by the point where it is. If every statement that runs agrees with that (`Agrees`), then a
thread holds the mutex exactly at such points and never unlocks it otherwise (`Inv.step`); the first
one that does not agree is seen in the state after it (`misused_of_step`, `Inv.keeps_step`).
-/

namespace Mutex

/-- What a statement does with the mutex. -/
inductive Effect
  | keep
  | lock
  | unlock
  deriving DecidableEq, Repr

/-- The statements of the threads `ι`, by the point `P` and a label: the effect and the next point,
`none` where there is no such statement. -/
abbrev Program (ι P β : Type) := ι → P → β → Option (Effect × P)

structure State (ι P : Type) where
  points : ι → P
  owner : Option ι
  /-- The mutex was unlocked by a thread that did not hold it. -/
  misused : Bool

variable {ι P β : Type} [DecidableEq ι]

namespace State

variable (s : State ι P)

def goes (i : ι) (p : P) : State ι P := { s with points := Function.update s.points i p }

/-- One statement of a thread. After a misuse anything may happen, so nothing is said any more. -/
def step (prog : Program ι P β) (a : ι × β) : Option (State ι P) :=
  if s.misused then none
  else
    match prog a.1 (s.points a.1) a.2 with
    | none => none
    | some (.keep, p) => some (s.goes a.1 p)
    | some (.lock, p) =>
      if s.owner = none then some { s.goes a.1 p with owner := some a.1 } else none
    | some (.unlock, p) =>
      if s.owner = some a.1 then some { s.goes a.1 p with owner := none }
      else some { s.goes a.1 p with misused := true }

end State

theorem State.points_of_step {prog : Program ι P β} {s s' : State ι P} {a : ι × β}
    (h : s.step prog a = some s') : ∃ e p, prog a.1 (s.points a.1) a.2 = some (e, p) ∧
      s'.points = Function.update s.points a.1 p := by
  unfold State.step at h
  split at h
  · cases h
  · split at h
    · cases h
    · next p hp => cases h; exact ⟨_, p, hp, rfl⟩
    · next p hp =>
      split at h
      · cases h; exact ⟨_, p, hp, rfl⟩
      · cases h
    · next p hp => split at h <;> cases h <;> exact ⟨_, p, hp, rfl⟩

/-- The threads, all at one point in the beginning. -/
def system (prog : Program ι P β) (start : P) : System (State ι P) (ι × β) where
  init s := s = ⟨fun _ => start, none, false⟩
  step s a := s.step prog a

/-- The statement leads from a point to another as the points say. -/
def Agrees (holds : P → Bool) (p : P) : Effect → P → Prop
  | .keep, p' => holds p' = holds p
  | .lock, p' => holds p = false ∧ holds p' = true
  | .unlock, p' => holds p = true ∧ holds p' = false

instance (holds : P → Bool) (p : P) : ∀ e p', Decidable (Agrees holds p e p')
  | .keep, p' => inferInstanceAs (Decidable (holds p' = holds p))
  | .lock, p' => inferInstanceAs (Decidable (holds p = false ∧ holds p' = true))
  | .unlock, p' => inferInstanceAs (Decidable (holds p = true ∧ holds p' = false))

/-- The mutex is held where it is to be held, and was not misused. -/
structure Inv (holds : P → Bool) (s : State ι P) : Prop where
  owner : ∀ i, s.owner = some i ↔ holds (s.points i) = true
  notMisused : s.misused = false

variable {prog : Program ι P β} {holds : P → Bool} {s s' : State ι P} {a : ι × β}

namespace Inv

theorem goes (h : Inv holds s) {i : ι} {p : P} {w : Option ι}
    (hself : w = some i ↔ holds p = true) (hothers : ∀ j, j ≠ i → (w = some j ↔ s.owner = some j)) :
    Inv holds { s.goes i p with owner := w } where
  owner j := by
    show w = some j ↔ holds (Function.update s.points i p j) = true
    obtain rfl | hne := eq_or_ne j i
    · rw [Function.update_self]
      exact hself
    · rw [Function.update_of_ne hne, hothers j hne]
      exact h.owner j
  notMisused := h.notMisused

/-- **A statement that agrees with its points** keeps the mutex where it is to be. -/
theorem step (h : Inv holds s) (hs : s.step prog a = some s')
    (hagrees : ∀ e p, prog a.1 (s.points a.1) a.2 = some (e, p) → Agrees holds (s.points a.1) e p) :
    Inv holds s' := by
  unfold State.step at hs
  rw [h.notMisused] at hs
  dsimp only at hs
  rw [if_neg Bool.false_ne_true] at hs
  split at hs
  · cases hs
  · next p hp =>
    have hkeep : holds p = holds (s.points a.1) := hagrees _ _ hp
    cases hs
    exact h.goes (by rw [hkeep]; exact h.owner a.1) fun _ _ => .rfl
  · next p hp =>
    obtain ⟨-, hin⟩ : holds (s.points a.1) = false ∧ holds p = true := hagrees _ _ hp
    split at hs
    · next hfree =>
      cases hs
      refine h.goes ⟨fun _ => hin, fun _ => rfl⟩ fun j hne => ?_
      rw [hfree]
      exact ⟨fun hj => absurd (Option.some.inj hj).symm hne, fun hj => by cases hj⟩
    · cases hs
  · next p hp =>
    obtain ⟨hin, hout⟩ : holds (s.points a.1) = true ∧ holds p = false := hagrees _ _ hp
    rw [if_pos ((h.owner a.1).mpr hin)] at hs
    cases hs
    refine h.goes ⟨fun hi => (by cases hi), fun hp => absurd hp (by rw [hout]; decide)⟩
      fun j hne => ?_
    rw [(h.owner a.1).mpr hin]
    exact ⟨fun hj => (by cases hj), fun hj => absurd (Option.some.inj hj).symm hne⟩

omit [DecidableEq ι] in
theorem start (holds : P → Bool) {p : P} (hp : holds p = false) :
    Inv holds (⟨fun _ => p, none, false⟩ : State ι P) :=
  ⟨fun _ => ⟨fun hi => (by cases hi), fun hi => absurd (hp.symm.trans hi) (by decide)⟩, rfl⟩

/-- The mutex stays with a thread that goes on without an unlock. -/
theorem keeps_step (h : Inv holds s) (hs : s.step prog a = some s') {p : P}
    (hp : prog a.1 (s.points a.1) a.2 = some (.keep, p)) (hin : holds (s.points a.1) = true) :
    s'.owner = some a.1 ∧ s'.points a.1 = p := by
  unfold State.step at hs
  rw [h.notMisused, hp] at hs
  cases hs
  exact ⟨(h.owner a.1).mpr hin, Function.update_self ..⟩

theorem misused_of_step (h : Inv holds s) (hs : s.step prog a = some s') {p : P}
    (hp : prog a.1 (s.points a.1) a.2 = some (.unlock, p))
    (hout : holds (s.points a.1) = false) : s'.misused = true := by
  have hne : s.owner ≠ some a.1 := by
    rw [ne_eq, h.owner a.1, hout]
    decide
  unfold State.step at hs
  rw [h.notMisused, hp] at hs
  dsimp only at hs
  rw [if_neg Bool.false_ne_true, if_neg hne] at hs
  cases hs
  rfl

end Inv

theorem inv {C : State ι P → ι × β → Prop} {start : P} (hstart : holds start = false)
    (hC : ∀ s a e p, C s a → prog a.1 (s.points a.1) a.2 = some (e, p) →
      Agrees holds (s.points a.1) e p)
    (h : (system prog start).Reach C s) : Inv holds s :=
  h.invariant (fun s h0 => by cases h0; exact .start holds hstart)
    fun _ _ _ hI hc hs => hI.step hs fun e p => hC _ _ e p hc

/-! ## Giving the mutex up -/

/-- With these labels a function goes from a point to an unlock, and has the mutex all the way. -/
def unlocks (f : P → β → Option (Effect × P)) : P → List β → Bool
  | _, [] => false
  | p, b :: bs =>
    match f p b with
    | some (.keep, p') => unlocks f p' bs
    | some (.unlock, _) => bs.isEmpty
    | _ => false

/-- The owner can go on by itself until it unlocks. -/
theorem exists_run_of_unlocks {start : P} {i : ι} {bs : List β} (hused : s.misused = false)
    (howner : s.owner = some i) (h : unlocks (prog i) (s.points i) bs = true) :
    ∃ s', (system prog start).run (fun _ _ => True) s (bs.map fun b => (i, b)) = some s' ∧
      s'.owner = none := by
  induction bs generalizing s with
  | nil => cases h
  | cons b bs ih =>
    have hstep : ∀ {t}, s.step prog (i, b) = some t →
        (∃ s', (system prog start).run (fun _ _ => True) t (bs.map fun b => (i, b)) = some s' ∧
          s'.owner = none) →
        ∃ s', (system prog start).run (fun _ _ => True) s ((b :: bs).map fun b => (i, b)) =
          some s' ∧ s'.owner = none := by
      rintro t ht ⟨s', hs', hnone⟩
      exact ⟨s', (System.run_cons ht).mpr ⟨trivial, hs'⟩, hnone⟩
    unfold unlocks at h
    split at h
    · next p' hp =>
      refine hstep (t := s.goes i p') ?_ (ih hused howner ?_)
      · unfold State.step
        rw [hused, hp]
        rfl
      · show unlocks (prog i) (Function.update s.points i p' i) bs = true
        rw [Function.update_self]
        exact h
    · next p' hp =>
      refine hstep (t := { s.goes i p' with owner := none }) ?_ ?_
      · unfold State.step
        rw [hused, hp]
        dsimp only
        rw [if_neg Bool.false_ne_true, if_pos howner]
      · rw [List.isEmpty_iff.mp h]
        exact ⟨_, rfl, rfl⟩
    · cases h

end Mutex
