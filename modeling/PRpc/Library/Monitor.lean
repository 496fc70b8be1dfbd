import Mathlib.Data.Fintype.Basic
import Mathlib.Logic.Function.Basic
import PRpc.Library.Transition

/-!
# Monitors

An object behind a mutex, and condition variables on which threads wait for it: each operation takes
the mutex, tests whether it can act, and if not waits with a time limit. A wait gives the mutex up;
it ends by a notification, a spurious wake-up or the end of its time, the mutex is taken again and
the test repeated. The threads are interleaved at every point where they hold the mutex or do not.

`log` has the results in the order in which they are decided. It explains the object: the results
are those of the operations one after another (`Inv.replays`), and each operation returns what was
decided for it between its call and its return (`Inv.returned`).
-/

/-- The operations of a monitor with objects `Q`, results `R` and condition variables `κ`. -/
structure Monitor (Q O R κ : Type) where
  /-- What an operation makes of the object, `none` where it has to wait. -/
  effect : O → Q → Option (Q × R)
  /-- The condition variable on which it waits. -/
  cond : O → κ
  /-- The condition variables that it notifies, one thread each; from the object before, after. -/
  notifies : O → Q → Q → List κ
  /-- Its result when the time is over and it still has to wait; `none` if it waits again. -/
  expires : O → Option R
  /-- The operation is called again after this result. -/
  retries : O → R → Bool

namespace Monitor

variable {Q O R κ ι : Type} (M : Monitor Q O R κ)

/-- Where a thread is. -/
inductive Phase (O R κ : Type)
  | idle
  /-- At the lock, for the first time. -/
  | entering (op : O)
  /-- With the mutex, before the test; `late` if the time is over. -/
  | testing (op : O) (late : Bool)
  /-- With the mutex; the test was good. -/
  | acting (op : O)
  /-- With the mutex, the result decided; the notifications that are left, then the unlock. -/
  | notifying (op : O) (r : R) (conds : List κ)
  /-- In the wait set of its condition variable. -/
  | waiting (op : O)
  /-- Out of the wait set, at the lock again. -/
  | woken (op : O) (late : Bool)
  /-- Between two tries. -/
  | pausing (op : O)

/-- A result, and whose it is. -/
structure Event (ι O R : Type) where
  thread : ι
  op : O
  result : R

structure State (ι Q O R κ : Type) where
  object : Q
  owner : Option ι
  phases : ι → Phase O R κ
  /-- The results in the order in which they are decided. -/
  log : List (Event ι O R)
  /-- The results in the order in which they are returned. -/
  returned : List (Event ι O R)

inductive Action (ι O : Type)
  | call (i : ι) (op : O)
  | lock (i : ι)
  | test (i : ι)
  | act (i : ι)
  /-- `notify_one`, with the waiting thread that it wakes if there is one. -/
  | notify (i : ι) (j : Option ι)
  | unlock (i : ι)
  /-- The end of a wait without a notification. -/
  | wake (i : ι) (late : Bool)
  | retry (i : ι)

namespace Phase

variable {O R κ : Type}

/-- Does the thread hold the mutex? -/
def holds : Phase O R κ → Bool
  | .testing _ _ | .acting _ | .notifying _ _ _ => true
  | _ => false

/-- The result that is decided but not returned. -/
def pending (i : ι) : Phase O R κ → List (Event ι O R)
  | .notifying op r _ => [⟨i, op, r⟩]
  | _ => []

/-- In the wait set of a condition variable? -/
def waitsOn [DecidableEq κ] (M : Monitor Q O R κ) (k : κ) : Phase O R κ → Bool
  | .waiting op => M.cond op = k
  | _ => false

end Phase

namespace State

variable [DecidableEq ι] (s : State ι Q O R κ)

def setPhase (i : ι) (p : Phase O R κ) : State ι Q O R κ :=
  { s with phases := Function.update s.phases i p }

/-- A thread goes on with the mutex or without it. -/
def setOwner (w : Option ι) : State ι Q O R κ := { s with owner := w }

/-- The result of an operation is decided. -/
def settle (i : ι) (op : O) (r : R) : State ι Q O R κ :=
  { s with log := s.log ++ [⟨i, op, r⟩] }

/-- An operation returns, or is called again. -/
def returns (i : ι) (op : O) (r : R) : State ι Q O R κ :=
  (({ s with returned := s.returned ++ [⟨i, op, r⟩] } : State ι Q O R κ).setOwner none).setPhase i
    (if M.retries op r then .pausing op else .idle)

end State

section Step

variable [DecidableEq ι] [Fintype ι] [DecidableEq κ] (s : State ι Q O R κ)

/-- The test under the mutex: go on, give up, or wait. -/
def State.test (i : ι) (op : O) (late : Bool) : State ι Q O R κ :=
  if (M.effect op s.object).isSome then s.setPhase i (.acting op)
  else
    match (if late then M.expires op else none) with
    | some r => (s.settle i op r).setPhase i (.notifying op r [])
    | none => (s.setOwner none).setPhase i (.waiting op)

/-- One step of one thread. -/
def State.step : Action ι O → Option (State ι Q O R κ)
  | .call i op =>
    match s.phases i with
    | .idle => some (s.setPhase i (.entering op))
    | _ => none
  | .lock i =>
    if s.owner = none then
      match s.phases i with
      | .entering op => some ((s.setOwner (some i)).setPhase i (.testing op false))
      | .woken op late => some ((s.setOwner (some i)).setPhase i (.testing op late))
      | _ => none
    else none
  | .test i =>
    match s.phases i with
    | .testing op late => some (s.test M i op late)
    | _ => none
  | .act i =>
    match s.phases i with
    | .acting op => (M.effect op s.object).map fun (q, r) =>
      ({ s with object := q } : State ι Q O R κ).settle i op r |>.setPhase i
        (.notifying op r (M.notifies op s.object q))
    | _ => none
  | .notify i j =>
    match s.phases i, j with
    | .notifying op r (k :: conds), none =>
      if ∀ j, (s.phases j).waitsOn M k = false then some (s.setPhase i (.notifying op r conds))
      else none
    | .notifying op r (k :: conds), some j =>
      match s.phases j with
      | .waiting op' =>
        if M.cond op' = k then
          some ((s.setPhase j (.woken op' false)).setPhase i (.notifying op r conds))
        else none
      | _ => none
    | _, _ => none
  | .unlock i =>
    match s.phases i with
    | .notifying op r [] => some (s.returns M i op r)
    | _ => none
  | .wake i late =>
    match s.phases i with
    | .waiting op => some (s.setPhase i (.woken op late))
    | _ => none
  | .retry i =>
    match s.phases i with
    | .pausing op => some (s.setPhase i (.entering op))
    | _ => none

/-- Everything starts idle. -/
def State.start (q : Q) : State ι Q O R κ := ⟨q, none, fun _ => .idle, [], []⟩

/-- The monitor with threads `ι` and the object `q` at the start. -/
def system (ι : Type) [DecidableEq ι] [Fintype ι] (q : Q) :
    System (State ι Q O R κ) (Action ι O) where
  init s := s = .start q
  step s a := s.step M a

end Step

/-! ## Operations one after another -/

/-- What one operation does when nothing comes between: it acts, or gives up and changes nothing. -/
inductive Applies (q : Q) : O → R → Q → Prop
  | acts {op r q'} (h : M.effect op q = some (q', r)) : Applies q op r q'
  | expires {op r} (hwait : M.effect op q = none) (h : M.expires op = some r) : Applies q op r q

/-- Results that come about one after another. -/
inductive Replays (q : Q) : List (Event ι O R) → Q → Prop
  | nil : Replays q [] q
  | snoc {log q' e q''} (h : Replays q log q') (he : M.Applies q' e.op e.result q'') :
    Replays q (log ++ [e]) q''

/-- Each of these results is one that its operation brings about. -/
theorem Replays.applies {M : Monitor Q O R κ} {q q' : Q} {log : List (Event ι O R)}
    (h : M.Replays q log q') {e : Event ι O R} (he : e ∈ log) :
    ∃ q q', M.Applies q e.op e.result q' := by
  induction h with
  | nil => cases he
  | snoc _ happlies ih =>
    obtain he | he := List.mem_append.mp he
    · exact ih he
    · rw [List.mem_singleton.mp he]
      exact ⟨_, _, happlies⟩

/-! ## The invariant -/

variable [DecidableEq ι]

/-- The results of one thread. -/
def of (i : ι) (log : List (Event ι O R)) : List (Event ι O R) := log.filter (·.thread = i)

/-- What holds in every state. -/
structure Inv (q : Q) (s : State ι Q O R κ) : Prop where
  /-- Exactly the owner is in a phase that holds the mutex. -/
  owner : ∀ i, s.owner = some i ↔ (s.phases i).holds = true
  /-- Nobody changes the object between the test and the action. -/
  acting : ∀ i op, s.phases i = .acting op → (M.effect op s.object).isSome
  replays : M.Replays q s.log s.object
  returned : ∀ i, of i s.log = of i s.returned ++ (s.phases i).pending i

variable {M} {q : Q} {s s' : State ι Q O R κ} {i : ι} {op : O} {r : R} {p : Phase O R κ}

theorem of_append (i : ι) (log log' : List (Event ι O R)) :
    of i (log ++ log') = of i log ++ of i log' := List.filter_append ..

theorem of_self (i : ι) (op : O) (r : R) : of i [(⟨i, op, r⟩ : Event ι O R)] = [⟨i, op, r⟩] := by
  unfold of
  simp

theorem of_ne {i j : ι} (h : i ≠ j) (op : O) (r : R) : of j [(⟨i, op, r⟩ : Event ι O R)] = [] := by
  unfold of
  simp [h]

namespace Inv

/-- A step of one thread: what it has to keep, with the others where they were. -/
theorem update (h : M.Inv q s) (hphases : s'.phases = Function.update s.phases i p)
    (howner : (s'.owner = some i ↔ p.holds = true) ∧
      ∀ j, j ≠ i → (s'.owner = some j ↔ s.owner = some j))
    (hacting : (∀ op, p = .acting op → (M.effect op s'.object).isSome) ∧
      ∀ j op, j ≠ i → s.phases j = .acting op → (M.effect op s'.object).isSome)
    (hreplays : M.Replays q s'.log s'.object)
    (hreturned : of i s'.log = of i s'.returned ++ p.pending i ∧
      ∀ j, j ≠ i → of j s'.log = of j s.log ∧ of j s'.returned = of j s.returned) :
    M.Inv q s' where
  owner j := by
    rw [hphases]
    obtain rfl | hne := eq_or_ne j i
    · rw [Function.update_self]
      exact howner.1
    · rw [Function.update_of_ne hne, howner.2 j hne]
      exact h.owner j
  acting j op hj := by
    rw [hphases] at hj
    obtain rfl | hne := eq_or_ne j i
    · rw [Function.update_self] at hj
      exact hacting.1 op hj
    · rw [Function.update_of_ne hne] at hj
      exact hacting.2 j op hne hj
  replays := hreplays
  returned j := by
    rw [hphases]
    obtain rfl | hne := eq_or_ne j i
    · rw [Function.update_self]
      exact hreturned.1
    · obtain ⟨hlog, hret⟩ := hreturned.2 j hne
      rw [Function.update_of_ne hne, hlog, hret]
      exact h.returned j

/-- The thread holds the mutex as before, and nothing is decided. -/
theorem move (h : M.Inv q s) (hholds : p.holds = (s.phases i).holds)
    (hpending : p.pending i = (s.phases i).pending i)
    (hacting : ∀ op, p = .acting op → (M.effect op s.object).isSome) :
    M.Inv q (s.setPhase i p) := by
  refine h.update rfl ⟨?_, fun _ _ => .rfl⟩ ⟨hacting, fun j op _ => h.acting j op⟩ h.replays
    ⟨?_, fun _ _ => ⟨rfl, rfl⟩⟩
  · rw [hholds]
    exact h.owner i
  · rw [hpending]
    exact h.returned i

theorem alone (h : M.Inv q s) (hi : (s.phases i).holds = true) {j : ι} (hne : j ≠ i) :
    (s.phases j).holds = false := by
  by_contra hj
  rw [Bool.not_eq_false] at hj
  have hsame : some i = some j := ((h.owner i).mpr hi).symm.trans ((h.owner j).mpr hj)
  exact hne (Option.some.inj hsame).symm

theorem not_acting (h : M.Inv q s) (hi : (s.phases i).holds = true) {j : ι} (hne : j ≠ i) :
    s.phases j ≠ .acting op := by
  intro hj
  have := h.alone hi hne
  rw [hj] at this
  cases this

theorem lock (h : M.Inv q s) (hfree : s.owner = none) (hi : (s.phases i).pending i = [])
    (late : Bool) : M.Inv q ((s.setOwner (some i)).setPhase i (.testing op late)) := by
  refine h.update rfl ⟨⟨fun _ => rfl, fun _ => rfl⟩, fun j hne => ?_⟩
    ⟨fun _ hp => (by cases hp), fun j op _ => h.acting j op⟩ h.replays
    ⟨?_, fun _ _ => ⟨rfl, rfl⟩⟩
  · rw [hfree]
    exact ⟨fun hj => absurd (Option.some.inj hj).symm hne, fun hj => by cases hj⟩
  · have := h.returned i
    rwa [hi] at this

theorem wait (h : M.Inv q s) (hi : (s.phases i).holds = true)
    (hpending : (s.phases i).pending i = []) :
    M.Inv q ((s.setOwner none).setPhase i (.waiting op)) := by
  refine h.update rfl ⟨⟨fun hi => (by cases hi), fun hp => (by cases hp)⟩, fun j hne => ?_⟩
    ⟨fun _ hp => (by cases hp), fun j op _ => h.acting j op⟩ h.replays
    ⟨?_, fun _ _ => ⟨rfl, rfl⟩⟩
  · rw [(h.owner i).mpr hi]
    exact ⟨fun hj => (by cases hj), fun hj => absurd (Option.some.inj hj).symm hne⟩
  · have := h.returned i
    rwa [hpending] at this

/-- A result is decided, by an action or by the end of the time. -/
theorem settle (h : M.Inv q s) (hi : (s.phases i).holds = true)
    (hpending : (s.phases i).pending i = []) {q' : Q} (happly : M.Applies s.object op r q')
    (conds : List κ) :
    M.Inv q ((({ s with object := q' } : State ι Q O R κ).settle i op r).setPhase i
      (.notifying op r conds)) := by
  refine h.update rfl ⟨⟨fun _ => rfl, fun _ => (h.owner i).mpr hi⟩, fun _ _ => .rfl⟩
    ⟨fun _ hp => (by cases hp), fun j op hne hj => absurd hj (h.not_acting hi hne)⟩
    (.snoc h.replays happly) ⟨?_, fun j hne => ⟨?_, rfl⟩⟩
  · have hret := h.returned i
    rw [hpending, List.append_nil] at hret
    show of i (s.log ++ [⟨i, op, r⟩]) = of i s.returned ++ [⟨i, op, r⟩]
    rw [of_append, hret, of_self]
  · show of j (s.log ++ [⟨i, op, r⟩]) = of j s.log
    rw [of_append, of_ne hne.symm, List.append_nil]

/-- The operation returns, or is going to be called again. -/
theorem returns (h : M.Inv q s) (hi : s.phases i = .notifying op r []) :
    M.Inv q (s.returns M i op r) := by
  have hholds : (s.phases i).holds = true := by rw [hi]; rfl
  have hlast : of i s.log = of i s.returned ++ [⟨i, op, r⟩] := by
    have := h.returned i
    rwa [hi] at this
  have hp : (if M.retries op r then Phase.pausing op else .idle : Phase O R κ).holds = false ∧
      (if M.retries op r then Phase.pausing op else .idle : Phase O R κ).pending i = [] ∧
      ∀ op', (if M.retries op r then Phase.pausing op else .idle : Phase O R κ) ≠ .acting op' := by
    split <;> exact ⟨rfl, rfl, fun _ h => by cases h⟩
  obtain ⟨hout, hnothing, hact⟩ := hp
  refine h.update rfl ⟨⟨fun hi => (by cases hi), fun hp => absurd hp (by rw [hout]; decide)⟩,
    fun j hne => ?_⟩ ⟨fun op' hp => absurd hp (hact op'), fun j op _ => h.acting j op⟩ h.replays
    ⟨?_, fun j hne => ⟨rfl, ?_⟩⟩
  · rw [(h.owner i).mpr hholds]
    exact ⟨fun hj => (by cases hj), fun hj => absurd (Option.some.inj hj).symm hne⟩
  · show of i s.log = of i (s.returned ++ [⟨i, op, r⟩]) ++ _
    rw [hnothing, List.append_nil, of_append, of_self, hlast]
  · show of j (s.returned ++ [⟨i, op, r⟩]) = of j s.returned
    rw [of_append, of_ne hne.symm, List.append_nil]

theorem test (h : M.Inv q s) {late : Bool} (hi : s.phases i = .testing op late) :
    M.Inv q (s.test M i op late) := by
  have hholds : (s.phases i).holds = true := by rw [hi]; rfl
  have hpending : (s.phases i).pending i = [] := by rw [hi]; rfl
  unfold State.test
  split
  · next hcan =>
    refine h.move hholds.symm hpending.symm fun op' hp => ?_
    cases hp
    exact hcan
  · next hcannot =>
    have hnone : M.effect op s.object = none := by simpa using hcannot
    split
    · next r hr =>
      cases late with
      | false => cases hr
      | true => exact h.settle hholds hpending (.expires hnone hr) []
    · exact h.wait hholds hpending

end Inv

section Step

variable [Fintype ι] [DecidableEq κ] {a : Action ι O}

/-- The steps, one case for each thing that a thread can do. -/
inductive Step (M : Monitor Q O R κ) (s : State ι Q O R κ) :
    Action ι O → State ι Q O R κ → Prop
  | call {i : ι} {op : O} (hi : s.phases i = .idle) :
    Step M s (.call i op) (s.setPhase i (.entering op))
  | lock {i : ι} {op : O} (hfree : s.owner = none) (hi : s.phases i = .entering op) :
    Step M s (.lock i) ((s.setOwner (some i)).setPhase i (.testing op false))
  | relock {i : ι} {op : O} {late : Bool} (hfree : s.owner = none)
      (hi : s.phases i = .woken op late) :
    Step M s (.lock i) ((s.setOwner (some i)).setPhase i (.testing op late))
  | test {i : ι} {op : O} {late : Bool} (hi : s.phases i = .testing op late) :
    Step M s (.test i) (s.test M i op late)
  | act {i : ι} {op : O} {q : Q} {r : R} (hi : s.phases i = .acting op)
      (heffect : M.effect op s.object = some (q, r)) :
    Step M s (.act i) ((({ s with object := q } : State ι Q O R κ).settle i op r).setPhase i
      (.notifying op r (M.notifies op s.object q)))
  | notifyNobody {i : ι} {op : O} {r : R} {k : κ} {conds : List κ}
      (hi : s.phases i = .notifying op r (k :: conds))
      (hnobody : ∀ j, (s.phases j).waitsOn M k = false) :
    Step M s (.notify i none) (s.setPhase i (.notifying op r conds))
  | notifyOne {i j : ι} {op op' : O} {r : R} {k : κ} {conds : List κ}
      (hi : s.phases i = .notifying op r (k :: conds))
      (hj : s.phases j = .waiting op') (hk : M.cond op' = k) :
    Step M s (.notify i (some j))
      ((s.setPhase j (.woken op' false)).setPhase i (.notifying op r conds))
  | unlock {i : ι} {op : O} {r : R} (hi : s.phases i = .notifying op r []) :
    Step M s (.unlock i) (s.returns M i op r)
  | wake {i : ι} {op : O} {late : Bool} (hi : s.phases i = .waiting op) :
    Step M s (.wake i late) (s.setPhase i (.woken op late))
  | retry {i : ι} {op : O} (hi : s.phases i = .pausing op) :
    Step M s (.retry i) (s.setPhase i (.entering op))

theorem of_step (hs : s.step M a = some s') : Step M s a s' := by
  cases a with
  | call i op =>
    dsimp only [State.step] at hs
    split at hs
    · next hi => cases hs; exact .call hi
    · cases hs
  | lock i =>
    dsimp only [State.step] at hs
    split at hs
    · next hfree =>
      split at hs
      · next hi => cases hs; exact .lock hfree hi
      · next hi => cases hs; exact .relock hfree hi
      · cases hs
    · cases hs
  | test i =>
    dsimp only [State.step] at hs
    split at hs
    · next hi => cases hs; exact .test hi
    · cases hs
  | act i =>
    dsimp only [State.step] at hs
    split at hs
    · next hi =>
      obtain ⟨⟨q', r⟩, heffect, rfl⟩ := Option.map_eq_some_iff.mp hs
      exact .act hi heffect
    · cases hs
  | notify i j =>
    dsimp only [State.step] at hs
    split at hs
    · next hi =>
      split at hs
      · next hnobody => cases hs; exact .notifyNobody hi hnobody
      · cases hs
    · next hi =>
      split at hs
      · next hj =>
        split at hs
        · next hk => cases hs; exact .notifyOne hi hj hk
        · cases hs
      · cases hs
    · cases hs
  | unlock i =>
    dsimp only [State.step] at hs
    split at hs
    · next hi => cases hs; exact .unlock hi
    · cases hs
  | wake i late =>
    dsimp only [State.step] at hs
    split at hs
    · next hi => cases hs; exact .wake hi
    · cases hs
  | retry i =>
    dsimp only [State.step] at hs
    split at hs
    · next hi => cases hs; exact .retry hi
    · cases hs

theorem Inv.step (h : M.Inv q s) (hs : s.step M a = some s') : M.Inv q s' := by
  cases of_step hs with
  | call hi => exact h.move (by rw [hi]; rfl) (by rw [hi]; rfl) fun _ hp => by cases hp
  | lock hfree hi => exact h.lock hfree (by rw [hi]; rfl) false
  | @relock i op late hfree hi => exact h.lock hfree (by rw [hi]; rfl) late
  | test hi => exact h.test hi
  | act hi heffect => exact h.settle (by rw [hi]; rfl) (by rw [hi]; rfl) (.acts heffect) _
  | notifyNobody hi _ => exact h.move (by rw [hi]; rfl) (by rw [hi]; rfl) fun _ hp => by cases hp
  | @notifyOne i j op op' r k conds hi hj hk =>
    have hne : i ≠ j := by
      rintro rfl
      rw [hi] at hj
      cases hj
    have hwoken : M.Inv q (s.setPhase j (.woken op' false)) :=
      h.move (by rw [hj]; rfl) (by rw [hj]; rfl) fun _ hp => by cases hp
    have hi' : (s.setPhase j (.woken op' false)).phases i = s.phases i :=
      Function.update_of_ne hne _ _
    exact hwoken.move (by rw [hi', hi]; rfl) (by rw [hi', hi]; rfl) fun _ hp => by cases hp
  | unlock hi => exact h.returns hi
  | wake hi => exact h.move (by rw [hi]; rfl) (by rw [hi]; rfl) fun _ hp => by cases hp
  | retry hi => exact h.move (by rw [hi]; rfl) (by rw [hi]; rfl) fun _ hp => by cases hp

theorem inv (h : (M.system ι q).Reachable s) : M.Inv q s := by
  refine h.invariant (fun s h0 => ?_) fun s a s' hI _ hs => hI.step hs
  cases h0
  exact ⟨fun i => ⟨fun hi => (by cases hi), fun hi => (by cases hi)⟩, fun i op hi => (by cases hi),
    .nil, fun i => rfl⟩

omit [Fintype ι] in
/-- A thread comes back with a result after which it does not call its operation again. -/
theorem Step.of_idle (h : Step M s a s') (hi : s.phases i ≠ .idle) (hi' : s'.phases i = .idle) :
    ∃ op r, s.phases i = .notifying op r [] ∧ M.retries op r = false ∧
      s'.returned = s.returned ++ [⟨i, op, r⟩] := by
  -- no other thread and no other step leads there
  have hset {t : State ι Q O R κ} {j : ι} {p : Phase O R κ} (ht : t.phases i ≠ .idle)
      (hp : p ≠ .idle) : (t.setPhase j p).phases i ≠ .idle := by
    show Function.update t.phases j p i ≠ .idle
    by_cases heq : i = j
    · rw [heq, Function.update_self]
      exact hp
    · rw [Function.update_of_ne heq]
      exact ht
  cases h with
  | @test j op late hj =>
    unfold State.test at hi'
    split at hi'
    · exact absurd hi' (hset hi (by simp))
    · split at hi'
      · exact absurd hi' (hset hi (by simp))
      · exact absurd hi' (hset hi (by simp))
  | notifyOne => exact absurd hi' (hset (hset hi (by simp)) (by simp))
  | @unlock j op r hj =>
    by_cases heq : i = j
    · rw [heq] at hi' ⊢
      change Function.update s.phases j _ j = .idle at hi'
      rw [Function.update_self] at hi'
      cases hretries : M.retries op r with
      | true =>
        rw [hretries] at hi'
        cases hi'
      | false => exact ⟨op, r, hj, hretries, rfl⟩
    · change Function.update s.phases j _ i = .idle at hi'
      rw [Function.update_of_ne heq] at hi'
      exact absurd hi' hi
  | _ => exact absurd hi' (hset hi (by simp))

/-- **An operation returns** only with a result that it has brought about and that does not make it
be called again. -/
theorem of_return (h : M.Inv q s) (hs : s.step M a = some s') (hi : s.phases i ≠ .idle)
    (hi' : s'.phases i = .idle) : ∃ op r, s'.returned = s.returned ++ [⟨i, op, r⟩] ∧
      M.retries op r = false ∧ ∃ q q', M.Applies q op r q' := by
  obtain ⟨op, r, hpc, hretries, hreturned⟩ := (of_step hs).of_idle hi hi'
  have hlog := h.returned i
  rw [hpc] at hlog
  have hmem : (⟨i, op, r⟩ : Event ι O R) ∈ of i s.log := by
    rw [hlog]
    exact List.mem_append_right _ List.mem_cons_self
  exact ⟨op, r, hreturned, hretries, h.replays.applies (List.mem_of_mem_filter hmem)⟩

/-- **The object changes only with a result**, and as the operation says. -/
theorem log_step (hs : s.step M a = some s') : (s'.log = s.log ∧ s'.object = s.object) ∨
    ∃ e, s'.log = s.log ++ [e] ∧ M.Applies s.object e.op e.result s'.object := by
  cases of_step hs with
  | @test i op late hi =>
    unfold State.test
    split
    · exact .inl ⟨rfl, rfl⟩
    · next hcannot =>
      split
      · next r hr =>
        cases late with
        | false => cases hr
        | true => exact .inr ⟨⟨i, op, r⟩, rfl, .expires (by simpa using hcannot) hr⟩
      · exact .inl ⟨rfl, rfl⟩
  | @act i op q r hi heffect => exact .inr ⟨⟨i, op, r⟩, rfl, .acts heffect⟩
  | _ => exact .inl ⟨rfl, rfl⟩

end Step

end Monitor
