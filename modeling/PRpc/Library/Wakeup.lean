import PRpc.Library.Count
import PRpc.Library.Monitor

/-!
# Lost wake-ups

A monitor in which each operation takes a unit of what it waits for and supplies a unit of something
else, and notifies one waiting thread when there was nothing of it before (`Supply`). No wake-up is
lost if threads stay in a wait set only while as many are on their way from it as there are units
for them.

Together with those that a notification still to come will wake, these never become too few
(`Covered.step`), except when a unit is supplied and nobody is notified of it, because it is not the
first: then there have to be enough of them already (`Supply.Prompt`).
-/

namespace Monitor

variable {Q O R κ ι : Type}

/-- With the mutex, and a test, an action or a notification still to come. -/
def Phase.midway : Phase O R κ → Bool
  | .testing _ _ | .acting _ | .notifying _ _ (_ :: _) => true
  | _ => false

/-- The operation that is about to act. -/
def Phase.acts : Phase O R κ → Option O
  | .acting op => some op
  | _ => none

theorem Phase.midway_of_holds {p : Phase O R κ} (h : p.holds = false) : p.midway = false := by
  cases p with
  | testing | acting | notifying => cases h
  | _ => rfl

/-- Nobody is in a critical section with more to do than to unlock. -/
def State.Settled (s : State ι Q O R κ) : Prop := ∀ i, (s.phases i).midway = false

namespace Inv

variable [DecidableEq ι] {M : Monitor Q O R κ} {q : Q} {s : State ι Q O R κ} {i : ι}

theorem settled_of_owner (h : M.Inv q s) (hfree : s.owner = none) : s.Settled := by
  intro i
  refine Phase.midway_of_holds (Bool.eq_false_iff.mpr fun hi => ?_)
  rw [← h.owner i, hfree] at hi
  cases hi

/-- The only thread in a critical section comes to its unlock. -/
theorem settled_setPhase (h : M.Inv q s) (hi : (s.phases i).holds = true) (op : O) (r : R) :
    (s.setPhase i (.notifying op r [])).Settled := by
  intro j
  obtain rfl | hne := eq_or_ne j i
  · show (Function.update s.phases j _ j).midway = false
    rw [Function.update_self]
    rfl
  · show (Function.update s.phases i _ j).midway = false
    rw [Function.update_of_ne hne]
    exact Phase.midway_of_holds (h.alone hi hne)

end Inv

variable [DecidableEq κ] (M : Monitor Q O R κ)

namespace Phase

variable (k : κ)

/-- Out of the wait set of a condition variable, and not at the test again yet. -/
def wokenOn : Phase O R κ → Bool
  | .woken op _ => M.cond op = k
  | _ => false

/-- What a thread does for those that wait: it is on its way to the test itself, or it is going to
notify one of them. -/
def credit : Phase O R κ → ℕ
  | .woken op _ | .testing op _ | .acting op => if M.cond op = k then 1 else 0
  | .notifying _ _ conds => conds.count k
  | .idle | .entering _ | .waiting _ | .pausing _ => 0

theorem credit_eq_wokenOn {p : Phase O R κ} (h : p.midway = false) :
    p.credit M k = (p.wokenOn M k).toNat := by
  cases p with
  | woken op late =>
    unfold credit wokenOn
    by_cases hk : M.cond op = k <;> simp [hk]
  | notifying op r conds =>
    cases conds with
    | nil => rfl
    | cons => cases h
  | testing | acting => cases h
  | _ => rfl

end Phase

namespace State

variable [Fintype ι] (s : State ι Q O R κ) (k : κ)

/-- The threads in the wait set of a condition variable. -/
def waiting : ℕ := Count.total (fun p => (p.waitsOn M k).toNat) s.phases

/-- The threads that were notified and have not run yet. -/
def notified : ℕ := Count.total (fun p => (p.wokenOn M k).toNat) s.phases

def credit : ℕ := Count.total (Phase.credit M k) s.phases

variable {M s k}

theorem Settled.credit_eq (h : s.Settled) : s.credit M k = s.notified M k := by
  unfold credit notified Count.total
  exact Finset.sum_congr rfl fun i _ => Phase.credit_eq_wokenOn M k (h i)

end State

/-- The monitor without timeouts and spurious wake-ups: only a notification ends a wait. -/
def untimed (ι : Type) [DecidableEq ι] [Fintype ι] (q : Q) :
    System (State ι Q O R κ) (Action ι O) where
  init s := s = .start q
  step s a := match a with
    | .wake _ _ => none
    | a => s.step M a

/-! ## Supply -/

/-- What the operations take and give. -/
structure Supply (M : Monitor Q O R κ) where
  /-- The objects that come about. -/
  Valid : Q → Prop
  /-- How many operations that wait on the condition variable the object has something for. -/
  amount : κ → Q → ℕ
  /-- The condition variable for those that the operation has something for. -/
  gives : O → κ
  gives_ne : ∀ op, gives op ≠ M.cond op
  valid : ∀ {op q q' r}, Valid q → M.effect op q = some (q', r) → Valid q'
  none : ∀ {op q}, M.effect op q = .none → amount (M.cond op) q = 0
  takes : ∀ {op q q' r}, M.effect op q = some (q', r) →
    amount (M.cond op) q' + 1 = amount (M.cond op) q
  adds : ∀ {op q q' r}, Valid q → M.effect op q = some (q', r) →
    amount (gives op) q' = amount (gives op) q + 1
  rest : ∀ {op q q' r k}, M.effect op q = some (q', r) → k ≠ M.cond op → k ≠ gives op →
    amount k q' = amount k q
  notifies : ∀ {op q q' r}, Valid q → M.effect op q = some (q', r) →
    M.notifies op q q' = if amount (gives op) q = 0 then [gives op] else []

namespace Supply

variable {M} [Fintype ι] (S : M.Supply)

/-- A thread waits only while as many are on their way as there is something for. -/
def NoLostWakeup (s : State ι Q O R κ) : Prop :=
  s.Settled → ∀ k, 0 < s.waiting M k → S.amount k s.object ≤ s.notified M k

/-- When a unit is supplied that is not the first, and a thread waits for one, then enough threads
are on their way to take it. -/
def Prompt (s : State ι Q O R κ) : Action ι O → Prop
  | .act i => ∀ op ∈ (s.phases i).acts, 0 < S.amount (S.gives op) s.object →
    0 < s.waiting M (S.gives op) → S.amount (S.gives op) s.object < s.notified M (S.gives op)
  | _ => True

/-- The invariant: also the threads in a critical section do their part. -/
structure Covered (s : State ι Q O R κ) : Prop where
  valid : S.Valid s.object
  covers : ∀ k, 0 < s.waiting M k → S.amount k s.object ≤ s.credit M k

variable {S} [DecidableEq ι] {s s' : State ι Q O R κ} {i : ι} {p : Phase O R κ} {k : κ}

/-! ### One thread moves -/

variable (M s i p k) in
theorem waiting_setPhase : (s.setPhase i p).waiting M k + ((s.phases i).waitsOn M k).toNat =
    s.waiting M k + (p.waitsOn M k).toNat :=
  Count.total_update (fun p => (p.waitsOn M k).toNat) s.phases i p

variable (M s i p k) in
theorem credit_setPhase : (s.setPhase i p).credit M k + (s.phases i).credit M k =
    s.credit M k + p.credit M k :=
  Count.total_update (Phase.credit M k) s.phases i p

/-- Who has tested and can act is alone with the mutex. -/
theorem credit_eq_of_acting {q : Q} (h : M.Inv q s) {op : O} (hi : s.phases i = .acting op)
    (hk : M.cond op ≠ k) : s.credit M k = s.notified M k := by
  have hholds : (s.phases i).holds = true := by
    rw [hi]
    rfl
  unfold State.credit State.notified Count.total
  refine Finset.sum_congr rfl fun j _ => ?_
  obtain rfl | hne := eq_or_ne j i
  · rw [hi]
    exact if_neg hk
  · exact Phase.credit_eq_wokenOn M k (Phase.midway_of_holds (h.alone hholds hne))

/-! ### The invariant -/

namespace Covered

/-- A step of one thread that leaves the object alone: where there is something for others that
still wait, it does as much for them as before. -/
theorem move (h : S.Covered s) (hphases : s'.phases = (s.setPhase i p).phases)
    (hobject : s'.object = s.object)
    (hmove : ∀ k, 0 < S.amount k s.object → 0 < s'.waiting M k →
      (p.waitsOn M k).toNat ≤ ((s.phases i).waitsOn M k).toNat ∧
        (s.phases i).credit M k ≤ p.credit M k) : S.Covered s' where
  valid := by
    rw [hobject]
    exact h.valid
  covers k hk := by
    rw [hobject]
    obtain hzero | hpos := Nat.eq_zero_or_pos (S.amount k s.object)
    · rw [hzero]
      exact Nat.zero_le _
    · obtain ⟨hwaits, hcredit⟩ := hmove k hpos hk
      have hw : s'.waiting M k = (s.setPhase i p).waiting M k := by
        unfold State.waiting
        rw [hphases]
      have hc : s'.credit M k = (s.setPhase i p).credit M k := by
        unfold State.credit
        rw [hphases]
      have hwaiting := waiting_setPhase M s i p k
      have hcredit' := credit_setPhase M s i p k
      have hcovers := h.covers k (by omega)
      omega

theorem test (h : S.Covered s) {op : O} {late : Bool} (hi : s.phases i = .testing op late) :
    S.Covered (s.test M i op late) := by
  unfold State.test
  split
  · refine h.move rfl rfl fun k _ _ => ?_
    rw [hi]
    exact ⟨le_rfl, le_rfl⟩
  · next hcannot =>
    -- there is nothing for the operation, so those that wait for it need nobody
    have hne {k : κ} (hpos : 0 < S.amount k s.object) : M.cond op ≠ k := by
      rintro rfl
      rw [S.none (by simpa using hcannot)] at hpos
      exact absurd hpos (Nat.lt_irrefl 0)
    split
    · refine h.move rfl rfl fun k hpos _ => ?_
      rw [hi]
      refine ⟨le_rfl, ?_⟩
      show (if M.cond op = k then 1 else 0) ≤ 0
      rw [if_neg (hne hpos)]
    · refine h.move rfl rfl fun k hpos _ => ?_
      rw [hi]
      refine ⟨?_, ?_⟩
      · show (decide (M.cond op = k)).toNat ≤ 0
        rw [decide_eq_false (hne hpos)]
        rfl
      · show (if M.cond op = k then 1 else 0) ≤ 0
        rw [if_neg (hne hpos)]

theorem notifyNobody (h : S.Covered s) {op : O} {r : R} {conds : List κ}
    (hi : s.phases i = .notifying op r (k :: conds))
    (hnobody : ∀ j, (s.phases j).waitsOn M k = false) :
    S.Covered (s.setPhase i (.notifying op r conds)) := by
  have hzero : s.waiting M k = 0 := Count.total_eq_zero fun j => by
    rw [hnobody j]
    rfl
  refine h.move rfl rfl fun k' _ hwaiting => ?_
  have hsame := waiting_setPhase M s i (.notifying op r conds) k'
  rw [hi] at hsame ⊢
  refine ⟨le_rfl, ?_⟩
  have hne : k ≠ k' := by
    rintro rfl
    rw [hzero] at hsame
    change _ + 0 = 0 + 0 at hsame
    omega
  show (k :: conds).count k' ≤ conds.count k'
  rw [List.count_cons_of_ne hne]

/-- The thread that is notified takes over what the notification was good for. -/
theorem notifyOne (h : S.Covered s) {j : ι} {op op' : O} {r : R} {conds : List κ}
    (hi : s.phases i = .notifying op r (k :: conds)) (hj : s.phases j = .waiting op')
    (hk : M.cond op' = k) :
    S.Covered ((s.setPhase j (.woken op' false)).setPhase i (.notifying op r conds)) := by
  have hne : i ≠ j := by
    rintro rfl
    rw [hi] at hj
    cases hj
  have hi' : (s.setPhase j (.woken op' false)).phases i = .notifying op r (k :: conds) :=
    (Function.update_of_ne hne _ _).trans hi
  refine ⟨h.valid, fun k' hk' => ?_⟩
  have hw := waiting_setPhase M s j (.woken op' false) k'
  have hw' := waiting_setPhase M (s.setPhase j (.woken op' false)) i (.notifying op r conds) k'
  have hc := credit_setPhase M s j (.woken op' false) k'
  have hc' := credit_setPhase M (s.setPhase j (.woken op' false)) i (.notifying op r conds) k'
  rw [hj] at hw hc
  rw [hi'] at hw' hc'
  change _ + (decide (M.cond op' = k')).toNat = _ + 0 at hw
  change _ + 0 = _ + 0 at hw'
  change _ + 0 = _ + (if M.cond op' = k' then 1 else 0) at hc
  change _ + (k :: conds).count k' = _ + conds.count k' at hc'
  have hcovers := h.covers k' (by omega)
  rw [hk] at hc
  show S.amount k' s.object ≤ _
  by_cases heq : k = k'
  · rw [if_pos heq] at hc
    rw [heq, List.count_cons_self] at hc'
    omega
  · rw [if_neg heq] at hc
    rw [List.count_cons_of_ne heq] at hc'
    omega

/-- One unit is taken and one is supplied. The thread notifies of the first; for another one, enough
threads have to be on their way already. -/
theorem act (h : S.Covered s) {op : O} {q' : Q} {r : R} (hi : s.phases i = .acting op)
    (heffect : M.effect op s.object = some (q', r))
    (henough : 0 < S.amount (S.gives op) s.object → 0 < s.waiting M (S.gives op) →
      S.amount (S.gives op) s.object < s.credit M (S.gives op)) :
    S.Covered ((({ s with object := q' } : State ι Q O R κ).settle i op r).setPhase i
      (.notifying op r (M.notifies op s.object q'))) where
  valid := S.valid h.valid heffect
  covers k hk := by
    have hw := waiting_setPhase M s i (.notifying op r (M.notifies op s.object q')) k
    have hc := credit_setPhase M s i (.notifying op r (M.notifies op s.object q')) k
    rw [hi] at hw hc
    change (s.setPhase i _).waiting M k + 0 = s.waiting M k + 0 at hw
    change _ + (if M.cond op = k then 1 else 0) = _ + (M.notifies op s.object q').count k at hc
    change 0 < (s.setPhase i _).waiting M k at hk
    have hcovers := h.covers k (by omega)
    show S.amount k q' ≤ (s.setPhase i _).credit M k
    by_cases hgives : k = S.gives op
    · subst hgives
      have hcount : (M.notifies op s.object q').count (S.gives op) =
          if S.amount (S.gives op) s.object = 0 then 1 else 0 := by
        rw [S.notifies h.valid heffect]
        split
        · exact List.count_singleton_self
        · rfl
      rw [if_neg (S.gives_ne op).symm, hcount] at hc
      rw [S.adds h.valid heffect]
      split at hc
      · omega
      · have := henough (by omega) (by omega)
        omega
    · by_cases hcond : M.cond op = k
      · subst hcond
        have htakes := S.takes heffect
        rw [if_pos rfl] at hc
        omega
      · rw [if_neg hcond] at hc
        rw [S.rest heffect (Ne.symm hcond) hgives]
        omega

theorem step {q : Q} (h : S.Covered s) (hinv : M.Inv q s) {a : Action ι O}
    (hs : s.step M a = some s') (hprompt : S.Prompt s a) : S.Covered s' := by
  cases of_step hs with
  | call hi =>
    refine h.move rfl rfl fun k _ _ => ?_
    rw [hi]
    exact ⟨le_rfl, le_rfl⟩
  | lock _ hi =>
    refine h.move rfl rfl fun k _ _ => ?_
    rw [hi]
    exact ⟨le_rfl, Nat.zero_le _⟩
  | relock _ hi =>
    refine h.move rfl rfl fun k _ _ => ?_
    rw [hi]
    exact ⟨le_rfl, le_rfl⟩
  | test hi => exact h.test hi
  | @act i op q' r hi heffect =>
    refine h.act hi heffect fun hpos hwaiting => ?_
    rw [credit_eq_of_acting hinv hi (S.gives_ne op).symm]
    exact hprompt op (by rw [hi]; rfl) hpos hwaiting
  | notifyNobody hi hnobody => exact h.notifyNobody hi hnobody
  | notifyOne hi hj hk => exact h.notifyOne hi hj hk
  | @unlock i op r hi =>
    refine h.move rfl rfl fun k _ _ => ?_
    rw [hi]
    split <;> exact ⟨le_rfl, le_rfl⟩
  | wake hi =>
    refine h.move rfl rfl fun k _ _ => ?_
    rw [hi]
    exact ⟨Nat.zero_le _, Nat.zero_le _⟩
  | retry hi =>
    refine h.move rfl rfl fun k _ _ => ?_
    rw [hi]
    exact ⟨le_rfl, le_rfl⟩

end Covered

/-! ### Runs -/

variable {q : Q} {a : Action ι O}

theorem step_of_untimed (hs : (M.untimed ι q).step s a = some s') : s.step M a = some s' := by
  cases a with
  | wake => cases hs
  | _ => exact hs

theorem reachable_of_untimed {C : State ι Q O R κ → Action ι O → Prop}
    (h : (M.untimed ι q).Reach C s) : (M.system ι q).Reachable s := by
  induction h with
  | init hi => exact .init hi
  | step _ _ hs ih => exact .step ih trivial (step_of_untimed hs)

theorem covered_of_reach (hq : S.Valid q) (h : (M.untimed ι q).Reach S.Prompt s) :
    S.Covered s := by
  induction h with
  | init hi =>
    cases hi
    refine ⟨hq, fun k hk => ?_⟩
    have hzero : (State.start q : State ι Q O R κ).waiting M k = 0 :=
      Count.total_eq_zero fun _ => rfl
    omega
  | step hr hprompt hs ih =>
    exact ih.step (inv (reachable_of_untimed hr)) (step_of_untimed hs) hprompt

/-- **No wake-up is lost in a run of prompt steps.** -/
theorem noLostWakeup_of_reach (hq : S.Valid q) (h : (M.untimed ι q).Reach S.Prompt s) :
    S.NoLostWakeup s := by
  intro hsettled k hk
  rw [← hsettled.credit_eq]
  exact (covered_of_reach hq h).covers k hk

/-- **A step that is not prompt loses one.** -/
theorem prompt_of_noLostWakeup (hq : S.Valid q) (h : (M.untimed ι q).Reach S.Prompt s)
    (hs : (M.untimed ι q).step s a = some s') (hn : S.NoLostWakeup s') : S.Prompt s a := by
  have hinv := inv (reachable_of_untimed h)
  cases of_step (step_of_untimed hs) with
  | @act i op q' r hi heffect =>
    intro op' hop hpos hwaiting
    rw [hi] at hop
    cases hop
    have hvalid := (covered_of_reach hq h).valid
    have hnobody : M.notifies op s.object q' = [] := by
      rw [S.notifies hvalid heffect, if_neg (Nat.pos_iff_ne_zero.mp hpos)]
    rw [hnobody] at hn
    have hsettled : (s.setPhase i (.notifying op r [])).Settled :=
      hinv.settled_setPhase (by rw [hi]; rfl) op r
    have hw := waiting_setPhase M s i (.notifying op r []) (S.gives op)
    have hc := credit_setPhase M s i (.notifying op r []) (S.gives op)
    rw [hi] at hw hc
    change _ + 0 = _ + 0 at hw
    change _ + (if M.cond op = S.gives op then 1 else 0) = _ + 0 at hc
    rw [if_neg (S.gives_ne op).symm, hsettled.credit_eq,
      credit_eq_of_acting hinv hi (S.gives_ne op).symm] at hc
    have hle : S.amount (S.gives op) q' ≤ (s.setPhase i (.notifying op r [])).notified M _ :=
      hn hsettled (S.gives op) (show 0 < (s.setPhase i _).waiting M _ by omega)
    rw [S.adds hvalid heffect] at hle
    omega
  | _ => trivial

end Supply

end Monitor
