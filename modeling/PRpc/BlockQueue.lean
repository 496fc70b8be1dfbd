import PRpc.Library.Queue
import PRpc.Library.Wakeup

/-!
# `BlockQueue`

The queue between the listener, the handlers and the responder: a `deque` behind a mutex, with a
condition variable for either end of its range. `wait_for` tests its condition again after every
kind of wake-up, and once more when the time is over. `push` and `push_front` repeat `try_push`
with a sleep in between; `pop` waits again under the same lock.

For any number of threads, the results are those of an atomic bounded deque (`atomic_deque`): each
is decided at one moment between the call and the return, and nothing else changes the queue.

A push notifies a consumer only when the queue was empty, a pop a producer only when it was full.
Without the timeouts this is enough exactly in the runs in which nobody needs the notifications that
are not sent (`noLostWakeup_iff`).
-/

namespace PRpc.BlockQueue

variable {T : Type}

/-- The member functions; `_pop` is what `try_pop` returns. -/
inductive Op (T : Type)
  | tryPush (val : T) (back : Bool)
  | push (val : T)
  | pushFront (val : T)
  | tryPop
  | pop
  deriving DecidableEq, Repr

/-- The return values: `true`, and `false`, of a push and of a pop. -/
inductive Result (T : Type)
  | pushed
  | full
  | popped (result : T)
  | empty
  deriving DecidableEq, Repr

/-- `cond_is_empty`, for consumers, and `cond_is_full`, for producers. -/
inductive Cond
  | isEmpty
  | isFull
  deriving DecidableEq, Repr

/-- The value that is pushed, and where. -/
def Op.value : Op T → Option (T × Bool)
  | .tryPush val back => some (val, back)
  | .push val => some (val, true)
  | .pushFront val => some (val, false)
  | .tryPop | .pop => none

/-- `try_push` under its condition, and the same of the pops. -/
def effect (maxSize : ℕ) (op : Op T) (queue : List T) : Option (List T × Result T) :=
  match op.value with
  | some (val, back) => (Queue.tryPush maxSize queue val back).map fun queue => (queue, .pushed)
  | none => (Queue.tryPop queue).map fun (ret, queue) => (queue, .popped ret)

def monitor (T : Type) (maxSize : ℕ) : Monitor (List T) (Op T) (Result T) Cond where
  effect := effect maxSize
  cond op := if op.value.isSome then .isFull else .isEmpty
  notifies op queue queue' :=
    if op.value.isSome then (if queue.isEmpty then [.isEmpty] else [])
    else if queue'.length = maxSize - 1 then [.isFull] else []
  expires
    | .tryPush _ _ | .push _ | .pushFront _ => some .full
    | .tryPop => some .empty
    | .pop => none
  retries
    | .push _, .full | .pushFront _, .full => true
    | _, _ => false

/-- A queue that is used by the threads `ι`, empty at the start. -/
abbrev system (T ι : Type) [DecidableEq ι] [Fintype ι] (maxSize : ℕ) :
    System (Monitor.State ι (List T) (Op T) (Result T) Cond) (Monitor.Action ι (Op T)) :=
  (monitor T maxSize).system ι []

/-! ## The atomic deque -/

/-- What a bounded deque does in one moment, and when an operation on it may fail. -/
inductive Deque (maxSize : ℕ) : List T → Op T → Result T → List T → Prop
  | pushed {queue op val back} (hop : op.value = some (val, back))
      (hroom : queue.length < maxSize) :
    Deque maxSize queue op .pushed (if back then queue ++ [val] else val :: queue)
  | full {queue op val back} (hop : op.value = some (val, back)) (hfull : queue.length = maxSize) :
    Deque maxSize queue op .full queue
  | popped {queue op ret} (hop : op.value = none) :
    Deque maxSize (ret :: queue) op (.popped ret) queue
  | empty {op} (hop : op.value = none) : Deque maxSize [] op .empty []

/-- The values that were pushed, in order. -/
def pushes {ι : Type} (log : List (Monitor.Event ι (Op T) (Result T))) : List T :=
  log.filterMap fun e => if e.result matches .pushed then e.op.value.map Prod.fst else none

/-- The values that were popped, in order. -/
def pops {ι : Type} (log : List (Monitor.Event ι (Op T) (Result T))) : List T :=
  log.filterMap fun e => match e.result with
    | .popped ret => some ret
    | _ => none

/-- All that was pushed went to the back. -/
def AllBack {ι : Type} (log : List (Monitor.Event ι (Op T) (Result T))) : Prop :=
  ∀ e ∈ log, ∀ val, e.op.value ≠ some (val, false)

variable {ι : Type} {maxSize : ℕ} {queue queue' : List T} {op : Op T} {r : Result T}

theorem deque_of_applies (hsize : queue.length ≤ maxSize)
    (h : (monitor T maxSize).Applies queue op r queue') : Deque maxSize queue op r queue' := by
  cases h with
  | acts h =>
    replace h : effect maxSize op queue = some (queue', r) := h
    unfold effect at h
    split at h
    · next val back hop =>
      obtain ⟨q, hpush, heq⟩ := Option.map_eq_some_iff.mp h
      cases heq
      obtain ⟨hroom, rfl⟩ := Queue.of_tryPush hpush
      exact .pushed hop hroom
    · next hop =>
      obtain ⟨⟨ret, q⟩, hpop, heq⟩ := Option.map_eq_some_iff.mp h
      cases heq
      rw [Queue.of_tryPop hpop]
      exact .popped hop
  | expires hwait h =>
    replace hwait : effect maxSize op queue = none := hwait
    unfold effect at hwait
    split at hwait
    · next val back hop =>
      have hfull := Queue.of_tryPush_none (Option.map_eq_none_iff.mp hwait)
      obtain rfl : r = .full := by
        cases op <;> cases h <;> first | rfl | cases hop
      exact .full hop (le_antisymm hsize hfull)
    · next hop =>
      obtain rfl := Queue.of_tryPop_none (Option.map_eq_none_iff.mp hwait)
      obtain rfl : r = .empty := by
        cases op <;> cases h <;> first | rfl | cases hop
      exact .empty hop

/-- The results with which the operations return. -/
def Op.Ends : Op T → Result T → Prop
  | .tryPush _ _, r => r = .pushed ∨ r = .full
  | .push _, r | .pushFront _, r => r = .pushed
  | .tryPop, r => (∃ ret, r = .popped ret) ∨ r = .empty
  | .pop, r => ∃ ret, r = .popped ret

/-- `push` and `push_front` try again until there is room, and `pop` waits for a value. -/
theorem ends_of_applies (h : (monitor T maxSize).Applies queue op r queue')
    (hretries : (monitor T maxSize).retries op r = false) : op.Ends r := by
  cases h with
  | acts h =>
    replace h : effect maxSize op queue = some (queue', r) := h
    unfold effect at h
    split at h
    · next val back hop =>
      obtain ⟨q, -, heq⟩ := Option.map_eq_some_iff.mp h
      cases heq
      cases op with
      | tryPush => exact .inl rfl
      | push => exact rfl
      | pushFront => exact rfl
      | tryPop => cases hop
      | pop => cases hop
    · next hop =>
      obtain ⟨⟨ret, q⟩, -, heq⟩ := Option.map_eq_some_iff.mp h
      cases heq
      cases op with
      | tryPop => exact .inl ⟨ret, rfl⟩
      | pop => exact ⟨ret, rfl⟩
      | tryPush => cases hop
      | push => cases hop
      | pushFront => cases hop
  | expires _ h =>
    cases op with
    | tryPush =>
      cases h
      exact .inr rfl
    | tryPop =>
      cases h
      exact .inr rfl
    | push =>
      cases h
      cases hretries
    | pushFront =>
      cases h
      cases hretries
    | pop => cases h

/-- What the results say about the queue. -/
structure Explains (maxSize : ℕ) (log : List (Monitor.Event ι (Op T) (Result T)))
    (queue : List T) : Prop where
  size : queue.length ≤ maxSize
  /-- Each value that was pushed was popped once, or is in the queue once. -/
  perm : (pushes log).Perm (pops log ++ queue)
  /-- First in, first out. -/
  order : AllBack log → pops log ++ queue = pushes log

section Snoc

variable {log : List (Monitor.Event ι (Op T) (Result T))} {i : ι} {val ret : T} {back : Bool}

theorem pushes_append (log log' : List (Monitor.Event ι (Op T) (Result T))) :
    pushes (log ++ log') = pushes log ++ pushes log' := List.filterMap_append

theorem pops_append (log log' : List (Monitor.Event ι (Op T) (Result T))) :
    pops (log ++ log') = pops log ++ pops log' := List.filterMap_append

theorem pushes_pushed (hop : op.value = some (val, back)) :
    pushes [(⟨i, op, .pushed⟩ : Monitor.Event ι _ _)] = [val] := by
  unfold pushes
  simp [hop]

theorem Explains.push (h : Explains maxSize log queue) (hop : op.value = some (val, back))
    (hroom : queue.length < maxSize) : Explains maxSize (log ++ [⟨i, op, .pushed⟩])
      (if back then queue ++ [val] else val :: queue) where
  size := by
    cases back with
    | true => rw [if_pos rfl, List.length_append]; exact hroom
    | false => exact hroom
  perm := by
    have hnew : (val :: queue).Perm (if back then queue ++ [val] else val :: queue) := by
      cases back with
      | true => exact (List.perm_append_singleton val queue).symm
      | false => exact .rfl
    rw [pushes_append, pops_append, pushes_pushed hop]
    calc pushes log ++ [val]
      _ |>.Perm (val :: pushes log) := List.perm_append_singleton val _
      _ |>.Perm (val :: (pops log ++ queue)) := h.perm.cons val
      _ |>.Perm (pops log ++ val :: queue) := List.perm_middle.symm
      _ |>.Perm (pops log ++ [] ++ if back then queue ++ [val] else val :: queue) := by
        rw [List.append_nil]
        exact hnew.append_left _
  order hall := by
    have hback : back = true := by
      rw [← Bool.not_eq_false]
      rintro rfl
      exact hall _ (List.mem_append_right _ List.mem_cons_self) val hop
    have hlog := h.order fun e he => hall e (List.mem_append_left _ he)
    rw [pushes_append, pops_append, pushes_pushed hop, if_pos hback, ← hlog]
    show pops log ++ [] ++ (queue ++ [val]) = _
    rw [List.append_nil, List.append_assoc]

theorem Explains.pop (h : Explains maxSize log (ret :: queue)) :
    Explains maxSize (log ++ [⟨i, op, .popped ret⟩]) queue := by
  have hpushes : pushes (log ++ [⟨i, op, .popped ret⟩]) = pushes log := by
    rw [pushes_append]
    exact List.append_nil _
  have hpops : pops (log ++ [⟨i, op, .popped ret⟩]) ++ queue = pops log ++ ret :: queue := by
    rw [pops_append, List.append_assoc]
    rfl
  refine ⟨Nat.le_of_succ_le h.size, ?_, fun hall => ?_⟩
  · rw [hpushes, hpops]
    exact h.perm
  · rw [hpushes, hpops]
    exact h.order fun e he => hall e (List.mem_append_left _ he)

theorem Explains.giveUp (h : Explains maxSize log queue) (hr : r = .full ∨ r = .empty) :
    Explains maxSize (log ++ [⟨i, op, r⟩]) queue := by
  have hpushes : pushes (log ++ [⟨i, op, r⟩]) = pushes log := by
    rw [pushes_append]
    obtain rfl | rfl := hr <;> exact List.append_nil _
  have hpops : pops (log ++ [⟨i, op, r⟩]) = pops log := by
    rw [pops_append]
    obtain rfl | rfl := hr <;> exact List.append_nil _
  refine ⟨h.size, ?_, fun hall => ?_⟩
  · rw [hpushes, hpops]
    exact h.perm
  · rw [hpushes, hpops]
    exact h.order fun e he => hall e (List.mem_append_left _ he)

theorem Explains.snoc (h : Explains maxSize log queue) (he : Deque maxSize queue op r queue') :
    Explains maxSize (log ++ [⟨i, op, r⟩]) queue' := by
  cases he with
  | pushed hop hroom => exact h.push hop hroom
  | full => exact h.giveUp (.inl rfl)
  | popped => exact h.pop
  | empty => exact h.giveUp (.inr rfl)

end Snoc

/-- Results that the code brings about one after another. -/
theorem explains_of_replays {log : List (Monitor.Event ι (Op T) (Result T))}
    (h : (monitor T maxSize).Replays [] log queue) : Explains maxSize log queue := by
  induction h with
  | nil => exact ⟨Nat.zero_le _, .rfl, fun _ => rfl⟩
  | snoc _ he ih => exact ih.snoc (deque_of_applies ih.size he)

/-- **A bounded deque, for any interleaving.** The results so far account for what is in the queue;
each thread gets what was decided for it, between its call and its return; each step either leaves
the queue and the results alone or is one operation of the deque; and `push`, `push_front` and `pop`
return only when they have done it. -/
theorem atomic_deque [DecidableEq ι] [Fintype ι]
    {s : Monitor.State ι (List T) (Op T) (Result T) Cond}
    (h : (system T ι maxSize).Reachable s) :
    Explains maxSize s.log s.object ∧
    (∀ i, Monitor.of i s.log = Monitor.of i s.returned ++ (s.phases i).pending i) ∧
    ∀ a s', (system T ι maxSize).step s a = some s' →
      ((s'.log = s.log ∧ s'.object = s.object) ∨
        ∃ e, s'.log = s.log ++ [e] ∧ Deque maxSize s.object e.op e.result s'.object) ∧
      ∀ i, s.phases i ≠ .idle → s'.phases i = .idle →
        ∃ op r, s'.returned = s.returned ++ [⟨i, op, r⟩] ∧ op.Ends r := by
  have hinv := Monitor.inv h
  have hexplains := explains_of_replays hinv.replays
  refine ⟨hexplains, hinv.returned, fun a s' hs => ⟨?_, fun i hi hi' => ?_⟩⟩
  · obtain hsame | ⟨e, hlog, happlies⟩ := Monitor.log_step hs
    · exact .inl hsame
    · exact .inr ⟨e, hlog, deque_of_applies hexplains.size happlies⟩
  · obtain ⟨op, r, hreturned, hretries, _, _, happlies⟩ := Monitor.of_return hinv hs hi hi'
    exact ⟨op, r, hreturned, ends_of_applies happlies hretries⟩

/-- A consumer (`true`) waits, a producer notifies it, and a second push runs out of time. -/
def handOver : List (Monitor.Action Bool (Op ℕ)) :=
  [.call true .pop, .lock true, .test true, .call false (.tryPush 7 true), .lock false, .test false,
    .act false, .notify false (some true), .unlock false, .call false (.tryPush 8 true),
    .lock false, .test false, .wake false true, .lock false, .test false, .unlock false,
    .lock true, .test true, .act true]

theorem atomic_deque_handOver : ∃ s, (system ℕ Bool 1).run (fun _ _ => True)
    (.start []) handOver = some s ∧ pops s.log = [7] ∧ Explains 1 s.log s.object := by
  have hrun : ((system ℕ Bool 1).run (fun _ _ => True) (.start []) handOver).any
      (fun s => pops s.log = [7]) = true := by decide +kernel
  obtain ⟨s, hs, hpops⟩ := (Option.any_eq_true _ _).mp hrun
  exact ⟨s, hs, of_decide_eq_true hpops, (atomic_deque (.run (.init rfl) hs)).1⟩

/-! ## Wake-ups -/

theorem length_of_effect (h : effect maxSize op queue = some (queue', r)) :
    op.value.isSome = true ∧ queue.length < maxSize ∧ queue'.length = queue.length + 1 ∨
      op.value.isSome = false ∧ queue.length = queue'.length + 1 := by
  unfold effect at h
  split at h
  · next val back hop =>
    obtain ⟨q, hpush, heq⟩ := Option.map_eq_some_iff.mp h
    cases heq
    exact .inl ⟨by rw [hop]; rfl, (Queue.of_tryPush hpush).1, Queue.length_of_tryPush hpush⟩
  · next hop =>
    obtain ⟨⟨ret, q⟩, hpop, heq⟩ := Option.map_eq_some_iff.mp h
    cases heq
    rw [Queue.of_tryPop hpop]
    exact .inr ⟨by rw [hop]; rfl, rfl⟩

/-- An operation waits when the queue is full, or empty. -/
theorem length_of_effect_none (h : effect maxSize op queue = none) :
    op.value.isSome = true ∧ maxSize ≤ queue.length ∨ op.value.isSome = false ∧ queue = [] := by
  unfold effect at h
  split at h
  · next hop =>
    exact .inl ⟨by rw [hop]; rfl, Queue.of_tryPush_none (Option.map_eq_none_iff.mp h)⟩
  · next hop =>
    exact .inr ⟨by rw [hop]; rfl, Queue.of_tryPop_none (Option.map_eq_none_iff.mp h)⟩

/-- The values are for consumers, the free slots for producers. -/
def amount (maxSize : ℕ) : Cond → List T → ℕ
  | .isEmpty, queue => queue.length
  | .isFull, queue => maxSize - queue.length

/-- A push supplies a value and a pop a free slot; both notify of the first. -/
def supply (T : Type) (maxSize : ℕ) : (monitor T maxSize).Supply where
  Valid queue := queue.length ≤ maxSize
  amount := amount maxSize
  gives op := if op.value.isSome then .isEmpty else .isFull
  gives_ne op := by
    show (if _ then Cond.isEmpty else .isFull) ≠ if _ then .isFull else .isEmpty
    split <;> decide
  valid hvalid h := by
    obtain ⟨-, hroom, hlen⟩ | ⟨-, hlen⟩ := length_of_effect h
    · omega
    · omega
  none := by
    intro op queue h
    show amount maxSize (if op.value.isSome then .isFull else .isEmpty) queue = 0
    obtain ⟨hop, hfull⟩ | ⟨hop, rfl⟩ := length_of_effect_none h
    · rw [hop]
      exact Nat.sub_eq_zero_of_le hfull
    · rw [hop]
      rfl
  takes := by
    intro op queue queue' r h
    show amount maxSize (if op.value.isSome then .isFull else .isEmpty) queue' + 1 =
      amount maxSize (if op.value.isSome then .isFull else .isEmpty) queue
    obtain ⟨hop, hroom, hlen⟩ | ⟨hop, hlen⟩ := length_of_effect h
    · rw [hop]
      show maxSize - queue'.length + 1 = maxSize - queue.length
      omega
    · rw [hop]
      exact hlen.symm
  adds := by
    intro op queue queue' r hvalid h
    show amount maxSize (if op.value.isSome then .isEmpty else .isFull) queue' =
      amount maxSize (if op.value.isSome then .isEmpty else .isFull) queue + 1
    obtain ⟨hop, hroom, hlen⟩ | ⟨hop, hlen⟩ := length_of_effect h
    · rw [hop]
      exact hlen
    · rw [hop]
      show maxSize - queue'.length = maxSize - queue.length + 1
      omega
  rest := by
    intro op queue queue' r k h hcond hgives
    -- there is no third condition variable
    change k ≠ if op.value.isSome then .isFull else .isEmpty at hcond
    change k ≠ if op.value.isSome then .isEmpty else .isFull at hgives
    cases hop : op.value.isSome <;> rw [hop] at hcond hgives <;> cases k
    · exact absurd rfl hcond
    · exact absurd rfl hgives
    · exact absurd rfl hgives
    · exact absurd rfl hcond
  notifies := by
    intro op queue queue' r hvalid h
    show (if op.value.isSome then (if queue.isEmpty then [Cond.isEmpty] else [])
      else if queue'.length = maxSize - 1 then [.isFull] else []) =
        if amount maxSize (if op.value.isSome then .isEmpty else .isFull) queue = 0 then
          [if op.value.isSome then .isEmpty else .isFull] else []
    obtain ⟨hop, -, -⟩ | ⟨hop, hlen⟩ := length_of_effect h
    · rw [hop]
      show (if queue.isEmpty = true then [Cond.isEmpty] else []) =
        if queue.length = 0 then [.isEmpty] else []
      exact if_congr (by rw [List.isEmpty_iff, List.length_eq_zero_iff]) rfl rfl
    · rw [hop]
      show (if queue'.length = maxSize - 1 then [Cond.isFull] else []) =
        if maxSize - queue.length = 0 then [.isFull] else []
      exact if_congr ⟨fun _ => by omega, fun _ => by omega⟩ rfl rfl

/-- The queue without timeouts and spurious wake-ups. -/
abbrev untimed (T ι : Type) [DecidableEq ι] [Fintype ι] (maxSize : ℕ) :
    System (Monitor.State ι (List T) (Op T) (Result T) Cond) (Monitor.Action ι (Op T)) :=
  (monitor T maxSize).untimed ι []

/-- No thread stays in a wait set while there are more values, or slots, than threads were notified
and have not run yet. -/
structure NoLostWakeup (maxSize : ℕ) [Fintype ι]
    (s : Monitor.State ι (List T) (Op T) (Result T) Cond) : Prop where
  consumers : s.object ≠ [] → 0 < s.waiting (monitor T maxSize) .isEmpty →
    s.object.length ≤ s.notified (monitor T maxSize) .isEmpty
  producers : s.object.length < maxSize → 0 < s.waiting (monitor T maxSize) .isFull →
    maxSize - s.object.length ≤ s.notified (monitor T maxSize) .isFull

/-- A push behind other values finds no consumer in the wait set, and a pop beside free slots no
producer, unless more were notified and have not run yet than there are values, or slots. -/
def Answered (maxSize : ℕ) [Fintype ι] (s : Monitor.State ι (List T) (Op T) (Result T) Cond)
    (op : Op T) : Prop :=
  (op.value.isSome = true → s.object ≠ [] → 0 < s.waiting (monitor T maxSize) .isEmpty →
    s.object.length < s.notified (monitor T maxSize) .isEmpty) ∧
  (op.value.isSome = false → s.object.length < maxSize →
    0 < s.waiting (monitor T maxSize) .isFull →
      maxSize - s.object.length < s.notified (monitor T maxSize) .isFull)

/-- The condition on the steps: it is about the pushes and the pops that find a value or a slot. -/
def Signals (maxSize : ℕ) [Fintype ι] (s : Monitor.State ι (List T) (Op T) (Result T) Cond) :
    Monitor.Action ι (Op T) → Prop
  | .act i => ∀ op ∈ (s.phases i).acts, Answered maxSize s op
  | _ => True

instance [Fintype ι] (s : Monitor.State ι (List T) (Op T) (Result T) Cond) (op : Op T) :
    Decidable (Answered maxSize s op) :=
  inferInstanceAs (Decidable (_ ∧ _))

instance [Fintype ι] (s : Monitor.State ι (List T) (Op T) (Result T) Cond) :
    (a : Monitor.Action ι (Op T)) → Decidable (Signals maxSize s a)
  | .act _ => inferInstanceAs (Decidable (∀ _ ∈ _, _))
  | .call .. | .lock _ | .test _ | .notify .. | .unlock _ | .wake .. | .retry _ => .isTrue trivial

section Wakeup

variable [Fintype ι] {s : Monitor.State ι (List T) (Op T) (Result T) Cond}
  {a : Monitor.Action ι (Op T)}

theorem noLostWakeup_iff_supply :
    (supply T maxSize).NoLostWakeup s ↔ (s.Settled → NoLostWakeup maxSize s) := by
  refine forall_congr' fun _ => ⟨fun h => ⟨fun _ => h .isEmpty, fun _ => h .isFull⟩, ?_⟩
  rintro h (_ | _) hwaiting
  · show s.object.length ≤ _
    obtain hnil | hne := eq_or_ne s.object []
    · rw [hnil]
      exact Nat.zero_le _
    · exact h.consumers hne hwaiting
  · show maxSize - s.object.length ≤ _
    obtain hfull | hroom := le_or_gt maxSize s.object.length
    · rw [Nat.sub_eq_zero_of_le hfull]
      exact Nat.zero_le _
    · exact h.producers hroom hwaiting

/-- The condition in the terms of what is supplied. -/
theorem answered_iff {op : Op T} : Answered maxSize s op ↔
    (0 < (supply T maxSize).amount ((supply T maxSize).gives op) s.object →
      0 < s.waiting (monitor T maxSize) ((supply T maxSize).gives op) →
        (supply T maxSize).amount ((supply T maxSize).gives op) s.object <
          s.notified (monitor T maxSize) ((supply T maxSize).gives op)) := by
  unfold Answered
  cases hop : op.value.isSome with
  | true =>
    have hgives : (supply T maxSize).gives op = .isEmpty := if_pos hop
    rw [hgives]
    show _ ↔ (0 < s.object.length → _ → s.object.length < _)
    rw [List.length_pos_iff]
    exact ⟨fun h => h.1 rfl, fun h => ⟨fun _ => h, fun hf => (by cases hf)⟩⟩
  | false =>
    have hgives : (supply T maxSize).gives op = .isFull := if_neg (by rw [hop]; decide)
    rw [hgives]
    show _ ↔ (0 < maxSize - s.object.length → _ → maxSize - s.object.length < _)
    rw [Nat.sub_pos_iff_lt]
    exact ⟨fun h => h.2 rfl, fun h => ⟨fun hf => (by cases hf), fun _ => h⟩⟩

theorem prompt_iff : (supply T maxSize).Prompt s a ↔ Signals maxSize s a := by
  cases a with
  | act i => exact forall₂_congr fun op _ => answered_iff.symm
  | _ => exact .rfl

variable [DecidableEq ι]

theorem reach_prompt (h : (untimed T ι maxSize).Reach (Signals maxSize) s) :
    (untimed T ι maxSize).Reach (supply T maxSize).Prompt s :=
  h.mono fun _ _ => prompt_iff.mpr

theorem noLostWakeup_of_settled (h : (untimed T ι maxSize).Reach (Signals maxSize) s)
    (hsettled : s.Settled) : NoLostWakeup maxSize s :=
  noLostWakeup_iff_supply.mp
    (Monitor.Supply.noLostWakeup_of_reach (Nat.zero_le _) (reach_prompt h)) hsettled

/-- Whenever the mutex is free in such a run, no wake-up is lost. -/
theorem noLostWakeup_of_owner (h : (untimed T ι maxSize).Reach (Signals maxSize) s)
    (hfree : s.owner = none) : NoLostWakeup maxSize s :=
  noLostWakeup_of_settled h
    ((Monitor.inv (Monitor.Supply.reachable_of_untimed h)).settled_of_owner hfree)

/-- **When no wake-up is lost**: the states of a run in which nobody is in the middle of a critical
section have enough notified threads exactly if no step of the run would have had to notify another
one. -/
theorem noLostWakeup_iff {as : List (Monitor.Action ι (Op T))}
    (h : (untimed T ι maxSize).run (fun _ _ => True) (.start []) as = some s) :
    (untimed T ι maxSize).Along (fun s => s.Settled → NoLostWakeup maxSize s) (.start []) as ↔
      (untimed T ι maxSize).run (Signals maxSize) (.start []) as = some s :=
  System.along_iff (fun _ => noLostWakeup_of_settled)
    (fun _ _ _ hr hs hn => prompt_iff.mp (Monitor.Supply.prompt_of_noLostWakeup (Nat.zero_le _)
      (reach_prompt hr) hs (noLostWakeup_iff_supply.mpr hn))) (.init rfl) h

end Wakeup

/-- Two consumers wait, and the producer pushes a value for the first of them. -/
def firstPush : List (Monitor.Action (Option Bool) (Op ℕ)) :=
  [.call (some true) .pop, .lock (some true), .test (some true),
    .call (some false) .pop, .lock (some false), .test (some false),
    .call none (.tryPush 1 true), .lock none, .test none, .act none,
    .notify none (some (some true)), .unlock none]

/-- It pushes another one. -/
def secondPush : List (Monitor.Action (Option Bool) (Op ℕ)) :=
  [.call none (.tryPush 2 true), .lock none, .test none, .act none]

/-- The consumer that was notified takes the first value. -/
def firstPop : List (Monitor.Action (Option Bool) (Op ℕ)) :=
  [.lock (some true), .test (some true), .act (some true), .unlock (some true)]

/-- One after the other. -/
theorem noLostWakeup_popFirst : ∃ s, (untimed ℕ (Option Bool) 100).run (fun _ _ => True) (.start [])
      (firstPush ++ firstPop ++ secondPush) = some s ∧ s.object = [2] ∧
    (untimed ℕ (Option Bool) 100).Along (fun s => s.Settled → NoLostWakeup 100 s) (.start [])
      (firstPush ++ firstPop ++ secondPush) := by
  have hrun : ((untimed ℕ (Option Bool) 100).run (Signals 100) (.start [])
      (firstPush ++ firstPop ++ secondPush)).any (fun s => s.object = [2]) = true := by
    decide +kernel
  obtain ⟨s, hs, hobject⟩ := (Option.any_eq_true _ _).mp hrun
  have hall := System.run_mono (D := fun _ _ => True) (fun _ _ _ => trivial) hs
  exact ⟨s, hall, of_decide_eq_true hobject, (noLostWakeup_iff hall).mpr hs⟩

/-- The second value is there before the first is taken: nobody is notified of it, and its consumer
waits on although nobody else is under way. -/
theorem pushBehind_lostWakeup : ¬ ∀ s, (untimed ℕ (Option Bool) 100).Reachable s →
    s.owner = none → NoLostWakeup 100 s := by
  intro h
  have hrun : ((untimed ℕ (Option Bool) 100).run (fun _ _ => True) (.start [])
      (firstPush ++ secondPush ++ [.unlock none] ++ firstPop)).any (fun s => s.owner = none ∧
        s.object = [2] ∧ s.waiting (monitor ℕ 100) .isEmpty = 1 ∧
        s.notified (monitor ℕ 100) .isEmpty = 0) = true := by decide +kernel
  obtain ⟨s, hs, hfacts⟩ := (Option.any_eq_true _ _).mp hrun
  obtain ⟨hfree, hobject, hwaiting, hnotified⟩ := of_decide_eq_true hfacts
  have hle := (h s (.run (.init rfl) hs) hfree).consumers (by rw [hobject]; decide)
    (by rw [hwaiting]; decide)
  rw [hobject, hnotified] at hle
  cases hle

end PRpc.BlockQueue
