import PRpc.Client.Outstanding

/-!
# The thread of a call

What a step of the client does to a call: its request stays as it was made, its id is set once, and
its value is what `recvRespond` reads, an object of the value class (`Call.Valued`). The thread
returns from `Client::call` with a call that is done, or by an exception of `sendCall`
(`Moves.returned_cases`).
-/

namespace PRpc.Client

open Function

variable {s s' : State} {a : Action} {k : CallId} {c : ConnId}

/-! ## The value -/

theorem getClass_readFields (loop : ℕ → Sock → Filled) (w : Writable) (s : Sock) :
    (Writable.readFields loop w s).2.1.getClass = w.getClass := by
  cases w with
  | base => rfl
  | int value =>
    unfold Writable.readFields
    dsimp only
    split <;> rfl
  | method className methodName params =>
    unfold Writable.readFields MethodWritable.readFields
    dsimp only
    (repeat' split) <;> rfl

/-- The classes whose objects can be read and printed. -/
def IsClass (class_ : Bytes) : Prop :=
  class_ = ascii "IntWritable" ∨ class_ = ascii "MethodWritable"

instance (class_ : Bytes) : Decidable (IsClass class_) := inferInstanceAs (Decidable (_ ∨ _))

theorem getClass_getNewInstance {class_ : Bytes} (h : IsClass class_) (fresh : CInt) :
    (Method.getNewInstance fresh class_).getClass = class_ := by
  rcases h with rfl | rfl <;> rfl

theorem printToString_of_isClass {val : Writable} (h : IsClass val.getClass) :
    ∃ str, val.printToString = .ok str := by
  cases val with
  | base => exact absurd h (by decide)
  | int | method => exact ⟨_, rfl⟩

theorem eq_base_of_getClass {w : Writable} (h : w.getClass = ascii "Writable") : w = .base := by
  cases w with
  | base => rfl
  | int value => exact absurd (show ascii "IntWritable" = ascii "Writable" from h) (by decide)
  | method c m ps =>
    exact absurd (show ascii "MethodWritable" = ascii "Writable" from h) (by decide)

/-- A call that is done has a value of its class. -/
def Call.Valued (call : Call) : Prop :=
  call.done = true →
    IsClass call.valueClass ∧ ∃ val, call.value = some val ∧ val.getClass = call.valueClass

theorem Call.Valued.recvValue {call call' : Call} {input : Sock} (h : call.Valued)
    (hval : (Connection.recvValue call input).1 = some call') : call'.Valued := by
  have hread := getClass_readFields paramLoop (Method.getNewInstance input.fresh call.valueClass)
    input.make
  unfold Connection.recvValue at hval
  split at hval
  · cases hval
  next ret val t heq =>
  cases hval
  rw [heq] at hread
  by_cases hclass : IsClass call.valueClass
  · have hval : val.getClass = call.valueClass :=
      hread.trans (getClass_getNewInstance hclass input.fresh)
    obtain ⟨str, hprint⟩ := printToString_of_isClass (hval ▸ hclass)
    unfold Call.setValue
    rw [hprint]
    exact fun _ => ⟨hclass, val, rfl, hval⟩
  · -- it is a base object, whose printing throws
    have hbase : Method.getNewInstance input.fresh call.valueClass = .base := by
      unfold Method.getNewInstance
      rw [if_neg fun heq => hclass (.inl heq), if_neg fun heq => hclass (.inr heq)]
    rw [hbase] at hread
    obtain rfl := eq_base_of_getClass hread
    exact fun hdone => absurd (h hdone).1 hclass

/-! ## What a step does to a call -/

/-- A response changes nothing in a call but its value, which it reads. -/
theorem State.call_recvRespond_cases (s : State) (c : ConnId) (input : Sock) (k : CallId) :
    (s.recvRespond c input).call k = s.call k ∨ ∃ input' call,
      (Connection.recvValue (s.call k) input').1 = some call ∧
      (s.recvRespond c input).call k = call := by
  by_cases hfound : 4 ≤ input.input.length ∧
      ∃ k, (s.conn c).calls.lookup (intOfBytes (input.input.take 4)) = some k
  · obtain ⟨h4, j, hj⟩ := hfound
    rw [State.recvRespond_of_found h4 hj]
    split
    · exact .inl rfl
    · next call hval =>
      by_cases heq : k = j
      · refine .inr ⟨_, call, heq ▸ hval, ?_⟩
        show update s.call j call k = call
        rw [heq, update_self]
      · exact .inl (update_of_ne heq ..)
  · obtain ⟨status, heq⟩ := State.recvRespond_of_not_found hfound
    rw [heq]
    exact .inl rfl

/-- **What a step does to a call**: nothing, or it makes the call, or sets its id or its value. -/
theorem Moves.call_of (hm : Moves s a s') (k : CallId) :
    s'.call k = s.call k ∨
    (∃ ep valueClass param id, a = .newCall ep valueClass param id ∧ k = s.lastCall ∧
      s'.call k = { valueClass, id, param }) ∨
    (∃ id, s'.call k = (s.call k).setId id) ∨
    ∃ input call, (Connection.recvValue (s.call k) input).1 = some call ∧ s'.call k = call := by
  cases hm with
  | @newCall ep valueClass param id =>
    show update s.call s.lastCall _ k = _ ∨ _
    by_cases heq : k = s.lastCall
    · refine .inr (.inl ⟨ep, valueClass, param, id, rfl, heq, ?_⟩)
      show update s.call s.lastCall _ k = _
      rw [heq, update_self]
    · exact .inl (update_of_ne heq ..)
  | @addCall g hg hpc =>
    by_cases heq : k = g.call
    · refine .inr (.inr (.inl ⟨(s.conn g.conn).lastCallIndex, ?_⟩))
      show update s.call g.call _ k = _
      rw [heq, update_self]
    · exact .inl (update_of_ne heq ..)
  | @recvRespond c input hc =>
    rcases s.call_recvRespond_cases c input k with heq | hval
    · exact .inl heq
    · exact .inr (.inr (.inr hval))
  | connect | startThread | sendCall | cleanupCalls => simp
  | _ => exact .inl rfl

theorem Moves.request_eq (hm : Moves s a s') (hk : k < s.lastCall) :
    (s'.call k).param = (s.call k).param ∧ (s'.call k).valueClass = (s.call k).valueClass := by
  rcases hm.call_of k with heq | ⟨_, _, _, _, -, hlast, -⟩ | ⟨id, heq⟩ | ⟨input, call, hval, heq⟩
  · rw [heq]
    exact ⟨rfl, rfl⟩
  · exact absurd hlast (Nat.ne_of_lt hk)
  · rw [heq]
    exact ⟨rfl, rfl⟩
  · obtain ⟨val, rfl⟩ := Connection.of_recvValue hval
    rw [heq]
    unfold Call.setValue
    split <;> exact ⟨rfl, rfl⟩

theorem Moves.lastCall_le (hm : Moves s a s') : s.lastCall ≤ s'.lastCall := by
  cases hm with
  | newCall => exact Nat.le_succ _
  | connect =>
    unfold State.connect
    (repeat' split) <;> exact le_rfl
  | startThread =>
    unfold State.startThread
    split <;> exact le_rfl
  | sendCall =>
    unfold State.sendCall
    split <;> exact le_rfl
  | @recvRespond c input =>
    unfold State.recvRespond
    dsimp only
    split
    case h_4 id call heq => cases (s.conn c).calls.lookup id <;> exact le_rfl
    all_goals exact le_rfl
  | cleanupCalls =>
    unfold State.cleanupCalls
    split <;> exact le_rfl
  | _ => exact le_rfl

/-- **A call that is done has a value of its class**, whatever the client is sent. -/
theorem valued_of_reachable (h : client.Reachable s) (k : CallId) : (s.call k).Valued := by
  refine h.invariant (I := fun s => ∀ k, (s.call k).Valued) ?_ (fun s a s' ih _ hs k => ?_) k
  · rintro _ rfl k hdone
    cases hdone
  · rcases (State.moves_of_step hs).call_of k with heq | ⟨_, _, _, _, -, -, heq⟩ | ⟨id, heq⟩ |
      ⟨input, call, hval, heq⟩
    · rw [heq]
      exact ih k
    · rw [heq]
      intro hdone
      cases hdone
    · rw [heq]
      exact ih k
    · rw [heq]
      exact (ih k).recvValue hval

/-! ## How the thread returns -/

theorem done_of_finish (h : s.step (.finish k) = some s') : (s.call k).done = true := by
  unfold State.step State.act at h
  split at h
  · dsimp only at h
    split at h
    · split at h
      · assumption
      · cases h
    · cases h
  · cases h

/-- A thread returns from `Client::call` with a call that is done, or because it cannot write, or
without a connection. -/
theorem Moves.returned_cases (hm : Moves s a s') (h : s'.caller k = .returned) :
    s.caller k = .returned ∨
      (∃ c, s.caller k = .waiting c ∧ a = .finish k) ∨
      (∃ c ok, s.caller k = .got c ∧ a = .sendCall k ok ∧
        ((s.conn c).sock = .connected → ok = false) ∧
        ((s.conn c).sock = .connected ∨ (s.conn c).sock = .unconnected)) ∨
      ∃ g, s.getting = some g ∧ g.pc = .returning none := by
  have hupdate {j : CallId} {pc : CallerPc} (hpc : pc ≠ .returned)
      (hk : update s.caller j pc k = .returned) : s.caller k = .returned := by
    rw [update_apply] at hk
    split at hk
    · exact absurd hk hpc
    · exact hk
  cases hm with
  | newCall => exact .inl (hupdate (by simp) h)
  | reuse => exact .inl (hupdate (by simp) h)
  | create => exact .inl (hupdate (by simp) h)
  | connect | startThread | recvRespond | cleanupCalls => exact .inl (by simpa using h)
  | @leave g conn hg hpc =>
    cases conn with
    | none => exact .inr (.inr (.inr ⟨g, hg, hpc⟩))
    | some c => exact .inl (hupdate (by simp) h)
  | @sendCall j c ok hj =>
    by_cases heq : k = j
    · rw [heq] at h ⊢
      unfold State.sendCall at h
      split at h
      · next hsock =>
        refine .inr (.inr (.inl ⟨c, ok, hj, rfl, fun _ => ?_, .inl hsock⟩))
        cases ok with
        | false => rfl
        | true =>
          change update s.caller j (.waiting c) j = .returned at h
          rw [update_self] at h
          cases h
      · next hsock =>
        refine .inr (.inr (.inl ⟨c, ok, hj, rfl, fun hsock' => ?_, .inr hsock⟩))
        rw [hsock] at hsock'
        cases hsock'
      all_goals exact .inl h
    · unfold State.sendCall at h
      split at h
      · change update s.caller j _ k = .returned at h
        rw [update_of_ne heq] at h
        exact .inl h
      · change update s.caller j _ k = .returned at h
        rw [update_of_ne heq] at h
        exact .inl h
      all_goals exact .inl h
  | @finish j c hj =>
    by_cases heq : k = j
    · exact .inr (.inl ⟨c, by rw [heq]; exact hj, by rw [heq]⟩)
    · change update s.caller j .returned k = .returned at h
      rw [update_of_ne heq] at h
      exact .inl h
  | _ => exact .inl h

/-- `sendCall` ends by an exception: a write fails, or the socket is not connected. -/
def State.throws (s : State) : Action → Bool
  | .sendCall k ok =>
    match s.caller k with
    | .got c => (s.conn c).sock = .unconnected || (s.conn c).sock = .connected && !ok
    | _ => false
  | _ => false

/-- **A thread returns with its call done**, unless it is by an exception. -/
theorem State.done_of_returned (hs : s.step a = some s') (hM : Managed s)
    (ht : s.throws a = false) (h : s.caller k = .returned → (s.call k).done = true)
    (hk : s'.caller k = .returned) : (s'.call k).done = true := by
  have hm := State.moves_of_step hs
  have hkeep (hmade : s.caller k ≠ .unmade) (hdone : (s.call k).done = true) :
      (s'.call k).done = true := by
    refine hm.done_mono ?_ hdone
    by_contra hle
    exact hmade (hM.unmade k (Nat.le_of_not_lt hle))
  rcases hm.returned_cases hk with hk | ⟨c, hk, rfl⟩ | ⟨c, ok, hk, rfl, hok, hsock⟩ | ⟨g, hg, hpc⟩
  · exact hkeep (by simp [hk]) (h hk)
  · exact hkeep (by simp [hk]) (done_of_finish hs)
  · unfold State.throws at ht
    dsimp only at ht
    rw [hk] at ht
    rcases hsock with hsock | hsock
    · simp [hsock, hok hsock] at ht
    · simp [hsock] at ht
  · cases hM.result g hg none hpc

end PRpc.Client
