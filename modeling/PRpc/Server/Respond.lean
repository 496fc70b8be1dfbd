import PRpc.Server.Framing
import PRpc.Server.Tokens

/-!
# What `doRespond` returns

`doRespond` ignores what `processResponse` returns to it. Here the server keeps with each handler
what its last `doRespond` has done. If it returns `true`, then it has queued its call together with
an endpoint, or it has sent the call that it popped, or put it back together with an endpoint,
exactly when no step of its own went wrong in between (`truthful_iff`); whatever the other threads
do, and in any state of the queues.

A handler for which `doRespond` returns `false` aborts; one that waits for another call again has
got `true`.
-/

namespace PRpc.Server

open Queue

variable {m n : ℕ}

/-! ## What the steps of a handler do -/

/-- What a thread does for a response. -/
inductive Deed
  /-- The call was pushed into the response queue. -/
  | queued (c : ConnId) (k : CallId)
  | popped (c : ConnId) (k : CallId)
  /-- The last byte of the response was written. -/
  | sent (c : ConnId) (k : CallId)
  /-- The endpoint was pushed into `_bq_respond`. -/
  | token (c : ConnId)
  deriving DecidableEq

/-- The thread of the pipeline that acts. -/
def Action.thread : Action m n → Option (Thread n)
  | .popCall h | .execute h | .pushRespond h | .size h | .pushToken h => some (.handler h)
  | .popToken | .lookup => some .responder
  | .tryPop t | .write t _ | .requeue t | .retoken t => some t
  | _ => none

/-- What the action achieves; nothing, if its operation fails. -/
def State.deed (s : State m n) : Action m n → Option Deed
  | .pushRespond h =>
    match s.pipe.pc (.handler h) with
    | .valued k =>
      let c := (s.pipe.calls k).connection
      (tryPush Connection.maxRespondSize (s.pipe.respondQueue c) k true).map fun _ => .queued c k
    | _ => none
  | .pushToken h =>
    match s.pipe.pc (.handler h) with
    | .queueing c => (tryPush Responder.maxRespondSize s.pipe.bqRespond (s.listener.endpoint c)
        true).map fun _ => .token c
    | _ => none
  | .tryPop t =>
    match s.pipe.pc t with
    | .popping c => (Queue.tryPop (s.pipe.respondQueue c)).map fun x => .popped c x.1
    | _ => none
  | .write t io =>
    match s.pipe.pc t with
    | .popped c k =>
      match (Connection.processResponse (s.pipe.calls k) io).2.2 with
      | .sent => some (.sent c k)
      | _ => none
    | _ => none
  | .requeue t =>
    match s.pipe.pc t with
    | .requeue c k => (tryPush Connection.maxRespondSize (s.pipe.respondQueue c) k true).map
        fun _ => .queued c k
    | _ => none
  | .retoken t =>
    match s.pipe.pc t with
    | .token c => (tryPush Responder.maxRespondSize s.pipe.bqRespond (s.listener.endpoint c)
        false).map fun _ => .token c
    | _ => none
  | _ => none

/-- The server, with what the last or current `doRespond` of each handler has done. -/
structure Reporting (m n : ℕ) where
  server : State m n
  deeds : Fin n → List Deed

namespace Reporting

/-- What is kept; `doRespond` begins with the push of its call. -/
def kept (x : Reporting m n) (h : Fin n) : Action m n → List Deed
  | .pushRespond _ => []
  | _ => x.deeds h

def record (x : Reporting m n) (a : Action m n) : Fin n → List Deed :=
  match a.thread with
  | some (.handler h) => Function.update x.deeds h (x.kept h a ++ (x.server.deed a).toList)
  | _ => x.deeds

def step (x : Reporting m n) (a : Action m n) : Option (Reporting m n) :=
  (x.server.step a).map fun s => ⟨s, x.record a⟩

end Reporting

def reporting (m n : ℕ) : System (Reporting m n) (Action m n) where
  init x := x = ⟨.start m n, fun _ => []⟩
  step := Reporting.step

/-- What a `doRespond` for the call has to have done that returns `true`. -/
inductive Truthful (k : CallId) : List Deed → Prop
  | queued (c : ConnId) : Truthful k [.queued c k, .token c]
  | sent (c : ConnId) (j : CallId) : Truthful k [.queued c k, .popped c j, .sent c j]
  | putBack (c : ConnId) (j : CallId) :
      Truthful k [.queued c k, .popped c j, .queued c j, .token c]

/-! ## The condition -/

/-- The position is not behind the end of the value. -/
def Call.LegalPos (call : Call) : Prop := sizeOfInt call.pos ≤ call.strVal.length

instance : DecidablePred Call.LegalPos := fun call =>
  inferInstanceAs (Decidable (sizeOfInt call.pos ≤ call.strVal.length))

/-- The thread that pops from a response queue. -/
def Action.popper : Action m n → Option (Thread n)
  | .tryPop t => some t
  | _ => none

def Pc.popping? : Pc → Option ConnId
  | .popping c => some c
  | _ => none

/-- There is a call to pop. -/
def Stocked (s : State m n) (a : Action m n) : Prop :=
  ∀ t ∈ a.popper, ∀ c ∈ (s.pipe.pc t).popping?, s.pipe.respondQueue c ≠ []

/-- A pass is made over a call with a legal position. -/
def Legal (s : State m n) (a : Action m n) : Prop :=
  ∀ w ∈ a.pass, ∀ x ∈ (s.pipe.pc w.1).popped?, (s.pipe.calls x.2).LegalPos

/-- An action of the handler meets a call to pop, a legal position, a socket that works and room to
put the call back. -/
def Succeeds (h : Fin n) (x : Reporting m n) (a : Action m n) : Prop :=
  a.thread = some (.handler h) →
    Stocked x.server a ∧ Legal x.server a ∧ NoWriteError x.server a ∧ Roomy x.server a

instance (s : State m n) (a : Action m n) : Decidable (Stocked s a) :=
  inferInstanceAs (Decidable (∀ t ∈ a.popper, ∀ c ∈ (s.pipe.pc t).popping?, _))

instance (s : State m n) (a : Action m n) : Decidable (Legal s a) :=
  inferInstanceAs (Decidable (∀ w ∈ a.pass, ∀ x ∈ (s.pipe.pc w.1).popped?, _))

instance (h : Fin n) (x : Reporting m n) (a : Action m n) : Decidable (Succeeds h x a) :=
  inferInstanceAs (Decidable (_ → _))

/-! ## The steps -/

/-- A pass fails at an illegal position or when the socket does. -/
theorem Connection.failed_iff {call : Call} {io : SockOut} :
    (Connection.processResponse call io).2.2 = .failed ↔ ¬ (call.LegalPos ∧ io.works = true) := by
  unfold Connection.processResponse Call.LegalPos
  dsimp only
  split
  · next hpos =>
    refine iff_of_true rfl fun h => ?_
    omega
  · next hpos =>
    cases io with
    | fails k => exact iff_of_true rfl fun h => by cases h.2
    | accepts _ | stale _ =>
      refine iff_of_false ?_ (not_not.mpr ⟨by omega, rfl⟩)
      dsimp only
      split <;> exact fun h => by cases h

section Steps

variable {s s' : State m n} {a : Action m n} {t : Thread n}

theorem Moves.pc_of_ne (hm : Moves s a s') (ht : a.thread ≠ some t) :
    s'.pipe.pc t = s.pipe.pc t := by
  have hne {t' : Thread n} (h : a.thread = some t') : t ≠ t' := fun htt => ht (htt ▸ h)
  cases hm
  all_goals first
    | rfl
    | exact Function.update_of_ne (hne rfl) _ _

variable {h : Fin n} {c : ConnId} {k : CallId}

theorem State.deed_pushRespond (hpc : s.pipe.pc (.handler h) = .valued k) :
    s.deed (.pushRespond h) = (tryPush Connection.maxRespondSize
      (s.pipe.respondQueue (s.pipe.calls k).connection) k true).map
        fun _ => .queued (s.pipe.calls k).connection k := by
  simp only [State.deed, hpc]

theorem State.deed_pushToken (hpc : s.pipe.pc (.handler h) = .queueing c) :
    s.deed (.pushToken h) = (tryPush Responder.maxRespondSize s.pipe.bqRespond
      (s.listener.endpoint c) true).map fun _ => .token c := by
  simp only [State.deed, hpc]

theorem State.deed_tryPop (hpc : s.pipe.pc t = .popping c) :
    s.deed (.tryPop t) = (Queue.tryPop (s.pipe.respondQueue c)).map fun x => .popped c x.1 := by
  simp only [State.deed, hpc]

theorem State.deed_write {io : SockOut} (hpc : s.pipe.pc t = .popped c k) :
    s.deed (.write t io) = match (Connection.processResponse (s.pipe.calls k) io).2.2 with
      | .sent => some (.sent c k)
      | _ => none := by
  simp only [State.deed, hpc]

theorem State.deed_requeue (hpc : s.pipe.pc t = .requeue c k) :
    s.deed (.requeue t) = (tryPush Connection.maxRespondSize (s.pipe.respondQueue c) k true).map
      fun _ => .queued c k := by
  simp only [State.deed, hpc]

theorem State.deed_retoken (hpc : s.pipe.pc t = .token c) :
    s.deed (.retoken t) = (tryPush Responder.maxRespondSize s.pipe.bqRespond
      (s.listener.endpoint c) false).map fun _ => .token c := by
  simp only [State.deed, hpc]

theorem State.act_of_idle (hidle : s.pipe.pc (.handler h) = .idle)
    (ha : a.thread = some (.handler h)) (hne : a ≠ .popCall h) : s.act a = none := by
  cases a with
  | popCall h' =>
    cases ha
    exact absurd rfl hne
  | execute h' => cases ha; simp only [act, execute, hidle]
  | pushRespond h' => cases ha; simp only [act, pushRespond, hidle]
  | size h' => cases ha; simp only [act, size, hidle]
  | pushToken h' => cases ha; simp only [act, pushToken, hidle]
  | tryPop t' => cases ha; simp only [act, tryPop, hidle]
  | write t' io => cases ha; simp only [act, write, hidle]
  | requeue t' => cases ha; simp only [act, requeue, hidle]
  | retoken t' => cases ha; simp only [act, retoken, hidle]
  | _ => cases ha

end Steps

/-- What a handler has done by now in the `doRespond` for the call. -/
def Pc.Log (k : CallId) : Pc → List Deed → Prop
  | .valued j, _ => j = k
  | .sizing c, l | .queueing c, l | .popping c, l => l = [.queued c k]
  | .popped c j, l | .requeue c j, l => l = [.queued c k, .popped c j]
  | .token c, l => ∃ j, l = [.queued c k, .popped c j, .queued c j]
  | _, _ => False

namespace Reporting

/-- A step of a handler in `doRespond`: it goes on if the step succeeds, or `true` is returned, and
truly so if the step succeeds. -/
def Goes (x : Reporting m n) (h : Fin n) (k : CallId) (a : Action m n) (x' : Reporting m n) :
    Prop :=
  (x'.server.pipe.pc (.handler h)).Log k (x'.deeds h) ∧ Succeeds h x a ∨
    x'.server.pipe.pc (.handler h) = .idle ∧ (Truthful k (x'.deeds h) ↔ Succeeds h x a)

variable {x x' : Reporting m n} {s' : State m n} {a : Action m n} {h : Fin n} {k : CallId}
  {as : List (Action m n)}

theorem succeeds_of_none (hpop : a.popper = none) (hpass : a.pass = none)
    (hre : a.requeuer = none) : Succeeds h x a := by
  refine fun _ => ⟨fun t ht => ?_, fun w hw => ?_, fun w hw => ?_, fun t ht => ?_⟩
  · rw [hpop] at ht
    cases ht
  · rw [hpass] at hw
    cases hw
  · rw [hpass] at hw
    cases hw
  · rw [hre] at ht
    cases ht

theorem succeeds_tryPop {c : ConnId} (hpc : x.server.pipe.pc (.handler h) = .popping c) :
    Succeeds h x (.tryPop (.handler h)) ↔ x.server.pipe.respondQueue c ≠ [] := by
  simp [Succeeds, Action.thread, Stocked, Action.popper, hpc, Pc.popping?, Legal, NoWriteError,
    Action.pass, Roomy, Action.requeuer]

theorem succeeds_write {io : SockOut} {c : ConnId} {j : CallId}
    (hpc : x.server.pipe.pc (.handler h) = .popped c j) : Succeeds h x (.write (.handler h) io) ↔
      (Connection.processResponse (x.server.pipe.calls j) io).2.2 ≠ .failed := by
  rw [ne_eq, Connection.failed_iff, not_not]
  simp [Succeeds, Action.thread, Stocked, Action.popper, Legal, NoWriteError, Action.pass, hpc,
    Pc.popped?, Roomy, Action.requeuer]

theorem succeeds_requeue {c : ConnId} {j : CallId}
    (hpc : x.server.pipe.pc (.handler h) = .requeue c j) :
    Succeeds h x (.requeue (.handler h)) ↔
      (x.server.pipe.respondQueue c).length < Connection.maxRespondSize := by
  simp [Succeeds, Action.thread, Stocked, Action.popper, Legal, NoWriteError, Action.pass, Roomy,
    Action.requeuer, hpc, Pc.locks]

theorem record_self (ha : a.thread = some (.handler h)) :
    x.record a h = x.kept h a ++ (x.server.deed a).toList := by
  unfold record
  rw [ha]
  exact Function.update_self ..

theorem record_of_ne (ha : a.thread ≠ some (.handler h)) : x.record a h = x.deeds h := by
  unfold record
  cases hthread : a.thread with
  | none => rfl
  | some t =>
    cases t with
    | responder => rfl
    | handler h' => exact Function.update_of_ne (fun heq => ha (by rw [hthread, heq])) _ _

theorem goes_of_log {ds : List Deed} (ha : a.thread = some (.handler h)) (hds : x.kept h a = ds)
    (hlog : (s'.pipe.pc (.handler h)).Log k (ds ++ (x.server.deed a).toList))
    (hsucc : Succeeds h x a) : x.Goes h k a ⟨s', x.record a⟩ := by
  refine .inl ⟨?_, hsucc⟩
  show (s'.pipe.pc (.handler h)).Log k (x.record a h)
  rw [record_self ha, hds]
  exact hlog

theorem goes_of_idle {ds : List Deed} (ha : a.thread = some (.handler h)) (hds : x.kept h a = ds)
    (hidle : s'.pipe.pc (.handler h) = .idle)
    (hiff : Truthful k (ds ++ (x.server.deed a).toList) ↔ Succeeds h x a) :
    x.Goes h k a ⟨s', x.record a⟩ := by
  refine .inr ⟨hidle, ?_⟩
  show Truthful k (x.record a h) ↔ Succeeds h x a
  rw [record_self ha, hds]
  exact hiff

/-! One lemma for each operation. -/

theorem goes_pushRespond (hl : (x.server.pipe.pc (.handler h)).Log k (x.deeds h))
    (hs : x.server.pushRespond h = some s') :
    x.Goes h k (.pushRespond h) ⟨s', x.record (.pushRespond h)⟩ := by
  refine goes_of_log rfl rfl ?_ (succeeds_of_none rfl rfl rfl)
  unfold State.pushRespond at hs
  split at hs
  · next j hpc =>
    rw [hpc] at hl
    cases hl
    rw [State.deed_pushRespond hpc]
    dsimp only at hs
    split at hs
    · cases hs
      show (x.server.pipe.pc (.handler h)).Log k _
      rw [hpc]
      rfl
    · next q hq =>
      cases hs
      show (Function.update x.server.pipe.pc (.handler h) _ (.handler h)).Log k _
      rw [Function.update_self, hq]
      rfl
  · cases hs

theorem goes_size (hl : (x.server.pipe.pc (.handler h)).Log k (x.deeds h))
    (hs : x.server.size h = some s') : x.Goes h k (.size h) ⟨s', x.record (.size h)⟩ := by
  unfold State.size at hs
  split at hs
  · next c hpc =>
    rw [hpc] at hl
    dsimp only at hs
    cases hs
    refine goes_of_log rfl hl ?_ (succeeds_of_none rfl rfl rfl)
    show (Function.update x.server.pipe.pc (.handler h) _ (.handler h)).Log k _
    rw [Function.update_self]
    split <;> rfl
  · cases hs

theorem goes_pushToken (hl : (x.server.pipe.pc (.handler h)).Log k (x.deeds h))
    (hs : x.server.pushToken h = some s') :
    x.Goes h k (.pushToken h) ⟨s', x.record (.pushToken h)⟩ := by
  have hsucc : Succeeds h x (.pushToken h) := succeeds_of_none rfl rfl rfl
  unfold State.pushToken at hs
  split at hs
  · next c hpc =>
    rw [hpc] at hl
    have hdeed := State.deed_pushToken hpc
    split at hs
    · next hq =>
      cases hs
      refine goes_of_log rfl hl ?_ hsucc
      show (x.server.pipe.pc (.handler h)).Log k _
      rw [hdeed, hq, hpc]
      rfl
    · next q hq =>
      cases hs
      refine goes_of_idle rfl hl (Function.update_self ..) (iff_of_true ?_ hsucc)
      rw [hdeed, hq]
      exact .queued c
  · cases hs

theorem goes_tryPop (hl : (x.server.pipe.pc (.handler h)).Log k (x.deeds h))
    (hs : x.server.tryPop (.handler h) = some s') :
    x.Goes h k (.tryPop (.handler h)) ⟨s', x.record (.tryPop (.handler h))⟩ := by
  unfold State.tryPop at hs
  split at hs
  · next c hpc =>
    rw [hpc] at hl
    have hdeed := State.deed_tryPop hpc
    have hsucc := succeeds_tryPop hpc
    split at hs
    · next hq =>
      cases hs
      refine goes_of_idle rfl hl (Function.update_self ..)
        (iff_of_false ?_ fun h => hsucc.mp h (of_tryPop_none hq))
      rw [hdeed, hq]
      exact fun ht => by cases ht
    · next j q hq =>
      cases hs
      have hne : x.server.pipe.respondQueue c ≠ [] := by
        rw [of_tryPop hq]
        exact List.cons_ne_nil _ _
      refine goes_of_log rfl hl ?_ (hsucc.mpr hne)
      show (Function.update x.server.pipe.pc (.handler h) _ (.handler h)).Log k _
      rw [Function.update_self, hdeed, hq]
      rfl
  · cases hs

theorem goes_write {io : SockOut} (hl : (x.server.pipe.pc (.handler h)).Log k (x.deeds h))
    (hs : x.server.write (.handler h) io = some s') :
    x.Goes h k (.write (.handler h) io) ⟨s', x.record (.write (.handler h) io)⟩ := by
  unfold State.write at hs
  split at hs
  · next c j hpc =>
    rw [hpc] at hl
    have hdeed : x.server.deed (.write (.handler h) io) = _ := State.deed_write hpc
    have hsucc : Succeeds h x (.write (.handler h) io) ↔ _ := succeeds_write hpc
    split at hs
    · split at hs
      · next bytes call hpass =>
        cases hs
        rw [hpass] at hsucc hdeed
        refine goes_of_log rfl hl ?_ (hsucc.mpr fun h => by cases h)
        show (Function.update x.server.pipe.pc (.handler h) _ (.handler h)).Log k _
        rw [Function.update_self, hdeed]
        rfl
      · next bytes call hpass =>
        cases hs
        rw [hpass] at hsucc hdeed
        refine goes_of_idle rfl hl (Function.update_self ..)
          (iff_of_true ?_ (hsucc.mpr fun h => by cases h))
        rw [hdeed]
        exact .sent c j
      · next bytes call hpass =>
        cases hs
        rw [hpass] at hsucc hdeed
        refine goes_of_idle rfl hl (Function.update_self ..)
          (iff_of_false ?_ fun h => hsucc.mp h rfl)
        rw [hdeed]
        exact fun ht => by cases ht
    · cases hs
  · cases hs

theorem goes_requeue (hl : (x.server.pipe.pc (.handler h)).Log k (x.deeds h))
    (hs : x.server.requeue (.handler h) = some s') :
    x.Goes h k (.requeue (.handler h)) ⟨s', x.record (.requeue (.handler h))⟩ := by
  unfold State.requeue at hs
  split at hs
  · next c j hpc =>
    rw [hpc] at hl
    have hdeed := State.deed_requeue hpc
    have hsucc := succeeds_requeue hpc
    split at hs
    · next hq =>
      cases hs
      refine goes_of_idle rfl hl (Function.update_self ..)
        (iff_of_false ?_ fun h => Nat.not_lt.mpr (of_tryPush_none hq) (hsucc.mp h))
      rw [hdeed, hq]
      exact fun ht => by cases ht
    · next q hq =>
      cases hs
      refine goes_of_log rfl hl ?_ (hsucc.mpr (of_tryPush hq).1)
      show (Function.update x.server.pipe.pc (.handler h) _ (.handler h)).Log k _
      rw [Function.update_self, hdeed, hq]
      exact ⟨j, rfl⟩
  · cases hs

theorem goes_retoken (hl : (x.server.pipe.pc (.handler h)).Log k (x.deeds h))
    (hs : x.server.retoken (.handler h) = some s') :
    x.Goes h k (.retoken (.handler h)) ⟨s', x.record (.retoken (.handler h))⟩ := by
  have hsucc : Succeeds h x (.retoken (.handler h)) := succeeds_of_none rfl rfl rfl
  unfold State.retoken at hs
  split at hs
  · next c hpc =>
    rw [hpc] at hl
    obtain ⟨j, hl⟩ := hl
    have hdeed := State.deed_retoken hpc
    split at hs
    · next hq =>
      cases hs
      refine goes_of_log rfl hl ?_ hsucc
      show (x.server.pipe.pc (.handler h)).Log k _
      rw [hdeed, hq, hpc]
      exact ⟨j, rfl⟩
    · next q hq =>
      cases hs
      refine goes_of_idle rfl hl (Function.update_self ..) (iff_of_true ?_ hsucc)
      rw [hdeed, hq]
      exact .putBack c j
  · cases hs

theorem goes_of_act (ha : a.thread = some (.handler h))
    (hl : (x.server.pipe.pc (.handler h)).Log k (x.deeds h)) (hs : x.server.act a = some s') :
    x.Goes h k a ⟨s', x.record a⟩ := by
  cases a with
  | popCall h' =>
    cases ha
    change x.server.popCall h = some s' at hs
    unfold State.popCall at hs
    split at hs
    · next hpc _ =>
      rw [hpc] at hl
      exact hl.elim
    · cases hs
  | execute h' =>
    cases ha
    change x.server.execute h = some s' at hs
    unfold State.execute at hs
    split at hs
    · next hpc =>
      rw [hpc] at hl
      exact hl.elim
    · cases hs
  | pushRespond h' => cases ha; exact goes_pushRespond hl hs
  | size h' => cases ha; exact goes_size hl hs
  | pushToken h' => cases ha; exact goes_pushToken hl hs
  | tryPop t => cases ha; exact goes_tryPop hl hs
  | write t io => cases ha; exact goes_write hl hs
  | requeue t => cases ha; exact goes_requeue hl hs
  | retoken t => cases ha; exact goes_retoken hl hs
  | _ => cases ha

theorem of_step (hs : (reporting m n).step x a = some x') :
    ∃ s', x.server.step a = some s' ∧ x' = ⟨s', x.record a⟩ := by
  obtain ⟨s', hs', rfl⟩ := Option.map_eq_some_iff.mp hs
  exact ⟨s', hs', rfl⟩

theorem of_step_ne (ha : a.thread ≠ some (.handler h)) (hs : (reporting m n).step x a = some x') :
    x'.server.pipe.pc (.handler h) = x.server.pipe.pc (.handler h) ∧ x'.deeds h = x.deeds h := by
  obtain ⟨s', hs', rfl⟩ := of_step hs
  exact ⟨(State.moves_of_step hs').2.pc_of_ne ha, record_of_ne ha⟩

theorem goes_of_step (hl : (x.server.pipe.pc (.handler h)).Log k (x.deeds h))
    (hs : (reporting m n).step x a = some x') : x.Goes h k a x' := by
  by_cases ha : a.thread = some (.handler h)
  · obtain ⟨s', hs', rfl⟩ := of_step hs
    unfold State.step at hs'
    split at hs'
    · exact goes_of_act ha hl hs'
    · cases hs'
  · obtain ⟨hpc, hdeeds⟩ := of_step_ne ha hs
    refine .inl ⟨?_, fun h => absurd h ha⟩
    rw [hpc, hdeeds]
    exact hl

/-- A handler that waits for a call does nothing else. -/
theorem stays_idle (hidle : x.server.pipe.pc (.handler h) = .idle) (hne : a ≠ .popCall h)
    (hs : (reporting m n).step x a = some x') : x'.server.pipe.pc (.handler h) = .idle ∧
      x'.deeds h = x.deeds h ∧ Succeeds h x a := by
  have ha : a.thread ≠ some (.handler h) := by
    intro ha
    obtain ⟨s', hs', -⟩ := of_step hs
    unfold State.step at hs'
    split at hs'
    · rw [State.act_of_idle hidle ha hne] at hs'
      cases hs'
    · cases hs'
  obtain ⟨hpc, hdeeds⟩ := of_step_ne ha hs
  exact ⟨hpc.trans hidle, hdeeds, fun h => absurd h ha⟩

/-- After `doRespond` nothing changes until the next call. -/
theorem run_of_idle (hrun : (reporting m n).run (fun _ _ => True) x as = some x')
    (hidle : x.server.pipe.pc (.handler h) = .idle) (hone : .popCall h ∉ as) :
    x'.deeds h = x.deeds h ∧ (reporting m n).run (Succeeds h) x as = some x' := by
  induction as generalizing x with
  | nil =>
    cases hrun
    exact ⟨rfl, rfl⟩
  | cons a as ih =>
    obtain ⟨t, ht, hrun⟩ := System.exists_step_of_run hrun
    rw [List.mem_cons, not_or] at hone
    obtain ⟨hidle, hdeeds, hsucc⟩ := stays_idle hidle (Ne.symm hone.1) ht
    obtain ⟨hrest, hruns⟩ := ih hrun hidle hone.2
    exact ⟨hrest.trans hdeeds, (System.run_cons ht).mpr ⟨hsucc, hruns⟩⟩

/-- From anywhere in `doRespond` to its end. -/
theorem truthful_iff_of_log (hl : (x.server.pipe.pc (.handler h)).Log k (x.deeds h))
    (hrun : (reporting m n).run (fun _ _ => True) x as = some x') (hone : .popCall h ∉ as)
    (hret : x'.server.pipe.pc (.handler h) = .idle) :
    Truthful k (x'.deeds h) ↔ (reporting m n).run (Succeeds h) x as = some x' := by
  induction as generalizing x with
  | nil =>
    cases hrun
    rw [hret] at hl
    exact hl.elim
  | cons a as ih =>
    obtain ⟨t, ht, hrun⟩ := System.exists_step_of_run hrun
    rw [List.mem_cons, not_or] at hone
    rw [System.run_cons ht]
    obtain ⟨hl, hsucc⟩ | ⟨hidle, hiff⟩ := goes_of_step hl ht
    · rw [ih hl hrun hone.2, and_iff_right hsucc]
    · obtain ⟨hdeeds, hruns⟩ := run_of_idle hrun hidle hone.2
      rw [hdeeds, hiff, and_iff_left hruns]

end Reporting

/-- **When `doRespond` returns `true` truthfully**: when each step of the handler meets a call to
pop, a legal position, a socket that works and room to put the call back. -/
theorem truthful_iff {x x' : Reporting m n} {h : Fin n} {k : CallId} {as : List (Action m n)}
    (hpc : x.server.pipe.pc (.handler h) = .valued k)
    (hrun : (reporting m n).run (fun _ _ => True) x as = some x') (hone : .popCall h ∉ as)
    (hret : x'.server.pipe.pc (.handler h) = .idle) :
    Truthful k (x'.deeds h) ↔ (reporting m n).run (Succeeds h) x as = some x' :=
  Reporting.truthful_iff_of_log (by rw [hpc]; rfl) hrun hone hret

/-! ## The record and the state -/

/-- Where a deed is found in the state right after it. -/
def Deed.Seen (s : State m n) : Deed → Prop
  | .queued c k => k ∈ s.pipe.respondQueue c
  | .popped c k => ∃ t, s.pipe.pc t = .popped c k
  | .sent _ k => s.pipe.place k = .sent
  | .token c => s.listener.endpoint c ∈ s.pipe.bqRespond

theorem State.seen_of_act {s s' : State m n} {a : Action m n} {d : Deed}
    (hs : s.act a = some s') (hd : s.deed a = some d) : d.Seen s' := by
  unfold State.deed at hd
  split at hd
  · next h =>
    split at hd
    · next k hpc =>
      obtain ⟨q, hq, rfl⟩ := Option.map_eq_some_iff.mp hd
      simp only [act, pushRespond, hpc, hq] at hs
      cases hs
      show k ∈ Function.update s.pipe.respondQueue _ q _
      rw [Function.update_self]
      exact (mem_of_tryPush hq).mpr (.inl rfl)
    · cases hd
  · next h =>
    split at hd
    · next c hpc =>
      obtain ⟨q, hq, rfl⟩ := Option.map_eq_some_iff.mp hd
      simp only [act, pushToken, hpc, hq] at hs
      cases hs
      exact (mem_of_tryPush hq).mpr (.inl rfl)
    · cases hd
  · next t =>
    split at hd
    · next c hpc =>
      obtain ⟨x, hq, rfl⟩ := Option.map_eq_some_iff.mp hd
      simp only [act, tryPop, hpc, hq] at hs
      cases hs
      exact ⟨t, Function.update_self ..⟩
    · cases hd
  · next t io =>
    split at hd
    · next c k hpc =>
      split at hd
      · next hpass =>
        cases hd
        simp only [act, write, hpc] at hs
        split at hs
        · split at hs
          · next hpass' => rw [hpass'] at hpass; cases hpass
          · cases hs
            exact Function.update_self ..
          · next hpass' => rw [hpass'] at hpass; cases hpass
        · cases hs
      · cases hd
    · cases hd
  · next t =>
    split at hd
    · next c k hpc =>
      obtain ⟨q, hq, rfl⟩ := Option.map_eq_some_iff.mp hd
      simp only [act, requeue, hpc, hq] at hs
      cases hs
      show k ∈ Function.update s.pipe.respondQueue c q c
      rw [Function.update_self]
      exact (mem_of_tryPush hq).mpr (.inl rfl)
    · cases hd
  · next t =>
    split at hd
    · next c hpc =>
      obtain ⟨q, hq, rfl⟩ := Option.map_eq_some_iff.mp hd
      simp only [act, retoken, hpc, hq] at hs
      cases hs
      exact (mem_of_tryPush hq).mpr (.inl rfl)
    · cases hd
  · cases hd

/-- A response queue is never empty for the one who pops, and a position is always legal, in a
server that was started: there only the socket and the room count. -/
theorem succeeds_iff_of_reachable {x : Reporting m n} {a : Action m n} {h : Fin n}
    (hr : (system m n).Reachable x.server) : Succeeds h x a ↔
      (a.thread = some (.handler h) → NoWriteError x.server a ∧ Roomy x.server a) := by
  have hstocked : Stocked x.server a := by
    intro t _ c hc
    have hpc : x.server.pipe.pc t = .popping c := by
      unfold Pc.popping? at hc
      split at hc
      · next hpc =>
        cases hc
        exact hpc
      · cases hc
    exact (tokens_of_reachable hr).ne_nil hpc
  have hlegal : Legal x.server a := by
    rintro ⟨t, io⟩ _ ⟨c, k⟩ hx
    have hpc : x.server.pipe.pc t = .popped c k := by
      unfold Pc.popped? at hx
      split at hx
      · next hpc =>
        cases hx
        exact hpc
      · cases hx
    have hk : x.server.At k (.hand t (.popped c)) := State.at_hand hpc rfl
    have hready : (x.server.pipe.calls k).Ready c _ _ :=
      (placed_of_reachable hr).stage (recorded_of_reachable hr) hk
    unfold Call.LegalPos
    rw [hready.inRange.sizeOfInt_pos]
    exact hready.inRange.pos_le
  unfold Succeeds
  simp only [hstocked, hlegal, true_and]

/-! ## Two runs -/

/-- A call arrives and is executed by the first handler. -/
def valued : List (Action 2 2) :=
  [.accept, .readable 0, .addToReader t₀, .popConn t₀, .readCall t₀ (ping 0), .pushCall t₀,
    .rearm t₀, .popCall t₀, .execute t₀]

/-- The first handler responds by itself; `io` is what the socket does. -/
def respondInline (io : SockOut) : List (Action 2 2) :=
  [.pushRespond t₀, .size t₀, .tryPop (.handler t₀), .write (.handler t₀) io]

theorem truthful_inline : ∃ x x' : Reporting 2 2,
    (reporting 2 2).run (fun _ _ => True) ⟨.start 2 2, fun _ => []⟩ valued = some x ∧
    (reporting 2 2).run (fun _ _ => True) x (respondInline (.accepts 4)) = some x' ∧
    Truthful 0 (x'.deeds t₀) := by
  have hrun : ((reporting 2 2).run (fun _ _ => True) ⟨.start 2 2, fun _ => []⟩ valued).any
      (fun x => x.server.pipe.pc (.handler t₀) = .valued 0 ∧
        ((reporting 2 2).run (Succeeds t₀) x (respondInline (.accepts 4))).any
          (fun x' => x'.server.pipe.pc (.handler t₀) = .idle) = true) = true := by
    decide +kernel
  obtain ⟨x, hx, hfacts⟩ := (Option.any_eq_true _ _).mp hrun
  obtain ⟨hpc, hresponds⟩ := of_decide_eq_true hfacts
  obtain ⟨x', hx', hret⟩ := (Option.any_eq_true _ _).mp hresponds
  have hall := System.run_mono (D := fun _ _ => True) (fun _ _ _ => trivial) hx'
  exact ⟨x, x', hx, hall, (truthful_iff hpc hall (by decide) (of_decide_eq_true hret)).mpr hx'⟩

/-- The write fails, the call is dropped, and `doRespond` returns `true`. -/
theorem writeFails_not_truthful : ¬ ∀ x : Reporting 2 2, (reporting 2 2).Reachable x →
    ∀ (x' : Reporting 2 2) (h : Fin 2) (k : CallId) (as : List (Action 2 2)),
      x.server.pipe.pc (.handler h) = .valued k →
      (reporting 2 2).run (fun _ _ => True) x as = some x' → .popCall h ∉ as →
      x'.server.pipe.pc (.handler h) = .idle → Truthful k (x'.deeds h) := by
  intro hclaim
  have hrun : ((reporting 2 2).run (fun _ _ => True) ⟨.start 2 2, fun _ => []⟩ valued).any
      (fun x => x.server.pipe.pc (.handler t₀) = .valued 0 ∧
        ((reporting 2 2).run (fun _ _ => True) x (respondInline (.fails 0))).any
          (fun x' => x'.server.pipe.pc (.handler t₀) = .idle ∧
            x'.deeds t₀ = [.queued 0 0, .popped 0 0]) = true) = true := by
    decide +kernel
  obtain ⟨x, hx, hfacts⟩ := (Option.any_eq_true _ _).mp hrun
  obtain ⟨hpc, hresponds⟩ := of_decide_eq_true hfacts
  obtain ⟨x', hx', hfacts'⟩ := (Option.any_eq_true _ _).mp hresponds
  obtain ⟨hret, hdeeds⟩ := of_decide_eq_true hfacts'
  have htruth := hclaim x (.run (.init rfl) hx) x' t₀ 0 _ hpc hx' (by decide) hret
  rw [hdeeds] at htruth
  cases htruth

end PRpc.Server
