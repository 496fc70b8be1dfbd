import PRpc.Server.Work
import PRpc.Server.Serving

/-!
# The server comes to rest

The steps of the server's own threads come to an end (`PRpc.Server.Work`), and they do not end too
early: a running server in which none of its threads can go on has nothing left to do, unless
`_mutex_conns` was left locked, and then it holds responses only for the responder and connections
only for readers that wait for the lock (`still_iff`). The lock of a connection blocks nobody for
good, since its holder never waits; a response that is in a queue has an endpoint in `_bq_respond`
or a thread that owes it a pop.
-/

namespace PRpc.Server

open Queue

variable {m n : ℕ}

/-! ## Where the threads can be -/

/-- The places in the code of a thread. -/
def Thread.Comes : Thread n → Pc → Prop
  | .responder, .holding _ => False
  | .responder, .valued _ => False
  | .responder, .died _ => False
  | .responder, .sizing _ => False
  | .responder, .queueing _ => False
  | .handler _, .lookup _ => False
  | _, _ => True

/-- The threads are in their own code, alive while the server runs, and the loop of `addToReader`
is at a reader. -/
structure Manned (s : State m n) : Prop where
  comes : ∀ t : Thread n, t.Comes (s.pipe.pc t)
  alive : s.status = .running → ∀ t k, s.pipe.pc t ≠ .died k
  index : 0 < m → s.listener.pc ≠ .idle →
    0 ≤ s.listener.lastReaderIndex ∧ s.listener.lastReaderIndex < m

namespace Manned

variable {s s' : State m n}

theorem start : Manned (State.start m n) where
  comes t := by cases t <;> trivial
  alive _ _ _ h := by cases h
  index _ h := absurd rfl h

theorem setListener (h : Manned s) (hpc : s'.pipe.pc = s.pipe.pc)
    (hstatus : s'.status = .running → s.status = .running)
    (hindex : 0 < m → s'.listener.pc ≠ .idle →
      0 ≤ s'.listener.lastReaderIndex ∧ s'.listener.lastReaderIndex < m) : Manned s' where
  comes t := by rw [hpc]; exact h.comes t
  alive hrun t k := by rw [hpc]; exact h.alive (hstatus hrun) t k
  index := hindex

theorem setReader (h : Manned s) (hpc : s'.pipe.pc = s.pipe.pc)
    (hstatus : s'.status = .running → s.status = .running)
    (hl : s'.listener.pc = s.listener.pc)
    (hindex : s'.listener.lastReaderIndex = s.listener.lastReaderIndex) : Manned s' :=
  h.setListener hpc hstatus (by rw [hl, hindex]; exact h.index)

theorem setPc (h : Manned s) {t : Thread n} {pc : Pc} (hl : s'.listener = s.listener)
    (hpc : s'.pipe.pc = Function.update s.pipe.pc t pc)
    (hstatus : s'.status = .running → s.status = .running ∧ ∀ k, pc ≠ .died k)
    (hcomes : t.Comes pc) : Manned s' where
  comes t' := by
    rw [hpc, Function.update_apply]
    split
    · next ht => rw [ht]; exact hcomes
    · exact h.comes t'
  alive hrun t' k := by
    rw [hpc, Function.update_apply]
    split
    · exact (hstatus hrun).2 k
    · exact h.alive (hstatus hrun).1 t' k
  index := by rw [hl]; exact h.index

end Manned

theorem Moves.manned {s s' : State m n} {a : Action m n} (hm : Moves s a s')
    (hrun : s.status = .running) (h : Manned s) : Manned s' := by
  have hnext : ∀ (l : Listener m) (c : ConnId) (k : ℕ), 0 < m → (l.nextReader c k).pc ≠ .idle →
      0 ≤ (l.nextReader c k).lastReaderIndex ∧ (l.nextReader c k).lastReaderIndex < m :=
    fun l c k hm _ => l.nextReader_index hm c k
  cases hm with
  | accept => exact h.setReader rfl (fun h => h) rfl rfl
  | create => exact h.setListener rfl (fun h => h) (hnext _ _ _)
  | reuse => exact h.setListener rfl (fun h => h) (hnext _ _ _)
  | readError => exact h.setReader rfl (fun h => h) rfl rfl
  | added => exact h.setListener rfl (fun h => h) fun _ hpc => absurd rfl hpc
  | retry => exact h.setListener rfl (fun h => h) (hnext _ _ _)
  | readersFull => exact h.setListener rfl (fun _ => hrun) (hnext _ _ _)
  | popConn => exact h.setReader rfl (fun h => h) rfl rfl
  | readCall => exact h.setReader rfl (fun h => h) rfl rfl
  | readFails => exact h.setReader rfl (fun h => h) rfl rfl
  | pushCall => exact h.setReader rfl (fun h => h) rfl rfl
  | rearm => exact h.setReader rfl (fun h => h) rfl rfl
  | rearmThrows => exact h.setReader rfl (fun h => h) rfl rfl
  | closeConnection => exact h.setReader rfl (fun h => h) rfl rfl
  | closeThrows => exact h.setReader rfl (fun h => h) rfl rfl
  | popCall => exact h.setPc rfl rfl (fun h => ⟨h, fun _ he => by cases he⟩) trivial
  | execute => exact h.setPc rfl rfl (fun h => ⟨h, fun _ he => by cases he⟩) trivial
  | died => exact h.setPc rfl rfl (fun he => (by cases he)) trivial
  | pushRespond => exact h.setPc rfl rfl (fun h => ⟨h, fun _ he => by cases he⟩) trivial
  | sizeOne => exact h.setPc rfl rfl (fun h => ⟨h, fun _ he => by cases he⟩) trivial
  | sizeMore => exact h.setPc rfl rfl (fun h => ⟨h, fun _ he => by cases he⟩) trivial
  | pushToken => exact h.setPc rfl rfl (fun h => ⟨h, fun _ he => by cases he⟩) trivial
  | popToken => exact h.setPc rfl rfl (fun h => ⟨h, fun _ he => by cases he⟩) trivial
  | lookup => exact h.setPc rfl rfl (fun h => ⟨h, fun _ he => by cases he⟩) trivial
  | lookupFails => exact h.setReader rfl (fun _ => hrun) rfl rfl
  | @tryPop t =>
    exact h.setPc rfl rfl (fun h => ⟨h, fun _ he => by cases he⟩) (by cases t <;> trivial)
  | @tryPopFails t =>
    exact h.setPc rfl rfl (fun _ => ⟨hrun, fun _ he => by cases he⟩) (by cases t <;> trivial)
  | @again t =>
    exact h.setPc rfl rfl (fun h => ⟨h, fun _ he => by cases he⟩) (by cases t <;> trivial)
  | @sent t =>
    exact h.setPc rfl rfl (fun h => ⟨h, fun _ he => by cases he⟩) (by cases t <;> trivial)
  | @writeFails t =>
    exact h.setPc rfl rfl (fun _ => ⟨hrun, fun _ he => by cases he⟩) (by cases t <;> trivial)
  | @requeue t =>
    exact h.setPc rfl rfl (fun h => ⟨h, fun _ he => by cases he⟩) (by cases t <;> trivial)
  | @requeueFails t =>
    exact h.setPc rfl rfl (fun _ => ⟨hrun, fun _ he => by cases he⟩) (by cases t <;> trivial)
  | @retoken t =>
    exact h.setPc rfl rfl (fun h => ⟨h, fun _ he => by cases he⟩) (by cases t <;> trivial)
  | abort => exact h.setReader rfl (fun _ => hrun) rfl rfl

theorem manned_of_reachable {s : State m n} (h : (system m n).Reachable s) : Manned s :=
  h.invariant (by rintro _ rfl; exact Manned.start) fun _ _ _ hI _ hs =>
    (State.moves_of_step hs).2.manned (State.moves_of_step hs).1 hI

/-! ## The steps that need no peer -/

/-- The steps of the server's threads for which nothing has to come from a peer: no accept, no
read that completes, no bytes of a request. -/
def Unaided (_ : State m n) : Action m n → Prop
  | .accept => False
  | .readable _ => False
  | .readError _ => False
  | .readCall _ _ => False
  | _ => True

instance (s : State m n) : DecidablePred (Unaided s)
  | .accept | .readable _ | .readError _ | .readCall _ _ => .isFalse id
  | .addToReader _ | .popConn _ | .pushCall _ | .rearm _ | .rearmThrows _ | .closeConnection _
  | .closeThrows _ | .popCall _ | .execute _ | .pushRespond _ | .size _ | .pushToken _ | .popToken
  | .lookup | .tryPop _ | .write _ _ | .requeue _ | .retoken _ => .isTrue trivial

theorem income_of_unaided {s s' : State m n} {a : Action m n} (ha : Unaided s a)
    (hs : (system m n).step s a = some s') : s'.income = s.income := by
  cases (State.moves_of_step hs).2 with
  | accept => exact ha.elim
  | readCall => exact ha.elim
  | _ => rfl

/-- The reader waits for a connection, for the bytes of a request, or for a lock that nobody will
release. -/
def Reader.AtRest (locked : Bool) (reader : Reader) : Prop :=
  match reader.pc with
  | .idle => reader.bqConn = []
  | .reading _ => True
  | .failed _ => locked = true
  | .read _ _ => False
  | .pushed _ => False

instance (locked : Bool) (reader : Reader) : Decidable (reader.AtRest locked) :=
  match reader with
  | ⟨q, .idle⟩ => inferInstanceAs (Decidable (q = []))
  | ⟨_, .reading _⟩ => .isTrue trivial
  | ⟨_, .failed _⟩ => inferInstanceAs (Decidable (locked = true))
  | ⟨_, .read _ _⟩ => .isFalse id
  | ⟨_, .pushed _⟩ => .isFalse id

/-- Nobody has anything to do but to wait. -/
structure State.AtRest (s : State m n) : Prop where
  listener : s.listener.pc = .idle
  readers : ∀ r, (s.listener.readers r).AtRest s.listener.mutexConns
  bqCall : s.pipe.bqCall = []
  handlers : ∀ h, s.pipe.pc (.handler h) = .idle
  responder : s.pipe.pc .responder = .idle ∧ s.pipe.bqRespond = [] ∨
    s.listener.mutexConns = true ∧ ∃ e, s.pipe.pc .responder = .lookup e

section Still

variable {s : State m n}

namespace State

/-! ### Who can go on -/

theorem step_eq_act (hrun : s.status = .running) (a : Action m n) : s.step a = s.act a :=
  if_pos hrun

theorem addToReader_ne_none {c : ConnId} {retryTimes : ℕ} {r : Fin m}
    (hpc : s.listener.pc = .adding c retryTimes) (hr : (r : ℤ) = s.listener.lastReaderIndex) :
    s.addToReader r ≠ none := by
  unfold addToReader
  rw [hpc]
  dsimp only
  rw [if_pos hr]
  split
  · simp
  · split <;> simp

theorem popConn_ne_none {r : Fin m} (hpc : (s.listener.readers r).pc = .idle)
    (hq : (s.listener.readers r).bqConn ≠ []) : s.act (.popConn r) ≠ none := by
  obtain ⟨c, q, hq⟩ := List.exists_cons_of_ne_nil hq
  simp [act, Listener.popConn, hpc, hq, Queue.tryPop]

theorem pushCall_ne_none {r : Fin m} {c : ConnId} {k : CallId}
    (hpc : (s.listener.readers r).pc = .read c k) : s.pushCall r ≠ none := by
  unfold pushCall
  rw [hpc]
  dsimp only
  split <;> simp

theorem rearm_ne_none {r : Fin m} {c : ConnId} (hpc : (s.listener.readers r).pc = .pushed c) :
    s.rearm r false ≠ none := by
  simp [rearm, hpc]

theorem closeConnection_ne_none {r : Fin m} {c : ConnId}
    (hpc : (s.listener.readers r).pc = .failed c) (hmutex : s.listener.mutexConns = false) :
    s.closeConnection r false ≠ none := by
  simp [closeConnection, hpc, hmutex]

theorem popCall_ne_none {h : Fin n} (hpc : s.pipe.pc (.handler h) = .idle)
    (hq : s.pipe.bqCall ≠ []) : s.popCall h ≠ none := by
  obtain ⟨k, q, hq⟩ := List.exists_cons_of_ne_nil hq
  simp [popCall, hpc, hq, Queue.tryPop]

theorem execute_ne_none {h : Fin n} {k : CallId} (hpc : s.pipe.pc (.handler h) = .holding k) :
    s.execute h ≠ none := by
  unfold execute
  rw [hpc]
  dsimp only
  split <;> simp

theorem pushRespond_ne_none {h : Fin n} {k : CallId} (hpc : s.pipe.pc (.handler h) = .valued k) :
    s.pushRespond h ≠ none := by
  unfold pushRespond
  rw [hpc]
  dsimp only
  split <;> simp

theorem size_ne_none {h : Fin n} {c : ConnId} (hpc : s.pipe.pc (.handler h) = .sizing c) :
    s.size h ≠ none := by
  simp [size, hpc]

theorem pushToken_ne_none {h : Fin n} {c : ConnId} (hpc : s.pipe.pc (.handler h) = .queueing c) :
    s.pushToken h ≠ none := by
  unfold pushToken
  rw [hpc]
  dsimp only
  split <;> simp

theorem popToken_ne_none (hpc : s.pipe.pc .responder = .idle) (hq : s.pipe.bqRespond ≠ []) :
    s.popToken ≠ none := by
  obtain ⟨e, q, hq⟩ := List.exists_cons_of_ne_nil hq
  simp [popToken, hpc, hq, Queue.tryPop]

theorem lookup_ne_none {e : Ep} (hpc : s.pipe.pc .responder = .lookup e)
    (hmutex : s.listener.mutexConns = false) : s.lookup ≠ none := by
  unfold lookup
  rw [hpc]
  dsimp only
  rw [hmutex, if_neg Bool.false_ne_true]
  split <;> simp

theorem tryPop_ne_none {t : Thread n} {c : ConnId} (hpc : s.pipe.pc t = .popping c) :
    s.tryPop t ≠ none := by
  unfold tryPop
  rw [hpc]
  dsimp only
  split <;> simp

theorem write_ne_none {t : Thread n} {c : ConnId} {k : CallId} (hpc : s.pipe.pc t = .popped c k)
    (hlock : s.Unlocked c) : s.write t (.fails 0) ≠ none := by
  have hwrites : s.Writes c k (.fails 0) := ⟨trivial, fun _ => rfl⟩
  unfold write
  rw [hpc]
  dsimp only
  rw [if_pos ⟨hlock, hwrites⟩]
  split <;> simp

theorem requeue_ne_none {t : Thread n} {c : ConnId} {k : CallId}
    (hpc : s.pipe.pc t = .requeue c k) : s.requeue t ≠ none := by
  unfold requeue
  rw [hpc]
  dsimp only
  split <;> simp

theorem retoken_ne_none {t : Thread n} {c : ConnId} (hpc : s.pipe.pc t = .token c) :
    s.retoken t ≠ none := by
  unfold retoken
  rw [hpc]
  dsimp only
  split <;> simp

/-- Who holds the lock of a connection between two steps is about to put a call back. -/
theorem exists_requeue_of_locked {c : ConnId} (h : ¬ s.Unlocked c) :
    ∃ t k, s.pipe.pc t = .requeue c k := by
  unfold Unlocked at h
  push Not at h
  obtain ⟨t, ht⟩ := h
  refine ⟨t, ?_⟩
  cases hpc : s.pipe.pc t with
  | requeue c' k =>
    rw [hpc] at ht
    cases ht
    exact ⟨k, rfl⟩
  | _ =>
    rw [hpc] at ht
    cases ht

/-! ### Nobody can go on -/

section

variable (hrun : s.status = .running) (hstill : (system m n).Still Unaided s)

include hrun hstill

theorem act_of_still {a : Action m n} (ha : Unaided s a) : s.act a = none := by
  rw [← step_eq_act hrun]
  exact hstill a ha

theorem listener_of_still (hmanned : Manned s) (hm : 0 < m) : s.listener.pc = .idle := by
  cases hpc : s.listener.pc with
  | idle => rfl
  | adding c retryTimes =>
    obtain ⟨h0, h1⟩ := hmanned.index hm (by rw [hpc]; simp)
    let r : Fin m := ⟨s.listener.lastReaderIndex.toNat, by omega⟩
    have hr : (r : ℤ) = s.listener.lastReaderIndex := Int.toNat_of_nonneg h0
    have hnone : s.addToReader r = none := act_of_still hrun hstill (a := .addToReader r) trivial
    exact absurd hnone (addToReader_ne_none hpc hr)

theorem reader_of_still (r : Fin m) : (s.listener.readers r).AtRest s.listener.mutexConns := by
  unfold Reader.AtRest
  cases hpc : (s.listener.readers r).pc with
  | idle =>
    by_contra hq
    exact popConn_ne_none hpc hq (act_of_still hrun hstill trivial)
  | reading c => trivial
  | failed c =>
    by_contra hmutex
    exact closeConnection_ne_none hpc (by simpa using hmutex)
      (act_of_still hrun hstill (a := .closeConnection r) trivial)
  | read c k =>
    exact pushCall_ne_none hpc (act_of_still hrun hstill (a := .pushCall r) trivial)
  | pushed c => exact rearm_ne_none hpc (act_of_still hrun hstill (a := .rearm r) trivial)

/-- **A thread with something in its hands** goes on, or waits for the lock of the map. -/
theorem thread_of_still (hmanned : Manned s) (t : Thread n) : s.pipe.pc t = .idle ∨
    s.listener.mutexConns = true ∧ t = .responder ∧ ∃ e, s.pipe.pc t = .lookup e := by
  have hnone : ∀ {a : Action m n}, Unaided s a → s.act a = none := act_of_still hrun hstill
  have hrequeue : ∀ {t : Thread n} {c : ConnId} {k : CallId}, s.pipe.pc t ≠ .requeue c k :=
    fun {t _ _} hpc => requeue_ne_none hpc (hnone (a := .requeue t) trivial)
  have hcomes := hmanned.comes t
  have halive := hmanned.alive hrun t
  cases hpc : s.pipe.pc t with
  | idle => exact .inl rfl
  | died k => exact absurd hpc (halive k)
  | lookup e =>
    rw [hpc] at hcomes
    cases t with
    | handler h => exact hcomes.elim
    | responder =>
      refine .inr ⟨?_, rfl, e, rfl⟩
      by_contra hmutex
      exact lookup_ne_none hpc (by simpa using hmutex) (hnone (a := .lookup) trivial)
  | popping c => exact absurd (hnone (a := .tryPop t) trivial) (tryPop_ne_none hpc)
  | popped c k =>
    by_cases hlock : s.Unlocked c
    · exact absurd (hnone (a := .write t (.fails 0)) trivial) (write_ne_none hpc hlock)
    · obtain ⟨t', k', hpc'⟩ := exists_requeue_of_locked hlock
      exact absurd hpc' hrequeue
  | requeue c k => exact absurd hpc hrequeue
  | token c => exact absurd (hnone (a := .retoken t) trivial) (retoken_ne_none hpc)
  | holding k =>
    rw [hpc] at hcomes
    cases t with
    | responder => exact hcomes.elim
    | handler h => exact absurd (hnone (a := .execute h) trivial) (execute_ne_none hpc)
  | valued k =>
    rw [hpc] at hcomes
    cases t with
    | responder => exact hcomes.elim
    | handler h => exact absurd (hnone (a := .pushRespond h) trivial) (pushRespond_ne_none hpc)
  | sizing c =>
    rw [hpc] at hcomes
    cases t with
    | responder => exact hcomes.elim
    | handler h => exact absurd (hnone (a := .size h) trivial) (size_ne_none hpc)
  | queueing c =>
    rw [hpc] at hcomes
    cases t with
    | responder => exact hcomes.elim
    | handler h => exact absurd (hnone (a := .pushToken h) trivial) (pushToken_ne_none hpc)

theorem atRest_of_still (hmanned : Manned s) (hm : 0 < m) (hn : 0 < n) : s.AtRest where
  listener := listener_of_still hrun hstill hmanned hm
  readers := reader_of_still hrun hstill
  handlers h := by
    obtain hidle | ⟨-, ht, -⟩ := thread_of_still hrun hstill hmanned (.handler h)
    · exact hidle
    · cases ht
  bqCall := by
    by_contra hq
    obtain hidle | ⟨-, ht, -⟩ := thread_of_still hrun hstill hmanned (.handler ⟨0, hn⟩)
    · exact popCall_ne_none hidle hq (act_of_still hrun hstill (a := .popCall _) trivial)
    · cases ht
  responder := by
    obtain hidle | ⟨hmutex, -, hlookup⟩ := thread_of_still hrun hstill hmanned .responder
    · refine .inl ⟨hidle, ?_⟩
      by_contra hq
      exact popToken_ne_none hidle hq (act_of_still hrun hstill (a := .popToken) trivial)
    · exact .inr ⟨hmutex, hlookup⟩

end

theorem AtRest.thread (h : s.AtRest) (t : Thread n) : s.pipe.pc t = .idle ∨
    s.listener.mutexConns = true ∧ t = .responder ∧ ∃ e, s.pipe.pc t = .lookup e := by
  cases t with
  | handler h' => exact .inl (h.handlers h')
  | responder => exact h.responder.imp (fun hidle => hidle.1) fun hlock => ⟨hlock.1, rfl, hlock.2⟩

/-- A server at rest waits for its peers. -/
theorem AtRest.act_eq_none (h : s.AtRest) {a : Action m n} (ha : Unaided s a) :
    s.act a = none := by
  have hreader := h.readers
  have hthread := h.thread
  unfold Reader.AtRest at hreader
  cases a with
  | accept => exact ha.elim
  | readable e => exact ha.elim
  | readError e => exact ha.elim
  | readCall r input => exact ha.elim
  | addToReader r => simp [act, addToReader, h.listener]
  | popConn r => grind [act, Listener.popConn, Queue.tryPop]
  | pushCall r => grind [act, pushCall]
  | rearm r => grind [act, rearm]
  | rearmThrows r => grind [act, rearm]
  | closeConnection r => grind [act, closeConnection]
  | closeThrows r => grind [act, closeConnection]
  | popCall h' => simp [act, popCall, h.bqCall, Queue.tryPop]
  | execute h' => simp [act, execute, h.handlers]
  | pushRespond h' => simp [act, pushRespond, h.handlers]
  | size h' => simp [act, size, h.handlers]
  | pushToken h' => simp [act, pushToken, h.handlers]
  | popToken =>
    obtain ⟨hidle, hq⟩ | ⟨-, e, hpc⟩ := h.responder
    · simp [act, popToken, hidle, hq, Queue.tryPop]
    · simp [act, popToken, hpc]
  | lookup =>
    obtain ⟨hidle, -⟩ | ⟨hmutex, e, hpc⟩ := h.responder
    · simp [act, lookup, hidle]
    · simp [act, lookup, hpc, hmutex]
  | tryPop t =>
    obtain hpc | ⟨-, -, e, hpc⟩ := hthread t <;> simp [act, tryPop, hpc]
  | write t io =>
    obtain hpc | ⟨-, -, e, hpc⟩ := hthread t <;> simp [act, write, hpc]
  | requeue t =>
    obtain hpc | ⟨-, -, e, hpc⟩ := hthread t <;> simp [act, requeue, hpc]
  | retoken t =>
    obtain hpc | ⟨-, -, e, hpc⟩ := hthread t <;> simp [act, retoken, hpc]

end State

/-- **Who cannot go on is at rest**: no deadlock and no lost item, in every state of every run. -/
theorem still_iff (h : (system m n).Reachable s) (hm : 0 < m) (hn : 0 < n)
    (hrun : s.status = .running) : (system m n).Still Unaided s ↔ s.AtRest := by
  constructor
  · exact fun hstill => State.atRest_of_still hrun hstill (manned_of_reachable h) hm hn
  · intro hrest a ha
    show s.step a = none
    rw [State.step_eq_act hrun]
    exact hrest.act_eq_none ha

/-! ## What has become of the calls -/

/-- No endpoint is on its way, unless the responder waits for the lock of the map. -/
theorem State.AtRest.respondQueue_eq_nil (hrest : s.AtRest) (h : (system m n).Reachable s)
    (hmutex : s.listener.mutexConns = false) (c : ConnId) : s.pipe.respondQueue c = [] := by
  have ht := tokens_of_reachable h
  have hidle : ∀ t, s.pipe.pc t = .idle := fun t =>
    (hrest.thread t).resolve_right fun hlock => by rw [hmutex] at hlock; cases hlock.1
  have hq : s.pipe.bqRespond = [] := by
    obtain hnil | ⟨hlock, -⟩ := hrest.responder
    · exact hnil.2
    · rw [hmutex] at hlock; cases hlock
  by_cases hc : c < s.listener.lastConnectionIndex
  · have hbal := ht.balance c hc
    have howed : s.owed c = 0 := Count.total_eq_zero fun t => by rw [hidle]; rfl
    rw [hq, howed] at hbal
    exact List.length_eq_zero_iff.mp hbal
  · exact (placed_of_reachable h).respondQueue_eq_nil (recorded_of_reachable h)
      (Nat.le_of_not_lt hc)

/-- A call that was read is done with, or in a response queue that the responder does not visit. -/
theorem State.AtRest.place (hrest : s.AtRest) (h : (system m n).Reachable s) {k : CallId}
    (hk : k < s.pipe.lastCall) : s.pipe.place k = .sent ∨ s.pipe.place k = .dropped ∨
      s.listener.mutexConns = true ∧ ∃ c, s.pipe.place k = .responding c := by
  have hat : s.At k (s.pipe.place k) := ((placed_of_reachable h).coherent k _).mpr rfl
  cases hplace : s.pipe.place k with
  | sent => exact .inl rfl
  | dropped => exact .inr (.inl rfl)
  | unread =>
    rw [hplace] at hat
    exact absurd hk (Nat.not_lt.mpr hat)
  | reader r =>
    rw [hplace] at hat
    have hreader := hrest.readers r
    unfold Reader.AtRest at hreader
    change (s.listener.readers r).pc.call = some k at hat
    cases hpc : (s.listener.readers r).pc with
    | read c j => rw [hpc] at hreader; exact hreader.elim
    | _ => rw [hpc] at hat; cases hat
  | calls =>
    rw [hplace] at hat
    change k ∈ s.pipe.bqCall at hat
    rw [hrest.bqCall] at hat
    exact absurd hat List.not_mem_nil
  | hand t g =>
    rw [hplace] at hat
    change (s.pipe.pc t).hand = some (k, g) at hat
    obtain hidle | ⟨-, -, e, hlookup⟩ := hrest.thread t
    · rw [hidle] at hat; cases hat
    · rw [hlookup] at hat; cases hat
  | responding c =>
    rw [hplace] at hat
    change k ∈ s.pipe.respondQueue c at hat
    refine .inr (.inr ⟨?_, c, rfl⟩)
    by_contra hmutex
    rw [hrest.respondQueue_eq_nil h (by simpa using hmutex)] at hat
    exact absurd hat List.not_mem_nil

/-- What has become of a state whose threads were left to themselves. -/
structure Finished (s : State m n) : Prop where
  atRest : s.AtRest
  /-- Every call that was read is done with, but those that wait for `_mutex_conns`. -/
  place : ∀ k < s.pipe.lastCall, s.pipe.place k = .sent ∨ s.pipe.place k = .dropped ∨
    s.listener.mutexConns = true ∧ ∃ c, s.pipe.place k = .responding c
  queues : s.listener.mutexConns = false → ∀ c, s.pipe.respondQueue c = []

theorem finished_of_still (h : (system m n).Reachable s) (hm : 0 < m) (hn : 0 < n)
    (hrun : s.status = .running) (hstill : (system m n).Still Unaided s) : Finished s where
  atRest := (still_iff h hm hn hrun).mp hstill
  place _ hk := ((still_iff h hm hn hrun).mp hstill).place h hk
  queues hmutex := ((still_iff h hm hn hrun).mp hstill).respondQueue_eq_nil h hmutex

/-- **The server drains**: left to themselves its threads come to an end, after no more steps than
there was work, and where they do and the process lives, every call is done with. -/
theorem drains_of_reachable (hm : 0 < m) (hn : 0 < n) (h : (system m n).Reachable s) :
    (∃ as s', (system m n).run Unaided s as = some s' ∧ (system m n).Still Unaided s') ∧
    ∀ as s', (system m n).run Unaided s as = some s' → as.length ≤ s.work ∧
      (s'.status = .running → ((system m n).Still Unaided s' ↔ s'.AtRest) ∧
        ((system m n).Still Unaided s' → Finished s')) := by
  have hincome : ∀ (s : State m n) a s', Unaided s a → (system m n).step s a = some s' →
      s'.income = s.income := fun _ _ _ => income_of_unaided
  have hpays := (pays m n).mono (D := Unaided) fun _ _ _ => trivial
  refine ⟨hpays.exists_still hincome h, fun as s' hrun => ⟨?_, fun hs' => ?_⟩⟩
  · have hlen := hpays.length_run h hrun
    have hsame := System.Pays.income_run hincome hrun
    omega
  · have h' : (system m n).Reachable s' :=
      System.Reach.run h (System.run_mono (fun _ _ _ => trivial) hrun)
    exact ⟨still_iff h' hm hn hs', finished_of_still h' hm hn hs'⟩

/-- The two calls of `twoCalls`, which are executed and not answered yet. -/
theorem drains_twoCalls : ∃ s : State 2 2,
    (system 2 2).run (fun _ _ => True) (.start 2 2) twoCalls = some s ∧ s.pipe.lastCall = 2 ∧
    (∃ as s', (system 2 2).run Unaided s as = some s' ∧ (system 2 2).Still Unaided s') ∧
    ∀ as s', (system 2 2).run Unaided s as = some s' → as.length ≤ s.work ∧
      (s'.status = .running → ((system 2 2).Still Unaided s' ↔ s'.AtRest) ∧
        ((system 2 2).Still Unaided s' → Finished s')) := by
  have hrun : ((system 2 2).run (fun _ _ => True) (.start 2 2) twoCalls).any
      (fun s => s.pipe.lastCall = 2) = true := by decide +kernel
  obtain ⟨s, hs, htwo⟩ := (Option.any_eq_true _ _).mp hrun
  exact ⟨s, hs, of_decide_eq_true htwo,
    drains_of_reachable (by decide) (by decide) (.run (.init rfl) hs)⟩

/-! ## One connection -/

variable {c : ConnId} {svc : Service Request} {rest : Bytes}

theorem Serving.of_finished (hserving : Serving s.pipe c svc rest) (h : (system m n).Reachable s)
    (hfinished : Finished s) (hmutex : s.listener.mutexConns = false) :
    svc.pending = [] ∧ rest = [] := by
  have hsent : ∀ k < s.pipe.lastCall, (s.pipe.calls k).connection = c → s.pipe.place k = .sent := by
    intro k hk hc
    obtain hsent | hdropped | ⟨hlock, -⟩ := hfinished.place k hk
    · exact hsent
    · exact absurd hdropped (hserving.kept k hc)
    · rw [hmutex] at hlock; cases hlock
  have hlt : ∀ k, (s.pipe.calls k).pos ≠ 0 → k < s.pipe.lastCall := by
    intro k hpos
    by_contra hk
    have hunread : s.At k .unread := Nat.le_of_not_lt hk
    have hst := (placed_of_reachable h).stage (recorded_of_reachable h) hunread
    exact hpos hst.pos
  constructor
  · rw [hserving.pending, List.map_eq_nil_iff, List.eq_nil_iff_forall_not_mem]
    intro k hk
    obtain ⟨hk, hc, -, hne⟩ := Pipeline.mem_waiting.mp hk
    exact hne (hsent k hk hc)
  · obtain ⟨begun, hiff, rfl⟩ := hserving.begun
    cases begun with
    | none => rfl
    | some k =>
      obtain ⟨hc, hpos, hne⟩ := (hiff k).mpr rfl
      exact absurd (hsent k (hlt k hpos) hc) hne

/-- **Every request is answered**: in a run whose passes over one connection are in line, once the
server's threads cannot go on the connection carries a whole reply to every request that was read
from it, each once, and nothing else. -/
theorem answered_of_still (hm : 0 < m) (hn : 0 < n) (h : (system m n).Reach (InLineOn c) s)
    (hrun : s.status = .running) (hmutex : s.listener.mutexConns = false)
    (hstill : (system m n).Still Unaided s) :
    ∃ rs : List Request, rs.Perm (s.pipe.requests c) ∧ (∀ r ∈ rs, r.reply.isSome) ∧
      (s.pipe.out c).map Prod.snd = rs.flatMap fun r => r.reply.getD [] := by
  obtain ⟨svc, hsvc, rest, hserving⟩ := h.simulated (serving_simulation c)
  have hfinished := finished_of_still h.reachable hm hn hrun hstill
  obtain ⟨hpending, rfl⟩ := hserving.of_finished h.reachable hfinished hmutex
  refine ⟨svc.answered, ?_, Service.answered_of_reachable hsvc, ?_⟩
  · have hread := hserving.read
    rwa [hpending, List.append_nil] at hread
  · have hout := hserving.out
    rwa [List.append_nil] at hout

/-- The responder sends the responses to both calls of `twoCalls`, in a pass each. -/
def bothSent : List (Action 2 2) := twoCalls ++
  [.rearm t₁, .pushRespond t₀, .pushRespond t₁, .size t₀, .size t₁, .pushToken t₀, .pushToken t₁,
    .popToken, .lookup, .tryPop .responder, .write .responder (.accepts 4), .popToken, .lookup,
    .tryPop .responder, .write .responder (.accepts 4)]

theorem answered_of_still_bothSent : ∃ s : State 2 2,
    (system 2 2).run (InLineOn 0) (.start 2 2) bothSent = some s ∧
    (s.pipe.requests 0).length = 2 ∧ (s.pipe.out 0).length = 32 ∧
    ∃ rs : List Request, rs.Perm (s.pipe.requests 0) ∧ (∀ r ∈ rs, r.reply.isSome) ∧
      (s.pipe.out 0).map Prod.snd = rs.flatMap fun r => r.reply.getD [] := by
  have hrun : ((system 2 2).run (InLineOn 0) (.start 2 2) bothSent).any
      (fun s => ((s.pipe.requests 0).length = 2 ∧ (s.pipe.out 0).length = 32) ∧
        (s.status = .running ∧ s.listener.mutexConns = false) ∧ s.listener.pc = .idle ∧
        (∀ r, (s.listener.readers r).AtRest s.listener.mutexConns) ∧ s.pipe.bqCall = [] ∧
        (∀ h, s.pipe.pc (.handler h) = .idle) ∧
        s.pipe.pc .responder = .idle ∧ s.pipe.bqRespond = []) = true := by decide +kernel
  obtain ⟨s, hs, hfacts⟩ := (Option.any_eq_true _ _).mp hrun
  obtain ⟨⟨htwo, hlen⟩, ⟨hrunning, hmutex⟩, hl, hr, hq, hh, hresponder⟩ := of_decide_eq_true hfacts
  have hreach : (system 2 2).Reach (InLineOn 0) s := .run (.init rfl) hs
  have hstill := (still_iff hreach.reachable (by decide) (by decide) hrunning).mpr
    ⟨hl, hr, hq, hh, .inl hresponder⟩
  exact ⟨s, hs, htwo, hlen, answered_of_still (by decide) (by decide) hreach hrunning hmutex hstill⟩

end Still

end PRpc.Server
