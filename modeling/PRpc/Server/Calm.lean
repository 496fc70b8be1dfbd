import PRpc.Server.Disconnect
import PRpc.Server.Drain
import PRpc.Server.Entries

/-!
# What the server survives

Each way in which the process ends, and each way in which a connection or a call is lost, begins
with something that comes from outside of it: a request that cannot be decoded or executed, a socket
that fails, an exception; or there are more calls or connections than the queues have room for.
Without these (`Calm`) the server lives, whatever its threads do and however many connections it
has, and loses nothing (`lives_of_reach`).
-/

namespace PRpc.Server

open Queue

variable {m n : ℕ}

/-- No socket fails and nothing is thrown in the step. -/
def Action.Faultless : Action m n → Prop
  | .readError _ => False
  | .rearmThrows _ => False
  | .closeThrows _ => False
  | .write _ io => io.works = true
  | _ => True

/-- What is read in the step is a request that has a result. -/
def State.Understands (s : State m n) : Action m n → Prop
  | .readCall r input => ∀ c ∈ (s.listener.readers r).pc.conn,
      ((Call.read c input).1.bind fun call => call.request.result).isSome
  | _ => True

instance : DecidablePred (Action.Faultless : Action m n → Prop)
  | .readError _ | .rearmThrows _ | .closeThrows _ => .isFalse id
  | .write _ io => inferInstanceAs (Decidable (io.works = true))
  | .accept | .readable _ | .addToReader _ | .popConn _ | .readCall _ _ | .pushCall _ | .rearm _
  | .closeConnection _ | .popCall _ | .execute _ | .pushRespond _ | .size _ | .pushToken _
  | .popToken | .lookup | .tryPop _ | .requeue _ | .retoken _ => .isTrue trivial

instance (s : State m n) : DecidablePred s.Understands
  | .readCall r input => inferInstanceAs (Decidable (∀ c ∈ (s.listener.readers r).pc.conn,
      ((Call.read c input).1.bind fun call => call.request.result).isSome))
  | .accept | .readable _ | .readError _ | .addToReader _ | .popConn _ | .pushCall _ | .rearm _
  | .rearmThrows _ | .closeConnection _ | .closeThrows _ | .popCall _ | .execute _
  | .pushRespond _ | .size _ | .pushToken _ | .popToken | .lookup | .tryPop _ | .write _ _
  | .requeue _ | .retoken _ => .isTrue trivial

/-- A step without a fault, while a hundred calls are in flight at most and the open connections fit
into the queues of the readers. -/
structure Calm (s : State m n) (a : Action m n) : Prop where
  faultless : a.Faultless
  understands : s.Understands a
  inFlight : s.inFlight ≤ 100
  fits : s.Fits

instance (s : State m n) (a : Action m n) : Decidable (Calm s a) :=
  decidable_of_iff (a.Faultless ∧ s.Understands a ∧ s.inFlight ≤ 100 ∧ s.Fits)
    ⟨fun ⟨h1, h2, h3, h4⟩ => ⟨h1, h2, h3, h4⟩, fun ⟨h1, h2, h3, h4⟩ => ⟨h1, h2, h3, h4⟩⟩

/-! ## What stays as it is -/

section Steps

variable {s s' : State m n} {a : Action m n} {k : CallId}

theorem Moves.request_eq (hm : Moves s a s') (hp : Placed s) (hr : Recorded s)
    (hk : k < s.pipe.lastCall) : (s'.pipe.calls k).request = (s.pipe.calls k).request := by
  have hupdate : ∀ {j : CallId} {call : Call}, call.request = (s.pipe.calls j).request →
      (Function.update s.pipe.calls j call k).request = (s.pipe.calls k).request := by
    intro j call hcall
    rw [Function.update_apply]
    split
    · next hj => rw [hj]; exact hcall
    · rfl
  have hstage : ∀ {t : Thread n} {c : ConnId} {j : CallId}, s.pipe.pc t = .popped c j →
      (s.pipe.calls j).Underway := by
    intro t c j hpc
    have hat : s.At j (.hand t (.popped c)) := State.at_hand hpc rfl
    have hst : (s.pipe.calls j).Ready c _ _ := hp.stage hr hat
    exact hst.underway
  cases hm with
  | @readCall r c input call hpc hcall =>
    show (Function.update s.pipe.calls s.pipe.lastCall call k).request = _
    rw [Function.update_of_ne (Nat.ne_of_lt hk)]
  | @execute h' j call hpc hcall =>
    obtain ⟨v, -, rfl⟩ := Handler.of_process hcall
    exact hupdate rfl
  | died => exact hupdate rfl
  | again hpc hlock hio hpass =>
    obtain ⟨_, _, -, -, -, -, rfl, -⟩ := Connection.of_again (hstage hpc) hio.1 hpass
    exact hupdate rfl
  | sent hpc hlock hio hpass =>
    obtain ⟨_, -, -, rfl, -⟩ := Connection.of_sent (hstage hpc) hio.1 hpass
    exact hupdate rfl
  | writeFails hpc hlock hio hpass =>
    obtain ⟨-, rfl⟩ := Connection.of_failed (hstage hpc).inRange hpass
    exact hupdate rfl
  | _ => rfl

theorem Handler.process_ne_error {call : Call} (h : call.request.result ≠ none) (e : Fault) :
    process call ≠ .error e := by
  obtain ⟨v, hv⟩ := Option.ne_none_iff_exists'.mp h
  have hcall : Method.call call.className call.methodName call.params = .ok (some (.int v)) := by
    unfold Request.result Call.request at hv
    split at hv
    · next hcall => cases hv; exact hcall
    · cases hv
  rw [process_of_call hcall]
  simp

/-- The process dies only in `Method::call` or after it. -/
theorem State.crashed_of_act (h : s.act a = some s') (hs : s.status = .running)
    (hcrashed : s'.status = .crashed) : ∃ h' j e, s.pipe.pc (.handler h') = .holding j ∧
      Handler.process (s.pipe.calls j) = .error e := by
  have hne : s.status ≠ .crashed := by simp [hs]
  cases a with
  | readable e =>
    obtain ⟨l, -, rfl⟩ := Option.map_eq_some_iff.mp h
    exact absurd hcrashed hne
  | popConn r =>
    obtain ⟨l, -, rfl⟩ := Option.map_eq_some_iff.mp h
    exact absurd hcrashed hne
  | execute h' =>
    simp only [act, execute] at h
    split at h
    · next j hpc =>
      split at h
      · cases h; exact absurd hcrashed hne
      · next e he => exact ⟨h', j, e, hpc, he⟩
    · cases h
  | _ =>
    grind [act, addToReader, readCall, pushCall, rearm, closeConnection, popCall, pushRespond,
      size, pushToken, popToken, lookup, tryPop, write, requeue, retoken, setListener, setPipe,
      abort, failed]

end Steps

/-! ## What no calm step breaks -/

/-- The connections are all there, and the calls that were read have results. -/
structure Unharmed (s : State m n) : Prop where
  mutexConns : s.listener.mutexConns = false
  entry : ∀ c < s.listener.lastConnectionIndex,
    s.listener.connections (s.listener.endpoint c) = some c
  opened : ∀ c, s.listener.closed c = false
  registered : ∀ e < s.listener.accepted, s.listener.connections e = none →
    e ∈ s.listener.pendingReads
  reader : ∀ r c, (s.listener.readers r).pc ≠ .failed c
  result : ∀ k < s.pipe.lastCall, (s.pipe.calls k).request.result ≠ none
  place : ∀ k, s.pipe.place k ≠ .dropped
  ticketed : s.listener.Ticketed

namespace Unharmed

theorem start : Unharmed (State.start m n) where
  mutexConns := rfl
  entry _ hc := absurd hc (Nat.not_lt_zero _)
  opened _ := rfl
  registered _ he := absurd he (Nat.not_lt_zero _)
  reader _ _ h := by cases h
  result _ hk := absurd hk (Nat.not_lt_zero _)
  place _ h := by cases h
  ticketed _ _ h := by cases h

end Unharmed

section Step

variable {s s' : State m n} {a : Action m n}

theorem Unharmed.mutexConns_of_moves (h : Unharmed s) (hC : a.Faultless) (hm : Moves s a s') :
    s'.listener.mutexConns = false := by
  cases hm with
  | closeThrows => exact hC.elim
  | _ => exact h.mutexConns

theorem Unharmed.entry_of_moves (h : Unharmed s) (hC : a.Faultless) (hm : Moves s a s') :
    ∀ c < s'.listener.lastConnectionIndex,
      s'.listener.connections (s'.listener.endpoint c) = some c := by
  cases hm with
  | @create e hpc he hc =>
    intro c hlt
    change c < s.listener.lastConnectionIndex + 1 at hlt
    show Function.update s.listener.connections e (some s.listener.lastConnectionIndex)
      (Function.update s.listener.endpoint s.listener.lastConnectionIndex e c) = some c
    by_cases hlast : c = s.listener.lastConnectionIndex
    · rw [hlast, Function.update_self, Function.update_self]
    · have hold := h.entry c (by omega)
      rw [Function.update_of_ne hlast, Function.update_of_ne, hold]
      -- the endpoint has no connection yet
      rintro rfl
      rw [hold] at hc
      cases hc
  | closeConnection hpc => exact absurd hpc (h.reader _ _)
  | closeThrows => exact hC.elim
  | _ => exact h.entry

theorem Unharmed.opened_of_moves (h : Unharmed s) (hC : a.Faultless) (hm : Moves s a s') :
    ∀ c, s'.listener.closed c = false := by
  cases hm with
  | closeConnection hpc => exact absurd hpc (h.reader _ _)
  | closeThrows => exact hC.elim
  | _ => exact h.opened

theorem Unharmed.registered_of_moves (h : Unharmed s) (hC : a.Faultless) (hm : Moves s a s') :
    ∀ e < s'.listener.accepted, s'.listener.connections e = none →
      e ∈ s'.listener.pendingReads := by
  cases hm with
  | accept =>
    intro e he hnone
    change e < s.listener.accepted + 1 at he
    show e ∈ s.listener.pendingReads ++ [s.listener.accepted]
    rw [List.mem_append, List.mem_singleton]
    by_cases heq : e = s.listener.accepted
    · exact .inr heq
    · exact .inl (h.registered e (by omega) hnone)
  | @create e' hpc he' hc =>
    intro e he hnone
    change Function.update s.listener.connections e' _ e = none at hnone
    show e ∈ s.listener.pendingReads.erase e'
    by_cases heq : e = e'
    · rw [heq, Function.update_self] at hnone
      cases hnone
    · rw [Function.update_of_ne heq] at hnone
      exact (List.mem_erase_of_ne heq).mpr (h.registered e he hnone)
  | @reuse e' c hpc he' hc =>
    intro e he hnone
    have heq : e ≠ e' := by
      rintro rfl
      change s.listener.connections e = none at hnone
      rw [hc] at hnone
      cases hnone
    exact (List.mem_erase_of_ne heq).mpr (h.registered e he hnone)
  | readError => exact hC.elim
  | rearm => exact fun e he hnone => List.mem_append_left _ (h.registered e he hnone)
  | closeConnection hpc => exact absurd hpc (h.reader _ _)
  | closeThrows => exact hC.elim
  | _ => exact h.registered

theorem Unharmed.reader_of_moves (h : Unharmed s) (hC : a.Faultless) (hU : s.Understands a)
    (hm : Moves s a s') : ∀ r c, (s'.listener.readers r).pc ≠ .failed c := by
  have hset : ∀ {r : Fin m} {x : Reader}, (∀ c, x.pc ≠ .failed c) → ∀ r' c,
      (Function.update s.listener.readers r x r').pc ≠ .failed c := by
    intro r x hx r' c
    rw [Function.update_apply]
    split
    · exact hx c
    · exact h.reader r' c
  cases hm with
  | @added r c j q hpc hq => exact hset fun c => h.reader r c
  | popConn => exact hset fun _ he => by cases he
  | readCall => exact hset fun _ he => by cases he
  | @readFails r c input hpc hcall =>
    have hsome := hU c (by rw [hpc]; rfl)
    rw [hcall] at hsome
    cases hsome
  | pushCall => exact hset fun _ he => by cases he
  | rearm => exact hset fun _ he => by cases he
  | rearmThrows => exact hC.elim
  | closeConnection => exact hset fun _ he => by cases he
  | closeThrows => exact hC.elim
  | _ => exact h.reader

theorem Unharmed.result_of_moves (h : Unharmed s) (hU : s.Understands a) (hm : Moves s a s')
    (hp : Placed s) (hr : Recorded s) : ∀ k < s'.pipe.lastCall,
      (s'.pipe.calls k).request.result ≠ none := by
  have hold : ∀ k < s.pipe.lastCall, (s'.pipe.calls k).request.result ≠ none := by
    intro k hk
    rw [hm.request_eq hp hr hk]
    exact h.result k hk
  cases hm with
  | @readCall r c input call hpc hcall =>
    intro k hk
    change k < s.pipe.lastCall + 1 at hk
    by_cases hlast : k = s.pipe.lastCall
    · have hsome := hU c (by rw [hpc]; rfl)
      rw [hcall] at hsome
      show (Function.update s.pipe.calls s.pipe.lastCall call k).request.result ≠ none
      rw [hlast, Function.update_self]
      exact Option.isSome_iff_ne_none.mp hsome
    · exact hold k (by omega)
  | _ => exact hold

/-- No call is given up: the socket works, and there is room for what was sent in part. -/
theorem Unharmed.place_of_moves (h : Unharmed s) (hC : a.Faultless) (hm : Moves s a s')
    (hp : Placed s) (hr : Recorded s) (hroom : ∀ t ∈ s.target a, t.2 < t.1) :
    ∀ k, s'.pipe.place k ≠ .dropped := by
  have hset : ∀ {j : CallId} {p : Place m n}, p ≠ .dropped → ∀ k,
      Function.update s.pipe.place j p k ≠ .dropped := by
    intro j p hp k
    rw [Function.update_apply]
    split
    · exact hp
    · exact h.place k
  cases hm with
  | readCall => exact hset (by simp)
  | pushCall => exact hset (by simp)
  | popCall => exact hset (by simp)
  | execute => exact hset (by simp)
  | died => exact hset (by simp)
  | pushRespond => exact hset (by simp)
  | tryPop => exact hset (by simp)
  | again => exact hset (by simp)
  | sent => exact hset (by simp)
  | @writeFails t c k io bytes call hpc hlock hio hpass =>
    have hk : s.At k (.hand t (.popped c)) := State.at_hand hpc rfl
    have hst : (s.pipe.calls k).Ready c _ _ := hp.stage hr hk
    obtain ⟨hfails, -⟩ := Connection.of_failed hst.inRange hpass
    exact absurd (hfails.symm.trans hC) Bool.false_ne_true
  | requeue => exact hset (by simp)
  | @requeueFails t c k hpc hq =>
    have hlt := hroom (Connection.maxRespondSize, (s.pipe.respondQueue c).length) (by
      unfold State.target
      dsimp only
      rw [hpc]
      rfl)
    exact absurd hlt (Nat.not_lt.mpr (of_tryPush_none hq))
  | _ => exact h.place

/-- **No calm step does harm** in a server that lives after it. -/
theorem Unharmed.of_moves (h : Unharmed s) (hm : Moves s a s') (hl : s.listener.Owned)
    (hp : Placed s) (hr : Recorded s) (hC : Calm s a) (hroom : ∀ t ∈ s.target a, t.2 < t.1)
    (hrun : s'.status = .running) : Unharmed s' where
  mutexConns := h.mutexConns_of_moves hC.faultless hm
  entry := h.entry_of_moves hC.faultless hm
  opened := h.opened_of_moves hC.faultless hm
  registered := h.registered_of_moves hC.faultless hm
  reader := h.reader_of_moves hC.faultless hC.understands hm
  result := h.result_of_moves hC.understands hm hp hr
  place := h.place_of_moves hC.faultless hm hp hr hroom
  ticketed := by
    refine hm.ticketed hl h.ticketed hrun fun e c hc hc' => hm.loses_eq_zero hl ?_ hrun hc hc'
    cases a with
    | readError => exact hC.faultless.elim
    | rearmThrows => exact hC.faultless.elim
    | closeThrows => exact hC.faultless.elim
    | _ => exact ⟨rfl, fun _ he => by cases he⟩

/-- A calm step is considerate: no connection is removed. -/
theorem Unharmed.considerate (h : Unharmed s) (hC : a.Faultless) (hs : s.act a = some s')
    (ht : Tokens s) (hroom : ∀ t ∈ s.target a, t.2 < t.1) : Considerate s a := by
  refine ⟨fun c hc => ?_, fun c hc => ?_, fun w hw _ => ?_, fun _ t ht c hc => ?_⟩
  · cases a with
    | closeConnection r =>
      change s.closeConnection r false = some s' at hs
      unfold State.closeConnection at hs
      split at hs
      · next c hpc => exact absurd hpc (h.reader r c)
      · cases hs
    | _ => cases hc
  · refine h.entry c ?_
    cases a with
    | pushToken h' => exact ht.known.conn _ c hc
    | retoken t => exact ht.known.conn t c hc
    | _ => cases hc
  · cases a with
    | write t io =>
      cases hw
      exact hC
    | _ => cases hw
  · cases a with
    | requeue t' =>
      cases ht
      cases hpc : s.pipe.pc t with
      | requeue c' k =>
        rw [hpc] at hc
        cases hc
        refine hroom (Connection.maxRespondSize, (s.pipe.respondQueue c).length) ?_
        show s.target (.requeue t) = some _
        unfold State.target
        dsimp only
        rw [hpc]
      | _ => rw [hpc] at hc; cases hc
    | _ => cases ht

theorem Calm.running (hC : Calm s a) (hreach : (system m n).Reach Calm s) (hs : s.step a = some s')
    (h : Unharmed s) (ha : Attended s') (hspacious : s'.status ≠ .aborted .handleRead) :
    s'.status = .running := by
  obtain ⟨hrun, -⟩ := State.moves_of_step hs
  rw [State.step_eq_act hrun] at hs
  have hroom := room_of_reachable hreach.reachable hC.inFlight a
  cases hstatus : s'.status with
  | running => rfl
  | aborted site =>
    have hsite := State.noRoom_of_act hs hrun hroom hstatus
    cases site with
    | handleRead => exact absurd hstatus hspacious
    | respondLookup => exact absurd hstatus ha.survives.1
    | respondFailed => exact absurd hstatus ha.survives.2
    | doRead | handle | doRespond | processResponse => cases hsite
  | crashed =>
    obtain ⟨h', j, e, hpc, he⟩ := State.crashed_of_act hs hrun hstatus
    have hp := placed_of_reachable hreach.reachable
    have hat : s.At j (.hand (.handler h') .holding) := State.at_hand hpc rfl
    exact absurd he (Handler.process_ne_error (h.result j (hp.lt_lastCall hat (by simp))) e)

end Step

/-! ## Runs -/

section Runs

variable {s : State m n}

theorem kept_of_reach (h : (system m n).Reach Calm s) :
    s.status = .running ∧ Attended s ∧ Unharmed s := by
  induction h with
  | init hi =>
    cases hi
    exact ⟨rfl, .start, .start⟩
  | @step s s' a hreach hC hs ih =>
    obtain ⟨hrun, hattended, hunharmed⟩ := ih
    have hr := hreach.reachable
    have hm := (State.moves_of_step hs).2
    have hroom := room_of_reachable hr hC.inFlight a
    have hact : s.act a = some s' := by
      rw [← State.step_eq_act hrun]
      exact hs
    have hattended' := hm.attended (placed_of_reachable hr) (recorded_of_reachable hr)
      (tokens_of_reachable hr)
      (hunharmed.considerate hC.faultless hact (tokens_of_reachable hr) hroom) hattended
    have hspacious : (system m n).Reach (fun s _ => s.Fits) s' :=
      .step (hreach.mono fun _ _ hC => hC.fits) hC.fits hs
    have hrun' := hC.running hreach hs hunharmed hattended' (spacious_of_reach hspacious).noAbort
    exact ⟨hrun', hattended', hunharmed.of_moves hm (owned_of_reachable hr) (placed_of_reachable hr)
      (recorded_of_reachable hr) hC hroom hrun'⟩

/-- The server lives, its connections are all known, open and read from, and no call was given
up. -/
structure Lives (s : State m n) : Prop where
  running : s.status = .running
  mutexConns : s.listener.mutexConns = false
  connection : ∀ c < s.listener.lastConnectionIndex,
    s.listener.connections (s.listener.endpoint c) = some c ∧ s.listener.closed c = false ∧
      s.listener.Alive (s.listener.endpoint c) c
  place : ∀ k, s.pipe.place k ≠ .dropped
  /-- When the threads can go on no more, every call that was read has been sent. -/
  sent : 0 < m → 0 < n → (system m n).Still Unaided s →
    ∀ k < s.pipe.lastCall, s.pipe.place k = .sent

/-- **The server lives** in every calm run. -/
theorem lives_of_reach (h : (system m n).Reach Calm s) : Lives s := by
  obtain ⟨hrun, -, hunharmed⟩ := kept_of_reach h
  refine ⟨hrun, hunharmed.mutexConns, fun c hc => ?_, hunharmed.place, fun hm hn hstill k hk => ?_⟩
  · have hentry := hunharmed.entry c hc
    exact ⟨hentry, hunharmed.opened c,
      (Listener.alive_iff rfl).mpr (hunharmed.ticketed _ c hentry)⟩
  · have hfinished := finished_of_still h.reachable hm hn hrun hstill
    obtain hsent | hdropped | ⟨hlock, -⟩ := hfinished.place k hk
    · exact hsent
    · exact absurd hdropped (hunharmed.place k)
    · rw [hunharmed.mutexConns] at hlock
      cases hlock

/-- The calls of `bothSent` are sent at the end of it. -/
theorem lives_of_reach_bothSent : ∃ s : State 2 2,
    (system 2 2).run Calm (.start 2 2) bothSent = some s ∧ s.pipe.lastCall = 2 ∧ Lives s := by
  have hrun : ((system 2 2).run Calm (.start 2 2) bothSent).any (fun s => s.pipe.lastCall = 2) =
      true := by decide +kernel
  obtain ⟨s, hs, htwo⟩ := (Option.any_eq_true _ _).mp hrun
  exact ⟨s, hs, of_decide_eq_true htwo, lives_of_reach (.run (.init rfl) hs)⟩

end Runs

end PRpc.Server
