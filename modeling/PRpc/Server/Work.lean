import PRpc.Server.Saturation
import PRpc.Library.Work

/-!
# The work of the server

How many steps the server can take before it needs its peers again. A registered read leads to a
round of `addToReader`, a pop and a read; a call that was read to a way through the pipeline; each
of its value bytes to one more pass at most, with six steps from one to the next: an endpoint is
popped, the connection looked up, the call popped, written, queued again, and the endpoint pushed.
Every step does more of this than it leaves behind, except that an accept brings a first read and a
successful `Call::read` brings a call and another read (`Moves.pays`). So the threads never work
for each other without end: a run is no longer than its connections and calls pay for
(`length_le_of_run`).
-/

namespace PRpc.Server

open Queue

variable {m n : ℕ}

/-! ## What is left to do -/

/-- The value bytes that a pass may still leave over. -/
def Call.unsent (call : Call) : ℕ := call.strVal.length - call.pos.toNat

/-- The steps that a call is still good for where it is, with `left` value bytes unsent. -/
def Place.work (left : ℕ) : Place m n → ℕ
  | .unread => 0
  | .reader _ => 34
  | .calls => 33
  | .hand _ .holding => 32
  | .hand _ .valued => 6 * left + 7
  | .hand _ .died => 0
  | .responding _ => 6 * left + 1
  | .hand _ (.popped _) => 6 * left + 1
  | .hand _ (.requeue _) => 6 * left + 6
  | .sent => 0
  | .dropped => 0

/-- The steps of a thread that has no call in its hands, and of what it leaves behind. -/
def Pc.work : Pc → ℕ
  | .idle => 0
  | .holding _ => 0
  | .valued _ => 0
  | .died _ => 0
  | .sizing _ => 5
  | .queueing _ => 4
  | .lookup _ => 2
  | .popping _ => 1
  | .popped _ _ => 0
  | .requeue _ _ => 0
  | .token _ => 4

/-- The steps of a reader, of a server with `m` of them. -/
def ReaderPc.work (m : ℕ) : ReaderPc → ℕ
  | .idle => 0
  | .reading _ => 2
  | .failed _ => 1
  | .read _ _ => m + 7
  | .pushed _ => m + 6

def Reader.work (m : ℕ) (reader : Reader) : ℕ := 3 * reader.bqConn.length + reader.pc.work m

/-- The rounds of `addToReader` that are left, and what is done with the connection then. -/
def ListenerPc.work (m : ℕ) : ListenerPc → ℕ
  | .idle => 0
  | .adding _ retryTimes => m - retryTimes + 4

def Listener.work (l : Listener m) : ℕ :=
  (m + 5) * l.pendingReads.length + l.pc.work m + Count.total (Reader.work m) l.readers

def Pipeline.callWork (p : Pipeline m n) (k : CallId) : ℕ := (p.place k).work (p.calls k).unsent

def Pipeline.work (p : Pipeline m n) : ℕ :=
  ∑ k ∈ Finset.range p.lastCall, p.callWork k + Count.total Pc.work p.pc + 3 * p.bqRespond.length

/-- The last step of all may be an abort. -/
def Status.work : Status → ℕ
  | .running => 1
  | _ => 0

def State.work (s : State m n) : ℕ := s.status.work + s.listener.work + s.pipe.work

/-- What the peers have brought: connections, and calls that a reader could decode. -/
def State.income (s : State m n) : ℕ := (m + 6) * s.listener.accepted + (m + 40) * s.pipe.lastCall

/-! ## The listener and the readers -/

namespace Listener

variable {l : Listener m} {r : Fin m} {c : ConnId}

theorem work_handleAccept : l.handleAccept.work = l.work + (m + 5) := by
  show (m + 5) * (l.pendingReads ++ [l.accepted]).length + l.pc.work m +
    Count.total (Reader.work m) l.readers = l.work + (m + 5)
  rw [List.length_append, List.length_singleton, Nat.mul_succ]
  unfold work
  omega

theorem work_complete {e : Ep} (he : e ∈ l.pendingReads) :
    (l.complete e).work + (m + 5) = l.work := by
  have hlen : (l.pendingReads.erase e).length + 1 = l.pendingReads.length :=
    List.length_erase_add_one he
  show (m + 5) * (l.pendingReads.erase e).length + l.pc.work m +
    Count.total (Reader.work m) l.readers + (m + 5) = l.work
  unfold work
  rw [← hlen, Nat.mul_succ]
  omega

theorem work_nextReader (c : ConnId) (retryTimes : ℕ) :
    (l.nextReader c retryTimes).work + l.pc.work m = l.work + (m - retryTimes + 4) := by
  show (m + 5) * l.pendingReads.length + (m - retryTimes + 4) +
    Count.total (Reader.work m) l.readers + l.pc.work m = _
  unfold work
  omega

theorem work_setReader (x : Reader) :
    (l.setReader r x).work + (l.readers r).work m = l.work + x.work m := by
  have htotal := Count.total_update (Reader.work m) l.readers r x
  show (m + 5) * l.pendingReads.length + l.pc.work m +
    Count.total (Reader.work m) (Function.update l.readers r x) + _ = _
  unfold work
  omega

theorem work_setReaderPc (pc : ReaderPc) :
    (l.setReaderPc r pc).work + (l.readers r).pc.work m = l.work + pc.work m := by
  have hset := work_setReader (l := l) (r := r) { l.readers r with pc }
  change (l.setReaderPc r pc).work + (3 * (l.readers r).bqConn.length + (l.readers r).pc.work m) =
    l.work + (3 * (l.readers r).bqConn.length + pc.work m) at hset
  omega

theorem work_added {retryTimes : ℕ} {q : List ConnId} (hpc : l.pc = .adding c retryTimes)
    (hq : tryPush maxReaderQueueSize (l.readers r).bqConn c true = some q) :
    (l.added r q).work + (m - retryTimes + 1) = l.work := by
  have hset := work_setReader (l := l) (r := r) { l.readers r with bqConn := q }
  have hlen := length_of_tryPush hq
  have hpc' : (l.setReader r { l.readers r with bqConn := q }).work =
      (l.added r q).work + (m - retryTimes + 4) := by
    show (m + 5) * l.pendingReads.length + l.pc.work m +
        Count.total (Reader.work m) (l.setReader r _).readers =
      (m + 5) * l.pendingReads.length + 0 +
        Count.total (Reader.work m) (l.setReader r _).readers + (m - retryTimes + 4)
    rw [hpc, ListenerPc.work]
    omega
  change _ + (3 * (l.readers r).bqConn.length + (l.readers r).pc.work m) =
    l.work + (3 * q.length + (l.readers r).pc.work m) at hset
  omega

theorem work_rearm : (l.rearm r c).work = (l.setReaderPc r .idle).work + (m + 5) := by
  show (m + 5) * (l.pendingReads ++ [l.endpoint c]).length + l.pc.work m +
      Count.total (Reader.work m) (l.setReaderPc r .idle).readers =
    (m + 5) * l.pendingReads.length + l.pc.work m +
      Count.total (Reader.work m) (l.setReaderPc r .idle).readers + (m + 5)
  rw [List.length_append, List.length_singleton, Nat.mul_succ]
  omega

end Listener

/-! ## The pipeline -/

namespace Pipeline

variable {p p' : Pipeline m n} {t : Thread n} {k : CallId}

theorem work_setPc (pc : Pc) : (p.setPc t pc).work + (p.pc t).work = p.work + pc.work := by
  have htotal := Count.total_update Pc.work p.pc t pc
  show ∑ k ∈ Finset.range p.lastCall, p.callWork k +
    Count.total Pc.work (Function.update p.pc t pc) + 3 * p.bqRespond.length + _ = _
  unfold work
  omega

theorem work_setTokens (pc : Pc) (q : List Ep) : (p.setTokens t pc q).work + (p.pc t).work +
    3 * p.bqRespond.length = p.work + pc.work + 3 * q.length := by
  have htotal := Count.total_update Pc.work p.pc t pc
  show ∑ k ∈ Finset.range p.lastCall, p.callWork k +
    Count.total Pc.work (Function.update p.pc t pc) + 3 * q.length + _ + _ = _
  unfold work
  omega

/-- **One call is worked on**: the work changes by what is left to do with it before and after. -/
theorem work_of_call (hlt : k < p.lastCall) (hlast : p'.lastCall = p.lastCall)
    (hq : p'.bqRespond = p.bqRespond) (hcalls : ∀ j ≠ k, p'.calls j = p.calls j)
    (hplace : ∀ j ≠ k, p'.place j = p.place j) :
    p'.work + Count.total Pc.work p.pc + p.callWork k =
      p.work + Count.total Pc.work p'.pc + p'.callWork k := by
  have hother : ∀ j ≠ k, p'.callWork j = p.callWork j := fun j hj => by
    unfold callWork
    rw [hcalls j hj, hplace j hj]
  have hsum := Count.sum_add_of_ne (Finset.mem_range.mpr hlt) hother
  unfold work
  rw [hlast, hq]
  omega

theorem work_of_move (p' : Pipeline m n) {pc : Pc} {new : Place m n} (hlt : k < p.lastCall)
    (hlast : p'.lastCall = p.lastCall) (hq : p'.bqRespond = p.bqRespond)
    (hcalls : ∀ j ≠ k, p'.calls j = p.calls j) (hplace : p'.place = Function.update p.place k new)
    (hpc : p'.pc = Function.update p.pc t pc) :
    p'.work + (p.pc t).work + p.callWork k =
      p.work + pc.work + new.work (p'.calls k).unsent := by
  have hcall := work_of_call hlt hlast hq hcalls fun j hj => by
    rw [hplace, Function.update_of_ne hj]
  have hnew : p'.callWork k = new.work (p'.calls k).unsent := by
    unfold callWork
    rw [hplace, Function.update_self]
  have htotal := Count.total_update Pc.work p.pc t pc
  rw [← hpc] at htotal
  omega

theorem work_newCall (r : Fin m) (call : Call) : (p.newCall r call).work = p.work + 34 := by
  have hsum : ∑ k ∈ Finset.range p.lastCall, (p.newCall r call).callWork k =
      ∑ k ∈ Finset.range p.lastCall, p.callWork k := by
    refine Finset.sum_congr rfl fun k hk => ?_
    have hne : k ≠ p.lastCall := (Finset.mem_range.mp hk).ne
    show (Function.update p.place _ _ k).work (Function.update p.calls _ _ k).unsent = _
    rw [Function.update_of_ne hne, Function.update_of_ne hne]
    rfl
  have hnew : (p.newCall r call).callWork p.lastCall = 34 := by
    show (Function.update p.place _ _ p.lastCall).work _ = 34
    rw [Function.update_self]
    rfl
  unfold work
  rw [show (p.newCall r call).lastCall = p.lastCall + 1 from rfl, Finset.sum_range_succ, hsum, hnew]
  show _ + Count.total Pc.work p.pc + 3 * p.bqRespond.length = _
  omega

end Pipeline

/-! ## The steps -/

namespace State

variable {s s' : State m n} {k : CallId}

/-- The step does more than it leaves behind of what it brings. -/
def Pays (s s' : State m n) : Prop := s'.work + s.income < s.work + s'.income

theorem Pays.of_listener {l : Listener m} (hacc : l.accepted = s.listener.accepted)
    (hl : l.work < s.listener.work) : s.Pays (s.setListener l) := by
  show s.status.work + l.work + s.pipe.work + s.income <
    s.work + ((m + 6) * l.accepted + (m + 40) * s.pipe.lastCall)
  rw [hacc]
  unfold State.work income
  omega

theorem Pays.of_setReaderPc {l : Listener m} {r : Fin m} {x : ReaderPc}
    (hacc : l.accepted = s.listener.accepted) (hl : l.work ≤ (s.listener.setReaderPc r x).work)
    (hpc : x.work m < (s.listener.readers r).pc.work m) : s.Pays (s.setListener l) := by
  have := s.listener.work_setReaderPc (r := r) x
  exact .of_listener hacc (by omega)

theorem Pays.of_pipe (hl : s'.listener = s.listener) (hlast : s'.pipe.lastCall = s.pipe.lastCall)
    (hstatus : s'.status.work ≤ s.status.work) (hp : s'.pipe.work < s.pipe.work) : s.Pays s' := by
  have hincome : s'.income = s.income := by
    unfold income
    rw [hl, hlast]
  unfold Pays State.work
  rw [hl, hincome]
  omega

theorem Pays.of_setPc {t : Thread n} {pc : Pc} (hlt : pc.work < (s.pipe.pc t).work) :
    s.Pays (s.setPipe (s.pipe.setPc t pc)) := by
  have hset := s.pipe.work_setPc (t := t) pc
  exact .of_pipe rfl rfl le_rfl (show (s.pipe.setPc t pc).work < _ by omega)

theorem Pays.of_setTokens {t : Thread n} {pc : Pc} {q : List Ep}
    (hlt : pc.work + 3 * q.length < (s.pipe.pc t).work + 3 * s.pipe.bqRespond.length) :
    s.Pays (s.setPipe (s.pipe.setTokens t pc q)) := by
  have hset := s.pipe.work_setTokens (t := t) pc q
  exact .of_pipe rfl rfl le_rfl (show (s.pipe.setTokens t pc q).work < _ by omega)

theorem Pays.of_status (hrun : s.status = .running) (hl : s'.listener.work ≤ s.listener.work)
    (hincome : s'.income = s.income) (hp : s'.pipe.work ≤ s.pipe.work)
    (hstatus : s'.status.work = 0) : s.Pays s' := by
  unfold Pays State.work
  rw [hincome, hstatus, hrun, Status.work]
  omega

theorem work_failed (s : State m n) (t : Thread n) : (s.failed t).status.work ≤ s.status.work := by
  show (if t = .responder then Status.aborted .respondFailed else s.status).work ≤ _
  split
  · exact Nat.zero_le _
  · exact le_rfl

/-- A pipeline step, by what is left to do with its call. -/
theorem Pays.of_move {t : Thread n} {pc : Pc} {old new : Place m n} (hp : Placed s)
    (hk : s.At k old) (hold : old ≠ .unread) (hl : s'.listener = s.listener)
    (hlast : s'.pipe.lastCall = s.pipe.lastCall) (hstatus : s'.status.work ≤ s.status.work)
    (hq : s'.pipe.bqRespond = s.pipe.bqRespond)
    (hcalls : ∀ j ≠ k, s'.pipe.calls j = s.pipe.calls j)
    (hplace : s'.pipe.place = Function.update s.pipe.place k new)
    (hpc : s'.pipe.pc = Function.update s.pipe.pc t pc)
    (hlt : pc.work + new.work (s'.pipe.calls k).unsent <
      (s.pipe.pc t).work + old.work (s.pipe.calls k).unsent) : s.Pays s' := by
  have hwork := Pipeline.work_of_move s'.pipe (hp.lt_lastCall hk hold) hlast hq hcalls hplace hpc
  unfold Pipeline.callWork at hwork
  rw [hp.coherent.place_eq hk] at hwork
  exact .of_pipe hl hlast hstatus (by omega)

/-- The loop of `addToReader` goes on while there are readers left to try. -/
theorem retry_lt {r : Fin m} {c : ConnId} {retryTimes : ℕ} (h : s.addToReader r = some s')
    (hpc : s.listener.pc = .adding c retryTimes) (hrun : s'.status = .running)
    (hpc' : s'.listener.pc ≠ .idle) : retryTimes + 1 < m := by
  unfold addToReader at h
  rw [hpc] at h
  dsimp only at h
  split at h
  · split at h
    · cases h; exact absurd rfl hpc'
    · split at h
      · next hlt => exact hlt
      · cases h; cases hrun
  · cases h

end State

theorem Moves.pays {s s' : State m n} {a : Action m n} (hm : Moves s a s')
    (hstep : s.step a = some s') (hp : Placed s) (hr : Recorded s) : s.Pays s' := by
  obtain ⟨hrun, -⟩ := State.moves_of_step hstep
  cases hm with
  | accept =>
    have := s.listener.work_handleAccept
    show s.status.work + s.listener.handleAccept.work + s.pipe.work + s.income < s.work +
      ((m + 6) * (s.listener.accepted + 1) + (m + 40) * s.pipe.lastCall)
    unfold State.work State.income
    rw [Nat.mul_succ]
    omega
  | @create e hpc he hc =>
    have hdone := Listener.work_complete he
    have hnext :=
      ((s.listener.complete e).create e).work_nextReader s.listener.lastConnectionIndex 0
    rw [show ((s.listener.complete e).create e).pc = .idle from hpc, ListenerPc.work,
      show ((s.listener.complete e).create e).work = (s.listener.complete e).work from rfl] at hnext
    exact .of_listener rfl (by omega)
  | @reuse e c hpc he hc =>
    have hdone := Listener.work_complete he
    have hnext := (s.listener.complete e).work_nextReader c 0
    rw [show (s.listener.complete e).pc = .idle from hpc, ListenerPc.work] at hnext
    exact .of_listener rfl (by omega)
  | readError he =>
    have hdone := Listener.work_complete he
    exact .of_listener rfl (by omega)
  | added hpc hq =>
    have hadded := Listener.work_added hpc hq
    exact .of_listener rfl (by omega)
  | @retry r c retryTimes hpc =>
    rw [State.step, if_pos hrun] at hstep
    have hlt := State.retry_lt hstep hpc hrun (by simp [State.setListener, Listener.nextReader])
    have hnext := s.listener.work_nextReader c (retryTimes + 1)
    rw [hpc, ListenerPc.work] at hnext
    exact .of_listener rfl (by omega)
  | @readersFull r c retryTimes hpc =>
    have hnext := s.listener.work_nextReader c (retryTimes + 1)
    rw [hpc, ListenerPc.work] at hnext
    exact .of_status hrun (show (s.listener.nextReader c (retryTimes + 1)).work ≤ _ by omega) rfl
      le_rfl rfl
  | @popConn r c q hpc hq =>
    have hset := s.listener.work_setReader (r := r) ⟨q, .reading c⟩
    unfold Reader.work at hset
    rw [hpc, hq] at hset
    change _ + (3 * (q.length + 1) + 0) = _ + (3 * q.length + 2) at hset
    exact .of_listener rfl (by omega)
  | @readCall r c input call hpc hcall =>
    have hset := s.listener.work_setReaderPc (r := r) (.read c s.pipe.lastCall)
    rw [hpc, ReaderPc.work, ReaderPc.work] at hset
    show s.status.work + (s.listener.setReaderPc r (.read c s.pipe.lastCall)).work +
      (s.pipe.newCall r call).work + s.income < s.work +
      ((m + 6) * s.listener.accepted + (m + 40) * (s.pipe.lastCall + 1))
    rw [Pipeline.work_newCall, Nat.mul_succ]
    unfold State.work State.income
    omega
  | readFails hpc => exact .of_setReaderPc rfl le_rfl (by rw [hpc]; exact Nat.lt_succ_self 1)
  | @pushCall r c k q hpc hq =>
    have hk : s.At k (.reader r) := State.at_reader hpc rfl
    have hset := s.listener.work_setReaderPc (r := r) (.pushed c)
    rw [hpc, ReaderPc.work, ReaderPc.work] at hset
    have hcall : (s.pipe.pushCall k q).work + Count.total Pc.work s.pipe.pc + s.pipe.callWork k =
        s.pipe.work + Count.total Pc.work (s.pipe.pushCall k q).pc +
          (s.pipe.pushCall k q).callWork k :=
      Pipeline.work_of_call (hp.lt_lastCall hk (by simp)) rfl rfl (fun _ _ => rfl) fun j hj =>
        Function.update_of_ne hj ..
    unfold Pipeline.callWork at hcall
    rw [hp.coherent.place_eq hk, show (s.pipe.pushCall k q).place k = .calls from
      Function.update_self .., Place.work, Place.work] at hcall
    rw [show (s.pipe.pushCall k q).pc = s.pipe.pc from rfl] at hcall
    show s.status.work + (s.listener.setReaderPc r (.pushed c)).work + (s.pipe.pushCall k q).work +
      s.income < s.work + s.income
    unfold State.work
    omega
  | @rearm r c hpc =>
    have hset := s.listener.work_setReaderPc (r := r) .idle
    have hrearm := s.listener.work_rearm (r := r) (c := c)
    rw [hpc, ReaderPc.work, ReaderPc.work] at hset
    exact .of_listener rfl (by omega)
  | rearmThrows hpc =>
    exact .of_setReaderPc rfl le_rfl (by rw [hpc]; exact Nat.succ_pos _)
  | @closeConnection r c hpc =>
    exact .of_setReaderPc (r := r) (x := .idle) rfl le_rfl (by rw [hpc]; exact Nat.one_pos)
  | @closeThrows r c hpc =>
    exact .of_setReaderPc (r := r) (x := .idle) rfl le_rfl (by rw [hpc]; exact Nat.one_pos)
  | @popCall h k q hpc hq =>
    exact .of_move hp (State.at_calls hq) (by simp) rfl rfl le_rfl rfl (fun _ _ => rfl) rfl rfl
      (by rw [hpc]; exact Nat.lt_succ_self 32)
  | @execute h k call hpc hcall =>
    have hk : s.At k (.hand (.handler h) .holding) := State.at_hand hpc rfl
    obtain ⟨-, -, hpos⟩ := hp.stage hr hk
    obtain ⟨v, -, rfl⟩ := Handler.of_process hcall
    refine .of_move hp hk (by simp) rfl rfl le_rfl rfl
      (fun j hj => Function.update_of_ne hj ..) rfl rfl ?_
    rw [hpc]
    show 0 + (6 * Call.unsent (Function.update s.pipe.calls k _ k) + 7) < 0 + 32
    rw [Function.update_self]
    unfold Call.unsent
    rw [IntWritable.length_toString]
    omega
  | @died h k hpc =>
    have hk : s.At k (.hand (.handler h) .holding) := State.at_hand hpc rfl
    refine .of_move hp hk (by simp) rfl rfl (Nat.zero_le _) rfl
      (fun j hj => Function.update_of_ne hj ..) rfl rfl ?_
    rw [hpc]
    exact Nat.succ_pos 31
  | @pushRespond h k q hpc hq =>
    refine .of_move hp (State.at_hand hpc rfl) (by simp) rfl rfl le_rfl rfl (fun _ _ => rfl) rfl rfl
      ?_
    rw [hpc]
    simp only [Pc.work, Place.work]
    show 5 + (6 * (s.pipe.calls k).unsent + 1) < _
    omega
  | sizeOne hpc => exact .of_setPc (by rw [hpc, Pc.work, Pc.work]; omega)
  | sizeMore hpc => exact .of_setPc (by rw [hpc, Pc.work, Pc.work]; omega)
  | pushToken hpc hq =>
    have hlen := length_of_tryPush hq
    exact .of_setTokens (by rw [hpc, Pc.work, Pc.work]; omega)
  | popToken hpc hq =>
    exact .of_setTokens (by rw [hpc, hq, List.length_cons, Pc.work, Pc.work]; omega)
  | lookup hpc hc => exact .of_setPc (by rw [hpc, Pc.work, Pc.work]; omega)
  | lookupFails => exact .of_status hrun le_rfl rfl le_rfl rfl
  | @tryPop t c k q hpc hq =>
    refine .of_move hp (State.at_responding hq) (by simp) rfl rfl le_rfl rfl (fun _ _ => rfl) rfl
      rfl ?_
    rw [hpc]
    simp only [Pc.work, Place.work]
    show 0 + (6 * (s.pipe.calls k).unsent + 1) < _
    omega
  | @tryPopFails t c hpc hq =>
    have hset := s.pipe.work_setPc (t := t) .idle
    rw [hpc, Pc.work, Pc.work] at hset
    exact .of_pipe rfl rfl (State.work_failed _ t) (show (s.pipe.setPc t .idle).work < _ by omega)
  | @again t c k io bytes call hpc hlock hio hpass =>
    have hk : s.At k (.hand t (.popped c)) := State.at_hand hpc rfl
    have hst : (s.pipe.calls k).Ready c _ _ := hp.stage hr hk
    obtain ⟨p, _, hpos, hlt, -, -, rfl, -⟩ := Connection.of_again hst.underway hio.1 hpass
    have hlen := hst.inRange.1
    refine .of_move hp hk (by simp) rfl rfl le_rfl rfl
      (fun j hj => Function.update_of_ne hj ..) rfl rfl ?_
    rw [hpc]
    simp only [Pc.work, Place.work]
    show 0 + (6 * Call.unsent (Function.update s.pipe.calls k _ k) + 6) < _
    rw [Function.update_self]
    unfold Call.unsent
    dsimp only
    rw [toNat_intOfSize (by omega)]
    omega
  | @sent t c k io bytes call hpc hlock hio hpass =>
    refine .of_move hp (State.at_hand hpc rfl) (by simp) rfl rfl le_rfl rfl
      (fun j hj => Function.update_of_ne hj ..) rfl rfl ?_
    rw [hpc]
    exact Nat.succ_pos _
  | @writeFails t c k io bytes call hpc hlock hio hpass =>
    refine .of_move hp (State.at_hand hpc rfl) (by simp) rfl rfl (State.work_failed _ t) rfl
      (fun j hj => Function.update_of_ne hj ..) rfl rfl ?_
    rw [hpc]
    exact Nat.succ_pos _
  | @requeue t c k q hpc hq =>
    refine .of_move hp (State.at_hand hpc rfl) (by simp) rfl rfl le_rfl rfl (fun _ _ => rfl) rfl rfl
      ?_
    rw [hpc]
    simp only [Pc.work, Place.work]
    show 4 + (6 * (s.pipe.calls k).unsent + 1) < _
    omega
  | @requeueFails t c k hpc hq =>
    refine .of_move hp (State.at_hand hpc rfl) (by simp) rfl rfl (State.work_failed _ t) rfl
      (fun _ _ => rfl) rfl rfl ?_
    rw [hpc]
    exact Nat.succ_pos _
  | retoken hpc hq =>
    have hlen := length_of_tryPush hq
    exact .of_setTokens (by rw [hpc, Pc.work, Pc.work]; omega)
  | abort => exact .of_status hrun le_rfl rfl le_rfl rfl

theorem pays (m n : ℕ) :
    (system m n).Pays (fun _ _ => True) State.work State.income := fun _ _ _ hs _ hstep =>
  (State.moves_of_step hstep).2.pays hstep (placed_of_reachable hs) (recorded_of_reachable hs)

theorem State.work_start : (State.start m n).work = 1 := by
  have hreaders : Count.total (Reader.work m) (State.start m n).listener.readers = 0 :=
    Count.total_eq_zero fun _ => rfl
  have hthreads : Count.total Pc.work (State.start m n).pipe.pc = 0 :=
    Count.total_eq_zero fun _ => rfl
  unfold State.work Listener.work Pipeline.work
  rw [hreaders, hthreads]
  rfl

/-- **No work without input**: however the threads are scheduled and whatever the sockets accept,
the server takes at most so many steps for its connections and calls. -/
theorem length_le_of_run {s : State m n} {as : List (Action m n)}
    (h : (system m n).run (fun _ _ => True) (.start m n) as = some s) :
    as.length + s.work ≤ 1 + (m + 6) * s.listener.accepted + (m + 40) * s.pipe.lastCall := by
  have hrun := (pays m n).length_run (.init rfl) h
  rw [State.work_start] at hrun
  unfold State.income at hrun
  have hzero : (m + 6) * (State.start m n).listener.accepted +
      (m + 40) * (State.start m n).pipe.lastCall = 0 := rfl
  omega

/-- Two calls on one connection, executed and not answered yet. -/
theorem length_le_twoCalls : ∃ s : State 2 2,
    (system 2 2).run (fun _ _ => True) (.start 2 2) twoCalls = some s ∧ s.pipe.lastCall = 2 ∧
    twoCalls.length + s.work ≤ 1 + 8 * s.listener.accepted + 42 * 2 := by
  have hrun : ((system 2 2).run (fun _ _ => True) (.start 2 2) twoCalls).any
      (fun s => s.pipe.lastCall = 2) = true := by decide +kernel
  obtain ⟨s, hs, htwo⟩ := (Option.any_eq_true _ _).mp hrun
  have hlen := length_le_of_run hs
  rw [of_decide_eq_true htwo] at hlen
  exact ⟨s, hs, of_decide_eq_true htwo, hlen⟩

end PRpc.Server
