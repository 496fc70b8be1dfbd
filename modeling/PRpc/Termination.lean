import PRpc.EndToEnd
import PRpc.Server.Drain
import PRpc.Server.Failures

/-!
# A client and the server come to rest

Without new calls and without input from other clients the threads of a client and of the server
take finitely many steps together, whatever they do (`pays`). What the client writes is work for the
server, at least a byte for each call; what the server writes is work for the receiver thread, and a
step of the server writes sixteen bytes at most.
-/

namespace PRpc

namespace Server

open Queue

variable {m n : ℕ} {s s' : State m n} {c : ConnId}

/-! ## What a step of the server brings and writes -/

theorem Call.length_read_lt {input : Sock} {call : Call} (h : (read c input).1 = some call) :
    (read c input).2.input.length < input.input.length := by
  unfold read at h ⊢
  split at h
  · next call' t hbody =>
    obtain ⟨id, u, hid, hrest⟩ := of_bind_ok hbody
    have hreads : Reads (Writable.readString >>= fun className => Writable.readString >>=
        fun methodName => readCount >>= fun size => readArgs size >>= fun params =>
          Pure.pure ({ connection := c, callId := id, className, methodName, params } : Call)) :=
      Reads.readString.bind fun _ => Reads.readString.bind fun _ =>
        Reads.readCount.bind fun _ => (reads_readArgs _).bind fun _ => .pure _
    have hle := (hreads.ok hrest).length_le
    have hlen := congrArg (fun s : Sock => s.input.length) (of_readInt_ok hid)
    rw [Sock.input_unread, List.length_append, length_intBytes] at hlen
    show t.input.length < _
    omega
  · cases h

theorem State.income_of_readCall {r : Fin m} {input : Sock}
    (h : s.step (.readCall r input) = some s') (hpc : (s.listener.readers r).pc = .reading c) :
    s'.income = s.income ∨
      s'.income = s.income + (m + 40) ∧ ∃ call, (Call.read c input).1 = some call := by
  cases (moves_of_step h).2 with
  | readCall hpc' hcall =>
    rw [hpc] at hpc'
    cases hpc'
    refine .inr ⟨?_, _, hcall⟩
    show (m + 6) * s.listener.accepted + (m + 40) * (s.pipe.lastCall + 1) = _
    rw [Nat.mul_succ, ← Nat.add_assoc]
    rfl
  | readFails => exact .inl rfl
  | abort => exact .inl rfl

theorem Connection.length_pass_le {call call' : Call} {io : SockOut} {bytes : Bytes} {pass : Pass}
    (h : call.Underway) (hio : io.Fits call.left)
    (hpass : processResponse call io = (bytes, call', pass)) :
    bytes.length ≤ call.frame.length := by
  have hle := h.inRange.pos_le
  have hlen : call.wireFrame.length = 12 + call.strVal.length :=
    Call.length_wireFrame (by rw [h.found]; exact hle)
  rw [Call.length_frame]
  cases hworks : io.works with
  | true =>
    have hopening : call.opening.length ≤ 12 := by
      unfold Call.opening
      split <;> simp
    have hfits : io.Fits (call.strVal.drop call.pos.toNat).length := by
      rw [List.length_drop, ← h.inRange.left_eq]
      exact hio
    have htaken := (SockOut.length_taken hfits hworks).1
    rw [List.length_drop] at htaken
    have hp := processResponse_takes h.inRange hworks rfl
    have hbytes : bytes = call.opening ++ io.taken (call.strVal.drop call.pos.toNat) := by
      rw [hp] at hpass
      split at hpass <;> cases hpass <;> rfl
    rw [hbytes, List.length_append]
    omega
  | false =>
    cases io with
    | fails k =>
      obtain ⟨bytes', hp, hprefix⟩ := processResponse_fails h.inRange k
      rw [hp] at hpass
      cases hpass
      have hpre := hprefix.length_le
      rw [List.length_drop] at hpre
      omega
    | accepts w => cases hworks
    | stale bytes => cases hworks

/-- A reply has sixteen bytes. -/
theorem Computed.length_frame (h : Computed s.pipe) {k : CallId} (hk : (s.pipe.place k).Valued) :
    (s.pipe.calls k).frame.length = 16 := by
  have hreply := h k hk
  unfold Request.reply at hreply
  obtain ⟨v, -, hframe⟩ := Option.map_eq_some_iff.mp hreply
  rw [← hframe, List.length_append, List.length_append, length_intBytes, length_intBytes,
    length_sizeBytes]

/-- **A step writes sixteen bytes at most** on a connection. -/
theorem length_drop_out_le {a : Action m n} (h : s.step a = some s') (hp : Placed s)
    (hr : Recorded s) (hcomp : Computed s.pipe) (c : ConnId) :
    ((s'.pipe.out c).drop (s.pipe.out c).length).length ≤ 16 := by
  have hnone : ∀ {out : List (CallId × LittleEndian.Byte)}, out = s.pipe.out c →
      (out.drop (s.pipe.out c).length).length ≤ 16 := by
    rintro _ rfl
    rw [List.drop_length]
    exact Nat.zero_le _
  have hwritten : ∀ {t : Thread n} {c' : ConnId} {k : CallId} {io : SockOut} {bytes : Bytes}
      {call : Call} {pass : Pass}, s.pipe.pc t = .popped c' k → s.Writes c' k io →
      Connection.processResponse (s.pipe.calls k) io = (bytes, call, pass) →
      ((Function.update s.pipe.out c' (s.pipe.out c' ++ bytes.map fun b => (k, b)) c).drop
        (s.pipe.out c).length).length ≤ 16 := by
    intro t c' k io bytes call pass hpc hio hpass
    have hk : s.At k (.hand t (.popped c')) := State.at_hand hpc rfl
    have hst : (s.pipe.calls k).Ready c' _ _ := hp.stage hr hk
    have hlen := Connection.length_pass_le hst.underway hio.1 hpass
    rw [hcomp.length_frame (by rw [hp.coherent.place_eq hk]; trivial)] at hlen
    by_cases hc : c = c'
    · rw [hc, Function.update_self, List.drop_left, List.length_map]
      exact hlen
    · rw [Function.update_of_ne hc]
      exact hnone rfl
  cases (State.moves_of_step h).2 with
  | again hpc hlock hio hpass => exact hwritten hpc hio hpass
  | sent hpc hlock hio hpass => exact hwritten hpc hio hpass
  | writeFails hpc hlock hio hpass => exact hwritten hpc hio hpass
  | _ => exact hnone rfl

end Server

/-! ## The work of a network -/

namespace Network

open Client (Session)
open Client.Session (CallerPc ReceiverPc)

variable {m n : ℕ} {c : Server.ConnId} {s s' : Network m n}

/-- What the thread of a call has still to do, where a byte to the server is worth `g` steps. -/
def callerWork (g : ℕ) (param : Writable) : CallerPc → ℕ
  | .unmade => 0
  | .made => g * (4 + param.write.length) + 3
  | .added => g * (4 + param.write.length) + 2
  | .sent => 1
  | .returned => 0

/-- What the receiver thread has to do; each id that it reads frees four bytes. -/
def receiverWork : ReceiverPc → ℕ
  | .waiting => 3
  | .receiving => 2
  | .received _ => 5
  | .found _ _ => 4

def sessionWork (g : ℕ) (t : Session) : ℕ :=
  ∑ k ∈ Finset.range t.made, callerWork g (t.call k).param (t.caller k) +
    receiverWork t.receiver + t.inbox.input.length + if t.aborted then 0 else 1

/-- The steps that a byte of a request is worth. -/
def price (m : ℕ) : ℕ := 17 * (m + 40)

def work (s : Network m n) : ℕ :=
  17 * s.server.work + price m * s.upstream.length + sessionWork (price m) s.client

/-- The steps of the client and the server for which no new call is made and nothing has to come
from another client. -/
def Unaided (c : Server.ConnId) (s : Network m n) : Action m n → Prop
  | .client (.newCall _ _) => False
  | .client _ => True
  | .server a => Server.Unaided s.server a ∨ a = .readable (s.server.listener.endpoint c) ∨
    (s.server.input c a).isSome

instance (c : Server.ConnId) (s : Network m n) : DecidablePred (Unaided c s)
  | .client (.newCall _ _) => .isFalse id
  | .client (.addCall _) | .client (.sendCall _) | .client .request | .client (.respond _ _)
  | .client .waitForWork | .client .recvId | .client .lookup | .client .recvValue
  | .client (.finish _) => .isTrue trivial
  | .server a => inferInstanceAs (Decidable (_ ∨ a = .readable (s.server.listener.endpoint c) ∨
      (s.server.input c a).isSome))

/-! ## The client -/

section Client

variable {t t' : Session} {g : ℕ} {k : Client.CallId}

/-- Only calls that were made have a thread. -/
def Counted (t : Session) : Prop := ∀ k, t.caller k ≠ .unmade → k < t.made

theorem sessionWork_of_caller (t' : Session) {pc : CallerPc} (hk : k < t.made)
    (hmade : t'.made = t.made) (hreceiver : t'.receiver = t.receiver)
    (hinbox : t'.inbox = t.inbox) (haborted : t'.aborted = t.aborted)
    (hparam : ∀ j, (t'.call j).param = (t.call j).param)
    (hcaller : t'.caller = Function.update t.caller k pc) :
    sessionWork g t' + callerWork g (t.call k).param (t.caller k) =
      sessionWork g t + callerWork g (t.call k).param pc := by
  have hother : ∀ j ≠ k, callerWork g (t'.call j).param (t'.caller j) =
      callerWork g (t.call j).param (t.caller j) := fun j hj => by
    rw [hparam, hcaller, Function.update_of_ne hj]
  have hsum := Count.sum_add_of_ne (Finset.mem_range.mpr hk) hother
  rw [hparam, hcaller, Function.update_self] at hsum
  unfold sessionWork
  rw [hmade, hreceiver, hinbox, haborted, hcaller]
  omega

theorem sessionWork_of_receiver (hmade : t'.made = t.made) (hcaller : t'.caller = t.caller)
    (hparam : ∀ j, (t'.call j).param = (t.call j).param) (haborted : t'.aborted = t.aborted)
    (hlt : receiverWork t'.receiver + t'.inbox.input.length <
      receiverWork t.receiver + t.inbox.input.length) : sessionWork g t' < sessionWork g t := by
  unfold sessionWork
  rw [hmade, hcaller, haborted]
  simp only [hparam]
  omega

theorem length_recvValue_le {call : Client.Call} {o : Option Client.Call} {inbox inbox' : Sock}
    (h : Client.Connection.recvValue call inbox = (o, inbox')) :
    inbox'.input.length ≤ inbox.input.length := by
  have hafter := (Writable.readFields_after (f := paramLoop)
    (fun n t => readParams_after (t.input.length + 1) n t)
    (Method.getNewInstance inbox.fresh call.valueClass) inbox.make).length_le
  unfold Client.Connection.recvValue at h
  split at h
  all_goals
    next heq =>
      rw [heq] at hafter
      cases h
      exact hafter

theorem Counted.of_update (h : Counted t) {pc : CallerPc} (hk : k < t'.made)
    (hmade : t.made ≤ t'.made) (hcaller : t'.caller = Function.update t.caller k pc) :
    Counted t' := by
  intro j hj
  by_cases heq : j = k
  · rw [heq]
    exact hk
  · rw [hcaller, Function.update_of_ne heq] at hj
    exact (h j hj).trans_le hmade

theorem Counted.of_moves {a : Session.Action} (hm : Client.Session.Moves t a t') (h : Counted t) :
    Counted t' := by
  cases hm with
  | newCall => exact h.of_update (k := t.made) (Nat.lt_succ_self _) (Nat.le_succ _) rfl
  | @addCall k hk => exact h.of_update (h k (by rw [hk]; simp)) le_rfl rfl
  | @sendCall k hk => exact h.of_update (h k (by rw [hk]; simp)) le_rfl rfl
  | @finish k hk => exact h.of_update (h k (by rw [hk]; simp)) le_rfl rfl
  | _ => exact h

theorem param_of_moves {a : Session.Action} (hm : Client.Session.Moves t a t')
    (ha : ∀ id param, a ≠ .newCall id param) (j : Client.CallId) :
    (t'.call j).param = (t.call j).param := by
  have hupdate : ∀ {k : Client.CallId} {call : Client.Call}, call.param = (t.call k).param →
      (Function.update t.call k call j).param = (t.call j).param := by
    intro k call hcall
    rw [Function.update_apply]
    split
    · next hj => rw [hj]; exact hcall
    · rfl
  cases hm with
  | newCall => exact absurd rfl (ha _ _)
  | addCall => exact hupdate rfl
  | @recvValue id k call inbox hpc hval =>
    obtain ⟨val, rfl⟩ := Client.Connection.of_recvValue (congrArg Prod.fst hval)
    refine hupdate ?_
    unfold Client.Call.setValue
    split <;> rfl
  | _ => rfl

/-- The steps of a session that are neither a new call nor on the wire. -/
def Silent : Session.Action → Prop
  | .newCall _ _ => False
  | .sendCall _ => False
  | .request => False
  | .respond _ _ => False
  | _ => True

theorem sessionWork_of_moves {a : Session.Action} (hm : Client.Session.Moves t a t')
    (ha : Silent a) (halive : t.aborted = false) (h : Counted t) :
    sessionWork g t' < sessionWork g t := by
  have hparam := param_of_moves hm (by rintro id param rfl; exact ha)
  cases hm with
  | newCall => exact ha.elim
  | sendCall => exact ha.elim
  | request => exact ha.elim
  | respond => exact ha.elim
  | @addCall k hk =>
    have hwork := sessionWork_of_caller (g := g) (t.register k)
      (h k (by rw [hk]; simp)) rfl rfl rfl rfl hparam rfl
    rw [hk, callerWork, callerWork] at hwork
    omega
  | waitForWork hpc =>
    refine sessionWork_of_receiver rfl rfl (fun _ => rfl) rfl ?_
    rw [hpc]
    show 2 + t.inbox.input.length < 3 + _
    omega
  | @recvId id inbox hpc hin =>
    refine sessionWork_of_receiver rfl rfl (fun _ => rfl) rfl ?_
    rw [hpc, hin, Sock.input_unread, List.length_append, length_intBytes]
    show 5 + inbox.input.length < 2 + _
    omega
  | lookup hpc hk =>
    refine sessionWork_of_receiver rfl rfl (fun _ => rfl) rfl ?_
    rw [hpc]
    show 4 + t.inbox.input.length < 5 + _
    omega
  | lookupFails hpc hk =>
    unfold sessionWork
    rw [halive]
    exact Nat.lt_succ_self _
  | @recvValue id k call inbox hpc hval =>
    have hle := length_recvValue_le hval
    refine sessionWork_of_receiver rfl rfl hparam rfl ?_
    rw [hpc]
    show 3 + inbox.input.length < 4 + _
    omega
  | @recvFails id k inbox hpc hval =>
    have hle := length_recvValue_le hval
    refine sessionWork_of_receiver rfl rfl (fun _ => rfl) rfl ?_
    rw [hpc]
    show 3 + inbox.input.length < 4 + _
    omega
  | @finish k hk hdone =>
    have hwork := sessionWork_of_caller (g := g) (t.setCaller k .returned)
      (h k (by rw [hk]; simp)) rfl rfl rfl rfl (fun _ => rfl) rfl
    rw [hk, callerWork, callerWork] at hwork
    omega

/-- A request that goes out was work of its thread, and is work of the server then. -/
theorem sessionWork_send (hk : t.caller k = .added) (h : Counted t) :
    g * (t.call k).write.length + sessionWork g (t.setCaller k .sent) < sessionWork g t := by
  have hwork := sessionWork_of_caller (g := g) (t.setCaller k .sent)
    (h k (by rw [hk]; simp)) rfl rfl rfl rfl (fun _ => rfl) rfl
  have hwrite : (t.call k).write.length = 4 + (t.call k).param.write.length := by
    rw [Client.Call.write, List.length_append, length_intBytes]
  rw [hk, callerWork, callerWork, ← hwrite] at hwork
  omega

/-- What a step of the client is: one of the session that it has, or a request that goes out. -/
theorem of_stepClient {a : Session.Action} (hs : s.stepClient a = some s') :
    (∃ client, s.client.step a = some client ∧ s' = { s with client } ∧
      (Silent a ∨ ∃ id param, a = .newCall id param)) ∨
    ∃ k, s.client.caller k = .added ∧ s' = { s with
      client := s.client.setCaller k .sent
      upstream := s.upstream ++ (s.client.call k).write } := by
  have hmap : (s.client.step a).map (fun client => { s with client }) = some s' →
      ∃ client, s.client.step a = some client ∧ s' = { s with client } := by
    intro hs
    obtain ⟨client, hstep, rfl⟩ := Option.map_eq_some_iff.mp hs
    exact ⟨client, hstep, rfl⟩
  cases a with
  | request => cases hs
  | respond id bs => cases hs
  | sendCall k =>
    simp only [stepClient] at hs
    split at hs
    · next hk => cases hs; exact .inr ⟨k, hk.2, rfl⟩
    · cases hs
  | newCall id param =>
    obtain ⟨client, hstep, heq⟩ := hmap hs
    exact .inl ⟨client, hstep, heq, .inr ⟨id, param, rfl⟩⟩
  | _ =>
    obtain ⟨client, hstep, heq⟩ := hmap hs
    exact .inl ⟨client, hstep, heq, .inl trivial⟩

theorem Counted.of_stepClient {a : Session.Action} (h : Counted s.client)
    (hs : s.stepClient a = some s') : Counted s'.client := by
  obtain ⟨client, hstep, rfl, -⟩ | ⟨k, hk, rfl⟩ := Network.of_stepClient hs
  · exact h.of_moves (Client.Session.moves_of_step hstep)
  · exact h.of_update (h k (by rw [hk]; simp)) le_rfl rfl

theorem work_stepClient {a : Session.Action} (h : Counted s.client)
    (ha : Unaided c s (.client a)) (hs : s.stepClient a = some s') : s'.work < s.work := by
  obtain ⟨client, hstep, rfl, hsilent | ⟨id, param, rfl⟩⟩ | ⟨k, hk, rfl⟩ := of_stepClient hs
  · have halive : s.client.aborted = false := by
      unfold Session.step at hstep
      split at hstep
      · cases hstep
      · next haborted => simpa using haborted
    have hlt := sessionWork_of_moves (g := price m) (Client.Session.moves_of_step hstep) hsilent
      halive h
    show 17 * s.server.work + price m * s.upstream.length + sessionWork (price m) client < s.work
    unfold work
    omega
  · exact ha.elim
  · have hlt := sessionWork_send (g := price m) hk h
    show 17 * s.server.work + price m * (s.upstream ++ (s.client.call k).write).length +
      sessionWork (price m) (s.client.setCaller k .sent) < s.work
    unfold work
    rw [List.length_append, Nat.mul_add]
    omega

end Client

/-! ## The server -/

theorem sessionWork_deliver (g : ℕ) (t : Session) (w : Bytes) :
    sessionWork g (deliver t w) = sessionWork g t + w.length := by
  show ∑ k ∈ Finset.range t.made, callerWork g (t.call k).param (t.caller k) +
    receiverWork t.receiver + (t.inbox.input ++ w).length + (if t.aborted then 0 else 1) = _
  unfold sessionWork
  rw [List.length_append]
  omega

/-- What brings nothing: a step that is unaided, and the next read of the connection. -/
theorem income_of_input_eq_none {a : Server.Action m n} {server : Server.State m n}
    (ha : Unaided c s (.server a)) (hinput : s.server.input c a = none)
    (hs : s.server.step a = some server) : server.income = s.server.income := by
  obtain ha | rfl | hsome := ha
  · exact Server.income_of_unaided ha hs
  · cases (Server.State.moves_of_step hs).2 <;> rfl
  · rw [hinput] at hsome
    cases hsome

/-- **A step of the server** leaves less to do, with the bytes that it reads and those that it
writes. -/
theorem work_stepServer {a : Server.Action m n} (h : (Server.system m n).Reachable s.server)
    (ha : Unaided c s (.server a)) (hs : s.stepServer c a = some s') : s'.work < s.work := by
  unfold stepServer at hs
  split at hs
  · cases hs
  next server hserver =>
  have hpay := Server.pays m n s.server a server h trivial hserver
  have hlen := Server.length_drop_out_le hserver (Server.placed_of_reachable h)
    (Server.recorded_of_reachable h) (Server.computed_of_reachable h) c
  have hclient := sessionWork_deliver (price m) s.client (wrote c s.server server)
  have hwrote : (wrote c s.server server).length ≤ 16 := by
    unfold wrote
    rw [List.length_map]
    exact hlen
  split at hs
  · next hinput =>
    have hincome := income_of_input_eq_none ha hinput hserver
    cases hs
    show 17 * server.work + price m * s.upstream.length +
      sessionWork (price m) (deliver s.client (wrote c s.server server)) < s.work
    unfold work
    omega
  · next input hinput =>
    split at hs
    · next hc =>
      cases hs
      show 17 * server.work + price m * (Server.Call.read c input).2.input.length +
        sessionWork (price m) (deliver s.client (wrote c s.server server)) < s.work
      unfold work
      have hle := (Server.Call.read_after c input).length_le
      rw [hc.1] at hle
      have hmul := Nat.mul_le_mul_left (price m) hle
      unfold Server.State.input at hinput
      split at hinput
      · next r sock =>
        split at hinput
        · next hpc =>
          cases hinput
          obtain hincome | ⟨hincome, call, hcall⟩ := Server.State.income_of_readCall hserver hpc
          · omega
          · -- the request pays for the call
            have hlt := Server.Call.length_read_lt hcall
            rw [hc.1] at hlt
            have hmul := Nat.mul_le_mul_left (price m) (Nat.succ_le_of_lt hlt)
            rw [Nat.mul_succ] at hmul
            have hprice : price m = 17 * (m + 40) := rfl
            omega
        · cases hinput
      · cases hinput
    · cases hs

/-! ## The runs -/

theorem counted_of_reachable (h : (network m n c).Reachable s) : Counted s.client := by
  refine h.invariant (I := fun s => Counted s.client) ?_ fun s a s' hI _ hs => ?_
  · rintro _ ⟨ep, fresh, memory, memory', rfl⟩ k hk
    exact absurd rfl hk
  cases a with
  | client a => exact hI.of_stepClient hs
  | server a =>
    obtain ⟨server, upstream, -, rfl⟩ := of_stepServer hs
    exact hI

/-- **Every step leaves less to do** than there was, if no call is made and nothing comes from
another client. -/
theorem pays (m n : ℕ) (c : Server.ConnId) :
    (network m n c).Pays (Unaided c) work fun _ => 0 := by
  intro s a s' h ha hs
  show s'.work + 0 < s.work + 0
  cases a with
  | client a => exact work_stepClient (counted_of_reachable h) ha hs
  | server a => exact work_stepServer (server_of_reach h) ha hs

/-- **The threads come to an end**, however they are scheduled: after no more steps than there is
work, and from every state they can be run to the end. -/
theorem ends_of_reachable (h : (network m n c).Reachable s) :
    (∀ as s', (network m n c).run (Unaided c) s as = some s' → as.length + s'.work ≤ s.work) ∧
    ∃ as s', (network m n c).run (Unaided c) s as = some s' ∧
      (network m n c).Still (Unaided c) s' :=
  ⟨fun _ _ hrun => (pays m n c).length_run h hrun,
    (pays m n c).exists_still (fun _ _ _ _ _ => rfl) h⟩

/-- Two requests are on their way, and the server has not read them. -/
theorem ends_of_reachable_concurrent : ∃ s,
    (network 2 2 0).run (Proper 0) starting (concurrent.take 6) = some s ∧
    s.client.caller 0 = .sent ∧ s.client.caller 1 = .sent ∧
    (∀ as s', (network 2 2 0).run (Unaided 0) s as = some s' → as.length + s'.work ≤ s.work) ∧
    ∃ as s', (network 2 2 0).run (Unaided 0) s as = some s' ∧
      (network 2 2 0).Still (Unaided 0) s' := by
  have hrun : ((network 2 2 0).run (Proper 0) starting
      (concurrent.take 6)).any
      (fun s => s.client.caller 0 = .sent ∧ s.client.caller 1 = .sent) = true := by
    decide +kernel
  obtain ⟨s, hs, hfacts⟩ := (Option.any_eq_true _ _).mp hrun
  obtain ⟨h0, h1⟩ := of_decide_eq_true hfacts
  have hreach : (network 2 2 0).Reach (Proper 0) s := .run (.init ⟨_, _, _, _, rfl⟩) hs
  exact ⟨s, hs, h0, h1, ends_of_reachable hreach.reachable⟩

end Network

end PRpc
