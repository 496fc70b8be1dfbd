import PRpc.Server.Entries
import PRpc.Termination

/-!
# Every call returns

A call of a client does not hang. If the threads of the client and of the server have come to an
end, with the server alive, `_mutex_conns` free and the connection still known to the listener, then
every thread of the client that made a call has returned (`returned_of_still`). The requests that
were sent are read, since the connection is registered again after each; the server at rest has
answered those that it has read (`Server.Serving.of_finished`); and the receiver thread has read
every answer that has arrived (`Linked.receives`).
-/

namespace PRpc

namespace Client.Session

open Function

/-! ## Where an id is -/

/-- The id of a call that was sent and is not done is in flight. -/
def Tracked (s : Session) : Prop :=
  ∀ k, s.caller k = .sent → (s.call k).done = false → (s.call k).id ∈ s.inFlight

variable {s s' : Session} {a : Action}

theorem mem_inFlight {id : CInt} : id ∈ s.inFlight ↔
    id ∈ s.requests.map requestId ∨ id ∈ s.pending ∨ id ∈ s.frames.map Prod.fst := by
  unfold inFlight
  rw [List.mem_append, List.mem_append]

namespace Tracked

theorem of_inFlight (h : Tracked s) (hin : ∀ id, id ∈ s.inFlight → id ∈ s'.inFlight)
    (hsent : ∀ k, s'.caller k = .sent → s.caller k = .sent ∧ s'.call k = s.call k) :
    Tracked s' := by
  intro k hk hdone
  obtain ⟨hk', hcall⟩ := hsent k hk
  rw [hcall] at hdone ⊢
  exact hin _ (h k hk' hdone)

theorem of_update (h : Tracked s) {k : CallId} (pc : CallerPc) (hpc : pc ≠ .sent)
    (hin : s'.inFlight = s.inFlight) (hcaller : s'.caller = update s.caller k pc)
    (hcall : ∀ j ≠ k, s'.call j = s.call j) : Tracked s' := by
  refine h.of_inFlight (fun id hid => by rw [hin]; exact hid) fun j hj => ?_
  rw [hcaller, update_apply] at hj
  split at hj
  · exact absurd hj hpc
  · next hne => exact ⟨hj, hcall j hne⟩

end Tracked

theorem Moves.tracked (hm : Moves s a s') (hl : Linked s) (h : Tracked s) : Tracked s' := by
  cases hm with
  | newCall => exact h.of_update .made (by simp) rfl rfl fun j hj => update_of_ne hj ..
  | addCall => exact h.of_update .added (by simp) rfl rfl fun j hj => update_of_ne hj ..
  | @sendCall k hk =>
    intro j hj hdone
    rw [mem_inFlight]
    show (s.call j).id ∈ (s.requests ++ [(s.call k).write]).map requestId ∨ _
    rw [List.map_append, List.map_singleton, requestId_write, List.mem_append, List.mem_singleton]
    by_cases heq : j = k
    · rw [heq]
      exact .inl (.inr rfl)
    · change update s.caller k .sent j = .sent at hj
      rw [update_of_ne heq] at hj
      exact (mem_inFlight.mp (h j hj hdone)).imp_left .inl
  | @request r rest hr =>
    refine h.of_inFlight (fun id hid => ?_) fun _ hk => ⟨hk, rfl⟩
    rw [mem_inFlight, hr, List.map_cons, List.mem_cons] at hid
    rw [mem_inFlight]
    show id ∈ rest.map requestId ∨ id ∈ s.pending ++ [requestId r] ∨ id ∈ s.frames.map Prod.fst
    rw [List.mem_append, List.mem_singleton]
    tauto
  | @respond id bs hid hbs =>
    refine h.of_inFlight (fun i hi => ?_) fun _ hk => ⟨hk, rfl⟩
    rw [mem_inFlight] at hi ⊢
    show i ∈ s.requests.map requestId ∨ i ∈ s.pending.erase id ∨
      i ∈ (s.frames ++ [(id, bs)]).map Prod.fst
    rw [List.map_append, List.map_singleton, List.mem_append, List.mem_singleton]
    by_cases heq : i = id
    · exact .inr (.inr (.inr heq))
    · rw [List.mem_erase_of_ne heq]
      tauto
  | waitForWork => exact h
  | recvId => exact h
  | lookup => exact h
  | lookupFails => exact h
  | @recvValue id k call inbox hpc hval =>
    obtain ⟨bs, rest, _, hf, -, -, -, hval'⟩ := recvValue_eq hl.indexed hl.wired hpc
    rw [hval] at hval'
    cases hval'
    obtain ⟨hid, -⟩ := hl.indexed.of_lookup id k (hl.wired.found id k hpc)
    intro j hj hdone
    by_cases heq : j = k
    · change (update s.call k _ j).done = false at hdone
      rw [heq, update_self] at hdone
      cases hdone
    · have hcall : (s.complete k { s.call k with
          value := some (.int (intOfPayload bs)), done := true } inbox).call j = s.call j :=
        update_of_ne heq ..
      rw [hcall] at hdone ⊢
      -- two calls that were sent have different ids
      have hne : (s.call j).id ≠ id := by
        intro hjid
        have hlookup := hl.indexed.lookup j (by rw [show s.caller j = .sent from hj]; trivial)
        rw [hjid, hl.wired.found id k hpc] at hlookup
        exact heq (Option.some.inj hlookup).symm
      have hin := mem_inFlight.mp (h j hj hdone)
      rw [hf, List.map_cons, List.mem_cons] at hin
      rw [mem_inFlight]
      show _ ∨ _ ∨ (s.call j).id ∈ s.frames.tail.map Prod.fst
      rw [hf]
      exact hin.imp_right (Or.imp_right fun hj => hj.resolve_left hne)
  | recvFails hpc hval =>
    obtain ⟨_, _, _, -, -, -, -, hval'⟩ := recvValue_eq hl.indexed hl.wired hpc
    rw [hval] at hval'
    cases hval'
  | finish => exact h.of_update .returned (by simp) rfl rfl fun _ _ => rfl

theorem tracked_of_reachable (h : session.Reachable s) (hmade : s.made < 2 ^ 31) : Tracked s := by
  refine h.invariant_of (J := fun s => s.made < 2 ^ 31 → Linked s)
    (I := fun s => s.made < 2 ^ 31 → Tracked s) (fun _ hs hlt => linked_of_reachable hs hlt) ?_ ?_
    hmade
  · rintro _ ⟨ep, fresh, memory, rfl⟩ - k hk
    cases hk
  · intro s a s' hJ hI _ hs hlt
    have hm := moves_of_step hs
    have hlt := hm.made_le.trans_lt hlt
    exact hm.tracked (hJ hlt) (hI hlt)

end Client.Session

namespace Server

variable {m n : ℕ} {s : State m n} {c : ConnId}

theorem State.input_of_unaided {a : Action m n} (ha : Unaided s a) : s.input c a = none := by
  cases a with
  | readCall r input => exact ha.elim
  | _ => rfl

/-- A connection that is not registered and not lost waits, at rest, for the bytes of a request,
unless a reader waits for those of another one. -/
theorem State.AtRest.exists_reading (hrest : s.AtRest) (hmutex : s.listener.mutexConns = false)
    {e : Ep} (halive : s.listener.Alive e c) (hpending : e ∉ s.listener.pendingReads)
    (hothers : ∀ r c', (s.listener.readers r).pc = .reading c' → c' = c) :
    ∃ r, (s.listener.readers r).pc = .reading c := by
  obtain he | ⟨retryTimes, hpc⟩ | ⟨r, hr⟩ := halive
  · exact absurd he hpending
  · rw [hrest.listener] at hpc
    cases hpc
  · have hreader := hrest.readers r
    unfold Reader.AtRest at hreader
    refine ⟨r, ?_⟩
    cases hpc : (s.listener.readers r).pc with
    | idle =>
      rw [hpc] at hreader hr
      obtain hmem | hconn := hr
      · rw [show (s.listener.readers r).bqConn = [] from hreader] at hmem
        exact absurd hmem List.not_mem_nil
      · cases hconn
    | reading c' => rw [hothers r c' hpc]
    | failed c' =>
      rw [hpc, hmutex] at hreader
      cases hreader
    | read c' k => rw [hpc] at hreader; exact hreader.elim
    | pushed c' => rw [hpc] at hreader; exact hreader.elim

end Server

namespace Network

variable {m n : ℕ} {c : Server.ConnId} {s : Network m n}

section Still

variable (hstill : ∀ a, Unaided c s (.server a) → s.stepServer c a = none)

include hstill

theorem server_still : (Server.system m n).Still Server.Unaided s.server := by
  intro a ha
  have hnone : s.stepServer c a = none := hstill a (.inl ha)
  unfold stepServer at hnone
  rw [Server.State.input_of_unaided ha] at hnone
  show s.server.step a = none
  cases hs : s.server.step a with
  | none => rfl
  | some server => rw [hs] at hnone; cases hnone

/-- The connection is not registered, or it would be readable. -/
theorem endpoint_notMem (hrun : s.server.status = .running) (hrest : s.server.AtRest)
    (hmutex : s.server.listener.mutexConns = false) :
    s.server.listener.endpoint c ∉ s.server.listener.pendingReads := by
  intro he
  have hnone : s.stepServer c (.readable (s.server.listener.endpoint c)) = none :=
    hstill _ (.inr (.inl rfl))
  have hread : s.server.listener.handleRead (s.server.listener.endpoint c) ≠ none := by
    unfold Server.Listener.handleRead
    rw [if_pos ⟨hrest.listener, he, hmutex⟩]
    split <;> simp
  obtain ⟨l, hl⟩ := Option.ne_none_iff_exists'.mp hread
  have hs : s.server.step (.readable (s.server.listener.endpoint c)) =
      some (s.server.setListener l) := by
    rw [Server.State.step_eq_act hrun]
    show (s.server.listener.handleRead _).map _ = _
    rw [hl, Option.map_some]
  unfold stepServer at hnone
  rw [hs] at hnone
  cases hnone

/-- **What the client has written is read** by the reader that waits for it. -/
theorem upstream_eq_nil (hrun : s.server.status = .running) {r : Fin m}
    (hpc : (s.server.listener.readers r).pc = .reading c) : s.upstream = [] := by
  by_contra hne
  let input : Sock := ⟨s.upstream, 0, s.memory, 0, 0⟩
  have hinput := Server.State.input_of_reading input hpc
  have hnone : s.stepServer c (.readCall r input) = none :=
    hstill _ (.inr (.inr (by rw [hinput]; rfl)))
  have hread : s.server.readCall r input ≠ none := by
    unfold Server.State.readCall
    rw [hpc]
    dsimp only
    split <;> simp
  obtain ⟨server, hserver⟩ := Option.ne_none_iff_exists'.mp hread
  have hs : s.server.step (.readCall r input) = some server := by
    rw [Server.State.step_eq_act hrun]
    exact hserver
  unfold stepServer at hnone
  rw [hs, hinput] at hnone
  dsimp only at hnone
  rw [if_pos ⟨rfl, rfl, hne⟩] at hnone
  cases hnone

end Still

open Client (Session session)
open Client.Session
open Server (t₀ t₁)

variable {t : Session} {svc : Service Request} {rest : Bytes} {reqs : List Request}

/-- **The receiver thread goes on** while there is an answer that it has not read: all of it has
arrived, since the server has nothing left of a reply. -/
theorem Joined.receives (h : Joined c s t svc [] reqs) (hl : Linked t) (hf : t.frames ≠ []) :
    s.client.act t.receiver.next ≠ none := by
  have hinbox : t.inbox.input = s.client.inbox.input := by rw [h.inbox, List.append_nil]
  have hsome := hl.receives hf
  have hact : session.step t t.receiver.next = t.act t.receiver.next :=
    if_neg (by rw [hl.answered.alive]; exact Bool.false_ne_true)
  rw [hact] at hsome
  have hreceiver := h.receiver_eq
  cases hpc : t.receiver with
  | waiting =>
    rw [hpc] at hreceiver hsome
    simp only [ReceiverPc.next, act, hpc, h.conn_eq] at hsome
    simp only [ReceiverPc.next, act, ← hreceiver]
    split at hsome
    · next hc => simp [hc.2]
    · cases hsome
  | receiving =>
    rw [hpc] at hreceiver hsome
    simp only [ReceiverPc.next, act, hpc] at hsome
    simp only [ReceiverPc.next, act, ← hreceiver]
    split at hsome
    · next id inbox _ hread =>
      have hin : s.client.inbox.input = intBytes id ++ inbox.input := by
        rw [← hinbox, of_readInt_ok hread, Sock.input_unread]
      have hread' := readInt_unread id { s.client.inbox with input := inbox.input }
      rw [← Sock.eq_unread hin] at hread'
      simp [hread']
    · cases hsome
  | received id =>
    rw [hpc] at hreceiver
    simp only [ReceiverPc.next, act, ← hreceiver]
    split <;> simp
  | found id k =>
    rw [hpc] at hreceiver hsome
    simp only [ReceiverPc.next, act, hpc] at hsome
    simp only [ReceiverPc.next, act, ← hreceiver]
    split at hsome
    · next harrived =>
      have harrived' : s.client.Arrived := by
        unfold Arrived at harrived ⊢
        rwa [hinbox] at harrived
      rw [if_pos harrived']
      split <;> simp
    · cases hsome

/-- What the connection looks like to the client when the server cannot go on and has read all that
was written: it is answered, and the answers have arrived. -/
theorem Joined.drained_of_finished (h : Joined c s t svc rest reqs)
    (hserver : (Server.system m n).Reachable s.server) (hfinished : Server.Finished s.server)
    (hmutex : s.server.listener.mutexConns = false) (hup : s.upstream = []) :
    rest = [] ∧ t.requests = [] ∧ t.pending = [] := by
  obtain ⟨hpending, rfl⟩ := h.serving.of_finished hserver hfinished hmutex
  refine ⟨rfl, ?_, ?_⟩
  · rw [h.upstream] at hup
    cases reqs with
    | nil => exact h.requests
    | cons r reqs =>
      have hlen := congrArg List.length hup
      rw [List.flatMap_cons, List.length_append, Request.bytes, Client.Call.write,
        List.length_append, length_intBytes, List.length_nil] at hlen
      omega
  · have hperm := h.pending
    rw [hpending, List.map_nil] at hperm
    exact hperm.eq_nil

theorem Joined.drained (h : Joined c s t svc rest reqs)
    (hserver : (Server.system m n).Reachable s.server) (hm : 0 < m) (hn : 0 < n)
    (hrun : s.server.status = .running) (hmutex : s.server.listener.mutexConns = false)
    (halive : s.server.listener.Alive (s.server.listener.endpoint c) c)
    (hothers : ∀ r c', (s.server.listener.readers r).pc = .reading c' → c' = c)
    (hstill : ∀ a, Unaided c s (.server a) → s.stepServer c a = none) :
    rest = [] ∧ t.requests = [] ∧ t.pending = [] := by
  have hfinished := Server.finished_of_still hserver hm hn hrun (server_still hstill)
  have hrest := hfinished.atRest
  obtain ⟨r, hr⟩ := hrest.exists_reading hmutex halive (endpoint_notMem hstill hrun hrest hmutex)
    hothers
  exact h.drained_of_finished hserver hfinished hmutex (upstream_eq_nil hstill hrun hr)

theorem Joined.frames_eq_nil (h : Joined c s t svc [] reqs) (hl : Linked t)
    (hstill : ∀ a, Unaided c s (.client a) → s.stepClient a = none) : t.frames = [] := by
  have halive : s.client.aborted = false := by
    have hown := congrArg Session.aborted h.own
    exact hown.symm.trans hl.answered.alive
  by_contra hf
  have hne := h.receives hl hf
  have hnone : s.stepClient t.receiver.next = none := hstill _ (by cases t.receiver <;> trivial)
  have hclient : s.client.step t.receiver.next = none := by
    unfold stepClient at hnone
    cases hpc : t.receiver <;> rw [hpc] at hnone <;> exact Option.map_eq_none_iff.mp hnone
  unfold Session.step at hclient
  rw [halive, if_neg Bool.false_ne_true] at hclient
  exact hne hclient

/-- What a client and a server look like when nobody can go on: the client's threads wait, and
nothing is on the way or in the server. -/
theorem Joined.settled (h : Joined c s t svc rest reqs) (hl : Linked t)
    (hserver : (Server.system m n).Reachable s.server) (hm : 0 < m) (hn : 0 < n)
    (hrun : s.server.status = .running) (hmutex : s.server.listener.mutexConns = false)
    (halive : s.server.listener.Alive (s.server.listener.endpoint c) c)
    (hothers : ∀ r c', (s.server.listener.readers r).pc = .reading c' → c' = c)
    (hstill : (network m n c).Still (Unaided c) s) : t.inFlight = [] := by
  obtain ⟨rfl, hrequests, hpending⟩ := h.drained hserver hm hn hrun hmutex halive hothers
    fun a => hstill (.server a)
  have hframes := h.frames_eq_nil hl fun a => hstill (.client a)
  unfold inFlight
  rw [hrequests, hpending, hframes]
  rfl

theorem Joined.returned (h : Joined c s t svc rest reqs) (ht : session.Reachable t)
    (hsettled : t.inFlight = []) (hstill : ∀ a, Unaided c s (.client a) → s.stepClient a = none)
    (k : Client.CallId) (hk : s.client.caller k ≠ .unmade) :
    s.client.caller k = .returned ∧ OwnResult (s.client.call k) := by
  have hl := linked_of_reachable ht h.made
  have halive : s.client.aborted = false := by
    have hown := congrArg Session.aborted h.own
    exact hown.symm.trans hl.answered.alive
  -- a step that a thread of the client could take
  have hstuck : ∀ {a client}, Unaided c s (.client a) → s.client.act a = some client →
      s.stepClient a ≠ (s.client.step a).map fun client => { s with client } := by
    intro a client ha hact hmap
    have hnone : s.stepClient a = none := hstill a ha
    rw [hmap] at hnone
    unfold Session.step at hnone
    rw [halive, if_neg Bool.false_ne_true, hact] at hnone
    cases hnone
  have hreturned : s.client.caller k = .returned := by
    cases hpc : s.client.caller k with
    | unmade => exact absurd hpc hk
    | made => exact absurd rfl (hstuck (a := .addCall k) trivial (if_pos hpc))
    | added =>
      have hnone : s.stepClient (.sendCall k) = none := hstill (.sendCall k) trivial
      simp only [stepClient] at hnone
      rw [if_pos ⟨halive, hpc⟩] at hnone
      cases hnone
    | sent =>
      by_cases hdone : (s.client.call k).done = true
      · exact absurd rfl (hstuck (a := .finish k) trivial (if_pos ⟨hpc, hdone⟩))
      · -- its id would be on the way
        rw [← h.caller_eq] at hpc
        rw [← h.call_eq] at hdone
        have hin := tracked_of_reachable ht h.made k hpc (by simpa using hdone)
        rw [hsettled] at hin
        exact absurd hin List.not_mem_nil
    | returned => rfl
  refine ⟨hreturned, h.ownResult hl ?_⟩
  rw [← h.call_eq]
  exact done_of_returned ht h.made k (by rw [h.caller_eq, hreturned])

/-- **No call hangs**: when the threads of the client and of the server cannot go on, every thread
that made a call has returned, with the result of its own request. -/
theorem returned_of_still (hm : 0 < m) (hn : 0 < n) (h : (network m n c).Reach (Proper c) s)
    (hrun : s.server.status = .running) (hmutex : s.server.listener.mutexConns = false)
    (halive : s.server.listener.Alive (s.server.listener.endpoint c) c)
    (hothers : ∀ r c', (s.server.listener.readers r).pc = .reading c' → c' = c)
    (hstill : (network m n c).Still (Unaided c) s) (k : Client.CallId)
    (hk : s.client.caller k ≠ .unmade) :
    s.client.caller k = .returned ∧ OwnResult (s.client.call k) := by
  obtain ⟨t, svc, rest, reqs, ht, hj⟩ := joined_of_reach h
  have hsettled := hj.settled (linked_of_reachable ht hj.made) (server_of_reach h) hm hn hrun hmutex
    halive hothers hstill
  exact hj.returned ht hsettled (fun a => hstill (.client a)) k hk

/-! ## A run to the end -/

/-- The server at rest goes on only with bytes from the client. -/
theorem stepServer_eq_none (hrest : s.server.AtRest)
    (hpending : s.server.listener.endpoint c ∉ s.server.listener.pendingReads)
    (hup : s.upstream = []) {a : Server.Action m n} (ha : Unaided c s (.server a)) :
    s.stepServer c a = none := by
  unfold stepServer
  cases hs : s.server.step a with
  | none => rfl
  | some server =>
    unfold Server.State.step at hs
    split at hs
    · obtain ha | rfl | hinput := ha
      · rw [hrest.act_eq_none ha] at hs
        cases hs
      · have hnone : s.server.listener.handleRead (s.server.listener.endpoint c) = none :=
          if_neg fun hc => hpending hc.2.1
        change (s.server.listener.handleRead _).map _ = _ at hs
        rw [hnone] at hs
        cases hs
      · obtain ⟨input, hinput⟩ := Option.isSome_iff_exists.mp hinput
        rw [hinput]
        exact if_neg fun hc => hc.2.2 hup
    · cases hs

theorem still_of_atRest (hrest : s.server.AtRest)
    (hpending : s.server.listener.endpoint c ∉ s.server.listener.pendingReads)
    (hup : s.upstream = [])
    (hcallers : ∀ k, s.client.caller k = .unmade ∨ s.client.caller k = .returned)
    (hreceiver : s.client.receiver = .receiving) (hinbox : s.client.inbox.input = []) :
    (network m n c).Still (Unaided c) s := by
  intro a ha
  cases a with
  | client a =>
    -- the steps that are the client's own
    have hown : ∀ {a}, s.client.act a = none →
        (s.client.step a).map (fun client => { s with client }) = none := by
      intro a hact
      unfold Session.step
      rw [hact]
      simp
    show s.stepClient a = none
    cases a with
    | newCall id param => exact ha.elim
    | request => rfl
    | respond id bs => rfl
    | addCall k =>
      refine hown (if_neg ?_)
      obtain hk | hk := hcallers k <;> simp [hk]
    | sendCall k =>
      refine if_neg fun hk => ?_
      obtain hk' | hk' := hcallers k <;> rw [hk'] at hk <;> cases hk.2
    | waitForWork => exact hown (if_neg (by simp [hreceiver]))
    | recvId =>
      refine hown ?_
      simp only [act]
      split
      · next id inbox _ hread =>
        have hin := congrArg Sock.input (of_readInt_ok hread)
        rw [hinbox, Sock.input_unread] at hin
        have hlen := congrArg List.length hin
        rw [List.length_append, length_intBytes, List.length_nil] at hlen
        omega
      · rfl
    | lookup => exact hown (by simp [act, hreceiver])
    | recvValue => exact hown (by simp [act, hreceiver])
    | finish k =>
      refine hown (if_neg fun hk => ?_)
      obtain hk' | hk' := hcallers k <;> rw [hk'] at hk <;> cases hk.1
  | server a => exact stepServer_eq_none hrest hpending hup ha

/-- `concurrent`, and the connection is registered, readable and with a reader again. -/
def settling : List (Action 2 2) := concurrent ++
  [.client .waitForWork, .server (.rearm t₁), .server (.readable 0), .server (.addToReader t₀),
    .server (.popConn t₀)]

theorem still_settling : ∃ s,
    (network 2 2 0).run (Proper 0) starting settling = some s ∧
    s.client.made = 2 ∧ s.client.caller 0 = .returned ∧ s.client.caller 1 = .returned ∧
    s.server.status = .running ∧ s.server.listener.mutexConns = false ∧
    (s.server.listener.readers t₀).pc = .reading 0 ∧
    (∀ r c, (s.server.listener.readers r).pc = .reading c → c = 0) ∧
    (network 2 2 0).Still (Unaided 0) s := by
  have hrun : ((network 2 2 0).run (Proper 0) starting settling).any
      (fun s => (s.client.made = 2 ∧ s.client.caller 0 = .returned ∧
          s.client.caller 1 = .returned ∧ s.client.receiver = .receiving ∧
          s.client.inbox.input = [] ∧ s.upstream = []) ∧
        (s.server.status = .running ∧ s.server.listener.mutexConns = false) ∧
        (s.server.listener.pendingReads = [] ∧ s.server.listener.pc = .idle ∧
          (s.server.listener.readers t₀).pc = .reading 0 ∧
          (∀ r, (s.server.listener.readers r).AtRest s.server.listener.mutexConns) ∧
          ∀ r, (s.server.listener.readers r).pc.conn = none ∨
            (s.server.listener.readers r).pc.conn = some 0) ∧
        s.server.pipe.bqCall = [] ∧ (∀ h, s.server.pipe.pc (.handler h) = .idle) ∧
        s.server.pipe.pc .responder = .idle ∧ s.server.pipe.bqRespond = []) = true := by
    decide +kernel
  obtain ⟨s, hs, hfacts⟩ := (Option.any_eq_true _ _).mp hrun
  obtain ⟨⟨hmade, h0, h1, hreceiver, hinbox, hup⟩, ⟨hrunning, hmutex⟩,
    ⟨hpending, hl, hreading, hreaders, hothers⟩, hq, hh, hresponder⟩ := of_decide_eq_true hfacts
  have hreach : (network 2 2 0).Reach (Proper 0) s := .run (.init ⟨_, _, _, _, rfl⟩) hs
  have hcallers : ∀ k, s.client.caller k = .unmade ∨ s.client.caller k = .returned := by
    intro k
    obtain ⟨t, svc, rest, reqs, ht, hj⟩ := joined_of_reach hreach
    have hunmade := (linked_of_reachable ht hj.made).indexed.unmade k
    rw [hj.caller_eq, hj.made_eq, hmade] at hunmade
    match k with
    | 0 => exact .inr h0
    | 1 => exact .inr h1
    | k + 2 => exact .inl (hunmade.mpr (by omega))
  have hstill := still_of_atRest (c := 0) ⟨hl, hreaders, hq, hh, .inl hresponder⟩
    (by rw [hpending]; exact List.not_mem_nil) hup hcallers hreceiver hinbox
  refine ⟨s, hs, hmade, h0, h1, hrunning, hmutex, hreading, fun r c hpc => ?_, hstill⟩
  have hconn := hothers r
  rw [hpc] at hconn
  obtain hconn | hconn := hconn <;> cases hconn
  rfl

theorem returned_of_still_settling : ∃ s,
    (network 2 2 0).run (Proper 0) starting settling = some s ∧
    s.client.made = 2 ∧ ∀ k < 2, s.client.caller k = .returned ∧ OwnResult (s.client.call k) := by
  obtain ⟨s, hs, hmade, h0, h1, hrunning, hmutex, hreading, hothers, hstill⟩ := still_settling
  refine ⟨s, hs, hmade, fun k hk => returned_of_still (by decide) (by decide)
    (.run (.init ⟨_, _, _, _, rfl⟩) hs) hrunning hmutex
    (.inr (.inr ⟨t₀, .inr (by rw [hreading]; rfl)⟩)) hothers hstill k fun hun => ?_⟩
  match k, hk with
  | 0, _ => rw [h0] at hun; cases hun
  | 1, _ => rw [h1] at hun; cases hun

end Network

end PRpc
