import PRpc.Completion
import PRpc.Server.Calm

/-!
# A client alone

A server with the connection of a single client, whose threads make one call at a time each. A call
that is in the server is the call of a thread that waits for it (`Joined.inFlight_le`), so a hundred
threads fill no queue. Without faults the server then lives, whatever the threads of both do and
however many calls they make (`calm_of_reach`), and no call hangs (`completes_of_reach`).
-/

namespace PRpc

/-- A request for which the dispatcher has a result, with the arguments as they arrive. -/
def Writable.HasResult : Writable → Prop
  | .method c m ps => Request.result ⟨0, c, m, Writable.narrowAll ps⟩ ≠ none
  | _ => False

instance : DecidablePred Writable.HasResult
  | .base | .int _ => .isFalse id
  | .method c m ps =>
    inferInstanceAs (Decidable (Request.result ⟨0, c, m, Writable.narrowAll ps⟩ ≠ none))

/-! ## The threads that wait -/

namespace Client.Session

variable {t t' : Session} {a : Action} {k : CallId}

/-- The calls that were made and have not returned. -/
def outstandingCalls (t : Session) : Finset CallId :=
  (Finset.range t.made).filter fun k => t.caller k ≠ .returned

def outstanding (t : Session) : ℕ := t.outstandingCalls.card

theorem mem_outstandingCalls : k ∈ t.outstandingCalls ↔ k < t.made ∧ t.caller k ≠ .returned := by
  unfold outstandingCalls
  rw [Finset.mem_filter, Finset.mem_range]

/-- **Each id in flight is that of a thread of its own.** -/
theorem length_inFlight_le (hl : Linked t) : t.inFlight.length ≤ t.outstanding := by
  have hsub : t.inFlight.toFinset ⊆ t.outstandingCalls.image fun k => (t.call k).id := by
    intro id hid
    obtain ⟨k, hk, hsent, -⟩ := hl.wired.awaited id (List.mem_toFinset.mp hid)
    refine Finset.mem_image.mpr
      ⟨k, mem_outstandingCalls.mpr ⟨?_, ?_⟩, (hl.indexed.of_lookup id k hk).1⟩
    · by_contra hlt
      have hunmade := (hl.indexed.unmade k).mpr (Nat.le_of_not_lt hlt)
      rw [hsent] at hunmade
      cases hunmade
    · rw [hsent]
      simp
  calc t.inFlight.length = t.inFlight.toFinset.card :=
        (List.toFinset_card_of_nodup hl.wired.nodup).symm
    _ ≤ (t.outstandingCalls.image fun k => (t.call k).id).card := Finset.card_le_card hsub
    _ ≤ t.outstanding := Finset.card_image_le

theorem outstanding_le_of_made (hmade : t'.made = t.made)
    (hreturned : ∀ k, t.caller k = .returned → t'.caller k = .returned) :
    t'.outstanding ≤ t.outstanding := by
  refine Finset.card_le_card fun k hk => ?_
  obtain ⟨hlt, hne⟩ := mem_outstandingCalls.mp hk
  exact mem_outstandingCalls.mpr ⟨hmade ▸ hlt, fun hk => hne (hreturned k hk)⟩

theorem outstanding_newCall_le (id : CInt) (param : Writable) :
    (t.newCall id param).outstanding ≤ t.outstanding + 1 := by
  have hsub : (t.newCall id param).outstandingCalls ⊆ insert t.made t.outstandingCalls := by
    intro k hk
    obtain ⟨hlt, hne⟩ := mem_outstandingCalls.mp hk
    change k < t.made + 1 at hlt
    change Function.update t.caller t.made .made k ≠ .returned at hne
    by_cases heq : k = t.made
    · rw [heq]
      exact Finset.mem_insert_self ..
    · rw [Function.update_of_ne heq] at hne
      exact Finset.mem_insert_of_mem (mem_outstandingCalls.mpr
        ⟨Nat.lt_of_le_of_ne (Nat.le_of_lt_succ hlt) heq, hne⟩)
  exact (Finset.card_le_card hsub).trans (Finset.card_insert_le ..)

theorem caller_update {pc pc' : CallerPc} (hk : t.caller k ≠ pc') (j : CallId)
    (hj : t.caller j = pc') : Function.update t.caller k pc j = pc' := by
  rw [Function.update_of_ne (by rintro rfl; exact hk hj)]
  exact hj

theorem Moves.caller_eq (hm : Moves t a t') (ha : ∀ id param, a ≠ .newCall id param)
    {pc : CallerPc} (hpc : pc = .unmade ∨ pc = .returned) (j : CallId) (hj : t.caller j = pc) :
    t'.caller j = pc := by
  have hupdate : ∀ {k : CallId} {new : CallerPc}, t.caller k ≠ .unmade →
      t.caller k ≠ .returned → Function.update t.caller k new j = pc := by
    intro k new h1 h2
    obtain rfl | rfl := hpc
    · exact caller_update h1 j hj
    · exact caller_update h2 j hj
  cases hm with
  | newCall => exact absurd rfl (ha _ _)
  | addCall hk => exact hupdate (by rw [hk]; simp) (by rw [hk]; simp)
  | sendCall hk => exact hupdate (by rw [hk]; simp) (by rw [hk]; simp)
  | finish hk => exact hupdate (by rw [hk]; simp) (by rw [hk]; simp)
  | _ => exact hj

theorem Moves.outstanding_le (hm : Moves t a t') (ha : ∀ id param, a ≠ .newCall id param) :
    t'.outstanding ≤ t.outstanding := by
  refine outstanding_le_of_made ?_ (hm.caller_eq ha (.inr rfl))
  cases hm with
  | newCall => exact absurd rfl (ha _ _)
  | _ => rfl

end Client.Session

/-! ## The only connection -/

namespace Server

variable {m n : ℕ} {s s' : State m n} {c : ConnId} {k : CallId}

theorem Listener.Owned.lastConnectionIndex_le {l : Listener m} (h : l.Owned) :
    l.lastConnectionIndex ≤ l.accepted := by
  have hcard := Finset.card_le_card_of_injOn l.endpoint (s := Finset.range l.lastConnectionIndex)
    (t := Finset.range l.accepted) (fun c hc => by
      have hc : c < l.lastConnectionIndex := by simpa using hc
      simpa using h.made c hc) fun c hc c' hc' heq =>
        h.inj c (by simpa using hc) c' (by simpa using hc') heq
  rwa [Finset.card_range, Finset.card_range] at hcard

/-- The endpoint of a connection that was not made yet. -/
theorem endpoint_of_reachable (h : (system m n).Reachable s) :
    ∀ c, s.listener.lastConnectionIndex ≤ c → s.listener.endpoint c = 0 := by
  refine h.invariant
    (I := fun s => ∀ c, s.listener.lastConnectionIndex ≤ c → s.listener.endpoint c = 0)
    (by rintro _ rfl c -; rfl) fun s a s' hI _ hs => ?_
  have hm := (State.moves_of_step hs).2
  cases hm with
  | create =>
    intro c hc
    change s.listener.lastConnectionIndex + 1 ≤ c at hc
    show Function.update s.listener.endpoint s.listener.lastConnectionIndex _ c = 0
    rw [Function.update_of_ne (Nat.ne_of_gt hc)]
    exact hI c (Nat.le_of_succ_le hc)
  | _ => exact hI

theorem Pipeline.Begun.inRange (hb : s.pipe.Begun c k) (hr : Recorded s)
    (hdropped : s.pipe.place k ≠ .dropped) : (s.pipe.calls k).InRange := by
  obtain ⟨-, hpos, hsent⟩ := hb
  have hst := hr.stage k
  unfold Pipeline.Stage at hst
  generalize s.pipe.place k = place at hst hsent hdropped
  cases place with
  | unread => exact absurd hst.pos hpos
  | reader r => exact absurd hst.pos hpos
  | calls => exact absurd hst.pos hpos
  | hand t g =>
    cases g with
    | holding => exact absurd hst.pos hpos
    | valued => exact hst.1.inRange
    | died => exact absurd hst.2.2.1 hpos
    | popped c' => exact hst.inRange
    | requeue c' => exact hst.1.inRange
  | responding c' => exact hst.inRange
  | sent => exact absurd rfl hsent
  | dropped => exact absurd rfl hdropped

theorem Pipeline.Begun.rest_ne_nil (hb : s.pipe.Begun c k) (hr : Recorded s)
    (hdropped : s.pipe.place k ≠ .dropped) : s.pipe.rest k ≠ [] := by
  obtain ⟨-, hlt⟩ := hb.inRange hr hdropped
  intro hnil
  have hlen := congrArg List.length hnil
  unfold Pipeline.rest Call.sentLen at hlen
  rw [List.length_drop, Call.length_frame, List.length_nil] at hlen
  split at hlen <;> omega

theorem State.reading_of_readCall {r : Fin m} {input : Sock}
    (hs : s.step (.readCall r input) = some s') (hc : c ∈ (s.listener.readers r).pc.conn) :
    (s.listener.readers r).pc = .reading c := by
  rw [State.step_eq_act (State.moves_of_step hs).1] at hs
  change s.readCall r input = some s' at hs
  unfold State.readCall at hs
  split at hs
  · next c' hpc =>
    rw [hpc] at hc ⊢
    cases hc
    rfl
  · cases hs

end Server

namespace Network

open Client (Session session)
open Client.Session

variable {m n : ℕ} {c : Server.ConnId} {s s' : Network m n} {t : Session}
  {svc : Service Request} {rest : Bytes} {reqs : List Request}

/-- **What is in the server from the client's connection is awaited by the client.** -/
theorem Joined.inFlightOn_le (h : Joined c s t svc rest reqs) (hl : Linked t)
    (hr : Server.Recorded s.server) :
    (s.server.inFlightCalls.filter fun k => (s.server.pipe.calls k).connection = c).card ≤
      t.inFlight.length := by
  obtain ⟨begun, hiff, hrest⟩ := h.serving.begun
  have hsub : (s.server.inFlightCalls.filter fun k => (s.server.pipe.calls k).connection = c) ⊆
      (s.server.pipe.waiting c).toFinset ∪ begun.toFinset := by
    intro k hk
    obtain ⟨hk, hc⟩ := Finset.mem_filter.mp hk
    obtain ⟨hlt, hsent, -⟩ := Server.State.mem_inFlightCalls.mp hk
    rw [Finset.mem_union, List.mem_toFinset, Option.mem_toFinset]
    by_cases hpos : (s.server.pipe.calls k).pos = 0
    · exact .inl (Server.Pipeline.mem_waiting.mpr ⟨hlt, hc, hpos, hsent⟩)
    · exact .inr ((hiff k).mp ⟨hc, hpos, hsent⟩)
  have hwaiting : (s.server.pipe.waiting c).toFinset.card = t.pending.length := by
    rw [List.toFinset_card_of_nodup (Server.Pipeline.nodup_waiting ..), h.pending.length_eq,
      List.length_map, h.serving.pending, List.length_map]
  -- a reply that was begun has bytes that have not arrived, so its frame is not read
  have hbegun : begun.toFinset.card ≤ t.frames.length := by
    cases hb : begun with
    | none => exact Nat.zero_le _
    | some k =>
      rw [hb] at hrest hiff
      have hk : s.server.pipe.Begun c k := (hiff k).mpr rfl
      have hne := hk.rest_ne_nil hr (h.serving.kept k hk.1)
      cases hf : t.frames with
      | nil =>
        have hwire := hl.wired.inbox
        rw [hf, List.flatMap_nil, List.drop_nil, h.inbox] at hwire
        exact absurd (hrest.symm.trans (List.append_eq_nil_iff.mp hwire).2) hne
      | cons f fs =>
        rw [Option.toFinset_some, Finset.card_singleton]
        exact Nat.succ_pos _
  have hcard := (Finset.card_le_card hsub).trans (Finset.card_union_le ..)
  unfold inFlight
  rw [List.length_append, List.length_append, List.length_map, List.length_map]
  omega

theorem Joined.inFlight_le (h : Joined c s t svc rest reqs) (hl : Linked t)
    (hr : Server.Recorded s.server)
    (hsole : ∀ k < s.server.pipe.lastCall, (s.server.pipe.calls k).connection = c) :
    s.server.inFlight ≤ t.inFlight.length := by
  have hle := h.inFlightOn_le hl hr
  rwa [Finset.filter_true_of_mem fun k hk =>
    hsole k (Server.State.mem_inFlightCalls.mp hk).1] at hle

/-- **What is read from the client is a request with a result**, if the requests of its threads have
results. -/
theorem Joined.understands (h : Joined c s t svc rest reqs)
    (hresult : ∀ k, s.client.caller k ≠ .unmade → (s.client.call k).param.HasResult)
    {input : Sock} (hin : input.input = s.upstream) (hmemory : input.memory = s.memory)
    (hne : s.upstream ≠ []) :
    ((Server.Call.read c input).1.bind fun call => call.request.result).isSome := by
  cases reqs with
  | nil => exact absurd h.upstream hne
  | cons r₀ reqs =>
    have hin : input.input = r₀.bytes ++ reqs.flatMap Request.bytes := by
      rw [hin, h.upstream, List.flatMap_cons]
    obtain ⟨hsendable, k, hk, -, hparam⟩ := h.sent r₀ List.mem_cons_self
    rw [← hmemory] at hsendable
    obtain ⟨i, hread⟩ := Request.read_bytes
      (s := { input with input := reqs.flatMap Request.bytes }) hsendable c
    rw [← Sock.eq_unread hin] at hread
    rw [hread]
    -- the thread that sent it
    rw [h.caller_eq] at hk
    rw [h.call_eq] at hparam
    have hresult := hresult k (by obtain hk | hk := hk <;> rw [hk] <;> simp)
    rw [hparam] at hresult
    exact Option.isSome_iff_ne_none.mpr hresult

/-- How many calls a step makes. -/
def calls : Session.Action → ℕ
  | .newCall _ _ => 1
  | _ => 0

/-- **A step of the client** makes a call for a request with a result, or none. -/
theorem limits_stepClient {a : Session.Action} (hs : s.stepClient a = some s')
    (hnew : ∀ id param, a = .newCall id param → param.HasResult)
    (hresult : ∀ k, s.client.caller k ≠ .unmade → (s.client.call k).param.HasResult) :
    s'.client.outstanding ≤ s.client.outstanding + calls a ∧
      ∀ k, s'.client.caller k ≠ .unmade → (s'.client.call k).param.HasResult := by
  obtain ⟨client, hstep, rfl, -⟩ | ⟨k, hk, rfl⟩ := of_stepClient hs
  · have hm := moves_of_step hstep
    by_cases ha : ∀ id param, a ≠ .newCall id param
    · refine ⟨(hm.outstanding_le ha).trans (Nat.le_add_right ..), fun k hk => ?_⟩
      rw [param_of_moves hm ha]
      exact hresult k fun hun => hk (hm.caller_eq ha (.inl rfl) k hun)
    · push Not at ha
      obtain ⟨id, param, rfl⟩ := ha
      cases hm
      refine ⟨outstanding_newCall_le id param, fun k hk => ?_⟩
      change Function.update s.client.caller s.client.made .made k ≠ .unmade at hk
      show (Function.update s.client.call s.client.made _ k).param.HasResult
      by_cases heq : k = s.client.made
      · rw [heq, Function.update_self]
        exact hnew id param rfl
      · rw [Function.update_of_ne heq] at hk ⊢
        exact hresult k hk
  · have hle : (s.client.setCaller k .sent).outstanding ≤ s.client.outstanding :=
      outstanding_le_of_made rfl (caller_update (by rw [hk]; simp))
    exact ⟨hle.trans (Nat.le_add_right ..), fun j hj => hresult j fun hun =>
      hj (caller_update (by rw [hk]; simp) j hun)⟩

/-! ## The runs of a client alone -/

/-- The client has the only connection and a hundred threads in a call at most, which ask for what
the dispatcher serves; no socket fails, the passes of the server are in line and find the value, and
nothing is thrown. -/
def Alone (s : Network m n) : Action m n → Prop
  | .client (.newCall id param) => Proper 0 s (.client (.newCall id param)) ∧
      param.HasResult ∧ s.client.outstanding < 100
  | .client a => Proper 0 s (.client a)
  | .server a => Proper 0 s (.server a) ∧ a.Faultless ∧
      (a = .accept → s.server.listener.accepted = 0)

instance (s : Network m n) : DecidablePred (Alone s)
  | .client (.newCall id param) => inferInstanceAs (Decidable
      (Proper 0 s (.client (.newCall id param)) ∧ param.HasResult ∧ s.client.outstanding < 100))
  | .client (.addCall k) => inferInstanceAs (Decidable (Proper 0 s (.client (.addCall k))))
  | .client (.sendCall k) => inferInstanceAs (Decidable (Proper 0 s (.client (.sendCall k))))
  | .client .request | .client (.respond _ _) | .client .waitForWork | .client .recvId
  | .client .lookup | .client .recvValue | .client (.finish _) => .isTrue trivial
  | .server a => inferInstanceAs (Decidable (Proper 0 s (.server a) ∧ a.Faultless ∧
      (a = .accept → s.server.listener.accepted = 0)))

theorem Alone.proper {a : Action m n} (h : Alone s a) : Proper 0 s a := by
  cases a with
  | client a =>
    cases a with
    | newCall id param => exact h.1
    | _ => exact h
  | server a => exact h.1

/-- One socket, a hundred threads, and requests with results. -/
structure Limited (s : Network m n) : Prop where
  accepted : s.server.listener.accepted ≤ 1
  outstanding : s.client.outstanding ≤ 100
  result : ∀ k, s.client.caller k ≠ .unmade → (s.client.call k).param.HasResult

namespace Limited

theorem stepClient (h : Limited s) {a : Session.Action} (hC : Alone s (.client a))
    (hs : s.stepClient a = some s') : Limited s' := by
  obtain ⟨hle, hresult⟩ := limits_stepClient hs (by rintro id param rfl; exact hC.2.1) h.result
  have haccepted : s'.server = s.server := by
    obtain ⟨client, -, rfl, -⟩ | ⟨k, -, rfl⟩ := of_stepClient hs <;> rfl
  refine ⟨haccepted ▸ h.accepted, hle.trans ?_, hresult⟩
  cases a with
  | newCall id param => exact hC.2.2
  | _ => exact h.outstanding

theorem stepServer (h : Limited s) {a : Server.Action m n} (hC : Alone s (.server a))
    (hs : s.stepServer 0 a = some s') : Limited s' := by
  obtain ⟨server, upstream, hserver, rfl⟩ := of_stepServer hs
  refine ⟨?_, h.outstanding, h.result⟩
  show server.listener.accepted ≤ 1
  cases (Server.State.moves_of_step hserver).2 with
  | accept =>
    have hzero := hC.2.2 rfl
    show s.server.listener.accepted + 1 ≤ 1
    omega
  | _ => exact h.accepted

end Limited

theorem limited_of_reach (h : (network m n 0).Reach Alone s) : Limited s := by
  refine h.invariant (I := Limited) ?_ fun s a s' hI hC hs => ?_
  · rintro _ ⟨ep, fresh, memory, memory', rfl⟩
    exact ⟨Nat.zero_le _, Nat.zero_le _, fun _ hk => absurd rfl hk⟩
  · cases a with
    | client a => exact hI.stepClient hC hs
    | server a => exact hI.stepServer hC hs

/-- There is no other connection, and its endpoint is that of the first socket. -/
theorem Limited.sole (h : Limited s) (hserver : (Server.system m n).Reachable s.server) :
    s.server.listener.lastConnectionIndex ≤ 1 ∧ s.server.listener.endpoint 0 = 0 := by
  have hl := Server.owned_of_reachable hserver
  have hle := hl.lastConnectionIndex_le.trans h.accepted
  refine ⟨hle, ?_⟩
  obtain hzero | hone := Nat.eq_zero_or_pos s.server.listener.lastConnectionIndex
  · exact Server.endpoint_of_reachable hserver 0 hzero.le
  · exact Nat.lt_one_iff.mp ((hl.made 0 hone).trans_le h.accepted)

theorem Limited.eq_zero (h : Limited s) (hserver : (Server.system m n).Reachable s.server)
    {c : Server.ConnId} (hc : c < s.server.listener.lastConnectionIndex) : c = 0 :=
  Nat.lt_one_iff.mp (hc.trans_le (h.sole hserver).1)

theorem Limited.inFlight_le (h : Limited s) (hserver : (Server.system m n).Reachable s.server)
    (hj : Joined 0 s t svc rest reqs) (hl : Linked t) :
    s.server.inFlight ≤ s.client.outstanding := by
  have hr := Server.recorded_of_reachable hserver
  calc s.server.inFlight ≤ t.inFlight.length :=
        hj.inFlight_le hl hr fun k hk => h.eq_zero hserver (hr.connection k hk)
    _ ≤ t.outstanding := length_inFlight_le hl
    _ ≤ s.client.outstanding := outstanding_le_of_made hj.made_eq fun k hk => by
        rw [hj.caller_eq]
        exact hk

/-- The bytes that a reader reads are those of a request with a result. -/
theorem Limited.understands (hlim : Limited s) (h : Joined 0 s t svc rest reqs)
    (hserver : (Server.system m n).Reachable s.server) {a : Server.Action m n}
    (hs : s.stepServer 0 a = some s') : s.server.Understands a := by
  cases a with
  | readCall r input =>
    intro c hc
    obtain rfl : c = 0 := hlim.eq_zero hserver ((Server.owned_of_reachable hserver).lt_of_conn hc)
    obtain ⟨server, -, hstep, -⟩ := of_stepServer hs
    have hpc := Server.State.reading_of_readCall hstep hc
    unfold Network.stepServer at hs
    rw [hstep, Server.State.input_of_reading input hpc] at hs
    dsimp only at hs
    split at hs
    · next hup => exact h.understands hlim.result hup.1 hup.2.1 hup.2.2
    · cases hs
  | _ => trivial

/-- **The server of a client alone is calm.** -/
theorem calm_of_reach (hm : 0 < m) (h : (network m n 0).Reach Alone s) :
    (Server.system m n).Reach Server.Calm s.server := by
  induction h with
  | init hi =>
    obtain ⟨ep, fresh, memory, memory', rfl⟩ := hi
    exact .init rfl
  | @step s s' a hreach hC hs ih =>
    cases a with
    | client a =>
      change s.stepClient a = some s' at hs
      obtain ⟨client, -, rfl, -⟩ | ⟨k, -, rfl⟩ := of_stepClient hs <;> exact ih
    | server a =>
      have hlim := limited_of_reach hreach
      have hserver := ih.reachable
      obtain ⟨t, svc, rest, reqs, ht, hj⟩ := joined_of_reach (hreach.mono fun _ _ => Alone.proper)
      have hunderstands := hlim.understands hj hserver hs
      obtain ⟨server, upstream, hstep, rfl⟩ := of_stepServer hs
      refine .step ih ⟨hC.2.1, hunderstands, ?_, ?_⟩ hstep
      · have hle := hlim.inFlight_le hserver hj (linked_of_reachable ht hj.made)
        exact hle.trans hlim.outstanding
      · have hopen : s.server.listener.numOpen ≤ s.server.listener.lastConnectionIndex :=
          (Finset.card_filter_le ..).trans_eq (Finset.card_range _)
        have hsole := (hlim.sole hserver).1
        unfold Server.State.Fits Server.maxReaderQueueSize
        omega

/-- A client alone is served: the server lives and has no more calls than threads wait, the receiver
thread lives, and when nobody can go on every call has returned with its own result. -/
structure Completes (s : Network m n) : Prop where
  server : s.server.status = .running
  client : s.client.aborted = false
  inFlight : s.server.inFlight ≤ s.client.outstanding
  returned : s.server.listener.accepted = 1 → (network m n 0).Still (Unaided 0) s →
    ∀ k, s.client.caller k ≠ .unmade →
      s.client.caller k = .returned ∧ OwnResult (s.client.call k)

/-- The accepted connection is registered, or the listener or a reader has it. -/
theorem Limited.alive (h : Limited s) (hcalm : (Server.system m n).Reach Server.Calm s.server)
    (haccepted : s.server.listener.accepted = 1) :
    s.server.listener.Alive (s.server.listener.endpoint 0) 0 := by
  obtain hzero | hone := Nat.eq_zero_or_pos s.server.listener.lastConnectionIndex
  · -- it was not made yet
    rw [(h.sole hcalm.reachable).2]
    refine .inl ((Server.kept_of_reach hcalm).2.2.registered 0
      (by rw [haccepted]; exact one_pos) ?_)
    cases hc : s.server.listener.connections 0 with
    | none => rfl
    | some c =>
      have hlt := ((Server.owned_of_reachable hcalm.reachable).entry 0 c hc).1
      rw [hzero] at hlt
      exact absurd hlt (Nat.not_lt_zero c)
  · have hunharmed := (Server.kept_of_reach hcalm).2.2
    exact (Server.Listener.alive_iff rfl).mpr (hunharmed.ticketed _ 0 (hunharmed.entry 0 hone))

/-- **A client alone is served**, with any number of readers and handlers. -/
theorem completes_of_reach (hm : 0 < m) (hn : 0 < n) (h : (network m n 0).Reach Alone s) :
    Completes s := by
  have hcalm := calm_of_reach hm h
  have hserver := hcalm.reachable
  have hlim := limited_of_reach h
  obtain ⟨hrun, -, hunharmed⟩ := Server.kept_of_reach hcalm
  obtain ⟨t, svc, rest, reqs, ht, hj⟩ := joined_of_reach (h.mono fun _ _ => Alone.proper)
  have hl := linked_of_reachable ht hj.made
  have hclient : s.client.aborted = false := by
    have hown := congrArg Session.aborted hj.own
    exact hown.symm.trans hl.answered.alive
  refine ⟨hrun, hclient, hlim.inFlight_le hserver hj hl, fun haccepted hstill k hk => ?_⟩
  have hothers : ∀ r c', (s.server.listener.readers r).pc = .reading c' → c' = 0 := by
    intro r c' hpc
    exact hlim.eq_zero hserver
      ((Server.owned_of_reachable hserver).lt_of_conn (r := r) (by rw [hpc]; rfl))
  have hsettled := hj.settled hl hserver hm hn hrun hunharmed.mutexConns
    (hlim.alive hcalm haccepted) hothers hstill
  exact hj.returned ht hsettled (fun a => hstill (.client a)) k hk

/-- The two calls of `settling`. -/
theorem completes_of_reach_settling : ∃ s,
    (network 2 2 0).run Alone starting settling = some s ∧
    s.client.made = 2 ∧ Completes s ∧
    ∀ k < 2, s.client.caller k = .returned ∧ OwnResult (s.client.call k) := by
  have hrun : ((network 2 2 0).run Alone starting settling).any
      (fun s => s.server.listener.accepted = 1) = true := by decide +kernel
  obtain ⟨s, hs, haccepted⟩ := (Option.any_eq_true _ _).mp hrun
  obtain ⟨s', hs', hmade, h0, h1, -, -, -, -, hstill⟩ := still_settling
  have hproper := System.run_mono (D := Proper 0) (fun _ _ => Alone.proper) hs
  obtain rfl : s' = s := Option.some.inj (hs'.symm.trans hproper)
  have hcompletes := completes_of_reach (by decide) (by decide) (.run (.init ⟨_, _, _, _, rfl⟩) hs)
  refine ⟨s', hs, hmade, hcompletes,
    fun k hk => hcompletes.returned (of_decide_eq_true haccepted) hstill k fun hun => ?_⟩
  match k, hk with
  | 0, _ => rw [h0] at hun; cases hun
  | 1, _ => rw [h1] at hun; cases hun

end Network

end PRpc
