import PRpc.Network
import PRpc.Remote

/-!
# From end to end

A step of the server is a step of the session or none (`Joined.server_step`): a read takes the next
request, the first byte of a reply is the answer to one, and the other bytes of it have been a part
of the session's inbox since. So a network is a session (`joined_of_reach`), and what is known of
sessions and of the service is known of it: a call that is done holds the result of its own request
(`results_of_reach`).
-/

namespace PRpc

open Client (Session session)

namespace Network

variable {m n : ℕ}

/-! ## The steps of the server -/

section Server

open Client.Session

variable {c : Server.ConnId} {s s' : Network m n} {server : Server.State m n} {t t' : Session}
  {svc svc' : Service Request} {rest rest' w : Bytes} {reqs reqs' : List Request}

theorem out_wrote {s s' : Server.State m n} {a : Server.Action m n} (hs : s.step a = some s') :
    (s'.pipe.out c).map Prod.snd = (s.pipe.out c).map Prod.snd ++ wrote c s s' := by
  obtain ⟨x, hx⟩ := (Server.State.moves_of_step hs).2.out_append c
  unfold wrote
  rw [← hx, List.map_append, List.drop_left]

namespace Joined

theorem of_server (h : Joined c s t svc rest reqs) {upstream : Bytes}
    (hown : Network.own t' = Network.own t)
    (hinbox : t'.inbox.input = s.client.inbox.input ++ (w ++ rest'))
    (hrequests : t'.requests = reqs'.map Request.bytes)
    (hupstream : upstream = reqs'.flatMap Request.bytes) (hreqs : ∀ r ∈ reqs', r ∈ reqs)
    (hserving : Server.Serving server.pipe c svc' rest')
    (hpending : t'.pending.Perm (svc'.pending.map Request.id))
    (htaken : ∀ r ∈ svc'.pending ++ svc'.answered, ∃ r₀, t.Sent r₀ ∧ r = (r₀.received c).request)
    (hanswers : ∀ id bs, t'.answers id = some bs →
      ∃ r ∈ svc'.answered, r.id = id ∧ ∃ v, r.result = some v ∧ bs = intBytes v) :
    Joined c ⟨server, deliver s.client w, upstream, s.memory⟩ t' svc' rest' reqs' := by
  have hcall : t'.call = t.call := by
    have hcall := congrArg Session.call hown
    exact hcall
  have hcaller : t'.caller = t.caller := by
    have hcaller := congrArg Session.caller hown
    exact hcaller
  have hmade : t'.made = t.made := by
    have hmade := congrArg Session.made hown
    exact hmade
  have hsent : ∀ r, t.Sent r → t'.Sent r := by
    intro r hr
    unfold Sent at hr ⊢
    rw [hcall, hcaller]
    exact hr
  refine ⟨hown.trans h.own, by rw [hmade]; exact h.made, ?_, ?_, hrequests, hupstream,
    fun r hr => ?_, hserving, hpending, fun r hr => ?_, hanswers⟩
  · rw [hcall, hcaller]
    exact h.params
  · rw [hinbox, ← List.append_assoc]
    rfl
  · obtain ⟨hsendable, hr⟩ := h.sent r (hreqs r hr)
    exact ⟨hsendable, hsent r hr⟩
  · obtain ⟨r₀, hr₀, heq⟩ := htaken r hr
    exact ⟨r₀, hsent r₀ hr₀, heq⟩

/-- What the service has sent more is what has arrived and what is still to come. -/
theorem rest_eq (h : Joined c s t svc rest reqs) {a : Server.Action m n}
    (hs : s.server.step a = some server) (h' : Server.Serving server.pipe c svc' rest')
    (reply : Bytes) (hout : svc'.out Request.reply = svc.out Request.reply ++ reply) :
    wrote c s.server server ++ rest' = rest ++ reply := by
  have hnew := h'.out
  rw [out_wrote hs, hout, ← h.serving.out, List.append_assoc, List.append_assoc] at hnew
  exact List.append_cancel_left hnew

theorem take (h : Joined c s t svc rest reqs) (hl : Linked t) {a : Server.Action m n}
    (hs : s.server.step a = some server) {input : Sock} (hinput : input.input = s.upstream)
    (hmemory : input.memory = s.memory) (hne : s.upstream ≠ [])
    (ha : s.server.input c a = some input)
    (hsvc : svc.Evolves Request.reply (s.server.takes c a) svc')
    (h' : Server.Serving server.pipe c svc' rest') :
    ∃ b t' reqs', session.step t b = some t' ∧ Joined c ⟨server,
      deliver s.client (wrote c s.server server), (Server.Call.read c input).2.input, s.memory⟩ t'
        svc' rest' reqs' := by
  cases reqs with
  | nil => exact absurd h.upstream hne
  | cons r reqs =>
    have hin : input.input = r.bytes ++ reqs.flatMap Request.bytes := by
      rw [hinput, h.upstream, List.flatMap_cons]
    obtain ⟨hsendable, hr⟩ := h.sent r List.mem_cons_self
    rw [← hmemory] at hsendable
    obtain ⟨i, hread⟩ := Request.read_bytes
      (s := { input with input := reqs.flatMap Request.bytes }) hsendable c
    rw [← Sock.eq_unread hin] at hread
    have htakes : s.server.takes c a = some (r.received c).request := by
      unfold Server.State.takes
      rw [ha, Option.bind_some, hread, Option.map_some]
    rw [htakes] at hsvc
    cases hsvc
    have hrequests : t.requests = r.bytes :: reqs.map Request.bytes := by
      rw [h.requests, List.map_cons]
    have hid : requestId r.bytes = r.id := requestId_write (r.call [])
    have hstep : session.step t .request = some (t.take r.bytes (reqs.map Request.bytes)) := by
      refine (if_neg (by rw [hl.answered.alive]; exact Bool.false_ne_true)).trans ?_
      simp only [act, hrequests]
    have hrest := h.rest_eq hs h' [] (by rw [Service.out_take, List.append_nil])
    refine ⟨_, _, reqs, hstep, h.of_server rfl ?_ rfl ?_ (fun x hx => List.mem_cons_of_mem _ hx)
      h' ?_ (fun x hx => ?_) h.answers⟩
    · rw [hrest, List.append_nil]
      exact h.inbox
    · rw [hread]
      rfl
    · show (t.pending ++ [requestId r.bytes]).Perm ((svc.pending ++ [_]).map _)
      rw [hid, List.map_append, List.map_singleton]
      exact h.pending.append_right _
    · change x ∈ svc.pending ++ [_] ++ svc.answered at hx
      rw [List.append_assoc, List.singleton_append, List.mem_append, List.mem_cons] at hx
      obtain hx | rfl | hx := hx
      · exact h.taken x (List.mem_append_left _ hx)
      · exact ⟨r, hr, rfl⟩
      · exact h.taken x (List.mem_append_right _ hx)

theorem answer (h : Joined c s t svc rest reqs) (hl : Linked t) {a : Server.Action m n}
    (hs : s.server.step a = some server) {i : ℕ} {r : Request} {bs : Bytes}
    (hi : svc.pending[i]? = some r) (hr : r.reply = some bs)
    (h' : Server.Serving server.pipe c (svc.answer i r) rest') :
    ∃ b t', session.step t b = some t' ∧ Joined c
      ⟨server, deliver s.client (wrote c s.server server), s.upstream, s.memory⟩ t'
        (svc.answer i r) rest' reqs := by
  obtain ⟨v, hv, rfl⟩ := Option.map_eq_some_iff.mp hr
  have hmem : r ∈ svc.pending := List.mem_of_getElem? hi
  have hid : r.id ∈ t.pending := h.pending.mem_iff.mpr (List.mem_map_of_mem hmem)
  have hlen := Memory.length_intBytes_lt t.inbox.memory v
  have hstep : session.step t (.respond r.id (intBytes v)) = some (t.answer r.id (intBytes v)) :=
    (if_neg (by rw [hl.answered.alive]; exact Bool.false_ne_true)).trans (if_pos ⟨hid, hlen⟩)
  have hrest := h.rest_eq hs h' _ (Service.out_answer hr)
  refine ⟨_, _, hstep, h.of_server rfl ?_ h.requests h.upstream (fun _ hx => hx) h' ?_
    (fun x hx => ?_) fun id bs hbs => ?_⟩
  · show t.inbox.input ++ frame (r.id, intBytes v) = _
    rw [hrest, h.inbox, List.append_assoc]
    unfold frame
    rw [length_intBytes]
  · -- one request with the id less on both sides
    have hperm := h.pending.trans ((Service.perm_eraseIdx hi).map Request.id)
    rw [List.map_cons] at hperm
    have herase := hperm.erase r.id
    rwa [List.erase_cons_head] at herase
  · have hx : x ∈ svc.answered ++ svc.pending :=
      (Service.perm_answer hi).mem_iff.mp (List.perm_append_comm.mem_iff.mp hx)
    exact h.taken x (List.perm_append_comm.mem_iff.mp hx)
  · change Function.update t.answers r.id (some (intBytes v)) id = some bs at hbs
    by_cases heq : id = r.id
    · rw [heq, Function.update_self] at hbs
      cases hbs
      exact ⟨r, List.mem_append_right _ List.mem_cons_self, heq.symm, v, hv, rfl⟩
    · rw [Function.update_of_ne heq] at hbs
      obtain ⟨x, hx, hfacts⟩ := h.answers id bs hbs
      exact ⟨x, List.mem_append_left _ hx, hfacts⟩

theorem server_step (h : Joined c s t svc rest reqs) (hl : Linked t) {a : Server.Action m n}
    (hp : Server.Placed s.server) (hr : Server.Recorded s.server)
    (hcomp : Server.Computed s.server.pipe) (hC : Proper c s (.server a))
    (hs : s.stepServer c a = some s') :
    ∃ t' svc' rest' reqs', (t' = t ∨ ∃ b, session.step t b = some t') ∧
      Joined c s' t' svc' rest' reqs' := by
  unfold stepServer at hs
  split at hs
  · cases hs
  next server hserver =>
  obtain ⟨svc', rest', hsvc, h'⟩ := Server.State.serving_step hserver hp hr hcomp hC h.serving
  split at hs
  · next hinput =>
    cases hs
    have htakes : s.server.takes c a = none := by
      unfold Server.State.takes
      rw [hinput]
      rfl
    rw [htakes] at hsvc
    cases hsvc with
    | stay =>
      have hrest := h.rest_eq hserver h' [] (by rw [List.append_nil])
      refine ⟨t, svc, rest', reqs, .inl rfl, h.of_server rfl ?_ h.requests h.upstream
        (fun _ hx => hx) h' h.pending h.taken h.answers⟩
      rw [hrest, List.append_nil]
      exact h.inbox
    | answer hi hreply =>
      obtain ⟨b, t', hstep, h''⟩ := h.answer hl hserver hi hreply h'
      exact ⟨t', _, rest', reqs, .inr ⟨b, hstep⟩, h''⟩
  · next input hinput =>
    split at hs
    · next hc =>
      cases hs
      obtain ⟨b, t', reqs', hstep, h''⟩ := h.take hl hserver hc.1 hc.2.1 hc.2.2 hinput hsvc h'
      exact ⟨t', svc', rest', reqs', .inr ⟨b, hstep⟩, h''⟩
    · cases hs

end Joined

end Server

/-! ## The runs -/

section Runs

open Client.Session
open Server (t₀ t₁)

variable {c : Server.ConnId} {s : Network m n}

theorem server_of_reach {C : Network m n → Action m n → Prop} (h : (network m n c).Reach C s) :
    (Server.system m n).Reachable s.server := by
  refine h.project (f := Network.server) ?_ fun s a s' _ hs => ?_
  · rintro _ ⟨ep, fresh, memory, memory', rfl⟩
    exact rfl
  cases a with
  | client a =>
    left
    change s.stepClient a = some s' at hs
    unfold stepClient at hs
    split at hs
    · split at hs <;> cases hs
      rfl
    · cases hs
    · cases hs
    · obtain ⟨_, -, rfl⟩ := Option.map_eq_some_iff.mp hs
      rfl
  | server a =>
    right
    obtain ⟨server, upstream, hserver, rfl⟩ := of_stepServer hs
    exact ⟨a, trivial, hserver⟩

/-- **The network is a session** whose replies are those of the service. -/
theorem joined_of_reach (h : (network m n c).Reach (Proper c) s) :
    ∃ t svc rest reqs, session.Reachable t ∧ Joined c s t svc rest reqs := by
  have hsim : System.Simulation (network m n c) (Proper c) session (fun _ _ => True)
      fun s t => ∃ svc rest reqs, Joined c s t svc rest reqs := by
    refine ⟨?_, fun s a s' t hreach ht hR hC hs => ?_⟩
    · rintro _ ⟨ep, fresh, memory, memory', rfl⟩
      exact ⟨_, ⟨ep, fresh, memory, rfl⟩, .start, [], [], Joined.start c ep fresh memory memory'⟩
    obtain ⟨svc, rest, reqs, h⟩ := hR
    have hl := linked_of_reachable ht h.made
    cases a with
    | client a =>
      obtain ⟨b, t', reqs', hstep, h'⟩ := h.client_step hl hC hs
      exact .inr ⟨b, t', trivial, hstep, svc, rest, reqs', h'⟩
    | server a =>
      have hserver := server_of_reach hreach
      obtain ⟨t', svc', rest', reqs', rfl | ⟨b, hstep⟩, h'⟩ := h.server_step hl
        (Server.placed_of_reachable hserver) (Server.recorded_of_reachable hserver)
        (Server.computed_of_reachable hserver) hC hs
      · exact .inl ⟨svc', rest', reqs', h'⟩
      · exact .inr ⟨b, t', trivial, hstep, svc', rest', reqs', h'⟩
  obtain ⟨t, ht, svc, rest, reqs, hR⟩ := h.simulated hsim
  exact ⟨t, svc, rest, reqs, ht, hR⟩

theorem done_of_moves {t t' : Session} {a : Session.Action} (hm : Moves t a t') (hl : Linked t)
    (h : ∀ k, t.caller k = .returned → (t.call k).done = true) (k : Client.CallId)
    (hk : t'.caller k = .returned) : (t'.call k).done = true := by
  cases hm with
  | newCall =>
    change Function.update t.caller t.made .made k = .returned at hk
    show (Function.update t.call t.made _ k).done = true
    by_cases heq : k = t.made
    · rw [heq, Function.update_self] at hk
      cases hk
    · rw [Function.update_of_ne heq] at hk ⊢
      exact h k hk
  | @addCall j hj =>
    change Function.update t.caller j .added k = .returned at hk
    show (Function.update t.call j _ k).done = true
    by_cases heq : k = j
    · rw [heq, Function.update_self] at hk
      cases hk
    · rw [Function.update_of_ne heq] at hk ⊢
      exact h k hk
  | @sendCall j hj =>
    change Function.update t.caller j .sent k = .returned at hk
    show (t.call k).done = true
    by_cases heq : k = j
    · rw [heq, Function.update_self] at hk
      cases hk
    · rw [Function.update_of_ne heq] at hk
      exact h k hk
  | @finish j hj hdone =>
    change Function.update t.caller j .returned k = .returned at hk
    show (t.call k).done = true
    by_cases heq : k = j
    · rw [heq]
      exact hdone
    · rw [Function.update_of_ne heq] at hk
      exact h k hk
  | @recvValue id j call inbox hpc hval =>
    obtain ⟨_, j', _, -, -, -, -, -, hcall⟩ := (hl.recvValue hpc hval).2
    rw [hcall]
    by_cases heq : k = j'
    · rw [heq, Function.update_self]
    · rw [Function.update_of_ne heq]
      exact h k hk
  | _ => exact h k hk

theorem done_of_returned {t : Session} (h : session.Reachable t) (hmade : t.made < 2 ^ 31) :
    ∀ k, t.caller k = .returned → (t.call k).done = true := by
  refine h.invariant_of (J := fun t => t.made < 2 ^ 31 → Linked t)
    (I := fun t => t.made < 2 ^ 31 → ∀ k, t.caller k = .returned → (t.call k).done = true)
    (fun t ht hlt => linked_of_reachable ht hlt) ?_ ?_ hmade
  · rintro _ ⟨ep, fresh, memory, rfl⟩ - k hk
    cases hk
  · intro t a t' hJ hI _ hs hlt
    have hm := moves_of_step hs
    have hlt := hm.made_le.trans_lt hlt
    exact done_of_moves hm (hJ hlt) (hI hlt)

/-- A call holds the result of its own request, executed on the arguments as the server has decoded
them and decoded by the client. -/
def OwnResult (call : Client.Call) : Prop :=
  ∃ r : Request, call.param = r.param ∧ ∃ v : CInt,
    Method.call r.className r.methodName (Writable.narrowAll r.params) = .ok (some (.int v)) ∧
    call.value = some (.int (lowByte v))

/-- The result of a request is what the dispatcher returns. -/
theorem call_of_result {r : Request} {v : CInt} (h : r.result = some v) :
    Method.call r.className r.methodName r.params = .ok (some (.int v)) := by
  unfold Request.result at h
  split at h
  · next hcall => cases h; exact hcall
  · cases h

/-- **What a call holds when it is done**, by the id that the reply carries. -/
theorem Joined.ownResult {t : Session} {svc : Service Request} {rest : Bytes}
    {reqs : List Request} (h : Joined c s t svc rest reqs) (hl : Linked t) {k : Client.CallId}
    (hk : (s.client.call k).done = true) : OwnResult (s.client.call k) := by
  rw [← h.call_eq] at hk ⊢
  obtain ⟨bs, hbs, hvalue⟩ := hl.answered.own k hk
  obtain ⟨x, hx, hid, v, hv, rfl⟩ := h.answers _ _ hbs
  obtain ⟨r, ⟨j, hj, hjid, hparam⟩, rfl⟩ := h.taken x (List.mem_append_right _ hx)
  -- the call that sent the request has the same id, so it is this one
  have hregistered : ∀ {i}, t.caller i = .sent ∨ t.caller i = .returned →
      (t.caller i).Registered := by
    rintro i (hi | hi) <;> rw [hi] <;> trivial
  have hlookup := hl.indexed.lookup k (hregistered (hl.indexed.done k hk))
  have hlookup' := hl.indexed.lookup j (hregistered hj)
  have hsame : (t.call j).id = (t.call k).id := hjid.trans hid
  rw [hsame, hlookup] at hlookup'
  obtain rfl : k = j := Option.some.inj hlookup'
  refine ⟨r, hparam, v, call_of_result hv, ?_⟩
  rw [hvalue, intOfPayload_intBytes]

/-- What the callers see. -/
structure Results (s : Network m n) : Prop where
  /-- The client does not come to an end. -/
  alive : s.client.aborted = false
  returned : ∀ k, s.client.caller k = .returned → (s.client.call k).done = true
  own : ∀ k, (s.client.call k).done = true → OwnResult (s.client.call k)
  once : ∀ k, s.client.completions k = if (s.client.call k).done = true then 1 else 0

/-- **From end to end**: whatever the threads of the client and of the server do, and whatever the
other connections carry, a thread of the client that returns has the result of its own request. -/
theorem results_of_reach (h : (network m n c).Reach (Proper c) s) : Results s := by
  obtain ⟨t, svc, rest, reqs, ht, hj⟩ := joined_of_reach h
  have hl := linked_of_reachable ht hj.made
  have halive : t.aborted = s.client.aborted := by
    have hown := congrArg Session.aborted hj.own
    exact hown
  have hcompletions : t.completions = s.client.completions := by
    have hown := congrArg Session.completions hj.own
    exact hown
  refine ⟨halive ▸ hl.answered.alive, ?_, fun k => hj.ownResult hl, ?_⟩
  · rw [← hj.caller_eq, ← hj.call_eq]
    exact done_of_returned ht hj.made
  · rw [← hcompletions, ← hj.call_eq]
    exact hl.answered.once

theorem OwnResult.create {call : Client.Call} {id a₀ a₁ a₂ a₃ : CInt} (h : OwnResult call)
    (hparam : call.param = (DataNodeProtocol.request id a₀ a₁ a₂ a₃).param) :
    call.value = some (.int (lowByte (a₀ + a₁ + a₂ + a₃))) := by
  obtain ⟨r, hr, v, hv, hvalue⟩ := h
  rw [hparam] at hr
  obtain ⟨hclass, hmethod, hparams⟩ := Writable.method.inj hr
  rw [← hclass, ← hmethod, ← hparams] at hv
  have hsum : Method.call (ascii "NameNode") (ascii "create")
      (Writable.narrowAll [.int a₀, .int a₁, .int a₂, .int a₃]) =
        .ok (some (.int (lowByte a₀ + lowByte a₁ + lowByte a₂ + lowByte a₃))) := by
    simp only [Writable.narrowAll, Writable.narrow, intOfPayload_intBytes]
    exact Method.call_nameNode ..
  have hv := hv.symm.trans hsum
  cases hv
  rw [hvalue, lowByte_sum]

/-- **Concurrent calls of `DataNodeProtocol::create`**: each thread gets the sum of its own
arguments, as a `char`. -/
theorem create_of_reach (h : (network m n c).Reach (Proper c) s) {k : Client.CallId}
    {id a₀ a₁ a₂ a₃ : CInt} (hk : s.client.caller k = .returned)
    (hparam : (s.client.call k).param = (DataNodeProtocol.request id a₀ a₁ a₂ a₃).param) :
    (s.client.call k).value = some (.int (lowByte (a₀ + a₁ + a₂ + a₃))) := by
  obtain ⟨t, svc, rest, reqs, ht, hj⟩ := joined_of_reach h
  have hdone : (s.client.call k).done = true := by
    rw [← hj.call_eq]
    exact done_of_returned ht hj.made k (by rw [hj.caller_eq, hk])
  exact (hj.ownResult (linked_of_reachable ht hj.made) hdone).create hparam

/-- The server reads two requests, and has sent the first byte of the reply to the second one. -/
def overtaking : List (Server.Action 2 2) :=
  [.accept, .readable 0, .addToReader t₀, .popConn t₀,
    .readCall t₀ ⟨(DataNodeProtocol.request 1 12 23 34 45).bytes ++
      (DataNodeProtocol.request 0 100 100 0 0).bytes, 0, .whole, 0, 0⟩,
    .pushCall t₀, .rearm t₀, .readable 0, .addToReader t₁, .popConn t₁,
    .readCall t₁ ⟨(DataNodeProtocol.request 0 100 100 0 0).bytes, 0, .whole, 0, 0⟩,
    .pushCall t₁, .popCall t₀, .popCall t₁, .execute t₀, .execute t₁, .pushRespond t₁, .size t₁,
    .tryPop (.handler t₁), .write (.handler t₁) (.accepts 1)]

/-- It sends what is left of both. -/
def finishing : List (Server.Action 2 2) :=
  [.requeue (.handler t₁), .retoken (.handler t₁), .popToken, .lookup, .tryPop .responder,
    .write .responder (.accepts 3), .pushRespond t₀, .size t₀, .tryPop (.handler t₀),
    .write (.handler t₀) (.accepts 4)]

/-- Two machines with all the memory there can be. -/
def starting : Network 2 2 := ⟨.start 2 2, .start ⟨[], 0⟩ 0 .whole, [], .whole⟩

/-- Two threads of the client call `create`, with ids in the other order than the calls. The
receiver thread reads the first id before the rest of the reply has come. -/
def concurrent : List (Action 2 2) :=
  .client (.newCall 9 (DataNodeProtocol.request 0 12 23 34 45).param) ::
  .client (.newCall 9 (DataNodeProtocol.request 0 100 100 0 0).param) ::
  .client (.addCall 1) :: .client (.addCall 0) :: .client (.sendCall 0) :: .client (.sendCall 1) ::
  (overtaking.map Action.server ++
    .client .waitForWork :: .client .recvId :: .client .lookup ::
    (finishing.map Action.server ++
      [.client .recvValue, .client .waitForWork, .client .recvId, .client .lookup,
        .client .recvValue, .client (.finish 1), .client (.finish 0)]))

theorem results_of_reach_concurrent : ∃ s,
    (network 2 2 0).run (Proper 0) starting concurrent = some s ∧
    s.client.caller 0 = .returned ∧ s.client.caller 1 = .returned ∧ Results s := by
  have hrun : ((network 2 2 0).run (Proper 0) starting concurrent).any
      (fun s => s.client.caller 0 = .returned ∧ s.client.caller 1 = .returned) = true := by
    decide +kernel
  obtain ⟨s, hs, hfacts⟩ := (Option.any_eq_true _ _).mp hrun
  obtain ⟨h0, h1⟩ := of_decide_eq_true hfacts
  exact ⟨s, hs, h0, h1, results_of_reach (.run (.init ⟨_, _, _, _, rfl⟩) hs)⟩

theorem create_of_reach_concurrent : ∃ s,
    (network 2 2 0).run (Proper 0) starting concurrent = some s ∧
    (s.client.call 0).value = some (.int (lowByte (12 + 23 + 34 + 45))) ∧
    (s.client.call 1).value = some (.int (lowByte (100 + 100 + 0 + 0))) := by
  have hrun : ((network 2 2 0).run (Proper 0) starting concurrent).any
      (fun s => s.client.caller 0 = .returned ∧ s.client.caller 1 = .returned ∧
        (s.client.call 0).param = (DataNodeProtocol.request 0 12 23 34 45).param ∧
        (s.client.call 1).param = (DataNodeProtocol.request 0 100 100 0 0).param) = true := by
    decide +kernel
  obtain ⟨s, hs, hfacts⟩ := (Option.any_eq_true _ _).mp hrun
  obtain ⟨h0, h1, hparam0, hparam1⟩ := of_decide_eq_true hfacts
  have hreach : (network 2 2 0).Reach (Proper 0) s := .run (.init ⟨_, _, _, _, rfl⟩) hs
  exact ⟨s, hs, create_of_reach hreach h0 hparam0, create_of_reach hreach h1 hparam1⟩

end Runs

end Network

end PRpc
