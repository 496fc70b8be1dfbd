import PRpc.Client.Lasting
import PRpc.Client.Thread
import PRpc.Client.View
import PRpc.EndToEnd

/-!
# A whole client and the server

The client with all its connections and all that `getConnection`, `connect` and the closing of a
connection do, and the whole server; one connection of the client, `d`, leads to the server, where
it is `c`. What the other connections of the client are given is anything. The client is on this
connection the session of a `Network` (`shown_of_reach`), in which `recvRespond` takes three steps;
so what the network's callers get is what the callers of the client get that go through it.

A write on the connection goes out as a whole, and `recvRespond` goes on once the response has
arrived: that the server closes the connection under the client is not a part of this.
-/

namespace PRpc

open Client (Session session Seen)

/-- A whole response has arrived. -/
def Sock.HoldsResponse (s : Sock) : Prop :=
  12 ≤ s.input.length ∧ 12 + LittleEndian.ofLE ((s.input.drop 4).take 8) ≤ s.input.length

instance (s : Sock) : Decidable s.HoldsResponse := inferInstanceAs (Decidable (_ ∧ _))

structure Whole (m n : ℕ) where
  server : Server.State m n
  client : Client.State
  /-- The bytes that the client has written on the connection and the server has not read. -/
  upstream : Bytes
  /-- What has arrived at the client. -/
  inbox : Sock
  /-- The memory of the machine of the server. -/
  memory : Memory

namespace Whole

variable {m n : ℕ}

inductive Action (m n : ℕ)
  | client (a : Client.Action)
  | server (a : Server.Action m n)

/-- What a thread of the client does. -/
def stepClient (d : Client.ConnId) (s : Whole m n) (a : Client.Action) : Option (Whole m n) :=
  match s.client.step a with
  | none => none
  | some client =>
    match a with
    | .sendCall k ok =>
      if s.client.caller k = .got d ∧ (s.client.conn d).sock = .connected then
        if ok then
          some { s with client, upstream := s.upstream ++ (s.client.call k).write }
        else none
      else some { s with client }
    | .recvRespond c input =>
      if c = d then
        if input = s.inbox ∧ input.HoldsResponse then
          some { s with
            client
            inbox := (Client.Connection.recvRespond
              (fun id => ((s.client.conn d).calls.lookup id).map s.client.call) input).2 }
        else none
      else some { s with client }
    | _ => some { s with client }

/-- What a thread of the server does. -/
def stepServer (c : Server.ConnId) (s : Whole m n) (a : Server.Action m n) :
    Option (Whole m n) :=
  match s.server.step a with
  | none => none
  | some server =>
    let inbox := { s.inbox with
      input := s.inbox.input ++ Network.wrote c s.server server }
    match s.server.input c a with
    | none => some { s with server, inbox }
    | some input =>
      if input.input = s.upstream ∧ input.memory = s.memory ∧ s.upstream ≠ [] then
        some { s with server, inbox, upstream := (Server.Call.read c input).2.input }
      else none

def step (c : Server.ConnId) (d : Client.ConnId) (s : Whole m n) : Action m n → Option (Whole m n)
  | .client a => s.stepClient d a
  | .server a => s.stepServer c a

end Whole

/-- The server with `m` readers and `n` handlers and a client just made, whose connection `d` is
the server's `c`. -/
def whole (m n : ℕ) (c : Server.ConnId) (d : Client.ConnId) :
    System (Whole m n) (Whole.Action m n) where
  init s := ∃ fresh memory memory',
    s = ⟨.start m n, .start, [], ⟨[], fresh, memory, 0, 0⟩, memory'⟩
  step := Whole.step c d

namespace Whole

variable {m n : ℕ} {c : Server.ConnId} {d : Client.ConnId} {s s' : Whole m n} {u : Network m n}

/-- Fewer than 2 ^ 31 calls are made, for requests that can be sent with an `IntWritable` as result.
The server's passes over the connection have no write error, find the value and are not disturbed,
and a call that it puts back has room in the response queue. -/
def Proper (c : Server.ConnId) (s : Whole m n) : Action m n → Prop
  | .client (.newCall _ valueClass param _) =>
    valueClass = ascii "IntWritable" ∧ s.client.lastCall + 1 < 2 ^ 31 ∧ param.IsRequest s.memory
  | .client _ => True
  | .server a => Server.InLineOn c s.server a

instance (c : Server.ConnId) (s : Whole m n) : DecidablePred (Proper c s)
  | .client (.newCall _ valueClass param _) => inferInstanceAs (Decidable
      (valueClass = ascii "IntWritable" ∧ s.client.lastCall + 1 < 2 ^ 31 ∧
        param.IsRequest s.memory))
  | .client (.getConnection ..) | .client (.connect _) | .client (.startThread _)
  | .client .addCall | .client .leave | .client (.sendCall ..) | .client (.finish _)
  | .client (.waitForWork _) | .client (.recvRespond ..) | .client (.markClosed _)
  | .client (.closeSock _) | .client (.removeConnection _) | .client (.cleanupCalls _) =>
    .isTrue trivial
  | .server a => inferInstanceAs (Decidable (Server.InLineOn c s.server a))

/-! ## The steps of the client -/

/-- What the steps of the client do on the connection. -/
theorem of_stepClient {a : Client.Action} (hs : s.stepClient d a = some s') :
    ∃ client, s.client.step a = some client ∧
      (s' = { s with client } ∧
        (∀ k ok, a = .sendCall k ok → s.client.caller k = .got d →
          (s.client.conn d).sock ≠ .connected) ∧ (∀ input, a ≠ .recvRespond d input) ∨
      (∃ k, a = .sendCall k true ∧ s.client.caller k = .got d ∧
        (s.client.conn d).sock = .connected ∧
        s' = { s with client, upstream := s.upstream ++ (s.client.call k).write }) ∨
      a = .recvRespond d s.inbox ∧ s.inbox.HoldsResponse ∧ s' = { s with
        client
        inbox := (Client.Connection.recvRespond
          (fun id => ((s.client.conn d).calls.lookup id).map s.client.call) s.inbox).2 }) := by
  unfold stepClient at hs
  split at hs
  · cases hs
  next client hclient =>
  refine ⟨client, hclient, ?_⟩
  split at hs
  · next k ok =>
    split at hs
    · next hd =>
      split at hs
      · next hok =>
        cases hs
        exact .inr (.inl ⟨k, by rw [hok], hd.1, hd.2, rfl⟩)
      · cases hs
    · next hd =>
      cases hs
      refine .inl ⟨rfl, ?_, by simp⟩
      rintro _ _ ⟨⟩ hk hsock
      exact hd ⟨hk, hsock⟩
  · next c' input =>
    split at hs
    · next hc =>
      split at hs
      · next hin =>
        cases hs
        obtain ⟨rfl, hholds⟩ := hin
        exact .inr (.inr ⟨by rw [hc], hholds, rfl⟩)
      · cases hs
    · next hc =>
      cases hs
      exact .inl ⟨rfl, by simp, fun _ heq => hc (by cases heq; rfl)⟩
  · next hsend hrecv =>
    cases hs
    exact .inl ⟨rfl, fun k ok heq => absurd heq (hsend k ok), fun input heq => hrecv d input heq⟩

theorem client_stepClient {a : Client.Action} (hs : s.stepClient d a = some s') :
    s.client.step a = some s'.client ∧ s'.server = s.server ∧ s'.memory = s.memory := by
  obtain ⟨client, hclient, ⟨rfl, -⟩ | ⟨_, -, -, -, rfl⟩ | ⟨-, -, rfl⟩⟩ := of_stepClient hs
  all_goals exact ⟨hclient, rfl, rfl⟩

/-- The network `u` is what the server and the connection are. -/
structure Shown (d : Client.ConnId) (s : Whole m n) (u : Network m n) : Prop where
  server : u.server = s.server
  upstream : u.upstream = s.upstream
  inbox : u.client.inbox = s.inbox
  memory : u.memory = s.memory
  seen : Seen d s.client u.client

theorem Shown.start (d : Client.ConnId) (fresh : CInt) (memory memory' : Memory) :
    Shown d (⟨.start m n, .start, [], ⟨[], fresh, memory, 0, 0⟩, memory'⟩ : Whole m n)
      ⟨.start m n, .start ⟨[], 0⟩ fresh memory, [], memory'⟩ where
  server := rfl
  upstream := rfl
  inbox := rfl
  memory := rfl
  seen := Seen.start d ⟨[], 0⟩ fresh memory

section Client

open Client.Session

/-- The client of the network lives, and its calls are in their table. -/
theorem keyed_of_reach (h : (network m n c).Reach (Network.Proper c) u) :
    u.client.aborted = false ∧ u.client.Keyed := by
  obtain ⟨t, svc, rest, reqs, ht, hj⟩ := Network.joined_of_reach h
  have hl := linked_of_reachable ht hj.made
  have halive : t.aborted = u.client.aborted := by
    have hown := congrArg Session.aborted hj.own
    exact hown
  refine ⟨halive ▸ hl.answered.alive, fun id k hk => ?_, fun k hk => ?_⟩
  · rw [← hj.conn_eq] at hk
    rw [← hj.caller_eq]
    exact (hl.indexed.of_lookup id k hk).2
  · rw [← hj.caller_eq] at hk
    rw [← hj.conn_eq]
    exact ⟨_, hl.indexed.lookup k hk⟩

theorem reach_act (hu : (network m n c).Reach (Network.Proper c) u) {b : Session.Action}
    {t : Session} (hC : Network.Proper c u (.client b))
    (heq : u.stepClient b = (u.client.step b).map fun client => { u with client })
    (hact : u.client.act b = some t) :
    (network m n c).Reach (Network.Proper c) { u with client := t } := by
  have hstep : u.client.step b = some t :=
    (if_neg (by rw [(keyed_of_reach hu).1]; exact Bool.false_ne_true)).trans hact
  refine hu.step hC (show u.stepClient b = _ from ?_)
  rw [heq, hstep]
  rfl

theorem Shown.quiet (h : Shown d s u) (hu : (network m n c).Reach (Network.Proper c) u)
    (hcl : Client.client.Reachable s.client) {a : Client.Action} (hC : Proper c s (.client a))
    {client : Client.State} (hs : s.client.step a = some client)
    (hsend : ∀ k ok, a = .sendCall k ok → s.client.caller k = .got d →
      (s.client.conn d).sock ≠ .connected) (hrecv : ∀ input, a ≠ .recvRespond d input) :
    ∃ u', (network m n c).Reach (Network.Proper c) u' ∧ Shown d { s with client } u' := by
  have hM := Client.managed_of_reachable hcl
  have hkey := (keyed_of_reach hu).2
  have hstay (hseen : Seen d client u.client) :
      ∃ u', (network m n c).Reach (Network.Proper c) u' ∧ Shown d { s with client } u' :=
    ⟨u, hu, h.server, h.upstream, h.inbox, h.memory, hseen⟩
  have hact {b : Session.Action} {t : Session} (hC : Network.Proper c u (.client b))
      (heq : u.stepClient b = (u.client.step b).map fun client => { u with client })
      (hact : u.client.act b = some t) (hinbox : t.inbox = u.client.inbox)
      (hseen : Seen d client t) :
      ∃ u', (network m n c).Reach (Network.Proper c) u' ∧ Shown d { s with client } u' :=
    ⟨_, reach_act hu hC heq hact, h.server, h.upstream, hinbox.trans h.inbox, h.memory, hseen⟩
  cases Client.State.moves_of_step hs with
  | @newCall ep valueClass param id =>
    obtain ⟨rfl, hmade, hparam⟩ := hC
    rw [← h.seen.made] at hmade
    rw [← h.memory] at hparam
    exact hact (b := .newCall id param) ⟨hmade, hparam⟩ rfl rfl rfl (h.seen.newCall ep id param)
  | reuse hg hk hc => exact hstay (h.seen.enter hk _)
  | create hg hk hc =>
    exact hstay ((h.seen.create (Client.tabled_of_reachable hcl) _ _).enter hk _)
  | connect hg hpc => exact hstay (h.seen.connect hg hpc _)
  | startThread hg hpc =>
    exact hstay (h.seen.startThread (Client.mapped_of_reachable hcl) hg hpc _)
  | @addCall g hg hpc =>
    by_cases hd : g.conn = d
    · obtain ⟨hmade, hseen⟩ := h.seen.addCall hM hg hpc hd
      exact hact (b := .addCall g.call) trivial rfl (if_pos hmade) rfl hseen
    · exact hstay (h.seen.addCall_of_ne hM hg hpc hd)
  | leave hg hpc => exact hstay (h.seen.leave hM hg hpc)
  | @sendCall k c' ok hk =>
    refine hstay (h.seen.sendCall_of_ne hk fun hc hsock => ?_)
    rw [hc] at hk hsock
    exact absurd hsock (hsend k ok rfl hk)
  | @finish k c' hk =>
    by_cases hc : c' = d
    · rw [hc] at hk
      obtain ⟨hsent, hcall, hseen⟩ := h.seen.finish hk
      have hdone := Client.done_of_finish hs
      rw [← hcall] at hdone
      exact hact (b := .finish k) trivial rfl (if_pos ⟨hsent, hdone⟩) rfl hseen
    · exact hstay (h.seen.finish_of_ne hk hc)
  | @waitForWork c' rep hc =>
    by_cases hd : c' = d ∧ (s.client.conn d).calls.entries ≠ []
    · obtain ⟨rfl, hne⟩ := hd
      obtain ⟨hwaits, hne', hseen⟩ := h.seen.waitForWork hc hne
      exact hact (b := .waitForWork) trivial rfl (if_pos ⟨hwaits, hne'⟩) rfl hseen
    · refine hstay (h.seen.waitForWork_of_ne hc fun heq => ?_)
      by_contra hne
      exact hd ⟨heq, heq ▸ hne⟩
  | @recvRespond c' input hc =>
    have hne : c' ≠ d := by
      rintro rfl
      exact hrecv input rfl
    exact hstay (h.seen.recvRespond_of_ne hM (Client.oneTable_of_reachable hcl) hkey hne input)
  | markClosed hc => exact hstay (h.seen.markClosed hc)
  | closeSock hc => exact hstay (h.seen.closeSock hc)
  | removeConnection hc => exact hstay (h.seen.removeConnection hc)
  | cleanupCalls hc => exact hstay (h.seen.cleanupCalls hc)

theorem Shown.send (h : Shown d s u) (hu : (network m n c).Reach (Network.Proper c) u)
    {k : Client.CallId} {client : Client.State}
    (hs : s.client.step (.sendCall k true) = some client) (hk : s.client.caller k = .got d)
    (hsock : (s.client.conn d).sock = .connected) :
    ∃ u', (network m n c).Reach (Network.Proper c) u' ∧ Shown d
      { s with client, upstream := s.upstream ++ (s.client.call k).write } u' := by
  obtain ⟨hadded, hcall, hseen⟩ := h.seen.sendCall hk
  have hclient : client = s.client.setCaller k (.waiting d) := by
    cases Client.State.moves_of_step hs with
    | @sendCall _ c' _ hk' =>
      rw [hk] at hk'
      cases hk'
      unfold Client.State.sendCall
      rw [hsock]
      rfl
  have hstep : u.stepClient (.sendCall k) = some { u with
      client := u.client.setCaller k .sent
      upstream := u.upstream ++ (u.client.call k).write } :=
    if_pos ⟨(keyed_of_reach hu).1, hadded⟩
  refine ⟨_, hu.step (a := .client (.sendCall k)) trivial hstep, h.server, ?_, h.inbox, h.memory,
    ?_⟩
  · show u.upstream ++ (u.client.call k).write = _
    rw [h.upstream, hcall]
  · rw [hclient]
    exact hseen

/-- The call that was found waits for the value, which sets it. -/
theorem value_of_found (hu : (network m n c).Reach (Network.Proper c) u) {id : CInt}
    {k : Client.CallId} (hpc : u.client.receiver = .found id k) (harrived : u.client.Arrived) :
    u.client.caller k = .sent ∧ (u.client.call k).done = false ∧ ∃ call inbox, call.done = true ∧
      Client.Connection.recvValue (u.client.call k) u.client.inbox = (some call, inbox) := by
  obtain ⟨t, svc, rest, reqs, ht, hj⟩ := Network.joined_of_reach hu
  have hl := linked_of_reachable ht hj.made
  have hpc' : t.receiver = .found id k := hj.receiver_eq.trans hpc
  obtain ⟨call, inbox, _, -, hval, hval', -⟩ := hj.complete hl hpc' harrived
  obtain ⟨_, _, _, -, -, -, -, hvalue⟩ := recvValue_eq hl.indexed hl.wired hpc'
  rw [hval] at hvalue
  cases hvalue
  obtain ⟨j, hlookup, hsent, hdone⟩ := hl.wired.awaited_current id (by rw [hpc']; rfl)
  rw [hl.wired.found id k hpc'] at hlookup
  cases hlookup
  rw [hj.caller_eq] at hsent
  rw [hj.call_eq] at hdone
  exact ⟨hsent, hdone, _, inbox, rfl, hval'⟩

/-- **A response is read** in three steps of the network: the id, the lookup, which does not fail,
and the value. -/
theorem reach_response (hu : (network m n c).Reach (Network.Proper c) u)
    (hreceiver : u.client.receiver = .receiving) (hholds : u.client.inbox.HoldsResponse) :
    ∃ k, u.client.conn.calls.lookup (intOfBytes (u.client.inbox.input.take 4)) = some k ∧
      (network m n c).Reach (Network.Proper c) { u with
        client := u.client.readValue k
          { u.client.inbox with input := u.client.inbox.input.drop 4 } } ∧
      u.client.caller k = .sent ∧ (u.client.call k).done = false ∧
      ((u.client.readValue k
        { u.client.inbox with input := u.client.inbox.input.drop 4 }).call k).done = true := by
  obtain ⟨h12, hlen⟩ := hholds
  let id := intOfBytes (u.client.inbox.input.take 4)
  let inbox : Sock := { u.client.inbox with input := u.client.inbox.input.drop 4 }
  have hread : readInt u.client.inbox = .ok id inbox := Client.readInt_ok (by omega)
  have hid : u.client.act .recvId = some (u.client.receive id inbox) := by
    simp only [act, hreceiver, hread]
  have hu₁ := reach_act hu (b := .recvId) trivial rfl hid
  cases hk : u.client.conn.calls.lookup id with
  | none =>
    have hfails : (u.client.receive id inbox).act .lookup =
        some { u.client.receive id inbox with aborted := true } := by
      simp only [act, receive, setReceiver, hk]
    have halive := (keyed_of_reach (reach_act hu₁ (b := .lookup) trivial rfl hfails)).1
    cases halive
  | some k =>
    have hfound : (u.client.receive id inbox).act .lookup =
        some ((u.client.receive id inbox).setReceiver (.found id k)) := by
      simp only [act, receive, setReceiver, hk]
    have hu₂ := reach_act hu₁ (b := .lookup) trivial rfl hfound
    have harrived : ((u.client.receive id inbox).setReceiver (.found id k)).Arrived := by
      show 8 ≤ (u.client.inbox.input.drop 4).length ∧
        8 + LittleEndian.ofLE ((u.client.inbox.input.drop 4).take 8) ≤
          (u.client.inbox.input.drop 4).length
      rw [List.length_drop]
      exact ⟨by omega, by omega⟩
    have hvalue : ((u.client.receive id inbox).setReceiver (.found id k)).act .recvValue =
        some (u.client.readValue k inbox) := act_recvValue rfl harrived
    obtain ⟨hsent, hdone, call, inbox', hcall, hval⟩ := value_of_found hu₂ rfl harrived
    change Client.Connection.recvValue (u.client.call k) inbox = (some call, inbox') at hval
    refine ⟨k, rfl, reach_act hu₂ (b := .recvValue) trivial rfl hvalue, hsent, hdone, ?_⟩
    unfold readValue
    rw [hval]
    show (Function.update u.client.call k call k).done = true
    rw [Function.update_self]
    exact hcall

theorem recvRespond_inbox {calls : CInt → Option Client.Call} {call : Client.Call} {input : Sock}
    (h4 : 4 ≤ input.input.length)
    (hcall : calls (intOfBytes (input.input.take 4)) = some call) :
    (Client.Connection.recvRespond calls input).2 =
      (Client.Connection.recvValue call { input with input := input.input.drop 4 }).2 := by
  unfold Client.Connection.recvRespond
  rw [Client.readInt_ok h4]
  dsimp only
  rw [hcall]
  dsimp only
  rcases Client.Connection.recvValue call { input with input := input.input.drop 4 } with
    ⟨_ | call, inbox⟩ <;> rfl

theorem Shown.receive (h : Shown d s u) (hu : (network m n c).Reach (Network.Proper c) u)
    (hcl : Client.client.Reachable s.client) {client : Client.State}
    (hs : s.client.step (.recvRespond d s.inbox) = some client) (hholds : s.inbox.HoldsResponse) :
    ∃ u', (network m n c).Reach (Network.Proper c) u' ∧ Shown d { s with
      client
      inbox := (Client.Connection.recvRespond
        (fun id => ((s.client.conn d).calls.lookup id).map s.client.call) s.inbox).2 } u' := by
  have hM := Client.managed_of_reachable hcl
  have hkey := (keyed_of_reach hu).2
  have h4 : 4 ≤ s.inbox.input.length := (by decide : 4 ≤ 12).trans hholds.1
  cases Client.State.moves_of_step hs with
  | recvRespond hc =>
    have hreceiver : u.client.receiver = .receiving := h.seen.receiver.trans (if_pos hc)
    obtain ⟨k, hk, hu', -⟩ := reach_response hu hreceiver (by rw [h.inbox]; exact hholds)
    rw [h.inbox] at hk hu'
    have hk' := hk
    rw [h.seen.calls] at hk'
    refine ⟨_, hu', h.server, h.upstream, ?_, h.memory, h.seen.recvRespond hM hkey h4 hk⟩
    rw [readValue_inbox, h.seen.call_of_lookup hM hkey hk']
    exact (recvRespond_inbox h4 (by rw [hk', Option.map_some])).symm

theorem Shown.client_step (h : Shown d s u) (hu : (network m n c).Reach (Network.Proper c) u)
    (hcl : Client.client.Reachable s.client) {a : Client.Action} (hC : Proper c s (.client a))
    (hs : s.stepClient d a = some s') :
    ∃ u', (network m n c).Reach (Network.Proper c) u' ∧ Shown d s' u' := by
  obtain ⟨client, hclient, ⟨rfl, hsend, hrecv⟩ | ⟨k, rfl, hk, hsock, rfl⟩ | ⟨rfl, hholds, rfl⟩⟩ :=
    of_stepClient hs
  · exact h.quiet hu hcl hC hclient hsend hrecv
  · exact h.send hu hclient hk hsock
  · exact h.receive hu hcl hclient hholds

end Client

/-! ## The runs -/

theorem Shown.server_step (h : Shown d s u) (hu : (network m n c).Reach (Network.Proper c) u)
    {a : Server.Action m n} (hC : Proper c s (.server a)) (hs : s.stepServer c a = some s') :
    ∃ u', (network m n c).Reach (Network.Proper c) u' ∧ Shown d s' u' := by
  have hC' : Network.Proper c u (.server a) := by
    show Server.InLineOn c u.server a
    rw [h.server]
    exact hC
  have hinbox (server : Server.State m n) :
      (Network.deliver u.client (Network.wrote c u.server server)).inbox = { s.inbox with
        input := s.inbox.input ++ Network.wrote c s.server server } := by
    rw [h.server, ← h.inbox]
    rfl
  have hseen (bytes : Bytes) : Seen d s.client (Network.deliver u.client bytes) :=
    ⟨h.seen.made, h.seen.shows, h.seen.calls, h.seen.index, h.seen.receiver⟩
  unfold stepServer at hs
  split at hs
  · cases hs
  next server hserver =>
  rw [← h.server] at hserver
  split at hs
  · next hinput =>
    cases hs
    rw [← h.server] at hinput
    have hstep : u.stepServer c a = some { u with
        server, client := Network.deliver u.client (Network.wrote c u.server server) } := by
      simp only [Network.stepServer, hserver, hinput]
    exact ⟨_, hu.step (a := .server a) hC' hstep, rfl, h.upstream, hinbox server, h.memory,
      hseen _⟩
  · next input hinput =>
    split at hs
    · next hup =>
      cases hs
      rw [← h.server] at hinput
      rw [← h.upstream, ← h.memory] at hup
      have hstep : u.stepServer c a = some ⟨server,
          Network.deliver u.client (Network.wrote c u.server server),
          (Server.Call.read c input).2.input, u.memory⟩ := by
        simp only [Network.stepServer, hserver, hinput]
        exact if_pos hup
      exact ⟨_, hu.step (a := .server a) hC' hstep, rfl, rfl, hinbox server, h.memory, hseen _⟩
    · cases hs

theorem client_stepServer {a : Server.Action m n} (hs : s.stepServer c a = some s') :
    s'.client = s.client ∧ s'.memory = s.memory := by
  unfold stepServer at hs
  split at hs
  · cases hs
  · split at hs
    · cases hs
      exact ⟨rfl, rfl⟩
    · split at hs <;> cases hs
      exact ⟨rfl, rfl⟩

theorem client_of_reach {C : Whole m n → Action m n → Prop} (h : (whole m n c d).Reach C s) :
    Client.client.Reachable s.client := by
  refine h.project (f := Whole.client) ?_ fun s a s' _ hs => ?_
  · rintro _ ⟨fresh, memory, memory', rfl⟩
    exact rfl
  cases a with
  | client a =>
    exact .inr ⟨a, trivial, (client_stepClient (show s.stepClient d a = some s' from hs)).1⟩
  | server a =>
    exact .inl (client_stepServer hs).1

/-- **The client and the server are a network** on the connection. -/
theorem shown_of_reach (h : (whole m n c d).Reach (Proper c) s) :
    ∃ u, (network m n c).Reach (Network.Proper c) u ∧ Shown d s u := by
  refine h.followed ?_ fun s a s' u hreach hu hR hC hs => ?_
  · rintro _ ⟨fresh, memory, memory', rfl⟩
    exact ⟨_, .init ⟨_, _, _, _, rfl⟩, .start d fresh memory memory'⟩
  · cases a with
    | client a => exact hR.client_step hu (client_of_reach hreach) hC hs
    | server a => exact hR.server_step hu hC hs

/-! ## The callers that have returned -/

/-- A thread that went through the connection and has returned has a call that is done, unless the
connection could not be made. -/
def Settled (d : Client.ConnId) (client : Client.State) : Prop :=
  ∀ id k, (client.conn d).calls.lookup id = some k → client.caller k = .returned →
    (client.call k).done = true ∨ (client.conn d).sock = .unconnected

theorem Shown.settled (h : Shown d s u) (hu : (network m n c).Reach (Network.Proper c) u)
    (hcl : Client.client.Reachable s.client) (hset : Settled d s.client) {a : Client.Action}
    {client : Client.State} (hs : s.client.step a = some client)
    (hsend : ∀ k ok, a = .sendCall k ok → s.client.caller k = .got d →
      (s.client.conn d).sock = .connected → ok = true) : Settled d client := by
  have hM := Client.managed_of_reachable hcl
  have ht := Client.tabled_of_reachable hcl
  have hmap := Client.mapped_of_reachable hcl
  have hkey := (keyed_of_reach hu).2
  have hm := Client.State.moves_of_step hs
  intro id k hid hk
  rcases hm.of_lookup hid with hold | ⟨g, hg, -, rfl, -, rfl⟩
  · have hlt : d < s.client.lastConnectionIndex := by
      by_contra hle
      rw [ht.fresh d (Nat.le_of_not_lt hle)] at hold
      cases (AList.lookup_empty (β := fun _ => Client.CallId) id).symm.trans hold
    have hkeep (hk : (s.client.call k).done = true ∨ (s.client.conn d).sock = .unconnected) :
        (client.call k).done = true ∨ (client.conn d).sock = .unconnected := by
      rcases hk with hdone | hsock
      · exact .inl (hm.done_mono (ht.lt_lastCall hM hdone) hdone)
      · exact .inr (hm.unconnected hmap (Client.plugged_of_reachable hcl) hlt hsock)
    rcases hm.returned_cases hk with hk | ⟨c', hk, rfl⟩ | ⟨c', ok, hk, rfl, hok, hsock⟩ |
      ⟨g, hg, hpc⟩
    · exact hkeep (hset id k hold hk)
    · exact hkeep (.inl (Client.done_of_finish hs))
    · -- the call in the table of `d` is sent on `d`
      have hc : c' = d := by
        by_contra hne
        have hshows := h.seen.shows k
        rw [hk] at hshows
        have hreg := hkey.1 id k (h.seen.calls ▸ hold)
        rw [hshows.2 hne] at hreg
        exact hreg
      subst hc
      refine hkeep (.inr (hsock.resolve_left fun hsock => ?_))
      have hfalse := hok hsock
      rw [hsend k ok rfl hk hsock] at hfalse
      cases hfalse
    · cases hM.result g hg none hpc
  · -- the thread is in `getConnection`
    change s.client.caller g.call = .returned at hk
    rw [hM.caller g hg] at hk
    cases hk

/-- What the callers see that go through the connection. -/
structure CallersServed (d : Client.ConnId) (s : Whole m n) : Prop where
  /-- A call that is done holds the result of its own request. -/
  own : ∀ id k, (s.client.conn d).calls.lookup id = some k → (s.client.call k).done = true →
    Network.OwnResult (s.client.call k)
  settled : Settled d s.client
  /-- A response sets the call of a thread that waits, and the receiver thread goes on. -/
  reads : ∀ input s', s.stepClient d (.recvRespond d input) = some s' →
    s'.client.status = .running ∧ ∃ k, s.client.caller k = .waiting d ∧
      (s.client.call k).done = false ∧ (s'.client.call k).done = true

theorem status_recvRespond {client client' : Client.State} {input : Sock} {k : Client.CallId}
    (hs : client.step (.recvRespond d input) = some client') (h4 : 4 ≤ input.input.length)
    (hk : (client.conn d).calls.lookup (intOfBytes (input.input.take 4)) = some k) :
    client'.status = .running := by
  have hrun : client.status = .running := by
    unfold Client.State.step at hs
    split at hs
    · assumption
    · cases hs
  cases Client.State.moves_of_step hs with
  | recvRespond hc =>
    rw [Client.State.recvRespond_of_found h4 hk]
    split <;> exact hrun

/-- **Every thread that has returned** through the connection has its value, if there was one. -/
theorem settled_of_reach (h : (whole m n c d).Reach (Proper c) s) : Settled d s.client := by
  induction h with
  | init h0 =>
    obtain ⟨fresh, memory, memory', rfl⟩ := h0
    intro id k hid
    cases (AList.lookup_empty (β := fun _ => Client.CallId) id).symm.trans hid
  | @step s s' a hr hC hs ih =>
    obtain ⟨u, hu, hR⟩ := shown_of_reach hr
    have hcl := client_of_reach hr
    cases a with
    | client a =>
      obtain ⟨client, hclient, hcases⟩ := of_stepClient (show s.stepClient d a = some s' from hs)
      have hsend : ∀ k ok, a = .sendCall k ok → s.client.caller k = .got d →
          (s.client.conn d).sock = .connected → ok = true := by
        rintro k ok rfl hk hsock
        rcases hcases with ⟨-, hquiet, -⟩ | ⟨j, hj, -⟩ | ⟨heq, -⟩
        · exact absurd hsock (hquiet k ok rfl hk)
        · cases hj
          rfl
        · cases heq
      have hset := hR.settled hu hcl ih hclient hsend
      rcases hcases with ⟨rfl, -⟩ | ⟨_, -, -, -, rfl⟩ | ⟨-, -, rfl⟩ <;> exact hset
    | server a =>
      rw [(client_stepServer (show s.stepServer c a = some s' from hs)).1]
      exact ih

/-- A call that is done holds the result of its own request. -/
theorem ownResult_of_reach (h : (whole m n c d).Reach (Proper c) s) {id : CInt}
    {k : Client.CallId} (hk : (s.client.conn d).calls.lookup id = some k)
    (hdone : (s.client.call k).done = true) : Network.OwnResult (s.client.call k) := by
  obtain ⟨u, hu, hR⟩ := shown_of_reach h
  obtain ⟨t, svc, rest, reqs, ht, hj⟩ := Network.joined_of_reach hu
  have hl := Client.Session.linked_of_reachable ht hj.made
  have hcall := hR.seen.call_of_lookup (Client.managed_of_reachable (client_of_reach h))
    (keyed_of_reach hu).2 hk
  rw [← hcall] at hdone ⊢
  exact hj.ownResult hl hdone

theorem reads_of_reach (h : (whole m n c d).Reach (Proper c) s) {input : Sock}
    (hs : s.stepClient d (.recvRespond d input) = some s') :
    s'.client.status = .running ∧ ∃ k, s.client.caller k = .waiting d ∧
      (s.client.call k).done = false ∧ (s'.client.call k).done = true := by
  obtain ⟨u, hu, hR⟩ := shown_of_reach h
  have hcl := client_of_reach h
  have hM := Client.managed_of_reachable hcl
  have hkey := (keyed_of_reach hu).2
  obtain ⟨client, hclient, ⟨-, -, hne⟩ | ⟨_, heq, -⟩ | ⟨heq, hholds, rfl⟩⟩ := of_stepClient hs
  · exact absurd rfl (hne input)
  · cases heq
  · cases heq
    have h4 : 4 ≤ s.inbox.input.length := (by decide : 4 ≤ 12).trans hholds.1
    have hreceiving : s.client.receiver d = .receiving := by
      cases Client.State.moves_of_step hclient with
      | recvRespond hc => exact hc
    have heq : client = s.client.recvRespond d s.inbox := by
      cases Client.State.moves_of_step hclient
      rfl
    have hreceiver : u.client.receiver = .receiving := hR.seen.receiver.trans (if_pos hreceiving)
    obtain ⟨k, hk, hu', hsent, hdone, hdone'⟩ :=
      reach_response hu hreceiver (by rw [hR.inbox]; exact hholds)
    rw [hR.inbox] at hk hu' hdone'
    have hk' := hk
    rw [hR.seen.calls] at hk'
    have hseen := hR.seen.recvRespond hM hkey h4 hk
    rw [← heq] at hseen
    have hM' := Client.managed_of_reachable (hcl.step trivial hclient)
    have hconn : (client.conn d).calls.lookup (intOfBytes (s.inbox.input.take 4)) = some k := by
      rw [heq, Client.State.recvRespond_conn]
      exact hk'
    refine ⟨status_recvRespond hclient h4 hk', k, ?_, ?_, ?_⟩
    · have hshows := hR.seen.shows k
      rw [hsent] at hshows
      exact hshows.waiting (hM.added d _ k hk')
    · rw [← hR.seen.call_of_lookup hM hkey hk']
      exact hdone
    · show (client.call k).done = true
      rw [← hseen.call_of_lookup hM' (keyed_of_reach hu').2 hconn]
      exact hdone'

/-- **The whole client is served** on its connection to the server: whatever its threads do, in and
out of `getConnection`, with that connection and any others, and whatever the server does. -/
theorem callersServed_of_reach (h : (whole m n c d).Reach (Proper c) s) : CallersServed d s where
  own _ _ hk hdone := ownResult_of_reach h hk hdone
  settled := settled_of_reach h
  reads _ _ hs := reads_of_reach h hs

/-- Two machines with all the memory there can be. -/
def starting : Whole 2 2 := ⟨.start 2 2, .start, [], ⟨[], 0, .whole, 0, 0⟩, .whole⟩

/-- A call of `create`. -/
def createCall (ep : Client.Endpoint) (a₀ a₁ a₂ a₃ : CInt) : Client.Action :=
  .newCall ep (ascii "IntWritable") (DataNodeProtocol.request 0 a₀ a₁ a₂ a₃).param 9

/-- The client cannot connect to its first endpoint, and its connection to the second one is that to
the server. -/
def connecting : List Client.Action :=
  [createCall ⟨ascii "1.2.3.5", 80⟩ 1 2 3 4, .getConnection 0 true, .connect .refused, .addCall,
    .leave, .sendCall 0 true, createCall Client.peer 12 23 34 45, .getConnection 1 true,
    .connect .connected, .startThread true, .addCall, .leave, .sendCall 1 true, .waitForWork 1]

/-- The server answers the call. -/
def answering : List (Server.Action 2 2) :=
  [.accept, .readable 0, .addToReader Server.t₀, .popConn Server.t₀,
    .readCall Server.t₀ ⟨(DataNodeProtocol.request 0 12 23 34 45).bytes, 0, .whole, 0, 0⟩,
    .pushCall Server.t₀, .popCall Server.t₀, .execute Server.t₀, .pushRespond Server.t₀,
    .size Server.t₀, .tryPop (.handler Server.t₀), .write (.handler Server.t₀) (.accepts 4)]

def twoEndpoints : List (Action 2 2) :=
  connecting.map Action.client ++ (answering.map Action.server ++
    [.client (.recvRespond 1 ⟨intBytes 0 ++ sizeBytes 4 ++ intBytes 114, 0, .whole, 0, 0⟩),
      .client (.finish 1)])

theorem callersServed_of_reach_twoEndpoints : ∃ s,
    (whole 2 2 0 1).run (Proper 0) starting twoEndpoints = some s ∧
    (s.client.conn 1).calls.lookup 0 = some 1 ∧ (s.client.call 1).done = true ∧
    CallersServed 1 s := by
  have hrun : ((whole 2 2 0 1).run (Proper 0) starting twoEndpoints).any
      (fun s => (s.client.conn 1).calls.lookup 0 = some 1 ∧
        (s.client.call 1).done = true) = true := by decide +kernel
  obtain ⟨s, hs, hfacts⟩ := (Option.any_eq_true _ _).mp hrun
  obtain ⟨hid, hdone⟩ := of_decide_eq_true hfacts
  exact ⟨s, hs, hid, hdone, callersServed_of_reach (.run (.init ⟨_, _, _, rfl⟩) hs)⟩

end Whole

end PRpc
