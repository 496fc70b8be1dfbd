import PRpc.Server.Serving
import PRpc.Client.Responses

/-!
# A client and the server

One connection of a client, with any number of threads that make calls through it, and the whole
server with whatever other connections it has. What the client writes is a stream of bytes to the
server (`upstream`), and what the server writes on the connection goes to the inbox of the client,
in pieces as `write_some` takes them. The client reads what has arrived; that the server closes the
connection under it is not a part of this.

The network is a `Session` in which the replies arrive whole (`Joined`): the server's part of the
session is the service that the server is on this connection (`Server.Serving`). This module has the
steps of the client, each of which is a step of the session (`Joined.client_step`).
-/

namespace PRpc

open Client (Session session)

/-- The server, and a connection of a client to it. The client is a session whose wire is not used:
its `requests`, `pending`, `frames` and `answers` stay empty. -/
structure Network (m n : ℕ) where
  server : Server.State m n
  client : Session
  /-- The bytes that the client has written and the server has not read. -/
  upstream : Bytes
  /-- The memory of the machine of the server. -/
  memory : Memory

namespace Network

variable {m n : ℕ}

inductive Action (m n : ℕ)
  | client (a : Session.Action)
  | server (a : Server.Action m n)

/-- What a thread of the client does. What it writes goes out as a whole. -/
def stepClient (s : Network m n) (a : Session.Action) : Option (Network m n) :=
  match a with
  | .sendCall k =>
    if s.client.aborted = false ∧ s.client.caller k = .added then
      some { s with
        client := s.client.setCaller k .sent
        upstream := s.upstream ++ (s.client.call k).write }
    else none
  | .request => none
  | .respond _ _ => none
  | a => (s.client.step a).map fun client => { s with client }

/-- The bytes that a step of the server has written on a connection. -/
def wrote (c : Server.ConnId) (s s' : Server.State m n) : Bytes :=
  ((s'.pipe.out c).drop (s.pipe.out c).length).map Prod.snd

/-- Bytes arrive at the client. -/
def deliver (client : Session) (bytes : Bytes) : Session :=
  { client with inbox := { client.inbox with input := client.inbox.input ++ bytes } }

/-- What a thread of the server does. On the connection of the client it reads what the client has
written, and waits for it. -/
def stepServer (c : Server.ConnId) (s : Network m n) (a : Server.Action m n) :
    Option (Network m n) :=
  match s.server.step a with
  | none => none
  | some server =>
    let client := deliver s.client (wrote c s.server server)
    match s.server.input c a with
    | none => some { s with server, client }
    | some input =>
      if input.input = s.upstream ∧ input.memory = s.memory ∧ s.upstream ≠ [] then
        some { s with server, client, upstream := (Server.Call.read c input).2.input }
      else none

/-- The server takes a step, and what it writes on the connection arrives. -/
theorem of_stepServer {c : Server.ConnId} {s s' : Network m n} {a : Server.Action m n}
    (hs : s.stepServer c a = some s') : ∃ server upstream, s.server.step a = some server ∧
      s' = ⟨server, deliver s.client (wrote c s.server server), upstream, s.memory⟩ := by
  unfold stepServer at hs
  split at hs
  · cases hs
  · next server hserver =>
    split at hs
    · cases hs
      exact ⟨server, _, hserver, rfl⟩
    · split at hs <;> cases hs
      exact ⟨server, _, hserver, rfl⟩

def step (c : Server.ConnId) (s : Network m n) : Action m n → Option (Network m n)
  | .client a => s.stepClient a
  | .server a => s.stepServer c a

end Network

/-- The server with `m` readers and `n` handlers, and the client whose connection it calls `c`. -/
def network (m n : ℕ) (c : Server.ConnId) : System (Network m n) (Network.Action m n) where
  init s := ∃ ep fresh memory memory', s = ⟨.start m n, .start ep fresh memory, [], memory'⟩
  step := Network.step c

/-! ## The condition -/

/-- A `MethodWritable`, as `Invocation::invoke` makes it, that can be sent to a machine
with this memory. -/
def Writable.IsRequest (M : Memory) (w : Writable) : Prop :=
  ∃ r : Request, w = r.param ∧ r.Sendable M

instance (M : Memory) : DecidablePred (Writable.IsRequest M)
  | .base => .isFalse fun ⟨_, h, _⟩ => by cases h
  | .int _ => .isFalse fun ⟨_, h, _⟩ => by cases h
  | .method c m ps =>
    decidable_of_iff ((Writable.method c m ps).Sendable M)
      ⟨fun h => ⟨⟨0, c, m, ps⟩, rfl, h⟩, fun ⟨_, heq, h⟩ => heq ▸ h⟩

namespace Network

variable {m n : ℕ}

/-- Fewer than 2 ^ 31 calls are made, for requests that can be sent. The server's passes over the
connection have no write error, find the value and are not disturbed, and a call that it puts back
has room in the response queue. The client's own writes work in any case (`stepClient`). -/
def Proper (c : Server.ConnId) (s : Network m n) : Action m n → Prop
  | .client (.newCall _ param) => s.client.made + 1 < 2 ^ 31 ∧ param.IsRequest s.memory
  | .client _ => True
  | .server a => Server.InLineOn c s.server a

instance (c : Server.ConnId) (s : Network m n) : DecidablePred (Proper c s)
  | .client (.newCall _ param) =>
    inferInstanceAs (Decidable (s.client.made + 1 < 2 ^ 31 ∧ param.IsRequest s.memory))
  | .client (.addCall _) => .isTrue trivial
  | .client (.sendCall _) => .isTrue trivial
  | .client .request => .isTrue trivial
  | .client (.respond _ _) => .isTrue trivial
  | .client .waitForWork => .isTrue trivial
  | .client .recvId => .isTrue trivial
  | .client .lookup => .isTrue trivial
  | .client .recvValue => .isTrue trivial
  | .client (.finish _) => .isTrue trivial
  | .server a => inferInstanceAs (Decidable (Server.InLineOn c s.server a))

/-! ## The session of a network -/

/-- The client's own part of a session. -/
def own (t : Session) : Session :=
  { t with
    requests := [], pending := [], inbox := ⟨[], 0, .whole, 0, 0⟩, frames := []
    answers := fun _ => none }

end Network

/-- A thread of the client has sent the request. -/
def Client.Session.Sent (t : Session) (r : Request) : Prop :=
  ∃ k, (t.caller k = .sent ∨ t.caller k = .returned) ∧ (t.call k).id = r.id ∧
    (t.call k).param = r.param

namespace Network

variable {m n : ℕ}

/-- The network is the session `t`. The server is the service `svc` on the connection and has `rest`
still to send of a reply; `reqs` were sent and not read. -/
structure Joined (c : Server.ConnId) (s : Network m n) (t : Session) (svc : Service Request)
    (rest : Bytes) (reqs : List Request) : Prop where
  own : own t = own s.client
  made : t.made < 2 ^ 31
  params : ∀ k, t.caller k ≠ .unmade → (t.call k).param.IsRequest s.memory
  inbox : t.inbox.input = s.client.inbox.input ++ rest
  requests : t.requests = reqs.map Request.bytes
  upstream : s.upstream = reqs.flatMap Request.bytes
  sent : ∀ r ∈ reqs, r.Sendable s.memory ∧ t.Sent r
  serving : Server.Serving s.server.pipe c svc rest
  pending : t.pending.Perm (svc.pending.map Request.id)
  taken : ∀ r ∈ svc.pending ++ svc.answered, ∃ r₀, t.Sent r₀ ∧ r = (r₀.received c).request
  answers : ∀ id bs, t.answers id = some bs →
    ∃ r ∈ svc.answered, r.id = id ∧ ∃ v, r.result = some v ∧ bs = intBytes v

theorem Joined.start (c : Server.ConnId) (ep : Client.Endpoint) (fresh : CInt)
    (memory memory' : Memory) :
    Joined c (⟨.start m n, .start ep fresh memory, [], memory'⟩ : Network m n)
      (.start ep fresh memory) .start [] [] where
  own := rfl
  made := by show 0 < _; omega
  params _ h := absurd rfl h
  inbox := rfl
  requests := rfl
  upstream := rfl
  sent _ h := absurd h List.not_mem_nil
  serving := Server.Serving.start c
  pending := .nil
  taken _ h := absurd h List.not_mem_nil
  answers _ _ h := by cases h

/-! ## The steps of the client -/

section Client

open Client.Session

variable {c : Server.ConnId} {s s' : Network m n} {t t' client : Session} {svc : Service Request}
  {rest : Bytes} {reqs : List Request} {k : Client.CallId}

theorem sent_mono (hcaller : ∀ k, t.caller k = .sent ∨ t.caller k = .returned →
      t'.caller k = .sent ∨ t'.caller k = .returned)
    (hcall : ∀ k, t.caller k = .sent ∨ t.caller k = .returned →
      (t'.call k).id = (t.call k).id ∧ (t'.call k).param = (t.call k).param) {r : Request}
    (h : t.Sent r) : t'.Sent r := by
  obtain ⟨k, hk, hid, hparam⟩ := h
  obtain ⟨hid', hparam'⟩ := hcall k hk
  exact ⟨k, hcaller k hk, hid'.trans hid, hparam'.trans hparam⟩

theorem sent_of_update {call : Client.Call} {pc : CallerPc}
    (hk : ¬(t.caller k = .sent ∨ t.caller k = .returned))
    (hcaller : t'.caller = Function.update t.caller k pc)
    (hcall : t'.call = Function.update t.call k call) {r : Request} (h : t.Sent r) :
    t'.Sent r := by
  have hne : ∀ j, t.caller j = .sent ∨ t.caller j = .returned → j ≠ k := by
    rintro j hj rfl
    exact hk hj
  refine sent_mono (fun j hj => ?_) (fun j hj => ?_) h
  · rw [hcaller, Function.update_of_ne (hne j hj)]
    exact hj
  · rw [hcall, Function.update_of_ne (hne j hj)]
    exact ⟨rfl, rfl⟩

namespace Joined

/-- The rule for a step of the client that leaves the wire as it is for the session. -/
theorem of_client (h : Joined c s t svc rest reqs) (hown : Network.own t' = Network.own client)
    (hmade : t'.made < 2 ^ 31)
    (hparams : ∀ k, t'.caller k ≠ .unmade → (t'.call k).param.IsRequest s.memory)
    (hinbox : t'.inbox.input = client.inbox.input ++ rest) (hrequests : t'.requests = t.requests)
    (hpending : t'.pending = t.pending) (hanswers : t'.answers = t.answers)
    (hsent : ∀ r, t.Sent r → t'.Sent r) :
    Joined c { s with client } t' svc rest reqs where
  own := hown
  made := hmade
  params := hparams
  inbox := hinbox
  requests := hrequests.trans h.requests
  upstream := h.upstream
  sent r hr := ⟨(h.sent r hr).1, hsent r (h.sent r hr).2⟩
  serving := h.serving
  pending := by rw [hpending]; exact h.pending
  taken r hr := by
    obtain ⟨r₀, hr₀, heq⟩ := h.taken r hr
    exact ⟨r₀, hsent r₀ hr₀, heq⟩
  answers := by rw [hanswers]; exact h.answers

/-! The fields of the two ends that agree. -/

theorem call_eq (h : Joined c s t svc rest reqs) : t.call = s.client.call := by
  have hown := congrArg Session.call h.own
  exact hown

theorem made_eq (h : Joined c s t svc rest reqs) : t.made = s.client.made := by
  have hown := congrArg Session.made h.own
  exact hown

theorem caller_eq (h : Joined c s t svc rest reqs) : t.caller = s.client.caller := by
  have hown := congrArg Session.caller h.own
  exact hown

theorem receiver_eq (h : Joined c s t svc rest reqs) : t.receiver = s.client.receiver := by
  have hown := congrArg Session.receiver h.own
  exact hown

theorem conn_eq (h : Joined c s t svc rest reqs) : t.conn = s.client.conn := by
  have hown := congrArg Session.conn h.own
  exact hown

/-- An operation that does the same to the client's own part at both ends. -/
theorem own_eq (h : Joined c s t svc rest reqs) {f : Session → Session}
    (hf : ∀ u, Network.own (f u) = Network.own (f (Network.own u))) :
    Network.own (f t) = Network.own (f s.client) := by
  rw [hf t, h.own, ← hf s.client]

theorem newCall (h : Joined c s t svc rest reqs) (hx : Indexed t) {id : CInt} {param : Writable}
    (hC : Proper c s (.client (.newCall id param))) :
    Joined c { s with client := s.client.newCall id param } (t.newCall id param) svc rest reqs := by
  obtain ⟨hmade, hparam⟩ := hC
  have hun : t.caller t.made = .unmade := (hx.unmade _).mpr le_rfl
  refine h.of_client (h.own_eq (f := fun u => u.newCall id param) fun _ => rfl) ?_ (fun k hk => ?_)
    h.inbox rfl rfl rfl fun r => sent_of_update (k := t.made) (by simp [hun]) rfl rfl
  · show t.made + 1 < 2 ^ 31
    rw [h.made_eq]
    exact hmade
  · change Function.update t.caller t.made .made k ≠ .unmade at hk
    show (Function.update t.call t.made _ k).param.IsRequest s.memory
    by_cases heq : k = t.made
    · rw [heq, Function.update_self]
      exact hparam
    · rw [Function.update_of_ne heq] at hk ⊢
      exact h.params k hk

theorem register (h : Joined c s t svc rest reqs) (hk : t.caller k = .made) :
    Joined c { s with client := s.client.register k } (t.register k) svc rest reqs := by
  refine h.of_client (h.own_eq (f := fun u => u.register k) fun _ => rfl) h.made (fun j hj => ?_)
    h.inbox rfl rfl rfl fun r => sent_of_update (k := k) (by simp [hk]) rfl rfl
  change Function.update t.caller k .added j ≠ .unmade at hj
  show (Function.update t.call k _ j).param.IsRequest s.memory
  by_cases heq : j = k
  · rw [heq, Function.update_self]
    exact h.params k (by rw [hk]; simp)
  · rw [Function.update_of_ne heq] at hj ⊢
    exact h.params j hj

theorem send (h : Joined c s t svc rest reqs) (hk : t.caller k = .added) :
    ∃ reqs', Joined c { s with
      client := s.client.setCaller k .sent
      upstream := s.upstream ++ (s.client.call k).write } (t.send k) svc rest reqs' := by
  obtain ⟨r₀, hparam, hsendable⟩ := h.params k (by rw [hk]; simp)
  have hmono : ∀ r, t.Sent r → (t.send k).Sent r := by
    refine fun r => sent_mono (fun j hj => ?_) fun j _ => ?_
    · show Function.update t.caller k .sent j = _ ∨ Function.update t.caller k .sent j = _
      by_cases heq : j = k
      · rw [heq, Function.update_self]
        exact .inl rfl
      · rw [Function.update_of_ne heq]
        exact hj
    · exact ⟨rfl, rfl⟩
  -- the request that the thread sends, with the id that the call has got
  let r : Request := { r₀ with id := (t.call k).id }
  have hwrite : (t.call k).write = r.bytes := by
    show intBytes (t.call k).id ++ (t.call k).param.write = intBytes (t.call k).id ++ r.param.write
    rw [hparam]
    rfl
  have hself : (t.send k).Sent r :=
    ⟨k, .inl (Function.update_self ..), rfl, hparam⟩
  refine ⟨reqs ++ [r], ?_, h.made, fun j hj => ?_, h.inbox, ?_, ?_, fun x hx => ?_, h.serving,
    h.pending, fun x hx => ?_, h.answers⟩
  · exact h.own_eq (f := fun u => u.setCaller k .sent) fun _ => rfl
  · change Function.update t.caller k .sent j ≠ .unmade at hj
    show (t.call j).param.IsRequest s.memory
    by_cases heq : j = k
    · rw [heq]
      exact h.params k (by rw [hk]; simp)
    · rw [Function.update_of_ne heq] at hj
      exact h.params j hj
  · show t.requests ++ [(t.call k).write] = _
    rw [h.requests, hwrite, List.map_append, List.map_singleton]
  · show s.upstream ++ (s.client.call k).write = _
    rw [← h.call_eq, hwrite, h.upstream, List.flatMap_append, List.flatMap_singleton]
  · obtain hx | hx := List.mem_append.mp hx
    · exact ⟨(h.sent x hx).1, hmono x (h.sent x hx).2⟩
    · rw [List.mem_singleton.mp hx]
      exact ⟨hsendable, hself⟩
  · obtain ⟨r₁, hr₁, heq⟩ := h.taken x hx
    exact ⟨r₁, hmono r₁ hr₁, heq⟩

theorem setReceiver (h : Joined c s t svc rest reqs) (pc : ReceiverPc) :
    Joined c { s with client := s.client.setReceiver pc } (t.setReceiver pc) svc rest reqs :=
  h.of_client (h.own_eq (f := fun u => u.setReceiver pc) fun _ => rfl) h.made h.params h.inbox
    rfl rfl rfl fun _ hr => hr

theorem receive (h : Joined c s t svc rest reqs) {id : CInt} {inbox : Sock}
    (hin : readInt s.client.inbox = .ok id inbox) :
    ∃ inbox', readInt t.inbox = .ok id inbox' ∧
      Joined c { s with client := s.client.receive id inbox } (t.receive id inbox') svc rest
        reqs := by
  have hinput : t.inbox.input = intBytes id ++ (inbox.input ++ rest) := by
    rw [h.inbox, of_readInt_ok hin, Sock.input_unread, List.append_assoc]
  refine ⟨{ t.inbox with input := inbox.input ++ rest }, ?_, ?_⟩
  · have hread := readInt_unread id { t.inbox with input := inbox.input ++ rest }
    rwa [← Sock.eq_unread hinput] at hread
  · exact h.of_client (h.own_eq (f := fun u => u.receive id inbox) fun _ => rfl) h.made h.params
      rfl rfl rfl rfl fun _ hr => hr

/-- What is the front of a stream of bytes once enough of it has arrived. -/
theorem eq_append_drop {l l' a b : Bytes} (h : l ++ l' = a ++ b) (hlen : a.length ≤ l.length) :
    l = a ++ l.drop a.length ∧ b = l.drop a.length ++ l' := by
  have happend : (l ++ l').take a.length = l.take a.length := List.take_append_of_le_length hlen
  have htake : l.take a.length = a := by
    rw [← happend, h, List.take_left]
  have hl : l = a ++ l.drop a.length := by
    conv_lhs => rw [← List.take_append_drop a.length l, htake]
  refine ⟨hl, ?_⟩
  rw [hl, List.append_assoc] at h
  exact (List.append_cancel_left h).symm

/-- **A value that has arrived** is the rest of the first frame of the session. -/
theorem complete (h : Joined c s t svc rest reqs) (hl : Linked t) {id : CInt}
    (hpc : t.receiver = .found id k) (harrived : s.client.Arrived) :
    ∃ call inbox inbox', t.Arrived ∧ Client.Connection.recvValue (t.call k) t.inbox =
        (some call, inbox') ∧
      Client.Connection.recvValue (s.client.call k) s.client.inbox = (some call, inbox) ∧
      Joined c { s with client := s.client.complete k call inbox } (t.complete k call inbox') svc
        rest reqs := by
  obtain ⟨bs, tail, inbox', hf, harr, hin, -, hval⟩ := recvValue_eq hl.indexed hl.wired hpc
  -- the value is an `int`, which every machine can take
  have hbs : bs.length < s.client.inbox.memory.limit := by
    obtain ⟨-, -, -, v, -, rfl⟩ := h.answers id bs (hl.wired.answers (id, bs) (by simp [hf])).1
    exact Memory.length_intBytes_lt _ v
  have hclass : (s.client.call k).valueClass = ascii "IntWritable" := by
    obtain ⟨-, hreg⟩ := hl.indexed.of_lookup id k (hl.wired.found id k hpc)
    rw [← h.call_eq]
    exact hl.indexed.valueClass k fun hun => by rw [hun] at hreg; exact hreg
  -- the length of the value is read from the bytes that have arrived
  obtain ⟨h8, hlen⟩ := harrived
  have hinput : s.client.inbox.input ++ rest = sizeBytes bs.length ++ bs ++ inbox'.input := by
    rw [← h.inbox, hin]
  obtain ⟨hfront, -⟩ := eq_append_drop (a := sizeBytes bs.length) (b := bs ++ inbox'.input)
    (by rw [hinput, List.append_assoc]) (by rw [length_sizeBytes]; exact h8)
  have hn : LittleEndian.ofLE (s.client.inbox.input.take 8) = bs.length := by
    rw [hfront, List.take_left' (length_sizeBytes _)]
    exact ofLE_sizeBytes (hbs.trans (Memory.lt _ |>.trans (by decide)))
  rw [hn] at hlen
  obtain ⟨hall, hrest⟩ := eq_append_drop hinput
    (by rw [List.length_append, length_sizeBytes]; exact hlen)
  obtain ⟨inbox, hinbox, hval'⟩ := Client.Connection.recvValue_int hclass
    (s := { s.client.inbox with
      input := s.client.inbox.input.drop (sizeBytes bs.length ++ bs).length }) hbs
  rw [← Sock.eq_unread hall] at hval'
  refine ⟨_, inbox, inbox', harr, ?_, hval', ?_⟩
  · rw [hval, h.call_eq]
  · refine h.of_client (h.own_eq (f := fun u => u.complete k _ inbox) fun _ => rfl) h.made
      (fun j hj => ?_) ?_ rfl rfl rfl ?_
    · show (Function.update t.call k _ j).param.IsRequest s.memory
      by_cases heq : j = k
      · subst heq
        rw [Function.update_self, ← h.call_eq]
        exact h.params j hj
      · rw [Function.update_of_ne heq]
        exact h.params j hj
    · show inbox'.input = inbox.input ++ rest
      rw [hinbox]
      exact hrest
    · refine fun r => sent_mono (fun j hj => ?_) fun j _ => ?_
      · exact hj
      show (Function.update t.call k _ j).id = _ ∧ (Function.update t.call k _ j).param = _
      by_cases heq : j = k
      · subst heq
        rw [Function.update_self, ← h.call_eq]
        exact ⟨rfl, rfl⟩
      · rw [Function.update_of_ne heq]
        exact ⟨rfl, rfl⟩

theorem finish (h : Joined c s t svc rest reqs) (hk : t.caller k = .sent) :
    Joined c { s with client := s.client.setCaller k .returned } (t.setCaller k .returned) svc rest
      reqs := by
  refine h.of_client (h.own_eq (f := fun u => u.setCaller k .returned) fun _ => rfl) h.made
    (fun j hj => ?_) h.inbox rfl rfl rfl ?_
  · change Function.update t.caller k .returned j ≠ .unmade at hj
    show (t.call j).param.IsRequest s.memory
    by_cases heq : j = k
    · subst heq
      exact h.params j (by rw [hk]; simp)
    · rw [Function.update_of_ne heq] at hj
      exact h.params j hj
  · refine fun r => sent_mono (fun j hj => ?_) fun j _ => ?_
    · show Function.update t.caller k .returned j = _ ∨ Function.update t.caller k .returned j = _
      by_cases heq : j = k
      · rw [heq, Function.update_self]
        exact .inr rfl
      · rw [Function.update_of_ne heq]
        exact hj
    · exact ⟨rfl, rfl⟩

theorem client_step (h : Joined c s t svc rest reqs) (hl : Linked t) {a : Session.Action}
    (hC : Proper c s (.client a)) (hs : s.stepClient a = some s') :
    ∃ b t' reqs', session.step t b = some t' ∧ Joined c s' t' svc rest reqs' := by
  have hstep : ∀ b, session.step t b = t.act b := fun b =>
    if_neg (by rw [hl.answered.alive]; exact Bool.false_ne_true)
  have hact : ∀ {b client}, s.client.step b = some client → s.client.act b = some client := by
    intro b client hb
    unfold Session.step at hb
    split at hb
    · cases hb
    · exact hb
  cases a with
  | newCall id param =>
    obtain ⟨client, hcl, rfl⟩ := Option.map_eq_some_iff.mp hs
    cases hact hcl
    exact ⟨.newCall id param, _, reqs, hstep _, h.newCall hl.indexed hC⟩
  | addCall k =>
    obtain ⟨client, hcl, rfl⟩ := Option.map_eq_some_iff.mp hs
    have hcl := hact hcl
    simp only [act] at hcl
    split at hcl
    · next hk =>
      cases hcl
      rw [← h.caller_eq] at hk
      exact ⟨.addCall k, _, reqs, (hstep _).trans (if_pos hk), h.register hk⟩
    · cases hcl
  | sendCall k =>
    simp only [stepClient] at hs
    split at hs
    · next hk =>
      cases hs
      have hk := hk.2
      rw [← h.caller_eq] at hk
      obtain ⟨reqs', h'⟩ := h.send hk
      exact ⟨.sendCall k, _, reqs', (hstep _).trans (if_pos hk), h'⟩
    · cases hs
  | request => cases hs
  | respond id bs => cases hs
  | waitForWork =>
    obtain ⟨client, hcl, rfl⟩ := Option.map_eq_some_iff.mp hs
    have hcl := hact hcl
    simp only [act] at hcl
    split at hcl
    · next hk =>
      cases hcl
      rw [← h.receiver_eq, ← h.conn_eq] at hk
      exact ⟨.waitForWork, _, reqs, (hstep _).trans (if_pos hk), h.setReceiver _⟩
    · cases hcl
  | recvId =>
    obtain ⟨client, hcl, rfl⟩ := Option.map_eq_some_iff.mp hs
    have hcl := hact hcl
    simp only [act] at hcl
    split at hcl
    · next id inbox hpc hread =>
      cases hcl
      rw [← h.receiver_eq] at hpc
      obtain ⟨inbox', hread', h'⟩ := h.receive hread
      refine ⟨.recvId, _, reqs, (hstep _).trans ?_, h'⟩
      simp only [act, hpc, hread']
    · cases hcl
  | lookup =>
    obtain ⟨client, hcl, rfl⟩ := Option.map_eq_some_iff.mp hs
    have hcl := hact hcl
    simp only [act] at hcl
    split at hcl
    · next id hpc =>
      rw [← h.receiver_eq] at hpc
      obtain ⟨k, hk, -⟩ := hl.wired.awaited_current id (by rw [hpc]; rfl)
      rw [← h.conn_eq, hk] at hcl
      cases hcl
      refine ⟨.lookup, _, reqs, (hstep _).trans ?_, h.setReceiver (.found id k)⟩
      simp only [act, hpc, hk]
    · cases hcl
  | recvValue =>
    obtain ⟨client, hcl, rfl⟩ := Option.map_eq_some_iff.mp hs
    have hcl := hact hcl
    simp only [act] at hcl
    split at hcl
    · next id k hpc =>
      rw [← h.receiver_eq] at hpc
      split at hcl
      · next harr =>
        obtain ⟨call, inbox, inbox', harr', hval', hval, h'⟩ := h.complete hl hpc harr
        rw [hval] at hcl
        cases hcl
        refine ⟨.recvValue, _, reqs, (hstep _).trans ?_, h'⟩
        simp only [act, hpc, harr', hval', if_true]
      · cases hcl
    · cases hcl
  | finish k =>
    obtain ⟨client, hcl, rfl⟩ := Option.map_eq_some_iff.mp hs
    have hcl := hact hcl
    simp only [act] at hcl
    split at hcl
    · next hk =>
      cases hcl
      rw [← h.caller_eq, ← h.call_eq] at hk
      exact ⟨.finish k, _, reqs, (hstep _).trans (if_pos hk), h.finish hk.1⟩
    · cases hcl

end Joined

end Client

end Network

end PRpc
