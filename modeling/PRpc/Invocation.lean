import PRpc.Client.Lasting
import PRpc.Client.Thread
import PRpc.Remote

/-!
# `RPC::invoke`

What a program calls. `ClientCache` has one client for each type of sockets, which it makes at the
first call and never removes. An `Invocation` collects the arguments in a `MethodWritable` and calls
the client; what is thrown there ends the process.

Any number of threads, each in one `RPC::invoke`, and the threads of all clients. An invocation gets
its client and makes its call in one step: in between it works on its own objects. The arguments are
not null.

As long as the process runs, no invocation returns without a value (`invokes_of_reach`), and the
invocations for one type of sockets and one endpoint share a connection that was used
(`endures_of_run`).
-/

namespace PRpc

open Function

/-- The arguments of `RPC::invoke`. -/
structure Invocation where
  sockType : Bytes
  ep : Client.Endpoint
  valueClass : Bytes
  className : Bytes
  methodName : Bytes
  args : List Writable

namespace Invocation

/-- The arguments go to the end of `_params` one by one, and each is printed for the log. -/
def getParams (params : List Writable) : List Writable → Except Exn (List Writable)
  | [] => .ok params
  | p :: pn =>
    match p.printToString with
    | .error e => .error e
    | .ok _ => getParams (params ++ [p]) pn

/-- The `MethodWritable` for the client. -/
def param (inv : Invocation) : Except Exn Writable :=
  match getParams [] inv.args with
  | .error e => .error e
  | .ok params => .ok (.method inv.className inv.methodName params)

theorem of_getParams {params pn params' : List Writable} (h : getParams params pn = .ok params') :
    params' = params ++ pn := by
  induction pn generalizing params with
  | nil =>
    cases h
    rw [List.append_nil]
  | cons p pn ih =>
    unfold getParams at h
    split at h
    · cases h
    · rw [ih h, List.append_assoc, List.singleton_append]

theorem of_param {inv : Invocation} {param : Writable} (h : inv.param = .ok param) :
    param = .method inv.className inv.methodName inv.args := by
  unfold Invocation.param at h
  split at h
  · cases h
  · next params heq =>
    cases h
    rw [of_getParams heq, List.nil_append]

end Invocation

/-- `DataNodeProtocol::create`. -/
def DataNodeProtocol.invocation (ep : Client.Endpoint) (a₀ a₁ a₂ a₃ : CInt) : Invocation :=
  ⟨ascii "standard", ep, ascii "IntWritable", ascii "NameNode", ascii "create",
    [.int a₀, .int a₁, .int a₂, .int a₃]⟩

theorem DataNodeProtocol.param_invocation (ep : Client.Endpoint) (id a₀ a₁ a₂ a₃ : CInt) :
    (invocation ep a₀ a₁ a₂ a₃).param = .ok (request id a₀ a₁ a₂ a₃).param := rfl

namespace RPC

/-! ## The clients -/

/-- `_clients`, and the clients made so far. -/
structure ClientCache where
  clients : Bytes → Option ℕ
  made : ℕ

/-- The client for a type of sockets, in the section of `_mutex`. -/
def ClientCache.getClient (cache : ClientCache) (sockType : Bytes) : ClientCache × ℕ :=
  match cache.clients sockType with
  | none => (⟨update cache.clients sockType (some cache.made), cache.made + 1⟩, cache.made)
  | some client => (cache, client)

/-- Every client is for one type. -/
structure ClientCache.Sound (cache : ClientCache) : Prop where
  made : ∀ sockType i, cache.clients sockType = some i → i < cache.made
  distinct : ∀ sockType sockType' i, cache.clients sockType = some i →
    cache.clients sockType' = some i → sockType = sockType'

namespace ClientCache

variable {cache : ClientCache} {sockType sockType' : Bytes} {i : ℕ}

theorem getClient_self (cache : ClientCache) (sockType : Bytes) :
    (cache.getClient sockType).1.clients sockType = some (cache.getClient sockType).2 := by
  unfold getClient
  split
  · exact update_self ..
  · assumption

theorem getClient_mono (h : cache.clients sockType' = some i) :
    (cache.getClient sockType).1.clients sockType' = some i := by
  unfold getClient
  split
  · next hnone =>
    have hne : sockType' ≠ sockType := by
      rintro rfl
      rw [hnone] at h
      cases h
    exact (update_of_ne hne ..).trans h
  · exact h

theorem Sound.getClient (h : cache.Sound) (sockType : Bytes) :
    (cache.getClient sockType).1.Sound := by
  unfold ClientCache.getClient
  split
  · refine ⟨fun t i hi => ?_, fun t t' i hi hi' => ?_⟩
    · change update cache.clients sockType _ t = some i at hi
      rw [update_apply] at hi
      split at hi
      · cases hi
        exact Nat.lt_succ_self _
      · exact Nat.lt_succ_of_lt (h.made t i hi)
    · change update cache.clients sockType _ t = some i at hi
      change update cache.clients sockType _ t' = some i at hi'
      rw [update_apply] at hi hi'
      split at hi <;> split at hi'
      · next ht ht' => rw [ht, ht']
      · cases hi
        exact absurd (h.made t' _ hi') (Nat.lt_irrefl _)
      · cases hi'
        exact absurd (h.made t _ hi) (Nat.lt_irrefl _)
      · exact h.distinct t t' i hi hi'
  · exact h

end ClientCache

/-! ## The process -/

/-- An invocation, with its client and its call. -/
structure Invoked where
  inv : Invocation
  client : ℕ
  call : Client.CallId

structure State where
  cache : ClientCache
  client : ℕ → Client.State
  invocations : List Invoked
  status : Client.Status

def State.start : State := ⟨⟨fun _ => none, 0⟩, fun _ => .start, [], .running⟩

inductive Action
  /-- `id` is what the uninitialised `_id` of the call holds. -/
  | invoke (inv : Invocation) (id : CInt)
  /-- A thread of a client, and an invocation in `Client::call`. -/
  | client (i : ℕ) (a : Client.Action)

namespace State

/-- The client for an invocation. -/
def clientFor (s : State) (inv : Invocation) : ℕ := (s.cache.getClient inv.sockType).2

/-- The invocation has made its call. -/
def invoked (s : State) (inv : Invocation) (client : Client.State) : State :=
  { s with
    cache := (s.cache.getClient inv.sockType).1
    client := update s.client (s.clientFor inv) client
    invocations := s.invocations ++
      [⟨inv, s.clientFor inv, (s.client (s.clientFor inv)).lastCall⟩] }

/-- An exception in `Invocation::invoke` before the call. -/
def fails (s : State) (inv : Invocation) : State :=
  { s with cache := (s.cache.getClient inv.sockType).1, status := .aborted }

def invoke (s : State) (inv : Invocation) (id : CInt) : Option State :=
  match inv.param with
  | .error _ => some (s.fails inv)
  | .ok param =>
    ((s.client (s.clientFor inv)).step (.newCall inv.ep inv.valueClass param id)).map
      (s.invoked inv)

/-- A client has taken a step. What ends it ends the process, and so does what `call` throws. -/
def moved (s : State) (i : ℕ) (a : Client.Action) (client : Client.State) : State :=
  { s with
    client := update s.client i client
    status := if (s.client i).throws a then .aborted else client.status }

def stepClient (s : State) (i : ℕ) (a : Client.Action) : Option State :=
  match a with
  | .newCall _ _ _ _ => none
  | a => ((s.client i).step a).map (s.moved i a)

def step (s : State) (a : Action) : Option State :=
  if s.status = .running then
    match a with
    | .invoke inv id => s.invoke inv id
    | .client i a => s.stepClient i a
  else none

end State

/-- A process that makes remote calls. -/
def rpc : System State Action where
  init s := s = .start
  step := State.step

/-- The steps. -/
inductive Moves : State → Action → State → Prop
  | fails {s inv id e} (hparam : inv.param = .error e) : Moves s (.invoke inv id) (s.fails inv)
  | invoke {s inv id param client} (hparam : inv.param = .ok param)
      (hs : (s.client (s.clientFor inv)).step (.newCall inv.ep inv.valueClass param id) =
        some client) : Moves s (.invoke inv id) (s.invoked inv client)
  | client {s i a client} (ha : ∀ ep valueClass param id, a ≠ .newCall ep valueClass param id)
      (hs : (s.client i).step a = some client) : Moves s (.client i a) (s.moved i a client)

variable {s s' t : State} {a : Action} {i : ℕ} {c : Client.ConnId}

theorem State.moves_of_step (h : s.step a = some s') : s.status = .running ∧ Moves s a s' := by
  unfold step at h
  split at h
  · next hrun =>
    refine ⟨hrun, ?_⟩
    cases a with
    | invoke inv id =>
      dsimp only at h
      unfold invoke at h
      split at h
      · next e hparam =>
        cases h
        exact .fails hparam
      · next param hparam =>
        obtain ⟨client, hs, rfl⟩ := Option.map_eq_some_iff.mp h
        exact .invoke hparam hs
    | client i a =>
      dsimp only at h
      unfold stepClient at h
      split at h
      · cases h
      · next ha =>
        obtain ⟨client, hs, rfl⟩ := Option.map_eq_some_iff.mp h
        exact .client ha hs
  · cases h

theorem Moves.client_cases (hm : Moves s a s') (i : ℕ) :
    s'.client i = s.client i ∨ ∃ b, (s.client i).step b = some (s'.client i) := by
  have hupdate {j : ℕ} {b : Client.Action} {client : Client.State}
      (hs : (s.client j).step b = some client) (heq : s'.client = update s.client j client) :
      s'.client i = s.client i ∨ ∃ b, (s.client i).step b = some (s'.client i) := by
    rw [heq]
    by_cases hi : i = j
    · rw [hi, update_self]
      exact .inr ⟨b, hs⟩
    · exact .inl (update_of_ne hi ..)
  cases hm with
  | fails => exact .inl rfl
  | invoke hparam hs => exact hupdate hs rfl
  | client ha hs => exact hupdate hs rfl

theorem Moves.clients_mono (hm : Moves s a s') {sockType : Bytes}
    (h : s.cache.clients sockType = some i) : s'.cache.clients sockType = some i := by
  cases hm with
  | fails | invoke => exact ClientCache.getClient_mono h
  | client => exact h

/-! ## The invocations -/

namespace Invoked

/-- The `Call` object of an invocation. -/
def callOf (s : State) (r : Invoked) : Client.Call := (s.client r.client).call r.call

/-- The invocation is at the end of `Client::call`. -/
def Returned (s : State) (r : Invoked) : Prop := (s.client r.client).caller r.call = .returned

instance (s : State) (r : Invoked) : Decidable (r.Returned s) :=
  inferInstanceAs (Decidable (_ = _))

/-- The call of the invocation is registered on a connection of its client. -/
def Through (d : Client.ConnId) (s : State) (r : Invoked) : Prop :=
  ∃ id, ((s.client r.client).conn d).calls.lookup id = some r.call

/-- The client of an invocation is that for its type, and its call carries its arguments. -/
structure Sound (s : State) (r : Invoked) : Prop where
  client : s.cache.clients r.inv.sockType = some r.client
  made : r.call < (s.client r.client).lastCall
  param : (r.callOf s).param = .method r.inv.className r.inv.methodName r.inv.args
  valueClass : (r.callOf s).valueClass = r.inv.valueClass

theorem Sound.step {r : Invoked} (h : r.Sound s) (hm : Moves s a s') : r.Sound s' := by
  have hclient := hm.clients_mono h.client
  rcases hm.client_cases r.client with heq | ⟨b, hs⟩
  · refine ⟨hclient, ?_, ?_, ?_⟩
    · rw [heq]
      exact h.made
    · unfold callOf
      rw [heq]
      exact h.param
    · unfold callOf
      rw [heq]
      exact h.valueClass
  · have hm' := Client.State.moves_of_step hs
    obtain ⟨hparam, hclass⟩ := hm'.request_eq h.made
    exact ⟨hclient, h.made.trans_le hm'.lastCall_le, hparam.trans h.param,
      hclass.trans h.valueClass⟩

end Invoked

/-- What holds in every state. -/
structure Sound (s : State) : Prop where
  cache : s.cache.Sound
  clients : ∀ i, Client.client.Reachable (s.client i)
  invoked : ∀ r ∈ s.invocations, r.Sound s
  nodup : (s.invocations.map fun r => (r.client, r.call)).Nodup
  running : s.status = .running → ∀ i, (s.client i).status = .running
  returned : s.status = .running → ∀ i k, (s.client i).caller k = .returned →
    ((s.client i).call k).done = true

namespace Sound

theorem start : Sound .start where
  cache := ⟨fun _ _ h => (by cases h), fun _ _ _ h => (by cases h)⟩
  clients _ := .init rfl
  invoked _ h := by cases h
  nodup := List.nodup_nil
  running _ _ := rfl
  returned _ _ _ h := by cases h

theorem returned_step (h : Sound s) (hrun : s.status = .running) {b : Client.Action}
    {client : Client.State} (hs : (s.client i).step b = some client)
    (hthrows : (s.client i).throws b = false) (j : ℕ) (k : Client.CallId)
    (hk : (update s.client i client j).caller k = .returned) :
    ((update s.client i client j).call k).done = true := by
  by_cases heq : j = i
  · subst heq
    rw [update_self] at hk ⊢
    exact Client.State.done_of_returned hs (Client.managed_of_reachable (h.clients j)) hthrows
      (h.returned hrun j k) hk
  · rw [update_of_ne heq] at hk ⊢
    exact h.returned hrun j k hk

theorem step (h : Sound s) (hrun : s.status = .running) (hm : Moves s a s') : Sound s' := by
  have hclients : ∀ i, Client.client.Reachable (s'.client i) := fun i => by
    rcases hm.client_cases i with heq | ⟨b, hs⟩
    · exact heq ▸ h.clients i
    · exact (h.clients i).step trivial hs
  have hinvoked : ∀ r ∈ s.invocations, r.Sound s' := fun r hr => (h.invoked r hr).step hm
  cases hm with
  | fails => exact ⟨h.cache.getClient _, hclients, hinvoked, h.nodup, nofun, nofun⟩
  | @invoke inv id param client hparam hs =>
    obtain rfl := Invocation.of_param hparam
    have hclient : client = (s.client (s.clientFor inv)).newCall inv.ep
        ⟨inv.valueClass, id, .method inv.className inv.methodName inv.args, none, false⟩ := by
      cases Client.State.moves_of_step hs
      rfl
    have hself : (s.invoked inv client).client (s.clientFor inv) = client := update_self ..
    refine ⟨h.cache.getClient _, hclients, fun r hr => ?_, ?_, fun _ i => ?_, fun _ =>
      h.returned_step hrun hs rfl⟩
    · obtain hr | hr := List.mem_append.mp hr
      · exact hinvoked r hr
      · -- the invocation that is new
        obtain rfl := List.mem_singleton.mp hr
        refine ⟨ClientCache.getClient_self .., ?_, ?_, ?_⟩
        · rw [hself, hclient]
          exact Nat.lt_succ_self _
        · unfold Invoked.callOf
          rw [hself, hclient]
          show (update (s.client (s.clientFor inv)).call _ _ _).param = _
          rw [update_self]
        · unfold Invoked.callOf
          rw [hself, hclient]
          show (update (s.client (s.clientFor inv)).call _ _ _).valueClass = _
          rw [update_self]
    · show ((s.invocations ++ [_]).map _).Nodup
      rw [List.map_append, List.nodup_append]
      refine ⟨h.nodup, List.nodup_singleton _, fun x hx y hy heq => ?_⟩
      obtain ⟨r, hr, rfl⟩ := List.mem_map.mp hx
      obtain rfl := List.mem_singleton.mp hy
      obtain ⟨hi, hk⟩ := Prod.mk.inj heq
      have hlt := (h.invoked r hr).made
      rw [hi, hk] at hlt
      exact Nat.lt_irrefl _ hlt
    · show (update s.client _ client i).status = .running
      by_cases hi : i = s.clientFor inv
      · rw [hi, update_self, hclient]
        exact h.running hrun _
      · rw [update_of_ne hi]
        exact h.running hrun i
  | @client i b client ha hs =>
    have hstatus (hrun' : (s.moved i b client).status = .running) :
        (s.client i).throws b = false ∧ client.status = .running := by
      unfold State.moved at hrun'
      dsimp only at hrun'
      split at hrun'
      · cases hrun'
      · next ht => exact ⟨by simpa using ht, hrun'⟩
    refine ⟨h.cache, hclients, hinvoked, h.nodup, fun hrun' j => ?_, fun hrun' =>
      h.returned_step hrun hs (hstatus hrun').1⟩
    show (update s.client i client j).status = .running
    by_cases heq : j = i
    · rw [heq, update_self]
      exact (hstatus hrun').2
    · rw [update_of_ne heq]
      exact h.running hrun j

end Sound

theorem sound_of_reachable (h : rpc.Reachable s) : Sound s := by
  refine h.invariant (by rintro _ rfl; exact .start) fun s a s' hI _ hs => ?_
  obtain ⟨hrun, hm⟩ := State.moves_of_step hs
  exact hI.step hrun hm

/-- What the invocations are. -/
structure Invokes (s : State) : Prop where
  /-- There is one client for each type of sockets. -/
  clients : ∀ r ∈ s.invocations, ∀ r' ∈ s.invocations,
    r.client = r'.client ↔ r.inv.sockType = r'.inv.sockType
  /-- Each invocation has a call of its own, which carries what it was given. -/
  calls : (s.invocations.map fun r => (r.client, r.call)).Nodup
  request : ∀ r ∈ s.invocations,
    (r.callOf s).param = .method r.inv.className r.inv.methodName r.inv.args ∧
      (r.callOf s).valueClass = r.inv.valueClass
  /-- None returns without a value, and the value is of the class that was asked for. -/
  value : s.status = .running → ∀ r ∈ s.invocations, r.Returned s →
    ∃ val, (r.callOf s).value = some val ∧ val.getClass = r.inv.valueClass

/-- **`RPC::invoke` returns with a value** or not at all, whatever the servers send. -/
theorem invokes_of_reach (h : rpc.Reachable s) : Invokes s := by
  have hS := sound_of_reachable h
  refine ⟨fun r hr r' hr' => ⟨fun heq => ?_, fun heq => ?_⟩, hS.nodup, fun r hr => ?_,
    fun hrun r hr hreturned => ?_⟩
  · refine hS.cache.distinct _ _ _ (hS.invoked r hr).client ?_
    rw [heq]
    exact (hS.invoked r' hr').client
  · have hclient := (hS.invoked r hr).client
    rw [heq, (hS.invoked r' hr').client] at hclient
    exact (Option.some.inj hclient).symm
  · exact ⟨(hS.invoked r hr).param, (hS.invoked r hr).valueClass⟩
  · have hdone := hS.returned hrun r.client r.call hreturned
    obtain ⟨-, val, hval, hclass⟩ := Client.valued_of_reachable (hS.clients r.client) r.call hdone
    exact ⟨val, hval, hclass.trans (hS.invoked r hr).valueClass⟩

/-! ## A shared connection -/

/-- What is so in `t`, some time after the connection `c` of the client `i` for a type of sockets
was used in `s`: invocations for the type have this client, and for the endpoint this connection. -/
structure Endures (s : State) (sockType : Bytes) (i : ℕ) (c : Client.ConnId) (t : State) :
    Prop where
  cached : ∀ inv : Invocation, inv.sockType = sockType → t.clientFor inv = i
  clients : ∀ r ∈ t.invocations, r.inv.sockType = sockType → r.client = i
  lasts : Client.Lasts (s.client i) c (t.client i)

theorem clientFor_of_clients {inv : Invocation} (h : s.cache.clients inv.sockType = some i) :
    s.clientFor inv = i := by
  unfold State.clientFor ClientCache.getClient
  rw [h]

theorem Endures.of_lasts {sockType : Bytes} (ht : rpc.Reachable t)
    (hi : t.cache.clients sockType = some i) (h : Client.Lasts (s.client i) c (t.client i)) :
    Endures s sockType i c t where
  cached inv heq := clientFor_of_clients (heq ▸ hi)
  clients r hr heq := by
    have hclient := ((sound_of_reachable ht).invoked r hr).client
    rw [heq, hi] at hclient
    exact (Option.some.inj hclient).symm
  lasts := h

/-- **Invocations share a connection that was used**, whatever the threads do. -/
theorem endures_of_run {sockType : Bytes} {as : List Action} (hr : rpc.Reachable s)
    (hi : s.cache.clients sockType = some i) (h : Client.Used (s.client i) c)
    (hrun : rpc.run (fun _ _ => True) s as = some t) : Endures s sockType i c t := by
  have hstart := Client.Lasts.refl ((sound_of_reachable hr).clients i) h
  suffices hkeep : ∀ u, rpc.Reachable u → u.cache.clients sockType = some i →
      Client.Lasts (s.client i) c (u.client i) → ∀ as t,
        rpc.run (fun _ _ => True) u as = some t → Endures s sockType i c t from
    hkeep s hr hi hstart as t hrun
  intro u hu hcached hlasts as t hrun
  induction as generalizing u with
  | nil =>
    cases hrun
    exact .of_lasts hu hcached hlasts
  | cons a as ih =>
    obtain ⟨v, hv, hrest⟩ := System.exists_step_of_run hrun
    have hm := (State.moves_of_step hv).2
    refine ih v (hu.step trivial hv) (hm.clients_mono hcached) ?_ hrest
    rcases hm.client_cases i with heq | ⟨b, hs⟩
    · exact heq ▸ hlasts
    · exact hlasts.step ((sound_of_reachable hu).clients i) hs

/-- A thread calls `create`, one of another type of sockets makes its call, and the first one is
answered. -/
def twoTypes : List Action :=
  .invoke (DataNodeProtocol.invocation Client.peer 12 23 34 45) 9 ::
  .invoke { DataNodeProtocol.invocation Client.peer 1 2 3 4 with sockType := ascii "other" } 9 ::
  ((Client.upToResponse.tail ++ [Client.Action.recvRespond 0 Client.oneResponse, .finish 0]).map
    (Action.client 0))

theorem invokes_of_reach_twoTypes : ∃ s r,
    rpc.run (fun _ _ => True) .start twoTypes = some s ∧ s.status = .running ∧
    s.invocations.head? = some r ∧ r.Returned s ∧ Invokes s := by
  have hrun : (rpc.run (fun _ _ => True) .start twoTypes).any (fun s =>
      s.status = .running ∧ s.invocations.head?.any (Invoked.Returned s)) = true := by
    decide +kernel
  obtain ⟨s, hs, hfacts⟩ := (Option.any_eq_true _ _).mp hrun
  obtain ⟨hrunning, hhead⟩ := of_decide_eq_true hfacts
  obtain ⟨r, hr, hreturned⟩ := (Option.any_eq_true _ _).mp hhead
  exact ⟨s, r, hs, hrunning, hr, of_decide_eq_true hreturned,
    invokes_of_reach (.run (.init rfl) hs)⟩

/-- Later calls of `create`. -/
def callsAgain : List Action :=
  [.invoke (DataNodeProtocol.invocation Client.peer 5 6 7 8) 9, .client 0 (.waitForWork 0),
    .client 0 (.getConnection 1 true)]

theorem endures_of_run_callsAgain : ∃ s t,
    rpc.run (fun _ _ => True) .start twoTypes = some s ∧
    rpc.run (fun _ _ => True) s callsAgain = some t ∧ Endures s (ascii "standard") 0 0 t := by
  have hrun : (rpc.run (fun _ _ => True) .start twoTypes).any (fun s =>
      s.cache.clients (ascii "standard") = some 0 ∧ (0 ∈ ((s.client 0).conn 0).calls ∧
        (s.client 0).receiver 0 = .waiting 0 ∧ ((s.client 0).conn 0).shouldClose = false) ∧
      (rpc.run (fun _ _ => True) s callsAgain).isSome) = true := by decide +kernel
  obtain ⟨s, hs, hfacts⟩ := (Option.any_eq_true _ _).mp hrun
  obtain ⟨hi, ⟨hid, hreceiver, hclose⟩, hrun'⟩ := of_decide_eq_true hfacts
  obtain ⟨t, ht⟩ := Option.isSome_iff_exists.mp hrun'
  exact ⟨s, t, hs, ht, endures_of_run (.run (.init rfl) hs) hi
    ⟨⟨0, hid⟩, by simp [hreceiver], hclose⟩ ht⟩

end RPC

end PRpc
