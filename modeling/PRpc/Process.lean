import PRpc.Invocation
import PRpc.Whole

/-!
# The process of the clients and the server

A process that makes remote calls through any number of clients, and the whole server. Client `i` is
connected to the server by its connection `d`, which is `c` there. What the other connections are
given is anything.

A write of the client that fails throws, which ends the process in `Invocation::invoke`; but a
`MethodWritable` among the arguments turns what is thrown in its own `write` into a `-1` that nobody
looks at (`sendCallPart`). As long as the process runs and no write is lost in this way, the client
and the server are a `Whole` on the connection (`whole_of_reach`), and whoever returns from
`RPC::invoke` through it has the result of the method that was named, on the arguments that were
given (`answers_of_reach`).
-/

namespace PRpc

open Function

structure Process (m n : ℕ) where
  server : Server.State m n
  rpc : RPC.State
  /-- The bytes that the client has written on the connection and the server has not read. -/
  upstream : Bytes
  /-- What has arrived at the client. -/
  inbox : Sock
  /-- The memory of the machine of the server. -/
  memory : Memory

namespace Process

variable {m n : ℕ}

inductive Action (m n : ℕ)
  | rpc (a : RPC.Action)
  | server (a : Server.Action m n)
  /-- `sendCall` on the connection, where a write fails inside a `MethodWritable` that is an
  argument: these bytes go out. -/
  | sendCallPart (k : Client.CallId) (bytes : Bytes)

/-- The client and the server. -/
def whole (i : ℕ) (s : Process m n) : Whole m n :=
  ⟨s.server, s.rpc.client i, s.upstream, s.inbox, s.memory⟩

/-- What a thread of the process does. -/
def stepRpc (i : ℕ) (d : Client.ConnId) (s : Process m n) (a : RPC.Action) :
    Option (Process m n) :=
  match s.rpc.step a with
  | none => none
  | some rpc =>
    match a with
    | .client j b =>
      if j = i ∧ (s.rpc.client i).throws b = false then
        ((s.whole i).stepClient d b).map fun w =>
          { s with rpc, upstream := w.upstream, inbox := w.inbox }
      else some { s with rpc }
    | .invoke _ _ => some { s with rpc }

/-- What a thread of the server does. -/
def stepServer (i : ℕ) (c : Server.ConnId) (s : Process m n) (a : Server.Action m n) :
    Option (Process m n) :=
  ((s.whole i).stepServer c a).map fun w =>
    { s with server := w.server, upstream := w.upstream, inbox := w.inbox }

/-- `sendCall` returns, and the request has not gone out as a whole. -/
def sendCallPart (i : ℕ) (d : Client.ConnId) (s : Process m n) (k : Client.CallId)
    (bytes : Bytes) : Option (Process m n) :=
  if (s.rpc.client i).caller k = .got d ∧ ((s.rpc.client i).conn d).sock = .connected ∧
      ((s.rpc.client i).call k).param.nests = true then
    (s.rpc.step (.client i (.sendCall k true))).map fun rpc =>
      { s with rpc, upstream := s.upstream ++ bytes }
  else none

def step (i : ℕ) (c : Server.ConnId) (d : Client.ConnId) (s : Process m n) :
    Action m n → Option (Process m n)
  | .rpc a => s.stepRpc i d a
  | .server a => s.stepServer i c a
  | .sendCallPart k bytes => s.sendCallPart i d k bytes

end Process

/-- A process just started, and the server with `m` readers and `n` handlers. -/
def process (m n i : ℕ) (c : Server.ConnId) (d : Client.ConnId) :
    System (Process m n) (Process.Action m n) where
  init s := ∃ fresh memory memory',
    s = ⟨.start m n, .start, [], ⟨[], fresh, memory, 0, 0⟩, memory'⟩
  step := Process.step i c d

namespace Process

variable {m n i : ℕ} {c : Server.ConnId} {d : Client.ConnId} {s s' : Process m n}

/-- The client makes fewer than 2 ^ 31 calls, for requests that can be sent with an `IntWritable` as
result, and no failing write of it gets lost in a `MethodWritable`. The server's passes over the
connection have no write error, find the value and are not disturbed, and a call that it puts back
has room in the response queue. -/
def Proper (i : ℕ) (c : Server.ConnId) (s : Process m n) : Action m n → Prop
  | .rpc (.invoke inv _) => s.rpc.clientFor inv = i → inv.valueClass = ascii "IntWritable" ∧
      (s.rpc.client i).lastCall + 1 < 2 ^ 31 ∧
      (Writable.method inv.className inv.methodName inv.args).IsRequest s.memory
  | .rpc (.client _ _) => True
  | .server a => Server.InLineOn c s.server a
  | .sendCallPart _ _ => False

instance (i : ℕ) (c : Server.ConnId) (s : Process m n) : DecidablePred (Proper i c s)
  | .rpc (.invoke inv _) => inferInstanceAs (Decidable (s.rpc.clientFor inv = i →
      inv.valueClass = ascii "IntWritable" ∧ (s.rpc.client i).lastCall + 1 < 2 ^ 31 ∧
      (Writable.method inv.className inv.methodName inv.args).IsRequest s.memory))
  | .rpc (.client _ _) => .isTrue trivial
  | .server a => inferInstanceAs (Decidable (Server.InLineOn c s.server a))
  | .sendCallPart _ _ => .isFalse id

/-! ## The client in the process -/

theorem rpc_step {a : RPC.Action} (hs : s.stepRpc i d a = some s') :
    s.rpc.step a = some s'.rpc := by
  unfold stepRpc at hs
  split at hs
  · cases hs
  next rpc hrpc =>
  split at hs
  · split at hs
    · obtain ⟨w, -, rfl⟩ := Option.map_eq_some_iff.mp hs
      exact hrpc
    · cases hs
      exact hrpc
  · cases hs
    exact hrpc

theorem rpc_of_reach {C : Process m n → Action m n → Prop} (h : (process m n i c d).Reach C s) :
    RPC.rpc.Reachable s.rpc := by
  refine h.project (f := Process.rpc) ?_ fun s a s' _ hs => ?_
  · rintro _ ⟨fresh, memory, memory', rfl⟩
    exact rfl
  cases a with
  | rpc a => exact .inr ⟨a, trivial, rpc_step (show s.stepRpc i d a = some s' from hs)⟩
  | server a =>
    obtain ⟨w, -, rfl⟩ := Option.map_eq_some_iff.mp
      (show ((s.whole i).stepServer c a).map _ = some s' from hs)
    exact .inl rfl
  | sendCallPart k bytes =>
    change s.sendCallPart i d k bytes = some s' at hs
    unfold sendCallPart at hs
    split at hs
    · obtain ⟨rpc, hrpc, rfl⟩ := Option.map_eq_some_iff.mp hs
      exact .inr ⟨.client i (.sendCall k true), trivial, hrpc⟩
    · cases hs

/-- **What a step of the process does to the client and the server**, if it does not end it. -/
theorem whole_stepRpc {a : RPC.Action} (hs : s.stepRpc i d a = some s')
    (hrun : s'.rpc.status = .running) : s'.whole i = s.whole i ∨ ∃ b,
      (s.whole i).stepClient d b = some (s'.whole i) ∧
      (Proper i c s (.rpc a) → Whole.Proper c (s.whole i) (.client b)) := by
  obtain ⟨-, hm⟩ := RPC.State.moves_of_step (rpc_step hs)
  unfold stepRpc at hs
  split at hs
  · cases hs
  next rpc hrpc =>
  cases a with
  | invoke inv id =>
    dsimp only at hs
    cases hs
    change RPC.Moves s.rpc _ rpc at hm
    cases hm with
    | fails => cases hrun
    | @invoke _ _ param client hparam hclient =>
      obtain rfl := Invocation.of_param hparam
      by_cases heq : s.rpc.clientFor inv = i
      · rw [heq] at hclient
        refine .inr ⟨.newCall inv.ep inv.valueClass _ id, ?_, fun hC => hC heq⟩
        unfold Whole.stepClient
        rw [show (s.whole i).client = s.rpc.client i from rfl, hclient]
        refine congrArg some ?_
        unfold whole RPC.State.invoked
        rw [heq]
        dsimp only
        rw [update_self]
      · left
        unfold whole RPC.State.invoked
        dsimp only
        rw [update_of_ne (Ne.symm heq)]
  | client j b =>
    dsimp only at hs
    by_cases hown : j = i ∧ (s.rpc.client i).throws b = false
    · rw [if_pos hown] at hs
      obtain ⟨w, hw, rfl⟩ := Option.map_eq_some_iff.mp hs
      obtain ⟨rfl, -⟩ := hown
      change RPC.Moves s.rpc _ rpc at hm
      cases hm with
      | @client _ _ client ha hclient =>
        refine .inr ⟨b, ?_, fun _ => ?_⟩
        · -- the client of both takes the same step
          obtain ⟨hclient', hserver, hmemory⟩ := Whole.client_stepClient hw
          have hmoved : (s.rpc.moved j b client).client j = w.client :=
            (update_self ..).trans (Option.some.inj (hclient.symm.trans hclient'))
          rw [hw]
          unfold whole
          dsimp only
          rw [hmoved, show s.server = w.server from hserver.symm,
            show s.memory = w.memory from hmemory.symm]
        · cases b with
          | newCall => exact (ha _ _ _ _ rfl).elim
          | _ => trivial
    · rw [if_neg hown] at hs
      cases hs
      change RPC.Moves s.rpc _ rpc at hm
      cases hm with
      | @client _ _ client ha hclient =>
        have hne : i ≠ j := by
          rintro rfl
          have hthrows : (s.rpc.client i).throws b = true := by simpa using hown
          change (if (s.rpc.client i).throws b then _ else _) = _ at hrun
          rw [if_pos hthrows] at hrun
          cases hrun
        left
        unfold whole RPC.State.moved
        dsimp only
        rw [update_of_ne hne]

/-- **As long as the process runs**, the client and the server are connected as in a `Whole`. -/
theorem whole_of_reach (h : (process m n i c d).Reach (Proper i c) s)
    (hrun : s.rpc.status = .running) : (PRpc.whole m n c d).Reach (Whole.Proper c) (s.whole i) := by
  induction h with
  | init h0 =>
    obtain ⟨fresh, memory, memory', rfl⟩ := h0
    exact .init ⟨fresh, memory, memory', rfl⟩
  | @step s s' a hr hC hs ih =>
    cases a with
    | rpc a =>
      change s.stepRpc i d a = some s' at hs
      have hw := ih (RPC.State.moves_of_step (rpc_step hs)).1
      obtain heq | ⟨b, hb, hproper⟩ := whole_stepRpc (c := c) hs hrun
      · rw [heq]
        exact hw
      · exact hw.step (hproper hC) hb
    | server a =>
      obtain ⟨w, hw, rfl⟩ := Option.map_eq_some_iff.mp
        (show ((s.whole i).stepServer c a).map _ = some s' from hs)
      obtain ⟨hclient, hmemory⟩ := Whole.client_stepServer hw
      change w.client = s.rpc.client i at hclient
      change w.memory = s.memory at hmemory
      have hsame : w = whole i { s with
          server := w.server, upstream := w.upstream, inbox := w.inbox } := by
        unfold whole
        dsimp only
        rw [← hclient, ← hmemory]
      rw [← hsame]
      exact (ih hrun).step (a := .server a) hC hw
    | sendCallPart => exact hC.elim

/-! ## What is returned -/

/-- What `RPC::invoke` returns through the connection. -/
structure Answers (i : ℕ) (d : Client.ConnId) (s : Process m n) : Prop where
  /-- The result of the method that was named on the arguments that were given: the server has
  decoded these, and the client the result. -/
  own : ∀ r ∈ s.rpc.invocations, r.client = i → r.Through d s.rpc → r.Returned s.rpc →
    ∃ v : CInt, Method.call r.inv.className r.inv.methodName (Writable.narrowAll r.inv.args) =
      .ok (some (.int v)) ∧ (r.callOf s.rpc).value = some (.int (lowByte v))
  create : ∀ r ∈ s.rpc.invocations, r.client = i → r.Through d s.rpc → r.Returned s.rpc →
    ∀ ep a₀ a₁ a₂ a₃, r.inv = DataNodeProtocol.invocation ep a₀ a₁ a₂ a₃ →
      (r.callOf s.rpc).value = some (.int (lowByte (a₀ + a₁ + a₂ + a₃)))
  /-- No response on the connection ends the process. -/
  reads : ∀ input s', s.stepRpc i d (.client i (.recvRespond d input)) = some s' →
    s'.rpc.status = .running

/-- **What comes back through the connection is right**, as long as the process runs. -/
theorem answers_of_reach (h : (process m n i c d).Reach (Proper i c) s)
    (hrun : s.rpc.status = .running) : Answers i d s := by
  have hw := whole_of_reach h hrun
  have hS := RPC.sound_of_reachable (rpc_of_reach h)
  have hown (r : RPC.Invoked) (hi : r.client = i) (hd : r.Through d s.rpc)
      (hreturned : r.Returned s.rpc) : Network.OwnResult (r.callOf s.rpc) := by
    subst hi
    obtain ⟨id, hid⟩ := hd
    exact Whole.ownResult_of_reach hw hid (hS.returned hrun r.client r.call hreturned)
  refine ⟨fun r hr hi hd hreturned => ?_, fun r hr hi hd hreturned ep a₀ a₁ a₂ a₃ hinv => ?_,
    fun input s' hs => ?_⟩
  · obtain ⟨q, hq, v, hv, hvalue⟩ := hown r hi hd hreturned
    obtain ⟨hclass, hmethod, hparams⟩ := Writable.method.inj ((hS.invoked r hr).param.symm.trans hq)
    rw [hclass, hmethod, hparams]
    exact ⟨v, hv, hvalue⟩
  · have hparam : (r.callOf s.rpc).param = (DataNodeProtocol.request 0 a₀ a₁ a₂ a₃).param := by
      rw [(hS.invoked r hr).param, hinv]
      exact (Invocation.of_param (DataNodeProtocol.param_invocation ep 0 a₀ a₁ a₂ a₃)).symm
    exact (hown r hi hd hreturned).create hparam
  · obtain ⟨-, hm⟩ := RPC.State.moves_of_step (rpc_step hs)
    unfold stepRpc at hs
    split at hs
    · cases hs
    next rpc hrpc =>
    dsimp only at hs
    rw [if_pos ⟨rfl, rfl⟩] at hs
    obtain ⟨w, hw', rfl⟩ := Option.map_eq_some_iff.mp hs
    change RPC.Moves s.rpc _ rpc at hm
    cases hm with
    | @client _ _ client ha hclient =>
      obtain ⟨hclient', -, -⟩ := Whole.client_stepClient hw'
      obtain rfl := Option.some.inj (hclient.symm.trans hclient')
      exact (Whole.reads_of_reach hw hw').1

/-- Two machines with all the memory there can be. -/
def starting : Process 2 2 := ⟨.start 2 2, .start, [], ⟨[], 0, .whole, 0, 0⟩, .whole⟩

/-- A thread calls `create`, the server answers, and the thread returns. -/
def created : List (Action 2 2) :=
  .rpc (.invoke (DataNodeProtocol.invocation Client.peer 12 23 34 45) 9) ::
  ((Client.upToResponse.tail.map fun a => .rpc (.client 0 a)) ++
    (Whole.answering.map Action.server ++
      [.rpc (.client 0 (.recvRespond 0
        ⟨intBytes 0 ++ sizeBytes 4 ++ intBytes 114, 0, .whole, 0, 0⟩)),
        .rpc (.client 0 (.finish 0))]))

theorem answers_of_reach_created : ∃ s r,
    (process 2 2 0 0 0).run (Proper 0 0) starting created = some s ∧
    s.rpc.invocations = [r] ∧ r.Returned s.rpc ∧ Answers 0 0 s := by
  have hrun : ((process 2 2 0 0 0).run (Proper 0 0) starting created).any
      (fun s => s.rpc.status = .running ∧ s.rpc.invocations.length = 1 ∧
        s.rpc.invocations.all (RPC.Invoked.Returned s.rpc)) = true := by decide +kernel
  obtain ⟨s, hs, hfacts⟩ := (Option.any_eq_true _ _).mp hrun
  obtain ⟨hrunning, hone, hreturned⟩ := of_decide_eq_true hfacts
  obtain ⟨r, hr⟩ := List.length_eq_one_iff.mp hone
  rw [hr] at hreturned
  exact ⟨s, r, hs, hr, by simpa using hreturned,
    answers_of_reach (.run (.init ⟨_, _, _, rfl⟩) hs) hrunning⟩

end Process

end PRpc
