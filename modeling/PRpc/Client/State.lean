import PRpc.Client.Connection
import PRpc.Library.Transition
import Mathlib.Logic.Function.Basic

/-!
# The threads of a client

Any number of threads in `Client::call`, one call each, and a receiver thread for each connection
that has started one. `getConnection` runs under `_mutex_client`, so one thread at a time is inside
it, and `removeConnection` waits until there is none; but the receiver threads go on meanwhile, and
one of them may be that of the connection in question.

Memory is not exhausted, so `getConnection` and `addCall` throw nothing. `_should_stop` is never
set.
-/

namespace PRpc.Client

/-! ## The state -/

/-- Where the thread of a call is in `Client::call`. -/
inductive CallerPc
  | unmade
  /-- Before `getConnection`. -/
  | made (ep : Endpoint)
  /-- Inside it. -/
  | getting
  /-- Before `sendCall`. -/
  | got (c : ConnId)
  /-- In `wait`. -/
  | waiting (c : ConnId)
  | returned
  deriving DecidableEq, Repr

/-- Where a thread is in `getConnection`. -/
inductive GetPc
  /-- With the connection found or made, before `connect`. -/
  | connecting
  /-- In `connect`, with a socket just connected. -/
  | starting
  /-- Before `addCall`; what `connect` returned is not looked at. -/
  | adding
  /-- At the end, with the result. -/
  | returning (conn : Option ConnId)
  deriving DecidableEq, Repr

/-- The thread that holds `_mutex_client` in `getConnection`. -/
structure Getting where
  ep : Endpoint
  call : CallId
  conn : ConnId
  pc : GetPc
  deriving DecidableEq, Repr

/-- Where the receiver thread of a connection is. -/
inductive ReceiverPc
  /-- It was not started. -/
  | off
  /-- In `waitForWork`, after `rep` waits that timed out. -/
  | waiting (rep : ℕ)
  | receiving
  /-- In `waitForWork`, before `markClosed`. -/
  | timedOut
  /-- In `close`, before the socket is deleted. -/
  | closing
  | removing
  | cleaning
  | exited
  deriving DecidableEq, Repr

/-- After `markClosed`. -/
def ReceiverPc.Closing : ReceiverPc → Prop
  | .off | .waiting _ | .receiving | .timedOut => False
  | .closing | .removing | .cleaning | .exited => True

inductive Status
  | running
  | aborted
  /-- An exception that nobody catches, or undefined behaviour. -/
  | crashed
  deriving DecidableEq, Repr

structure State where
  connections : Bytes → Option ConnId
  lastConnectionIndex : ℕ
  conn : ConnId → Connection
  receiver : ConnId → ReceiverPc
  lastCall : ℕ
  call : CallId → Call
  caller : CallId → CallerPc
  getting : Option Getting
  status : Status

/-- A client just made. -/
def State.start : State where
  connections _ := none
  lastConnectionIndex := 0
  conn _ := .new ⟨[], 0⟩ .null
  receiver _ := .off
  lastCall := 0
  call _ := .blank
  caller _ := .unmade
  getting := none
  status := .running

/-! ## What the threads do -/

/-- How the `connect` of a new socket ends. -/
inductive ConnectResult
  /-- The socket object could not be made. -/
  | noSocket
  | refused
  | connected
  deriving DecidableEq, Repr

/-- `_max_wait_rep`. -/
def maxWaitRep : ℕ := 5

inductive Action
  /-- `id` is what the uninitialised `_id` holds. -/
  | newCall (ep : Endpoint) (valueClass : Bytes) (param : Writable) (id : CInt)
  /-- `getConnection` up to `connect`; whether the `_sock` of a new object happens to be null. -/
  | getConnection (k : CallId) (isNull : Bool)
  | connect (result : ConnectResult)
  | startThread (ok : Bool)
  | addCall
  /-- The end of `getConnection`. -/
  | leave
  /-- Whether the writes on a connected socket succeed. -/
  | sendCall (k : CallId) (ok : Bool)
  | finish (k : CallId)
  /-- One wait of `waitForWork`. -/
  | waitForWork (c : ConnId)
  /-- `input` is what the socket will deliver. -/
  | recvRespond (c : ConnId) (input : Sock)
  | markClosed (c : ConnId)
  | closeSock (c : ConnId)
  | removeConnection (c : ConnId)
  | cleanupCalls (c : ConnId)

/-- `connect` makes a new socket; otherwise it returns `true` at once. -/
def Connection.Opens (conn : Connection) : Prop := conn.shouldClose = false ∧ conn.sock = .null

instance (conn : Connection) : Decidable conn.Opens := inferInstanceAs (Decidable (_ ∧ _))

theorem update_field {γ : Type} (p : Connection → γ) {f : ConnId → Connection} {c : ConnId}
    {conn : Connection} (h : p conn = p (f c)) (c' : ConnId) :
    p (Function.update f c conn c') = p (f c') := by
  by_cases heq : c' = c
  · rw [heq, Function.update_self, h]
  · rw [Function.update_of_ne heq]

namespace State

def setConn (s : State) (c : ConnId) (conn : Connection) : State :=
  { s with conn := Function.update s.conn c conn }

def setCall (s : State) (k : CallId) (call : Call) : State :=
  { s with call := Function.update s.call k call }

def setCaller (s : State) (k : CallId) (pc : CallerPc) : State :=
  { s with caller := Function.update s.caller k pc }

def setReceiver (s : State) (c : ConnId) (pc : ReceiverPc) : State :=
  { s with receiver := Function.update s.receiver c pc }

/-- The thread in `getConnection` goes on. -/
def goOn (s : State) (g : Getting) (pc : GetPc) : State := { s with getting := some { g with pc } }

def crash (s : State) : State := { s with status := .crashed }

def newCall (s : State) (ep : Endpoint) (call : Call) : State :=
  { (s.setCall s.lastCall call).setCaller s.lastCall (.made ep) with lastCall := s.lastCall + 1 }

/-- A new connection for an endpoint. -/
def create (s : State) (ep : Endpoint) (isNull : Bool) : State :=
  { s.setConn s.lastConnectionIndex (.new ep (if isNull then .null else .wild)) with
    connections := Function.update s.connections ep.key (some s.lastConnectionIndex)
    lastConnectionIndex := s.lastConnectionIndex + 1 }

/-- The thread of a call is in `getConnection` with a connection. -/
def enter (s : State) (ep : Endpoint) (k : CallId) (c : ConnId) : State :=
  { s.setCaller k .getting with getting := some ⟨ep, k, c, .connecting⟩ }

def getConnection (s : State) (k : CallId) (isNull : Bool) : Option State :=
  match s.getting, s.caller k with
  | none, .made ep =>
    match s.connections ep.key with
    | some c => some (s.enter ep k c)
    | none => some ((s.create ep isNull).enter ep k s.lastConnectionIndex)
  | _, _ => none

/-- The socket that `connect` has made. -/
def setSock (s : State) (g : Getting) (sock : SockPtr) : State :=
  s.setConn g.conn { s.conn g.conn with sock }

/-- The first part of `connect`. -/
def connect (s : State) (g : Getting) (result : ConnectResult) : State :=
  if (s.conn g.conn).Opens then
    match result with
    | .noSocket => s.goOn g .adding
    | .refused => (s.setSock g .unconnected).goOn g .adding
    | .connected => (s.setSock g .connected).goOn g .starting
  else s.goOn g .adding

/-- The receiver thread is started. -/
def started (s : State) (g : Getting) : State :=
  (s.setConn g.conn { s.conn g.conn with recvStarted := true }).setReceiver g.conn (.waiting 0)

/-- The second part of `connect`. -/
def startThread (s : State) (g : Getting) (ok : Bool) : State :=
  if (s.conn g.conn).recvStarted = false ∧ ok = true then (s.started g).goOn g .adding
  else s.goOn g .adding

def addCall (s : State) (g : Getting) : State :=
  ((s.setCall g.call ((s.call g.call).setId (s.conn g.conn).lastCallIndex)).setConn g.conn
    ((s.conn g.conn).addCall g.call)).goOn g (.returning (some g.conn))

/-- `call` returns `NULL` without a connection. -/
def leave (s : State) (g : Getting) (conn : Option ConnId) : State :=
  { s.setCaller g.call (conn.elim .returned .got) with getting := none }

/-- `write` throws if it fails, as on a socket that is not connected; the other pointers are not to
be used. -/
def sendCall (s : State) (k : CallId) (c : ConnId) (ok : Bool) : State :=
  match (s.conn c).sock with
  | .connected => s.setCaller k (if ok then .waiting c else .returned)
  | .unconnected => s.setCaller k .returned
  | .null | .wild | .deleted => s.crash

def waitForWork (s : State) (c : ConnId) (rep : ℕ) : State :=
  s.setReceiver c
    (if (s.conn c).calls.entries ≠ [] then .receiving
    else if rep + 1 < maxWaitRep then .waiting (rep + 1)
    else .timedOut)

def recvRespond (s : State) (c : ConnId) (input : Sock) : State :=
  let find := fun id => (s.conn c).calls.lookup id
  match (Connection.recvRespond (fun id => (find id).map s.call) input).1 with
  | .abort => { s with status := .aborted }
  | .crash => s.crash
  | .logged _ => s.setReceiver c (.waiting 0)
  | .set id call => ((find id).elim s fun k => s.setCall k call).setReceiver c (.waiting 0)

def markClosed (s : State) (c : ConnId) : State :=
  (s.setConn c { s.conn c with shouldClose := true }).setReceiver c .closing

def closeSock (s : State) (c : ConnId) : State :=
  (s.setConn c { s.conn c with sock := .deleted }).setReceiver c .removing

def removeConnection (s : State) (c : ConnId) : State :=
  { s.setReceiver c .cleaning with
    connections := Function.update s.connections (s.conn c).ep.key none }

/-- The loop advances the iterator of an entry that it has erased. -/
def cleanupCalls (s : State) (c : ConnId) : State :=
  if (s.conn c).calls.entries = [] then s.setReceiver c .exited else s.crash

/-! ### What an operation leaves as it is -/

section Fields

variable (s : State) (g : Getting) (k : CallId) (c : ConnId) (result : ConnectResult) (ok : Bool)

@[simp] theorem connect_call : (s.connect g result).call = s.call := by
  unfold connect
  (repeat' split) <;> rfl

@[simp] theorem connect_caller : (s.connect g result).caller = s.caller := by
  unfold connect
  (repeat' split) <;> rfl

@[simp] theorem connect_receiver : (s.connect g result).receiver = s.receiver := by
  unfold connect
  (repeat' split) <;> rfl

@[simp] theorem connect_lastConnectionIndex :
    (s.connect g result).lastConnectionIndex = s.lastConnectionIndex := by
  unfold connect
  (repeat' split) <;> rfl

@[simp] theorem connect_connections : (s.connect g result).connections = s.connections := by
  unfold connect
  (repeat' split) <;> rfl

theorem connect_field {γ : Type} (p : Connection → γ)
    (hp : ∀ conn : Connection, ∀ sock, p { conn with sock } = p conn) (c' : ConnId) :
    p ((s.connect g result).conn c') = p (s.conn c') := by
  unfold connect
  split
  · split
    · rfl
    · exact update_field p (hp _ _) c'
    · exact update_field p (hp _ _) c'
  · rfl

@[simp] theorem startThread_call : (s.startThread g ok).call = s.call := by
  unfold startThread
  split <;> rfl

@[simp] theorem startThread_caller : (s.startThread g ok).caller = s.caller := by
  unfold startThread
  split <;> rfl

@[simp] theorem startThread_lastConnectionIndex :
    (s.startThread g ok).lastConnectionIndex = s.lastConnectionIndex := by
  unfold startThread
  split <;> rfl

theorem startThread_field {γ : Type} (p : Connection → γ)
    (hp : ∀ conn : Connection, ∀ recvStarted, p { conn with recvStarted } = p conn) (c' : ConnId) :
    p ((s.startThread g ok).conn c') = p (s.conn c') := by
  unfold startThread
  split
  · exact update_field p (hp _ _) c'
  · rfl

@[simp] theorem sendCall_call : (s.sendCall k c ok).call = s.call := by
  unfold sendCall
  split <;> rfl

@[simp] theorem sendCall_connections : (s.sendCall k c ok).connections = s.connections := by
  unfold sendCall
  split <;> rfl

@[simp] theorem sendCall_conn : (s.sendCall k c ok).conn = s.conn := by
  unfold sendCall
  split <;> rfl

@[simp] theorem sendCall_receiver : (s.sendCall k c ok).receiver = s.receiver := by
  unfold sendCall
  split <;> rfl

@[simp] theorem sendCall_getting : (s.sendCall k c ok).getting = s.getting := by
  unfold sendCall
  split <;> rfl

@[simp] theorem sendCall_lastConnectionIndex :
    (s.sendCall k c ok).lastConnectionIndex = s.lastConnectionIndex := by
  unfold sendCall
  split <;> rfl

@[simp] theorem cleanupCalls_call : (s.cleanupCalls c).call = s.call := by
  unfold cleanupCalls
  split <;> rfl

@[simp] theorem cleanupCalls_conn : (s.cleanupCalls c).conn = s.conn := by
  unfold cleanupCalls
  split <;> rfl

@[simp] theorem cleanupCalls_caller : (s.cleanupCalls c).caller = s.caller := by
  unfold cleanupCalls
  split <;> rfl

@[simp] theorem cleanupCalls_getting : (s.cleanupCalls c).getting = s.getting := by
  unfold cleanupCalls
  split <;> rfl

@[simp] theorem cleanupCalls_lastConnectionIndex :
    (s.cleanupCalls c).lastConnectionIndex = s.lastConnectionIndex := by
  unfold cleanupCalls
  split <;> rfl

end Fields

/-- What an action does in a running client. -/
def act (s : State) : Action → Option State
  | .newCall ep valueClass param id => some (s.newCall ep { valueClass, id, param })
  | .getConnection k isNull => s.getConnection k isNull
  | .connect result =>
    s.getting.bind fun g => if g.pc = .connecting then some (s.connect g result) else none
  | .startThread ok =>
    s.getting.bind fun g => if g.pc = .starting then some (s.startThread g ok) else none
  | .addCall => s.getting.bind fun g => if g.pc = .adding then some (s.addCall g) else none
  | .leave =>
    s.getting.bind fun g =>
      match g.pc with
      | .returning conn => some (s.leave g conn)
      | _ => none
  | .sendCall k ok =>
    match s.caller k with
    | .got c => some (s.sendCall k c ok)
    | _ => none
  | .finish k =>
    match s.caller k with
    | .waiting _ => if (s.call k).done then some (s.setCaller k .returned) else none
    | _ => none
  | .waitForWork c =>
    match s.receiver c with
    | .waiting rep => some (s.waitForWork c rep)
    | _ => none
  | .recvRespond c input =>
    if s.receiver c = .receiving then some (s.recvRespond c input) else none
  | .markClosed c => if s.receiver c = .timedOut then some (s.markClosed c) else none
  | .closeSock c => if s.receiver c = .closing then some (s.closeSock c) else none
  | .removeConnection c =>
    if s.receiver c = .removing ∧ s.getting = none then some (s.removeConnection c) else none
  | .cleanupCalls c => if s.receiver c = .cleaning then some (s.cleanupCalls c) else none

def step (s : State) (a : Action) : Option State := if s.status = .running then s.act a else none

end State

def client : System State Action where
  init s := s = .start
  step := State.step

/-! ## What a step can be -/

/-- The steps, one constructor for each place in the code. -/
inductive Moves : State → Action → State → Prop
  | newCall {s ep valueClass param id} :
      Moves s (.newCall ep valueClass param id) (s.newCall ep { valueClass, id, param })
  | reuse {s ep k c isNull} (hg : s.getting = none) (hk : s.caller k = .made ep)
      (hc : s.connections ep.key = some c) : Moves s (.getConnection k isNull) (s.enter ep k c)
  | create {s ep k isNull} (hg : s.getting = none) (hk : s.caller k = .made ep)
      (hc : s.connections ep.key = none) :
      Moves s (.getConnection k isNull)
        ((s.create ep isNull).enter ep k s.lastConnectionIndex)
  | connect {s g result} (hg : s.getting = some g) (hpc : g.pc = .connecting) :
      Moves s (.connect result) (s.connect g result)
  | startThread {s g ok} (hg : s.getting = some g) (hpc : g.pc = .starting) :
      Moves s (.startThread ok) (s.startThread g ok)
  | addCall {s g} (hg : s.getting = some g) (hpc : g.pc = .adding) :
      Moves s .addCall (s.addCall g)
  | leave {s g conn} (hg : s.getting = some g) (hpc : g.pc = .returning conn) :
      Moves s .leave (s.leave g conn)
  | sendCall {s k c ok} (hk : s.caller k = .got c) : Moves s (.sendCall k ok) (s.sendCall k c ok)
  | finish {s k c} (hk : s.caller k = .waiting c) : Moves s (.finish k) (s.setCaller k .returned)
  | waitForWork {s c rep} (hc : s.receiver c = .waiting rep) :
      Moves s (.waitForWork c) (s.waitForWork c rep)
  | recvRespond {s c input} (hc : s.receiver c = .receiving) :
      Moves s (.recvRespond c input) (s.recvRespond c input)
  | markClosed {s c} (hc : s.receiver c = .timedOut) : Moves s (.markClosed c) (s.markClosed c)
  | closeSock {s c} (hc : s.receiver c = .closing) : Moves s (.closeSock c) (s.closeSock c)
  | removeConnection {s c} (hc : s.receiver c = .removing) (hg : s.getting = none) :
      Moves s (.removeConnection c) (s.removeConnection c)
  | cleanupCalls {s c} (hc : s.receiver c = .cleaning) :
      Moves s (.cleanupCalls c) (s.cleanupCalls c)

namespace State

variable {s s' : State} {a : Action}

theorem moves_of_act (h : s.act a = some s') : Moves s a s' := by
  cases a with
  | newCall ep valueClass param id => cases h; exact .newCall
  | getConnection k isNull =>
    simp only [act, getConnection] at h
    split at h
    · next hg hk =>
      split at h
      · next hc => cases h; exact .reuse hg hk hc
      · next hc => cases h; exact .create hg hk hc
    · cases h
  | connect result =>
    obtain ⟨g, hg, h⟩ := Option.bind_eq_some_iff.mp h
    split at h
    · cases h; exact .connect hg ‹_›
    · cases h
  | startThread ok =>
    obtain ⟨g, hg, h⟩ := Option.bind_eq_some_iff.mp h
    split at h
    · cases h; exact .startThread hg ‹_›
    · cases h
  | addCall =>
    obtain ⟨g, hg, h⟩ := Option.bind_eq_some_iff.mp h
    split at h
    · cases h; exact .addCall hg ‹_›
    · cases h
  | leave =>
    obtain ⟨g, hg, h⟩ := Option.bind_eq_some_iff.mp h
    split at h
    · cases h; exact .leave hg ‹_›
    · cases h
  | sendCall k ok =>
    simp only [act] at h
    split at h
    · cases h; exact .sendCall ‹_›
    · cases h
  | finish k =>
    simp only [act] at h
    split at h
    · next hk =>
      split at h
      · cases h; exact .finish hk
      · cases h
    · cases h
  | waitForWork c =>
    simp only [act] at h
    split at h
    · cases h; exact .waitForWork ‹_›
    · cases h
  | recvRespond c input =>
    simp only [act] at h
    split at h
    · cases h; exact .recvRespond ‹_›
    · cases h
  | markClosed c =>
    simp only [act] at h
    split at h
    · cases h; exact .markClosed ‹_›
    · cases h
  | closeSock c =>
    simp only [act] at h
    split at h
    · cases h; exact .closeSock ‹_›
    · cases h
  | removeConnection c =>
    simp only [act] at h
    split at h
    · next hc => cases h; exact .removeConnection hc.1 hc.2
    · cases h
  | cleanupCalls c =>
    simp only [act] at h
    split at h
    · cases h; exact .cleanupCalls ‹_›
    · cases h

theorem moves_of_step (h : s.step a = some s') : Moves s a s' := by
  unfold step at h
  split at h
  · exact moves_of_act h
  · cases h

end State

end PRpc.Client
