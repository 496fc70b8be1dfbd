import PRpc.Server.State

/-!
# The steps of the server

`step` runs one action, `none` where the thread is not there or has to wait. A timed push fails
exactly when its queue is full at that moment; the state after `std::abort` has no further step.
`Moves` says the same as a relation, one constructor for each way in which an action can go: what
has to hold before, and the state after (`moves_of_step`). The invariants go by cases on it.
-/

namespace PRpc.Server

open Queue

variable {m n : ℕ}

/-! ## The listener -/

namespace Listener

/-- `handle_accept`: the first read of the new socket is registered. -/
def handleAccept (l : Listener m) : Listener m :=
  { l with accepted := l.accepted + 1, pendingReads := l.pendingReads ++ [l.accepted] }

/-- The completion of a registered read is taken by the listener thread. -/
def complete (l : Listener m) (e : Ep) : Listener m :=
  { l with pendingReads := l.pendingReads.erase e }

/-- A new connection for an endpoint. -/
def create (l : Listener m) (e : Ep) : Listener m :=
  { l with
    connections := Function.update l.connections e (some l.lastConnectionIndex)
    endpoint := Function.update l.endpoint l.lastConnectionIndex e
    lastConnectionIndex := l.lastConnectionIndex + 1
    numConnections := l.numConnections + 1 }

/-- `addToReader` before its loop, and at the end of a round that failed. -/
def nextReader (l : Listener m) (c : ConnId) (retryTimes : ℕ) : Listener m :=
  { l with pc := .adding c retryTimes, lastReaderIndex := (l.lastReaderIndex + 1) % m }

/-- `handle_read` without an error, up to the loop of `addToReader`. -/
def handleRead (l : Listener m) (e : Ep) : Option (Listener m) :=
  if l.pc = .idle ∧ e ∈ l.pendingReads ∧ l.mutexConns = false then
    match l.connections e with
    | some c => some ((l.complete e).nextReader c 0)
    | none => some (((l.complete e).create e).nextReader l.lastConnectionIndex 0)
  else none

def setReader (l : Listener m) (r : Fin m) (reader : Reader) : Listener m :=
  { l with readers := Function.update l.readers r reader }

/-- The reader goes on to `pc`. -/
def setReaderPc (l : Listener m) (r : Fin m) (pc : ReaderPc) : Listener m :=
  l.setReader r { l.readers r with pc }

/-- `add` succeeded. -/
def added (l : Listener m) (r : Fin m) (q : List ConnId) : Listener m :=
  { l.setReader r { l.readers r with bqConn := q } with pc := .idle }

/-- `_bq_conn.pop()` in a reader. -/
def popConn (l : Listener m) (r : Fin m) : Option (Listener m) :=
  match (l.readers r).pc, tryPop (l.readers r).bqConn with
  | .idle, some (c, q) => some (l.setReader r ⟨q, .reading c⟩)
  | _, _ => none

/-- The connection is registered for another read, with which `_do_read` returns. Nothing follows
the registration there, so the two are one step. -/
def rearm (l : Listener m) (r : Fin m) (c : ConnId) : Listener m :=
  { l.setReaderPc r .idle with pendingReads := l.pendingReads ++ [l.endpoint c] }

/-- `close_connection` by a reader. -/
def closeConnection (l : Listener m) (r : Fin m) (c : ConnId) : Listener m :=
  { l.setReaderPc r .idle with
    closed := Function.update l.closed c true
    connections := Function.update l.connections (l.endpoint c) none
    numConnections := l.numConnections - 1 }

/-- `close` threw: the socket is closed all the same, and nobody unlocks `_mutex_conns`. -/
def closeThrows (l : Listener m) (r : Fin m) (c : ConnId) : Listener m :=
  { l.setReaderPc r .idle with closed := Function.update l.closed c true, mutexConns := true }

end Listener

/-! ## The pipeline -/

namespace Pipeline

def setPc (p : Pipeline m n) (t : Thread n) (pc : Pc) : Pipeline m n :=
  { p with pc := Function.update p.pc t pc }

def setPlace (p : Pipeline m n) (k : CallId) (place : Place m n) : Pipeline m n :=
  { p with place := Function.update p.place k place }

/-- The thread goes on and the call it worked on is at `place` now. -/
def move (p : Pipeline m n) (t : Thread n) (k : CallId) (pc : Pc) (place : Place m n) :
    Pipeline m n := (p.setPc t pc).setPlace k place

/-- A call object filled by `Call::read` of reader `r`. -/
def newCall (p : Pipeline m n) (r : Fin m) (call : Call) : Pipeline m n :=
  { p.setPlace p.lastCall (.reader r) with
    calls := Function.update p.calls p.lastCall call, lastCall := p.lastCall + 1 }

/-- The call is in `_bq_call`, which is now `q`. -/
def pushCall (p : Pipeline m n) (k : CallId) (q : List CallId) : Pipeline m n :=
  { p.setPlace k .calls with bqCall := q }

def popCall (p : Pipeline m n) (h : Fin n) (k : CallId) (q : List CallId) : Pipeline m n :=
  { p.move (.handler h) k (.holding k) (.hand (.handler h) .holding) with bqCall := q }

/-- `Method::call` was entered; the thread is at `pc` after it, with the call as it is then. -/
def execute (p : Pipeline m n) (h : Fin n) (k : CallId) (call : Call) (pc : Pc) (g : Hand) :
    Pipeline m n :=
  { p.move (.handler h) k pc (.hand (.handler h) g) with
    calls := Function.update p.calls k call, runs := Function.update p.runs k (p.runs k + 1) }

/-- The call is in the response queue `q` of its connection `c`, the thread at `pc`. -/
def enqueue (p : Pipeline m n) (t : Thread n) (c : ConnId) (k : CallId) (q : List CallId)
    (pc : Pc) : Pipeline m n :=
  { p.move t k pc (.responding c) with
    respondQueue := Function.update p.respondQueue c q }

/-- The thread has pushed an endpoint to or popped one from `_bq_respond`, which is now `q`. -/
def setTokens (p : Pipeline m n) (t : Thread n) (pc : Pc) (q : List Ep) : Pipeline m n :=
  { p.setPc t pc with bqRespond := q }

/-- The thread has popped the call from the response queue. -/
def dequeue (p : Pipeline m n) (t : Thread n) (c : ConnId) (k : CallId) (q : List CallId) :
    Pipeline m n :=
  { p.move t k (.popped c k) (.hand t (.popped c)) with
    respondQueue := Function.update p.respondQueue c q }

/-- A pass over a call: the bytes are on the socket of the connection. -/
def written (p : Pipeline m n) (c : ConnId) (k : CallId) (bytes : Bytes) (call : Call) :
    Pipeline m n :=
  { p with
    calls := Function.update p.calls k call
    out := Function.update p.out c (p.out c ++ bytes.map fun b => (k, b))
    headers := Function.update p.headers k (p.headers k + if (p.calls k).pos = 0 then 1 else 0) }

end Pipeline

/-! ## The actions -/

inductive Action (m n : ℕ)
  | accept
  | readable (e : Ep)
  | readError (e : Ep)
  | addToReader (r : Fin m)
  | popConn (r : Fin m)
  | readCall (r : Fin m) (input : Sock)
  | pushCall (r : Fin m)
  | rearm (r : Fin m)
  | rearmThrows (r : Fin m)
  | closeConnection (r : Fin m)
  | closeThrows (r : Fin m)
  | popCall (h : Fin n)
  | execute (h : Fin n)
  | pushRespond (h : Fin n)
  | size (h : Fin n)
  | pushToken (h : Fin n)
  | popToken
  | lookup
  | tryPop (t : Thread n)
  | write (t : Thread n) (io : SockOut)
  | requeue (t : Thread n)
  | retoken (t : Thread n)
  deriving DecidableEq

namespace State

def setListener (s : State m n) (listener : Listener m) : State m n := { s with listener }

def setPipe (s : State m n) (pipe : Pipeline m n) : State m n := { s with pipe }

/-- `std::abort`. -/
def abort (s : State m n) (site : Site) : State m n := { s with status := .aborted site }

/-- `processResponse` returned `false` to `t`: the responder aborts, a handler goes on. -/
def failed (s : State m n) (t : Thread n) : State m n :=
  { s with status := if t = .responder then .aborted .respondFailed else s.status }

/-! ### The readers -/

/-- A round of the loop in `addToReader`. -/
def addToReader (s : State m n) (r : Fin m) : Option (State m n) :=
  match s.listener.pc with
  | .idle => none
  | .adding c retryTimes =>
    if (r : ℤ) = s.listener.lastReaderIndex then
      match tryPush maxReaderQueueSize (s.listener.readers r).bqConn c true with
      | some q => some (s.setListener (s.listener.added r q))
      | none =>
        let s := s.setListener (s.listener.nextReader c (retryTimes + 1))
        if retryTimes + 1 < m then some s else some (s.abort .handleRead)
    else none

def readCall (s : State m n) (r : Fin m) (input : Sock) : Option (State m n) :=
  match (s.listener.readers r).pc with
  | .reading c =>
    match (Call.read c input).1 with
    | none => some (s.setListener (s.listener.setReaderPc r (.failed c)))
    | some call =>
      some { s with
        listener := s.listener.setReaderPc r (.read c s.pipe.lastCall)
        pipe := s.pipe.newCall r call }
  | _ => none

def pushCall (s : State m n) (r : Fin m) : Option (State m n) :=
  match (s.listener.readers r).pc with
  | .read c k =>
    match tryPush maxNumCalls s.pipe.bqCall k true with
    | none => some (s.abort .doRead)
    | some q =>
      some { s with
        listener := s.listener.setReaderPc r (.pushed c)
        pipe := s.pipe.pushCall k q }
  | _ => none

/-- The end of `_do_read` after a call was handed on; `throws` if the registration does. -/
def rearm (s : State m n) (r : Fin m) (throws : Bool) : Option (State m n) :=
  match (s.listener.readers r).pc with
  | .pushed c =>
    if throws then some (s.setListener (s.listener.setReaderPc r .idle))
    else some (s.setListener (s.listener.rearm r c))
  | _ => none

def closeConnection (s : State m n) (r : Fin m) (throws : Bool) : Option (State m n) :=
  match (s.listener.readers r).pc with
  | .failed c =>
    if s.listener.mutexConns then none
    else if throws then some (s.setListener (s.listener.closeThrows r c))
    else some (s.setListener (s.listener.closeConnection r c))
  | _ => none

/-! ### The handlers -/

def popCall (s : State m n) (h : Fin n) : Option (State m n) :=
  match s.pipe.pc (.handler h), tryPop s.pipe.bqCall with
  | .idle, some (k, q) => some (s.setPipe (s.pipe.popCall h k q))
  | _, _ => none

def execute (s : State m n) (h : Fin n) : Option (State m n) :=
  match s.pipe.pc (.handler h) with
  | .holding k =>
    match Handler.process (s.pipe.calls k) with
    | .ok call => some (s.setPipe (s.pipe.execute h k call (.valued k) .valued))
    | .error _ =>
      some { s with
        pipe := s.pipe.execute h k (s.pipe.calls k) (.died k) .died
        status := .crashed }
  | _ => none

/-- The push in `doRespond`. -/
def pushRespond (s : State m n) (h : Fin n) : Option (State m n) :=
  match s.pipe.pc (.handler h) with
  | .valued k =>
    let c := (s.pipe.calls k).connection
    match tryPush Connection.maxRespondSize (s.pipe.respondQueue c) k true with
    | none => some (s.abort .handle)
    | some q => some (s.setPipe (s.pipe.enqueue (.handler h) c k q (.sizing c)))
  | _ => none

/-- The choice in `doRespond`. -/
def size (s : State m n) (h : Fin n) : Option (State m n) :=
  match s.pipe.pc (.handler h) with
  | .sizing c =>
    let pc : Pc := if (s.pipe.respondQueue c).length = 1 then .popping c else .queueing c
    some (s.setPipe (s.pipe.setPc (.handler h) pc))
  | _ => none

def pushToken (s : State m n) (h : Fin n) : Option (State m n) :=
  match s.pipe.pc (.handler h) with
  | .queueing c =>
    match tryPush Responder.maxRespondSize s.pipe.bqRespond (s.listener.endpoint c) true with
    | none => some (s.abort .doRespond)
    | some q => some (s.setPipe (s.pipe.setTokens (.handler h) .idle q))
  | _ => none

/-! ### The responder -/

def popToken (s : State m n) : Option (State m n) :=
  match s.pipe.pc .responder, tryPop s.pipe.bqRespond with
  | .idle, some (e, q) => some (s.setPipe (s.pipe.setTokens .responder (.lookup e) q))
  | _, _ => none

def lookup (s : State m n) : Option (State m n) :=
  match s.pipe.pc .responder with
  | .lookup e =>
    if s.listener.mutexConns then none
    else
      match s.listener.connections e with
      | none => some (s.abort .respondLookup)
      | some c => some (s.setPipe (s.pipe.setPc .responder (.popping c)))
  | _ => none

/-! ### `processResponse` in the responder or in a handler -/

def tryPop (s : State m n) (t : Thread n) : Option (State m n) :=
  match s.pipe.pc t with
  | .popping c =>
    match Queue.tryPop (s.pipe.respondQueue c) with
    | none => some ((s.setPipe (s.pipe.setPc t .idle)).failed t)
    | some (k, q) => some (s.setPipe (s.pipe.dequeue t c k q))
  | _ => none

/-- The lock of the connection is free: no thread is inside a pass. -/
def Unlocked (s : State m n) (c : ConnId) : Prop := ∀ t, (s.pipe.pc t).locks ≠ some c

/-- What the socket of the connection can do in a pass over the call. -/
def Writes (s : State m n) (c : ConnId) (k : CallId) (io : SockOut) : Prop :=
  io.Fits (s.pipe.calls k).left ∧ (s.listener.closed c = true → io.works = false)

instance (s : State m n) (c : ConnId) : Decidable (s.Unlocked c) :=
  inferInstanceAs (Decidable (∀ t, (s.pipe.pc t).locks ≠ some c))

instance (s : State m n) (c : ConnId) (k : CallId) (io : SockOut) : Decidable (s.Writes c k io) :=
  inferInstanceAs (Decidable (_ ∧ _))

/-- A pass; after a short write the thread keeps the lock. -/
def write (s : State m n) (t : Thread n) (io : SockOut) : Option (State m n) :=
  match s.pipe.pc t with
  | .popped c k =>
    if s.Unlocked c ∧ s.Writes c k io then
      match Connection.processResponse (s.pipe.calls k) io with
      | (bytes, call, .again) =>
        some (s.setPipe ((s.pipe.written c k bytes call).move t k (.requeue c k)
          (.hand t (.requeue c))))
      | (bytes, call, .sent) =>
        some (s.setPipe ((s.pipe.written c k bytes call).move t k .idle .sent))
      | (bytes, call, .failed) =>
        some ((s.setPipe ((s.pipe.written c k bytes call).move t k .idle .dropped)).failed t)
    else none
  | _ => none

def requeue (s : State m n) (t : Thread n) : Option (State m n) :=
  match s.pipe.pc t with
  | .requeue c k =>
    match tryPush Connection.maxRespondSize (s.pipe.respondQueue c) k true with
    | none => some ((s.setPipe (s.pipe.move t k .idle .dropped)).failed t)
    | some q => some (s.setPipe (s.pipe.enqueue t c k q (.token c)))
  | _ => none

/-- The endpoint of a call that was not sent completely goes to the front. -/
def retoken (s : State m n) (t : Thread n) : Option (State m n) :=
  match s.pipe.pc t with
  | .token c =>
    match tryPush Responder.maxRespondSize s.pipe.bqRespond (s.listener.endpoint c) false with
    | none => some (s.abort .processResponse)
    | some q => some (s.setPipe (s.pipe.setTokens t .idle q))
  | _ => none

/-- What an action does in a running server. -/
def act (s : State m n) : Action m n → Option (State m n)
  | .accept => if s.listener.pc = .idle then some (s.setListener s.listener.handleAccept) else none
  | .readable e => (s.listener.handleRead e).map s.setListener
  | .readError e =>
    if s.listener.pc = .idle ∧ e ∈ s.listener.pendingReads then
      some (s.setListener (s.listener.complete e))
    else none
  | .addToReader r => s.addToReader r
  | .popConn r => (s.listener.popConn r).map s.setListener
  | .readCall r input => s.readCall r input
  | .pushCall r => s.pushCall r
  | .rearm r => s.rearm r false
  | .rearmThrows r => s.rearm r true
  | .closeConnection r => s.closeConnection r false
  | .closeThrows r => s.closeConnection r true
  | .popCall h => s.popCall h
  | .execute h => s.execute h
  | .pushRespond h => s.pushRespond h
  | .size h => s.size h
  | .pushToken h => s.pushToken h
  | .popToken => s.popToken
  | .lookup => s.lookup
  | .tryPop t => s.tryPop t
  | .write t io => s.write t io
  | .requeue t => s.requeue t
  | .retoken t => s.retoken t

def step (s : State m n) (a : Action m n) : Option (State m n) :=
  if s.status = .running then s.act a else none

end State

/-- The server with `m` readers and `n` handlers. -/
def system (m n : ℕ) : System (State m n) (Action m n) where
  init s := s = .start m n
  step := State.step

/-! ## What a step can be -/

/-- The steps, one constructor for each outcome of an action. -/
inductive Moves : State m n → Action m n → State m n → Prop
  | accept {s} (hpc : s.listener.pc = .idle) :
      Moves s .accept (s.setListener s.listener.handleAccept)
  | create {s e} (hpc : s.listener.pc = .idle) (he : e ∈ s.listener.pendingReads)
      (hc : s.listener.connections e = none) :
      Moves s (.readable e) (s.setListener
        (((s.listener.complete e).create e).nextReader s.listener.lastConnectionIndex 0))
  | reuse {s e c} (hpc : s.listener.pc = .idle) (he : e ∈ s.listener.pendingReads)
      (hc : s.listener.connections e = some c) :
      Moves s (.readable e) (s.setListener ((s.listener.complete e).nextReader c 0))
  | readError {s e} (he : e ∈ s.listener.pendingReads) :
      Moves s (.readError e) (s.setListener (s.listener.complete e))
  | added {s r c retryTimes q} (hpc : s.listener.pc = .adding c retryTimes)
      (hq : tryPush maxReaderQueueSize (s.listener.readers r).bqConn c true = some q) :
      Moves s (.addToReader r) (s.setListener (s.listener.added r q))
  | retry {s r c retryTimes} (hpc : s.listener.pc = .adding c retryTimes) :
      Moves s (.addToReader r) (s.setListener (s.listener.nextReader c (retryTimes + 1)))
  | readersFull {s r c retryTimes} (hpc : s.listener.pc = .adding c retryTimes) :
      Moves s (.addToReader r)
        ((s.setListener (s.listener.nextReader c (retryTimes + 1))).abort .handleRead)
  | popConn {s r c q} (hpc : (s.listener.readers r).pc = .idle)
      (hq : (s.listener.readers r).bqConn = c :: q) :
      Moves s (.popConn r) (s.setListener (s.listener.setReader r ⟨q, .reading c⟩))
  | readCall {s r c input call} (hpc : (s.listener.readers r).pc = .reading c)
      (hcall : (Call.read c input).1 = some call) :
      Moves s (.readCall r input) { s with
        listener := s.listener.setReaderPc r (.read c s.pipe.lastCall)
        pipe := s.pipe.newCall r call }
  | readFails {s r c input} (hpc : (s.listener.readers r).pc = .reading c)
      (hcall : (Call.read c input).1 = none) :
      Moves s (.readCall r input) (s.setListener (s.listener.setReaderPc r (.failed c)))
  | pushCall {s r c k q} (hpc : (s.listener.readers r).pc = .read c k)
      (hq : tryPush maxNumCalls s.pipe.bqCall k true = some q) :
      Moves s (.pushCall r) { s with
        listener := s.listener.setReaderPc r (.pushed c)
        pipe := s.pipe.pushCall k q }
  | rearm {s r c} (hpc : (s.listener.readers r).pc = .pushed c) :
      Moves s (.rearm r) (s.setListener (s.listener.rearm r c))
  | rearmThrows {s r c} (hpc : (s.listener.readers r).pc = .pushed c) :
      Moves s (.rearmThrows r) (s.setListener (s.listener.setReaderPc r .idle))
  | closeConnection {s r c} (hpc : (s.listener.readers r).pc = .failed c) :
      Moves s (.closeConnection r) (s.setListener (s.listener.closeConnection r c))
  | closeThrows {s r c} (hpc : (s.listener.readers r).pc = .failed c) :
      Moves s (.closeThrows r) (s.setListener (s.listener.closeThrows r c))
  | popCall {s h k q} (hpc : s.pipe.pc (.handler h) = .idle) (hq : s.pipe.bqCall = k :: q) :
      Moves s (.popCall h) (s.setPipe (s.pipe.popCall h k q))
  | execute {s h k call} (hpc : s.pipe.pc (.handler h) = .holding k)
      (hcall : Handler.process (s.pipe.calls k) = .ok call) :
      Moves s (.execute h) (s.setPipe (s.pipe.execute h k call (.valued k) .valued))
  | died {s h k} (hpc : s.pipe.pc (.handler h) = .holding k) :
      Moves s (.execute h) { s with
        pipe := s.pipe.execute h k (s.pipe.calls k) (.died k) .died
        status := .crashed }
  | pushRespond {s h k q} (hpc : s.pipe.pc (.handler h) = .valued k)
      (hq : tryPush Connection.maxRespondSize
        (s.pipe.respondQueue (s.pipe.calls k).connection) k true = some q) :
      Moves s (.pushRespond h) (s.setPipe (s.pipe.enqueue (.handler h) (s.pipe.calls k).connection
        k q (.sizing (s.pipe.calls k).connection)))
  | sizeOne {s h c} (hpc : s.pipe.pc (.handler h) = .sizing c) :
      Moves s (.size h) (s.setPipe (s.pipe.setPc (.handler h) (.popping c)))
  | sizeMore {s h c} (hpc : s.pipe.pc (.handler h) = .sizing c) :
      Moves s (.size h) (s.setPipe (s.pipe.setPc (.handler h) (.queueing c)))
  | pushToken {s h c q} (hpc : s.pipe.pc (.handler h) = .queueing c)
      (hq : tryPush Responder.maxRespondSize s.pipe.bqRespond (s.listener.endpoint c) true =
        some q) :
      Moves s (.pushToken h) (s.setPipe (s.pipe.setTokens (.handler h) .idle q))
  | popToken {s e q} (hpc : s.pipe.pc .responder = .idle) (hq : s.pipe.bqRespond = e :: q) :
      Moves s .popToken (s.setPipe (s.pipe.setTokens .responder (.lookup e) q))
  | lookup {s e c} (hpc : s.pipe.pc .responder = .lookup e)
      (hc : s.listener.connections e = some c) :
      Moves s .lookup (s.setPipe (s.pipe.setPc .responder (.popping c)))
  | lookupFails {s e} (hpc : s.pipe.pc .responder = .lookup e)
      (hc : s.listener.connections e = none) : Moves s .lookup (s.abort .respondLookup)
  | tryPop {s t c k q} (hpc : s.pipe.pc t = .popping c) (hq : s.pipe.respondQueue c = k :: q) :
      Moves s (.tryPop t) (s.setPipe (s.pipe.dequeue t c k q))
  | tryPopFails {s t c} (hpc : s.pipe.pc t = .popping c) (hq : s.pipe.respondQueue c = []) :
      Moves s (.tryPop t) ((s.setPipe (s.pipe.setPc t .idle)).failed t)
  | again {s t c k io bytes call} (hpc : s.pipe.pc t = .popped c k) (hlock : s.Unlocked c)
      (hio : s.Writes c k io)
      (hpass : Connection.processResponse (s.pipe.calls k) io = (bytes, call, .again)) :
      Moves s (.write t io) (s.setPipe ((s.pipe.written c k bytes call).move t k (.requeue c k)
        (.hand t (.requeue c))))
  | sent {s t c k io bytes call} (hpc : s.pipe.pc t = .popped c k) (hlock : s.Unlocked c)
      (hio : s.Writes c k io)
      (hpass : Connection.processResponse (s.pipe.calls k) io = (bytes, call, .sent)) :
      Moves s (.write t io)
        (s.setPipe ((s.pipe.written c k bytes call).move t k .idle .sent))
  | writeFails {s t c k io bytes call} (hpc : s.pipe.pc t = .popped c k) (hlock : s.Unlocked c)
      (hio : s.Writes c k io)
      (hpass : Connection.processResponse (s.pipe.calls k) io = (bytes, call, .failed)) :
      Moves s (.write t io)
        ((s.setPipe ((s.pipe.written c k bytes call).move t k .idle .dropped)).failed t)
  | requeue {s t c k q} (hpc : s.pipe.pc t = .requeue c k)
      (hq : tryPush Connection.maxRespondSize (s.pipe.respondQueue c) k true = some q) :
      Moves s (.requeue t) (s.setPipe (s.pipe.enqueue t c k q (.token c)))
  | requeueFails {s t c k} (hpc : s.pipe.pc t = .requeue c k)
      (hq : tryPush Connection.maxRespondSize (s.pipe.respondQueue c) k true = none) :
      Moves s (.requeue t) ((s.setPipe (s.pipe.move t k .idle .dropped)).failed t)
  | retoken {s t c q} (hpc : s.pipe.pc t = .token c)
      (hq : tryPush Responder.maxRespondSize s.pipe.bqRespond (s.listener.endpoint c) false =
        some q) :
      Moves s (.retoken t) (s.setPipe (s.pipe.setTokens t .idle q))
  /-- An abort outside of `respond`. -/
  | abort {s a site} (h1 : site ≠ .respondLookup) (h2 : site ≠ .respondFailed) :
      Moves s a (s.abort site)

namespace State

variable {s s' : State m n} {a : Action m n}

/-! One lemma for each operation. -/

theorem moves_addToReader {r : Fin m} (h : s.addToReader r = some s') :
    Moves s (.addToReader r) s' := by
  unfold addToReader at h
  split at h
  · cases h
  · next c retryTimes hpc =>
    split at h
    · split at h
      · next q hq => cases h; exact .added hpc hq
      · split at h
        · cases h; exact .retry hpc
        · cases h; exact .readersFull hpc
    · cases h

theorem moves_readCall {r : Fin m} {input : Sock} (h : s.readCall r input = some s') :
    Moves s (.readCall r input) s' := by
  unfold readCall at h
  split at h
  · next c hpc =>
    split at h
    · next hcall => cases h; exact .readFails hpc hcall
    · next call hcall => cases h; exact .readCall hpc hcall
  · cases h

theorem moves_pushCall {r : Fin m} (h : s.pushCall r = some s') : Moves s (.pushCall r) s' := by
  unfold pushCall at h
  split at h
  · next c k hpc =>
    split at h
    · cases h; exact .abort (by decide) (by decide)
    · next q hq => cases h; exact .pushCall hpc hq
  · cases h

theorem moves_rearm {r : Fin m} (h : s.rearm r false = some s') : Moves s (.rearm r) s' := by
  unfold rearm at h
  split at h
  · next c hpc => cases h; exact .rearm hpc
  · cases h

theorem moves_rearmThrows {r : Fin m} (h : s.rearm r true = some s') :
    Moves s (.rearmThrows r) s' := by
  unfold rearm at h
  split at h
  · next c hpc => cases h; exact .rearmThrows hpc
  · cases h

theorem moves_closeConnection {r : Fin m} (h : s.closeConnection r false = some s') :
    Moves s (.closeConnection r) s' := by
  unfold closeConnection at h
  split at h
  · next c hpc =>
    split at h
    · cases h
    · cases h; exact .closeConnection hpc
  · cases h

theorem moves_closeThrows {r : Fin m} (h : s.closeConnection r true = some s') :
    Moves s (.closeThrows r) s' := by
  unfold closeConnection at h
  split at h
  · next c hpc =>
    split at h
    · cases h
    · cases h; exact .closeThrows hpc
  · cases h

theorem moves_popCall {i : Fin n} (h : s.popCall i = some s') : Moves s (.popCall i) s' := by
  unfold popCall at h
  split at h
  · next k q hpc hq => cases h; exact .popCall hpc (of_tryPop hq)
  · cases h

theorem moves_execute {i : Fin n} (h : s.execute i = some s') : Moves s (.execute i) s' := by
  unfold execute at h
  split at h
  · next k hpc =>
    split at h
    · next call hcall => cases h; exact .execute hpc hcall
    · cases h; exact .died hpc
  · cases h

theorem moves_pushRespond {i : Fin n} (h : s.pushRespond i = some s') :
    Moves s (.pushRespond i) s' := by
  unfold pushRespond at h
  split at h
  · next k hpc =>
    dsimp only at h
    split at h
    · cases h; exact .abort (by decide) (by decide)
    · next q hq => cases h; exact .pushRespond hpc hq
  · cases h

theorem moves_size {i : Fin n} (h : s.size i = some s') : Moves s (.size i) s' := by
  unfold size at h
  split at h
  · next c hpc =>
    dsimp only at h
    split at h
    · cases h; exact .sizeOne hpc
    · cases h; exact .sizeMore hpc
  · cases h

theorem moves_pushToken {i : Fin n} (h : s.pushToken i = some s') :
    Moves s (.pushToken i) s' := by
  unfold pushToken at h
  split at h
  · next c hpc =>
    split at h
    · cases h; exact .abort (by decide) (by decide)
    · next q hq => cases h; exact .pushToken hpc hq
  · cases h

theorem moves_popToken (h : s.popToken = some s') : Moves s .popToken s' := by
  unfold popToken at h
  split at h
  · next e q hpc hq => cases h; exact .popToken hpc (of_tryPop hq)
  · cases h

theorem moves_lookup (h : s.lookup = some s') : Moves s .lookup s' := by
  unfold lookup at h
  split at h
  · next e hpc =>
    split at h
    · cases h
    · split at h
      · next hc => cases h; exact .lookupFails hpc hc
      · next c hc => cases h; exact .lookup hpc hc
  · cases h

theorem moves_tryPop {t : Thread n} (h : s.tryPop t = some s') : Moves s (.tryPop t) s' := by
  unfold tryPop at h
  split at h
  · next c hpc =>
    split at h
    · next hq => cases h; exact .tryPopFails hpc (of_tryPop_none hq)
    · next k q hq => cases h; exact .tryPop hpc (of_tryPop hq)
  · cases h

theorem moves_write {t : Thread n} {io : SockOut} (h : s.write t io = some s') :
    Moves s (.write t io) s' := by
  unfold write at h
  split at h
  · next c k hpc =>
    split at h
    · next hg =>
      obtain ⟨hlock, hio⟩ := hg
      split at h
      · next bytes call hpass => cases h; exact .again hpc hlock hio hpass
      · next bytes call hpass => cases h; exact .sent hpc hlock hio hpass
      · next bytes call hpass => cases h; exact .writeFails hpc hlock hio hpass
    · cases h
  · cases h

theorem moves_requeue {t : Thread n} (h : s.requeue t = some s') : Moves s (.requeue t) s' := by
  unfold requeue at h
  split at h
  · next c k hpc =>
    split at h
    · next hq => cases h; exact .requeueFails hpc hq
    · next q hq => cases h; exact .requeue hpc hq
  · cases h

theorem moves_retoken {t : Thread n} (h : s.retoken t = some s') : Moves s (.retoken t) s' := by
  unfold retoken at h
  split at h
  · next c hpc =>
    split at h
    · cases h; exact .abort (by decide) (by decide)
    · next q hq => cases h; exact .retoken hpc hq
  · cases h

theorem moves_of_act (h : s.act a = some s') : Moves s a s' := by
  cases a with
  | accept =>
    dsimp only [act] at h
    split at h
    · next hpc => cases h; exact .accept hpc
    · cases h
  | readable e =>
    obtain ⟨l, hl, rfl⟩ := Option.map_eq_some_iff.mp h
    unfold Listener.handleRead at hl
    split at hl
    · next hg =>
      obtain ⟨hpc, he, -⟩ := hg
      split at hl
      · next c hc => cases hl; exact .reuse hpc he hc
      · next hc => cases hl; exact .create hpc he hc
    · cases hl
  | readError e =>
    dsimp only [act] at h
    split at h
    · next hg => cases h; exact .readError hg.2
    · cases h
  | addToReader r => exact moves_addToReader h
  | popConn r =>
    obtain ⟨l, hl, rfl⟩ := Option.map_eq_some_iff.mp h
    unfold Listener.popConn at hl
    split at hl
    · next c q hpc hq => cases hl; exact .popConn hpc (of_tryPop hq)
    · cases hl
  | readCall r input => exact moves_readCall h
  | pushCall r => exact moves_pushCall h
  | rearm r => exact moves_rearm h
  | rearmThrows r => exact moves_rearmThrows h
  | closeConnection r => exact moves_closeConnection h
  | closeThrows r => exact moves_closeThrows h
  | popCall h' => exact moves_popCall h
  | execute h' => exact moves_execute h
  | pushRespond h' => exact moves_pushRespond h
  | size h' => exact moves_size h
  | pushToken h' => exact moves_pushToken h
  | popToken => exact moves_popToken h
  | lookup => exact moves_lookup h
  | tryPop t => exact moves_tryPop h
  | write t io => exact moves_write h
  | requeue t => exact moves_requeue h
  | retoken t => exact moves_retoken h

theorem moves_of_step (h : s.step a = some s') : s.status = .running ∧ Moves s a s' := by
  unfold step at h
  split at h
  · next hr => exact ⟨hr, moves_of_act h⟩
  · cases h

end State

end PRpc.Server
