import PRpc.Response
import PRpc.Library.Queue
import PRpc.Library.Transition
import Mathlib.Logic.Function.Basic
import Mathlib.Data.Fintype.Sum
import Mathlib.Tactic.DeriveFintype

/-!
# The threads of the server

One listener thread, `m` readers, `n` handlers and the responder. A state has the listener's side
(sockets, endpoints, `_connections`, the readers) and the pipeline (`_bq_call`, the response
queues, `_bq_respond`, the handlers and the responder). An action is what a thread does between two
points where another thread may come in: one operation on a queue, one section under
`_mutex_conns`, or one under the lock of a connection.

Objects are referred to by numbers in the order of their making: endpoints and sockets by the
accept, connections by `index`, calls by their reading.
-/

namespace PRpc.Server

/-- A `tcp::endpoint` object together with the socket it was accepted with. -/
abbrev Ep := ℕ

/-- A `Call` object. -/
abbrev CallId := ℕ

/-- The threads that send responses. -/
inductive Thread (n : ℕ)
  | responder
  | handler (h : Fin n)
  deriving DecidableEq, Fintype

/-! ## The listener and the readers -/

/-- Where a reader is in `_do_read`. -/
inductive ReaderPc
  /-- In `_bq_conn.pop()`. -/
  | idle
  /-- In `Call::read`. -/
  | reading (c : ConnId)
  /-- `read` returned `false`. -/
  | failed (c : ConnId)
  /-- `read` returned `true`; the call is not in `_bq_call` yet. -/
  | read (c : ConnId) (k : CallId)
  /-- The call was handed on. -/
  | pushed (c : ConnId)
  deriving DecidableEq

structure Reader where
  bqConn : List ConnId
  pc : ReaderPc

/-- Where the listener thread is: in the event loop or in the loop of `addToReader`. -/
inductive ListenerPc
  | idle
  | adding (c : ConnId) (retryTimes : ℕ)
  deriving DecidableEq

/-- The listener's side of a state. -/
structure Listener (m : ℕ) where
  /-- How many sockets were accepted. -/
  accepted : ℕ
  /-- The reads that are registered and not completed. -/
  pendingReads : List Ep
  pc : ListenerPc
  lastReaderIndex : ℤ
  readers : Fin m → Reader
  connections : Ep → Option ConnId
  numConnections : ℤ
  /-- `_mutex_conns` was left locked. -/
  mutexConns : Bool
  lastConnectionIndex : ℕ
  endpoint : ConnId → Ep
  closed : ConnId → Bool

/-! ## The pipeline -/

/-- Where a handler or the responder is. -/
inductive Pc
  /-- In `_bq_call.pop()` or `_bq_respond.pop()`. -/
  | idle
  /-- Before `Method::call`. -/
  | holding (k : CallId)
  /-- After `setValue`, before the push in `doRespond`. -/
  | valued (k : CallId)
  /-- The thread did not survive the call. -/
  | died (k : CallId)
  /-- Between the push and the size of the response queue. -/
  | sizing (c : ConnId)
  /-- Before the push into `_bq_respond`. -/
  | queueing (c : ConnId)
  /-- The responder with an endpoint, before it looks up the connection. -/
  | lookup (e : Ep)
  /-- In `Responder::processResponse`, before the pop. -/
  | popping (c : ConnId)
  /-- Before `Connection::processResponse`. -/
  | popped (c : ConnId) (k : CallId)
  /-- Inside it, after a short write. -/
  | requeue (c : ConnId) (k : CallId)
  /-- After it, before the push of the endpoint to the front. -/
  | token (c : ConnId)
  deriving DecidableEq

/-- The connection whose lock a thread holds between two actions. -/
def Pc.locks : Pc → Option ConnId
  | .requeue c _ => some c
  | _ => none

/-- What a thread has of a call in its hands, and how far it is with it. -/
inductive Hand
  | holding
  | valued
  | died
  | popped (c : ConnId)
  | requeue (c : ConnId)
  deriving DecidableEq

/-- Where a call is. -/
inductive Place (m n : ℕ)
  | unread
  | reader (r : Fin m)
  | calls
  | hand (t : Thread n) (g : Hand)
  | responding (c : ConnId)
  | sent
  | dropped
  deriving DecidableEq

/-- The pipeline's side of a state. The last four fields record what happened. -/
structure Pipeline (m n : ℕ) where
  calls : CallId → Call
  lastCall : ℕ
  bqCall : List CallId
  pc : Thread n → Pc
  respondQueue : ConnId → List CallId
  bqRespond : List Ep
  /-- The bytes written to a socket, each with the call it belongs to. -/
  out : ConnId → List (CallId × LittleEndian.Byte)
  /-- How often `Method::call` was entered for a call. -/
  runs : CallId → ℕ
  /-- How often the header of a response was written. -/
  headers : CallId → ℕ
  place : CallId → Place m n

/-- Where `std::abort` is called. -/
inductive Site
  /-- `handle_read`: the readers are all full. -/
  | handleRead
  /-- `_do_read`: `_bq_call` is full. -/
  | doRead
  /-- `Handler::handle`: a response queue is full. -/
  | handle
  /-- `doRespond`: `_bq_respond` is full. -/
  | doRespond
  /-- `respond`: no connection for an endpoint. -/
  | respondLookup
  /-- `respond`: `processResponse` returned `false`. -/
  | respondFailed
  /-- `processResponse`: `_bq_respond` is full. -/
  | processResponse
  deriving DecidableEq

inductive Status
  | running
  | aborted (site : Site)
  | crashed
  deriving DecidableEq

structure State (m n : ℕ) where
  listener : Listener m
  pipe : Pipeline m n
  status : Status

/-- The contents of a call object before it is made. -/
def Call.blank : Call :=
  { connection := 0, callId := 0, className := [], methodName := [], params := [] }

/-- The server after `Server::start`. -/
def State.start (m n : ℕ) : State m n where
  listener :=
    { accepted := 0, pendingReads := [], pc := .idle, lastReaderIndex := -1,
      readers := fun _ => ⟨[], .idle⟩, connections := fun _ => none, numConnections := 0,
      mutexConns := false, lastConnectionIndex := 0, endpoint := fun _ => 0,
      closed := fun _ => false }
  pipe :=
    { calls := fun _ => .blank, lastCall := 0, bqCall := [], pc := fun _ => .idle,
      respondQueue := fun _ => [], bqRespond := [], out := fun _ => [], runs := fun _ => 0,
      headers := fun _ => 0, place := fun _ => .unread }
  status := .running

/-! ## The capacities of the queues -/

def maxReaderQueueSize : ℕ := 100

def maxNumCalls : ℕ := 100

def Connection.maxRespondSize : ℕ := 100

def Responder.maxRespondSize : ℕ := 100

end PRpc.Server
