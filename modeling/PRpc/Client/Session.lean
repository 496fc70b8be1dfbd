import PRpc.Client.Connection
import PRpc.Library.Transition
import Mathlib.Data.List.Perm.Subperm

/-!
# Calls and responses on one connection

Any number of threads make calls for an `IntWritable` through one connection that stays open, for
which `getConnection` comes down to `addCall`. A thread has its call registered under the next id
and sends it later (`sendCall`); the server takes the requests in the order of the wire and answers
those it has taken in any order, with a whole frame each. The receiver thread reads an id, looks the
call up and has its value read.

Each action is one critical section, or one read by the receiver; a read waits until its bytes
have arrived. An id between `sendCall` and the end of `recvRespond` is in exactly one of three
lists: the requests on the wire, the ids that the server has taken, the frames on their way back.
-/

namespace PRpc.Client

namespace Session

/-- Where the thread of a call is in `Client::call`. -/
inductive CallerPc
  | unmade
  /-- Before `addCall`. -/
  | made
  /-- Before `sendCall`. -/
  | added
  /-- In `wait`. -/
  | sent
  | returned
  deriving DecidableEq, Repr

/-- The call has its id. -/
def CallerPc.Registered : CallerPc → Prop
  | .unmade | .made => False
  | .added | .sent | .returned => True

/-- Where the receiver thread is. -/
inductive ReceiverPc
  /-- In `waitForWork`. -/
  | waiting
  /-- At the start of `recvRespond`. -/
  | receiving
  /-- With an id, before it is looked up. -/
  | received (id : CInt)
  /-- Before `readFields` of the value. -/
  | found (id : CInt) (k : CallId)
  deriving DecidableEq, Repr

/-- The id that `recvRespond` has read. -/
def ReceiverPc.id : ReceiverPc → Option CInt
  | .waiting | .receiving => none
  | .received id => some id
  | .found id _ => some id

/-- How much of the first frame was read. -/
def ReceiverPc.taken (pc : ReceiverPc) : ℕ := if pc.id.isSome then 4 else 0

end Session

open Session

/-- A connection, the calls made through it, and the two directions of its socket. The last three
fields record what the server sent and which calls were set. -/
structure Session where
  conn : Connection
  call : CallId → Call
  made : ℕ
  caller : CallId → CallerPc
  receiver : ReceiverPc
  aborted : Bool
  /-- Each thread writes a request as a whole, under `_mutex_send_call`. -/
  requests : List Bytes
  /-- The ids of the requests that the server has taken and not answered. -/
  pending : List CInt
  inbox : Sock
  /-- The frames whose value was not read yet. -/
  frames : List (CInt × Bytes)
  answers : CInt → Option Bytes
  completions : CallId → ℕ

namespace Session

/-- A response: the id, the length of the value and the value. -/
def frame (f : CInt × Bytes) : Bytes := intBytes f.1 ++ (sizeBytes f.2.length ++ f.2)

/-- The id that the server reads from a request. -/
def requestId (request : Bytes) : CInt := intOfBytes (request.take 4)

theorem requestId_write (call : Call) : requestId call.write = call.id := by
  unfold requestId Call.write
  rw [List.take_left' (length_intBytes _), intOfBytes_intBytes]

/-- The session when the receiver thread has started. -/
def start (ep : Endpoint) (fresh : CInt) (memory : Memory) : Session where
  conn := { Connection.new ep .connected with recvStarted := true }
  call := fun _ => .blank
  made := 0
  caller := fun _ => .unmade
  receiver := .waiting
  aborted := false
  requests := []
  pending := []
  inbox := ⟨[], fresh, memory, 0, 0⟩
  frames := []
  answers := fun _ => none
  completions := fun _ => 0

/-! ## The steps -/

inductive Action
  /-- `id` is what the uninitialised `_id` holds. -/
  | newCall (id : CInt) (param : Writable)
  | addCall (k : CallId)
  | sendCall (k : CallId)
  /-- The server takes the next request. -/
  | request
  /-- The server answers a request. -/
  | respond (id : CInt) (bs : Bytes)
  | waitForWork
  | recvId
  | lookup
  | recvValue
  | finish (k : CallId)

def setCaller (s : Session) (k : CallId) (pc : CallerPc) : Session :=
  { s with caller := Function.update s.caller k pc }

def setCall (s : Session) (k : CallId) (call : Call) : Session :=
  { s with call := Function.update s.call k call }

def setReceiver (s : Session) (receiver : ReceiverPc) : Session := { s with receiver }

def newCall (s : Session) (id : CInt) (param : Writable) : Session :=
  { (s.setCaller s.made .made).setCall s.made { valueClass := ascii "IntWritable", id, param } with
    made := s.made + 1 }

/-- The section of `addCall`. -/
def register (s : Session) (k : CallId) : Session :=
  { (s.setCaller k .added).setCall k ((s.call k).setId s.conn.lastCallIndex) with
    conn := s.conn.addCall k }

/-- The section of `sendCall`. -/
def send (s : Session) (k : CallId) : Session :=
  { s.setCaller k .sent with requests := s.requests ++ [(s.call k).write] }

/-- The server has taken a request; `rest` are left. -/
def take (s : Session) (request : Bytes) (rest : List Bytes) : Session :=
  { s with requests := rest, pending := s.pending ++ [requestId request] }

/-- The server has written a frame. -/
def answer (s : Session) (id : CInt) (bs : Bytes) : Session :=
  { s with
    pending := s.pending.erase id
    inbox := { s.inbox with input := s.inbox.input ++ frame (id, bs) }
    frames := s.frames ++ [(id, bs)]
    answers := Function.update s.answers id (some bs) }

/-- `recvRespond` has read an id. -/
def receive (s : Session) (id : CInt) (inbox : Sock) : Session :=
  { s.setReceiver (.received id) with inbox }

/-- `recvRespond` has read a value. -/
def received (s : Session) (inbox : Sock) : Session :=
  { s.setReceiver .waiting with inbox, frames := s.frames.tail }

/-- `setValue` was called. -/
def complete (s : Session) (k : CallId) (call : Call) (inbox : Sock) : Session :=
  { (s.received inbox).setCall k call with
    completions := Function.update s.completions k (s.completions k + 1) }

/-- The value to be read has arrived, by its length. -/
def Arrived (s : Session) : Prop :=
  8 ≤ s.inbox.input.length ∧
    8 + LittleEndian.ofLE (s.inbox.input.take 8) ≤ s.inbox.input.length

instance (s : Session) : Decidable s.Arrived := inferInstanceAs (Decidable (_ ∧ _))

def act (s : Session) : Action → Option Session
  | .newCall id param => some (s.newCall id param)
  | .addCall k => if s.caller k = .made then some (s.register k) else none
  | .sendCall k => if s.caller k = .added then some (s.send k) else none
  | .request =>
    match s.requests with
    | [] => none
    | request :: rest => some (s.take request rest)
  | .respond id bs =>
    -- a value is the contents of a `std::string`, in a memory no larger than the client's
    if id ∈ s.pending ∧ bs.length < s.inbox.memory.limit then some (s.answer id bs) else none
  | .waitForWork =>
    if s.receiver = .waiting ∧ s.conn.calls.entries ≠ [] then some (s.setReceiver .receiving)
    else none
  | .recvId =>
    match s.receiver, readInt s.inbox with
    | .receiving, .ok id inbox => some (s.receive id inbox)
    | _, _ => none
  | .lookup =>
    match s.receiver with
    | .received id =>
      match s.conn.calls.lookup id with
      | none => some { s with aborted := true }
      | some k => some (s.setReceiver (.found id k))
    | _ => none
  | .recvValue =>
    match s.receiver with
    | .found _ k =>
      if s.Arrived then
        match Connection.recvValue (s.call k) s.inbox with
        | (none, inbox) => some (s.received inbox)
        | (some call, inbox) => some (s.complete k call inbox)
      else none
    | _ => none
  | .finish k =>
    if s.caller k = .sent ∧ (s.call k).done = true then some (s.setCaller k .returned) else none

def step (s : Session) (a : Action) : Option Session := if s.aborted then none else s.act a

/-- What the receiver thread does next. -/
def ReceiverPc.next : ReceiverPc → Action
  | .waiting => .waitForWork
  | .receiving => .recvId
  | .received _ => .lookup
  | .found _ _ => .recvValue

end Session

/-- The sessions over connections to any endpoint. -/
def session : System Session Session.Action where
  init s := ∃ ep fresh memory, s = .start ep fresh memory
  step := Session.step

namespace Session

/-- The steps, one constructor for each outcome of an action. -/
inductive Moves : Session → Action → Session → Prop
  | newCall {s id param} : Moves s (.newCall id param) (s.newCall id param)
  | addCall {s k} (hk : s.caller k = .made) : Moves s (.addCall k) (s.register k)
  | sendCall {s k} (hk : s.caller k = .added) : Moves s (.sendCall k) (s.send k)
  | request {s r rest} (hr : s.requests = r :: rest) : Moves s .request (s.take r rest)
  | respond {s id bs} (hid : id ∈ s.pending)
      (hbs : bs.length < s.inbox.memory.limit) : Moves s (.respond id bs) (s.answer id bs)
  | waitForWork {s} (hpc : s.receiver = .waiting) : Moves s .waitForWork (s.setReceiver .receiving)
  | recvId {s id inbox} (hpc : s.receiver = .receiving)
      (hin : s.inbox = inbox.unread (intBytes id)) :
      Moves s .recvId (s.receive id inbox)
  | lookup {s id k} (hpc : s.receiver = .received id) (hk : s.conn.calls.lookup id = some k) :
      Moves s .lookup (s.setReceiver (.found id k))
  | lookupFails {s id} (hpc : s.receiver = .received id) (hk : s.conn.calls.lookup id = none) :
      Moves s .lookup { s with aborted := true }
  | recvValue {s id k call inbox} (hpc : s.receiver = .found id k)
      (hval : Connection.recvValue (s.call k) s.inbox = (some call, inbox)) :
      Moves s .recvValue (s.complete k call inbox)
  | recvFails {s id k inbox} (hpc : s.receiver = .found id k)
      (hval : Connection.recvValue (s.call k) s.inbox = (none, inbox)) :
      Moves s .recvValue (s.received inbox)
  | finish {s k} (hk : s.caller k = .sent) (hdone : (s.call k).done = true) :
      Moves s (.finish k) (s.setCaller k .returned)

variable {s s' : Session} {a : Action}

theorem moves_of_step (h : s.step a = some s') : Moves s a s' := by
  unfold step at h
  split at h
  · cases h
  cases a with
  | newCall id param => cases h; exact .newCall
  | addCall k =>
    simp only [act] at h
    split at h
    · cases h; exact .addCall ‹_›
    · cases h
  | sendCall k =>
    simp only [act] at h
    split at h
    · cases h; exact .sendCall ‹_›
    · cases h
  | request =>
    simp only [act] at h
    split at h
    · cases h
    · cases h; exact .request ‹_›
  | respond id bs =>
    simp only [act] at h
    split at h
    · next hc => cases h; exact .respond hc.1 hc.2
    · cases h
  | waitForWork =>
    simp only [act] at h
    split at h
    · next hc => cases h; exact .waitForWork hc.1
    · cases h
  | recvId =>
    simp only [act] at h
    split at h
    · next hpc hread => cases h; exact .recvId hpc (of_readInt_ok hread)
    · cases h
  | lookup =>
    simp only [act] at h
    split at h
    · next hpc =>
      split at h
      · next hk => cases h; exact .lookupFails hpc hk
      · next hk => cases h; exact .lookup hpc hk
    · cases h
  | recvValue =>
    simp only [act] at h
    split at h
    · next hpc =>
      split at h
      · split at h
        · next hval => cases h; exact .recvFails hpc hval
        · next hval => cases h; exact .recvValue hpc hval
      · cases h
    · cases h
  | finish k =>
    simp only [act] at h
    split at h
    · next hc => cases h; exact .finish hc.1 hc.2
    · cases h

end Session

end PRpc.Client
