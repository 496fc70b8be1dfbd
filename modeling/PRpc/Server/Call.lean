import PRpc.Decode

/-!
# The server's `Call`

A call is read from its connection, executed by a handler and answered in one or more pieces; the
position `pos` is where the next piece of the value starts.
-/

namespace PRpc.Server

/-- A `Connection` object, by its `index`. -/
abbrev ConnId := ℕ

/-- The fields of `Server::Call`. The last one only records what happened. -/
structure Call where
  connection : ConnId
  callId : CInt
  className : Bytes
  methodName : Bytes
  params : List Writable
  value : Option Writable := none
  pos : CInt := 0
  strVal : Bytes := []
  /-- The bytes that were sent as the value so far. -/
  found : Bytes := []

namespace Call

/-- The parameters of a request; an exception inside the loop goes on. -/
def readArgs (size : ℕ) : SockM (List Writable) := fun s =>
  match paramLoop size s with
  | ⟨params, none, s⟩ => .ok params s
  | ⟨_, some e, s⟩ => .error e s

/-- The body of the `try` block in `Call::read`. -/
def readBody (conn : ConnId) : SockM Call := do
  let callId ← readInt
  let className ← Writable.readString
  let methodName ← Writable.readString
  let size ← readCount
  let params ← readArgs size
  return { connection := conn, callId, className, methodName, params }

/-- `none` is the return value `false`; the caller drops the object then. -/
def read (conn : ConnId) (s : Sock) : Option Call × Sock :=
  match readBody conn s with
  | .ok call s => (some call, s)
  | .error _ s => (none, s)

/-- Successive reads from one connection, each with the socket that it leaves. -/
def reads (conn : ConnId) : ℕ → Sock → List (Option Call × Sock)
  | 0, _ => []
  | n + 1, s => read conn s :: reads conn n (read conn s).2

end Call

end PRpc.Server
