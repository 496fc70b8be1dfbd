import PRpc.Decode

/-!
# The client's `Call`
-/

namespace PRpc.Client

/-- The fields of `Client::Call`; its connection is kept with the caller. -/
structure Call where
  valueClass : Bytes
  id : CInt
  param : Writable
  value : Option Writable := none
  done : Bool := false

namespace Call

/-- A call object before it is made. -/
def blank : Call := { valueClass := [], id := 0, param := .base }

/-- The bytes of a request. -/
def write (call : Call) : Bytes := intBytes call.id ++ call.param.write

/-- The value is stored first; printing it for the log may throw, and then the call is not done. -/
def setValue (call : Call) (val : Writable) : Call :=
  match val.printToString with
  | .ok _ => { call with value := some val, done := true }
  | .error _ => { call with value := some val }

@[simp] theorem id_setValue (call : Call) (val : Writable) : (call.setValue val).id = call.id := by
  unfold setValue
  split <;> rfl

end Call

end PRpc.Client
