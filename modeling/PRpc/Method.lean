import PRpc.Frame

/-!
# Executing a call

`Method::call` is the dispatcher, an `if`/`else` over class and method names. It indexes the
parameters, casts them down and returns `NULL` for what it does not know; the handler passes the
result on to `setValue` and to the log without looking at it. `Handler.process` is that part of a
handler's round, with the ways in which it can kill the server as `Fault`s.
-/

namespace PRpc

/-- What ends the process, or would by the rules of the language. -/
inductive Fault
  /-- `params[i]` past the end of the vector. -/
  | outOfRange
  /-- A member function called on a null `shared_ptr`. -/
  | nullPointer
  /-- An exception that leaves the thread function. -/
  | uncaught (e : Exn)
  deriving DecidableEq, Repr

/-- `dynamic_pointer_cast<IntWritable>`. -/
def Writable.asInt : Writable → Option CInt
  | .int value => some value
  | .base => none
  | .method _ _ _ => none

theorem eq_int_of_asInt {w : Writable} {v : CInt} (h : w.asInt = some v) : w = .int v := by
  cases w with
  | int v' => cases h; rfl
  | base => cases h
  | method c m ps => cases h

/-- The arguments are dereferenced without a check. -/
def NameNode.create (arg0 arg1 arg2 arg3 : Option CInt) : Except Fault Writable :=
  match arg0, arg1, arg2, arg3 with
  | some a, some b, some c, some d => .ok (.int (a + b + c + d))
  | _, _, _, _ => .error .nullPointer

namespace Method

/-- `params[i]`. -/
def param (params : List Writable) (i : ℕ) : Except Fault Writable :=
  match params[i]? with
  | some w => .ok w
  | none => .error .outOfRange

/-- The branch for `create` of the class `NameNode`. -/
def nameNodeCreate (params : List Writable) : Except Fault Writable := do
  let p0 ← param params 0
  let p1 ← param params 1
  let p2 ← param params 2
  let p3 ← param params 3
  NameNode.create p0.asInt p1.asInt p2.asInt p3.asInt

/-- The dispatcher; `none` is the null pointer. -/
def call (c m : Bytes) (params : List Writable) : Except Fault (Option Writable) :=
  if c = ascii "FSNameSystem" then
    if m = ascii "create" then .ok (some (.int 32)) else .ok none
  else if c = ascii "NameNode" then
    if m = ascii "create" then some <$> nameNodeCreate params else .ok none
  else .ok none

end Method

namespace Server

/-- `setValue` asks the value for its representation at once. -/
def Call.setValue (call : Call) : Option Writable → Except Fault Call
  | none => .error .nullPointer
  | some v =>
    match v.toString with
    | .ok str => .ok { call with strVal := str, value := some v }
    | .error e => .error (.uncaught e)

/-- The log line with the value of the call. -/
def Handler.logValue : Option Writable → Except Fault Unit
  | none => .error .nullPointer
  | some v =>
    match v.printToString with
    | .ok _ => .ok ()
    | .error e => .error (.uncaught e)

/-- A handler's work on a call, from `_bq_call.pop()` up to `doRespond`. -/
def Handler.process (call : Call) : Except Fault Call := do
  let res ← Method.call call.className call.methodName call.params
  let call ← call.setValue res
  Handler.logValue res
  return call

end Server

/-! ## Which calls are executed -/

/-- The calls the dispatcher has a branch for, with the parameters that the branch uses. -/
def Server.Call.Served (call : Server.Call) : Prop :=
  call.methodName = ascii "create" ∧ (call.className = ascii "FSNameSystem" ∨
    call.className = ascii "NameNode" ∧
      ∃ a b c d rest, call.params = .int a :: .int b :: .int c :: .int d :: rest)

/-- The handler gets through the call with a value that can be sent back. -/
def Server.Handler.Completes (call : Server.Call) : Prop :=
  ∃ call' v, Server.Handler.process call = .ok call' ∧ call'.value = some v ∧
    v.toString = .ok call'.strVal

namespace Method

/-- The four casts succeed exactly on four `IntWritable`s in front. -/
theorem of_nameNodeCreate {params : List Writable} {w : Writable}
    (h : nameNodeCreate params = .ok w) :
    ∃ a b c d rest, params = .int a :: .int b :: .int c :: .int d :: rest ∧
      w = .int (a + b + c + d) := by
  match params with
  | [] => cases h
  | [_] => cases h
  | [_, _] => cases h
  | [_, _, _] => cases h
  | w0 :: w1 :: w2 :: w3 :: rest =>
    change NameNode.create w0.asInt w1.asInt w2.asInt w3.asInt = .ok w at h
    unfold NameNode.create at h
    split at h
    · next a b c d h0 h1 h2 h3 =>
      cases h
      refine ⟨a, b, c, d, rest, ?_, rfl⟩
      rw [eq_int_of_asInt h0, eq_int_of_asInt h1, eq_int_of_asInt h2, eq_int_of_asInt h3]
    · cases h

theorem of_call {c m : Bytes} {params : List Writable} {w : Writable}
    (h : call c m params = .ok (some w)) : m = ascii "create" ∧
      (c = ascii "FSNameSystem" ∧ w = .int 32 ∨
        c = ascii "NameNode" ∧ ∃ a b c d rest,
          params = .int a :: .int b :: .int c :: .int d :: rest ∧ w = .int (a + b + c + d)) := by
  unfold call at h
  split_ifs at h with hfs hm hnn hm
  · cases h; exact ⟨hm, .inl ⟨hfs, rfl⟩⟩
  · cases h
  · cases hc : nameNodeCreate params with
    | error e => rw [hc] at h; cases h
    | ok w' => rw [hc] at h; cases h; exact ⟨hm, .inr ⟨hnn, of_nameNodeCreate hc⟩⟩
  · cases h
  · cases h

/-- The dispatcher only ever makes `IntWritable`s. -/
theorem call_int {c m : Bytes} {params : List Writable} {w : Writable}
    (h : call c m params = .ok (some w)) : ∃ v, w = .int v := by
  obtain ⟨-, ⟨-, rfl⟩ | ⟨-, a, b, c, d, rest, -, rfl⟩⟩ := of_call h
  · exact ⟨32, rfl⟩
  · exact ⟨a + b + c + d, rfl⟩

theorem call_fsNameSystem (params : List Writable) :
    call (ascii "FSNameSystem") (ascii "create") params = .ok (some (.int 32)) := rfl

theorem call_nameNode (a b c d : CInt) (rest : List Writable) :
    call (ascii "NameNode") (ascii "create") (.int a :: .int b :: .int c :: .int d :: rest) =
      .ok (some (.int (a + b + c + d))) := rfl

end Method

namespace Server.Handler

/-- A result that is an `IntWritable` is stored and logged without trouble. -/
theorem process_of_call {call : Call} {v : CInt}
    (h : Method.call call.className call.methodName call.params = .ok (some (.int v))) :
    process call = .ok { call with strVal := IntWritable.toString v, value := some (.int v) } := by
  unfold process
  rw [h]
  rfl

theorem of_process {call call' : Call} (h : process call = .ok call') :
    ∃ v, Method.call call.className call.methodName call.params = .ok (some (.int v)) ∧
      call' = { call with strVal := IntWritable.toString v, value := some (.int v) } := by
  unfold process at h
  cases hc : Method.call call.className call.methodName call.params with
  | error e => rw [hc] at h; cases h
  | ok res =>
    cases res with
    | none => rw [hc] at h; cases h
    | some w =>
      obtain ⟨v, rfl⟩ := Method.call_int hc
      rw [hc] at h
      cases h
      exact ⟨v, rfl, rfl⟩

/-- **Which calls a handler survives**: exactly those that the dispatcher serves. -/
theorem completes_iff_served (call : Call) : Completes call ↔ call.Served := by
  constructor
  · rintro ⟨call', v, h, -, -⟩
    obtain ⟨v, hc, -⟩ := of_process h
    obtain ⟨hm, ⟨hclass, -⟩ | ⟨hclass, a, b, c, d, rest, hps, -⟩⟩ := Method.of_call hc
    · exact ⟨hm, .inl hclass⟩
    · exact ⟨hm, .inr ⟨hclass, a, b, c, d, rest, hps⟩⟩
  · rintro ⟨hm, hclass | ⟨hclass, a, b, c, d, rest, hps⟩⟩
    · have hc := Method.call_fsNameSystem call.params
      rw [← hclass, ← hm] at hc
      exact ⟨_, _, process_of_call hc, rfl, rfl⟩
    · have hc := Method.call_nameNode a b c d rest
      rw [← hclass, ← hm, ← hps] at hc
      exact ⟨_, _, process_of_call hc, rfl, rfl⟩

/-- A request for `NameNode.create` without parameters. -/
def noParams : Request := ⟨7, ascii "NameNode", ascii "create", []⟩

/-- The server reads it and the handler indexes an empty vector. -/
theorem noParams_read_and_fatal :
    ¬ ∀ (conn : ConnId) (s s' : Sock) (call : Call),
      Call.read conn s = (some call, s') → Completes call := by
  intro h
  obtain ⟨call', v, hp, -⟩ := h 0 ⟨noParams.bytes, 0, .whole, 0, 0⟩ ⟨[], 0, .whole, 0, 0⟩
    (noParams.received 0) rfl
  cases hp

end Server.Handler

end PRpc
