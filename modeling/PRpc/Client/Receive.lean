import PRpc.Client.Call

/-!
# Receiving a response

`Client::Connection::recvRespond` reads an id, looks the call up and lets a new object of the
call's value class read the rest. The frame's length is read by that object.
-/

namespace PRpc.Client

/-- How `recvRespond` ends. -/
inductive Received
  /-- The id is not in `_calls`: `std::abort`. -/
  | abort
  /-- An exception before the call was looked up: the handler uses a null `curr_call`. -/
  | crash
  /-- An exception while reading the value: it is logged and the call stays as it is. -/
  | logged (id : CInt)
  /-- `setValue` was called: the call after it. -/
  | set (id : CInt) (call : Call)

namespace Connection

/-- The value of a call, read by an object of its value class; `none` if that throws. What
`readFields` returns is not looked at. -/
def recvValue (call : Call) (s : Sock) : Option Call × Sock :=
  match Writable.readFields paramLoop (Method.getNewInstance s.fresh call.valueClass) s.make with
  | (.error _, _, s) => (none, s)
  | (.ok _, val, s) => (some (call.setValue val), s)

def recvRespond (calls : CInt → Option Call) (s : Sock) : Received × Sock :=
  match readInt s with
  | .error _ s => (.crash, s)
  | .ok id s =>
    match calls id with
    | none => (.abort, s)
    | some call =>
      match recvValue call s with
      | (none, s) => (.logged id, s)
      | (some call, s) => (.set id call, s)

theorem of_recvValue {call call' : Call} {s : Sock} (h : (recvValue call s).1 = some call') :
    ∃ val, call' = call.setValue val := by
  unfold recvValue at h
  split at h
  · cases h
  · cases h
    exact ⟨_, rfl⟩

theorem recvValue_after (call : Call) (s : Sock) : (recvValue call s).2.After s.make := by
  have a := Writable.readFields_after (f := paramLoop) (fun n t => readParams_after _ n t)
    (Method.getNewInstance s.fresh call.valueClass) s.make
  unfold recvValue
  split
  · next hr => rw [hr] at a; exact a
  · next hr => rw [hr] at a; exact a

theorem recvValue_memory {call : Call} {s t : Sock} {r : Option Call}
    (h : recvValue call s = (r, t)) : t.memory = s.memory := by
  have a := recvValue_after call s
  rw [h] at a
  exact a.memory

theorem recvRespond_memory (calls : CInt → Option Call) (s : Sock) :
    (recvRespond calls s).2.memory = s.memory := by
  unfold recvRespond
  split
  · next h => exact (Reads.readInt.error h).memory
  · next id t h =>
    have hmem := (Reads.readInt.ok h).memory
    split
    · exact hmem
    · split
      · next hval => exact (recvValue_memory hval).trans hmem
      · next hval => exact (recvValue_memory hval).trans hmem

/-! What happens to a value, by the class of the call. -/

section Classes

variable {call : Call}

theorem recvValue_int_eq (hclass : call.valueClass = ascii "IntWritable") (s : Sock) :
    recvValue call s =
      match IntWritable.readFields s.make with
      | .ok (l, v) t => (some { call with value := some (.int v), done := true },
          if l.toInt < 0 then t.fail else t)
      | .error _ t => (none, t.fail) := by
  have hget : Method.getNewInstance s.fresh call.valueClass = .int s.fresh := by rw [hclass]; rfl
  unfold recvValue
  rw [hget, Writable.readFields_int]
  cases IntWritable.readFields s.make <;> rfl

theorem readFields_method_eq (loop : ℕ → Sock → Filled) (s : Sock) :
    ∃ c m ps, (MethodWritable.readFields loop s).2.1 = .method c m ps := by
  unfold MethodWritable.readFields
  split
  · exact ⟨_, _, _, rfl⟩
  · split
    · exact ⟨_, _, _, rfl⟩
    · split
      · exact ⟨_, _, _, rfl⟩
      · exact ⟨_, _, _, rfl⟩

theorem recvValue_method_eq (hclass : call.valueClass = ascii "MethodWritable") (s : Sock) :
    recvValue call s =
      (some { call with
        value := some (MethodWritable.readFields paramLoop s.make).2.1, done := true },
        if (MethodWritable.readFields paramLoop s.make).1.toInt < 0 then
          (MethodWritable.readFields paramLoop s.make).2.2.fail
        else (MethodWritable.readFields paramLoop s.make).2.2) := by
  have hget : Method.getNewInstance s.fresh call.valueClass = .method [] [] [] := by
    rw [hclass]; rfl
  obtain ⟨c, m, ps, hw⟩ := readFields_method_eq paramLoop s.make
  unfold recvValue
  rw [hget, Writable.readFields_method]
  dsimp only
  rw [hw]
  rfl

/-- Of any other class a base `Writable` is made, which reads nothing and cannot be printed. -/
theorem recvValue_base_eq (hint : call.valueClass ≠ ascii "IntWritable")
    (hmethod : call.valueClass ≠ ascii "MethodWritable") (s : Sock) :
    recvValue call s = (some { call with value := some .base }, s.make) := by
  have hget : Method.getNewInstance s.fresh call.valueClass = .base := by
    unfold Method.getNewInstance
    rw [if_neg hint, if_neg hmethod]
  unfold recvValue
  rw [hget]
  rfl

end Classes

/-- A call for an `IntWritable` takes a length and that many bytes, and is done. -/
theorem recvValue_int {call : Call} (hclass : call.valueClass = ascii "IntWritable") {bs : Bytes}
    {s : Sock} (h : bs.length < s.memory.limit) :
    ∃ s', s'.input = s.input ∧ recvValue call (s.unread (sizeBytes bs.length ++ bs)) =
      (some { call with value := some (.int (intOfPayload bs)), done := true }, s') := by
  have hread : IntWritable.readFields (s.unread (sizeBytes bs.length ++ bs)).make = _ :=
    readFields_int_unread (s := s.make) h
  rw [recvValue_int_eq hclass, hread]
  refine ⟨_, ?_, rfl⟩
  split <;> rfl

/-- A complete frame for a pending call with value class `IntWritable`. -/
theorem recvRespond_int (calls : CInt → Option Call) {id : CInt} {call : Call}
    (hfind : calls id = some call) (hclass : call.valueClass = ascii "IntWritable") {bs : Bytes}
    {s : Sock} (h : bs.length < s.memory.limit) :
    ∃ s', s'.input = s.input ∧
      recvRespond calls (s.unread (intBytes id ++ sizeBytes bs.length ++ bs)) =
        (.set id { call with value := some (.int (intOfPayload bs)), done := true }, s') := by
  obtain ⟨s', hin, hv⟩ := recvValue_int hclass h
  refine ⟨s', hin, ?_⟩
  unfold recvRespond
  rw [List.append_assoc, Sock.unread_append, readInt_unread]
  simp only [hfind, hv]

theorem of_recvRespond_set {calls : CInt → Option Call} {s : Sock} {id : CInt} {call : Call}
    (h : (recvRespond calls s).1 = .set id call) :
    ∃ call', calls id = some call' ∧ call.id = call'.id := by
  unfold recvRespond at h
  split at h
  · cases h
  · split at h
    · cases h
    · next call' hfind =>
      split at h
      · cases h
      · next hval =>
        cases h
        obtain ⟨val, rfl⟩ := of_recvValue (congrArg Prod.fst hval)
        exact ⟨call', hfind, Call.id_setValue call' val⟩

end Connection

end PRpc.Client
