import PRpc.Client.Receive
import Mathlib.Data.List.AList

/-!
# The client's `Connection`

The fields that `connect`, `addCall` and `close` use, and the table of calls. The table is a
`std::map`: an insertion under a key that is there already changes nothing.
-/

namespace PRpc.Client

/-- A `Connection` object, by its `index`. -/
abbrev ConnId := ℕ

/-- A `Call` object, in the order of their making. -/
abbrev CallId := ℕ

/-- The address in its printed form, and the port. -/
structure Endpoint where
  address : Bytes
  port : BitVec 16
  deriving DecidableEq, Repr

/-- The key of an endpoint in `_connections`. -/
def Endpoint.key (ep : Endpoint) : Bytes :=
  ep.address ++ ascii ":" ++ ascii (toString ep.port.toNat)

/-- What the pointer `_sock` holds. -/
inductive SockPtr
  | null
  /-- It was never assigned and is not null: no constructor initialises it. -/
  | wild
  | unconnected
  | connected
  | deleted
  deriving DecidableEq, Repr

/-! ## The table of calls -/

/-- `std::map<int, shared_ptr<Call>>`. -/
abbrev CallMap := AList fun _ : CInt => CallId

namespace CallMap

/-- `std::map::insert`. -/
def add (m : CallMap) (id : CInt) (k : CallId) : CallMap := if id ∈ m then m else m.insert id k

variable {m : CallMap} {id id' : CInt} {k k' : CallId}

theorem add_of_notMem (h : id ∉ m) (k : CallId) : m.add id k = m.insert id k := if_neg h

theorem mem_add : id ∈ m.add id k := by
  unfold add
  split
  · assumption
  · exact (AList.mem_insert m).mpr (.inl rfl)

/-- A call is under its key exactly if the key was free or the call was there before. -/
theorem lookup_add_self : (m.add id k).lookup id = some k ↔ id ∉ m ∨ m.lookup id = some k := by
  by_cases h : id ∈ m
  · unfold add
    rw [if_pos h]
    simp [h]
  · rw [add_of_notMem h, AList.lookup_insert]
    simp [h]

theorem of_lookup_add (h : (m.add id k).lookup id' = some k') :
    m.lookup id' = some k' ∨ id' = id ∧ k' = k := by
  unfold add at h
  split at h
  · exact .inl h
  · by_cases heq : id' = id
    · subst heq
      rw [AList.lookup_insert] at h
      exact .inr ⟨rfl, (Option.some.inj h).symm⟩
    · rw [AList.lookup_insert_ne heq] at h
      exact .inl h

theorem lookup_add_of_lookup (h : m.lookup id' = some k') : (m.add id k).lookup id' = some k' := by
  unfold add
  split
  · exact h
  · next hid =>
    have hmem : id' ∈ m := AList.lookup_isSome.mp (h ▸ rfl)
    have hne : id' ≠ id := fun heq => hid (heq ▸ hmem)
    rw [AList.lookup_insert_ne hne, h]

end CallMap

/-! ## The object -/

structure Connection where
  ep : Endpoint
  sock : SockPtr
  recvStarted : Bool
  shouldClose : Bool
  lastCallIndex : CInt
  calls : CallMap

/-- The constructor; `sock` is what the memory of `_sock` happens to hold. -/
def Connection.new (ep : Endpoint) (sock : SockPtr) : Connection :=
  { ep, sock, recvStarted := false, shouldClose := false, lastCallIndex := 0, calls := ∅ }

/-- `addCall`; the call carries the old `last_call_index`. -/
def Connection.addCall (conn : Connection) (k : CallId) : Connection :=
  { conn with
    lastCallIndex := conn.lastCallIndex + 1
    calls := conn.calls.add conn.lastCallIndex k }

/-- `setId`. -/
def Call.setId (call : Call) (id : CInt) : Call := { call with id }

end PRpc.Client
