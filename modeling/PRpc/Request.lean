import PRpc.Server.Call
import PRpc.Client.Call

/-!
# Requests on the wire

What `Client::Call::write` sends, `Server::Call::read` takes back. The encoder is one recursion
over the parameter tree; the decoder reads the outermost level in `Call::read` and the nested ones
in `MethodWritable::readFields`. `readFields_write` and `paramLoop_write` are the two halves of
one induction over the tree; the value of an `IntWritable` comes back as its lowest byte
(`narrow`), everything else as it was sent.
-/

namespace PRpc

/-! ## What can be sent -/

section Sendable

variable (M : Memory)

/-- A class or method name that survives the wire: not empty, no NUL, a length whose successor is
still an `int` and for which the reader has a buffer. -/
def IsName (str : Bytes) : Prop := str ≠ [] ∧ 0 ∉ str ∧ str.length < M.maxString

instance (str : Bytes) : Decidable (IsName M str) :=
  inferInstanceAs (Decidable (str ≠ [] ∧ 0 ∉ str ∧ str.length < M.maxString))

mutual

/-- The names in an object are names, and the reader has room for its vectors. -/
def Writable.Sendable : Writable → Prop
  | .base => True
  | .int _ => True
  | .method c m ps => IsName M c ∧ IsName M m ∧ ps.length ≤ M.maxParams ∧ Writable.AllSendable ps

def Writable.AllSendable : List Writable → Prop
  | [] => True
  | w :: ws => w.Sendable ∧ Writable.AllSendable ws

end

mutual

def Writable.decidableSendable : (w : Writable) → Decidable (w.Sendable M)
  | .base => .isTrue trivial
  | .int _ => .isTrue trivial
  | .method c m ps =>
    have := Writable.decidableAllSendable ps
    inferInstanceAs
      (Decidable (IsName M c ∧ IsName M m ∧ ps.length ≤ M.maxParams ∧ AllSendable M ps))

def Writable.decidableAllSendable : (ws : List Writable) → Decidable (Writable.AllSendable M ws)
  | [] => .isTrue trivial
  | w :: ws =>
    have := Writable.decidableSendable w
    have := Writable.decidableAllSendable ws
    inferInstanceAs (Decidable (w.Sendable M ∧ AllSendable M ws))

end

instance : DecidablePred (Writable.Sendable M) := Writable.decidableSendable M

end Sendable

/-! ## What comes back -/

mutual

/-- An object with every `int` as the decoder rebuilds it from its representation. -/
def Writable.narrow : Writable → Writable
  | .base => .base
  | .int value => .int (intOfPayload (intBytes value))
  | .method c m ps => .method c m (Writable.narrowAll ps)

def Writable.narrowAll : List Writable → List Writable
  | [] => []
  | w :: ws => w.narrow :: Writable.narrowAll ws

end

mutual

/-- The kinds and names of an object and of what it contains, without the values. -/
def Writable.shape : Writable → Writable
  | .base => .base
  | .int _ => .int 0
  | .method c m ps => .method c m (Writable.shapes ps)

def Writable.shapes : List Writable → List Writable
  | [] => []
  | w :: ws => w.shape :: Writable.shapes ws

end

namespace Writable

theorem length_narrowAll (ws : List Writable) : (narrowAll ws).length = ws.length := by
  induction ws with
  | nil => rfl
  | cons w ws ih => rw [narrowAll, List.length_cons, List.length_cons, ih]

theorem shape_narrow : (∀ w : Writable, w.narrow.shape = w.shape) ∧
    ∀ ws, shapes (narrowAll ws) = shapes ws := by
  refine induction rfl (fun _ => rfl) ?_ rfl ?_
  · intro c m ps ih
    rw [narrow, shape, shape, ih]
  · intro w ws hw hws
    rw [narrowAll, shapes, shapes, hw, hws]

end Writable

/-! ## One object, one vector -/

/-- The socket after `n` objects were made. -/
def Sock.makes (n : ℕ) (s : Sock) : Sock := { s with made := s.made + n }

theorem Sock.makes_makes (a b : ℕ) (s : Sock) : (s.makes a).makes b = s.makes (a + b) := by
  unfold makes
  rw [Nat.add_assoc]

theorem Sock.makes_unread (n : ℕ) (bs : Bytes) (s : Sock) :
    (s.unread bs).makes n = (s.makes n).unread bs := rfl

theorem readString_writeString {str : Bytes} {s : Sock} (h : IsName s.memory str) :
    Writable.readString (s.unread (Writable.writeString str)) = .ok str s := by
  obtain ⟨h0, hnul, hlen⟩ := h
  have hint := (Memory.lt_maxString.mp hlen).2
  rw [Writable.writeString_eq h0 (by omega), readString_unread h0 hlen, cstr_eq_self hnul]

theorem isName_getClass (M : Memory) (w : Writable) : IsName M w.getClass := by
  refine ⟨w.getClass_ne_nil, ?_, M.small_string ?_⟩
  · cases w <;> simp [Writable.getClass, ascii]
  · have := w.length_getClass_le
    omega

/-- The class name picks an object of the same class. -/
theorem getNewInstance_getClass (fresh : CInt) (w : Writable) :
    Method.getNewInstance fresh w.getClass =
      match w with
      | .base => .base
      | .int _ => .int fresh
      | .method _ _ _ => .method [] [] [] := by
  cases w <;> simp [Method.getNewInstance, Writable.getClass, ascii]

/-- The induction over the parameter tree. -/
theorem readFields_and_paramLoop_write {M : Memory} :
    (∀ w : Writable, w.Sendable M → ∀ s : Sock, s.memory = M → ∃ ret n,
      Writable.readFields paramLoop (Method.getNewInstance s.fresh w.getClass) (s.unread w.write) =
        (.ok ret, w.narrow, s.makes n)) ∧
    ∀ ws, Writable.AllSendable M ws → ∀ s : Sock, s.memory = M → ∃ n,
      paramLoop ws.length (s.unread (MethodWritable.writeParams ws)) =
        ⟨Writable.narrowAll ws, none, s.makes n⟩ := by
  refine Writable.induction ?_ ?_ ?_ ?_ ?_
  · intro _ s _
    refine ⟨0, 0, ?_⟩
    rw [getNewInstance_getClass]
    rfl
  · intro v _ s _
    refine ⟨intOfSize 4, 0, ?_⟩
    have h : IntWritable.readFields (s.unread (Writable.int v).write) =
        .ok (intOfSize 4, intOfPayload (intBytes v)) s := by
      have := readFields_int_unread (s.memory.length_intBytes_lt v)
      rwa [length_intBytes] at this
    rw [getNewInstance_getClass, Writable.readFields_int, h]
    rfl
  · rintro c m ps ih hs s rfl
    obtain ⟨hc, hm, hlen, hps⟩ := hs
    obtain ⟨n, hn⟩ := ih hps s rfl
    refine ⟨0, n, ?_⟩
    have h : MethodWritable.readFields paramLoop (s.unread (Writable.method c m ps).write) =
        (0, (Writable.method c m ps).narrow, s.makes n) := by
      rw [Writable.write, Sock.unread_append, Sock.unread_append, Sock.unread_append]
      unfold MethodWritable.readFields
      have h₁ := readString_writeString (s := ((s.unread (MethodWritable.writeParams ps)).unread
        (sizeBytes ps.length)).unread (Writable.writeString m)) hc
      have h₂ := readString_writeString (s := (s.unread (MethodWritable.writeParams ps)).unread
        (sizeBytes ps.length)) hm
      have h₃ := readCount_unread (s := s.unread (MethodWritable.writeParams ps)) hlen
      simp only [h₁, h₂, h₃, hn]
      rfl
    rw [getNewInstance_getClass, Writable.readFields_method, h]
    rfl
  · intro _ s _
    exact ⟨0, rfl⟩
  · rintro w ws hw hws hs s rfl
    obtain ⟨h1, h2⟩ := hs
    obtain ⟨ret, n, hn⟩ := hw h1 ((s.unread (MethodWritable.writeParams ws)).make) rfl
    obtain ⟨n', hn'⟩ := hws h2 (s.makes (1 + n)) rfl
    refine ⟨1 + n + n', ?_⟩
    rw [MethodWritable.writeParams, List.append_assoc, Sock.unread_append, Sock.unread_append,
      List.length_cons, paramLoop_succ, readString_writeString (isName_getClass _ w)]
    -- the object is read from the socket on which its making was recorded
    have hr : Writable.readFields paramLoop
        (Method.getNewInstance ((s.unread (MethodWritable.writeParams ws)).unread w.write).fresh
          w.getClass) ((s.unread (MethodWritable.writeParams ws)).unread w.write).make =
        (.ok ret, w.narrow, (s.makes (1 + n)).unread (MethodWritable.writeParams ws)) := by
      rw [← Sock.makes_unread, ← Sock.makes_makes]
      exact hn
    simp only [hr, hn', Sock.makes_makes]
    rfl

theorem paramLoop_write {ws : List Writable} {s : Sock} (h : Writable.AllSendable s.memory ws) :
    ∃ n, paramLoop ws.length (s.unread (MethodWritable.writeParams ws)) =
      ⟨Writable.narrowAll ws, none, s.makes n⟩ := readFields_and_paramLoop_write.2 ws h s rfl

/-! ## Requests -/

/-- A client's request: an id and the `MethodWritable` that it passes to `Client::call`. -/
structure Request where
  id : CInt
  className : Bytes
  methodName : Bytes
  params : List Writable

namespace Request

def param (r : Request) : Writable := .method r.className r.methodName r.params

/-- The call object that carries the request; its value class plays no part here. -/
def call (r : Request) (valueClass : Bytes) : Client.Call :=
  { valueClass, id := r.id, param := r.param }

/-- What `Client::Call::write` sends. -/
def bytes (r : Request) : Bytes := (r.call []).write

def Sendable (M : Memory) (r : Request) : Prop := r.param.Sendable M

/-- The call that the server makes of the request. -/
def received (r : Request) (conn : Server.ConnId) : Server.Call :=
  { connection := conn, callId := r.id, className := r.className, methodName := r.methodName,
    params := Writable.narrowAll r.params }

theorem write_call (r : Request) (valueClass : Bytes) : (r.call valueClass).write = r.bytes := rfl

theorem bytes_eq (r : Request) : r.bytes = intBytes r.id ++
    (Writable.writeString r.className ++ Writable.writeString r.methodName ++
      sizeBytes r.params.length ++ MethodWritable.writeParams r.params) := by
  unfold bytes Client.Call.write call param
  rw [Writable.write]

theorem read_bytes {r : Request} {s : Sock} (h : r.Sendable s.memory) (conn : Server.ConnId) :
    ∃ n, Server.Call.read conn (s.unread r.bytes) = (some (r.received conn), s.makes n) := by
  obtain ⟨hc, hm, hlen, hps⟩ := h
  obtain ⟨n, hn⟩ := paramLoop_write hps
  refine ⟨n, ?_⟩
  have hargs : Server.Call.readArgs r.params.length
      (s.unread (MethodWritable.writeParams r.params)) =
        .ok (Writable.narrowAll r.params) (s.makes n) := by
    unfold Server.Call.readArgs
    rw [hn]
  have hbody : Server.Call.readBody conn (s.unread r.bytes) =
      .ok (r.received conn) (s.makes n) := by
    have h₁ := readString_writeString (s := ((s.unread (MethodWritable.writeParams r.params)).unread
      (sizeBytes r.params.length)).unread (Writable.writeString r.methodName)) hc
    have h₂ := readString_writeString (s := (s.unread (MethodWritable.writeParams r.params)).unread
      (sizeBytes r.params.length)) hm
    have h₃ := readCount_unread (s := s.unread (MethodWritable.writeParams r.params)) hlen
    unfold Server.Call.readBody
    rw [bytes_eq, Sock.unread_append, Sock.unread_append, Sock.unread_append, Sock.unread_append,
      bind_ok (readInt_unread _ _), bind_ok h₁, bind_ok h₂, bind_ok h₃, bind_ok hargs]
    rfl
  unfold Server.Call.read
  rw [hbody]

/-- What the claim that a request arrives says about the call: everything but the values. -/
structure Arrives (r : Request) (call : Server.Call) : Prop where
  id : call.callId = r.id
  className : call.className = r.className
  methodName : call.methodName = r.methodName
  count : call.params.length = r.params.length
  shapes : Writable.shapes call.params = Writable.shapes r.params

theorem arrives_received (r : Request) (conn : Server.ConnId) : r.Arrives (r.received conn) :=
  ⟨rfl, rfl, rfl, Writable.length_narrowAll r.params, Writable.shape_narrow.2 r.params⟩

/-- **Request framing.** However many requests were written back to back, and whatever follows,
the `k`-th read returns the `k`-th request and stops where the next one starts. -/
theorem reads_framed (conn : Server.ConnId) (reqs : List Request) (s : Sock)
    (h : ∀ r ∈ reqs, r.Sendable s.memory) (k : ℕ) (hk : k < reqs.length) :
    ∃ call s', (Server.Call.reads conn reqs.length (s.unread (reqs.flatMap bytes)))[k]? =
        some (some call, s') ∧
      reqs[k].Arrives call ∧ s'.input = (reqs.drop (k + 1)).flatMap bytes ++ s.input := by
  induction reqs generalizing s k with
  | nil => exact absurd hk (Nat.not_lt_zero k)
  | cons r reqs ih =>
    obtain ⟨n, hn⟩ := read_bytes (s := s.unread (reqs.flatMap bytes))
      (h r List.mem_cons_self) conn
    rw [List.flatMap_cons, Sock.unread_append, List.length_cons, Server.Call.reads, hn]
    cases k with
    | zero => exact ⟨_, _, rfl, r.arrives_received conn, rfl⟩
    | succ k =>
      obtain ⟨call, s', hget, hrest⟩ := ih (s.makes n)
        (fun r hr => h r (List.mem_cons_of_mem _ hr)) k (Nat.lt_of_succ_lt_succ hk)
      exact ⟨call, s', hget, hrest⟩

/-- Two requests, one of them with a request among its parameters. -/
def pair : List Request :=
  [⟨0, ascii "NameNode", ascii "create",
      [.int 12, .base, .method (ascii "NameNode") (ascii "create") [.int 23]]⟩,
    ⟨1, ascii "FSNameSystem", ascii "create", []⟩]

theorem sendable_of_mem_pair : ∀ r ∈ pair, r.Sendable .whole := by
  intro r hr
  rcases List.mem_cons.mp hr with rfl | hr
  · exact ⟨by decide, by decide, by decide, trivial, trivial,
      ⟨by decide, by decide, by decide, trivial, trivial⟩, trivial⟩
  · cases List.mem_singleton.mp hr
    exact ⟨by decide, by decide, by decide, trivial⟩

theorem reads_framed_pair : pair.length = 2 ∧ ∃ call s',
    (Server.Call.reads 0 2 (Sock.unread (pair.flatMap bytes) ⟨ascii "rest", 0, .whole, 0, 0⟩))[1]? =
      some (some call, s') ∧ Arrives pair[1] call ∧ s'.input = ascii "rest" :=
  ⟨rfl, reads_framed 0 pair ⟨ascii "rest", 0, .whole, 0, 0⟩ sendable_of_mem_pair 1 (by decide)⟩

end Request

end PRpc
