import PRpc.Decode

/-!
# The decode buffers

`Decode.lean` takes a payload as a list. Here the two functions that read one through a buffer from
`new char[]` are translated once more with the buffer itself: its size, the number of bytes that
the socket is asked to store from its start on, and where the terminating NUL is written. `Over`
says that this changes nothing else (`readStringInto_over`, `readFieldsInto_over`).

The size is computed from the length in the arithmetic of the machine. For an `int` length `n + 1`
overflows to a negative number, of which `new` makes an allocation that fails. For a `size_t` it
overflows to zero, and `new char[0]` succeeds.
-/

namespace PRpc

/-- A buffer from `new char[size]` and what the code has done to it. -/
structure Buffer where
  size : ℕ
  /-- The bytes that the socket was asked to store, from the start on. -/
  asked : ℕ := 0
  /-- The index of the terminating NUL, once it is written. -/
  nul : Option ℕ := none
  deriving DecidableEq, Repr

/-- Everything is inside the buffer. -/
structure Buffer.Holds (b : Buffer) : Prop where
  asked : b.asked ≤ b.size
  nul : ∀ i ∈ b.nul, i < b.size

/-- Code that reads from a socket into the buffer it has allocated, if it has one. -/
abbrev BufferM := EStateM Exn (Sock × Option Buffer)

namespace BufferM

variable {α β : Type}

/-- Code that does not touch the buffer. -/
def onSock (x : SockM α) : BufferM α := fun (s, b) =>
  match x s with
  | .ok a s => .ok a (s, b)
  | .error e s => .error e (s, b)

/-- Code that does not touch the socket. -/
def onBuffer (f : Option Buffer → Option Buffer) : BufferM Unit := fun (s, b) => .ok () (s, f b)

/-- `new char[n]`. -/
def allocate (n : ℕ) : BufferM Unit := do
  onSock (newChars n)
  onBuffer fun _ => some { size := n }

/-- `boost::asio::read` of `n` bytes into the buffer. They are asked for even if they do not all
arrive. -/
def readInto (n : ℕ) : BufferM Bytes := do
  onBuffer fun b => b.map fun b => { b with asked := n }
  onSock (asioRead n)

/-- `buf[i] = '\0'`. -/
def terminate (i : ℕ) : BufferM Unit := onBuffer fun b => b.map fun b => { b with nul := some i }

theorem onSock_ok {x : SockM α} {s s' : Sock} {a : α} (h : x s = .ok a s') (b : Option Buffer) :
    onSock x (s, b) = .ok a (s', b) := by
  simp only [onSock, h]

theorem onSock_error {x : SockM α} {s s' : Sock} {e : Exn} (h : x s = .error e s')
    (b : Option Buffer) : onSock x (s, b) = .error e (s', b) := by
  simp only [onSock, h]

/-- A result without the buffer. -/
def dropBuffer : EStateM.Result Exn (Sock × Option Buffer) α → EStateM.Result Exn Sock α
  | .ok a t => .ok a t.1
  | .error e t => .error e t.1

/-- `x` does to the socket what `y` does, and ends as it does. -/
def Over (x : BufferM α) (y : SockM α) : Prop := ∀ s b, dropBuffer (x (s, b)) = y s

theorem Over.bind {x : BufferM α} {y : SockM α} {f : α → BufferM β} {g : α → SockM β}
    (h : Over x y) (hf : ∀ a, Over (f a) (g a)) : Over (x >>= f) (y >>= g) := by
  intro s b
  have h1 := (h s b).symm
  cases hx : x (s, b) with
  | ok a t =>
    rw [hx] at h1
    rw [bind_ok hx, bind_ok h1]
    exact hf a t.1 t.2
  | error e t =>
    rw [hx] at h1
    rw [bind_error hx, bind_error h1]
    rfl

theorem Over.pure (a : α) : Over (Pure.pure a) (Pure.pure a) := fun _ _ => rfl

theorem Over.throw (e : Exn) :
    Over (MonadExcept.throw e : BufferM α) (MonadExcept.throw e) := fun _ _ => rfl

theorem onSock_over (x : SockM α) : Over (onSock x) x := by
  intro s b
  cases hx : x s with
  | ok a s' => rw [onSock_ok hx, dropBuffer]
  | error e s' => rw [onSock_error hx, dropBuffer]

/-- What is done to the buffer alone can be left out, before the code and after it. -/
theorem Over.after {f : Option Buffer → Option Buffer} {x : BufferM α} {y : SockM α}
    (h : Over x y) : Over (onBuffer f >>= fun _ => x) y := fun s b => h s (f b)

theorem Over.before {f : Option Buffer → Option Buffer} {x : BufferM Unit} {y : SockM Unit}
    (h : Over x y) : Over (x >>= fun _ => onBuffer f) y := by
  intro s b
  rw [← h s b]
  cases hx : x (s, b) with
  | ok a t => rw [bind_ok hx]; rfl
  | error e t => rw [bind_error hx]

theorem allocate_over (n : ℕ) : Over (allocate n) (newChars n) :=
  (onSock_over _).before

theorem readInto_over (n : ℕ) : Over (readInto n) (asioRead n) := (onSock_over _).after

end BufferM

open BufferM

/-! ## The two decoders with their buffers -/

/-- `Writable::readString`, as in `Writable.readString`. -/
def Writable.readStringInto : BufferM Bytes := do
  let length ← onSock readInt
  if 0 < length.toInt then
    allocate (sizeOfInt (length + 1))
    let chars ← readInto length.toNat
    terminate chars.length
    return cstr chars
  else throw .logicError

/-- `IntWritable::readFields`, as in `IntWritable.readFields`. -/
def IntWritable.readFieldsInto : BufferM (CInt × CInt) := do
  let length ← onSock readSize
  allocate ((length + 1) % 2 ^ 64)
  let buf ← readInto length
  terminate length
  return (intOfSize length, (buf.headD 0).signExtend 32)

theorem Writable.readStringInto_over : Over Writable.readStringInto Writable.readString := by
  refine (onSock_over readInt).bind fun length => ?_
  split
  · exact (allocate_over _).bind fun _ => (readInto_over _).bind fun _ => (Over.pure _).after
  · exact .throw _

theorem IntWritable.readFieldsInto_over :
    Over IntWritable.readFieldsInto IntWritable.readFields :=
  (onSock_over readSize).bind fun _ => (allocate_over _).bind fun _ =>
    (readInto_over _).bind fun _ => (Over.pure _).after

/-! ## Room -/

section Room

variable {α β : Type}

/-- The buffer after a run, however it ended. -/
def leftBuffer : EStateM.Result Exn (Sock × Option Buffer) α → Option Buffer
  | .ok _ t => t.2
  | .error _ t => t.2

/-- Run on the socket, the code fails before it has a buffer, or all that it asks the socket to
store and the NUL that it writes are inside the buffer. -/
def Fits (x : BufferM α) (s : Sock) : Prop := ∀ b ∈ leftBuffer (x (s, none)), b.Holds

theorem fits_onSock_ok {x : SockM β} {f : β → BufferM α} {s s' : Sock} {a : β}
    (h : x s = .ok a s') : Fits (onSock x >>= f) s ↔ Fits (f a) s' := by
  unfold Fits
  rw [bind_ok (onSock_ok h none)]

theorem fits_onSock_error {x : SockM β} {f : β → BufferM α} {s s' : Sock} {e : Exn}
    (h : x s = .error e s') : Fits (onSock x >>= f) s := by
  intro b hb
  rw [bind_error (onSock_error h none)] at hb
  cases hb

/-- A payload of `n` bytes read into a buffer of `size`, with a NUL behind what has come. -/
def payload (size n : ℕ) (end_ : Bytes → ℕ) (f : Bytes → α) : BufferM α := do
  allocate size
  let chars ← readInto n
  terminate (end_ chars)
  return f chars

/-- When a payload has room; `end_` is the number of its bytes in both decoders. -/
theorem fits_payload {end_ : Bytes → ℕ} (size n : ℕ) (f : Bytes → α) (s : Sock)
    (hend : ∀ bs : Bytes, bs.length = n → end_ bs = n) :
    Fits (payload size n end_ f) s ↔
      (size ≤ s.memory.limit → n ≤ size ∧ (n ≤ s.input.length → n < size)) := by
  unfold Fits payload
  by_cases hsize : size ≤ s.memory.limit
  · have halloc : allocate size (s, none) = .ok () (s, some { size }) := by
      unfold allocate
      rw [bind_ok (onSock_ok (newChars_ok hsize) none)]
      rfl
    rw [bind_ok halloc]
    by_cases hn : n ≤ s.input.length
    · have hread : readInto n (s, some { size }) =
          .ok (s.input.take n) ({ s with input := s.input.drop n }, some { size, asked := n }) :=
        onSock_ok (if_pos hn) _
      rw [bind_ok hread]
      constructor
      · intro h _
        obtain ⟨h1, h2⟩ := h _ rfl
        have := h2 _ rfl
        rw [hend _ (List.length_take_of_le hn)] at this
        exact ⟨h1, fun _ => this⟩
      · rintro h b ⟨⟩
        obtain ⟨h1, h2⟩ := h hsize
        refine ⟨h1, ?_⟩
        rintro i ⟨⟩
        rw [hend _ (List.length_take_of_le hn)]
        exact h2 hn
    · have hread : readInto n (s, some { size }) =
          .error .eof ({ s with input := [] }, some { size, asked := n }) :=
        onSock_error (if_neg hn) _
      rw [bind_error hread]
      constructor
      · intro h _
        exact ⟨(h _ rfl).asked, fun h => absurd h hn⟩
      · rintro h b ⟨⟩
        refine ⟨(h hsize).1, ?_⟩
        rintro i ⟨⟩
  · have halloc : allocate size (s, none) = .error .badAlloc (s, none) := by
      unfold allocate
      exact bind_error (onSock_error (newChars_error (Nat.lt_of_not_le hsize)) none)
    rw [bind_error halloc]
    constructor
    · intro _ h
      exact absurd h hsize
    · rintro _ b ⟨⟩

end Room

/-- **Strings**: for every prefix the payload has room, or there is no buffer. -/
theorem Writable.readStringInto_fits (s : Sock) : Fits Writable.readStringInto s := by
  unfold Writable.readStringInto
  cases h : readInt s with
  | error e s' => exact fits_onSock_error h
  | ok length s' =>
    rw [fits_onSock_ok h]
    split
    · next hpos =>
      refine (fits_payload _ _ cstr s' fun _ h => h).mpr fun hroom => ?_
      obtain ⟨-, hsize⟩ := room_of_positive hpos (hroom.trans s'.memory.le)
      rw [hsize]
      exact ⟨by omega, fun _ => by omega⟩
    · rintro b ⟨⟩

/-- **Integers**: only the largest prefix gives a buffer without room, one of size zero. -/
theorem IntWritable.readFieldsInto_fits_iff (s : Sock) :
    Fits IntWritable.readFieldsInto s ↔ ∀ rest, s.input ≠ sizeBytes (2 ^ 64 - 1) ++ rest := by
  unfold IntWritable.readFieldsInto
  cases h : readSize s with
  | error e s' =>
    refine ⟨fun _ rest hin => ?_, fun _ => fits_onSock_error h⟩
    rw [Sock.eq_unread hin, readSize_unread (by omega)] at h
    cases h
  | ok length s' =>
    rw [fits_onSock_ok h]
    refine (fits_payload _ _ _ s' fun _ _ => rfl).trans ?_
    obtain ⟨hlt, rfl⟩ := of_readSize_ok h
    constructor
    · intro hfits rest hin
      have hl : length = 2 ^ 64 - 1 := by
        have htake := congrArg (List.take 8) hin
        rw [Sock.input_unread, List.take_left' (length_sizeBytes _),
          List.take_left' (length_sizeBytes _)] at htake
        rw [← ofLE_sizeBytes hlt, htake, ofLE_sizeBytes (by omega)]
      rw [hl] at hfits
      exact absurd (hfits (Nat.zero_le _)).1 (by decide)
    · intro hne hroom
      have hl : length ≠ 2 ^ 64 - 1 := by
        rintro rfl
        exact hne s'.input rfl
      have hsize : (length + 1) % 2 ^ 64 = length + 1 := Nat.mod_eq_of_lt (by omega)
      rw [hsize]
      exact ⟨by omega, fun _ => by omega⟩

/-- **No overrun** of a decode buffer, on exactly the streams whose `size_t` prefix is not the
largest. -/
theorem buffers_hold_iff (s : Sock) :
    (Fits Writable.readStringInto s ∧ Fits IntWritable.readFieldsInto s) ↔
      ∀ rest, s.input ≠ sizeBytes (2 ^ 64 - 1) ++ rest := by
  rw [← IntWritable.readFieldsInto_fits_iff]
  constructor
  · rintro ⟨-, h⟩
    exact h
  · intro h
    exact ⟨Writable.readStringInto_fits s, h⟩

/-- Eight bytes `0xff` and one of payload: that byte has no room. -/
theorem overrun_of_max :
    ¬ ∀ s : Sock, Fits Writable.readStringInto s ∧ Fits IntWritable.readFieldsInto s := by
  intro h
  exact (buffers_hold_iff ⟨sizeBytes (2 ^ 64 - 1) ++ [65], 0, .whole, 0, 0⟩).mp (h _) [65] rfl

end PRpc
