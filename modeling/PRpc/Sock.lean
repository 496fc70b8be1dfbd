import PRpc.Library.LittleEndian

/-!
# Machine integers and the socket under the decoders

The platform is x86-64: a 4-byte `int`, an 8-byte `size_t`, little-endian, a signed `char`. Values
of type `size_t` are natural numbers, reduced modulo `2 ^ 64` where the code computes with them.

`SockM` is the code that reads from a socket: it may throw, and what it consumed before throwing
stays consumed. How much memory one request can get is up to the machine; `new char[n]` and
`reserve` throw beyond it.
-/

namespace PRpc

open LittleEndian

abbrev Bytes := List Byte

/-- The type `int`. -/
abbrev CInt := BitVec 32

/-- A string literal of the source. -/
def ascii (s : String) : Bytes := s.toList.map fun c => BitVec.ofNat 8 c.toNat

/-! ## Integers as bytes -/

/-- The object representation of an `int`. -/
def intBytes (v : CInt) : Bytes := toLE 4 v.toNat

/-- The object representation of a `size_t`. -/
def sizeBytes (n : ℕ) : Bytes := toLE 8 n

def intOfBytes (bs : Bytes) : CInt := BitVec.ofNat 32 (ofLE bs)

@[simp] theorem length_intBytes (v : CInt) : (intBytes v).length = 4 := length_toLE 4 _

@[simp] theorem length_sizeBytes (n : ℕ) : (sizeBytes n).length = 8 := length_toLE 8 _

@[simp] theorem intOfBytes_intBytes (v : CInt) : intOfBytes (intBytes v) = v := by
  unfold intOfBytes intBytes
  rw [ofLE_toLE_of_lt v.isLt]
  exact BitVec.ofNat_toNat 32 v

theorem ofLE_sizeBytes {n : ℕ} (h : n < 2 ^ 64) : ofLE (sizeBytes n) = n := ofLE_toLE_of_lt h

/-- Four bytes are the representation of the `int` they spell. -/
theorem intBytes_intOfBytes {bs : Bytes} (h : bs.length = 4) : intBytes (intOfBytes bs) = bs := by
  have hlt : ofLE bs < 2 ^ 32 := by have := ofLE_lt bs; rw [h] at this; exact this
  unfold intBytes intOfBytes
  rw [BitVec.toNat_ofNat, Nat.mod_eq_of_lt hlt, ← h, toLE_ofLE]

theorem sizeBytes_ofLE {bs : Bytes} (h : bs.length = 8) : sizeBytes (ofLE bs) = bs := by
  unfold sizeBytes
  rw [← h, toLE_ofLE]

/-- A conversion of a `size_t` to `int`. -/
def intOfSize (n : ℕ) : CInt := BitVec.ofNat 32 n

/-- A conversion of an `int` to `size_t`. -/
def sizeOfInt (v : CInt) : ℕ := (v.signExtend 64).toNat

theorem toInt_eq_toNat {v : CInt} (h : v.toNat < 2 ^ 31) : v.toInt = v.toNat := by
  rw [BitVec.toInt_eq_toNat_cond, if_pos (by omega)]

theorem toNat_intOfSize {n : ℕ} (h : n < 2 ^ 32) : (intOfSize n).toNat = n := by
  unfold intOfSize
  rw [BitVec.toNat_ofNat, Nat.mod_eq_of_lt h]

theorem sizeOfInt_eq {v : CInt} (h : v.toNat < 2 ^ 31) : sizeOfInt v = v.toNat := by
  have hm : v.msb = false := by rw [BitVec.msb_eq_false_iff_two_mul_lt]; omega
  unfold sizeOfInt
  rw [BitVec.signExtend_eq_setWidth_of_msb_false hm, BitVec.toNat_setWidth]
  omega

/-! ## Reading -/

/-- What the standard library and asio throw here; all of them are `std::exception`s. -/
inductive Exn
  | eof
  | badAlloc
  | lengthError
  /-- `std::string` built from a null pointer. -/
  | logicError
  deriving DecidableEq, Repr

/-- The largest object size, `PTRDIFF_MAX`. -/
def maxObject : ℕ := 2 ^ 63 - 1

/-- What the machine grants. Requests of up to 64 bytes never fail. -/
structure Memory where
  /-- The most bytes that one request gets. -/
  limit : ℕ
  small : 64 ≤ limit
  le : limit ≤ maxObject
  deriving DecidableEq, Repr

/-- A machine that grants all of its address space. -/
def Memory.whole : Memory := ⟨2 ^ 47 - 1, by decide, by decide⟩

/-- The receiving end of a socket. The last two fields only record what happened. -/
structure Sock where
  /-- The bytes that will still arrive before the end of file. -/
  input : Bytes
  /-- What an `int` that was never assigned happens to hold. -/
  fresh : CInt
  memory : Memory
  /-- The `Writable`s made while reading. -/
  made : ℕ
  /-- The calls of `readFields` that threw or returned a negative number. -/
  failures : ℕ
  deriving DecidableEq, Repr

/-- Code that reads from a socket. -/
abbrev SockM := EStateM Exn Sock

/-- The socket with `bs` still to be read first. -/
def Sock.unread (bs : Bytes) (s : Sock) : Sock := { s with input := bs ++ s.input }

theorem Sock.unread_append (a b : Bytes) (s : Sock) :
    s.unread (a ++ b) = (s.unread b).unread a := by
  unfold Sock.unread
  rw [List.append_assoc]

theorem Sock.eq_unread {s : Sock} {bs rest : Bytes} (h : s.input = bs ++ rest) :
    s = ({ s with input := rest } : Sock).unread bs := by
  show s = { s with input := bs ++ rest }
  rw [← h]

@[simp] theorem Sock.input_unread (bs : Bytes) (s : Sock) :
    (s.unread bs).input = bs ++ s.input := rfl

@[simp] theorem Sock.memory_unread (bs : Bytes) (s : Sock) : (s.unread bs).memory = s.memory := rfl

section Bind

variable {σ α β : Type} {x : EStateM Exn σ α} {f : α → EStateM Exn σ β} {s s' : σ} {a : α} {b : β}
  {e : Exn}

theorem bind_ok (h : x s = .ok a s') : (x >>= f) s = f a s' := by
  show EStateM.bind x f s = _
  simp only [EStateM.bind, h]

theorem bind_error (h : x s = .error e s') : (x >>= f) s = .error e s' := by
  show EStateM.bind x f s = _
  simp only [EStateM.bind, h]

theorem of_bind_ok (h : (x >>= f) s = .ok b s') : ∃ a t, x s = .ok a t ∧ f a t = .ok b s' := by
  cases hx : x s with
  | ok a t => rw [bind_ok hx] at h; exact ⟨a, t, rfl, h⟩
  | error e t => rw [bind_error hx] at h; cases h

end Bind

/-- `boost::asio::read` of `n` bytes: it blocks until they have arrived, and throws at the end of
file after taking what was there. A short count is never returned. -/
def asioRead (n : ℕ) : SockM Bytes := fun s =>
  if n ≤ s.input.length then .ok (s.input.take n) { s with input := s.input.drop n }
  else .error .eof { s with input := [] }

theorem asioRead_unread (bs : Bytes) (s : Sock) : asioRead bs.length (s.unread bs) = .ok bs s := by
  unfold asioRead
  rw [if_pos (by simp)]
  simp [Sock.unread]

theorem asioRead_of_length {n : ℕ} {bs : Bytes} (h : bs.length = n) (s : Sock) :
    asioRead n (s.unread bs) = .ok bs s := by
  rw [← h, asioRead_unread]

/-- A read that succeeds takes exactly its bytes off the front. -/
theorem of_asioRead_ok {n : ℕ} {s s' : Sock} {bs : Bytes} (h : asioRead n s = .ok bs s') :
    bs.length = n ∧ s = s'.unread bs := by
  unfold asioRead at h
  split at h
  · cases h
    refine ⟨List.length_take_of_le ‹_›, ?_⟩
    simp [Sock.unread]
  · cases h

def readInt : SockM CInt := do return intOfBytes (← asioRead 4)

def readSize : SockM ℕ := do return ofLE (← asioRead 8)

theorem readInt_unread (v : CInt) (s : Sock) : readInt (s.unread (intBytes v)) = .ok v s := by
  unfold readInt
  rw [bind_ok (asioRead_of_length (length_intBytes v) s), intOfBytes_intBytes]
  rfl

theorem readSize_unread {n : ℕ} (h : n < 2 ^ 64) (s : Sock) :
    readSize (s.unread (sizeBytes n)) = .ok n s := by
  unfold readSize
  rw [bind_ok (asioRead_of_length (length_sizeBytes n) s), ofLE_sizeBytes h]
  rfl

theorem of_readInt_ok {s s' : Sock} {v : CInt} (h : readInt s = .ok v s') :
    s = s'.unread (intBytes v) := by
  obtain ⟨bs, t, hr, h⟩ := of_bind_ok h
  cases h
  obtain ⟨hl, rfl⟩ := of_asioRead_ok hr
  rw [intBytes_intOfBytes hl]

theorem of_readSize_ok {s s' : Sock} {n : ℕ} (h : readSize s = .ok n s') :
    n < 2 ^ 64 ∧ s = s'.unread (sizeBytes n) := by
  obtain ⟨bs, t, hr, h⟩ := of_bind_ok h
  cases h
  obtain ⟨hl, rfl⟩ := of_asioRead_ok hr
  refine ⟨by have := ofLE_lt bs; rw [hl] at this; exact this, ?_⟩
  rw [sizeBytes_ofLE hl]

/-- `new char[n]`. -/
def newChars (n : ℕ) : SockM Unit := fun s =>
  if n ≤ s.memory.limit then .ok () s else .error .badAlloc s

/-- `std::vector<shared_ptr<Writable>>::max_size()`: 16 bytes a pointer. -/
def maxParams : ℕ := maxObject / 16

/-- `std::vector::reserve`. -/
def reserve (n : ℕ) : SockM Unit := fun s =>
  if maxParams < n then .error .lengthError s
  else if 16 * n ≤ s.memory.limit then .ok () s
  else .error .badAlloc s

namespace Memory

/-- The pointers that one request has room for. -/
def maxParams (M : Memory) : ℕ := M.limit / 16

/-- Shorter strings have a length that fits an `int` and a buffer that the machine grants. -/
def maxString (M : Memory) : ℕ := min M.limit (2 ^ 31 - 1)

theorem maxParams_le (M : Memory) : M.maxParams ≤ PRpc.maxParams := Nat.div_le_div_right M.le

theorem four_le_maxParams (M : Memory) : 4 ≤ M.maxParams :=
  (Nat.le_div_iff_mul_le (by decide)).mpr M.small

theorem small_string (M : Memory) {n : ℕ} (h : n < 64) : n < M.maxString := by
  have := M.small
  unfold maxString
  omega

theorem pos (M : Memory) : 0 < M.limit := lt_of_lt_of_le (by decide) M.small

theorem length_intBytes_lt (M : Memory) (v : CInt) : (intBytes v).length < M.limit := by
  rw [length_intBytes]
  exact lt_of_lt_of_le (by decide) M.small

theorem lt (M : Memory) : M.limit < 2 ^ 63 := lt_of_le_of_lt M.le (by decide)

theorem lt_maxString {M : Memory} {n : ℕ} :
    n < M.maxString ↔ n + 1 ≤ M.limit ∧ n < 2 ^ 31 - 1 := lt_min_iff

end Memory

theorem newChars_ok {n : ℕ} {s : Sock} (h : n ≤ s.memory.limit) : newChars n s = .ok () s := by
  unfold newChars; rw [if_pos h]

theorem newChars_error {n : ℕ} {s : Sock} (h : s.memory.limit < n) :
    newChars n s = .error .badAlloc s := by
  unfold newChars; rw [if_neg (by omega)]

theorem reserve_ok {n : ℕ} {s : Sock} (h : n ≤ s.memory.maxParams) : reserve n s = .ok () s := by
  have hmax := h.trans s.memory.maxParams_le
  have hroom : 16 * n ≤ s.memory.limit := by unfold Memory.maxParams at h; omega
  unfold reserve
  rw [if_neg (by omega), if_pos hroom]

/-- A count that is refused is beyond `max_size`, or beyond what the machine grants. -/
theorem reserve_error {n : ℕ} {s : Sock} (h : s.memory.maxParams < n) :
    reserve n s = .error (if maxParams < n then .lengthError else .badAlloc) s := by
  have hroom : ¬ 16 * n ≤ s.memory.limit := by unfold Memory.maxParams at h; omega
  unfold reserve
  rw [if_neg hroom]
  split <;> rfl

theorem of_newChars_ok {n : ℕ} {s s' : Sock} {u : Unit} (h : newChars n s = .ok u s') :
    n ≤ s.memory.limit ∧ s' = s := by
  unfold newChars at h
  split at h
  · cases h; exact ⟨‹_›, rfl⟩
  · cases h

theorem of_newChars_error {n : ℕ} {s s' : Sock} {e : Exn} (h : newChars n s = .error e s') :
    s' = s := by
  unfold newChars at h
  split at h
  · cases h
  · cases h; rfl

theorem of_reserve_error {n : ℕ} {s s' : Sock} {e : Exn} (h : reserve n s = .error e s') :
    s' = s := by
  unfold reserve at h
  split at h
  · cases h; rfl
  · split at h
    · cases h
    · cases h; rfl

theorem of_reserve_ok {n : ℕ} {s s' : Sock} {u : Unit} (h : reserve n s = .ok u s') :
    n ≤ s.memory.maxParams ∧ s' = s := by
  by_cases hn : n ≤ s.memory.maxParams
  · rw [reserve_ok hn] at h
    cases h
    exact ⟨hn, rfl⟩
  · rw [reserve_error (Nat.lt_of_not_le hn)] at h
    cases h

end PRpc
