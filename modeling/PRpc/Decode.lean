import PRpc.Writable
import Mathlib.Data.List.TakeWhile

/-!
# The decoders

`readParams` is the loop that `Call::read` and `MethodWritable::readFields` share: a class name,
an instance of that class, its `readFields`. The loop counts come from the peer and the objects
nest, so the model recurses on a fuel. Every round consumes at least five bytes, hence any fuel
above the number of bytes left gives the same result (`readParams_fuel`), and `paramLoop`, which
takes that much, satisfies the equations of the code (`paramLoop_succ`).
-/

namespace PRpc

open LittleEndian

/-! ## Strings and integers -/

/-- The string a `char*` denotes: the bytes before the first NUL. -/
def cstr (chars : Bytes) : Bytes := chars.takeWhile (· ≠ 0)

/-- A length that is not positive reaches `return NULL`, that is `std::string(nullptr)`. -/
def Writable.readString : SockM Bytes := do
  let length ← readInt
  if 0 < length.toInt then
    -- `length + 1` is an addition of `int`s
    newChars (sizeOfInt (length + 1))
    let chars ← asioRead length.toNat
    return cstr chars
  else throw .logicError

/-- The returned number and the new value. The value is read through a `const char*`: it is the
first byte, sign-extended. The terminating NUL is that byte when the length is zero. -/
def IntWritable.readFields : SockM (CInt × CInt) := do
  let length ← readSize
  newChars ((length + 1) % 2 ^ 64)
  let buf ← asioRead length
  return (intOfSize length, (buf.headD 0).signExtend 32)

/-! ## Objects -/

/-- A new object; `fresh` is what its uninitialised `int` holds, if it has one. -/
def Method.getNewInstance (fresh : CInt) (class_ : Bytes) : Writable :=
  if class_ = ascii "IntWritable" then .int fresh
  else if class_ = ascii "MethodWritable" then .method [] [] []
  else .base

/-- Where a parameter loop ends: the vector as far as it is filled, and the exception if it did
not get through. -/
structure Filled where
  params : List Writable
  thrown : Option Exn
  sock : Sock

/-- The size of a parameter vector, and the room for it. -/
def readCount : SockM ℕ := do
  let size ← readSize
  reserve size
  return size

/-- A `MethodWritable` just made by `getNewInstance`, read with the parameter loop `loop`. It
catches everything: the object keeps what was assigned before the exception. -/
def MethodWritable.readFields (loop : ℕ → Sock → Filled) (s : Sock) : CInt × Writable × Sock :=
  match Writable.readString s with
  | .error _ s => (-1, .method [] [] [], s)
  | .ok className s =>
    match Writable.readString s with
    | .error _ s => (-1, .method className [] [], s)
    | .ok methodName s =>
      match readCount s with
      | .error _ s => (-1, .method className methodName [], s)
      | .ok size s =>
        let filled := loop size s
        (if filled.thrown.isSome then -1 else 0, .method className methodName filled.params,
          filled.sock)

/-- Record that a call of `readFields` failed. -/
def Sock.fail (s : Sock) : Sock := { s with failures := s.failures + 1 }

/-- Record that an object was made. -/
def Sock.make (s : Sock) : Sock := { s with made := s.made + 1 }

/-- The virtual call: what it returns or throws, the object after it and the socket. -/
def Writable.readFields (loop : ℕ → Sock → Filled) :
    Writable → Sock → Except Exn CInt × Writable × Sock
  | .base, s => (.ok 0, .base, s)
  | .int value, s =>
    match IntWritable.readFields s with
    | .ok (l, value) s => (.ok l, .int value, if l.toInt < 0 then s.fail else s)
    | .error e s => (.error e, .int value, s.fail)
  | .method _ _ _, s =>
    let (ret, w, s) := MethodWritable.readFields loop s
    (.ok ret, w, if ret.toInt < 0 then s.fail else s)

/-- The loop over `size` parameters. What `readFields` returns is not looked at; what it throws
ends the loop with the object already in the vector. -/
def readParams : ℕ → ℕ → Sock → Filled
  | _, 0, s => ⟨[], none, s⟩
  | 0, _ + 1, s => ⟨[], some .eof, s⟩
  | fuel + 1, size + 1, s =>
    match Writable.readString s with
    | .error e s => ⟨[], some e, s⟩
    | .ok class_ s =>
      match Writable.readFields (readParams fuel) (Method.getNewInstance s.fresh class_) s.make with
      | (.error e, w, s) => ⟨[w], some e, s⟩
      | (.ok _, w, s) =>
        let rest := readParams fuel size s
        ⟨w :: rest.params, rest.thrown, rest.sock⟩

/-- The loop with as much fuel as there are bytes. -/
def paramLoop (size : ℕ) (s : Sock) : Filled := readParams (s.input.length + 1) size s

/-! ## What a decoder does to the socket -/

/-- `s'` is a socket after decoding from `s`: bytes were taken off the front only, and every object
that was made has cost five of them. -/
structure Sock.After (s' s : Sock) : Prop where
  suffix : s'.input <:+ s.input
  fresh : s'.fresh = s.fresh
  memory : s'.memory = s.memory
  made : 5 * s'.made + s'.input.length ≤ 5 * s.made + s.input.length
  failures : s.failures ≤ s'.failures

namespace Sock.After

variable {s s' s'' : Sock}

theorem refl (s : Sock) : s.After s := ⟨List.suffix_rfl, rfl, rfl, le_rfl, le_rfl⟩

theorem trans (h' : s''.After s') (h : s'.After s) : s''.After s :=
  ⟨h'.suffix.trans h.suffix, h'.fresh.trans h.fresh, h'.memory.trans h.memory,
    h'.made.trans h.made, h.failures.trans h'.failures⟩

theorem length_le (h : s'.After s) : s'.input.length ≤ s.input.length := h.suffix.length_le

theorem of_unread (bs : Bytes) (s : Sock) : s.After (s.unread bs) where
  suffix := List.suffix_append bs s.input
  fresh := rfl
  memory := rfl
  made := by
    show 5 * s.made + s.input.length ≤ 5 * s.made + (bs ++ s.input).length
    rw [List.length_append]
    omega
  failures := le_rfl

theorem fail (h : s'.After s) : s'.fail.After s :=
  ⟨h.suffix, h.fresh, h.memory, h.made, h.failures.trans (Nat.le_succ _)⟩

theorem fail_if (h : s'.After s) (p : Prop) [Decidable p] :
    (if p then s'.fail else s').After s := by
  split
  · exact h.fail
  · exact h

end Sock.After

/-- Code that only ever takes bytes off the front, however it ends. -/
structure Reads {α : Type} (x : SockM α) : Prop where
  ok : ∀ {s s' : Sock} {a : α}, x s = .ok a s' → s'.After s
  error : ∀ {s s' : Sock} {e : Exn}, x s = .error e s' → s'.After s

namespace Reads

variable {α β : Type} {x : SockM α} {f : α → SockM β}

theorem pure (a : α) : Reads (Pure.pure a : SockM α) where
  ok h := by cases h; exact .refl _
  error h := by cases h

theorem throw (e : Exn) : Reads (MonadExcept.throw e : SockM α) where
  ok h := by cases h
  error h := by cases h; exact .refl _

theorem bind (hx : Reads x) (hf : ∀ a, Reads (f a)) : Reads (x >>= f) where
  ok h := by
    obtain ⟨a, t, h1, h2⟩ := of_bind_ok h
    exact ((hf a).ok h2).trans (hx.ok h1)
  error {s s' e} h := by
    cases h1 : x s with
    | ok a t => rw [bind_ok h1] at h; exact ((hf a).error h).trans (hx.ok h1)
    | error e' t => rw [bind_error h1] at h; cases h; exact hx.error h1

theorem asioRead (n : ℕ) : Reads (asioRead n) where
  ok h := by
    obtain ⟨-, rfl⟩ := of_asioRead_ok h
    exact .of_unread _ _
  error {s s' e} h := by
    unfold PRpc.asioRead at h
    split at h
    · cases h
    · cases h
      refine ⟨List.nil_suffix, rfl, rfl, ?_, le_rfl⟩
      simp

theorem of_still (ok : ∀ {s s' : Sock} {a : α}, x s = .ok a s' → s' = s)
    (error : ∀ {s s' : Sock} {e : Exn}, x s = .error e s' → s' = s) : Reads x where
  ok h := by cases ok h; exact .refl _
  error h := by cases error h; exact .refl _

theorem newChars (n : ℕ) : Reads (newChars n) :=
  of_still (fun h => (of_newChars_ok h).2) of_newChars_error

theorem reserve (n : ℕ) : Reads (reserve n) :=
  of_still (fun h => (of_reserve_ok h).2) of_reserve_error

theorem readInt : Reads readInt := (asioRead 4).bind fun _ => .pure _

theorem readSize : Reads readSize := (asioRead 8).bind fun _ => .pure _

theorem readCount : Reads readCount := readSize.bind fun _ => (reserve _).bind fun _ => .pure _

theorem readString : Reads Writable.readString := by
  refine readInt.bind fun length => ?_
  split
  · exact (newChars _).bind fun _ => (asioRead _).bind fun _ => .pure _
  · exact .throw _

theorem intReadFields : Reads IntWritable.readFields :=
  readSize.bind fun _ => (newChars _).bind fun _ => (asioRead _).bind fun _ => .pure _

end Reads

/-! ## Strings and integers: what is accepted -/

theorem cstr_eq_self {str : Bytes} (h : 0 ∉ str) : cstr str = str := by
  have hall : ∀ b ∈ str, decide (b ≠ 0) = true := by
    intro b hb
    simpa using fun h0 : b = 0 => h (h0 ▸ hb)
  unfold cstr
  rw [List.takeWhile_eq_self_iff.mpr hall]

theorem toInt_intOfSize {n : ℕ} (h : n < 2 ^ 31) : (intOfSize n).toInt = n := by
  have hn : (intOfSize n).toNat = n := toNat_intOfSize (by omega)
  rw [toInt_eq_toNat (by omega), hn]

theorem sizeOfInt_succ {n : ℕ} (h : n < 2 ^ 31 - 1) : sizeOfInt (intOfSize n + 1) = n + 1 := by
  have hadd : intOfSize n + 1 = intOfSize (n + 1) := by
    apply BitVec.eq_of_toNat_eq
    rw [toNat_intOfSize (by omega), BitVec.toNat_add, toNat_intOfSize (by omega)]
    show (n + 1) % 2 ^ 32 = n + 1
    omega
  rw [hadd, sizeOfInt_eq (by rw [toNat_intOfSize (by omega)]; omega), toNat_intOfSize (by omega)]

/-- A positive length whose buffer can be allocated did not overflow. -/
theorem room_of_positive {length : CInt} (hpos : 0 < length.toInt)
    (hroom : sizeOfInt (length + 1) ≤ maxObject) :
    length.toNat < 2 ^ 31 - 1 ∧ sizeOfInt (length + 1) = length.toNat + 1 := by
  have hlt := length.isLt
  have hsmall : length.toNat < 2 ^ 31 := by
    rw [BitVec.toInt_eq_toNat_cond] at hpos
    split at hpos <;> omega
  have hmax : length.toNat ≠ 2 ^ 31 - 1 := by
    intro hm
    have hl : length = 2147483647 := BitVec.eq_of_toNat_eq hm
    rw [hl] at hroom
    exact absurd hroom (by decide)
  have hlen : intOfSize length.toNat = length :=
    BitVec.eq_of_toNat_eq (toNat_intOfSize hlt)
  refine ⟨by omega, ?_⟩
  rw [← hlen, toNat_intOfSize hlt]
  exact sizeOfInt_succ (by omega)

theorem readString_unread {raw : Bytes} {s : Sock} (h0 : raw ≠ [])
    (h : raw.length < s.memory.maxString) :
    Writable.readString (s.unread (intBytes (intOfSize raw.length) ++ raw)) = .ok (cstr raw) s := by
  obtain ⟨hroom, hint⟩ := Memory.lt_maxString.mp h
  have hpos : 0 < raw.length := List.length_pos_iff.mpr h0
  have hlen : (intOfSize raw.length).toNat = raw.length := toNat_intOfSize (by omega)
  unfold Writable.readString
  rw [Sock.unread_append, bind_ok (readInt_unread _ _),
    if_pos (by rw [toInt_intOfSize (by omega)]; omega),
    bind_ok (newChars_ok (by rw [sizeOfInt_succ hint]; exact hroom)),
    bind_ok (asioRead_of_length hlen.symm s)]
  rfl

/-- An accepted string: a positive length, that many bytes, cut at the first NUL. -/
theorem of_readString_ok {s s' : Sock} {str : Bytes} (h : Writable.readString s = .ok str s') :
    ∃ raw : Bytes, raw ≠ [] ∧ raw.length < s.memory.maxString ∧ str = cstr raw ∧
      s = s'.unread (intBytes (intOfSize raw.length) ++ raw) := by
  obtain ⟨length, t, hl, h1⟩ := of_bind_ok h
  have hs := of_readInt_ok hl
  split at h1
  · next hpos =>
    obtain ⟨u, t', hn, h2⟩ := of_bind_ok h1
    obtain ⟨hroom, rfl⟩ := of_newChars_ok hn
    obtain ⟨raw, t'', hr, h3⟩ := of_bind_ok h2
    cases h3
    obtain ⟨hraw, rfl⟩ := of_asioRead_ok hr
    obtain ⟨hmax, hsize⟩ := room_of_positive hpos (hroom.trans (Memory.le _))
    rw [hsize] at hroom
    have hlen : intOfSize raw.length = length := by
      apply BitVec.eq_of_toNat_eq
      rw [hraw, toNat_intOfSize length.isLt]
    have hfits : raw.length < s.memory.maxString := by
      rw [hs, hraw]
      exact Memory.lt_maxString.mpr ⟨hroom, hmax⟩
    refine ⟨raw, ?_, hfits, rfl, ?_⟩
    · rintro rfl
      rw [toInt_eq_toNat (by omega), ← hraw] at hpos
      exact absurd hpos (by decide)
    · rw [hs, hlen, Sock.unread_append]
  · cases h1

/-- A string with a length in front takes five bytes at least. -/
theorem readString_consumes {s s' : Sock} {str : Bytes} (h : Writable.readString s = .ok str s') :
    s'.input.length + 5 ≤ s.input.length ∧ s'.made = s.made := by
  obtain ⟨raw, h0, -, -, rfl⟩ := of_readString_ok h
  have hpos : 0 < raw.length := List.length_pos_iff.mpr h0
  refine ⟨?_, rfl⟩
  rw [Sock.input_unread, List.length_append, List.length_append, length_intBytes]
  omega

/-- What an `IntWritable` makes of its payload. -/
def intOfPayload (bs : Bytes) : CInt := (bs.headD 0).signExtend 32

theorem readFields_int_unread {bs : Bytes} {s : Sock} (h : bs.length < s.memory.limit) :
    IntWritable.readFields (s.unread (sizeBytes bs.length ++ bs)) =
      .ok (intOfSize bs.length, intOfPayload bs) s := by
  have hlt : bs.length + 1 < 2 ^ 64 := by have := s.memory.lt; omega
  unfold IntWritable.readFields
  rw [Sock.unread_append, bind_ok (readSize_unread (by omega) _),
    bind_ok (newChars_ok (by rw [Nat.mod_eq_of_lt hlt]; exact h)), bind_ok (asioRead_unread bs s)]
  rfl

theorem of_readFields_int_ok {s s' : Sock} {l v : CInt}
    (h : IntWritable.readFields s = .ok (l, v) s') :
    ∃ bs : Bytes, bs.length < 2 ^ 64 ∧ l = intOfSize bs.length ∧ v = intOfPayload bs ∧
      s = s'.unread (sizeBytes bs.length ++ bs) := by
  obtain ⟨length, t, hl, h1⟩ := of_bind_ok h
  obtain ⟨hlt, rfl⟩ := of_readSize_ok hl
  obtain ⟨u, t', hn, h2⟩ := of_bind_ok h1
  obtain ⟨-, rfl⟩ := of_newChars_ok hn
  obtain ⟨bs, t'', hr, h3⟩ := of_bind_ok h2
  cases h3
  obtain ⟨rfl, rfl⟩ := of_asioRead_ok hr
  exact ⟨bs, hlt, rfl, rfl, (Sock.unread_append _ _ _).symm⟩

theorem readCount_unread {n : ℕ} {s : Sock} (h : n ≤ s.memory.maxParams) :
    readCount (s.unread (sizeBytes n)) = .ok n s := by
  have hlt : n < 2 ^ 64 := lt_of_le_of_lt (h.trans s.memory.maxParams_le) (by decide)
  unfold readCount
  rw [bind_ok (readSize_unread hlt s), bind_ok (reserve_ok h)]
  rfl

theorem of_readCount_ok {s s' : Sock} {n : ℕ} (h : readCount s = .ok n s') :
    n ≤ s.memory.maxParams ∧ s = s'.unread (sizeBytes n) := by
  obtain ⟨size, t, hl, h1⟩ := of_bind_ok h
  obtain ⟨-, hs⟩ := of_readSize_ok hl
  obtain ⟨u, t', hn, h2⟩ := of_bind_ok h1
  obtain ⟨hle, rfl⟩ := of_reserve_ok hn
  cases h2
  rw [hs]
  exact ⟨hle, rfl⟩

/-! ## The parameter loop -/

section Loop

variable {f g : ℕ → Sock → Filled} {w : Writable} {s : Sock}

theorem MethodWritable.readFields_after (hf : ∀ n t, (f n t).sock.After t) (s : Sock) :
    (MethodWritable.readFields f s).2.2.After s := by
  unfold MethodWritable.readFields
  split
  · next h1 => exact Reads.readString.error h1
  · next c s1 h1 =>
    have a1 := Reads.readString.ok h1
    split
    · next h2 => exact (Reads.readString.error h2).trans a1
    · next m s2 h2 =>
      have a2 := (Reads.readString.ok h2).trans a1
      split
      · next h3 => exact (Reads.readCount.error h3).trans a2
      · next size s3 h3 => exact (hf size s3).trans ((Reads.readCount.ok h3).trans a2)

theorem Writable.readFields_int (value : CInt) (s : Sock) :
    Writable.readFields f (.int value) s =
      match IntWritable.readFields s with
      | .ok (l, value) s => (.ok l, .int value, if l.toInt < 0 then s.fail else s)
      | .error e s => (.error e, .int value, s.fail) := rfl

theorem Writable.readFields_method (c m : Bytes) (ps : List Writable) (s : Sock) :
    Writable.readFields f (.method c m ps) s =
      let (ret, w, s) := MethodWritable.readFields f s
      (.ok ret, w, if ret.toInt < 0 then s.fail else s) := rfl

theorem Writable.readFields_after (hf : ∀ n t, (f n t).sock.After t) (w : Writable) (s : Sock) :
    (Writable.readFields f w s).2.2.After s := by
  cases w with
  | base => exact .refl s
  | int v =>
    rw [Writable.readFields_int]
    split
    · next l v s1 h => exact (Reads.intReadFields.ok h).fail_if _
    · next e s1 h => exact (Reads.intReadFields.error h).fail
  | method c m ps => exact (MethodWritable.readFields_after hf s).fail_if _

/-- A round of the loop: the string in front pays for the object. -/
theorem Sock.After.make {s1 : Sock} {class_ : Bytes} (h : Writable.readString s = .ok class_ s1) :
    s1.make.After s := by
  have a := Reads.readString.ok h
  obtain ⟨hlen, hmade⟩ := readString_consumes h
  refine ⟨a.suffix, a.fresh, a.memory, ?_, a.failures⟩
  show 5 * (s1.made + 1) + s1.input.length ≤ _
  omega

theorem readParams_after (fuel n : ℕ) (s : Sock) : (readParams fuel n s).sock.After s := by
  induction fuel generalizing n s with
  | zero => cases n <;> exact .refl s
  | succ fuel ih =>
    cases n with
    | zero => exact .refl s
    | succ n =>
      unfold readParams
      split
      · next h => exact Reads.readString.error h
      · next class_ s1 h =>
        have a := Writable.readFields_after ih (Method.getNewInstance s1.fresh class_) s1.make
        split
        · next hr => rw [hr] at a; exact a.trans (.make h)
        · next w s2 hr => rw [hr] at a; exact (ih n s2).trans (a.trans (.make h))

/-- `readFields` calls the loop on no more bytes than it was given. -/
theorem Writable.readFields_congr (h : ∀ n t, t.input.length ≤ s.input.length → f n t = g n t)
    (w : Writable) : Writable.readFields f w s = Writable.readFields g w s := by
  have hm : MethodWritable.readFields f s = MethodWritable.readFields g s := by
    unfold MethodWritable.readFields
    cases h1 : Writable.readString s with
    | error e s1 => rfl
    | ok c s1 =>
      have a1 := Reads.readString.ok h1
      cases h2 : Writable.readString s1 with
      | error e s2 => simp only [h2]
      | ok m s2 =>
        have a2 := (Reads.readString.ok h2).trans a1
        cases h3 : readCount s2 with
        | error e s3 => simp only [h2, h3]
        | ok size s3 =>
          have a3 := (Reads.readCount.ok h3).trans a2
          simp only [h2, h3, h size s3 a3.length_le]
  cases w with
  | base => rfl
  | int v => rfl
  | method c m ps => rw [Writable.readFields_method, Writable.readFields_method, hm]

/-- Any fuel above the number of bytes left gives the same result. -/
theorem readParams_fuel {k j : ℕ} (n : ℕ) (s : Sock) (hk : s.input.length < k)
    (hk' : s.input.length < j) : readParams k n s = readParams j n s := by
  induction k generalizing j n s with
  | zero => omega
  | succ k ih =>
    cases j with
    | zero => omega
    | succ j =>
      cases n with
      | zero => rfl
      | succ n =>
        unfold readParams
        cases h1 : Writable.readString s with
        | error e s1 => rfl
        | ok class_ s1 =>
          have hlen := (readString_consumes h1).1
          have hle : s1.make.input.length = s1.input.length := rfl
          have hw := Writable.readFields_congr (f := readParams k) (g := readParams j)
            (s := s1.make) (fun n t ht => ih n t (by omega) (by omega))
            (Method.getNewInstance s1.fresh class_)
          have a := Writable.readFields_after (readParams_after j)
            (Method.getNewInstance s1.fresh class_) s1.make
          simp only [hw]
          split
          · rfl
          · next w s2 hr =>
            rw [hr] at a
            have hle2 : s2.input.length ≤ s1.make.input.length := a.length_le
            rw [ih (j := j) n s2 (by omega) (by omega)]

/-! ### The equations of the loop, without fuel -/

theorem paramLoop_succ (n : ℕ) (s : Sock) :
    paramLoop (n + 1) s =
      match Writable.readString s with
      | .error e s => ⟨[], some e, s⟩
      | .ok class_ s =>
        match Writable.readFields paramLoop (Method.getNewInstance s.fresh class_) s.make with
        | (.error e, w, s) => ⟨[w], some e, s⟩
        | (.ok _, w, s) =>
          let rest := paramLoop n s
          ⟨w :: rest.params, rest.thrown, rest.sock⟩ := by
  unfold paramLoop
  rw [readParams]
  cases h1 : Writable.readString s with
  | error e s1 => rfl
  | ok class_ s1 =>
    have hlen := (readString_consumes h1).1
    have hle : s1.make.input.length = s1.input.length := rfl
    have hw := Writable.readFields_congr (f := readParams s.input.length)
      (g := fun n t => readParams (t.input.length + 1) n t) (s := s1.make)
      (fun n t ht => readParams_fuel n t (by omega) (by omega))
      (Method.getNewInstance s1.fresh class_)
    have a := Writable.readFields_after (f := fun n t => readParams (t.input.length + 1) n t)
      (fun n t => readParams_after _ n t) (Method.getNewInstance s1.fresh class_) s1.make
    simp only [hw]
    split
    · rfl
    · next w s2 hr =>
      rw [hr] at a
      have hle2 : s2.input.length ≤ s1.make.input.length := a.length_le
      simp only [readParams_fuel n s2 (k := s.input.length) (j := s2.input.length + 1)
        (by omega) (by omega)]

end Loop

end PRpc
