import PRpc.Frame

/-!
# Fields with their length in front

The three primitive decoders have one shape: they read a length, throw if they do not like it, and
read as many bytes as it says. `Field.read` is this shape, `Field.Refused` says on which bytes it
throws and what it leaves of them: everything after the length if it was refused, and nothing if
the stream ends early.
-/

namespace PRpc

open LittleEndian

/-- A field: how wide its length is, which lengths are refused, and how many bytes follow. -/
structure Field where
  width : ℕ
  refuses : Bytes → Prop
  length : Bytes → ℕ

namespace Field

variable {α : Type} {f : Field} {thrown : Bytes → Exn} {value : Bytes → Bytes → α}

/-- The decoder throws on the first bytes and leaves the second. -/
inductive Refused (f : Field) : Bytes → Bytes → Prop
  | length {hd rest} (hlen : hd.length = f.width) (hbad : f.refuses hd) :
      f.Refused (hd ++ rest) rest
  | noLength {bs} (hlen : bs.length < f.width) : f.Refused bs []
  | short {hd bs} (hlen : hd.length = f.width) (hok : ¬ f.refuses hd)
      (hshort : bs.length < f.length hd) : f.Refused (hd ++ bs) []

/-- The shape of the primitive decoders. -/
def read (f : Field) [DecidablePred f.refuses] (thrown : Bytes → Exn) (value : Bytes → Bytes → α) :
    SockM α := do
  let hd ← asioRead f.width
  if f.refuses hd then throw (thrown hd)
  else
    let bs ← asioRead (f.length hd)
    return value hd bs

variable [DecidablePred f.refuses]

theorem asioRead_short {n : ℕ} {s : Sock} (h : s.input.length < n) :
    asioRead n s = .error .eof { s with input := [] } := by
  unfold asioRead
  rw [if_neg (by omega)]

theorem of_asioRead_error {n : ℕ} {s t : Sock} {e : Exn} (h : asioRead n s = .error e t) :
    s.input.length < n ∧ t = { s with input := [] } := by
  unfold asioRead at h
  split at h
  · cases h
  · next hlt =>
    cases h
    exact ⟨by omega, rfl⟩

theorem read_ok {hd bs : Bytes} (hlen : hd.length = f.width) (hok : ¬ f.refuses hd)
    (hbs : bs.length = f.length hd) (s : Sock) :
    f.read thrown value (s.unread (hd ++ bs)) = .ok (value hd bs) s := by
  unfold read
  rw [Sock.unread_append, bind_ok (asioRead_of_length hlen _), if_neg hok,
    bind_ok (asioRead_of_length hbs s)]
  rfl

theorem of_read_ok {s t : Sock} {a : α} (h : f.read thrown value s = .ok a t) :
    ∃ hd bs : Bytes, hd.length = f.width ∧ ¬ f.refuses hd ∧ bs.length = f.length hd ∧
      a = value hd bs ∧ s = t.unread (hd ++ bs) := by
  obtain ⟨hd, t', hr, h1⟩ := of_bind_ok h
  obtain ⟨hlen, rfl⟩ := of_asioRead_ok hr
  split at h1
  · cases h1
  · next hok =>
    obtain ⟨bs, t'', hr', h2⟩ := of_bind_ok h1
    cases h2
    obtain ⟨hbs, rfl⟩ := of_asioRead_ok hr'
    exact ⟨hd, bs, hlen, hok, hbs, rfl, (Sock.unread_append _ _ _).symm⟩

theorem asioRead_append {n : ℕ} {s : Sock} {hd rest : Bytes} (hs : s.input = hd ++ rest)
    (hlen : hd.length = n) : asioRead n s = .ok hd { s with input := rest } := by
  conv_lhs => rw [Sock.eq_unread hs]
  exact asioRead_of_length hlen _

theorem read_refused {input rest : Bytes} (h : f.Refused input rest) {s : Sock}
    (hs : s.input = input) : ∃ e, f.read thrown value s = .error e { s with input := rest } := by
  unfold read
  cases h with
  | @length hd _ hlen hbad =>
    refine ⟨thrown hd, (bind_ok (asioRead_append hs hlen)).trans ?_⟩
    rw [if_pos hbad]
    rfl
  | noLength hlen => exact ⟨.eof, bind_error (asioRead_short (hs ▸ hlen))⟩
  | short hlen hok hshort =>
    refine ⟨.eof, (bind_ok (asioRead_append hs hlen)).trans ?_⟩
    rw [if_neg hok]
    exact bind_error (asioRead_short hshort)

theorem of_read_error {s t : Sock} {e : Exn} (h : f.read thrown value s = .error e t) :
    f.Refused s.input t.input ∧ t = { s with input := t.input } := by
  unfold read at h
  cases hr : asioRead f.width s with
  | error e' t' =>
    rw [bind_error hr] at h
    cases h
    obtain ⟨hlen, rfl⟩ := of_asioRead_error hr
    exact ⟨.noLength hlen, rfl⟩
  | ok hd t' =>
    rw [bind_ok hr] at h
    obtain ⟨hlen, rfl⟩ := of_asioRead_ok hr
    split at h
    · next hbad =>
      cases h
      exact ⟨.length hlen hbad, rfl⟩
    · next hok =>
      cases hr' : asioRead (f.length hd) t' with
      | ok bs t'' =>
        rw [bind_ok hr'] at h
        cases h
      | error e' t'' =>
        rw [bind_error hr'] at h
        cases h
        obtain ⟨hshort, rfl⟩ := of_asioRead_error hr'
        exact ⟨.short hlen hok hshort, rfl⟩

end Field

/-! ## The primitive decoders -/

variable (M : Memory)

/-- A string: a positive length whose successor is an `int` and has a buffer. -/
def stringField : Field where
  width := 4
  refuses hd := (intOfBytes hd).toInt ≤ 0 ∨ M.maxString ≤ (intOfBytes hd).toNat
  length hd := (intOfBytes hd).toNat

/-- The payload of an `IntWritable`: any length for which there is a buffer. -/
def payloadField : Field where
  width := 8
  refuses hd := M.limit < (ofLE hd + 1) % 2 ^ 64
  length hd := ofLE hd

/-- The number of parameters. -/
def countField : Field where
  width := 8
  refuses hd := M.maxParams < ofLE hd
  length _ := 0

instance : DecidablePred (stringField M).refuses := fun hd =>
  inferInstanceAs (Decidable ((intOfBytes hd).toInt ≤ 0 ∨ M.maxString ≤ (intOfBytes hd).toNat))

instance : DecidablePred (payloadField M).refuses := fun hd =>
  inferInstanceAs (Decidable (M.limit < (ofLE hd + 1) % 2 ^ 64))

instance : DecidablePred (countField M).refuses := fun hd =>
  inferInstanceAs (Decidable (M.maxParams < ofLE hd))

/-- A string of positive length is refused when `new char[length + 1]` is. -/
theorem newChars_string {length : CInt} {s : Sock} (hpos : 0 < length.toInt) :
    newChars (sizeOfInt (length + 1)) s =
      if length.toNat < s.memory.maxString then .ok () s else .error .badAlloc s := by
  have hiff : sizeOfInt (length + 1) ≤ s.memory.limit ↔ length.toNat < s.memory.maxString := by
    rw [Memory.lt_maxString]
    constructor
    · intro hroom
      obtain ⟨hlt, hsize⟩ := room_of_positive hpos (hroom.trans s.memory.le)
      exact ⟨hsize ▸ hroom, hlt⟩
    · rintro ⟨hroom, hlt⟩
      have hself : intOfSize length.toNat = length :=
        BitVec.eq_of_toNat_eq (toNat_intOfSize length.isLt)
      rwa [← hself, sizeOfInt_succ hlt]
  unfold newChars
  simp only [hiff]

theorem readString_eq (s : Sock) : Writable.readString s = (stringField s.memory).read
    (fun hd => if 0 < (intOfBytes hd).toInt then .badAlloc else .logicError)
    (fun _ bs => cstr bs) s := by
  unfold Writable.readString Field.read
  have hwidth : asioRead (stringField s.memory).width s = asioRead 4 s := rfl
  cases hr : asioRead 4 s with
  | error e t =>
    have hlength : readInt s = .error e t := bind_error hr
    rw [bind_error hlength, bind_error (hwidth.trans hr)]
  | ok hd t =>
    have hlength : readInt s = .ok (intOfBytes hd) t := bind_ok hr
    rw [bind_ok hlength, bind_ok (hwidth.trans hr)]
    have hmem : t.memory = s.memory := ((Reads.asioRead 4).ok hr).memory
    by_cases hpos : 0 < (intOfBytes hd).toInt
    · have hnew := newChars_string (s := t) hpos
      rw [if_pos hpos]
      by_cases hroom : (intOfBytes hd).toNat < s.memory.maxString
      · rw [if_pos (hmem ▸ hroom)] at hnew
        rw [bind_ok hnew, if_neg (show ¬ (stringField s.memory).refuses hd from
          fun h => h.elim (by omega) (by omega))]
        rfl
      · rw [if_neg (hmem ▸ hroom)] at hnew
        rw [bind_error hnew, if_pos (show (stringField s.memory).refuses hd from
          .inr (Nat.le_of_not_lt hroom))]
        simp only [if_pos hpos]
        rfl
    · rw [if_neg hpos, if_pos (show (stringField s.memory).refuses hd from .inl (by omega))]
      simp only [if_neg hpos]

theorem intReadFields_eq (s : Sock) : IntWritable.readFields s = (payloadField s.memory).read
    (fun _ => .badAlloc) (fun hd bs => (intOfSize (ofLE hd), intOfPayload bs)) s := by
  unfold IntWritable.readFields Field.read
  have hwidth : asioRead (payloadField s.memory).width s = asioRead 8 s := rfl
  cases hr : asioRead 8 s with
  | error e t =>
    have hlength : readSize s = .error e t := bind_error hr
    rw [bind_error hlength, bind_error (hwidth.trans hr)]
  | ok hd t =>
    have hlength : readSize s = .ok (ofLE hd) t := bind_ok hr
    rw [bind_ok hlength, bind_ok (hwidth.trans hr)]
    have hmem : t.memory = s.memory := ((Reads.asioRead 8).ok hr).memory
    by_cases hbad : s.memory.limit < (ofLE hd + 1) % 2 ^ 64
    · rw [if_pos (show (payloadField s.memory).refuses hd from hbad)]
      exact bind_error (newChars_error (hmem ▸ hbad))
    · rw [if_neg (show ¬ (payloadField s.memory).refuses hd from hbad),
        bind_ok (newChars_ok (by rw [hmem]; omega))]
      rfl

theorem readCount_eq (s : Sock) : readCount s = (countField s.memory).read
    (fun hd => if maxParams < ofLE hd then .lengthError else .badAlloc)
    (fun hd _ => ofLE hd) s := by
  unfold readCount Field.read
  have hwidth : asioRead (countField s.memory).width s = asioRead 8 s := rfl
  cases hr : asioRead 8 s with
  | error e t =>
    have hlength : readSize s = .error e t := bind_error hr
    rw [bind_error hlength, bind_error (hwidth.trans hr)]
  | ok hd t =>
    have hlength : readSize s = .ok (ofLE hd) t := bind_ok hr
    rw [bind_ok hlength, bind_ok (hwidth.trans hr)]
    have hmem : t.memory = s.memory := ((Reads.asioRead 8).ok hr).memory
    by_cases hbad : s.memory.maxParams < ofLE hd
    · rw [if_pos (show (countField s.memory).refuses hd from hbad)]
      exact bind_error (reserve_error (hmem ▸ hbad))
    · have hread : asioRead ((countField s.memory).length hd) t = .ok [] t := asioRead_unread [] t
      rw [if_neg (show ¬ (countField s.memory).refuses hd from hbad),
        bind_ok (reserve_ok (by rw [hmem]; omega)), bind_ok hread]

/-! ## What is accepted and what is thrown at -/

section Primitive

variable {s s' : Sock} {rest : Bytes}

theorem of_readString_error {e : Exn} (h : Writable.readString s = .error e s') :
    (stringField s.memory).Refused s.input s'.input ∧ s' = { s with input := s'.input } := by
  rw [readString_eq] at h
  exact Field.of_read_error h

theorem readString_refused (h : (stringField s.memory).Refused s.input rest) :
    ∃ e, Writable.readString s = .error e { s with input := rest } := by
  rw [readString_eq]
  exact Field.read_refused h rfl

theorem of_readCount_error {e : Exn} (h : readCount s = .error e s') :
    (countField s.memory).Refused s.input s'.input ∧ s' = { s with input := s'.input } := by
  rw [readCount_eq] at h
  exact Field.of_read_error h

theorem readCount_refused (h : (countField s.memory).Refused s.input rest) :
    ∃ e, readCount s = .error e { s with input := rest } := by
  rw [readCount_eq]
  exact Field.read_refused h rfl

theorem of_intReadFields_error {e : Exn} (h : IntWritable.readFields s = .error e s') :
    (payloadField s.memory).Refused s.input s'.input ∧ s' = { s with input := s'.input } := by
  rw [intReadFields_eq] at h
  exact Field.of_read_error h

theorem intReadFields_refused (h : (payloadField s.memory).Refused s.input rest) :
    ∃ e, IntWritable.readFields s = .error e { s with input := rest } := by
  rw [intReadFields_eq]
  exact Field.read_refused h rfl

/-- A payload for which there is a buffer; the largest `size_t` asks for an empty one. -/
def PayloadOk (bs : Bytes) : Prop :=
  bs.length < 2 ^ 64 ∧ (bs.length + 1) % 2 ^ 64 ≤ M.limit

theorem of_intReadFields_ok {l v : CInt} (h : IntWritable.readFields s = .ok (l, v) s') :
    ∃ bs, PayloadOk s.memory bs ∧ l = intOfSize bs.length ∧ v = intOfPayload bs ∧
      s = s'.unread (sizeBytes bs.length ++ bs) := by
  rw [intReadFields_eq] at h
  obtain ⟨hd, bs, hlen, hok, hbs, heq, rfl⟩ := Field.of_read_ok h
  obtain ⟨rfl, rfl⟩ := Prod.mk.inj heq
  have hlt := ofLE_lt hd
  rw [show hd.length = 8 from hlen] at hlt
  have hbs : bs.length = ofLE hd := hbs
  refine ⟨bs, ⟨hbs ▸ hlt, hbs ▸ Nat.le_of_not_lt hok⟩, by rw [hbs], rfl, ?_⟩
  rw [hbs, sizeBytes_ofLE hlen]

theorem intReadFields_unread {bs : Bytes} (h : PayloadOk s.memory bs) :
    IntWritable.readFields (s.unread (sizeBytes bs.length ++ bs)) =
      .ok (intOfSize bs.length, intOfPayload bs) s := by
  have hsize := ofLE_sizeBytes h.1
  have hok : ¬ (payloadField s.memory).refuses (sizeBytes bs.length) := by
    show ¬ s.memory.limit < (ofLE _ + 1) % 2 ^ 64
    rw [hsize]
    exact Nat.not_lt.mpr h.2
  have hlen : bs.length = (payloadField s.memory).length (sizeBytes bs.length) := hsize.symm
  rw [intReadFields_eq, Sock.memory_unread, Field.read_ok (length_sizeBytes _) hok hlen, hsize]

end Primitive

end PRpc
