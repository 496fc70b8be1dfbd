import PRpc.Taken
import PRpc.Client.Session

/-!
# Which responses are taken frame by frame

`recvRespond` leaves it to an object of the call's value class to take the length and the value off
the stream. An `IntWritable` takes them both; a base `Writable`, made of every unknown class name,
takes nothing, so that the length is read as the next call id; a `MethodWritable` takes the low
half of the length for the length of a class name. `Fits` says when the object takes exactly what
the frame holds, and the responses are received frame by frame if and only if every frame fits.
-/

namespace PRpc.Client

open LittleEndian Session

/-! ## Receiving one response after the other -/

namespace Received

/-- The id that the response was taken for, if the receiver goes on after it. -/
def takenFor : Received → Option CInt
  | .logged id => some id
  | .set id _ => some id
  | .abort => none
  | .crash => none

/-- The table after the response. -/
def table (calls : CInt → Option Call) : Received → CInt → Option Call
  | .set id call => Function.update calls id (some call)
  | _ => calls

end Received

/-- Successive calls of `recvRespond`, each with the socket that it leaves. -/
def Connection.recvResponds : ℕ → (CInt → Option Call) → Sock → List (Received × Sock)
  | 0, _, _ => []
  | n + 1, calls, s =>
    let r := Connection.recvRespond calls s
    r :: if r.1.takenFor.isSome then recvResponds n (r.1.table calls) r.2 else []

/-- The `k`-th response is taken for the call of the `k`-th frame, and the receiver stops where the
next frame starts. -/
def FrameByFrame (calls : CInt → Option Call) (frames : List (CInt × Bytes)) (s : Sock) : Prop :=
  ∀ k (_ : k < frames.length), ∃ r t,
    (Connection.recvResponds frames.length calls (s.unread (frames.flatMap frame)))[k]? =
      some (r, t) ∧
    r.takenFor = some frames[k].1 ∧ t.input = (frames.drop (k + 1)).flatMap frame ++ s.input

/-! ## The condition -/

theorem append_ne_self {bs rest : Bytes} (h : bs ≠ []) : bs ++ rest ≠ rest := by
  intro heq
  exact h (List.append_left_eq_self.mp heq)

theorem sizeBytes_append_ne_nil (n : ℕ) (bs : Bytes) : sizeBytes n ++ bs ≠ [] := by
  intro h
  have := congrArg List.length h
  rw [List.length_append, length_sizeBytes] at this
  simp at this

/-- The length and the value of a frame, read as a string of the low half of the length: four bytes
are left over, the last four. -/
theorem sizeBytes_append_eq {value : Bytes} (hlen : value.length < 2 ^ 31 - 1) :
    ∃ raw last : Bytes, raw.length = value.length ∧ last.length = 4 ∧
      last = (sizeBytes value.length ++ value).drop (4 + value.length) ∧
      sizeBytes value.length ++ value = rawString raw ++ last := by
  have hlow : (sizeBytes value.length).take 4 = intBytes (intOfSize value.length) := by
    unfold sizeBytes intBytes
    rw [toNat_intOfSize (by omega)]
    rfl
  have hsplit : sizeBytes value.length ++ value = intBytes (intOfSize value.length) ++
      ((sizeBytes value.length).drop 4 ++ value) := by
    rw [← hlow, ← List.append_assoc, List.take_append_drop]
  refine ⟨((sizeBytes value.length).drop 4 ++ value).take value.length,
    ((sizeBytes value.length).drop 4 ++ value).drop value.length, ?_, ?_, ?_, ?_⟩
  · simp
  · simp
  · rw [hsplit, ← List.drop_drop]
    congr 1
  · have hraw : (((sizeBytes value.length).drop 4 ++ value).take value.length).length =
        value.length := by simp
    unfold rawString
    rw [hraw, List.append_assoc, List.take_append_drop]
    exact hsplit

/-- **What a `MethodWritable` makes of a value** of ordinary length: the length is taken for that of
a class name, and the frame is taken exactly if the last four bytes of it are refused as the length
of a method name. -/
theorem takes_value_iff {M : Memory} {value rest : Bytes} (hlen : value.length < M.maxString) :
    (∃ through k, Takes M .fields (sizeBytes value.length ++ value ++ rest) rest through k) ↔
      value ≠ [] ∧ (stringField M).Refused
        ((sizeBytes value.length ++ value).drop (4 + value.length) ++ rest) rest := by
  obtain ⟨raw, last, hraw, hlast, hdrop, heq⟩ :=
    sizeBytes_append_eq (Memory.lt_maxString.mp hlen).2
  have hok : value ≠ [] → RawFits M raw := by
    refine fun hne => ⟨?_, by omega⟩
    rintro rfl
    exact hne (List.eq_nil_of_length_eq_zero hraw.symm)
  rw [← hdrop, heq, List.append_assoc]
  constructor
  · intro h
    have hleft :=
      (exists_takes_fields_iff (s := ⟨rawString raw ++ (last ++ rest), 0, M, 0, 0⟩)).mp h
    by_cases hnil : value = []
    · -- the length zero is refused, and the other half of it is left
      obtain rfl : raw = [] := List.eq_nil_of_length_eq_zero (by rw [hraw, hnil]; rfl)
      have href : (stringField M).Refused (rawString [] ++ (last ++ rest)) (last ++ rest) :=
        .length (length_intBytes _) (.inl (by decide))
      have hleft' :=
        (exists_takes_fields_iff (s := ⟨rawString [] ++ (last ++ rest), 0, M, 0, 0⟩)).mp
          ⟨false, 0, .noClass href⟩
      refine absurd (hleft'.symm.trans hleft) (append_ne_self ?_)
      rintro rfl
      cases hlast
    · refine ⟨hnil, ?_⟩
      have h₁ := readString_append (s := ⟨rawString raw ++ (last ++ rest), 0, M, 0, 0⟩) (hok hnil)
        rfl
      cases h₂ : Writable.readString ⟨last ++ rest, 0, M, 0, 0⟩ with
      | error e s₂ =>
        obtain ⟨href, -⟩ := of_readString_error h₂
        rw [MethodWritable.readFields_noMethod h₁ h₂] at hleft
        have hin : s₂.input = rest := hleft
        rw [hin] at href
        exact href
      | ok m s₂ =>
        -- a method name takes bytes of what follows
        have hlen₂ := (readString_consumes h₂).1
        have hle : (MethodWritable.readFields paramLoop
            ⟨rawString raw ++ (last ++ rest), 0, M, 0, 0⟩).2.2.input.length ≤ s₂.input.length := by
          cases h₃ : readCount s₂ with
          | error e s₃ =>
            rw [MethodWritable.readFields_noCount h₁ h₂ h₃]
            exact (Reads.readCount.error h₃).length_le
          | ok n s₃ =>
            rw [MethodWritable.readFields_params h₁ h₂ h₃]
            have a := (readParams_after (s₃.input.length + 1) n s₃).trans (Reads.readCount.ok h₃)
            exact a.length_le
        rw [hleft] at hle
        rw [List.length_append, hlast] at hlen₂
        omega
  · rintro ⟨hnil, href⟩
    exact ⟨false, 0, .noMethod (hok hnil) href⟩

/-- An object of the class takes the length and the value of a frame, and no more of what follows:
an `IntWritable` if there is a buffer for the value, a `MethodWritable` if the length and the value
happen to be the bytes of one. -/
def Fits (M : Memory) (valueClass value rest : Bytes) : Prop :=
  valueClass = ascii "IntWritable" ∧ PayloadOk M value ∨
    valueClass = ascii "MethodWritable" ∧
      ∃ through k, Takes M .fields (sizeBytes value.length ++ value ++ rest) rest through k

namespace Connection

/-- An `IntWritable` takes the value if its length is accepted; otherwise the value stays. -/
theorem recvValue_int_input_iff {call : Call} (hint : call.valueClass = ascii "IntWritable")
    {value : Bytes} (hlen : value.length < 2 ^ 64) (s : Sock) :
    (recvValue call (s.unread (sizeBytes value.length ++ value))).2.input = s.input ↔
      PayloadOk s.memory value := by
  rw [recvValue_int_eq hint]
  by_cases hok : PayloadOk s.memory value
  · have hread : IntWritable.readFields (s.unread (sizeBytes value.length ++ value)).make =
        .ok (intOfSize value.length, intOfPayload value) s.make :=
      intReadFields_unread (s := s.make) hok
    rw [hread]
    refine iff_of_true ?_ hok
    dsimp only
    split <;> rfl
  · have hbad : s.memory.limit < (value.length + 1) % 2 ^ 64 := by
      by_contra hle
      exact hok ⟨hlen, Nat.le_of_not_lt hle⟩
    have href : (payloadField s.memory).Refused (sizeBytes value.length ++ (value ++ s.input))
        (value ++ s.input) := by
      refine .length (length_sizeBytes _) ?_
      show s.memory.limit < (ofLE (sizeBytes value.length) + 1) % 2 ^ 64
      rwa [ofLE_sizeBytes hlen]
    rw [← List.append_assoc] at href
    obtain ⟨e, he⟩ := intReadFields_refused
      (s := (s.unread (sizeBytes value.length ++ value)).make) href
    rw [he]
    refine iff_of_false (append_ne_self ?_) hok
    rintro rfl
    have hnil : PayloadOk s.memory [] := ⟨by decide, s.memory.pos⟩
    exact hok hnil

theorem recvValue_method_input_iff {call : Call}
    (hmethod : call.valueClass = ascii "MethodWritable") (value : Bytes) (s : Sock) :
    (recvValue call (s.unread (sizeBytes value.length ++ value))).2.input = s.input ↔
      ∃ through k,
        Takes s.memory .fields (sizeBytes value.length ++ value ++ s.input) s.input through k := by
  have htakes : (∃ through k, Takes s.memory .fields
      (s.unread (sizeBytes value.length ++ value)).make.input s.input through k) ↔ _ :=
    exists_takes_fields_iff (s := (s.unread (sizeBytes value.length ++ value)).make)
  refine Iff.trans ?_ htakes.symm
  rw [recvValue_method_eq hmethod]
  rcases MethodWritable.readFields paramLoop (s.unread (sizeBytes value.length ++ value)).make
    with ⟨ret, w, t⟩
  show (if ret.toInt < 0 then t.fail else t).input = s.input ↔ t.input = s.input
  split <;> rfl

/-- **The value of a frame is taken exactly if it fits.** -/
theorem recvValue_input_iff (call : Call) {value : Bytes} (hlen : value.length < 2 ^ 64)
    (s : Sock) : (recvValue call (s.unread (sizeBytes value.length ++ value))).2.input = s.input ↔
      Fits s.memory call.valueClass value s.input := by
  have hne : ascii "IntWritable" ≠ ascii "MethodWritable" := by decide
  unfold Fits
  by_cases hint : call.valueClass = ascii "IntWritable"
  · rw [recvValue_int_input_iff hint hlen]
    simp [hint, hne]
  · by_cases hmethod : call.valueClass = ascii "MethodWritable"
    · rw [recvValue_method_input_iff hmethod]
      simp [hmethod, hne.symm]
    · rw [recvValue_base_eq hint hmethod]
      refine iff_of_false (append_ne_self (sizeBytes_append_ne_nil _ _)) ?_
      simp [hint, hmethod]

theorem recvRespond_frame {calls : CInt → Option Call} {f : CInt × Bytes} {call : Call}
    (hfind : calls f.1 = some call) (hlen : f.2.length < 2 ^ 64) (s : Sock) :
    (recvRespond calls (s.unread (frame f))).1.takenFor = some f.1 ∧
      ((recvRespond calls (s.unread (frame f))).2.input = s.input ↔
        Fits s.memory call.valueClass f.2 s.input) := by
  have hiff := recvValue_input_iff call hlen s
  have hid : readInt (s.unread (frame f)) =
      .ok f.1 (s.unread (sizeBytes f.2.length ++ f.2)) := by
    unfold frame
    rw [Sock.unread_append, readInt_unread]
  unfold recvRespond
  rw [hid]
  simp only [hfind]
  rcases hval : recvValue call (s.unread (sizeBytes f.2.length ++ f.2)) with ⟨_ | call', t⟩
  · rw [hval] at hiff
    exact ⟨rfl, hiff⟩
  · rw [hval] at hiff
    exact ⟨rfl, hiff⟩

theorem valueClass_table (calls : CInt → Option Call) (s : Sock) (id : CInt) :
    (((recvRespond calls s).1.table calls id).map Call.valueClass) =
      (calls id).map Call.valueClass := by
  unfold recvRespond
  split
  · rfl
  · next id' t h =>
    split
    · rfl
    · next call hfind =>
      split
      · rfl
      · next call' t' hval =>
        show (Function.update calls id' (some call') id).map _ = _
        rw [Function.update_apply]
        split
        · next heq =>
          obtain ⟨val, rfl⟩ := of_recvValue (congrArg Prod.fst hval)
          rw [heq, hfind, Option.map_some, Option.map_some]
          unfold Call.setValue
          split <;> rfl
        · rfl

end Connection

/-- The first frame is taken exactly, and the others are received frame by frame after it. -/
theorem frameByFrame_cons {calls : CInt → Option Call} {f : CInt × Bytes}
    {frames : List (CInt × Bytes)} {s t : Sock} {r : Received}
    (hr : Connection.recvRespond calls ((s.unread (frames.flatMap frame)).unread (frame f)) =
      (r, t))
    (hfor : r.takenFor = some f.1) : FrameByFrame calls (f :: frames) s ↔
      t.input = frames.flatMap frame ++ s.input ∧
        FrameByFrame (r.table calls) frames { t with input := s.input } := by
  have hlist : Connection.recvResponds (f :: frames).length calls
      (s.unread ((f :: frames).flatMap frame)) =
      (r, t) :: Connection.recvResponds frames.length (r.table calls) t := by
    rw [List.flatMap_cons, Sock.unread_append, List.length_cons, Connection.recvResponds]
    rw [hr, if_pos (by rw [hfor]; rfl)]
  have htail : t.input = frames.flatMap frame ++ s.input →
      ({ t with input := s.input } : Sock).unread (frames.flatMap frame) = t :=
    fun h => (Sock.eq_unread h).symm
  constructor
  · intro h
    obtain ⟨r', t', hget, -, hin⟩ := h 0 (Nat.succ_pos _)
    rw [hlist] at hget
    cases hget
    refine ⟨hin, fun k hk => ?_⟩
    obtain ⟨r', t', hget, hfor', hin'⟩ := h (k + 1) (Nat.succ_lt_succ hk)
    rw [hlist] at hget
    rw [htail hin]
    exact ⟨r', t', hget, hfor', hin'⟩
  · rintro ⟨hin, h⟩ k hk
    rw [hlist]
    cases k with
    | zero => exact ⟨r, t, rfl, hfor, hin⟩
    | succ k =>
      obtain ⟨r', t', hget, hfor', hin'⟩ := h k (Nat.lt_of_succ_lt_succ hk)
      rw [htail hin] at hget
      exact ⟨r', t', hget, hfor', hin'⟩

/-- Every frame fits the value class of its call. -/
def AllFit (M : Memory) (calls : CInt → Option Call) (frames : List (CInt × Bytes))
    (rest : Bytes) : Prop :=
  ∀ k (_ : k < frames.length), ∀ valueClass ∈ (calls frames[k].1).map Call.valueClass,
    Fits M valueClass frames[k].2 ((frames.drop (k + 1)).flatMap frame ++ rest)

/-- **Frame by frame.** However many frames arrive for calls in the table, and whatever follows
them, they are received one by one exactly if each of them fits the value class of its call. -/
theorem frameByFrame_iff {calls : CInt → Option Call} {frames : List (CInt × Bytes)}
    (hpending : ∀ f ∈ frames, (calls f.1).isSome) (hlen : ∀ f ∈ frames, f.2.length < 2 ^ 64)
    (s : Sock) : FrameByFrame calls frames s ↔ AllFit s.memory calls frames s.input := by
  induction frames generalizing calls s with
  | nil =>
    exact iff_of_true (fun k hk => absurd hk (Nat.not_lt_zero k))
      (fun k hk => absurd hk (Nat.not_lt_zero k))
  | cons f frames ih =>
    obtain ⟨call, hfind⟩ := Option.isSome_iff_exists.mp (hpending f List.mem_cons_self)
    obtain ⟨hfor, hin⟩ := Connection.recvRespond_frame hfind (hlen f List.mem_cons_self)
      (s.unread (frames.flatMap frame))
    have hclass := Connection.valueClass_table calls
      ((s.unread (frames.flatMap frame)).unread (frame f))
    rcases hr : Connection.recvRespond calls ((s.unread (frames.flatMap frame)).unread (frame f))
      with ⟨r, t⟩
    have hmem := Connection.recvRespond_memory calls
      ((s.unread (frames.flatMap frame)).unread (frame f))
    rw [hr] at hfor hin hclass hmem
    have htable : ∀ f ∈ frames, (r.table calls f.1).isSome := by
      intro g hg
      rw [← Option.isSome_map (f := Call.valueClass), hclass, Option.isSome_map]
      exact hpending g (List.mem_cons_of_mem _ hg)
    rw [frameByFrame_cons hr hfor, ih htable (fun g hg => hlen g (List.mem_cons_of_mem _ hg))]
    show _ ∧ AllFit t.memory _ _ _ ↔ _
    rw [show t.memory = s.memory from hmem]
    constructor
    · rintro ⟨hexact, hall⟩ k hk valueClass hmem
      cases k with
      | zero =>
        change valueClass ∈ (calls f.1).map Call.valueClass at hmem
        rw [hfind] at hmem
        cases hmem
        exact hin.mp hexact
      | succ k =>
        refine hall k (Nat.lt_of_succ_lt_succ hk) valueClass ?_
        rw [hclass]
        exact hmem
    · intro hall
      refine ⟨hin.mpr (hall 0 (Nat.succ_pos _) call.valueClass ?_), fun k hk valueClass hmem => ?_⟩
      · show call.valueClass ∈ (calls f.1).map Call.valueClass
        rw [hfind]
        rfl
      · rw [hclass] at hmem
        exact hall (k + 1) (Nat.succ_lt_succ hk) valueClass hmem

/-- Two calls, for an `IntWritable` and for a `MethodWritable`. -/
def twoClasses (id : CInt) : Option Call :=
  if id = 0 then some { valueClass := ascii "IntWritable", id := 0, param := .base }
  else if id = 1 then some { valueClass := ascii "MethodWritable", id := 1, param := .base }
  else none

/-- The second value ends in four bytes that are no length. -/
def twoFrames : List (CInt × Bytes) := [(0, intBytes 7), (1, intBytes 0)]

theorem frameByFrame_twoFrames :
    FrameByFrame twoClasses twoFrames ⟨ascii "rest", 0, .whole, 0, 0⟩ := by
  refine (frameByFrame_iff (by decide) (by decide) _).mpr fun k hk valueClass hmem => ?_
  match k, hk with
  | 0, _ =>
    cases hmem
    show Fits .whole (ascii "IntWritable") (intBytes 7) _
    exact .inl ⟨rfl, by decide, by decide⟩
  | 1, _ =>
    cases hmem
    show Fits .whole (ascii "MethodWritable") (intBytes 0) _
    refine .inr ⟨rfl, (takes_value_iff (by decide)).mpr ⟨by decide, ?_⟩⟩
    exact .length (length_intBytes 0) (.inl (by decide))

/-- A call for a class that does not exist, and another one. -/
def textCall (id : CInt) : Option Call :=
  if id = 0 then some { valueClass := ascii "Text", id := 0, param := .base }
  else if id = 4 then some { valueClass := ascii "IntWritable", id := 4, param := .base }
  else none

/-- Nothing of the response to the first call is taken but its id. -/
theorem textCall_not_frameByFrame : ¬ ∀ calls frames s, (∀ f ∈ frames, (calls f.1).isSome) →
    (∀ f ∈ frames, f.2.length < 2 ^ 64) → FrameByFrame calls frames s := by
  intro h
  have hframes := h textCall [(0, intBytes 0)] ⟨[], 0, .whole, 0, 0⟩ (by decide) (by decide)
  obtain ⟨r, t, hget, -, hin⟩ := hframes 0 (by decide)
  cases hget
  exact absurd hin (by decide +kernel)

/-- Its length is the id of the other call, which is done now. -/
example : ((Connection.recvResponds 2 textCall ⟨frame (0, intBytes 0), 0, .whole, 0, 0⟩)[1]?).any
    (fun r => match r.1 with
      | .set id call => id = 4 ∧ call.done = true
      | _ => false) = true := by decide +kernel

end PRpc.Client
