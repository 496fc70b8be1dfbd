import PRpc.Field

/-!
# What the decoders take off a stream

`Takes` is the grammar of what the parameter loops take, broken parts included: a `MethodWritable`
that ends early because a string, a count or a payload in it is refused is taken as far as it was
read, and the loop around it goes on behind it. It is told apart by `through`: `false` where an
exception was thrown. The last index counts the calls of `readFields` inside that threw or returned
a negative number. `takes_params_iff` and `takes_fields_iff` say that the decoders do exactly this.
-/

namespace PRpc

open LittleEndian

/-- The two decoders that call each other. -/
inductive Part
  /-- The loop over so many parameters. -/
  | params (n : ℕ)
  /-- `MethodWritable::readFields`. -/
  | fields

/-- An `IntWritable` returns the length of its payload as an `int`: a failure if it is negative. -/
def payloadFailures (payload : Bytes) : ℕ := if (intOfSize payload.length).toInt < 0 then 1 else 0

/-- The stream, what is left of it, whether the decoder got through, and the failures inside. -/
inductive Takes (M : Memory) : Part → Bytes → Bytes → Bool → ℕ → Prop
  | nil {rest} : Takes M (.params 0) rest rest true 0
  | noTag {n input rest} (h : (stringField M).Refused input rest) :
      Takes M (.params (n + 1)) input rest false 0
  | base {n tag input rest through k} (htag : RawFits M tag) (hint : cstr tag ≠ ascii "IntWritable")
      (hmethod : cstr tag ≠ ascii "MethodWritable") (h : Takes M (.params n) input rest through k) :
      Takes M (.params (n + 1)) (rawString tag ++ input) rest through k
  | int {n tag payload input rest through k} (htag : RawFits M tag)
      (hint : cstr tag = ascii "IntWritable") (hpayload : PayloadOk M payload)
      (h : Takes M (.params n) input rest through k) :
      Takes M (.params (n + 1)) (rawString tag ++ (sizeBytes payload.length ++ payload ++ input))
        rest through (payloadFailures payload + k)
  | noPayload {n tag input rest} (htag : RawFits M tag) (hint : cstr tag = ascii "IntWritable")
      (h : (payloadField M).Refused input rest) :
      Takes M (.params (n + 1)) (rawString tag ++ input) rest false 1
  | method {n tag input mid rest whole through j k} (htag : RawFits M tag)
      (hmethod : cstr tag = ascii "MethodWritable") (hfields : Takes M .fields input mid whole j)
      (h : Takes M (.params n) mid rest through k) :
      Takes M (.params (n + 1)) (rawString tag ++ input) rest through
        (j + (if whole then 0 else 1) + k)
  | noClass {input rest} (h : (stringField M).Refused input rest) :
      Takes M .fields input rest false 0
  | noMethod {c input rest} (hc : RawFits M c) (h : (stringField M).Refused input rest) :
      Takes M .fields (rawString c ++ input) rest false 0
  | noCount {c m input rest} (hc : RawFits M c) (hm : RawFits M m)
      (h : (countField M).Refused input rest) :
      Takes M .fields (rawString c ++ (rawString m ++ input)) rest false 0
  | fields {c m n input rest through k} (hc : RawFits M c) (hm : RawFits M m) (hn : n ≤ M.maxParams)
      (h : Takes M (.params n) input rest through k) :
      Takes M .fields (rawString c ++ (rawString m ++ (sizeBytes n ++ input))) rest through k

/-! ## The ways through `MethodWritable::readFields` -/

namespace MethodWritable

variable {loop : ℕ → Sock → Filled} {s s₁ s₂ s₃ : Sock} {c m : Bytes} {n : ℕ} {e : Exn}

theorem readFields_noClass (h₁ : Writable.readString s = .error e s₁) :
    readFields loop s = (-1, .method [] [] [], s₁) := by
  unfold readFields
  simp only [h₁]

theorem readFields_noMethod (h₁ : Writable.readString s = .ok c s₁)
    (h₂ : Writable.readString s₁ = .error e s₂) :
    readFields loop s = (-1, .method c [] [], s₂) := by
  unfold readFields
  simp only [h₁, h₂]

theorem readFields_noCount (h₁ : Writable.readString s = .ok c s₁)
    (h₂ : Writable.readString s₁ = .ok m s₂) (h₃ : readCount s₂ = .error e s₃) :
    readFields loop s = (-1, .method c m [], s₃) := by
  unfold readFields
  simp only [h₁, h₂, h₃]

theorem readFields_params (h₁ : Writable.readString s = .ok c s₁)
    (h₂ : Writable.readString s₁ = .ok m s₂) (h₃ : readCount s₂ = .ok n s₃) :
    readFields loop s = (if (loop n s₃).thrown.isSome then -1 else 0,
      .method c m (loop n s₃).params, (loop n s₃).sock) := by
  unfold readFields
  simp only [h₁, h₂, h₃]

end MethodWritable

/-! ## The ways through a round of the loop -/

section Round

variable {n : ℕ} {s s₁ s₂ : Sock} {tag : Bytes} {e : Exn} {ret : CInt} {w : Writable}

theorem paramLoop_noTag (h : Writable.readString s = .error e s₁) :
    paramLoop (n + 1) s = ⟨[], some e, s₁⟩ := by
  rw [paramLoop_succ]
  simp only [h]

theorem paramLoop_throws (h₁ : Writable.readString s = .ok tag s₁)
    (h₂ : Writable.readFields paramLoop (Method.getNewInstance s₁.fresh tag) s₁.make =
      (.error e, w, s₂)) : paramLoop (n + 1) s = ⟨[w], some e, s₂⟩ := by
  rw [paramLoop_succ]
  simp only [h₁, h₂]

theorem paramLoop_next (h₁ : Writable.readString s = .ok tag s₁)
    (h₂ : Writable.readFields paramLoop (Method.getNewInstance s₁.fresh tag) s₁.make =
      (.ok ret, w, s₂)) : paramLoop (n + 1) s =
        ⟨w :: (paramLoop n s₂).params, (paramLoop n s₂).thrown, (paramLoop n s₂).sock⟩ := by
  rw [paramLoop_succ]
  simp only [h₁, h₂]

end Round

/-! ## The decoders follow the grammar -/

section Follow

theorem takes_param {tag : Bytes} (s : Sock) (htag : RawFits s.memory tag)
    (hfields : ∃ k, (MethodWritable.readFields paramLoop s.make).2.2.failures = s.failures + k ∧
      Takes s.memory .fields s.input (MethodWritable.readFields paramLoop s.make).2.2.input
        (decide ((MethodWritable.readFields paramLoop s.make).1 = 0)) k) :
    (∃ ret w t k, Writable.readFields paramLoop (Method.getNewInstance s.fresh (cstr tag)) s.make =
        (.ok ret, w, t) ∧ t.failures = s.failures + k ∧
        ∀ n rest through j, Takes s.memory (.params n) t.input rest through j →
          Takes s.memory (.params (n + 1)) (rawString tag ++ s.input) rest through (k + j)) ∨
    ∃ e w t, Writable.readFields paramLoop (Method.getNewInstance s.fresh (cstr tag)) s.make =
        (.error e, w, t) ∧ t.failures = s.failures + 1 ∧
        ∀ n, Takes s.memory (.params (n + 1)) (rawString tag ++ s.input) t.input false 1 := by
  by_cases hint : cstr tag = ascii "IntWritable"
  · have hget : Method.getNewInstance s.fresh (cstr tag) = .int s.fresh := by rw [hint]; rfl
    rw [hget, Writable.readFields_int]
    cases hr : IntWritable.readFields s.make with
    | ok lv t =>
      obtain ⟨payload, hok, hl, -, hs⟩ := of_intReadFields_ok (l := lv.1) (v := lv.2) hr
      have hin : s.input = sizeBytes payload.length ++ payload ++ t.input := congrArg Sock.input hs
      have hf : t.failures = s.failures := (congrArg Sock.failures hs).symm
      refine .inl ⟨_, _, _, payloadFailures payload, rfl, ?_, fun n rest through j h => ?_⟩
      · unfold payloadFailures
        rw [hl]
        split
        · show t.failures + 1 = _
          rw [hf]
        · exact hf
      · rw [hin]
        refine .int htag hint hok ?_
        split at h <;> exact h
    | error e t =>
      obtain ⟨href, ht⟩ := of_intReadFields_error hr
      refine .inr ⟨e, _, _, rfl, ?_, fun n => .noPayload htag hint href⟩
      rw [ht]
      rfl
  · by_cases hmethod : cstr tag = ascii "MethodWritable"
    · have hget : Method.getNewInstance s.fresh (cstr tag) = .method [] [] [] := by
        rw [hmethod]; rfl
      obtain ⟨k, hk, htakes⟩ := hfields
      have hret := methodReadFields_ret (f := paramLoop) s.make
      rw [hget, Writable.readFields_method]
      rcases hm : MethodWritable.readFields paramLoop s.make with ⟨ret, w, t⟩
      rw [hm] at hk htakes hret
      refine .inl ⟨ret, w, _, k + (if ret = 0 then 0 else 1), rfl, ?_, fun n rest through j h => ?_⟩
      · rcases hret with rfl | rfl
        · exact hk
        · show t.failures + 1 = _
          rw [hk]
          rfl
      · have hrest : Takes s.memory (.params n) t.input rest through j := by
          split at h <;> exact h
        have := Takes.method htag hmethod htakes hrest
        simpa using this
    · have hget : Method.getNewInstance s.fresh (cstr tag) = .base := by
        unfold Method.getNewInstance
        rw [if_neg hint, if_neg hmethod]
      rw [hget]
      refine .inl ⟨0, .base, s.make, 0, rfl, rfl, fun n rest through j h => ?_⟩
      rw [Nat.zero_add]
      exact .base htag hint hmethod h

/-- The loop follows the grammar on a socket. -/
def LoopTakes (n : ℕ) (s : Sock) : Prop :=
  ∃ k, (paramLoop n s).sock.failures = s.failures + k ∧
    Takes s.memory (.params n) s.input (paramLoop n s).sock.input (paramLoop n s).thrown.isNone k

/-- `MethodWritable::readFields` follows the grammar if the loop does on what is left. -/
theorem takes_methodReadFields (s : Sock)
    (hloop : ∀ n t, t.input.length ≤ s.input.length → LoopTakes n t) :
    ∃ k, (MethodWritable.readFields paramLoop s).2.2.failures = s.failures + k ∧
      Takes s.memory .fields s.input (MethodWritable.readFields paramLoop s).2.2.input
        (decide ((MethodWritable.readFields paramLoop s).1 = 0)) k := by
  cases h₁ : Writable.readString s with
  | error e s₁ =>
    obtain ⟨href, hs⟩ := of_readString_error h₁
    rw [MethodWritable.readFields_noClass h₁]
    exact ⟨0, by rw [hs]; rfl, .noClass href⟩
  | ok c' s₁ =>
    have hlen₁ := (readString_consumes h₁).1
    obtain ⟨c, hc0, hc, -, rfl⟩ := of_readString_ok h₁
    cases h₂ : Writable.readString s₁ with
    | error e s₂ =>
      obtain ⟨href, hs⟩ := of_readString_error h₂
      rw [MethodWritable.readFields_noMethod h₁ h₂]
      exact ⟨0, by rw [hs]; rfl, .noMethod ⟨hc0, hc⟩ href⟩
    | ok m' s₂ =>
      have hlen₂ := (readString_consumes h₂).1
      obtain ⟨m, hm0, hm, -, rfl⟩ := of_readString_ok h₂
      cases h₃ : readCount s₂ with
      | error e s₃ =>
        obtain ⟨href, hs⟩ := of_readCount_error h₃
        rw [MethodWritable.readFields_noCount h₁ h₂ h₃]
        exact ⟨0, by rw [hs]; rfl, .noCount ⟨hc0, hc⟩ ⟨hm0, hm⟩ href⟩
      | ok n s₃ =>
        have hlen₃ := (Reads.readCount.ok h₃).length_le
        obtain ⟨hn, rfl⟩ := of_readCount_ok h₃
        obtain ⟨k, hk, htakes⟩ := hloop n s₃ (by omega)
        rw [MethodWritable.readFields_params h₁ h₂ h₃]
        refine ⟨k, hk, ?_⟩
        have := Takes.fields ⟨hc0, hc⟩ ⟨hm0, hm⟩ hn htakes
        cases hthrown : (paramLoop n s₃).thrown with
        | none => rw [hthrown] at this; exact this
        | some e => rw [hthrown] at this; exact this

theorem loopTakes (n : ℕ) (s : Sock) : LoopTakes n s := by
  induction hlen : s.input.length using Nat.strong_induction_on generalizing n s with
  | h len ih =>
    unfold LoopTakes
    cases n with
    | zero => exact ⟨0, rfl, .nil⟩
    | succ n =>
      cases h1 : Writable.readString s with
      | error e s1 =>
        obtain ⟨href, hs1⟩ := of_readString_error h1
        rw [paramLoop_noTag h1]
        exact ⟨0, by rw [hs1]; rfl, .noTag href⟩
      | ok tag' s1 =>
        have hshort := (readString_consumes h1).1
        obtain ⟨tag, h0, hlt, rfl, rfl⟩ := of_readString_ok h1
        have hfields := takes_methodReadFields s1.make fun j t ht =>
          ih t.input.length (by have : s1.make.input.length = s1.input.length := rfl; omega) j t rfl
        have a := Writable.readFields_after (f := paramLoop) (fun n t => readParams_after _ n t)
          (Method.getNewInstance s1.fresh (cstr tag)) s1.make
        rcases takes_param s1 ⟨h0, hlt⟩ hfields with ⟨ret, w, t, k, hr, hk, hnext⟩ |
          ⟨e, w, t, hr, hk, hend⟩
        · rw [hr] at a
          have hle : t.input.length ≤ s1.input.length := a.length_le
          obtain ⟨j, hj, htakes⟩ := ih t.input.length (by omega) n t rfl
          rw [show t.memory = s1.memory from a.memory] at htakes
          rw [paramLoop_next h1 hr]
          refine ⟨k + j, ?_, hnext n _ _ _ htakes⟩
          show (paramLoop n t).sock.failures = s1.failures + (k + j)
          rw [hj, hk, Nat.add_assoc]
        · rw [paramLoop_throws h1 hr]
          exact ⟨1, hk, hend n⟩

end Follow

/-! ## The grammar determines the decoders -/

/-- How a loop ends: what it leaves of the stream, whether it got through, and the failures. -/
structure Filled.Ends (filled : Filled) (s : Sock) (rest : Bytes) (through : Bool) (k : ℕ) :
    Prop where
  rest : filled.sock.input = rest
  through : filled.thrown.isNone = through
  failures : filled.sock.failures = s.failures + k

/-- How `MethodWritable::readFields` ends. -/
structure MethodWritable.Ends (result : CInt × Writable × Sock) (s : Sock) (rest : Bytes)
    (through : Bool) (k : ℕ) : Prop where
  rest : result.2.2.input = rest
  through : result.1 = if through then 0 else -1
  failures : result.2.2.failures = s.failures + k

def Part.Ends (s : Sock) (rest : Bytes) (through : Bool) (k : ℕ) : Part → Prop
  | .params n => (paramLoop n s).Ends s rest through k
  | .fields => MethodWritable.Ends (MethodWritable.readFields paramLoop s) s rest through k

section Append

variable {s : Sock} {input : Bytes}

theorem readInt_append {v : CInt} (hs : s.input = intBytes v ++ input) :
    readInt s = .ok v { s with input := input } := by
  conv_lhs => rw [Sock.eq_unread hs]
  exact readInt_unread v _

theorem readString_append {raw : Bytes} (h : RawFits s.memory raw)
    (hs : s.input = rawString raw ++ input) :
    Writable.readString s = .ok (cstr raw) { s with input := input } := by
  conv_lhs => rw [Sock.eq_unread hs]
  exact readString_unread (s := { s with input := input }) h.1 h.2

theorem readCount_append {n : ℕ} (h : n ≤ s.memory.maxParams)
    (hs : s.input = sizeBytes n ++ input) :
    readCount s = .ok n { s with input := input } := by
  conv_lhs => rw [Sock.eq_unread hs]
  exact readCount_unread (s := { s with input := input }) h

theorem intReadFields_append {payload : Bytes} (h : PayloadOk s.memory payload)
    (hs : s.input = sizeBytes payload.length ++ payload ++ input) :
    IntWritable.readFields s =
      .ok (intOfSize payload.length, intOfPayload payload) { s with input := input } := by
  conv_lhs => rw [Sock.eq_unread hs]
  exact intReadFields_unread (s := { s with input := input }) h

end Append

/-- **The decoders do what the grammar says.** -/
theorem Takes.ends {M : Memory} {part : Part} {input rest : Bytes} {through : Bool} {k : ℕ}
    (h : Takes M part input rest through k) : ∀ s : Sock, s.memory = M → s.input = input →
      part.Ends s rest through k := by
  induction h with
  | nil => exact fun s _ hs => ⟨hs, rfl, rfl⟩
  | @noTag n input rest href =>
    rintro s rfl rfl
    obtain ⟨e, he⟩ := readString_refused href
    show (paramLoop (n + 1) s).Ends s rest false 0
    rw [paramLoop_noTag he]
    exact ⟨rfl, rfl, rfl⟩
  | @base n tag input rest through k htag hint hmethod _ ih =>
    rintro s rfl hs
    have hget : Method.getNewInstance s.fresh (cstr tag) = .base := by
      unfold Method.getNewInstance
      rw [if_neg hint, if_neg hmethod]
    have hrest : (paramLoop n _).Ends _ rest through k :=
      ih (Sock.make { s with input := input }) rfl rfl
    show (paramLoop (n + 1) s).Ends s rest through k
    rw [paramLoop_next (readString_append htag hs) (by rw [hget]; rfl)]
    exact ⟨hrest.rest, hrest.through, hrest.failures⟩
  | @int n tag payload input rest through k htag hint hpayload _ ih =>
    rintro s rfl hs
    have hget : Method.getNewInstance s.fresh (cstr tag) = .int s.fresh := by rw [hint]; rfl
    have hread : Writable.readFields paramLoop (Method.getNewInstance s.fresh (cstr tag))
        (Sock.make { s with input := sizeBytes payload.length ++ payload ++ input }) =
        (.ok (intOfSize payload.length), .int (intOfPayload payload),
          if (intOfSize payload.length).toInt < 0 then (Sock.make { s with input := input }).fail
          else Sock.make { s with input := input }) := by
      have hval := intReadFields_append
        (s := Sock.make { s with input := sizeBytes payload.length ++ payload ++ input })
        hpayload rfl
      rw [hget, Writable.readFields_int, hval]
      rfl
    have hrest : (paramLoop n _).Ends _ rest through k := ih
      (if (intOfSize payload.length).toInt < 0 then (Sock.make { s with input := input }).fail
        else Sock.make { s with input := input }) (by split <;> rfl) (by split <;> rfl)
    show (paramLoop (n + 1) s).Ends s rest through (payloadFailures payload + k)
    rw [paramLoop_next (readString_append htag hs) hread]
    refine ⟨hrest.rest, hrest.through, hrest.failures.trans ?_⟩
    unfold payloadFailures
    split
    · exact Nat.add_assoc s.failures 1 k
    · rw [Nat.zero_add]
      rfl
  | @noPayload n tag input rest htag hint href =>
    rintro s rfl hs
    have hget : Method.getNewInstance s.fresh (cstr tag) = .int s.fresh := by rw [hint]; rfl
    obtain ⟨e, he⟩ := intReadFields_refused (s := Sock.make { s with input := input }) href
    have hread : Writable.readFields paramLoop (Method.getNewInstance s.fresh (cstr tag))
        (Sock.make { s with input := input }) =
        (.error e, .int s.fresh, (Sock.make { s with input := rest }).fail) := by
      rw [hget, Writable.readFields_int, he]
      rfl
    show (paramLoop (n + 1) s).Ends s rest false 1
    rw [paramLoop_throws (readString_append htag hs) hread]
    exact ⟨rfl, rfl, rfl⟩
  | @method n tag input mid rest whole through j k htag hmethod _ _ ihf ih =>
    rintro s rfl hs
    have hget : Method.getNewInstance s.fresh (cstr tag) = .method [] [] [] := by rw [hmethod]; rfl
    have hf : MethodWritable.Ends _ _ mid whole j :=
      ihf (Sock.make { s with input := input }) rfl rfl
    rcases hm : MethodWritable.readFields paramLoop (Sock.make { s with input := input }) with
      ⟨ret, w, t⟩
    rw [hm] at hf
    obtain ⟨hmid, hret, hfail⟩ := hf
    have hmem : t.memory = s.memory := by
      have a := MethodWritable.readFields_after (f := paramLoop) (fun n t => readParams_after _ n t)
        (Sock.make { s with input := input })
      rw [hm] at a
      exact a.memory
    have hread : Writable.readFields paramLoop (Method.getNewInstance s.fresh (cstr tag))
        (Sock.make { s with input := input }) =
        (.ok ret, w, if ret.toInt < 0 then t.fail else t) := by
      rw [hget, Writable.readFields_method, hm]
    have hrest : (paramLoop n _).Ends _ rest through k := ih (if ret.toInt < 0 then t.fail else t)
      (by split <;> exact hmem) (by split <;> exact hmid)
    show (paramLoop (n + 1) s).Ends s rest through (j + (if whole then 0 else 1) + k)
    rw [paramLoop_next (readString_append htag hs) hread]
    refine ⟨hrest.rest, hrest.through, hrest.failures.trans ?_⟩
    change t.failures = s.failures + j at hfail
    cases whole with
    | true =>
      have hret : ret = 0 := hret
      rw [hret]
      show t.failures + k = s.failures + (j + k)
      omega
    | false =>
      have hret : ret = -1 := hret
      rw [hret]
      show t.failures + 1 + k = s.failures + (j + 1 + k)
      omega
  | @noClass input rest href =>
    rintro s rfl rfl
    obtain ⟨e, he⟩ := readString_refused href
    show MethodWritable.Ends (MethodWritable.readFields paramLoop s) s rest false 0
    rw [MethodWritable.readFields_noClass he]
    exact ⟨rfl, rfl, rfl⟩
  | @noMethod c input rest hc href =>
    rintro s rfl hs
    obtain ⟨e, he⟩ := readString_refused (s := { s with input := input }) href
    show MethodWritable.Ends (MethodWritable.readFields paramLoop s) s rest false 0
    rw [MethodWritable.readFields_noMethod (readString_append hc hs) he]
    exact ⟨rfl, rfl, rfl⟩
  | @noCount c m input rest hc hm href =>
    rintro s rfl hs
    obtain ⟨e, he⟩ := readCount_refused (s := { s with input := input }) href
    show MethodWritable.Ends (MethodWritable.readFields paramLoop s) s rest false 0
    rw [MethodWritable.readFields_noCount (readString_append hc hs) (readString_append hm rfl) he]
    exact ⟨rfl, rfl, rfl⟩
  | @fields c m n input rest through k hc hm hn _ ih =>
    rintro s rfl hs
    have hrest : (paramLoop n _).Ends _ rest through k := ih { s with input := input } rfl rfl
    show MethodWritable.Ends (MethodWritable.readFields paramLoop s) s rest through k
    rw [MethodWritable.readFields_params (readString_append hc hs) (readString_append hm rfl)
      (readCount_append hn rfl)]
    refine ⟨hrest.rest, ?_, hrest.failures⟩
    rw [← hrest.through]
    cases (paramLoop n { s with input := input }).thrown <;> rfl

/-- **The grammar and the loop agree.** -/
theorem takes_params_iff {n : ℕ} {s : Sock} {rest : Bytes} {through : Bool} {k : ℕ} :
    Takes s.memory (.params n) s.input rest through k ↔ (paramLoop n s).Ends s rest through k := by
  constructor
  · exact fun h => h.ends s rfl rfl
  · rintro ⟨rfl, rfl, hk⟩
    obtain ⟨j, hj, htakes⟩ := loopTakes n s
    obtain rfl : j = k := Nat.add_left_cancel (hj.symm.trans hk)
    exact htakes

/-- **The grammar and `MethodWritable::readFields` agree.** -/
theorem takes_fields_iff {s : Sock} {rest : Bytes} {through : Bool} {k : ℕ} :
    Takes s.memory .fields s.input rest through k ↔
      MethodWritable.Ends (MethodWritable.readFields paramLoop s) s rest through k := by
  constructor
  · exact fun h => h.ends s rfl rfl
  · rintro ⟨rfl, hret, hk⟩
    obtain ⟨j, hj, htakes⟩ := takes_methodReadFields s fun n t _ => loopTakes n t
    obtain rfl : j = k := Nat.add_left_cancel (hj.symm.trans hk)
    rw [hret] at htakes
    cases through with
    | true => exact htakes
    | false => exact htakes

/-- What `MethodWritable::readFields` leaves of the stream. -/
theorem exists_takes_fields_iff {s : Sock} {rest : Bytes} :
    (∃ through k, Takes s.memory .fields s.input rest through k) ↔
      (MethodWritable.readFields paramLoop s).2.2.input = rest := by
  constructor
  · rintro ⟨through, k, h⟩
    exact (takes_fields_iff.mp h).rest
  · rintro rfl
    obtain ⟨k, -, htakes⟩ := takes_methodReadFields s fun n t _ => loopTakes n t
    exact ⟨_, k, htakes⟩

end PRpc
