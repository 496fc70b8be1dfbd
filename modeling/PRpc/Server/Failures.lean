import PRpc.Taken
import PRpc.Server.Step

/-!
# Failures inside a request

A parameter that fails is noticed by `Call::read` only if it throws: what `readFields` returns is
not looked at, neither in `Call::read` nor in `MethodWritable::readFields`, which turns every
exception inside it into a number. So a request with a broken `MethodWritable` or a payload whose
length is a negative `int` is accepted if the loop over its direct parameters gets through
(`propagates_iff`).
-/

namespace PRpc.Server

/-- A request whose direct parameters are all taken off the stream, what is left of it, and how many
broken parts are in it. -/
inductive TakesRequest (M : Memory) : Bytes → Bytes → ℕ → Prop
  | request {id c m n input rest k} (hc : RawFits M c) (hm : RawFits M m) (hn : n ≤ M.maxParams)
      (h : Takes M (.params n) input rest true k) :
      TakesRequest M (intBytes id ++ (rawString c ++ (rawString m ++ (sizeBytes n ++ input)))) rest
        k

namespace Call

variable {conn : ConnId} {s : Sock} {rest : Bytes} {k : ℕ}

/-- **What `Call::read` accepts.** -/
theorem read_some_iff : (∃ call t, read conn s = (some call, t) ∧ t.input = rest ∧
    t.failures = s.failures + k) ↔ TakesRequest s.memory s.input rest k := by
  constructor
  · rintro ⟨call, t, hread, rfl, hk⟩
    unfold read at hread
    split at hread
    · next call' s' hb =>
      cases hread
      obtain ⟨id, s₁, h₁, hb⟩ := of_bind_ok hb
      obtain ⟨c', s₂, h₂, hb⟩ := of_bind_ok hb
      obtain ⟨m', s₃, h₃, hb⟩ := of_bind_ok hb
      obtain ⟨n, s₄, h₄, hb⟩ := of_bind_ok hb
      obtain ⟨ps, s₅, h₅, hb⟩ := of_bind_ok hb
      cases hb
      have hs := of_readInt_ok h₁
      obtain ⟨c, hc0, hc, -, rfl⟩ := of_readString_ok h₂
      obtain ⟨m, hm0, hm, -, rfl⟩ := of_readString_ok h₃
      obtain ⟨hn, rfl⟩ := of_readCount_ok h₄
      have hend : (paramLoop n s₄).Ends s₄ t.input true k := by
        unfold readArgs at h₅
        split at h₅
        · next hl =>
          cases h₅
          rw [hl]
          refine ⟨rfl, rfl, hk.trans ?_⟩
          rw [hs]
          rfl
        · cases h₅
      rw [hs]
      exact .request ⟨hc0, hc⟩ ⟨hm0, hm⟩ hn (takes_params_iff.mpr hend)
    · cases hread
  · intro h
    generalize hs : s.input = input at h
    cases h with
    | @request id c m n input rest k hc hm hn h =>
      obtain ⟨hrest, hthrough, hk⟩ := h.ends { s with input } rfl rfl
      rcases hl : paramLoop n { s with input } with ⟨ps, thrown, t⟩
      rw [hl] at hrest hthrough hk
      have hargs : readArgs n { s with input } = .ok ps t := by
        unfold readArgs
        rw [hl]
        cases thrown with
        | none => rfl
        | some e => cases hthrough
      obtain ⟨call, hbody⟩ : ∃ call, readBody conn s = .ok call t := by
        refine ⟨⟨conn, id, cstr c, cstr m, ps, none, 0, [], []⟩, ?_⟩
        have hclass := readString_append
          (s := { s with input := rawString c ++ (rawString m ++ (sizeBytes n ++ input)) }) hc rfl
        have hmethod := readString_append
          (s := { s with input := rawString m ++ (sizeBytes n ++ input) }) hm rfl
        have hcount := readCount_append (s := { s with input := sizeBytes n ++ input }) hn rfl
        unfold readBody
        rw [bind_ok (readInt_append hs), bind_ok hclass, bind_ok hmethod, bind_ok hcount,
          bind_ok hargs]
        rfl
      refine ⟨call, t, ?_, hrest, hk⟩
      unfold read
      rw [hbody]

theorem reads_readArgs (n : ℕ) : Reads (readArgs n) where
  ok {s s' ps} h := by
    have a := readParams_after (s.input.length + 1) n s
    unfold readArgs paramLoop at h
    split at h
    · next hl => cases h; rw [hl] at a; exact a
    · cases h
  error {s s' e} h := by
    have a := readParams_after (s.input.length + 1) n s
    unfold readArgs paramLoop at h
    split at h
    · cases h
    · next hl => cases h; rw [hl] at a; exact a

theorem read_after (conn : ConnId) (s : Sock) : (read conn s).2.After s := by
  have hbody : Reads (readBody conn) :=
    Reads.readInt.bind fun _ => Reads.readString.bind fun _ => Reads.readString.bind fun _ =>
      Reads.readCount.bind fun _ => (reads_readArgs _).bind fun _ => .pure _
  unfold read
  split
  · next h => exact hbody.ok h
  · next h => exact hbody.error h

end Call

/-! ## What the reader does -/

/-- The read fails, and its reader goes on to close the connection without having made a call. -/
structure Rejected (c : ConnId) (input : Sock) : Prop where
  read : (Call.read c input).1 = none
  closes : ∀ {m n : ℕ} (s : State m n) (r : Fin m), (s.listener.readers r).pc = .reading c →
    s.readCall r input = some (s.setListener (s.listener.setReaderPc r (.failed c)))

theorem rejected_iff {c : ConnId} {input : Sock} :
    Rejected c input ↔ (Call.read c input).1 = none := by
  refine ⟨Rejected.read, fun h => ⟨h, fun s r hpc => ?_⟩⟩
  unfold State.readCall
  rw [hpc]
  simp only [h]

/-- A failure of a `readFields`, at whatever depth, makes the request be rejected. -/
def Propagates (c : ConnId) (input : Sock) : Prop :=
  (Call.read c input).2.failures ≠ input.failures → Rejected c input

/-- **When failures are propagated**: exactly if nothing is broken in the request that the stream
starts with, if it starts with one. -/
theorem propagates_iff (c : ConnId) (input : Sock) :
    Propagates c input ↔ ∀ rest k, TakesRequest input.memory input.input rest k → k = 0 := by
  constructor
  · intro h rest k htakes
    obtain ⟨call, t, hread, -, hk⟩ : ∃ call t, Call.read c input = (some call, t) ∧
        t.input = rest ∧ t.failures = input.failures + k := Call.read_some_iff.mpr htakes
    by_contra hne
    have hrejected := h (by rw [hread]; show t.failures ≠ _; omega)
    rw [rejected_iff, hread] at hrejected
    cases hrejected
  · intro h hfail
    rw [rejected_iff]
    rcases hread : Call.read c input with ⟨_ | call, t⟩
    · rfl
    · have hle := (Call.read_after c input).failures
      rw [hread] at hfail hle
      obtain ⟨k, hk⟩ := Nat.exists_eq_add_of_le hle
      have hzero := h t.input k (Call.read_some_iff.mp ⟨call, t, hread, rfl, hk⟩)
      exact absurd (by rw [hk, hzero]; rfl) hfail

/-- A request with one parameter, a `MethodWritable` whose class name has the length zero. -/
def broken : Sock :=
  ⟨intBytes 0 ++ (rawString (ascii "C") ++ (rawString (ascii "m") ++ (sizeBytes 1 ++
    (rawString (ascii "MethodWritable") ++ intBytes 0)))), 0, .whole, 0, 0⟩

/-- It becomes a call. -/
theorem broken_not_propagates : ¬ ∀ c input, Propagates c input := by
  intro h
  have hread : (Call.read 0 broken).1 = none := (h 0 broken (by decide +kernel)).read
  exact absurd hread (by decide +kernel)

end PRpc.Server
