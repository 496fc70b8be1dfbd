import PRpc.Remote

/-!
# Round trips of single values

An `IntWritable` has two encoders, `write` and the length with the bytes of `toString` that
`Connection::processResponse` sends; both give the same twelve bytes, of which the decoder keeps
the lowest value byte (`lowByte`). A string is sent with an `int` length. The decoder cuts it at a
NUL, and lengths that are not positive `int`s or have no buffer never come back.
-/

namespace PRpc

/-! ## `IntWritable` -/

namespace IntWritable

/-- Reading from `bytes` with `rest` behind them yields `v` and leaves `rest`. -/
def ReadsAs (v : CInt) (bytes rest : Bytes) : Prop :=
  ∀ s : Sock, s.input = bytes ++ rest →
    ∃ l s', IntWritable.readFields s = .ok (l, v) s' ∧ s'.input = rest

theorem readFields_value (v : CInt) (rest : Bytes) :
    ReadsAs (lowByte v) (sizeBytes 4 ++ intBytes v) rest := by
  intro s hs
  have hlen : (intBytes v).length = 4 := length_intBytes v
  have hread := readFields_int_unread (s := { s with input := rest })
    (s.memory.length_intBytes_lt v)
  rw [hlen, intOfPayload_intBytes, ← Sock.eq_unread hs] at hread
  exact ⟨_, _, hread, rfl⟩

/-- Reading is a function: from the bytes of `v` it yields `w` only if `w` is the lowest byte. -/
theorem readsAs_iff (v w : CInt) (rest : Bytes) :
    ReadsAs w (sizeBytes 4 ++ intBytes v) rest ↔ lowByte v = w := by
  constructor
  · intro h
    let s : Sock := ⟨sizeBytes 4 ++ intBytes v ++ rest, 0, .whole, 0, 0⟩
    obtain ⟨l, s', hr, -⟩ := h s rfl
    obtain ⟨l', s'', hr', -⟩ := readFields_value v rest s rfl
    rw [hr'] at hr
    cases hr
    rfl
  · rintro rfl
    exact readFields_value v rest

theorem sendAll_result {call served : Server.Call} {v : CInt}
    (hset : call.setValue (some (.int v)) = .ok served) (hpos : served.pos = 0) {ws : List ℕ}
    {bytes : Bytes} (hsend : Server.Connection.sendAll served (ws.map .accepts) = some bytes) :
    bytes = intBytes served.callId ++ (sizeBytes 4 ++ intBytes v) := by
  have hstr : served.strVal = intBytes v := by
    unfold Server.Call.setValue at hset
    cases hset
    rfl
  have hlen : served.strVal.length = 4 := by rw [hstr, length_intBytes]
  have hpos0 : served.pos.toNat = 0 := by rw [hpos]; rfl
  have hrange : served.InRange := ⟨by omega, .inl hpos0⟩
  have hsent : served.sentLen = 0 := if_pos hpos0
  rw [Server.Connection.of_sendAll hrange hsend, hsent, List.drop_zero, Server.Call.frame, hlen,
    hstr, List.append_assoc]

/-- Both encoders against the decoder. `served` is a call with the result `v`, sent from its
start with one result of `write_some` in `ws` for each pass, which finds the value; the id in front
of the response is read by `recvRespond`. -/
structure RoundTrips (v : CInt) (rest : Bytes) : Prop where
  write : ReadsAs v (IntWritable.write v) rest
  toString : ∀ (call served : Server.Call) (ws : List ℕ) (bytes : Bytes),
    call.setValue (some (.int v)) = .ok served → served.pos = 0 →
      Server.Connection.sendAll served (ws.map .accepts) = some bytes →
        ReadsAs v (bytes.drop 4) rest

/-- **The round trip of an `int`** succeeds exactly for the values of a `char`. -/
theorem roundTrips_iff (v : CInt) (rest : Bytes) :
    RoundTrips v rest ↔ -128 ≤ v.toInt ∧ v.toInt ≤ 127 := by
  rw [← lowByte_eq_iff]
  constructor
  · intro h
    exact (readsAs_iff v v rest).mp h.write
  · intro h
    refine ⟨(readsAs_iff v v rest).mpr h, ?_⟩
    intro call served ws bytes hset hpos hsend
    have hdrop : bytes.drop 4 = sizeBytes 4 ++ intBytes v := by
      rw [sendAll_result hset hpos hsend]
      exact List.drop_left' (length_intBytes _)
    rw [hdrop]
    exact (readsAs_iff v v rest).mpr h

/-- `200` comes back as `-56`. -/
theorem not_roundTrips_200 : ¬ ∀ (v : CInt) (rest : Bytes), RoundTrips v rest := by
  intro h
  exact absurd ((readsAs_iff 200 200 []).mp (h 200 []).write) (by decide)

end IntWritable

/-! ## Strings -/

namespace Writable

/-- What `writeString` returns: the number of bytes of the string that went out. -/
def writtenLength (str : Bytes) : CInt :=
  let length := intOfSize str.length
  if length = 0 then 0 else intOfSize str.length

/-- The string comes back and `rest` is left, or nothing is written and the caller is told so.
A failure is reported by a negative number or an exception; the writes here do not throw. -/
def StringRoundTrips (M : Memory) (str rest : Bytes) : Prop :=
  (∀ s : Sock, s.memory = M → s.input = writeString str ++ rest →
    ∃ s', readString s = .ok str s' ∧ s'.input = rest) ∨
  (writeString str = [] ∧ (writtenLength str).toInt < 0)

/-- Nothing is written exactly when the length is zero as an `int`, and then zero is returned. -/
theorem writtenLength_of_nil {str : Bytes} (h : writeString str = []) :
    writtenLength str = 0 := by
  unfold writeString at h
  unfold writtenLength
  by_cases h0 : intOfSize str.length = 0
  · exact if_pos h0
  · rw [if_neg h0] at h
    have hlen := congrArg List.length h
    rw [List.length_append, length_intBytes, List.length_nil] at hlen
    omega

theorem nul_not_mem_cstr (raw : Bytes) : 0 ∉ cstr raw := by
  intro h
  simpa using List.mem_takeWhile_imp h

theorem length_cstr_le (raw : Bytes) : (cstr raw).length ≤ raw.length :=
  (List.takeWhile_prefix _).length_le

/-- A string that comes back has no NUL and is as long as its length prefix says. -/
theorem of_readString_written {str rest : Bytes} {s s' : Sock}
    (hs : s.input = writeString str ++ rest) (hread : readString s = .ok str s')
    (hrest : s'.input = rest) : str ≠ [] ∧ 0 ∉ str ∧ str.length < s.memory.maxString := by
  obtain ⟨raw, hne, hlt, hstr, rfl⟩ := of_readString_ok hread
  have hle : str.length ≤ raw.length := hstr ▸ length_cstr_le raw
  rw [Sock.input_unread, hrest] at hs
  have hw := List.append_cancel_right hs
  have hpos : str ≠ [] := by
    rintro rfl
    have hlen := congrArg List.length hw
    rw [List.length_append, length_intBytes] at hlen
    change 4 + raw.length = 0 at hlen
    omega
  exact ⟨hpos, hstr ▸ nul_not_mem_cstr raw, hle.trans_lt hlt⟩

/-- **The round trip of a string** succeeds exactly without a NUL and for a length whose buffer
can be allocated; nothing that is not written is reported. -/
theorem stringRoundTrips_iff (M : Memory) (str rest : Bytes) :
    StringRoundTrips M str rest ↔ str ≠ [] ∧ 0 ∉ str ∧ str.length < M.maxString := by
  constructor
  · rintro (h | ⟨hnil, hneg⟩)
    · obtain ⟨s', hread, hrest⟩ := h ⟨writeString str ++ rest, 0, M, 0, 0⟩ rfl rfl
      exact of_readString_written rfl hread hrest
    · rw [writtenLength_of_nil hnil] at hneg
      exact absurd hneg (by decide)
  · rintro ⟨hne, hnul, hlt⟩
    refine .inl ?_
    rintro s rfl hs
    have hint := (Memory.lt_maxString.mp hlt).2
    rw [writeString_eq hne (by omega)] at hs
    have hread := readString_unread (s := { s with input := rest }) hne hlt
    rw [cstr_eq_self hnul, ← Sock.eq_unread hs] at hread
    exact ⟨_, hread, rfl⟩

/-- A string with a NUL inside comes back cut. -/
theorem not_stringRoundTrips_nul : ¬ ∃ M, ∀ str rest : Bytes, StringRoundTrips M str rest := by
  rintro ⟨M, h⟩
  obtain ⟨-, hnul, -⟩ := (stringRoundTrips_iff M [65, 0, 66] []).mp (h [65, 0, 66] [])
  exact hnul (by decide)

end Writable

end PRpc
