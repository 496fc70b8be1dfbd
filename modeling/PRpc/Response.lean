import PRpc.Method

/-!
# Sending a response

`Connection::processResponse` is one pass over a call, made under the lock of the connection: the
header if nothing was sent yet, then as much of the value as `write_some` accepts. If something is
left the position is stored and the call goes back to the response queue; that last step is not
part of the definition here, since other threads can use the queue before it.

The pass takes the value from a pointer into the string that `getValueStr` has returned. That string
is a temporary and gone when `write_some` reads, so what is found there is an input of the model:
the value (`accepts`), or whatever bytes the storage holds by then (`stale`).

`sentLen` bytes of `wireFrame` are on the socket before a pass and as many more as it writes after
it (`processResponse_takes`). Where the pointer finds the value this is `frame`, so passes that
follow each other send the frame once and in order (`processResponse_accepts`).
-/

namespace PRpc.Server

/-- What the socket does with the writes of one pass. -/
inductive SockOut
  /-- The header goes out and `write_some` takes `w` bytes, which are those of the value. -/
  | accepts (w : ℕ)
  /-- The header goes out and `write_some` takes these bytes, which it has found at `start`. -/
  | stale (bytes : Bytes)
  /-- An error, after `k` bytes of the header. -/
  | fails (k : ℕ)
  deriving DecidableEq, Repr

/-- What a socket may do with `n` bytes: take some of them, if there are any, or fail. -/
def SockOut.Fits (n : ℕ) : SockOut → Prop
  | .accepts w => w ≤ n ∧ (0 < n → 0 < w)
  | .stale bytes => bytes.length ≤ n ∧ (0 < n → 0 < bytes.length)
  | .fails _ => True

instance (n : ℕ) : DecidablePred (SockOut.Fits n)
  | .accepts w => inferInstanceAs (Decidable (w ≤ n ∧ (0 < n → 0 < w)))
  | .stale bytes => inferInstanceAs (Decidable (bytes.length ≤ n ∧ (0 < n → 0 < bytes.length)))
  | .fails _ => .isTrue trivial

namespace SockOut

/-- There is no error. -/
def works : SockOut → Bool
  | .accepts _ => true
  | .stale _ => true
  | .fails _ => false

/-- The value is what the pass finds at `start`. -/
def intact : SockOut → Bool
  | .accepts _ => true
  | .stale _ => false
  | .fails _ => true

/-- What `write_some` takes where the rest of the value should be. -/
def taken (rest : Bytes) : SockOut → Bytes
  | .accepts w => rest.take w
  | .stale bytes => bytes
  | .fails _ => []

theorem length_taken {io : SockOut} {rest : Bytes} (h : io.Fits rest.length)
    (hworks : io.works = true) : (io.taken rest).length ≤ rest.length ∧
      (0 < rest.length → 0 < (io.taken rest).length) := by
  cases io with
  | accepts w =>
    obtain ⟨h1, h2⟩ : w ≤ rest.length ∧ _ := h
    have hlen : (rest.take w).length = w := List.length_take_of_le h1
    show (rest.take w).length ≤ _ ∧ (_ → 0 < (rest.take w).length)
    rw [hlen]
    exact ⟨h1, h2⟩
  | stale bytes => exact h
  | fails k => cases hworks

theorem taken_prefix {io : SockOut} (h : io.intact = true) (rest : Bytes) :
    io.taken rest <+: rest := by
  cases io with
  | accepts w => exact List.take_prefix w rest
  | stale bytes => cases h
  | fails k => exact List.nil_prefix

end SockOut

/-- How a pass ends: nothing left (`0`), a call to be queued again (`1`), a call dropped (`-1`). -/
inductive Pass
  | sent
  | again
  | failed
  deriving DecidableEq, Repr

namespace Call

/-- The bytes of the whole response. -/
def frame (call : Call) : Bytes :=
  intBytes call.callId ++ sizeBytes call.strVal.length ++ call.strVal

/-- The response on the wire: the part of the value that was sent is as the passes found it. -/
def wireFrame (call : Call) : Bytes :=
  intBytes call.callId ++ sizeBytes call.strVal.length ++
    (call.found ++ call.strVal.drop call.found.length)

/-- The value bytes that were not sent yet, in the arithmetic of `size_t`. -/
def left (call : Call) : ℕ := (call.strVal.length + 2 ^ 64 - sizeOfInt call.pos) % 2 ^ 64

/-- How many bytes of the frame are on the socket, by the stored position. -/
def sentLen (call : Call) : ℕ := if call.pos.toNat = 0 then 0 else 12 + call.pos.toNat

/-- A value that fits an `int`, and a position at its start or inside it. -/
def InRange (call : Call) : Prop :=
  call.strVal.length < 2 ^ 31 ∧ (call.pos.toNat = 0 ∨ call.pos.toNat < call.strVal.length)

/-- A call that passes are made over: the bytes that were sent are those before its position. -/
structure Underway (call : Call) : Prop where
  inRange : call.InRange
  found : call.found.length = call.pos.toNat

/-- What a pass sends in front of the value: the header, at the start. -/
def opening (call : Call) : Bytes :=
  if call.pos.toNat = 0 then intBytes call.callId ++ sizeBytes call.strVal.length else []

theorem length_frame (call : Call) : call.frame.length = 12 + call.strVal.length := by
  unfold frame
  rw [List.length_append, List.length_append, length_intBytes, length_sizeBytes]

theorem length_wireFrame {call : Call} (h : call.found.length ≤ call.strVal.length) :
    call.wireFrame.length = 12 + call.strVal.length := by
  unfold wireFrame
  rw [List.length_append, List.length_append, List.length_append, length_intBytes,
    length_sizeBytes, List.length_drop]
  omega

/-- A frame on the wire: the id, a length, and that many bytes. -/
def WellFramed (call : Call) : Prop :=
  ∃ value : Bytes, call.wireFrame = intBytes call.callId ++ sizeBytes value.length ++ value

theorem wellFramed {call : Call} (h : call.found.length ≤ call.strVal.length) :
    call.WellFramed := by
  refine ⟨call.found ++ call.strVal.drop call.found.length, ?_⟩
  rw [List.length_append, List.length_drop, Nat.add_sub_cancel' h]
  rfl

theorem wireFrame_eq {call : Call} (h : call.found <+: call.strVal) :
    call.wireFrame = call.frame := by
  obtain ⟨rest, hrest⟩ := h
  unfold wireFrame frame
  rw [← hrest, List.drop_left]

theorem take_frame (call : Call) (p : ℕ) : call.frame.take (12 + p) =
    intBytes call.callId ++ sizeBytes call.strVal.length ++ call.strVal.take p := by
  unfold frame
  rw [List.take_append, List.take_of_length_le]
  · rw [List.length_append, length_intBytes, length_sizeBytes, Nat.add_sub_cancel_left]
  · rw [List.length_append, length_intBytes, length_sizeBytes]
    omega

theorem take_wireFrame {call : Call} {p : ℕ} (h : call.found.length = p) :
    call.wireFrame.take (12 + p) =
      intBytes call.callId ++ sizeBytes call.strVal.length ++ call.found := by
  unfold wireFrame
  rw [← List.append_assoc, List.take_left']
  rw [List.length_append, List.length_append, length_intBytes, length_sizeBytes, h]

/-- The part of the response that was sent, and what the next pass puts in front of the value. -/
theorem take_frame_opening (call : Call) : call.frame.take call.sentLen ++ call.opening =
    intBytes call.callId ++ sizeBytes call.strVal.length ++ call.strVal.take call.pos.toNat := by
  unfold sentLen opening
  by_cases h0 : call.pos.toNat = 0
  · rw [if_pos h0, if_pos h0, h0, List.take_zero, List.take_zero, List.nil_append, List.append_nil]
  · rw [if_neg h0, if_neg h0, take_frame, List.append_nil]

theorem take_wireFrame_opening {call : Call} (h : call.found.length = call.pos.toNat) :
    call.wireFrame.take call.sentLen ++ call.opening =
      intBytes call.callId ++ sizeBytes call.strVal.length ++ call.found := by
  unfold sentLen opening
  by_cases h0 : call.pos.toNat = 0
  · have hnil : call.found = [] := List.eq_nil_of_length_eq_zero (h.trans h0)
    rw [if_pos h0, if_pos h0, hnil, List.take_zero, List.nil_append, List.append_nil]
  · rw [if_neg h0, if_neg h0, take_wireFrame h, List.append_nil]

end Call

/-- One pass: the bytes written, the call with its new position, and the end of the pass. -/
def Connection.processResponse (call : Call) (io : SockOut) : Bytes × Call × Pass :=
  let length := call.strVal.length
  let currPos := sizeOfInt call.pos
  -- "Illegal pos value"; as a `size_t` the position is not negative
  if currPos ≠ 0 ∧ length < currPos then ([], call, .failed)
  else
    let header := if currPos = 0 then intBytes call.callId ++ sizeBytes call.left else []
    match io with
    | .fails k => (header.take k, call, .failed)
    | _ =>
      let wrote := io.taken (call.strVal.drop currPos)
      let sent := { call with found := call.found ++ wrote }
      if wrote.length < call.left then
        (header ++ wrote, { sent with pos := intOfSize (wrote.length + currPos) }, .again)
      else (header ++ wrote, sent, .sent)

namespace Call.InRange

variable {call : Call} (h : call.InRange)

include h

theorem pos_le : call.pos.toNat ≤ call.strVal.length := by
  obtain ⟨-, h0 | hlt⟩ := h <;> omega

theorem sizeOfInt_pos : sizeOfInt call.pos = call.pos.toNat := by
  have := h.pos_le
  obtain ⟨hlen, -⟩ := h
  exact sizeOfInt_eq (by omega)

theorem left_eq : call.left = call.strVal.length - call.pos.toNat := by
  have hp := h.pos_le
  have hlen := h.1
  unfold left
  rw [h.sizeOfInt_pos]
  omega

end Call.InRange

namespace Connection

variable {call : Call}

/-- **One pass of a working socket**: what `write_some` takes is counted, and the pass ends with
`again` exactly while value bytes are left. -/
theorem processResponse_takes (h : call.InRange) {io : SockOut} (hworks : io.works = true)
    {wrote : Bytes} (hwrote : io.taken (call.strVal.drop call.pos.toNat) = wrote) :
    processResponse call io = if call.pos.toNat + wrote.length < call.strVal.length then
        (call.opening ++ wrote, { call with
          pos := intOfSize (call.pos.toNat + wrote.length), found := call.found ++ wrote }, .again)
      else (call.opening ++ wrote, { call with found := call.found ++ wrote }, .sent) := by
  have hpos := h.sizeOfInt_pos
  have hleft := h.left_eq
  have hle := h.pos_le
  have hlegal : ¬(call.pos.toNat ≠ 0 ∧ call.strVal.length < call.pos.toNat) := by omega
  have hcond : wrote.length < call.left ↔ call.pos.toNat + wrote.length < call.strVal.length := by
    omega
  have hopening : (if call.pos.toNat = 0 then intBytes call.callId ++ sizeBytes call.left else []) =
      call.opening := by
    unfold Call.opening
    by_cases h0 : call.pos.toNat = 0
    · rw [if_pos h0, if_pos h0, hleft, h0, Nat.sub_zero]
    · rw [if_neg h0, if_neg h0]
  unfold processResponse
  cases io with
  | fails k => cases hworks
  | accepts w =>
    simp only [hpos, if_neg hlegal, hopening, hwrote, hcond, Nat.add_comm wrote.length]
  | stale bytes =>
    simp only [hpos, if_neg hlegal, hopening, hwrote, hcond, Nat.add_comm wrote.length]

/-- A pass that finds the value continues the frame where the last one stopped. -/
theorem processResponse_accepts (h : call.InRange) {w : ℕ}
    (hw : (SockOut.accepts w).Fits call.left) :
    ∃ bytes found,
      call.frame.take call.sentLen ++ bytes = call.frame.take (12 + (call.pos.toNat + w)) ∧
      processResponse call (.accepts w) =
        if call.pos.toNat + w < call.strVal.length then
          (bytes, { call with pos := intOfSize (call.pos.toNat + w), found }, .again)
        else (bytes, { call with found }, .sent) := by
  have hleft := h.left_eq
  obtain ⟨hw1, -⟩ : w ≤ call.left ∧ _ := hw
  have hlen : ((call.strVal.drop call.pos.toNat).take w).length = w := by
    rw [List.length_take, List.length_drop]
    omega
  have hp : processResponse call (.accepts w) = _ := processResponse_takes h rfl rfl
  rw [show SockOut.taken _ (.accepts w) = (call.strVal.drop call.pos.toNat).take w from rfl,
    hlen] at hp
  refine ⟨_, _, ?_, hp⟩
  rw [← List.append_assoc, Call.take_frame_opening, Call.take_frame, List.append_assoc,
    List.take_add]

/-- A pass that fails writes a part of the header at most, and leaves the call as it is. -/
theorem processResponse_fails (h : call.InRange) (k : ℕ) :
    ∃ bytes, processResponse call (.fails k) = (bytes, call, .failed) ∧
      bytes <+: call.wireFrame.drop call.sentLen := by
  have hpos := h.sizeOfInt_pos
  have hleft := h.left_eq
  have hle := h.pos_le
  have hlegal : ¬(call.pos.toNat ≠ 0 ∧ call.strVal.length < call.pos.toNat) := by omega
  refine ⟨(if call.pos.toNat = 0 then intBytes call.callId ++ sizeBytes call.left else []).take k,
    ?_, ?_⟩
  · unfold processResponse
    simp only [hpos, if_neg hlegal]
  · unfold Call.sentLen
    by_cases h0 : call.pos.toNat = 0
    · rw [if_pos h0, if_pos h0, hleft, h0, Nat.sub_zero, List.drop_zero]
      exact (List.take_prefix _ _).trans (List.prefix_append _ _)
    · rw [if_neg h0, List.take_nil]
      exact List.nil_prefix

section Inversion

variable {call' : Call} {io : SockOut} {bytes : Bytes}

theorem found_prefix (h : call.Underway) (hintact : io.intact = true)
    (hfound : call.found <+: call.strVal) :
    call.found ++ io.taken (call.strVal.drop call.pos.toNat) <+: call.strVal := by
  obtain ⟨rest, hrest⟩ := hfound
  have hdrop : call.strVal.drop call.pos.toNat = rest := by
    rw [← hrest, ← h.found, List.drop_left]
  rw [hdrop, ← hrest]
  exact (List.prefix_append_right_inj _).mpr (io.taken_prefix hintact rest)

theorem of_again (h : call.Underway) (hio : io.Fits call.left)
    (hpass : processResponse call io = (bytes, call', .again)) :
    ∃ p found, call.pos.toNat < p ∧ p < call.strVal.length ∧ found.length = p ∧
      (io.intact = true → call.found <+: call.strVal → found <+: call.strVal) ∧
      call' = { call with pos := intOfSize p, found } ∧
      call.wireFrame.take call.sentLen ++ bytes = call'.wireFrame.take (12 + p) := by
  have hleft := h.inRange.left_eq
  rw [← List.length_drop] at hleft
  cases hworks : io.works with
  | false =>
    cases io with
    | fails k =>
      obtain ⟨_, hp, -⟩ := processResponse_fails h.inRange k
      rw [hp] at hpass
      cases hpass
    | accepts w => cases hworks
    | stale bytes => cases hworks
  | true =>
    generalize hwrote : io.taken (call.strVal.drop call.pos.toNat) = wrote
    have hlen := SockOut.length_taken (hleft ▸ hio) hworks
    have hprefix (hintact : io.intact = true) := found_prefix h hintact
    rw [hwrote, List.length_drop] at hlen
    rw [hwrote] at hprefix
    rw [processResponse_takes h.inRange hworks hwrote] at hpass
    split at hpass
    · next hlt =>
      have hfound : (call.found ++ wrote).length = call.pos.toNat + wrote.length := by
        rw [List.length_append, h.found]
      cases hpass
      refine ⟨_, _, ?_, hlt, hfound, hprefix, rfl, ?_⟩
      · have := hlen.2 (by omega)
        omega
      · rw [← List.append_assoc, Call.take_wireFrame_opening h.found, Call.take_wireFrame hfound,
          List.append_assoc]
    · cases hpass

theorem of_sent (h : call.Underway) (hio : io.Fits call.left)
    (hpass : processResponse call io = (bytes, call', .sent)) :
    ∃ found, found.length = call.strVal.length ∧
      (io.intact = true → call.found <+: call.strVal → found <+: call.strVal) ∧
      call' = { call with found } ∧
      call.wireFrame.take call.sentLen ++ bytes = call'.wireFrame := by
  have hleft := h.inRange.left_eq
  have hle := h.inRange.pos_le
  rw [← List.length_drop] at hleft
  cases hworks : io.works with
  | false =>
    cases io with
    | fails k =>
      obtain ⟨_, hp, -⟩ := processResponse_fails h.inRange k
      rw [hp] at hpass
      cases hpass
    | accepts w => cases hworks
    | stale bytes => cases hworks
  | true =>
    generalize hwrote : io.taken (call.strVal.drop call.pos.toNat) = wrote
    have hlen := SockOut.length_taken (hleft ▸ hio) hworks
    have hprefix (hintact : io.intact = true) := found_prefix h hintact
    rw [hwrote, List.length_drop] at hlen
    rw [hwrote] at hprefix
    rw [processResponse_takes h.inRange hworks hwrote] at hpass
    split at hpass
    · cases hpass
    · next hlt =>
      have hfound : (call.found ++ wrote).length = call.strVal.length := by
        rw [List.length_append, h.found]
        omega
      cases hpass
      refine ⟨_, hfound, hprefix, rfl, ?_⟩
      rw [← List.append_assoc, Call.take_wireFrame_opening h.found]
      unfold Call.wireFrame
      dsimp only
      rw [hfound, List.drop_length, List.append_nil, List.append_assoc]

/-- Only an error of the socket makes a pass fail, and it leaves the call as it is. -/
theorem of_failed (h : call.InRange) (hpass : processResponse call io = (bytes, call', .failed)) :
    io.works = false ∧ call' = call := by
  cases hworks : io.works with
  | true =>
    rw [processResponse_takes h hworks rfl] at hpass
    split at hpass <;> cases hpass
  | false =>
    cases io with
    | fails k =>
      obtain ⟨_, hp, -⟩ := processResponse_fails h k
      rw [hp] at hpass
      cases hpass
      exact ⟨rfl, rfl⟩
    | accepts w => cases hworks
    | stale bytes => cases hworks

end Inversion

theorem inRange_again (h : call.InRange) {p : ℕ} (found : Bytes) (hp : p < call.strVal.length) :
    ({ call with pos := intOfSize p, found } : Call).InRange := by
  have hlen := h.1
  exact ⟨hlen, .inr (by rw [toNat_intOfSize (by omega)]; exact hp)⟩

theorem underway_again (h : call.InRange) {p : ℕ} {found : Bytes} (hp : p < call.strVal.length)
    (hfound : found.length = p) : ({ call with pos := intOfSize p, found } : Call).Underway := by
  have hlen := h.1
  exact ⟨inRange_again h found hp, by rw [toNat_intOfSize (by omega)]; exact hfound⟩

/-- Passes that follow each other up to the last one; `none` if the socket does not work or they
do not get the value through. -/
def sendAll : Call → List SockOut → Option Bytes
  | _, [] => none
  | call, io :: ios =>
    if io.Fits call.left then
      match processResponse call io with
      | (bytes, _, .sent) => some bytes
      | (bytes, call, .again) => (sendAll call ios).map (bytes ++ ·)
      | (_, _, .failed) => none
    else none

/-- What a pass has sent and what is left after it are what was left before it. -/
theorem append_drop_frame {n : ℕ} {bytes : Bytes}
    (h : call.frame.take call.sentLen ++ bytes = call.frame.take n) :
    bytes ++ call.frame.drop n = call.frame.drop call.sentLen := by
  have heq : call.frame.take call.sentLen ++ (bytes ++ call.frame.drop n) =
      call.frame.take call.sentLen ++ call.frame.drop call.sentLen := by
    rw [← List.append_assoc, h, List.take_append_drop, List.take_append_drop]
  exact List.append_cancel_left heq

theorem sentLen_again (h : call.InRange) {p : ℕ} (found : Bytes) (hpos : 0 < p)
    (hp : p < call.strVal.length) :
    ({ call with pos := intOfSize p, found } : Call).sentLen = 12 + p := by
  have hlen := h.1
  unfold Call.sentLen
  rw [toNat_intOfSize (by omega), if_neg (by omega)]

theorem opening_again (h : call.InRange) {p : ℕ} (found : Bytes) (hpos : 0 < p)
    (hp : p < call.strVal.length) :
    ({ call with pos := intOfSize p, found } : Call).opening = [] := by
  have hlen := h.1
  unfold Call.opening
  rw [toNat_intOfSize (by omega), if_neg (by omega)]

theorem left_again (h : call.InRange) {p : ℕ} (found : Bytes) (hp : p < call.strVal.length) :
    ({ call with pos := intOfSize p, found } : Call).left = call.strVal.length - p := by
  have hlen := h.1
  rw [(inRange_again h found hp).left_eq, toNat_intOfSize (by omega)]

/-- However the passes cut the value, what they have sent is what was left of the frame. -/
theorem of_sendAll {ws : List ℕ} {sent : Bytes} (h : call.InRange)
    (hsend : sendAll call (ws.map .accepts) = some sent) :
    sent = call.frame.drop call.sentLen := by
  induction ws generalizing call sent with
  | nil => cases hsend
  | cons w ws ih =>
    rw [List.map_cons] at hsend
    unfold sendAll at hsend
    split at hsend
    · next hfits =>
      obtain ⟨bytes, found, hbytes, hpass⟩ := processResponse_accepts h hfits
      have hb := append_drop_frame hbytes
      rw [hpass] at hsend
      by_cases hlast : call.pos.toNat + w < call.strVal.length
      · rw [if_pos hlast] at hsend
        have hw := hfits.2 (by rw [h.left_eq]; omega)
        obtain ⟨rest, hrest, rfl⟩ := Option.map_eq_some_iff.mp hsend
        rw [ih (inRange_again h _ hlast) hrest, sentLen_again h _ (by omega) hlast, ← hb]
        rfl
      · rw [if_neg hlast] at hsend
        have hall : call.frame.drop (12 + (call.pos.toNat + w)) = [] := by
          rw [List.drop_eq_nil_iff, Call.length_frame]
          omega
        rw [hall, List.append_nil] at hb
        cases hsend
        exact hb
    · cases hsend

end Connection

namespace SockOut

/-- How many bytes `write_some` takes. -/
def count : SockOut → ℕ
  | .accepts w => w
  | .stale bytes => bytes.length
  | .fails _ => 0

/-- What passes take one after the other where the value should be. -/
def takenBy : List SockOut → Bytes → Bytes
  | [], _ => []
  | io :: ios, rest => io.taken rest ++ takenBy ios (rest.drop io.count)

theorem works_of_count {io : SockOut} (h : 0 < io.count) : io.works = true := by
  cases io with
  | fails k => exact absurd h (Nat.lt_irrefl 0)
  | accepts w => rfl
  | stale bytes => rfl

theorem fits_of_count {io : SockOut} {n : ℕ} (h : 0 < io.count) (hle : io.count ≤ n) :
    io.Fits n := by
  cases io with
  | fails k => trivial
  | accepts w => exact ⟨hle, fun _ => h⟩
  | stale bytes => exact ⟨hle, fun _ => h⟩

theorem length_taken_eq {io : SockOut} {rest : Bytes} (h : io.count ≤ rest.length) :
    (io.taken rest).length = io.count := by
  cases io with
  | accepts w => exact List.length_take_of_le h
  | stale bytes => rfl
  | fails k => rfl

theorem length_takenBy {ios : List SockOut} {rest : Bytes}
    (h : (ios.map count).sum ≤ rest.length) : (takenBy ios rest).length = (ios.map count).sum := by
  induction ios generalizing rest with
  | nil => rfl
  | cons io ios ih =>
    rw [List.map_cons, List.sum_cons] at h ⊢
    unfold takenBy
    rw [List.length_append, length_taken_eq (by omega), ih (by rw [List.length_drop]; omega)]

end SockOut

namespace Connection

variable {call : Call}

/-- However the value is cut and whatever the passes find, they send the header and as many bytes as
the value has. -/
theorem sendAll_eq {ios : List SockOut} (h : call.InRange) (hne : ios ≠ [])
    (hpos : ∀ io ∈ ios, 0 < io.count) (hsum : (ios.map SockOut.count).sum = call.left) :
    sendAll call ios = some (call.opening ++
      SockOut.takenBy ios (call.strVal.drop call.pos.toNat)) := by
  induction ios generalizing call with
  | nil => exact absurd rfl hne
  | cons io ios ih =>
    have hleft := h.left_eq
    have hle := h.pos_le
    have hio := hpos io List.mem_cons_self
    rw [List.map_cons, List.sum_cons] at hsum
    have hfits : io.Fits call.left := SockOut.fits_of_count hio (Nat.le.intro hsum)
    generalize hwrote : io.taken (call.strVal.drop call.pos.toNat) = wrote
    have hlen : wrote.length = io.count := by
      rw [← hwrote]
      exact SockOut.length_taken_eq (by rw [List.length_drop]; omega)
    have hpass := processResponse_takes h (SockOut.works_of_count hio) hwrote
    unfold sendAll SockOut.takenBy
    rw [if_pos hfits, hpass, hwrote]
    by_cases hlast : call.pos.toNat + wrote.length < call.strVal.length
    · rw [if_pos hlast]
      have hr := inRange_again h (call.found ++ wrote) hlast
      have hl := left_again h (call.found ++ wrote) hlast
      have hp : (intOfSize (call.pos.toNat + wrote.length)).toNat =
          call.pos.toNat + wrote.length := toNat_intOfSize (by have := h.1; omega)
      have hios : ios ≠ [] := by
        rintro rfl
        rw [List.map_nil, List.sum_nil] at hsum
        omega
      dsimp only
      rw [ih hr hios (fun io hio => hpos io (List.mem_cons_of_mem _ hio)) (by omega),
        opening_again h (call.found ++ wrote) (by omega) hlast]
      dsimp only
      rw [hp, ← List.drop_drop, hlen, List.nil_append, Option.map_some, List.append_assoc]
    · rw [if_neg hlast]
      have hios : ios = [] := by
        cases ios with
        | nil => rfl
        | cons io' ios =>
          have := hpos io' (List.mem_cons_of_mem _ List.mem_cons_self)
          rw [List.map_cons, List.sum_cons] at hsum
          omega
      rw [hios]
      unfold SockOut.takenBy
      rw [List.append_nil]

/-! ### Pass after pass -/

/-- The passes over a call as the `write_some` results come, each with what it writes and with the
call after it; the call is applied again as long as the last pass has returned `1`. -/
def passes : Call → List ℕ → List (Bytes × Call × Pass)
  | _, [] => []
  | call, w :: ws =>
    let r := processResponse call (.accepts w)
    r :: if r.2.2 = .again then passes r.2.1 ws else []

/-- Every pass gets a result that a socket may give. -/
def Accepted : Call → List ℕ → Prop
  | _, [] => True
  | call, w :: ws => (SockOut.accepts w).Fits call.left ∧
      let r := processResponse call (.accepts w)
      r.2.2 = .again → Accepted r.2.1 ws

instance decidableAccepted : ∀ call ws, Decidable (Accepted call ws)
  | _, [] => .isTrue trivial
  | call, w :: ws =>
    have := decidableAccepted (processResponse call (.accepts w)).2.1 ws
    inferInstanceAs (Decidable ((SockOut.accepts w).Fits call.left ∧
      ((processResponse call (.accepts w)).2.2 = .again →
        Accepted (processResponse call (.accepts w)).2.1 ws)))

/-- From the position of the call on: a pass returns `1` exactly while value bytes are left and `0`
otherwise, what was written is the frame so far, and there are no more passes than bytes left. -/
structure Resumes (call : Call) (ws : List ℕ) : Prop where
  ends : ∀ i r, (passes call ws)[i]? = some r → r.2.2 =
    if call.pos.toNat + (ws.take (i + 1)).sum < call.strVal.length then .again else .sent
  bytes : ∀ i, 0 < i → i ≤ (passes call ws).length →
    call.frame.take call.sentLen ++ ((passes call ws).take i).flatMap Prod.fst =
      call.frame.take (12 + (call.pos.toNat + (ws.take i).sum))
  count : (passes call ws).length ≤ max 1 (call.strVal.length - call.pos.toNat)
  finishes : max 1 (call.strVal.length - call.pos.toNat) ≤ ws.length →
    ((passes call ws).getLast?).map (fun r => r.2.2) = some .sent

theorem Resumes.last {w : ℕ} {bytes : Bytes} {ws : List ℕ}
    (hbytes : call.frame.take call.sentLen ++ bytes = call.frame.take (12 + (call.pos.toNat + w)))
    (hlast : ¬ call.pos.toNat + w < call.strVal.length) {found : Bytes}
    (hpass : processResponse call (.accepts w) = (bytes, { call with found }, .sent)) :
    Resumes call (w :: ws) := by
  have hlist : passes call (w :: ws) = [(bytes, { call with found }, .sent)] := by
    unfold passes
    rw [hpass]
    rfl
  refine ⟨fun i r hr => ?_, fun i hi hle => ?_, ?_, fun _ => ?_⟩
  · rw [hlist] at hr
    cases i with
    | zero =>
      cases hr
      rw [List.take_succ_cons, List.take_zero, List.sum_singleton, if_neg hlast]
    | succ i => cases hr
  · rw [hlist] at hle ⊢
    obtain rfl : i = 1 := by simp at hle; omega
    simpa using hbytes
  · rw [hlist]
    exact Nat.le_max_left ..
  · rw [hlist]
    rfl

theorem Resumes.again {w : ℕ} {bytes : Bytes} {ws : List ℕ} (h : call.InRange) (hw : 0 < w)
    (hbytes : call.frame.take call.sentLen ++ bytes = call.frame.take (12 + (call.pos.toNat + w)))
    (hagain : call.pos.toNat + w < call.strVal.length) {found : Bytes}
    (hpass : processResponse call (.accepts w) =
      (bytes, { call with pos := intOfSize (call.pos.toNat + w), found }, .again))
    (hrest : Resumes { call with pos := intOfSize (call.pos.toNat + w), found } ws) :
    Resumes call (w :: ws) := by
  have hpos : (intOfSize (call.pos.toNat + w)).toNat = call.pos.toNat + w :=
    toNat_intOfSize (by have := h.1; omega)
  have hsent := sentLen_again h (p := call.pos.toNat + w) found (by omega) hagain
  obtain ⟨hends, hall, hcount, hfinishes⟩ := hrest
  dsimp only at hcount hfinishes
  rw [hpos] at hcount hfinishes
  simp only [hpos] at hends hall
  have hlist : passes call (w :: ws) =
      (bytes, { call with pos := intOfSize (call.pos.toNat + w), found }, .again) ::
        passes { call with pos := intOfSize (call.pos.toNat + w), found } ws := by
    conv_lhs => unfold passes
    rw [hpass]
    rfl
  refine ⟨fun i r hr => ?_, fun i hi hle => ?_, ?_, fun hlen => ?_⟩
  · rw [hlist] at hr
    cases i with
    | zero =>
      cases hr
      rw [List.take_succ_cons, List.take_zero, List.sum_singleton, if_pos hagain]
    | succ i =>
      rw [hends i r hr, List.take_succ_cons, List.sum_cons, Nat.add_assoc]
  · rw [hlist] at hle ⊢
    obtain ⟨i, rfl⟩ := Nat.exists_eq_add_of_lt hi
    rw [Nat.zero_add, List.take_succ_cons, List.take_succ_cons, List.flatMap_cons, List.sum_cons,
      ← List.append_assoc, hbytes, ← Nat.add_assoc call.pos.toNat]
    cases i with
    | zero => simp
    | succ i =>
      have hnext := hall (i + 1) (Nat.succ_pos i) (by simpa using hle)
      rw [hsent] at hnext
      exact hnext
  · rw [hlist, List.length_cons]
    omega
  · rw [List.length_cons] at hlen
    have hlast := hfinishes (by omega)
    rw [hlist, List.getLast?_cons]
    obtain ⟨r, hr, hsent⟩ := Option.map_eq_some_iff.mp hlast
    rw [hr, Option.getD_some, Option.map_some, hsent]

theorem resumes {ws : List ℕ} (h : call.InRange) (hws : Accepted call ws) : Resumes call ws := by
  induction ws generalizing call with
  | nil =>
    refine ⟨fun i r hr => ?_, fun i hi hle => ?_, Nat.zero_le _, fun hlen => ?_⟩
    · cases hr
    · exact absurd hle (Nat.not_le.mpr hi)
    · simp at hlen
  | cons w ws ih =>
    obtain ⟨hfits, hrest⟩ := hws
    obtain ⟨bytes, found, hbytes, hpass⟩ := processResponse_accepts h hfits
    by_cases hagain : call.pos.toNat + w < call.strVal.length
    · rw [if_pos hagain] at hpass
      have hleft := h.left_eq
      rw [hpass] at hrest
      exact .again h (hfits.2 (by omega)) hbytes hagain hpass
        (ih (inRange_again h _ hagain) (hrest rfl))
    · rw [if_neg hagain] at hpass
      exact .last hbytes hagain hpass

/-- **Resumed sending is exact.** For a call from its start, whatever `write_some` accepts: each
pass returns `1` while value bytes are left and then `0`, never `-1`; at each point the frame so
far is written; the number of passes is bounded, and with that many results the frame is sent. -/
theorem passes_exact {ws : List ℕ} (hpos : call.pos = 0) (hlen : call.strVal.length < 2 ^ 31)
    (hws : Accepted call ws) :
    (∀ i r, (passes call ws)[i]? = some r →
      r.2.2 = if (ws.take (i + 1)).sum < call.strVal.length then .again else .sent) ∧
    (∀ i, 0 < i → i ≤ (passes call ws).length →
      ((passes call ws).take i).flatMap Prod.fst = call.frame.take (12 + (ws.take i).sum)) ∧
    (passes call ws).length ≤ max 1 call.strVal.length ∧
    (max 1 call.strVal.length ≤ ws.length →
      ((passes call ws).getLast?).map (fun r => r.2.2) = some .sent ∧
      (passes call ws).flatMap Prod.fst = intBytes call.callId ++ sizeBytes call.strVal.length ++
        call.strVal) := by
  have hzero : call.pos.toNat = 0 := by
    rw [hpos]
    rfl
  obtain ⟨hends, hbytes, hcount, hfinishes⟩ := resumes ⟨hlen, .inl hzero⟩ hws
  have hsent : call.sentLen = 0 := if_pos hzero
  simp only [hzero, hsent, Nat.zero_add, Nat.sub_zero, List.take_zero, List.nil_append]
    at hends hbytes hcount hfinishes
  refine ⟨hends, hbytes, hcount, fun hmany => ⟨hfinishes hmany, ?_⟩⟩
  obtain ⟨r, hr, hlast⟩ := Option.map_eq_some_iff.mp (hfinishes hmany)
  -- the last pass is the one with the last index, and it has returned `0`
  rw [List.getLast?_eq_getElem?] at hr
  have hne : 0 < (passes call ws).length := by
    have := (List.getElem?_eq_some_iff.mp hr).1
    omega
  have hdone := hends _ r hr
  rw [hlast, Nat.sub_add_cancel hne] at hdone
  have hall := hbytes _ hne le_rfl
  rw [List.take_length] at hall
  rw [hall]
  refine List.take_of_length_le ?_
  rw [Call.length_frame]
  split at hdone
  · cases hdone
  · omega

/-- A value of four bytes in three pieces. -/
theorem passes_fourBytes :
    (passes { connection := 0, callId := 5, className := [], methodName := [], params := [],
              strVal := [1, 2, 3, 4] } [1, 2, 1, 9]).flatMap Prod.fst =
      [5, 0, 0, 0, 4, 0, 0, 0, 0, 0, 0, 0, 1, 2, 3, 4] :=
  ((passes_exact rfl (by decide) (by decide)).2.2.2 (by decide)).2

end Connection

end PRpc.Server
