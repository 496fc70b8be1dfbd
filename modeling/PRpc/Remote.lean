import PRpc.Response
import PRpc.Client.Receive

/-!
# A remote call end to end

`DataNodeProtocol::create` through every encoder and decoder it passes: the request, the server's
read, the dispatcher, the passes over the response and the client's read. Both decoders of an
`int` keep the first byte only, and the one on the client gets it from what the first pass finds
where the value was. On that byte addition is a homomorphism, so if the pass finds the value, the
sum of the arguments reduced to a `char` comes back (`create_eq`), and the remote call agrees with
the local one exactly for sums from `-128` to `127`.
-/

namespace PRpc

open LittleEndian

/-! ## The byte that survives -/

/-- The value of an `int` seen through a `const char*`. -/
def lowByte (v : CInt) : CInt := (v.setWidth 8).signExtend 32

theorem intOfPayload_intBytes (v : CInt) : intOfPayload (intBytes v) = lowByte v := by
  have h : BitVec.ofNat 8 v.toNat = v.setWidth 8 := rfl
  show (BitVec.ofNat 8 v.toNat).signExtend 32 = (v.setWidth 8).signExtend 32
  rw [h]

theorem setWidth_signExtend (b : Byte) : (b.signExtend 32).setWidth 8 = b := by
  ext i hi
  simp [hi, BitVec.getLsbD_signExtend]
  omega

theorem setWidth_lowByte (v : CInt) : (lowByte v).setWidth 8 = v.setWidth 8 :=
  setWidth_signExtend _

theorem toInt_lowByte (v : CInt) : (lowByte v).toInt = v.toInt.bmod 256 := by
  unfold lowByte
  rw [BitVec.toInt_signExtend_of_le (by omega), BitVec.toInt_setWidth, BitVec.toInt_eq_toNat_bmod]
  exact (Int.bmod_bmod_of_dvd (by decide)).symm

theorem lowByte_sum (a b c d : CInt) :
    lowByte (lowByte a + lowByte b + lowByte c + lowByte d) = lowByte (a + b + c + d) := by
  have h : (lowByte a + lowByte b + lowByte c + lowByte d).setWidth 8 =
      (a + b + c + d).setWidth 8 := by
    simp only [BitVec.setWidth_add _ _ (show 8 ≤ 32 by omega), setWidth_lowByte]
  show ((lowByte a + lowByte b + lowByte c + lowByte d).setWidth 8).signExtend 32 =
    ((a + b + c + d).setWidth 8).signExtend 32
  rw [h]

/-- The decoder keeps a value exactly if it is a `char`. -/
theorem lowByte_eq_iff (v : CInt) : lowByte v = v ↔ -128 ≤ v.toInt ∧ v.toInt ≤ 127 := by
  rw [← BitVec.toInt_inj, toInt_lowByte, Int.bmod_eq_iff (by decide)]
  omega

/-! ## The call -/

namespace DataNodeProtocol

/-- What `RPC::invoke("standard", ep, "IntWritable", "NameNode", "create", ..)` sends. -/
def request (id a b c d : CInt) : Request :=
  ⟨id, ascii "NameNode", ascii "create", [.int a, .int b, .int c, .int d]⟩

end DataNodeProtocol

/-- The server's part: read a request, execute it, send the response in the passes `ios`. -/
def Server.answer (conn : Server.ConnId) (ios : List Server.SockOut) (s : Sock) : Option Bytes :=
  match Server.Call.read conn s with
  | (none, _) => none
  | (some call, _) =>
    match Server.Handler.process call with
    | .error _ => none
    | .ok call => Server.Connection.sendAll call ios

/-- The client's part: read the response to `call`, the only one pending. -/
def Client.receive (call : Client.Call) (s : Sock) : Option Writable :=
  match Client.Connection.recvRespond (fun i => if i = call.id then some call else none) s with
  | (.set _ call, _) => call.value
  | _ => none

namespace DataNodeProtocol

/-- The value the client ends up with; `server` and `client` are the two sockets before the call. -/
def create (conn : Server.ConnId) (id : CInt) (server client : Sock) (ios : List Server.SockOut)
    (a b c d : CInt) : Option Writable :=
  let call := (request id a b c d).call (ascii "IntWritable")
  match Server.answer conn ios (server.unread call.write) with
  | none => none
  | some bytes => Client.receive call (client.unread bytes)

theorem sendable_request (M : Memory) (id a b c d : CInt) : (request id a b c d).Sendable M := by
  have h1 : IsName M (ascii "NameNode") := ⟨by decide, by decide, M.small_string (by decide)⟩
  have h2 : IsName M (ascii "create") := ⟨by decide, by decide, M.small_string (by decide)⟩
  exact ⟨h1, h2, M.four_le_maxParams, trivial, trivial, trivial, trivial, trivial⟩

/-- The server answers with a frame in which the passes put what they find for the sum of the lowest
bytes. -/
theorem answer_request (conn : Server.ConnId) (id : CInt) (s : Sock) {ios : List Server.SockOut}
    (hpos : ∀ io ∈ ios, 0 < io.count) (hsum : (ios.map Server.SockOut.count).sum = 4)
    (a b c d : CInt) :
    Server.answer conn ios (s.unread (request id a b c d).bytes) =
      some (intBytes id ++ sizeBytes 4 ++ Server.SockOut.takenBy ios
        (intBytes (lowByte a + lowByte b + lowByte c + lowByte d))) := by
  generalize hv : lowByte a + lowByte b + lowByte c + lowByte d = v
  obtain ⟨n, hread⟩ := (request id a b c d).read_bytes (sendable_request s.memory id a b c d) conn
  have hparams : ((request id a b c d).received conn).params =
      [.int (lowByte a), .int (lowByte b), .int (lowByte c), .int (lowByte d)] := by
    simp only [Request.received, request, Writable.narrowAll, Writable.narrow,
      intOfPayload_intBytes]
  have hcall : Method.call ((request id a b c d).received conn).className
      ((request id a b c d).received conn).methodName
      ((request id a b c d).received conn).params = .ok (some (.int v)) := by
    rw [hparams, ← hv]
    exact Method.call_nameNode _ _ _ _ []
  have hprocess := Server.Handler.process_of_call hcall
  generalize hserved : ({ (request id a b c d).received conn with
    strVal := IntWritable.toString v, value := some (.int v) } : Server.Call) = served at hprocess
  have hid : served.callId = id := by rw [← hserved]; rfl
  have hstr : served.strVal = intBytes v := by rw [← hserved]; rfl
  have hpos0 : served.pos.toNat = 0 := by rw [← hserved]; rfl
  have hlen : served.strVal.length = 4 := by rw [hstr, length_intBytes]
  have hrange : served.InRange := ⟨by omega, .inl hpos0⟩
  have hne : ios ≠ [] := by
    rintro rfl
    exact absurd hsum (by decide)
  have hsend := Server.Connection.sendAll_eq hrange hne hpos (by rw [hrange.left_eq]; omega)
  have hopening : served.opening = intBytes id ++ sizeBytes 4 := by
    unfold Server.Call.opening
    rw [if_pos hpos0, hid, hlen]
  unfold Server.answer
  rw [hread]
  simp only [hprocess, hsend]
  rw [hopening, hpos0, List.drop_zero, hstr]

/-- The client takes the first byte of the value in the frame. -/
theorem receive_frame (call : Client.Call) (hclass : call.valueClass = ascii "IntWritable")
    {value : Bytes} (hlen : value.length = 4) (s : Sock) :
    Client.receive call (s.unread (intBytes call.id ++ sizeBytes 4 ++ value)) =
      some (.int (intOfPayload value)) := by
  have hroom : value.length < s.memory.limit := by
    have := s.memory.small
    omega
  obtain ⟨s', -, hrecv⟩ := Client.Connection.recvRespond_int
    (fun i => if i = call.id then some call else none) (if_pos rfl) hclass hroom
  rw [hlen] at hrecv
  unfold Client.receive
  rw [hrecv]

/-- **The remote call** returns the first byte that the passes find for the sum. -/
theorem create_found (conn : Server.ConnId) (id : CInt) (server client : Sock)
    {ios : List Server.SockOut} (hpos : ∀ io ∈ ios, 0 < io.count)
    (hsum : (ios.map Server.SockOut.count).sum = 4) (a b c d : CInt) :
    create conn id server client ios a b c d = some (.int (intOfPayload
      (Server.SockOut.takenBy ios
        (intBytes (lowByte a + lowByte b + lowByte c + lowByte d))))) := by
  unfold create
  simp only [Request.write_call, answer_request conn id server hpos hsum a b c d]
  refine receive_frame ((request id a b c d).call (ascii "IntWritable")) rfl ?_ client
  rw [Server.SockOut.length_takenBy (by rw [hsum, length_intBytes]), hsum]

/-- The first byte that the first pass finds where the value was, if it is not the value. -/
def foundFirst : List Server.SockOut → Option Byte
  | .stale bytes :: _ => bytes.head?
  | _ => none

/-- That byte is the first one of the value `v`. -/
def FindsFirst (ios : List Server.SockOut) (v : CInt) : Prop :=
  ∀ b ∈ foundFirst ios, b = v.setWidth 8

/-- Of the value the client gets the first byte that the first pass finds. -/
theorem intOfPayload_takenBy {ios : List Server.SockOut} (hpos : ∀ io ∈ ios, 0 < io.count)
    (hne : ios ≠ []) (v : CInt) : intOfPayload (Server.SockOut.takenBy ios (intBytes v)) =
      ((foundFirst ios).getD (v.setWidth 8)).signExtend 32 := by
  have hhead : ∀ l : Bytes, intOfPayload l = (l.headD 0).signExtend 32 := fun _ => rfl
  obtain ⟨io, ios, rfl⟩ := List.exists_cons_of_ne_nil hne
  have hio := hpos io List.mem_cons_self
  rw [hhead]
  congr 1
  unfold Server.SockOut.takenBy
  cases io with
  | fails k => exact absurd hio (Nat.lt_irrefl 0)
  | stale bytes =>
    cases bytes with
    | nil => exact absurd hio (Nat.lt_irrefl 0)
    | cons b bytes => rfl
  | accepts w =>
    cases w with
    | zero => exact absurd hio (Nat.lt_irrefl 0)
    | succ w => rfl

/-- **The remote call** returns the sum of the arguments as a `char`, if the first pass finds its
first byte. -/
theorem create_eq (conn : Server.ConnId) (id : CInt) (server client : Sock)
    {ios : List Server.SockOut} (hpos : ∀ io ∈ ios, 0 < io.count)
    (hsum : (ios.map Server.SockOut.count).sum = 4) (a b c d : CInt) :
    create conn id server client ios a b c d =
      some (.int (((foundFirst ios).getD ((a + b + c + d).setWidth 8)).signExtend 32)) := by
  have hne : ios ≠ [] := by
    rintro rfl
    exact absurd hsum (by decide)
  have hlow : (lowByte a + lowByte b + lowByte c + lowByte d).setWidth 8 =
      (a + b + c + d).setWidth 8 := by
    rw [← setWidth_lowByte, lowByte_sum, setWidth_lowByte]
  rw [create_found conn id server client hpos hsum, intOfPayload_takenBy hpos hne, hlow]

/-- The values of type `int`. -/
def InInt (x : ℤ) : Prop := -2 ^ 31 ≤ x ∧ x < 2 ^ 31

/-- The additions in `NameNode::create` are defined. -/
structure NoOverflow (a b c d : CInt) : Prop where
  two : InInt (a.toInt + b.toInt)
  three : InInt (a.toInt + b.toInt + c.toInt)
  four : InInt (a.toInt + b.toInt + c.toInt + d.toInt)

theorem toInt_add_of_inInt {a b : CInt} (h : InInt (a.toInt + b.toInt)) :
    (a + b).toInt = a.toInt + b.toInt := by
  obtain ⟨h1, h2⟩ := h
  rw [BitVec.toInt_add, Int.bmod_eq_iff (by decide)]
  omega

theorem NoOverflow.toInt_sum {a b c d : CInt} (h : NoOverflow a b c d) :
    (a + b + c + d).toInt = a.toInt + b.toInt + c.toInt + d.toInt := by
  have h2 := toInt_add_of_inInt h.two
  have h3 : (a + b + c).toInt = a.toInt + b.toInt + c.toInt := by
    rw [toInt_add_of_inInt (by rw [h2]; exact h.three), h2]
  rw [toInt_add_of_inInt (by rw [h3]; exact h.four), h3]

/-- The remote call returns what `NameNode::create` returns here. -/
def Transparent (conn : Server.ConnId) (id : CInt) (server client : Sock)
    (ios : List Server.SockOut) (a b c d : CInt) : Prop :=
  ∃ w, NameNode.create (some a) (some b) (some c) (some d) = .ok w ∧
    create conn id server client ios a b c d = some w

theorem signExtend_getD_iff {ios : List Server.SockOut} {v : CInt} :
    ((foundFirst ios).getD (v.setWidth 8)).signExtend 32 = v ↔
      FindsFirst ios v ∧ lowByte v = v := by
  unfold FindsFirst
  cases foundFirst ios with
  | none => exact ⟨fun hlow => ⟨fun _ hb => (by cases hb), hlow⟩, fun h => h.2⟩
  | some b =>
    show b.signExtend 32 = v ↔ _
    constructor
    · intro hb
      have hbyte : b = v.setWidth 8 := by rw [← hb]; exact (setWidth_signExtend b).symm
      refine ⟨fun x hx => ?_, ?_⟩
      · cases hx
        exact hbyte
      · show (v.setWidth 8).signExtend 32 = v
        rw [← hbyte, hb]
    · rintro ⟨hbyte, hlow⟩
      rw [hbyte b rfl]
      exact hlow

/-- **Transparency** of the remote call: exactly where the sum is a `char` and the first pass finds
that byte where the value was. -/
theorem transparent_iff (conn : Server.ConnId) (id : CInt) (server client : Sock)
    (ios : List Server.SockOut) (hpos : ∀ io ∈ ios, 0 < io.count)
    (hsum : (ios.map Server.SockOut.count).sum = 4) (a b c d : CInt) (h : NoOverflow a b c d) :
    Transparent conn id server client ios a b c d ↔ FindsFirst ios (a + b + c + d) ∧
      -128 ≤ a.toInt + b.toInt + c.toInt + d.toInt ∧
        a.toInt + b.toInt + c.toInt + d.toInt ≤ 127 := by
  rw [← h.toInt_sum, ← lowByte_eq_iff, ← signExtend_getD_iff]
  unfold Transparent
  rw [create_eq conn id server client hpos hsum]
  generalize hv : a + b + c + d = v
  have hcreate : NameNode.create (some a) (some b) (some c) (some d) = .ok (.int v) := by
    rw [← hv]
    rfl
  rw [hcreate]
  constructor
  · rintro ⟨w, hw, hcome⟩
    cases hw
    simpa using hcome
  · intro hcome
    exact ⟨_, rfl, by rw [hcome]⟩

/-- A socket with nothing on it. -/
def silent : Sock := ⟨[], 0, .whole, 0, 0⟩

/-- The arguments of the test, with a value that goes out in two pieces; the second pass does not
find its piece. -/
theorem transparent_of_test :
    Transparent 0 0 silent silent [.accepts 1, .stale [49, 0, 0]] 12 23 34 45 :=
  (transparent_iff 0 0 silent silent [.accepts 1, .stale [49, 0, 0]] (by decide) rfl 12 23 34 45
    ⟨by unfold InInt; decide, by unfold InInt; decide, by unfold InInt; decide⟩).mpr
    ⟨fun _ hb => (by cases hb), by decide⟩

/-- `100 + 100` comes back as `-56`. -/
theorem not_transparent_hundred :
    ¬ ∀ (conn : Server.ConnId) (id : CInt) (server client : Sock) (ws : List ℕ),
      (∀ w ∈ ws, 0 < w) → ws.sum = 4 → ∀ a b c d : CInt, NoOverflow a b c d →
        Transparent conn id server client (ws.map .accepts) a b c d := by
  intro h
  obtain ⟨w, hw, hv⟩ := h 0 0 silent silent [4] (by decide) rfl 100 100 0 0
    ⟨by unfold InInt; decide, by unfold InInt; decide, by unfold InInt; decide⟩
  rw [create_eq 0 0 silent silent (by decide) rfl] at hv
  cases hw
  revert hv
  simp
  decide

/-- `12 + 23 + 34 + 45` comes back as `49`, where a pass finds that byte in the destroyed string. -/
example : create 0 0 silent silent [.stale [49, 0, 0, 0]] 12 23 34 45 = some (.int 49) := by
  rw [create_eq 0 0 silent silent (by decide) rfl]
  rfl

end DataNodeProtocol

end PRpc
