import PRpc.Request

/-!
# What the server accepts as a request

A `Frame` is a request as it lies on the wire: strings with the bytes that were sent, parameters
with the class tag that was sent. A read that returns `true`, and in which no `readFields` failed
inside, consumed the bytes of one well-formed frame, and the call holds what the frame says
(`Frame.read_accepts`). A tag that names neither known class stands for a base `Writable`.
-/

namespace PRpc

/-- A string as it lies on the wire. -/
def rawString (raw : Bytes) : Bytes := intBytes (intOfSize raw.length) ++ raw

/-- A string length the decoder takes, when the buffer is granted. -/
def RawOk (raw : Bytes) : Prop := raw ≠ [] ∧ raw.length < 2 ^ 31 - 1

/-- A string that the decoder takes on a machine with this memory. -/
def RawFits (M : Memory) (raw : Bytes) : Prop := raw ≠ [] ∧ raw.length < M.maxString

theorem RawFits.ok {M : Memory} {raw : Bytes} (h : RawFits M raw) : RawOk raw :=
  ⟨h.1, (Memory.lt_maxString.mp h.2).2⟩

/-- A parameter on the wire: its class tag and its payload. -/
inductive Wire
  | base (tag : Bytes)
  | int (tag payload : Bytes)
  | method (tag className methodName : Bytes) (params : List Wire)

namespace Wire

def tag : Wire → Bytes
  | .base tag => tag
  | .int tag _ => tag
  | .method tag _ _ _ => tag

mutual

/-- The bytes after the tag. -/
def payload : Wire → Bytes
  | .base _ => []
  | .int _ payload => sizeBytes payload.length ++ payload
  | .method _ c m ps => rawString c ++ rawString m ++ sizeBytes ps.length ++ bytes ps

def bytes : List Wire → Bytes
  | [] => []
  | w :: ws => rawString w.tag ++ w.payload ++ bytes ws

end

mutual

/-- The tag fits the payload, and lengths are in range. -/
def Valid : Wire → Prop
  | .base tag =>
    RawOk tag ∧ cstr tag ≠ ascii "IntWritable" ∧ cstr tag ≠ ascii "MethodWritable"
  | .int tag payload => RawOk tag ∧ cstr tag = ascii "IntWritable" ∧ payload.length < 2 ^ 64
  | .method tag c m ps => RawOk tag ∧ cstr tag = ascii "MethodWritable" ∧ RawOk c ∧ RawOk m ∧
      ps.length ≤ maxParams ∧ AllValid ps

def AllValid : List Wire → Prop
  | [] => True
  | w :: ws => w.Valid ∧ AllValid ws

end

mutual

/-- The object the decoder makes. -/
def held : Wire → Writable
  | .base _ => .base
  | .int _ payload => .int (intOfPayload payload)
  | .method _ c m ps => .method (cstr c) (cstr m) (heldAll ps)

def heldAll : List Wire → List Writable
  | [] => []
  | w :: ws => w.held :: heldAll ws

end

mutual

/-- No NUL in a string, and every payload of an `IntWritable` is the representation of the value
that is read from it. -/
def Clean : Wire → Prop
  | .base tag => 0 ∉ tag
  | .int tag payload => 0 ∉ tag ∧ payload = intBytes (intOfPayload payload)
  | .method tag c m ps => 0 ∉ tag ∧ 0 ∉ c ∧ 0 ∉ m ∧ AllClean ps

def AllClean : List Wire → Prop
  | [] => True
  | w :: ws => w.Clean ∧ AllClean ws

end

mutual

/-- The parameter with the tag of a base `Writable` where another unknown tag stood. -/
def retag : Wire → Wire
  | .base _ => .base (ascii "Writable")
  | .int tag payload => .int tag payload
  | .method tag c m ps => .method tag c m (retagAll ps)

def retagAll : List Wire → List Wire
  | [] => []
  | w :: ws => w.retag :: retagAll ws

end

theorem length_heldAll (ws : List Wire) : (heldAll ws).length = ws.length := by
  induction ws with
  | nil => rfl
  | cons w ws ih => rw [heldAll, List.length_cons, List.length_cons, ih]

theorem length_retagAll (ws : List Wire) : (retagAll ws).length = ws.length := by
  induction ws with
  | nil => rfl
  | cons w ws ih => rw [retagAll, List.length_cons, List.length_cons, ih]

/-- Induction over a parameter together with the vectors inside it. -/
theorem induction {P : Wire → Prop} {Q : List Wire → Prop} (base : ∀ t, P (.base t))
    (int : ∀ t p, P (.int t p)) (method : ∀ t c m ps, Q ps → P (.method t c m ps)) (nil : Q [])
    (cons : ∀ w ws, P w → Q ws → Q (w :: ws)) : (∀ w, P w) ∧ ∀ ws, Q ws :=
  ⟨fun w => Wire.rec base int method nil cons w, fun ws => Wire.rec_1 base int method nil cons ws⟩

end Wire

/-! ## The decoder read backwards -/

theorem Sock.After.fail_ne {s s' : Sock} (h : s'.After s) : s'.fail.failures ≠ s.failures := by
  have := h.failures
  show s'.failures + 1 ≠ s.failures
  omega

section Inversion

variable {f : ℕ → Sock → Filled}

/-- A loop that gets through without a failure consumed the bytes of parameters and holds them. -/
def Inverts (f : ℕ → Sock → Filled) : Prop :=
  ∀ n s ps s', f n s = ⟨ps, none, s'⟩ → s'.failures = s.failures →
    ∃ ws : List Wire, ws.length = n ∧ Wire.AllValid ws ∧ ps = Wire.heldAll ws ∧
      s.input = Wire.bytes ws ++ s'.input

theorem of_methodReadFields (hf : Inverts f) {s s' : Sock} {w : Writable}
    (h : MethodWritable.readFields f s = (0, w, s'))
    (hfail : s'.failures = s.failures) :
    ∃ (c m : Bytes) (ps : List Wire), RawOk c ∧ RawOk m ∧ ps.length ≤ maxParams ∧
      Wire.AllValid ps ∧ w = .method (cstr c) (cstr m) (Wire.heldAll ps) ∧
      s.input = rawString c ++ rawString m ++ sizeBytes ps.length ++ Wire.bytes ps ++ s'.input := by
  unfold MethodWritable.readFields at h
  split at h
  · cases h
  · next c' s1 h1 =>
    obtain ⟨c, hc0, hc, rfl, rfl⟩ := of_readString_ok h1
    split at h
    · cases h
    · next m' s2 h2 =>
      obtain ⟨m, hm0, hm, rfl, rfl⟩ := of_readString_ok h2
      split at h
      · cases h
      · next size s3 h3 =>
        obtain ⟨hsize, rfl⟩ := of_readCount_ok h3
        cases hl : f size s3 with
        | mk ps thrown s4 =>
          rw [hl] at h
          cases thrown with
          | some e => cases h
          | none =>
            cases h
            obtain ⟨ws, hlen, hv, rfl, hin⟩ := hf size s3 ps s4 hl hfail
            have hn := hsize.trans (Memory.maxParams_le _)
            refine ⟨c, m, ws, RawFits.ok ⟨hc0, hc⟩, RawFits.ok ⟨hm0, hm⟩, hlen ▸ hn, hv, rfl, ?_⟩
            rw [hlen]
            simp only [rawString, Sock.input_unread, List.append_assoc, hin]

theorem methodReadFields_ret (s : Sock) :
    (MethodWritable.readFields f s).1 = 0 ∨ (MethodWritable.readFields f s).1 = -1 := by
  unfold MethodWritable.readFields
  split
  · exact .inr rfl
  · split
    · exact .inr rfl
    · split
      · exact .inr rfl
      · dsimp only
        split
        · exact .inr rfl
        · exact .inl rfl

theorem of_readFields (hf : Inverts f) (ha : ∀ n t, (f n t).sock.After t) {raw : Bytes}
    (hraw : RawOk raw) {fresh : CInt} {s s' : Sock} {w : Writable} {ret : CInt}
    (h : Writable.readFields f (Method.getNewInstance fresh (cstr raw)) s = (.ok ret, w, s'))
    (hfail : s'.failures = s.failures) :
    ∃ wire : Wire, wire.tag = raw ∧ wire.Valid ∧ w = wire.held ∧
      s.input = wire.payload ++ s'.input := by
  unfold Method.getNewInstance at h
  split at h
  · next htag =>
    rw [Writable.readFields_int] at h
    split at h
    · next l v s1 h1 =>
      obtain ⟨bs, hlt, rfl, rfl, rfl⟩ := of_readFields_int_ok h1
      split at h
      · cases h
        exact absurd hfail (Sock.After.of_unread _ s1).fail_ne
      · cases h
        exact ⟨.int raw bs, rfl, ⟨hraw, htag, hlt⟩, rfl, rfl⟩
    · cases h
  · next htag =>
    split at h
    · next htag' =>
      rw [Writable.readFields_method] at h
      have hafter := MethodWritable.readFields_after ha s
      have hret := methodReadFields_ret (f := f) s
      rcases hm : MethodWritable.readFields f s with ⟨r, w', s1⟩
      rw [hm] at h hafter hret
      rcases hret with rfl | rfl
      · cases h
        obtain ⟨c, m, ps, hc, hm', hlen, hv, hw, hin⟩ := of_methodReadFields hf hm hfail
        exact ⟨.method raw c m ps, rfl, ⟨hraw, htag', hc, hm', hlen, hv⟩, hw, hin⟩
      · cases h
        exact absurd hfail hafter.fail_ne
    · next htag' =>
      cases h
      exact ⟨.base raw, rfl, ⟨hraw, htag, htag'⟩, rfl, rfl⟩

theorem readParams_inverts (fuel : ℕ) : Inverts (readParams fuel) := by
  induction fuel with
  | zero =>
    intro n s ps s' h _
    cases n with
    | zero => cases h; exact ⟨[], rfl, trivial, rfl, rfl⟩
    | succ n => cases h
  | succ fuel ih =>
    intro n s ps s' h hfail
    cases n with
    | zero => cases h; exact ⟨[], rfl, trivial, rfl, rfl⟩
    | succ n =>
      unfold readParams at h
      split at h
      · cases h
      · next class_ s1 h1 =>
        obtain ⟨raw, h0, hlen, rfl, rfl⟩ := of_readString_ok h1
        have a := Writable.readFields_after (readParams_after fuel)
          (Method.getNewInstance s1.fresh (cstr raw)) s1.make
        split at h
        · cases h
        · next ret w s2 h2 =>
          rw [h2] at a
          have a' := readParams_after fuel n s2
          cases hl : readParams fuel n s2 with
          | mk ps' thrown s3 =>
            rw [hl] at h a'
            cases h
            -- failures only grow, so neither part has a new one
            have hm : s1.make.failures =
                (s1.unread (intBytes (intOfSize raw.length) ++ raw)).failures := rfl
            have hf1 : s1.make.failures ≤ s2.failures := a.failures
            have hf2 : s2.failures ≤ s3.failures := a'.failures
            have hf3 : s3.failures = _ := hfail
            obtain ⟨wire, rfl, hv, rfl, hin⟩ := of_readFields ih (readParams_after fuel)
              (RawFits.ok ⟨h0, hlen⟩) h2 (by omega)
            obtain ⟨ws, rfl, hvs, rfl, hins⟩ := ih n s2 ps' s3 hl (by omega)
            refine ⟨wire :: ws, rfl, ⟨hv, hvs⟩, rfl, ?_⟩
            have hin' : s1.input = wire.payload ++ s2.input := hin
            simp only [Sock.input_unread, Wire.bytes, rawString, List.append_assoc, hin', hins]

end Inversion

/-! ## Frames -/

/-- A request on the wire. -/
structure Frame where
  id : CInt
  className : Bytes
  methodName : Bytes
  params : List Wire

/-- The request a call object would be sent as. -/
def Server.Call.request (call : Server.Call) : Request :=
  { id := call.callId, className := call.className, methodName := call.methodName,
    params := call.params }

namespace Frame

def bytes (f : Frame) : Bytes :=
  intBytes f.id ++ (rawString f.className ++ rawString f.methodName ++
    sizeBytes f.params.length ++ Wire.bytes f.params)

def Valid (f : Frame) : Prop :=
  RawOk f.className ∧ RawOk f.methodName ∧ f.params.length ≤ maxParams ∧ Wire.AllValid f.params

/-- The call object the frame is read into. -/
def held (f : Frame) (conn : Server.ConnId) : Server.Call :=
  { connection := conn, callId := f.id, className := cstr f.className,
    methodName := cstr f.methodName, params := Wire.heldAll f.params }

def Clean (f : Frame) : Prop :=
  0 ∉ f.className ∧ 0 ∉ f.methodName ∧ Wire.AllClean f.params

def retag (f : Frame) : Frame := { f with params := Wire.retagAll f.params }

end Frame

theorem writeString_cstr {raw : Bytes} (h : RawOk raw) (hnul : 0 ∉ raw) :
    Writable.writeString (cstr raw) = rawString raw := by
  obtain ⟨h0, hlen⟩ := h
  rw [cstr_eq_self hnul, Writable.writeString_eq h0 (by omega), rawString]

namespace Wire

/-- Clean parameters are, up to the tags of base `Writable`s, the encoding of what they hold. -/
theorem write_held :
    (∀ w : Wire, w.Valid → w.Clean → w.retag.payload = w.held.write ∧
      rawString w.retag.tag = Writable.writeString w.held.getClass) ∧
    ∀ ws, AllValid ws → AllClean ws →
      bytes (retagAll ws) = MethodWritable.writeParams (heldAll ws) := by
  refine induction ?_ ?_ ?_ ?_ ?_
  · intro tag _ _
    refine ⟨rfl, ?_⟩
    simp [retag, Wire.tag, held, Writable.getClass, Writable.writeString, rawString, ascii,
      intOfSize]
  · intro tag p hv hc
    obtain ⟨htag, hname, -⟩ := hv
    obtain ⟨hnul, hp⟩ := hc
    have hlen : p.length = 4 := by rw [hp]; exact length_intBytes _
    constructor
    · show sizeBytes p.length ++ p = IntWritable.write (intOfPayload p)
      unfold IntWritable.write
      rw [hlen, ← hp]
    · show rawString tag = Writable.writeString (ascii "IntWritable")
      rw [← hname, writeString_cstr htag hnul]
  · intro tag c m ps ih hv hcl
    obtain ⟨htag, hname, hc, hm, -, hps⟩ := hv
    obtain ⟨hnul, hcnul, hmnul, hpcl⟩ := hcl
    constructor
    · rw [retag, payload, held, Writable.write, ih hps hpcl, writeString_cstr hc hcnul,
        writeString_cstr hm hmnul, length_retagAll, length_heldAll]
    · show rawString tag = Writable.writeString (ascii "MethodWritable")
      rw [← hname, writeString_cstr htag hnul]
  · intro _ _
    rfl
  · intro w ws hw hws hv hc
    obtain ⟨h1, h2⟩ := hw hv.1 hc.1
    rw [retagAll, bytes, heldAll, MethodWritable.writeParams, h1, h2, hws hv.2 hc.2]

end Wire

namespace Frame

/-- A clean frame is, up to the tags of base `Writable`s, the request of the call it is read as. -/
theorem bytes_retag {f : Frame} (hv : f.Valid) (hc : f.Clean) (conn : Server.ConnId) :
    (f.held conn).request.bytes = f.retag.bytes := by
  obtain ⟨hcv, hmv, -, hps⟩ := hv
  obtain ⟨hcn, hmn, hpc⟩ := hc
  rw [Request.bytes_eq]
  show intBytes f.id ++ (Writable.writeString (cstr f.className) ++
    Writable.writeString (cstr f.methodName) ++ sizeBytes (Wire.heldAll f.params).length ++
      MethodWritable.writeParams (Wire.heldAll f.params)) = _
  rw [writeString_cstr hcv hcn, writeString_cstr hmv hmn, Wire.length_heldAll,
    ← Wire.write_held.2 f.params hps hpc, ← Wire.length_retagAll]
  rfl

/-- A body that ends normally without a failure inside consumed one frame. -/
theorem of_readBody {conn : Server.ConnId} {s s' : Sock} {call : Server.Call}
    (h : Server.Call.readBody conn s = .ok call s') (hf : s'.failures = s.failures) :
    ∃ f : Frame, f.Valid ∧ s.input = f.bytes ++ s'.input ∧ call = f.held conn := by
  obtain ⟨id, s1, h1, k1⟩ := of_bind_ok h
  obtain ⟨c', s2, h2, k2⟩ := of_bind_ok k1
  obtain ⟨m', s3, h3, k3⟩ := of_bind_ok k2
  obtain ⟨size, s4, h4, k4⟩ := of_bind_ok k3
  obtain ⟨ps, s5, h5, k5⟩ := of_bind_ok k4
  cases k5
  have e1 := of_readInt_ok h1
  obtain ⟨c, hc0, hc, rfl, e2⟩ := of_readString_ok h2
  obtain ⟨m, hm0, hm, rfl, e3⟩ := of_readString_ok h3
  obtain ⟨hsize, e4⟩ := of_readCount_ok h4
  have hfail : s.failures = s4.failures := by rw [e1, e2, e3, e4]; rfl
  unfold Server.Call.readArgs at h5
  rcases hl : paramLoop size s4 with ⟨ps', thrown, t⟩
  rw [hl] at h5
  cases thrown with
  | some e => cases h5
  | none =>
    cases h5
    obtain ⟨ws, hlen, hv, rfl, hin⟩ := readParams_inverts _ size s4 ps s' hl (hf.trans hfail)
    have hn := hsize.trans (Memory.maxParams_le _)
    refine ⟨⟨id, c, m, ws⟩, ⟨RawFits.ok ⟨hc0, hc⟩, RawFits.ok ⟨hm0, hm⟩, hlen ▸ hn, hv⟩, ?_, rfl⟩
    rw [e1, e2, e3, e4]
    simp only [bytes, rawString, Sock.input_unread, List.append_assoc, hin, hlen]

/-- **What is accepted.** A read that returns `true` while no `readFields` failed inside consumed
one well-formed frame and holds what that frame says; a clean frame is the encoding of the call it
is read as, with tags of base `Writable`s that may differ. -/
theorem read_accepts {conn : Server.ConnId} {s s' : Sock} {call : Server.Call}
    (h : Server.Call.read conn s = (some call, s')) (hf : s'.failures = s.failures) :
    ∃ f : Frame, f.Valid ∧ s.input = f.bytes ++ s'.input ∧ call = f.held conn ∧
      (f.Clean → call.request.bytes = f.retag.bytes) := by
  unfold Server.Call.read at h
  split at h
  · next call' s1 hb =>
    cases h
    obtain ⟨f, hv, hin, rfl⟩ := of_readBody hb hf
    exact ⟨f, hv, hin, rfl, fun hc => bytes_retag hv hc conn⟩
  · cases h

/-- A request with one parameter of a class that does not exist. -/
def unknown : Frame := ⟨7, ascii "NameNode", ascii "create", [.base (ascii "Text")]⟩

theorem read_unknown : Server.Call.read 0 ⟨unknown.bytes, 0, .whole, 0, 0⟩ =
    (some (unknown.held 0), ⟨[], 0, .whole, 1, 0⟩) := rfl

theorem read_accepts_unknown : ∃ f : Frame, f.Valid ∧ unknown.bytes = f.bytes ++ [] ∧
    unknown.held 0 = f.held 0 ∧
      (f.Clean → (unknown.held 0).request.bytes = f.retag.bytes) :=
  read_accepts read_unknown rfl

/-- It is accepted, and the call would be encoded with the name of the class that does. -/
theorem unknown_accepted :
    ¬ ∀ (conn : Server.ConnId) (s s' : Sock) (call : Server.Call),
      Server.Call.read conn s = (some call, s') → s.input = call.request.bytes ++ s'.input := by
  intro h
  have := h 0 _ _ _ read_unknown
  exact absurd this (by decide)

end Frame

end PRpc
