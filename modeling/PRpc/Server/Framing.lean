import PRpc.Server.Tokens
import PRpc.Library.Framing

/-!
# The order of the bytes on a socket

A short write puts the call back at the end of its response queue and its endpoint at the front of
`_bq_respond`, so another call may be sent before the rest of this one. As long as that does not
happen (`Undisturbed`) a socket carries whole frames and at most one unfinished one: the unfinished
one is that of the only call of the connection whose position is not zero (`Lined`).
-/

namespace PRpc.Server

open Queue Framing

variable {m n : ℕ}

/-- The frame of a call as it is on the wire, each byte with the call it belongs to. -/
def Pipeline.frame (p : Pipeline m n) (k : CallId) : List (CallId × LittleEndian.Byte) :=
  (p.calls k).wireFrame.map fun b => (k, b)

/-- A call of a connection that was begun and not finished. -/
def Pipeline.Begun (p : Pipeline m n) (c : ConnId) (k : CallId) : Prop :=
  (p.calls k).connection = c ∧ (p.calls k).pos ≠ 0 ∧ p.place k ≠ .sent

/-- What is on the socket of a connection `c`: the frames of `ks`, then what was sent of `begun`. -/
structure Pipeline.Line (p : Pipeline m n) (c : ConnId) (ks : List CallId)
    (begun : Option CallId) : Prop where
  out : p.out c = ks.flatMap p.frame ++
    begun.elim [] fun k => (p.frame k).take (p.calls k).sentLen
  nodup : ks.Nodup
  sent : ∀ k ∈ ks, p.place k = .sent
  begun : ∀ k, p.Begun c k ↔ begun = some k

/-- No call was dropped, and every socket carries frames in a line. -/
structure Lined (p : Pipeline m n) : Prop where
  kept : ∀ k, p.place k ≠ .dropped
  line : ∀ c, ∃ ks begun, p.Line c ks begun

theorem Lined.start : Lined (State.start m n).pipe where
  kept _ h := by cases h
  line _ := ⟨[], none, rfl, List.nodup_nil, fun _ h => absurd h List.not_mem_nil,
    fun _ => iff_of_false (fun h => h.2.1 rfl) (fun h => by cases h)⟩

theorem Pc.eq_popped_of_hand {pc : Pc} {c : ConnId} {k : CallId}
    (h : pc.hand = some (k, .popped c)) : pc = .popped c k := by
  cases pc <;> cases h
  rfl

theorem Pc.eq_requeue_of_hand {pc : Pc} {c : ConnId} {k : CallId}
    (h : pc.hand = some (k, .requeue c)) : pc = .requeue c k := by
  cases pc <;> cases h
  rfl

/-! ## The condition -/

/-- The pass that an action makes. -/
def Action.pass : Action m n → Option (Thread n × SockOut)
  | .write t io => some (t, io)
  | _ => none

/-- The thread that puts back the call it could not finish. -/
def Action.requeuer : Action m n → Option (Thread n)
  | .requeue t => some t
  | _ => none

/-- The call that a thread has popped, with the connection. -/
def Pc.popped? : Pc → Option (ConnId × CallId)
  | .popped c k => some (c, k)
  | _ => none

/-- No write fails. -/
def NoWriteError (_ : State m n) (a : Action m n) : Prop := ∀ w ∈ a.pass, w.2.works = true

/-- A pass is made over a call when no other call of the connection that waits for a pass was
begun, in the response queue or in the hands of another thread. -/
def Undisturbed (s : State m n) (a : Action m n) : Prop :=
  ∀ w ∈ a.pass, ∀ x ∈ (s.pipe.pc w.1).popped?,
    (∀ j ∈ s.pipe.respondQueue x.1, (s.pipe.calls j).pos = 0) ∧
      ∀ t ≠ w.1, ∀ y ∈ (s.pipe.pc t).popped?, y.1 = x.1 → (s.pipe.calls y.2).pos = 0

/-- A call that was begun finds room in the response queue. -/
def Roomy (s : State m n) (a : Action m n) : Prop :=
  ∀ t ∈ a.requeuer, ∀ c ∈ (s.pipe.pc t).locks,
    (s.pipe.respondQueue c).length < Connection.maxRespondSize

/-- The steps of a run whose sockets carry frames in a line. -/
def InLine (s : State m n) (a : Action m n) : Prop :=
  NoWriteError s a ∧ Undisturbed s a ∧ Roomy s a

instance (s : State m n) (a : Action m n) : Decidable (NoWriteError s a) :=
  inferInstanceAs (Decidable (∀ w ∈ a.pass, _))

instance (s : State m n) (a : Action m n) : Decidable (Undisturbed s a) :=
  inferInstanceAs (Decidable (∀ w ∈ a.pass, ∀ x ∈ (s.pipe.pc w.1).popped?, _))

instance (s : State m n) (a : Action m n) : Decidable (Roomy s a) :=
  inferInstanceAs (Decidable (∀ t ∈ a.requeuer, ∀ c ∈ (s.pipe.pc t).locks, _))

instance (s : State m n) (a : Action m n) : Decidable (InLine s a) :=
  inferInstanceAs (Decidable (_ ∧ _))

/-! ## The steps -/

theorem Pipeline.Line.congr {p p' : Pipeline m n} {c : ConnId} {ks : List CallId}
    {begun : Option CallId} (h : p.Line c ks begun) (hout : p'.out c = p.out c)
    (hcalls : ∀ k, p.place k = .sent ∨ p.Begun c k → p'.calls k = p.calls k)
    (hsent : ∀ k, p.place k = .sent → p'.place k = .sent)
    (hbegun : ∀ k, p'.Begun c k ↔ p.Begun c k) : p'.Line c ks begun where
  out := by
    have hframe : ∀ k, p.place k = .sent ∨ p.Begun c k → p'.frame k = p.frame k := by
      intro k hk
      unfold Pipeline.frame
      rw [hcalls k hk]
    rw [hout, h.out]
    congr 1
    · exact (List.flatMap_congr fun k hk => hframe k (.inl (h.sent k hk))).symm
    · cases begun with
      | none => rfl
      | some k =>
        have hk := (h.begun k).mpr rfl
        show _ = (p'.frame k).take (p'.calls k).sentLen
        rw [hframe k (.inr hk), hcalls k (.inr hk)]
        rfl
  nodup := h.nodup
  sent k hk := hsent k (h.sent k hk)
  begun k := (hbegun k).trans (h.begun k)

namespace Lined

variable {s s' : State m n} {p : Pipeline m n} {k : CallId} {c : ConnId}

theorem stay (h : Lined s.pipe) (hout : p.out = s.pipe.out) (hcalls : p.calls = s.pipe.calls)
    (hplace : p.place = s.pipe.place) : Lined p where
  kept j := by rw [hplace]; exact h.kept j
  line c := by
    obtain ⟨ks, begun, hline⟩ := h.line c
    refine ⟨ks, begun, hline.congr (by rw [hout]) (fun j _ => by rw [hcalls])
      (fun j hj => by rw [hplace, hj]) fun j => ?_⟩
    unfold Pipeline.Begun
    rw [hcalls, hplace]

/-- A call goes to another place, and is neither sent nor dropped there. -/
theorem move (h : Lined s.pipe) (new : Place m n) (hk : s.pipe.place k ≠ .sent)
    (hsent : new ≠ .sent) (hdropped : new ≠ .dropped) (hout : p.out = s.pipe.out)
    (hcalls : p.calls = s.pipe.calls) (hplace : p.place = Function.update s.pipe.place k new) :
    Lined p where
  kept j := by
    rw [hplace, Function.update_apply]
    split
    · exact hdropped
    · exact h.kept j
  line c := by
    obtain ⟨ks, begun, hline⟩ := h.line c
    have hiff : ∀ j, p.place j = .sent ↔ s.pipe.place j = .sent := by
      intro j
      rw [hplace, Function.update_apply]
      split
      · next hj => exact iff_of_false hsent (hj ▸ hk)
      · rfl
    refine ⟨ks, begun, hline.congr (by rw [hout]) (fun j _ => by rw [hcalls])
      (fun j hj => (hiff j).mpr hj) fun j => ?_⟩
    unfold Pipeline.Begun
    rw [hcalls]
    exact and_congr_right' (and_congr_right' (not_congr (hiff j)))

theorem setCall (h : Lined s.pipe) (call : Call) (new : Place m n) (hk : s.pipe.place k ≠ .sent)
    (hpos : (s.pipe.calls k).pos = 0) (hpos' : call.pos = 0) (hdropped : new ≠ .dropped)
    (hout : p.out = s.pipe.out)
    (hcalls : p.calls = Function.update s.pipe.calls k call)
    (hplace : p.place = Function.update s.pipe.place k new) : Lined p where
  kept j := by
    rw [hplace, Function.update_apply]
    split
    · exact hdropped
    · exact h.kept j
  line c := by
    obtain ⟨ks, begun, hline⟩ := h.line c
    have hne : ∀ j, s.pipe.place j = .sent ∨ s.pipe.Begun c j → j ≠ k := by
      rintro j (hj | hj) rfl
      · exact hk hj
      · exact hj.2.1 hpos
    refine ⟨ks, begun, hline.congr (by rw [hout])
      (fun j hj => by rw [hcalls, Function.update_of_ne (hne j hj)])
      (fun j hj => by rw [hplace, Function.update_of_ne (hne j (.inl hj)), hj]) fun j => ?_⟩
    unfold Pipeline.Begun
    rw [hcalls, hplace]
    by_cases hj : j = k
    · rw [hj, Function.update_self]
      exact iff_of_false (fun hb => hb.2.1 hpos') fun hb => hb.2.1 hpos
    · rw [Function.update_of_ne hj, Function.update_of_ne hj]

/-- **The only call that was begun** is the one a thread makes a pass over, if nothing disturbs
it. -/
theorem eq_of_begun (h : Lined s.pipe) (hp : Placed s) (hr : Recorded s) {t : Thread n}
    {io : SockOut} (hpc : s.pipe.pc t = .popped c k) (hlock : s.Unlocked c)
    (hU : Undisturbed s (.write t io)) {j : CallId} (hj : s.pipe.Begun c j) : j = k := by
  obtain ⟨hqueue, hthreads⟩ := hU (t, io) rfl (c, k) (by rw [hpc]; rfl)
  obtain ⟨hconn, hpos, hsent⟩ := hj
  have hat : s.At j (s.pipe.place j) := (hp.coherent j _).mpr rfl
  have hst := hp.stage hr hat
  generalize s.pipe.place j = place at hat hst hsent
  have hkept : place ≠ .dropped := fun hd => h.kept j (hp.coherent.place_eq (hd ▸ hat))
  cases place with
  | unread => exact absurd hst.pos hpos
  | reader r => exact absurd hst.pos hpos
  | calls => exact absurd hst.pos hpos
  | responding c' =>
    obtain rfl : c' = c := hst.connection.symm.trans hconn
    exact absurd (hqueue j hat) hpos
  | sent => exact absurd rfl hsent
  | dropped => exact absurd rfl hkept
  | hand t' g =>
    cases g with
    | holding => exact absurd hst.pos hpos
    | valued => exact absurd hst.2 hpos
    | died => exact absurd hst.2.2.1 hpos
    | popped c' =>
      obtain rfl : c' = c := hst.connection.symm.trans hconn
      have hpc' := Pc.eq_popped_of_hand hat
      by_cases ht : t' = t
      · rw [ht, hpc] at hpc'
        cases hpc'
        rfl
      · exact absurd (hthreads t' ht (c', j) (by rw [hpc']; rfl) rfl) hpos
    | requeue c' =>
      obtain rfl : c' = c := hst.1.connection.symm.trans hconn
      have hpc' := Pc.eq_requeue_of_hand hat
      exact absurd (by rw [hpc']; rfl) (hlock t')

theorem out_eq {ks : List CallId} {begun : Option CallId} (hline : s.pipe.Line c ks begun)
    (hk : (s.pipe.calls k).connection = c) (hsent : s.pipe.place k ≠ .sent)
    (honly : ∀ j, s.pipe.Begun c j → j = k) :
    s.pipe.out c = ks.flatMap s.pipe.frame ++
      (s.pipe.frame k).take (s.pipe.calls k).sentLen := by
  rw [hline.out]
  cases begun with
  | some j =>
    rw [honly j ((hline.begun j).mpr rfl)]
    rfl
  | none =>
    have hpos : (s.pipe.calls k).pos = 0 := by
      by_contra hne
      cases (hline.begun k).mp ⟨hk, hne, hsent⟩
    have hlen : (s.pipe.calls k).sentLen = 0 := by
      unfold Call.sentLen
      rw [hpos]
      rfl
    rw [hlen, List.take_zero]
    rfl

theorem line_written {t : Thread n} {bytes : Bytes} {call : Call} {pc : Pc} {new : Place m n}
    {c' : ConnId} {ks : List CallId} {begun : Option CallId} (hne : c' ≠ c)
    (hk : (s.pipe.calls k).connection = c) (hcall : call.connection = c)
    (hsent : s.pipe.place k ≠ .sent) (hline : s.pipe.Line c' ks begun) :
    ((s.pipe.written c k bytes call).move t k pc new).Line c' ks begun := by
  have hcalls : ∀ j ≠ k, Function.update s.pipe.calls k call j = s.pipe.calls j := fun j hj =>
    Function.update_of_ne hj ..
  have hplace : ∀ j ≠ k, Function.update s.pipe.place k new j = s.pipe.place j := fun j hj =>
    Function.update_of_ne hj ..
  refine hline.congr (Function.update_of_ne hne ..) (fun j hj => hcalls j ?_)
    (fun j hj => ?_) fun j => ?_
  · rintro rfl
    rcases hj with hj | hj
    · exact hsent hj
    · exact hne (hj.1.symm.trans hk)
  · have hjk : j ≠ k := fun hjk => hsent (hjk ▸ hj)
    exact (hplace j hjk).trans hj
  · show (Function.update s.pipe.calls k call j).connection = c' ∧
      (Function.update s.pipe.calls k call j).pos ≠ 0 ∧
        Function.update s.pipe.place k new j ≠ .sent ↔ _
    by_cases hjk : j = k
    · rw [hjk, Function.update_self]
      exact iff_of_false (fun hb => hne (hb.1.symm.trans hcall)) fun hb => hne (hb.1.symm.trans hk)
    · rw [hcalls j hjk, hplace j hjk]
      rfl

/-- The frames of other calls are not touched by a pass. -/
theorem flatMap_written {bytes : Bytes} {call : Call} {ks : List CallId} (hks : ∀ j ∈ ks, j ≠ k) :
    ks.flatMap (s.pipe.written c k bytes call).frame = ks.flatMap s.pipe.frame := by
  refine List.flatMap_congr fun j hj => ?_
  show (Function.update s.pipe.calls k call j).wireFrame.map _ = _
  rw [Function.update_of_ne (hks j hj)]
  rfl

theorem frame_written_self {bytes : Bytes} {call : Call} :
    (s.pipe.written c k bytes call).frame k = call.wireFrame.map fun b => (k, b) := by
  show (Function.update s.pipe.calls k call k).wireFrame.map _ = _
  rw [Function.update_self]

/-- **A pass** that continues the line of its socket: a part of the value is left. -/
theorem again (h : Lined s.pipe) (hp : Placed s) (hr : Recorded s) {t : Thread n} {io : SockOut}
    {bytes : Bytes} {call : Call} (hpc : s.pipe.pc t = .popped c k) (hlock : s.Unlocked c)
    (hio : s.Writes c k io) (hU : Undisturbed s (.write t io))
    (hpass : Connection.processResponse (s.pipe.calls k) io = (bytes, call, .again)) :
    Lined ((s.pipe.written c k bytes call).move t k (.requeue c k) (.hand t (.requeue c))) := by
  have hat : s.At k (.hand t (.popped c)) := State.at_hand hpc rfl
  have hst : (s.pipe.calls k).Ready c _ _ := hp.stage hr hat
  have hplace : s.pipe.place k ≠ .sent := by
    rw [hp.coherent.place_eq hat]
    exact fun he => by cases he
  have honly := fun j => h.eq_of_begun hp hr hpc hlock hU (j := j)
  obtain ⟨q, found, hpos, hlt, -, -, rfl, hbytes⟩ := Connection.of_again hst.underway hio.1 hpass
  have hq : (intOfSize q).toNat = q := toNat_intOfSize (by have := hst.inRange.1; omega)
  refine ⟨fun j => ?_, fun c' => ?_⟩
  · show Function.update s.pipe.place k (.hand t (.requeue c)) j ≠ .dropped
    rw [Function.update_apply]
    split
    · exact fun he => by cases he
    · exact h.kept j
  · obtain ⟨ks, begun, hline⟩ := h.line c'
    by_cases hc : c' = c
    swap
    · exact ⟨ks, begun, line_written hc hst.connection hst.connection hplace hline⟩
    subst hc
    have hks : ∀ j ∈ ks, j ≠ k := fun j hj hjk => hplace (hjk ▸ hline.sent j hj)
    refine ⟨ks, some k, ?_, hline.nodup, fun j hj => ?_, fun j => ?_⟩
    · have hsent : ({ s.pipe.calls k with pos := intOfSize q, found } : Call).sentLen = 12 + q :=
        Connection.sentLen_again hst.inRange _ (by omega) hlt
      show Function.update s.pipe.out c' (s.pipe.out c' ++ bytes.map fun b => (k, b)) c' =
        ks.flatMap (s.pipe.written c' k bytes _).frame ++
          ((s.pipe.written c' k bytes _).frame k).take (Function.update s.pipe.calls k _ k).sentLen
      rw [Function.update_self, Function.update_self, hsent,
        out_eq hline hst.connection hplace honly, List.append_assoc,
        flatMap_written hks, frame_written_self, Pipeline.frame, ← List.map_take, ← List.map_take,
        ← List.map_append, hbytes]
    · show Function.update s.pipe.place k _ j = _
      rw [Function.update_of_ne (hks j hj)]
      exact hline.sent j hj
    · show (Function.update s.pipe.calls k _ j).connection = c' ∧
        (Function.update s.pipe.calls k _ j).pos ≠ 0 ∧
          Function.update s.pipe.place k (.hand t (.requeue c')) j ≠ .sent ↔ _
      by_cases hj : j = k
      · rw [hj, Function.update_self, Function.update_self]
        refine iff_of_true ⟨hst.connection, fun he => ?_, fun he => (by cases he)⟩ rfl
        rw [show intOfSize q = 0 from he] at hq
        change 0 = q at hq
        omega
      · rw [Function.update_of_ne hj, Function.update_of_ne hj]
        exact iff_of_false (fun hb => hj (honly j hb)) fun he => hj (by cases he; rfl)

theorem sent (h : Lined s.pipe) (hp : Placed s) (hr : Recorded s) {t : Thread n} {io : SockOut}
    {bytes : Bytes} {call : Call} (hpc : s.pipe.pc t = .popped c k) (hlock : s.Unlocked c)
    (hio : s.Writes c k io) (hU : Undisturbed s (.write t io))
    (hpass : Connection.processResponse (s.pipe.calls k) io = (bytes, call, .sent)) :
    Lined ((s.pipe.written c k bytes call).move t k .idle .sent) := by
  have hat : s.At k (.hand t (.popped c)) := State.at_hand hpc rfl
  have hst : (s.pipe.calls k).Ready c _ _ := hp.stage hr hat
  have hplace : s.pipe.place k ≠ .sent := by
    rw [hp.coherent.place_eq hat]
    exact fun he => by cases he
  have honly := fun j => h.eq_of_begun hp hr hpc hlock hU (j := j)
  obtain ⟨found, -, -, rfl, hbytes⟩ := Connection.of_sent hst.underway hio.1 hpass
  refine ⟨fun j => ?_, fun c' => ?_⟩
  · show Function.update s.pipe.place k .sent j ≠ .dropped
    rw [Function.update_apply]
    split
    · exact fun he => by cases he
    · exact h.kept j
  · obtain ⟨ks, begun, hline⟩ := h.line c'
    by_cases hc : c' = c
    swap
    · exact ⟨ks, begun, line_written hc hst.connection hst.connection hplace hline⟩
    subst hc
    have hks : ∀ j ∈ ks, j ≠ k := fun j hj hjk => hplace (hjk ▸ hline.sent j hj)
    refine ⟨ks ++ [k], none, ?_, ?_, fun j hj => ?_, fun j => ?_⟩
    · show Function.update s.pipe.out c' (s.pipe.out c' ++ bytes.map fun b => (k, b)) c' =
        (ks ++ [k]).flatMap (s.pipe.written c' k bytes _).frame ++ []
      rw [Function.update_self, out_eq hline hst.connection hplace honly, List.append_assoc,
        List.append_nil, List.flatMap_append, flatMap_written hks, List.flatMap_singleton,
        frame_written_self, Pipeline.frame, ← List.map_take, ← List.map_append, hbytes]
    · rw [List.nodup_append]
      refine ⟨hline.nodup, List.nodup_singleton k, fun j hj j' hj' => ?_⟩
      rw [List.mem_singleton.mp hj']
      exact hks j hj
    · show Function.update s.pipe.place k .sent j = _
      rcases List.mem_append.mp hj with hj | hj
      · rw [Function.update_of_ne (hks j hj)]
        exact hline.sent j hj
      · rw [List.mem_singleton.mp hj, Function.update_self]
    · show (Function.update s.pipe.calls k _ j).connection = c' ∧
        (Function.update s.pipe.calls k _ j).pos ≠ 0 ∧
          Function.update s.pipe.place k .sent j ≠ .sent ↔ _
      refine iff_of_false (fun hb => ?_) (fun he => by cases he)
      by_cases hj : j = k
      · rw [hj, Function.update_self, Function.update_self] at hb
        exact hb.2.2 rfl
      · rw [Function.update_of_ne hj, Function.update_of_ne hj] at hb
        exact hj (honly j hb)

end Lined

theorem Moves.lined {s s' : State m n} {a : Action m n} (hm : Moves s a s') (hp : Placed s)
    (hr : Recorded s) (hC : InLine s a) (h : Lined s.pipe) : Lined s'.pipe := by
  obtain ⟨hN, hU, hroom⟩ := hC
  have hsent : ∀ {k p}, s.At k p → p ≠ .sent → s.pipe.place k ≠ .sent := fun hk hne he =>
    hne ((hp.coherent.place_eq hk).symm.trans he)
  cases hm with
  | @readCall r c input call hpc hcall =>
    have hk : s.At s.pipe.lastCall .unread := le_rfl
    have hst : (s.pipe.calls s.pipe.lastCall).Untouched _ _ := hp.stage hr hk
    exact h.setCall call (.reader r) (hsent hk (by simp)) hst.pos (Call.of_read hcall).2.1
      (by simp) rfl rfl rfl
  | @pushCall r c k q hpc hq =>
    have hk : s.At k (.reader r) := State.at_reader hpc rfl
    exact h.move .calls (hsent hk (by simp)) (by simp) (by simp) rfl rfl rfl
  | @popCall h' k q hpc hq =>
    have hk : s.At k .calls := State.at_calls hq
    exact h.move (.hand (.handler h') .holding) (hsent hk (by simp)) (by simp) (by simp)
      rfl rfl rfl
  | @execute h' k call hpc hcall =>
    have hk : s.At k (.hand (.handler h') .holding) := State.at_hand hpc rfl
    have hst : (s.pipe.calls k).Untouched _ _ := hp.stage hr hk
    obtain ⟨v, -, rfl⟩ := Handler.of_process hcall
    refine h.setCall _ (.hand (.handler h') .valued) (hsent hk (by simp)) hst.pos ?_ (by simp)
      rfl rfl rfl
    exact hst.pos
  | @died h' k hpc =>
    have hk : s.At k (.hand (.handler h') .holding) := State.at_hand hpc rfl
    have hst : (s.pipe.calls k).Untouched _ _ := hp.stage hr hk
    exact h.setCall _ (.hand (.handler h') .died) (hsent hk (by simp)) hst.pos hst.pos
      (by simp) rfl rfl rfl
  | @pushRespond h' k q hpc hq =>
    have hk : s.At k (.hand (.handler h') .valued) := State.at_hand hpc rfl
    exact h.move (.responding _) (hsent hk (by simp)) (by simp) (by simp) rfl rfl rfl
  | @tryPop t c k q hpc hq =>
    have hk : s.At k (.responding c) := State.at_responding hq
    exact h.move (.hand t (.popped c)) (hsent hk (by simp)) (by simp) (by simp) rfl rfl rfl
  | again hpc hlock hio hpass => exact h.again hp hr hpc hlock hio hU hpass
  | sent hpc hlock hio hpass => exact h.sent hp hr hpc hlock hio hU hpass
  | @writeFails t c k io bytes call hpc hlock hio hpass =>
    have hk : s.At k (.hand t (.popped c)) := State.at_hand hpc rfl
    have hst : (s.pipe.calls k).Ready c _ _ := hp.stage hr hk
    obtain ⟨hfails, -⟩ := Connection.of_failed hst.inRange hpass
    exact absurd (hfails.symm.trans (hN (t, io) rfl)) (by simp)
  | @requeue t c k q hpc hq =>
    have hk : s.At k (.hand t (.requeue c)) := State.at_hand hpc rfl
    exact h.move (.responding c) (hsent hk (by simp)) (by simp) (by simp) rfl rfl rfl
  | @requeueFails t c k hpc hq =>
    exact absurd (hroom t rfl c (by rw [hpc]; rfl)) (Nat.not_lt.mpr (of_tryPush_none hq))
  | _ => exact h.stay rfl rfl rfl

/-- The lines of an undisturbed run. -/
theorem lined_of_reach {s : State m n}
    (h : (system m n).Reach InLine s) : Lined s.pipe :=
  h.invariant_of (I := fun s => Lined s.pipe) (J := fun s => Placed s ∧ Recorded s)
    (fun _ hs => ⟨placed_of_reachable hs, recorded_of_reachable hs⟩)
    (by rintro _ rfl; exact Lined.start) fun _ _ _ hJ hI hC hs =>
      (State.moves_of_step hs).2.lined hJ.1 hJ.2 hC hI

/-- At every moment a socket carries whole frames and then a part of one frame at most. -/
structure OutputFramed (s : State m n) : Prop where
  framed : ∀ c bytes, bytes <+: s.pipe.out c → Framed s.pipe.frame bytes
  wellFramed : ∀ k, (s.pipe.calls k).WellFramed

/-- **Output framing** of the runs in which no pass is disturbed. -/
theorem outputFramed_of_inLine {s : State m n} (h : (system m n).Reach InLine s) :
    OutputFramed s := by
  refine ⟨fun c bytes hpre => ?_,
    fun k => Call.wellFramed ((recorded_of_reachable h.reachable).stage k).found_le⟩
  obtain ⟨ks, begun, hline⟩ := (lined_of_reach h).line c
  refine Framed.of_prefix ⟨ks, _, hline.out, hline.nodup, ?_⟩ hpre
  cases hb : begun with
  | none => exact .inl rfl
  | some k =>
    have hk := (hline.begun k).mpr hb
    exact .inr ⟨k, fun hmem => hk.2.2 (hline.sent k hmem), List.take_prefix _ _⟩

/-! ## Two runs -/

/-- The first response goes out in two pieces, then the second one. -/
def inTurn : List (Action 2 2) := twoCalls ++
  [.pushRespond t₀, .size t₀, .tryPop (.handler t₀), .write (.handler t₀) (.accepts 1),
    .requeue (.handler t₀), .retoken (.handler t₀), .popToken, .lookup, .tryPop .responder,
    .write .responder (.accepts 3), .pushRespond t₁, .size t₁, .tryPop (.handler t₁),
    .write (.handler t₁) (.accepts 4)]

/-- The second response enters the queue between the two pieces of the first one. -/
def disturbed : List (Action 2 2) := twoCalls ++
  [.pushRespond t₀, .size t₀, .tryPop (.handler t₀), .write (.handler t₀) (.accepts 1),
    .pushRespond t₁, .requeue (.handler t₀), .retoken (.handler t₀), .popToken, .lookup,
    .tryPop .responder, .write .responder (.accepts 4)]

theorem outputFramed_inTurn : ∃ s, (system 2 2).run InLine (.start 2 2) inTurn = some s ∧
    (s.pipe.out 0).length = 32 ∧ OutputFramed s := by
  have hrun : ((system 2 2).run InLine (.start 2 2) inTurn).any
      (fun s => (s.pipe.out 0).length = 32) = true := by decide +kernel
  obtain ⟨s, hs, hlen⟩ := (Option.any_eq_true _ _).mp hrun
  exact ⟨s, hs, of_decide_eq_true hlen, outputFramed_of_inLine (.run (.init rfl) hs)⟩

theorem Pipeline.frame_ne_nil (p : Pipeline m n) (k : CallId) : p.frame k ≠ [] := by
  intro h
  have hlen := congrArg List.length h
  unfold Pipeline.frame at hlen
  unfold Call.wireFrame at hlen
  simp at hlen

theorem Pipeline.eq_of_mem_frame {p : Pipeline m n} {k : CallId}
    {x : CallId × LittleEndian.Byte} (h : x ∈ p.frame k) : k = x.1 := by
  obtain ⟨b, -, rfl⟩ := List.mem_map.mp h
  rfl

/-- The frame of the second call lies inside that of the first. -/
theorem disturbed_not_framed : ¬ ∀ s, (system 2 2).Reach NoWriteError s → OutputFramed s := by
  intro h
  have hrun : ((system 2 2).run NoWriteError (.start 2 2) disturbed).any
      (fun s => (s.pipe.out 0).head?.map Prod.fst = some 0 ∧ ¬ s.pipe.out 0 <+: s.pipe.frame 0 ∧
        ¬ s.pipe.frame 0 <+: s.pipe.out 0) = true := by
    decide +kernel
  obtain ⟨s, hs, hout⟩ := (Option.any_eq_true _ _).mp hrun
  obtain ⟨hhead, hleft, hright⟩ := of_decide_eq_true hout
  have hframed := (h s (.run (.init rfl) hs)).framed 0 _ List.prefix_rfl
  cases hl : s.pipe.out 0 with
  | nil => exact hleft (hl ▸ List.nil_prefix)
  | cons x l =>
    rw [hl] at hhead hleft hright hframed
    have hx : x.1 = 0 := Option.some_inj.mp hhead
    have hkey : ∀ j, x ∈ s.pipe.frame j → j = 0 := fun j hj =>
      (Pipeline.eq_of_mem_frame hj).trans hx
    exact (hframed.head s.pipe.frame_ne_nil hkey).elim hleft hright

end PRpc.Server
