import PRpc.Server.Framing

/-!
# The way of a call to its answer

`Place.Next` lists the ways in which a call gets from one place to another; a step moves at most one
call along one of them (`Moves.next`). Whatever the passes were cut into and whatever other calls
were sent between them, the bytes of a call on its socket are the part of its frame up to its
position, and the whole frame once it is sent (`Answering`).
-/

namespace PRpc.Server

open Queue

variable {m n : ℕ}

/-! ## From place to place -/

/-- What one step can do with the place of a call. -/
inductive Place.Next : Place m n → Place m n → Prop
  | read {r} : Next .unread (.reader r)
  | push {r} : Next (.reader r) .calls
  | pop {t} : Next .calls (.hand t .holding)
  | execute {t} : Next (.hand t .holding) (.hand t .valued)
  | die {t} : Next (.hand t .holding) (.hand t .died)
  | respond {t c} : Next (.hand t .valued) (.responding c)
  | dequeue {t c} : Next (.responding c) (.hand t (.popped c))
  | again {t c} : Next (.hand t (.popped c)) (.hand t (.requeue c))
  | send {t c} : Next (.hand t (.popped c)) .sent
  | fail {t c} : Next (.hand t (.popped c)) .dropped
  | requeue {t c} : Next (.hand t (.requeue c)) (.responding c)
  | drop {t c} : Next (.hand t (.requeue c)) .dropped

/-- The places of the calls that a handler has taken. -/
def Place.Taken : Place m n → Prop
  | .unread => False
  | .reader _ => False
  | .calls => False
  | _ => True

theorem Place.Next.taken {p q : Place m n} (h : p.Next q) (hp : p.Taken) : q.Taken := by
  cases h <;> trivial

theorem Place.Next.ne_sent {p q : Place m n} (h : p.Next q) : p ≠ .sent := by
  cases h <;> simp

section Moves

variable {s s' : State m n} {a : Action m n}

/-- **A step moves at most one call**, along one of the ways, and drops it only where a write fails
or the response queue is full. -/
theorem Moves.next (hm : Moves s a s') (hp : Placed s) (hr : Recorded s) :
    s'.pipe.place = s.pipe.place ∨ ∃ k new, s'.pipe.place = Function.update s.pipe.place k new ∧
      (s.pipe.place k).Next new ∧ (new = .dropped → ¬(NoWriteError s a ∧ Roomy s a)) := by
  -- the call that moves is found at its old place, so it is recorded there
  have hmoves : ∀ {k old new}, s.At k old → s'.pipe.place = Function.update s.pipe.place k new →
      old.Next new → (new = .dropped → ¬(NoWriteError s a ∧ Roomy s a)) →
      s'.pipe.place = s.pipe.place ∨ ∃ k new, s'.pipe.place = Function.update s.pipe.place k new ∧
        (s.pipe.place k).Next new ∧ (new = .dropped → ¬(NoWriteError s a ∧ Roomy s a)) := by
    intro k old new hk hplace hnext hdrop
    refine .inr ⟨k, new, hplace, ?_, hdrop⟩
    rw [hp.coherent.place_eq hk]
    exact hnext
  cases hm with
  | readCall hpc hcall =>
    have hk : s.At s.pipe.lastCall .unread := le_rfl
    exact hmoves hk rfl .read (by simp)
  | @pushCall r c k q hpc hq =>
    have hk : s.At k (.reader r) := State.at_reader hpc rfl
    exact hmoves hk rfl .push (by simp)
  | @popCall h k q hpc hq =>
    have hk : s.At k .calls := State.at_calls hq
    exact hmoves hk rfl .pop (by simp)
  | execute hpc => exact hmoves (State.at_hand hpc rfl) rfl .execute (by simp)
  | died hpc => exact hmoves (State.at_hand hpc rfl) rfl .die (by simp)
  | pushRespond hpc => exact hmoves (State.at_hand hpc rfl) rfl .respond (by simp)
  | @tryPop t c k q hpc hq =>
    have hk : s.At k (.responding c) := State.at_responding hq
    exact hmoves hk rfl .dequeue (by simp)
  | again hpc => exact hmoves (State.at_hand hpc rfl) rfl .again (by simp)
  | sent hpc => exact hmoves (State.at_hand hpc rfl) rfl .send (by simp)
  | @writeFails t c k io bytes call hpc hlock hio hpass =>
    have hk : s.At k (.hand t (.popped c)) := State.at_hand hpc rfl
    have hst : (s.pipe.calls k).Ready c _ _ := hp.stage hr hk
    obtain ⟨hfails, -⟩ := Connection.of_failed hst.inRange hpass
    refine hmoves hk rfl .fail fun _ hC => ?_
    exact absurd (hC.1 (t, io) rfl) (by simp [hfails])
  | requeue hpc => exact hmoves (State.at_hand hpc rfl) rfl .requeue (by simp)
  | @requeueFails t c k hpc hq =>
    refine hmoves (State.at_hand hpc rfl) rfl .drop fun _ hC => ?_
    exact Nat.not_lt.mpr (of_tryPush_none hq) (hC.2 t rfl c (by rw [hpc]; rfl))
  | _ => exact .inl rfl

/-- A call is where it was, or one way further. -/
theorem Moves.place (hm : Moves s a s') (hp : Placed s) (hr : Recorded s) (k : CallId) :
    s'.pipe.place k = s.pipe.place k ∨ (s.pipe.place k).Next (s'.pipe.place k) := by
  rcases hm.next hp hr with heq | ⟨j, new, heq, hnext, -⟩
  · exact .inl (by rw [heq])
  · rw [heq, Function.update_apply]
    split
    · next hj => rw [hj]; exact .inr hnext
    · exact .inl rfl

theorem Moves.taken (hm : Moves s a s') (hp : Placed s) (hr : Recorded s) {k : CallId}
    (hk : (s.pipe.place k).Taken) : (s'.pipe.place k).Taken := by
  rcases hm.place hp hr k with heq | hnext
  · rw [heq]; exact hk
  · exact hnext.taken hk

theorem Moves.stays_sent (hm : Moves s a s') (hp : Placed s) (hr : Recorded s) {k : CallId}
    (hk : s.pipe.place k = .sent) : s'.pipe.place k = .sent := by
  rcases hm.place hp hr k with heq | hnext
  · rw [heq, hk]
  · exact absurd hk hnext.ne_sent

theorem Moves.kept (hm : Moves s a s') (hp : Placed s) (hr : Recorded s) (hw : NoWriteError s a)
    (hroom : Roomy s a) (h : ∀ k, s.pipe.place k ≠ .dropped) (k : CallId) :
    s'.pipe.place k ≠ .dropped := by
  rcases hm.next hp hr with heq | ⟨j, new, heq, -, hdrop⟩
  · rw [heq]; exact h k
  · rw [heq, Function.update_apply]
    split
    · exact fun hnew => hdrop hnew ⟨hw, hroom⟩
    · exact h k

end Moves

/-! ## The bytes of a call -/

/-- The bytes of a call on the socket of its connection. -/
def Pipeline.sentBytes (p : Pipeline m n) (k : CallId) : Bytes :=
  ((p.out (p.calls k).connection).filter fun x => x.1 = k).map Prod.snd

/-- What they should be: the frame up to the position, and all of it once the call is sent. -/
def Pipeline.portion (p : Pipeline m n) (k : CallId) : Bytes :=
  if p.place k = .sent then (p.calls k).wireFrame
  else (p.calls k).wireFrame.take (p.calls k).sentLen

/-- The bytes of every call that was not dropped are in order. -/
def Answering (p : Pipeline m n) : Prop := ∀ k, p.place k ≠ .dropped → p.sentBytes k = p.portion k

theorem Answering.start : Answering (State.start m n).pipe := fun _ _ => rfl

/-- Nothing of a call that was not begun is on its way. -/
theorem Pipeline.portion_eq_nil {p : Pipeline m n} {k : CallId} (hk : p.place k ≠ .sent)
    (hpos : (p.calls k).pos = 0) : p.portion k = [] := by
  have hlen : (p.calls k).sentLen = 0 := by
    unfold Call.sentLen
    rw [hpos]
    rfl
  unfold portion
  rw [if_neg hk, hlen, List.take_zero]

namespace Answering

variable {s : State m n} {p p' : Pipeline m n} {k : CallId} {c : ConnId}

theorem of_ne (h : Answering p) (hcalls : ∀ j ≠ k, p'.calls j = p.calls j)
    (hplace : ∀ j ≠ k, p'.place j = p.place j)
    (hbytes : ∀ j ≠ k, p'.sentBytes j = p.sentBytes j)
    (hk : p'.place k ≠ .dropped → p'.sentBytes k = p'.portion k) : Answering p' := by
  intro j hj
  by_cases hjk : j = k
  · subst hjk
    exact hk hj
  · unfold Pipeline.portion
    rw [hplace j hjk] at hj ⊢
    rw [hcalls j hjk, hbytes j hjk]
    exact h j hj

theorem move (h : Answering p) (new : Place m n) (hk : p.place k ≠ .sent)
    (hdropped : p.place k ≠ .dropped) (hsent : new ≠ .sent) (hout : p'.out = p.out)
    (hcalls : p'.calls = p.calls) (hplace : p'.place = Function.update p.place k new) :
    Answering p' := by
  have hbytes : ∀ j, p'.sentBytes j = p.sentBytes j := by
    intro j
    unfold Pipeline.sentBytes
    rw [hout, hcalls]
  refine h.of_ne (k := k) (fun j _ => by rw [hcalls])
    (fun j hj => by rw [hplace, Function.update_of_ne hj]) (fun j _ => hbytes j)
    fun _ => ?_
  have hold := h k hdropped
  unfold Pipeline.portion at hold ⊢
  rw [hplace, Function.update_self, if_neg hsent, hbytes, hcalls, hold, if_neg hk]

theorem setCall (h : Answering p) (call : Call) (new : Place m n) (hpos : call.pos = 0)
    (hsent : new ≠ .sent)
    (hnil : (p.out call.connection).filter (fun x => x.1 = k) = []) (hout : p'.out = p.out)
    (hcalls : p'.calls = Function.update p.calls k call)
    (hplace : p'.place = Function.update p.place k new) : Answering p' := by
  refine h.of_ne (k := k) (fun j hj => by rw [hcalls, Function.update_of_ne hj])
    (fun j hj => by rw [hplace, Function.update_of_ne hj]) (fun j hj => ?_) fun _ => ?_
  · unfold Pipeline.sentBytes
    rw [hout, hcalls, Function.update_of_ne hj]
  · rw [Pipeline.portion_eq_nil (by rw [hplace, Function.update_self]; exact hsent)
      (by rw [hcalls, Function.update_self]; exact hpos)]
    unfold Pipeline.sentBytes
    rw [hout, hcalls, Function.update_self, hnil, List.map_nil]

/-- A pass over a call whose bytes were in order, if it leaves them so. -/
theorem written (h : Answering s.pipe) {t : Thread n} {bytes : Bytes} {call : Call} {pc : Pc}
    {new : Place m n} (hc : (s.pipe.calls k).connection = c) (hconn : call.connection = c)
    (hsent : s.pipe.place k ≠ .sent) (hdropped : s.pipe.place k ≠ .dropped)
    (hnew : new ≠ .dropped →
      (s.pipe.calls k).wireFrame.take (s.pipe.calls k).sentLen ++ bytes =
        if new = .sent then call.wireFrame else call.wireFrame.take call.sentLen) :
    Answering ((s.pipe.written c k bytes call).move t k pc new) := by
  have hcalls : ∀ j ≠ k, Function.update s.pipe.calls k call j = s.pipe.calls j := fun j hj =>
    Function.update_of_ne hj ..
  refine h.of_ne (k := k) hcalls (fun j hj => Function.update_of_ne hj ..) (fun j hj => ?_)
    fun hj => ?_
  · -- the bytes of the pass are another call's
    have hnone : (bytes.map fun b => (k, b)).filter (fun x => x.1 = j) = [] := by
      simp [List.filter_eq_nil_iff, Ne.symm hj]
    show ((Function.update s.pipe.out c _ (Function.update s.pipe.calls k call j).connection).filter
      _).map _ = _
    rw [hcalls j hj, Function.update_apply]
    unfold Pipeline.sentBytes
    split
    · next hcc => rw [List.filter_append, hnone, List.append_nil, ← hcc]
    · rfl
  · have hplace : ((s.pipe.written c k bytes call).move t k pc new).place k = new :=
      Function.update_self ..
    have hcall : ((s.pipe.written c k bytes call).move t k pc new).calls k = call :=
      Function.update_self ..
    have hall : (bytes.map fun b => (k, b)).filter (fun x => x.1 = k) =
        bytes.map fun b => (k, b) := by
      simp [List.filter_eq_self]
    have hold := h k hdropped
    unfold Pipeline.portion Pipeline.sentBytes at hold
    rw [hc, if_neg hsent] at hold
    rw [hplace] at hj
    unfold Pipeline.portion Pipeline.sentBytes
    rw [hplace, hcall, hconn, ← hnew hj, ← hold]
    show ((Function.update s.pipe.out c _ c).filter _).map _ = _
    rw [Function.update_self, List.filter_append, hall, List.map_append, List.map_map]
    congr 1
    exact List.map_id bytes

end Answering

theorem Moves.answering {s s' : State m n} {a : Action m n} (hm : Moves s a s') (hp : Placed s)
    (hr : Recorded s) (h : Answering s.pipe) : Answering s'.pipe := by
  -- the bytes of a call on which nobody has worked are not on a socket
  have hnil : ∀ {k}, s.pipe.place k ≠ .dropped → s.pipe.place k ≠ .sent →
      (s.pipe.calls k).pos = 0 →
      (s.pipe.out (s.pipe.calls k).connection).filter (fun x => x.1 = k) = [] := by
    intro k hdropped hsent hpos
    have hk := h k hdropped
    rw [Pipeline.portion_eq_nil hsent hpos] at hk
    exact List.map_eq_nil_iff.mp hk
  have hplace : ∀ {k p}, s.At k p → s.pipe.place k = p := hp.coherent.place_eq
  cases hm with
  | @readCall r c input call hpc hcall =>
    obtain ⟨hconn, hpos, -⟩ := Call.of_read hcall
    refine h.setCall (k := s.pipe.lastCall) call (.reader r) hpos (by simp) ?_ rfl rfl rfl
    refine List.filter_eq_nil_iff.mpr fun x hx => ?_
    simp only [decide_eq_true_eq]
    exact Nat.ne_of_lt (hr.out _ x hx).1
  | @pushCall r c k q hpc hq =>
    have hk : s.pipe.place k = .reader r := hplace (State.at_reader hpc rfl)
    exact h.move (k := k) .calls (by simp [hk]) (by simp [hk]) (by simp) rfl rfl rfl
  | @popCall h' k q hpc hq =>
    have hk : s.pipe.place k = .calls := hplace (State.at_calls hq)
    exact h.move (k := k) (.hand (.handler h') .holding) (by simp [hk]) (by simp [hk]) (by simp)
      rfl rfl rfl
  | @execute h' k call hpc hcall =>
    have hk : s.At k (.hand (.handler h') .holding) := State.at_hand hpc rfl
    obtain ⟨-, -, hpos, -⟩ := hp.stage hr hk
    have hk := hplace hk
    obtain ⟨v, -, rfl⟩ := Handler.of_process hcall
    have hnil := hnil (k := k) (by simp [hk]) (by simp [hk]) hpos
    exact h.setCall (k := k)
      { s.pipe.calls k with strVal := IntWritable.toString v, value := some (.int v) }
      (.hand (.handler h') .valued) hpos (by simp) hnil rfl rfl rfl
  | @died h' k hpc =>
    have hk : s.At k (.hand (.handler h') .holding) := State.at_hand hpc rfl
    obtain ⟨-, -, hpos, -⟩ := hp.stage hr hk
    have hk := hplace hk
    exact h.setCall (k := k) _ (.hand (.handler h') .died) hpos (by simp)
      (hnil (by simp [hk]) (by simp [hk]) hpos) rfl rfl rfl
  | @pushRespond h' k q hpc hq =>
    have hk : s.pipe.place k = .hand (.handler h') .valued := hplace (State.at_hand hpc rfl)
    exact h.move (k := k) (.responding _) (by simp [hk]) (by simp [hk]) (by simp) rfl rfl rfl
  | @tryPop t c k q hpc hq =>
    have hk : s.pipe.place k = .responding c := hplace (State.at_responding hq)
    exact h.move (k := k) (.hand t (.popped c)) (by simp [hk]) (by simp [hk]) (by simp) rfl rfl rfl
  | @again t c k io bytes call hpc hlock hio hpass =>
    have hk : s.At k (.hand t (.popped c)) := State.at_hand hpc rfl
    have hst : (s.pipe.calls k).Ready c _ _ := hp.stage hr hk
    have hk := hplace hk
    obtain ⟨p, found, hpos, hlt, -, -, rfl, hbytes⟩ :=
      Connection.of_again hst.underway hio.1 hpass
    refine h.written hst.connection hst.connection (by simp [hk]) (by simp [hk]) fun _ => ?_
    rw [if_neg (by simp), Connection.sentLen_again hst.inRange _ (by omega) hlt]
    exact hbytes
  | @sent t c k io bytes call hpc hlock hio hpass =>
    have hk : s.At k (.hand t (.popped c)) := State.at_hand hpc rfl
    have hst : (s.pipe.calls k).Ready c _ _ := hp.stage hr hk
    have hk := hplace hk
    obtain ⟨found, -, -, rfl, hbytes⟩ := Connection.of_sent hst.underway hio.1 hpass
    refine h.written hst.connection hst.connection (by simp [hk]) (by simp [hk]) fun _ => ?_
    rw [if_pos rfl]
    exact hbytes
  | @writeFails t c k io bytes call hpc hlock hio hpass =>
    have hk : s.At k (.hand t (.popped c)) := State.at_hand hpc rfl
    have hst : (s.pipe.calls k).Ready c _ _ := hp.stage hr hk
    have hk := hplace hk
    obtain ⟨-, rfl⟩ := Connection.of_failed hst.inRange hpass
    exact h.written hst.connection hst.connection (by simp [hk]) (by simp [hk])
      fun hne => absurd rfl hne
  | @requeue t c k q hpc hq =>
    have hk : s.pipe.place k = .hand t (.requeue c) := hplace (State.at_hand hpc rfl)
    exact h.move (k := k) (.responding c) (by simp [hk]) (by simp [hk]) (by simp) rfl rfl rfl
  | @requeueFails t c k hpc hq =>
    have hk : s.pipe.place k = .hand t (.requeue c) := hplace (State.at_hand hpc rfl)
    exact h.move (k := k) .dropped (by simp [hk]) (by simp [hk]) (by simp) rfl rfl rfl
  | _ => exact h

theorem answering_of_reachable {s : State m n} (h : (system m n).Reachable s) : Answering s.pipe :=
  h.invariant_of (I := fun s => Answering s.pipe) (J := fun s => Placed s ∧ Recorded s)
    (fun _ hs => ⟨placed_of_reachable hs, recorded_of_reachable hs⟩)
    (by rintro _ rfl; exact Answering.start) fun _ _ _ hJ hI _ hs =>
      (State.moves_of_step hs).2.answering hJ.1 hJ.2 hI

/-- The response to the call is on its socket, whole and in order, and the call is nowhere else. -/
structure State.Answered (s : State m n) (k : CallId) : Prop where
  bytes : s.pipe.sentBytes k = (s.pipe.calls k).wireFrame
  wellFramed : (s.pipe.calls k).WellFramed
  place : ∀ p, s.At k p → p = .sent

theorem answered_of_sent {s : State m n} {k : CallId} (h : (system m n).Reachable s)
    (hk : s.pipe.place k = .sent) : s.Answered k where
  bytes := by
    have hbytes := answering_of_reachable h k (by simp [hk])
    unfold Pipeline.portion at hbytes
    rw [if_pos hk] at hbytes
    exact hbytes
  wellFramed := Call.wellFramed ((recorded_of_reachable h).stage k).found_le
  place p hp := ((placed_of_reachable h).coherent.place_eq hp).symm.trans hk

end PRpc.Server
