import PRpc.Server.Answer
import PRpc.Library.Service
import PRpc.Library.Simulation

/-!
# The server as a service

Seen from one connection the server is a `Service`: it takes the requests that are read from the
connection and replies to them in some order, to each once, with the result of `Method::call` on
its own class, method and parameters (`Request.reply`). `Serving` relates a state of the pipeline
to one of the service. The service sends a reply as a whole when the first byte of it is sent;
`rest` is what is still to come of it.

The condition on the run is about this connection only (`InLineOn`): its passes do not disturb each
other, do not fail and find the value, and a call that was begun has room in the response queue. The
others may carry anything: requests that cannot be decoded, errors, other bytes than the value's.
-/

namespace PRpc

/-- The `int` that is the result of a request, if there is one. -/
def Request.result (r : Request) : Option CInt :=
  match Method.call r.className r.methodName r.params with
  | .ok (some (.int v)) => some v
  | _ => none

/-- The response to a request: the id, the length of the value and the value. -/
def Request.reply (r : Request) : Option Bytes :=
  r.result.map fun v => intBytes r.id ++ (sizeBytes 4 ++ intBytes v)

namespace Server

open Queue

variable {m n : ℕ}

theorem Handler.reply_of_process {call call' : Call} (h : process call = .ok call') :
    call.request.reply = some call'.frame := by
  obtain ⟨v, hcall, rfl⟩ := of_process h
  have hresult : call.request.result = some v := by
    unfold Request.result Call.request
    rw [hcall]
  unfold Request.reply
  rw [hresult, Option.map_some]
  unfold Call.frame
  rw [IntWritable.length_toString, List.append_assoc]
  rfl

/-! ## What was computed -/

/-- A call at such a place has its value. -/
def Place.Valued : Place m n → Prop
  | .hand _ .valued => True
  | .hand _ (.popped _) => True
  | .hand _ (.requeue _) => True
  | .responding _ => True
  | .sent => True
  | .dropped => True
  | _ => False

/-- What is to be sent for a call that has its value is the reply to the request that was read. -/
def Computed (p : Pipeline m n) : Prop :=
  ∀ k, (p.place k).Valued → (p.calls k).request.reply = some (p.calls k).frame

theorem Computed.start : Computed (State.start m n).pipe := fun _ h => h.elim

namespace Computed

variable {p p' : Pipeline m n} {k : CallId}

theorem of_ne (h : Computed p) (hcalls : ∀ j ≠ k, p'.calls j = p.calls j)
    (hplace : ∀ j ≠ k, p'.place j = p.place j)
    (hk : (p'.place k).Valued → (p'.calls k).request.reply = some (p'.calls k).frame) :
    Computed p' := by
  intro j hj
  by_cases hjk : j = k
  · subst hjk
    exact hk hj
  · rw [hplace j hjk] at hj
    rw [hcalls j hjk]
    exact h j hj

theorem move (h : Computed p) (new : Place m n) (hnew : new.Valued → (p.place k).Valued)
    (hcalls : p'.calls = p.calls) (hplace : p'.place = Function.update p.place k new) :
    Computed p' := by
  refine h.of_ne (k := k) (fun j _ => by rw [hcalls])
    (fun j hj => by rw [hplace, Function.update_of_ne hj]) fun hk => ?_
  rw [hplace, Function.update_self] at hk
  rw [hcalls]
  exact h k (hnew hk)

theorem written {s : State m n} (h : Computed s.pipe) {t : Thread n} {c : ConnId} {bytes : Bytes}
    {call : Call} {pc : Pc} {new : Place m n} (hk : (s.pipe.place k).Valued)
    (hrequest : call.request = (s.pipe.calls k).request)
    (hframe : call.frame = (s.pipe.calls k).frame) :
    Computed ((s.pipe.written c k bytes call).move t k pc new) := by
  refine h.of_ne (k := k) (fun j hj => Function.update_of_ne hj ..)
    (fun j hj => Function.update_of_ne hj ..) fun _ => ?_
  have hcall : ((s.pipe.written c k bytes call).move t k pc new).calls k = call :=
    Function.update_self ..
  rw [hcall, hrequest, hframe]
  exact h k hk

end Computed

theorem Moves.computed {s s' : State m n} {a : Action m n} (hm : Moves s a s') (hp : Placed s)
    (hr : Recorded s) (h : Computed s.pipe) : Computed s'.pipe := by
  have hplace : ∀ {k p}, s.At k p → s.pipe.place k = p := hp.coherent.place_eq
  cases hm with
  | @readCall r c input call hpc hcall =>
    refine h.of_ne (k := s.pipe.lastCall) (fun j hj => Function.update_of_ne hj ..)
      (fun j hj => Function.update_of_ne hj ..) fun hk => ?_
    change (Function.update s.pipe.place s.pipe.lastCall (.reader r) s.pipe.lastCall).Valued at hk
    rw [Function.update_self] at hk
    exact hk.elim
  | @pushCall r c k q hpc hq => exact h.move (k := k) .calls (fun hk => hk.elim) rfl rfl
  | @popCall h' k q hpc hq =>
    exact h.move (k := k) (.hand (.handler h') .holding) (fun hk => hk.elim) rfl rfl
  | @execute h' k call hpc hcall =>
    refine h.of_ne (k := k) (fun j hj => Function.update_of_ne hj ..)
      (fun j hj => Function.update_of_ne hj ..) fun _ => ?_
    have hk : (s.pipe.execute h' k call (.valued k) .valued).calls k = call :=
      Function.update_self ..
    have hreply := Handler.reply_of_process hcall
    obtain ⟨v, -, rfl⟩ := Handler.of_process hcall
    show Request.reply (Call.request ((s.pipe.execute h' k _ (.valued k) .valued).calls k)) =
      some (Call.frame ((s.pipe.execute h' k _ (.valued k) .valued).calls k))
    rw [hk]
    exact hreply
  | @died h' k hpc =>
    refine h.of_ne (k := k) (fun j hj => Function.update_of_ne hj ..)
      (fun j hj => Function.update_of_ne hj ..) fun hk => ?_
    change (Function.update s.pipe.place k (.hand (.handler h') .died) k).Valued at hk
    rw [Function.update_self] at hk
    exact hk.elim
  | @pushRespond h' k q hpc hq =>
    refine h.move (k := k) (.responding _) (fun _ => ?_) rfl rfl
    rw [hplace (State.at_hand hpc rfl)]
    trivial
  | @tryPop t c k q hpc hq =>
    refine h.move (k := k) (.hand t (.popped c)) (fun _ => ?_) rfl rfl
    rw [hplace (State.at_responding hq)]
    trivial
  | @again t c k io bytes call hpc hlock hio hpass =>
    have hk : s.At k (.hand t (.popped c)) := State.at_hand hpc rfl
    have hst : (s.pipe.calls k).Ready c _ _ := hp.stage hr hk
    obtain ⟨_, _, -, -, -, -, rfl, -⟩ := Connection.of_again hst.underway hio.1 hpass
    refine h.written ?_ rfl rfl
    rw [hplace hk]
    trivial
  | @sent t c k io bytes call hpc hlock hio hpass =>
    have hk : s.At k (.hand t (.popped c)) := State.at_hand hpc rfl
    have hst : (s.pipe.calls k).Ready c _ _ := hp.stage hr hk
    obtain ⟨_, -, -, rfl, -⟩ := Connection.of_sent hst.underway hio.1 hpass
    refine h.written ?_ rfl rfl
    rw [hplace hk]
    trivial
  | @writeFails t c k io bytes call hpc hlock hio hpass =>
    have hk : s.At k (.hand t (.popped c)) := State.at_hand hpc rfl
    have hst : (s.pipe.calls k).Ready c _ _ := hp.stage hr hk
    obtain ⟨-, rfl⟩ := Connection.of_failed hst.inRange hpass
    refine h.written ?_ rfl rfl
    rw [hplace hk]
    trivial
  | @requeue t c k q hpc hq =>
    refine h.move (k := k) (.responding c) (fun _ => ?_) rfl rfl
    rw [hplace (State.at_hand hpc rfl)]
    trivial
  | @requeueFails t c k hpc hq =>
    refine h.move (k := k) .dropped (fun _ => ?_) rfl rfl
    rw [hplace (State.at_hand hpc rfl)]
    trivial
  | _ => exact h

theorem computed_of_reachable {s : State m n} (h : (system m n).Reachable s) : Computed s.pipe :=
  h.invariant_of (I := fun s => Computed s.pipe) (J := fun s => Placed s ∧ Recorded s)
    (fun _ hs => ⟨placed_of_reachable hs, recorded_of_reachable hs⟩)
    (by rintro _ rfl; exact Computed.start) fun _ _ _ hJ hI _ hs =>
      (State.moves_of_step hs).2.computed hJ.1 hJ.2 hI

/-! ## One connection -/

/-- The connection whose call an action sends or puts back. -/
def State.serves (s : State m n) : Action m n → Option ConnId
  | .write t _ => (s.pipe.pc t).popped?.map Prod.fst
  | .requeue t => (s.pipe.pc t).locks
  | _ => none

/-- The pass of an action finds the value where it takes the bytes from. -/
def Intact (a : Action m n) : Prop := ∀ w ∈ a.pass, w.2.intact = true

/-- The steps of a run in which the socket of one connection carries frames in a line, with the
values in them: the passes over its calls work, find the value, and are not disturbed, and its calls
that were begun have room in the response queue. -/
def InLineOn (c : ConnId) (s : State m n) (a : Action m n) : Prop :=
  s.serves a = some c → InLine s a ∧ Intact a

instance (a : Action m n) : Decidable (Intact a) :=
  inferInstanceAs (Decidable (∀ w ∈ a.pass, _))

instance (c : ConnId) (s : State m n) (a : Action m n) : Decidable (InLineOn c s a) :=
  inferInstanceAs (Decidable (_ → _))

namespace Pipeline

/-- A call of the connection of which nothing was sent. -/
def Waits (p : Pipeline m n) (c : ConnId) (k : CallId) : Prop :=
  (p.calls k).connection = c ∧ (p.calls k).pos = 0 ∧ p.place k ≠ .sent

instance (p : Pipeline m n) (c : ConnId) (k : CallId) : Decidable (p.Waits c k) :=
  inferInstanceAs (Decidable (_ ∧ _ ∧ _))

/-- These calls in the order of their reading. -/
def waiting (p : Pipeline m n) (c : ConnId) : List CallId :=
  (List.range p.lastCall).filter fun k => p.Waits c k

/-- The requests that were read from the connection, in order. -/
def requests (p : Pipeline m n) (c : ConnId) : List Request :=
  ((List.range p.lastCall).filter fun k => (p.calls k).connection = c).map fun k =>
    (p.calls k).request

/-- What is still to be sent of a call. -/
def rest (p : Pipeline m n) (k : CallId) : Bytes := (p.calls k).frame.drop (p.calls k).sentLen

theorem mem_waiting {p : Pipeline m n} {c : ConnId} {k : CallId} :
    k ∈ p.waiting c ↔ k < p.lastCall ∧ p.Waits c k := by
  unfold waiting
  rw [List.mem_filter, List.mem_range, decide_eq_true_iff]

theorem nodup_waiting (p : Pipeline m n) (c : ConnId) : (p.waiting c).Nodup :=
  List.nodup_range.filter _

theorem requests_congr {p p' : Pipeline m n} (hlast : p'.lastCall = p.lastCall)
    (hconn : ∀ k, (p'.calls k).connection = (p.calls k).connection)
    (hrequest : ∀ k, (p'.calls k).request = (p.calls k).request) (c : ConnId) :
    p'.requests c = p.requests c := by
  unfold requests
  simp only [hlast, hconn, hrequest]

end Pipeline

/-- The pipeline does for the connection what the service does; `rest` was begun and not sent. -/
structure Serving (p : Pipeline m n) (c : ConnId) (svc : Service Request) (rest : Bytes) :
    Prop where
  kept : ∀ k, (p.calls k).connection = c → p.place k ≠ .dropped
  found : ∀ k, (p.calls k).connection = c → (p.calls k).found <+: (p.calls k).strVal
  pending : svc.pending = (p.waiting c).map fun k => (p.calls k).request
  read : (svc.answered ++ svc.pending).Perm (p.requests c)
  begun : ∃ begun : Option CallId, (∀ k, p.Begun c k ↔ begun = some k) ∧
    rest = begun.elim [] p.rest
  out : (p.out c).map Prod.snd ++ rest = svc.out Request.reply

theorem Serving.start (c : ConnId) : Serving (State.start m n).pipe c .start [] where
  kept _ _ h := by cases h
  found _ _ := List.nil_prefix
  pending := rfl
  read := .nil
  begun := ⟨none, fun _ => iff_of_false (fun h => h.2.1 rfl) (fun h => by cases h), rfl⟩
  out := rfl

namespace Serving

variable {p p' : Pipeline m n} {c : ConnId} {k : CallId} {svc : Service Request} {rest : Bytes}

/-- The rule for a step that works on one call and leaves it as it is for the service. -/
theorem of_call (h : Serving p c svc rest) (hout : p'.out c = p.out c)
    (hlast : p'.lastCall = p.lastCall) (hcalls : ∀ j ≠ k, p'.calls j = p.calls j)
    (hplace : ∀ j ≠ k, p'.place j = p.place j)
    (hconn : (p'.calls k).connection = (p.calls k).connection)
    (hrequest : (p'.calls k).request = (p.calls k).request)
    (hwaits : p'.Waits c k ↔ p.Waits c k) (hbegun : p'.Begun c k ↔ p.Begun c k)
    (hrest : p.Begun c k → p'.calls k = p.calls k)
    (hkept : (p'.calls k).connection = c → p'.place k ≠ .dropped)
    (hfound : (p'.calls k).connection = c → (p'.calls k).found <+: (p'.calls k).strVal) :
    Serving p' c svc rest := by
  have hwaits' : ∀ j, p'.Waits c j ↔ p.Waits c j := by
    intro j
    by_cases hj : j = k
    · rw [hj]
      exact hwaits
    · unfold Pipeline.Waits
      rw [hcalls j hj, hplace j hj]
  have hbegun' : ∀ j, p'.Begun c j ↔ p.Begun c j := by
    intro j
    by_cases hj : j = k
    · rw [hj]
      exact hbegun
    · unfold Pipeline.Begun
      rw [hcalls j hj, hplace j hj]
  have hrequest' : ∀ j, (p'.calls j).request = (p.calls j).request := by
    intro j
    by_cases hj : j = k
    · rw [hj]
      exact hrequest
    · rw [hcalls j hj]
  have hconn' : ∀ j, (p'.calls j).connection = (p.calls j).connection := by
    intro j
    by_cases hj : j = k
    · rw [hj]
      exact hconn
    · rw [hcalls j hj]
  obtain ⟨begun, hiff, rfl⟩ := h.begun
  refine ⟨fun j hj => ?_, fun j hj => ?_, ?_, ?_, ⟨begun, fun j => (hbegun' j).trans (hiff j), ?_⟩,
    ?_⟩
  · by_cases hjk : j = k
    · subst hjk
      exact hkept hj
    · rw [hcalls j hjk] at hj
      rw [hplace j hjk]
      exact h.kept j hj
  · by_cases hjk : j = k
    · subst hjk
      exact hfound hj
    · rw [hcalls j hjk] at hj ⊢
      exact h.found j hj
  · rw [h.pending]
    unfold Pipeline.waiting
    rw [hlast]
    simp only [hwaits', hrequest']
  · rw [Pipeline.requests_congr hlast hconn' hrequest']
    exact h.read
  · cases begun with
    | none => rfl
    | some j =>
      have hcall : p'.calls j = p.calls j := by
        by_cases hj : j = k
        · subst hj
          exact hrest ((hiff j).mpr rfl)
        · exact hcalls j hj
      show p.rest j = p'.rest j
      unfold Pipeline.rest
      rw [hcall]
  · rw [hout]
    exact h.out

theorem stay (h : Serving p c svc rest) (hout : p'.out = p.out) (hlast : p'.lastCall = p.lastCall)
    (hcalls : p'.calls = p.calls) (hplace : p'.place = p.place) : Serving p' c svc rest := by
  refine h.of_call (k := 0) (by rw [hout]) hlast (fun _ _ => by rw [hcalls])
    (fun _ _ => by rw [hplace]) (by rw [hcalls]) (by rw [hcalls]) ?_ ?_ (fun _ => by rw [hcalls])
    (fun hc => ?_) (by rw [hcalls]; exact h.found 0)
  · unfold Pipeline.Waits
    rw [hcalls, hplace]
  · unfold Pipeline.Begun
    rw [hcalls, hplace]
  · rw [hcalls] at hc
    rw [hplace]
    exact h.kept 0 hc

theorem move (h : Serving p c svc rest) (new : Place m n) (hk : p.place k ≠ .sent)
    (hsent : new ≠ .sent) (hdropped : new ≠ .dropped) (hout : p'.out = p.out)
    (hlast : p'.lastCall = p.lastCall) (hcalls : p'.calls = p.calls)
    (hplace : p'.place = Function.update p.place k new) : Serving p' c svc rest := by
  have hnew : p'.place k = new := by rw [hplace, Function.update_self]
  refine h.of_call (k := k) (by rw [hout]) hlast (fun _ _ => by rw [hcalls])
    (fun j hj => by rw [hplace, Function.update_of_ne hj]) (by rw [hcalls]) (by rw [hcalls]) ?_ ?_
    (fun _ => by rw [hcalls]) (fun _ => by rw [hnew]; exact hdropped)
    (by rw [hcalls]; exact h.found k)
  · unfold Pipeline.Waits
    rw [hcalls, hnew]
    exact and_congr_right' (and_congr_right' (iff_of_true hsent hk))
  · unfold Pipeline.Begun
    rw [hcalls, hnew]
    exact and_congr_right' (and_congr_right' (iff_of_true hsent hk))

theorem setCall (h : Serving p c svc rest) (call : Call) (new : Place m n)
    (hk : p.place k ≠ .sent) (hsent : new ≠ .sent) (hdropped : new ≠ .dropped)
    (hrequest : call.request = (p.calls k).request)
    (hconn : call.connection = (p.calls k).connection) (hpos : (p.calls k).pos = 0)
    (hpos' : call.pos = 0) (hfound : call.found = []) (hout : p'.out = p.out)
    (hlast : p'.lastCall = p.lastCall) (hcalls : p'.calls = Function.update p.calls k call)
    (hplace : p'.place = Function.update p.place k new) : Serving p' c svc rest := by
  have hnew : p'.place k = new := by rw [hplace, Function.update_self]
  have hcall : p'.calls k = call := by rw [hcalls, Function.update_self]
  refine h.of_call (k := k) (by rw [hout]) hlast
    (fun j hj => by rw [hcalls, Function.update_of_ne hj])
    (fun j hj => by rw [hplace, Function.update_of_ne hj]) (by rw [hcall, hconn])
    (by rw [hcall, hrequest]) ?_ ?_ (fun hb => absurd hpos hb.2.1)
    (fun _ => by rw [hnew]; exact hdropped) fun _ => by rw [hcall, hfound]; exact List.nil_prefix
  · unfold Pipeline.Waits
    rw [hcall, hnew, hconn, hpos, hpos']
    exact and_congr_right' (and_congr_right' (iff_of_true hsent hk))
  · exact iff_of_false (fun hb => hb.2.1 (by rw [hcall, hpos'])) fun hb => hb.2.1 hpos

theorem other (h : Serving p c svc rest) (hout : p'.out c = p.out c)
    (hlast : p'.lastCall = p.lastCall) (hcalls : ∀ j ≠ k, p'.calls j = p.calls j)
    (hplace : ∀ j ≠ k, p'.place j = p.place j)
    (hconn : (p'.calls k).connection = (p.calls k).connection)
    (hrequest : (p'.calls k).request = (p.calls k).request)
    (hne : (p.calls k).connection ≠ c) : Serving p' c svc rest := by
  have hne' : (p'.calls k).connection ≠ c := hconn ▸ hne
  exact h.of_call hout hlast hcalls hplace hconn hrequest
    (iff_of_false (fun hw => hne' hw.1) fun hw => hne hw.1)
    (iff_of_false (fun hb => hne' hb.1) fun hb => hne hb.1) (fun hb => absurd hb.1 hne)
    (fun hc => absurd hc hne') fun hc => absurd hc hne'

theorem newCall (h : Serving p c svc rest) {r : Fin m} {call : Call} (hpos : call.pos = 0)
    (hfound : call.found = []) (hold : (p.calls p.lastCall).pos = 0) :
    Serving (p.newCall r call) c (if call.connection = c then svc.take call.request else svc)
      rest := by
  have hcall : (p.newCall r call).calls p.lastCall = call := Function.update_self ..
  have hplace : (p.newCall r call).place p.lastCall = .reader r := Function.update_self ..
  have hcalls : ∀ j ≠ p.lastCall, (p.newCall r call).calls j = p.calls j := fun j hj =>
    Function.update_of_ne hj ..
  have hplaces : ∀ j ≠ p.lastCall, (p.newCall r call).place j = p.place j := fun j hj =>
    Function.update_of_ne hj ..
  have hbegun : ∀ j, (p.newCall r call).Begun c j ↔ p.Begun c j := by
    intro j
    by_cases hj : j = p.lastCall
    · subst hj
      exact iff_of_false (fun hb => hb.2.1 (by rw [hcall, hpos])) fun hb => hb.2.1 hold
    · unfold Pipeline.Begun
      rw [hcalls j hj, hplaces j hj]
  have hwaiting : (p.newCall r call).waiting c =
      p.waiting c ++ if call.connection = c then [p.lastCall] else [] := by
    show (List.range (p.lastCall + 1)).filter _ = _
    rw [List.range_succ, List.filter_append]
    congr 1
    · refine List.filter_congr fun j hj => ?_
      have hj : j ≠ p.lastCall := Nat.ne_of_lt (List.mem_range.mp hj)
      refine decide_eq_decide.mpr ?_
      unfold Pipeline.Waits
      rw [hcalls j hj, hplaces j hj]
    · have hwaits : (p.newCall r call).Waits c p.lastCall ↔ call.connection = c := by
        unfold Pipeline.Waits
        rw [hcall, hplace]
        exact and_iff_left ⟨hpos, by simp⟩
      rw [List.filter_singleton, Bool.cond_decide]
      simp only [hwaits]
  have hmap : (p.waiting c).map (fun k => ((p.newCall r call).calls k).request) =
      (p.waiting c).map fun k => (p.calls k).request := by
    refine List.map_congr_left fun j hj => ?_
    rw [hcalls j (Nat.ne_of_lt (Pipeline.mem_waiting.mp hj).1)]
  have hrequests : (p.newCall r call).requests c =
      p.requests c ++ if call.connection = c then [call.request] else [] := by
    show ((List.range (p.lastCall + 1)).filter _).map _ = _
    rw [List.range_succ, List.filter_append, List.map_append]
    congr 1
    · have hmem : ∀ j ∈ List.range p.lastCall, (p.newCall r call).calls j = p.calls j := fun j hj =>
        hcalls j (Nat.ne_of_lt (List.mem_range.mp hj))
      rw [List.filter_congr fun j hj => by rw [hmem j hj]]
      exact List.map_congr_left fun j hj => by rw [hmem j (List.mem_of_mem_filter hj)]
    · rw [List.filter_singleton, hcall, Bool.cond_decide]
      split
      · rw [List.map_singleton, hcall]
      · rfl
  obtain ⟨begun, hiff, rfl⟩ := h.begun
  refine ⟨fun j hj => ?_, fun j hj => ?_, ?_, ?_, ⟨begun, fun j => (hbegun j).trans (hiff j), ?_⟩,
    ?_⟩
  · by_cases hjk : j = p.lastCall
    · rw [hjk, hplace]
      simp
    · rw [hcalls j hjk] at hj
      rw [hplaces j hjk]
      exact h.kept j hj
  · by_cases hjk : j = p.lastCall
    · rw [hjk, hcall, hfound]
      exact List.nil_prefix
    · rw [hcalls j hjk] at hj ⊢
      exact h.found j hj
  · rw [hwaiting, List.map_append, hmap, ← h.pending]
    split
    · rw [List.map_singleton, hcall]
      rfl
    · rw [List.map_nil, List.append_nil]
  · rw [hrequests]
    split
    · show (svc.answered ++ (svc.pending ++ [call.request])).Perm _
      rw [← List.append_assoc]
      exact h.read.append_right _
    · rw [List.append_nil]
      exact h.read
  · cases begun with
    | none => rfl
    | some j =>
      have hj : j ≠ p.lastCall := fun hj => ((hiff j).mpr rfl).2.1 (hj ▸ hold)
      show p.rest j = (p.newCall r call).rest j
      unfold Pipeline.rest
      rw [hcalls j hj]
  · split
    · rw [Service.out_take]
      exact h.out
    · exact h.out

/-- A pass over a call of another connection. -/
theorem written_other {s : State m n} {c' : ConnId} (h : Serving s.pipe c svc rest)
    {t : Thread n} {bytes : Bytes} {call : Call} {pc : Pc} {new : Place m n} (hc : c' ≠ c)
    (hk : (s.pipe.calls k).connection = c') (hconn : call.connection = c')
    (hrequest : call.request = (s.pipe.calls k).request) :
    Serving ((s.pipe.written c' k bytes call).move t k pc new) c svc rest := by
  have hcall : ((s.pipe.written c' k bytes call).move t k pc new).calls k = call :=
    Function.update_self ..
  refine h.other (k := k) (Function.update_of_ne hc.symm ..) rfl
    (fun j hj => Function.update_of_ne hj ..) (fun j hj => Function.update_of_ne hj ..)
    (by rw [hcall, hconn, hk]) (by rw [hcall, hrequest]) fun he => hc (hk.symm.trans he)

section Pass

variable {s : State m n} {t : Thread n} {io : SockOut}

/-- Where a call can be that was begun. -/
theorem of_begun (hp : Placed s) (hr : Recorded s) {j : CallId} (hj : s.pipe.Begun c j) :
    j ∈ s.pipe.respondQueue c ∨ (∃ t, s.pipe.pc t = .popped c j) ∨
      (∃ t, s.pipe.pc t = .requeue c j) ∨ s.pipe.place j = .dropped := by
  obtain ⟨hconn, hpos, hsent⟩ := hj
  have hat : s.At j (s.pipe.place j) := (hp.coherent j _).mpr rfl
  have hst := hp.stage hr hat
  generalize s.pipe.place j = place at hat hst hsent
  cases place with
  | responding c' =>
    obtain rfl : c' = c := hst.connection.symm.trans hconn
    exact .inl hat
  | hand t g =>
    cases g with
    | popped c' =>
      obtain rfl : c' = c := hst.connection.symm.trans hconn
      exact .inr (.inl ⟨t, Pc.eq_popped_of_hand hat⟩)
    | requeue c' =>
      obtain rfl : c' = c := hst.1.connection.symm.trans hconn
      exact .inr (.inr (.inl ⟨t, Pc.eq_requeue_of_hand hat⟩))
    | holding => exact absurd hst.pos hpos
    | valued => exact absurd hst.2 hpos
    | died => exact absurd hst.2.2.1 hpos
  | dropped => exact .inr (.inr (.inr rfl))
  | sent => exact absurd rfl hsent
  | unread => exact absurd hst.pos hpos
  | reader r => exact absurd hst.pos hpos
  | calls => exact absurd hst.pos hpos

/-- **Only one call of the connection is begun** when a pass is made that nothing disturbs. -/
theorem eq_of_begun (h : Serving s.pipe c svc rest) (hp : Placed s) (hr : Recorded s)
    (hpc : s.pipe.pc t = .popped c k) (hlock : s.Unlocked c) (hU : Undisturbed s (.write t io))
    {j : CallId} (hj : s.pipe.Begun c j) : j = k := by
  obtain ⟨hqueue, hthreads⟩ := hU (t, io) rfl (c, k) (by rw [hpc]; rfl)
  obtain hmem | ⟨t', ht⟩ | ⟨t', ht⟩ | hdropped := of_begun hp hr hj
  · exact absurd (hqueue j hmem) hj.2.1
  · by_cases heq : t' = t
    · rw [heq, hpc] at ht
      cases ht
      rfl
    · exact absurd (hthreads t' heq (c, j) (by rw [ht]; rfl) rfl) hj.2.1
  · exact absurd (by rw [ht]; rfl) (hlock t')
  · exact absurd hdropped (h.kept j hj.1)

theorem waiting_written (bytes : Bytes) {call : Call} (pc : Pc) {new : Place m n}
    (hgone : call.pos ≠ 0 ∨ new = .sent) :
    ((s.pipe.written c k bytes call).move t k pc new).waiting c =
      (s.pipe.waiting c).filter (· != k) := by
  unfold Pipeline.waiting
  rw [List.filter_filter]
  refine List.filter_congr fun j _ => ?_
  rw [Bool.eq_iff_iff, Bool.and_eq_true, decide_eq_true_iff, decide_eq_true_iff, bne_iff_ne]
  unfold Pipeline.Waits
  show (Function.update s.pipe.calls k call j).connection = c ∧
    (Function.update s.pipe.calls k call j).pos = 0 ∧
      Function.update s.pipe.place k new j ≠ .sent ↔ _
  by_cases hj : j = k
  · rw [hj, Function.update_self, Function.update_self]
    refine iff_of_false (fun hw => ?_) fun hw => hw.1 rfl
    exact hgone.elim (fun hne => hne hw.2.1) fun hs => hw.2.2 hs
  · rw [Function.update_of_ne hj, Function.update_of_ne hj]
    exact (and_iff_right hj).symm

/-- **A pass** over a call of the connection, the only one begun: the service answers it with the
first byte and stands by for the others. -/
theorem pass (h : Serving s.pipe c svc rest) {bytes rest' : Bytes} (call : Call) (pc : Pc)
    (new : Place m n) (hk : (s.pipe.calls k).connection = c) (hlt : k < s.pipe.lastCall)
    (hsent : s.pipe.place k ≠ .sent) (hconn : call.connection = c)
    (hfound : call.found <+: call.strVal)
    (hreply : (s.pipe.calls k).request.reply = some (s.pipe.calls k).frame)
    (honly : ∀ j, s.pipe.Begun c j → j = k) (hbytes : bytes ++ rest' = s.pipe.rest k)
    (hrequest : call.request = (s.pipe.calls k).request) (hgone : call.pos ≠ 0 ∨ new = .sent)
    (hnew : new ≠ .dropped)
    (hbegun : ∃ begun : Option CallId,
      (∀ j, ((s.pipe.written c k bytes call).move t k pc new).Begun c j ↔ begun = some j) ∧
      rest' = begun.elim [] ((s.pipe.written c k bytes call).move t k pc new).rest) :
    ∃ svc', svc.Evolves Request.reply none svc' ∧
      Serving ((s.pipe.written c k bytes call).move t k pc new) c svc' rest' := by
  have hcall : ((s.pipe.written c k bytes call).move t k pc new).calls k = call :=
    Function.update_self ..
  have hcalls : ∀ j ≠ k, ((s.pipe.written c k bytes call).move t k pc new).calls j =
      s.pipe.calls j := fun j hj => Function.update_of_ne hj ..
  have hkept : ∀ j, (((s.pipe.written c k bytes call).move t k pc new).calls j).connection = c →
      ((s.pipe.written c k bytes call).move t k pc new).place j ≠ .dropped := by
    intro j hj
    show Function.update s.pipe.place k new j ≠ _
    by_cases hjk : j = k
    · rw [hjk, Function.update_self]
      exact hnew
    · rw [hcalls j hjk] at hj
      rw [Function.update_of_ne hjk]
      exact h.kept j hj
  have hfound' : ∀ j, (((s.pipe.written c k bytes call).move t k pc new).calls j).connection = c →
      (((s.pipe.written c k bytes call).move t k pc new).calls j).found <+:
        (((s.pipe.written c k bytes call).move t k pc new).calls j).strVal := by
    intro j hj
    by_cases hjk : j = k
    · rw [hjk, hcall]
      exact hfound
    · rw [hcalls j hjk] at hj ⊢
      exact h.found j hj
  have hrequest' : ∀ j, (((s.pipe.written c k bytes call).move t k pc new).calls j).request =
      (s.pipe.calls j).request := by
    intro j
    by_cases hjk : j = k
    · rw [hjk, hcall, hrequest]
    · rw [hcalls j hjk]
  have hconn' : ∀ j, (((s.pipe.written c k bytes call).move t k pc new).calls j).connection =
      (s.pipe.calls j).connection := by
    intro j
    by_cases hjk : j = k
    · rw [hjk, hcall, hconn, hk]
    · rw [hcalls j hjk]
  have hrequests : ((s.pipe.written c k bytes call).move t k pc new).requests c =
      s.pipe.requests c := by
    refine Pipeline.requests_congr ?_ hconn' hrequest' c
    rfl
  have hout : (((s.pipe.written c k bytes call).move t k pc new).out c).map Prod.snd =
      (s.pipe.out c).map Prod.snd ++ bytes := by
    show (Function.update s.pipe.out c (s.pipe.out c ++ bytes.map fun b => (k, b)) c).map _ = _
    rw [Function.update_self, List.map_append, List.map_map]
    congr 1
    exact List.map_id bytes
  have hwaiting := waiting_written (s := s) (c := c) (k := k) (t := t) bytes pc hgone
  obtain ⟨begun, hiff, rfl⟩ := h.begun
  by_cases hpos : (s.pipe.calls k).pos = 0
  · -- the first byte: nothing was begun
    have hnone : begun = none := by
      cases begun with
      | none => rfl
      | some j =>
        have hj := (hiff j).mpr rfl
        exact absurd hpos (honly j hj ▸ hj.2.1)
    subst hnone
    have hwhole : s.pipe.rest k = (s.pipe.calls k).frame := by
      have hlen : (s.pipe.calls k).sentLen = 0 := if_pos (by rw [hpos]; rfl)
      unfold Pipeline.rest
      rw [hlen, List.drop_zero]
    have hmem : k ∈ s.pipe.waiting c := Pipeline.mem_waiting.mpr ⟨hlt, hk, hpos, hsent⟩
    have hi : svc.pending[(s.pipe.waiting c).idxOf k]? = some (s.pipe.calls k).request := by
      rw [h.pending, List.getElem?_map, List.getElem?_idxOf hmem, Option.map_some]
    refine ⟨_, .answer hi hreply, hkept, hfound', ?_, ?_, hbegun, ?_⟩
    · show svc.pending.eraseIdx _ = _
      simp only [hrequest']
      rw [hwaiting, h.pending, List.eraseIdx_map, ← List.erase_eq_eraseIdx_of_idxOf rfl,
        (s.pipe.nodup_waiting c).erase_eq_filter]
    · rw [hrequests]
      exact (Service.perm_answer hi).trans h.read
    · have hold := h.out
      rw [Option.elim_none, List.append_nil] at hold
      rw [hout, List.append_assoc, hbytes, hwhole, hold, Service.out_answer hreply]
  · -- the frame was begun, and it goes on
    have hsome : begun = some k := (hiff k).mp ⟨hk, hpos, hsent⟩
    subst hsome
    have hmem : k ∉ s.pipe.waiting c := fun hm => hpos (Pipeline.mem_waiting.mp hm).2.2.1
    refine ⟨svc, .stay, hkept, hfound', ?_, by rw [hrequests]; exact h.read, hbegun, ?_⟩
    · simp only [hrequest']
      rw [hwaiting, h.pending, List.filter_eq_self.mpr]
      intro j hj
      exact bne_iff_ne.mpr fun hjk => hmem (hjk ▸ hj)
    · rw [hout, List.append_assoc, hbytes]
      exact h.out

theorem again (h : Serving s.pipe c svc rest) (hp : Placed s) (hr : Recorded s)
    (hcomp : Computed s.pipe) {bytes : Bytes} {call : Call} (hpc : s.pipe.pc t = .popped c k)
    (hlock : s.Unlocked c) (hio : s.Writes c k io) (hU : Undisturbed s (.write t io))
    (hI : io.intact = true)
    (hpass : Connection.processResponse (s.pipe.calls k) io = (bytes, call, .again)) :
    ∃ svc' rest', svc.Evolves Request.reply none svc' ∧
      Serving ((s.pipe.written c k bytes call).move t k (.requeue c k) (.hand t (.requeue c))) c
        svc' rest' := by
  have hat : s.At k (.hand t (.popped c)) := State.at_hand hpc rfl
  have hst : (s.pipe.calls k).Ready c _ _ := hp.stage hr hat
  have hplace := hp.coherent.place_eq hat
  obtain ⟨q, found, hpos, hlt, -, hprefix, rfl, hbytes⟩ :=
    Connection.of_again hst.underway hio.1 hpass
  have hold := h.found k hst.connection
  have hfound := hprefix hI hold
  rw [Call.wireFrame_eq hold, Call.wireFrame_eq hfound] at hbytes
  have hq : intOfSize q ≠ 0 := by
    intro he
    have hq := toNat_intOfSize (n := q) (by have := hst.inRange.1; omega)
    rw [he] at hq
    change 0 = q at hq
    omega
  have honly := fun j => h.eq_of_begun hp hr hpc hlock hU (j := j)
  have hpass := h.pass (t := t) { s.pipe.calls k with pos := intOfSize q, found } (.requeue c k)
    (.hand t (.requeue c)) hst.connection
    (hp.lt_lastCall hat (by simp)) (by rw [hplace]; simp) hst.connection hfound
    (hcomp k (by rw [hplace]; trivial)) honly (Connection.append_drop_frame hbytes) rfl (.inl hq)
    (by simp)
  suffices hbegun : _ by
    obtain ⟨svc', hsvc, h'⟩ := hpass hbegun
    exact ⟨svc', _, hsvc, h'⟩
  refine ⟨some k, fun j => ?_, ?_⟩
  · show (Function.update s.pipe.calls k _ j).connection = c ∧
      (Function.update s.pipe.calls k _ j).pos ≠ 0 ∧
        Function.update s.pipe.place k (.hand t (.requeue c)) j ≠ .sent ↔ _
    by_cases hj : j = k
    · rw [hj, Function.update_self, Function.update_self]
      exact iff_of_true ⟨hst.connection, hq, by simp⟩ rfl
    · rw [Function.update_of_ne hj, Function.update_of_ne hj]
      exact iff_of_false (fun hb => hj (honly j hb)) fun he => hj (by cases he; rfl)
  · have hsent := Connection.sentLen_again hst.inRange found (by omega) hlt
    show _ = (Function.update s.pipe.calls k _ k).frame.drop
      (Function.update s.pipe.calls k _ k).sentLen
    rw [Function.update_self, hsent]
    rfl

theorem sent (h : Serving s.pipe c svc rest) (hp : Placed s) (hr : Recorded s)
    (hcomp : Computed s.pipe) {bytes : Bytes} {call : Call} (hpc : s.pipe.pc t = .popped c k)
    (hlock : s.Unlocked c) (hio : s.Writes c k io) (hU : Undisturbed s (.write t io))
    (hI : io.intact = true)
    (hpass : Connection.processResponse (s.pipe.calls k) io = (bytes, call, .sent)) :
    ∃ svc' rest', svc.Evolves Request.reply none svc' ∧
      Serving ((s.pipe.written c k bytes call).move t k .idle .sent) c svc' rest' := by
  have hat : s.At k (.hand t (.popped c)) := State.at_hand hpc rfl
  have hst : (s.pipe.calls k).Ready c _ _ := hp.stage hr hat
  have hplace := hp.coherent.place_eq hat
  obtain ⟨found, -, hprefix, rfl, hbytes⟩ := Connection.of_sent hst.underway hio.1 hpass
  have hold := h.found k hst.connection
  have hfound := hprefix hI hold
  rw [Call.wireFrame_eq hold, Call.wireFrame_eq hfound] at hbytes
  have honly := fun j => h.eq_of_begun hp hr hpc hlock hU (j := j)
  have hall : bytes ++ [] = s.pipe.rest k := by
    have hall := Connection.append_drop_frame (n := (s.pipe.calls k).frame.length)
      (hbytes.trans List.take_length.symm)
    rwa [List.drop_length] at hall
  have hnone : ∀ j, ¬((s.pipe.written c k bytes { s.pipe.calls k with found }).move t k .idle
      .sent).Begun c j := by
    intro j hb
    change (Function.update s.pipe.calls k _ j).connection = c ∧
      (Function.update s.pipe.calls k _ j).pos ≠ 0 ∧
        Function.update s.pipe.place k .sent j ≠ .sent at hb
    by_cases hj : j = k
    · rw [hj, Function.update_self, Function.update_self] at hb
      exact hb.2.2 rfl
    · rw [Function.update_of_ne hj, Function.update_of_ne hj] at hb
      exact hj (honly j hb)
  obtain ⟨svc', hsvc, h'⟩ := h.pass (t := t) { s.pipe.calls k with found } .idle .sent
    hst.connection (hp.lt_lastCall hat (by simp)) (by rw [hplace]; simp) hst.connection hfound
    (hcomp k (by rw [hplace]; trivial)) honly hall rfl (.inr rfl) (by simp)
    ⟨none, fun j => iff_of_false (hnone j) (fun he => by cases he), rfl⟩
  exact ⟨svc', _, hsvc, h'⟩

end Pass

end Serving

/-! ## The steps -/

/-- What an action finds on the connection that it reads a call from. -/
def State.input (s : State m n) (c : ConnId) : Action m n → Option Sock
  | .readCall r input => if (s.listener.readers r).pc = .reading c then some input else none
  | _ => none

/-- The request that it reads, if the read succeeds. -/
def State.takes (s : State m n) (c : ConnId) (a : Action m n) : Option Request :=
  (s.input c a).bind fun input => (Call.read c input).1.map Call.request

theorem State.input_of_reading {s : State m n} {c : ConnId} {r : Fin m} (input : Sock)
    (h : (s.listener.readers r).pc = .reading c) : s.input c (.readCall r input) = some input :=
  if_pos h

theorem State.takes_of_reading {s : State m n} {c : ConnId} {r : Fin m} (input : Sock)
    (h : (s.listener.readers r).pc = .reading c) :
    s.takes c (.readCall r input) = (Call.read c input).1.map Call.request := by
  unfold takes
  rw [input_of_reading input h]
  rfl

theorem State.takes_of_ne {s : State m n} {c c' : ConnId} {r : Fin m} (input : Sock)
    (h : (s.listener.readers r).pc = .reading c') (hc : c' ≠ c) :
    s.takes c (.readCall r input) = none := by
  have hinput : s.input c (.readCall r input) = none :=
    if_neg fun he => hc (by rw [h] at he; cases he; rfl)
  unfold takes
  rw [hinput]
  rfl

theorem State.readCall_ne_abort {s : State m n} {r : Fin m} {input : Sock} {site : Site}
    (hs : s.status = .running) : s.readCall r input ≠ some (s.abort site) := by
  intro h
  unfold readCall at h
  split at h
  · split at h
    · exact absurd (congrArg State.status (Option.some.inj h)) (by simp [setListener, abort, hs])
    · exact absurd (congrArg State.status (Option.some.inj h)) (by simp [abort, hs])
  · cases h

theorem State.takes_of_abort {s : State m n} {a : Action m n} {site : Site} (c : ConnId)
    (h : s.step a = some (s.abort site)) : s.takes c a = none := by
  cases a with
  | readCall r input =>
    unfold step at h
    split at h
    · next hrun => exact absurd h (readCall_ne_abort hrun)
    · cases h
  | _ => rfl

/-- **The pipeline simulates the service** of a connection, step by step. -/
theorem State.serving_step {s s' : State m n} {a : Action m n} (hs : s.step a = some s')
    (hp : Placed s) (hr : Recorded s) (hcomp : Computed s.pipe) {c : ConnId} (hC : InLineOn c s a)
    {svc : Service Request} {rest : Bytes} (h : Serving s.pipe c svc rest) :
    ∃ svc' rest', svc.Evolves Request.reply (s.takes c a) svc' ∧
      Serving s'.pipe c svc' rest' := by
  have hne : ∀ {k p}, s.At k p → p ≠ .sent → s.pipe.place k ≠ .sent := fun hk hne he =>
    hne ((hp.coherent.place_eq hk).symm.trans he)
  cases (State.moves_of_step hs).2 with
  | @readCall r c' input call hpc hcall =>
    have hst : (s.pipe.calls s.pipe.lastCall).Untouched _ _ :=
      hp.stage hr (show s.At s.pipe.lastCall .unread from le_rfl)
    obtain ⟨hconn, hpos, hfound⟩ := Call.of_read hcall
    have h' := h.newCall (r := r) hpos hfound hst.pos
    rw [hconn] at h'
    by_cases hc : c' = c
    · subst hc
      rw [if_pos rfl] at h'
      rw [State.takes_of_reading input hpc, hcall, Option.map_some]
      exact ⟨_, rest, .take _, h'⟩
    · rw [if_neg hc] at h'
      rw [State.takes_of_ne input hpc hc]
      exact ⟨svc, rest, .stay, h'⟩
  | @readFails r c' input hpc hcall =>
    have htakes : s.takes c (.readCall r input) = none := by
      by_cases hc : c' = c
      · subst hc
        rw [State.takes_of_reading input hpc, hcall, Option.map_none]
      · exact State.takes_of_ne input hpc hc
    rw [htakes]
    exact ⟨svc, rest, .stay, h⟩
  | @pushCall r c' k q hpc hq =>
    have hk : s.At k (.reader r) := State.at_reader hpc rfl
    exact ⟨svc, rest, .stay, h.move .calls (hne hk (by simp)) (by simp) (by simp) rfl rfl rfl rfl⟩
  | @popCall h' k q hpc hq =>
    have hk : s.At k .calls := State.at_calls hq
    exact ⟨svc, rest, .stay, h.move (.hand (.handler h') .holding) (hne hk (by simp)) (by simp)
      (by simp) rfl rfl rfl rfl⟩
  | @execute h' k call hpc hcall =>
    have hk : s.At k (.hand (.handler h') .holding) := State.at_hand hpc rfl
    have hst : (s.pipe.calls k).Untouched _ _ := hp.stage hr hk
    obtain ⟨v, -, rfl⟩ := Handler.of_process hcall
    exact ⟨svc, rest, .stay, h.setCall
      { s.pipe.calls k with strVal := IntWritable.toString v, value := some (.int v) }
      (.hand (.handler h') .valued) (hne hk (by simp)) (by simp) (by simp) rfl rfl hst.pos hst.pos
      hst.found rfl rfl rfl rfl⟩
  | @died h' k hpc =>
    have hk : s.At k (.hand (.handler h') .holding) := State.at_hand hpc rfl
    have hst : (s.pipe.calls k).Untouched _ _ := hp.stage hr hk
    exact ⟨svc, rest, .stay, h.setCall _ (.hand (.handler h') .died) (hne hk (by simp)) (by simp)
      (by simp) rfl rfl hst.pos hst.pos hst.found rfl rfl rfl rfl⟩
  | @pushRespond h' k q hpc hq =>
    have hk : s.At k (.hand (.handler h') .valued) := State.at_hand hpc rfl
    exact ⟨svc, rest, .stay, h.move (.responding _) (hne hk (by simp)) (by simp) (by simp)
      rfl rfl rfl rfl⟩
  | @tryPop t c' k q hpc hq =>
    have hk : s.At k (.responding c') := State.at_responding hq
    exact ⟨svc, rest, .stay, h.move (.hand t (.popped c')) (hne hk (by simp)) (by simp) (by simp)
      rfl rfl rfl rfl⟩
  | @again t c' k io bytes call hpc hlock hio hpass =>
    by_cases hc : c' = c
    · subst hc
      obtain ⟨⟨-, hU, -⟩, hI⟩ := hC (by show (s.pipe.pc t).popped?.map _ = _; rw [hpc]; rfl)
      exact h.again hp hr hcomp hpc hlock hio hU (hI (t, io) rfl) hpass
    · have hst : (s.pipe.calls k).Ready c' _ _ := hp.stage hr (State.at_hand hpc rfl)
      obtain ⟨_, _, -, -, -, -, rfl, -⟩ := Connection.of_again hst.underway hio.1 hpass
      exact ⟨svc, rest, .stay, h.written_other hc hst.connection hst.connection rfl⟩
  | @sent t c' k io bytes call hpc hlock hio hpass =>
    by_cases hc : c' = c
    · subst hc
      obtain ⟨⟨-, hU, -⟩, hI⟩ := hC (by show (s.pipe.pc t).popped?.map _ = _; rw [hpc]; rfl)
      exact h.sent hp hr hcomp hpc hlock hio hU (hI (t, io) rfl) hpass
    · have hst : (s.pipe.calls k).Ready c' _ _ := hp.stage hr (State.at_hand hpc rfl)
      obtain ⟨_, -, -, rfl, -⟩ := Connection.of_sent hst.underway hio.1 hpass
      exact ⟨svc, rest, .stay, h.written_other hc hst.connection hst.connection rfl⟩
  | @writeFails t c' k io bytes call hpc hlock hio hpass =>
    have hst : (s.pipe.calls k).Ready c' _ _ := hp.stage hr (State.at_hand hpc rfl)
    obtain ⟨hfails, rfl⟩ := Connection.of_failed hst.inRange hpass
    by_cases hc : c' = c
    · subst hc
      obtain ⟨⟨hN, -, -⟩, -⟩ := hC (by show (s.pipe.pc t).popped?.map _ = _; rw [hpc]; rfl)
      exact absurd (hfails.symm.trans (hN (t, io) rfl)) (by simp)
    · exact ⟨svc, rest, .stay, h.written_other hc hst.connection hst.connection rfl⟩
  | @requeue t c' k q hpc hq =>
    have hk : s.At k (.hand t (.requeue c')) := State.at_hand hpc rfl
    exact ⟨svc, rest, .stay, h.move (.responding c') (hne hk (by simp)) (by simp) (by simp)
      rfl rfl rfl rfl⟩
  | @requeueFails t c' k hpc hq =>
    have hst : (s.pipe.calls k).Ready c' _ _ := (hp.stage hr (State.at_hand hpc rfl)).1
    have hc : c' ≠ c := by
      rintro rfl
      obtain ⟨⟨-, -, hroom⟩, -⟩ := hC (by show (s.pipe.pc t).locks = _; rw [hpc]; rfl)
      exact absurd (hroom t rfl c' (by rw [hpc]; rfl)) (Nat.not_lt.mpr (of_tryPush_none hq))
    have hother : (s.pipe.calls k).connection ≠ c := fun he => hc (hst.connection.symm.trans he)
    exact ⟨svc, rest, .stay, h.other (k := k) rfl rfl (fun _ _ => rfl)
      (fun j hj => Function.update_of_ne hj ..) rfl rfl hother⟩
  | abort =>
    rw [State.takes_of_abort c hs]
    exact ⟨svc, rest, .stay, h.stay rfl rfl rfl rfl⟩
  | _ => exact ⟨svc, rest, .stay, h.stay rfl rfl rfl rfl⟩

theorem Moves.out_append {s s' : State m n} {a : Action m n} (hm : Moves s a s') (c : ConnId) :
    s.pipe.out c <+: s'.pipe.out c := by
  have hwritten : ∀ (c' : ConnId) (bytes : List (CallId × LittleEndian.Byte)),
      s.pipe.out c <+: Function.update s.pipe.out c' (s.pipe.out c' ++ bytes) c := by
    intro c' bytes
    rw [Function.update_apply]
    split
    · next hc => rw [hc]; exact List.prefix_append ..
    · exact List.prefix_rfl
  cases hm with
  | again => exact hwritten _ _
  | sent => exact hwritten _ _
  | writeFails => exact hwritten _ _
  | _ => exact List.prefix_rfl

/-- The simulation of the service by the server, on one connection. -/
theorem serving_simulation (c : ConnId) :
    System.Simulation (system m n) (InLineOn c) (Service.system Request.reply) (fun _ _ => True)
      fun s svc => ∃ rest, Serving s.pipe c svc rest := by
  refine ⟨?_, fun s a s' svc hreach _ hR hC hs => ?_⟩
  · rintro _ rfl
    exact ⟨.start, rfl, [], Serving.start c⟩
  · obtain ⟨rest, h⟩ := hR
    obtain ⟨svc', rest', hsvc, h'⟩ := State.serving_step hs (placed_of_reachable hreach.reachable)
      (recorded_of_reachable hreach.reachable) (computed_of_reachable hreach.reachable) hC h
    obtain rfl | ⟨b, hb⟩ := hsvc.step
    · exact .inl ⟨rest', h'⟩
    · exact .inr ⟨b, svc', trivial, hb, rest', h'⟩

/-- **The server refines the service**, on every connection whose own passes are in line. -/
theorem serving_of_reach {s : State m n} {c : ConnId} (h : (system m n).Reach (InLineOn c) s) :
    ∃ svc rest, (Service.system Request.reply).Reachable svc ∧ Serving s.pipe c svc rest := by
  obtain ⟨svc, hsvc, rest, hR⟩ := h.simulated (serving_simulation c)
  exact ⟨svc, rest, hsvc, hR⟩

/-- Two connections. The response on the first one goes out in two pieces, with the other one's
between them, which is dropped after two bytes. -/
def apart : List (Action 2 2) :=
  [.accept, .accept, .readable 0, .addToReader t₀, .readable 1, .addToReader t₁, .popConn t₀,
    .popConn t₁, .readCall t₀ (ping 0), .readCall t₁ (ping 0), .pushCall t₀, .pushCall t₁,
    .popCall t₀, .popCall t₁, .execute t₀, .execute t₁, .pushRespond t₀, .size t₀,
    .tryPop (.handler t₀), .write (.handler t₀) (.accepts 1), .pushRespond t₁, .size t₁,
    .tryPop (.handler t₁), .write (.handler t₁) (.fails 2)]

theorem serving_of_reach_apart : ∃ s, (system 2 2).run (InLineOn 0) (.start 2 2) apart = some s ∧
    s.pipe.place 1 = .dropped ∧ (s.pipe.out 0).length = 13 ∧
    ∃ svc rest, (Service.system Request.reply).Reachable svc ∧ Serving s.pipe 0 svc rest := by
  have hrun : ((system 2 2).run (InLineOn 0) (.start 2 2) apart).any
      (fun s => s.pipe.place 1 = .dropped ∧ (s.pipe.out 0).length = 13) = true := by
    decide +kernel
  obtain ⟨s, hs, hfacts⟩ := (Option.any_eq_true _ _).mp hrun
  obtain ⟨hdropped, hlen⟩ := of_decide_eq_true hfacts
  exact ⟨s, hs, hdropped, hlen, serving_of_reach (.run (.init rfl) hs)⟩

end Server

end PRpc
