import PRpc.Server.Places

/-!
# What is done with a call

How often a call was executed, whether its header is out and which position it has depend on the
place where it is (`Pipeline.Stage`). With `Placed` this gives execution at most once, one header
for a response, and response bytes on the socket of the call's own connection only.
-/

namespace PRpc.Server

open Queue

variable {m n : ℕ}

namespace Call

theorem of_read {c : ConnId} {s : Sock} {call : Call} (h : (read c s).1 = some call) :
    call.connection = c ∧ call.pos = 0 ∧ call.found = [] := by
  unfold read at h
  split at h
  · next call' s' hb =>
    cases h
    obtain ⟨_, _, _, hb⟩ := of_bind_ok hb
    obtain ⟨_, _, _, hb⟩ := of_bind_ok hb
    obtain ⟨_, _, _, hb⟩ := of_bind_ok hb
    obtain ⟨_, _, _, hb⟩ := of_bind_ok hb
    obtain ⟨_, _, _, hb⟩ := of_bind_ok hb
    cases hb
    exact ⟨rfl, rfl, rfl⟩
  · cases h

/-- A call with a value, ready to be sent from its position on. -/
structure Ready (call : Call) (c : ConnId) (runs headers : ℕ) : Prop where
  connection : call.connection = c
  runs : runs = 1
  underway : call.Underway
  headers : headers = if call.pos = 0 then 0 else 1

/-- A call that nobody has worked on. -/
structure Untouched (call : Call) (runs headers : ℕ) : Prop where
  runs : runs = 0
  headers : headers = 0
  pos : call.pos = 0
  found : call.found = []

theorem Ready.inRange {call : Call} {c : ConnId} {runs headers : ℕ}
    (h : call.Ready c runs headers) : call.InRange := h.underway.inRange

/-- What has been done with a call at a place. -/
def Stage (call : Call) (runs headers : ℕ) : Place m n → Prop
  | .unread => call.Untouched runs headers
  | .reader _ => call.Untouched runs headers
  | .calls => call.Untouched runs headers
  | .hand _ .holding => call.Untouched runs headers
  | .hand _ .valued => call.Ready call.connection runs headers ∧ call.pos = 0
  | .hand _ .died => runs = 1 ∧ headers = 0 ∧ call.pos = 0 ∧ call.found = []
  | .responding c => call.Ready c runs headers
  | .hand _ (.popped c) => call.Ready c runs headers
  | .hand _ (.requeue c) => call.Ready c runs headers ∧ call.pos ≠ 0
  | .sent => runs = 1 ∧ headers = 1 ∧ call.found.length = call.strVal.length
  | .dropped => runs = 1 ∧ headers ≤ 1 ∧ call.found.length ≤ call.strVal.length

section Pass

variable {call call' : Call} {c : ConnId} {runs headers : ℕ} {io : SockOut} {bytes : Bytes}

/-- The counter's value has few digits, so that a call with it can be sent. -/
theorem Untouched.execute (h : call.Untouched runs headers)
    (hcall : Handler.process call = .ok call') :
    call'.Ready call'.connection (runs + 1) headers ∧ call'.pos = 0 ∧
      call'.connection = call.connection := by
  obtain ⟨v, -, rfl⟩ := Handler.of_process hcall
  have hpos : call.pos.toNat = 0 := by rw [h.pos]; rfl
  refine ⟨⟨rfl, by rw [h.runs], ⟨⟨?_, .inl hpos⟩, ?_⟩, ?_⟩, h.pos, rfl⟩
  · show (IntWritable.toString v).length < 2 ^ 31
    rw [IntWritable.length_toString]
    decide
  · show call.found.length = call.pos.toNat
    rw [h.found, hpos]
    rfl
  · rw [h.headers]
    exact (if_pos h.pos).symm

theorem Ready.again (h : call.Ready c runs headers) (hio : io.Fits call.left)
    (hpass : Connection.processResponse call io = (bytes, call', .again)) :
    call'.Ready c runs (headers + if call.pos = 0 then 1 else 0) ∧ call'.pos ≠ 0 := by
  obtain ⟨p, found, hpos, hlt, hfound, -, rfl, -⟩ := Connection.of_again h.underway hio hpass
  have hunderway := Connection.underway_again h.inRange hlt hfound
  have hlen := h.inRange.1
  have hne : intOfSize p ≠ 0 := fun he => by
    have := toNat_intOfSize (n := p) (by omega)
    rw [he] at this
    change 0 = p at this
    omega
  refine ⟨⟨h.connection, h.runs, hunderway, ?_⟩, hne⟩
  rw [h.headers, if_neg hne]
  split <;> rfl

theorem Ready.sent (h : call.Ready c runs headers) (hio : io.Fits call.left)
    (hpass : Connection.processResponse call io = (bytes, call', .sent)) :
    call'.connection = call.connection ∧ runs = 1 ∧
      (headers + if call.pos = 0 then 1 else 0) = 1 ∧
        call'.found.length = call'.strVal.length := by
  obtain ⟨found, hfound, -, rfl, -⟩ := Connection.of_sent h.underway hio hpass
  refine ⟨rfl, h.runs, ?_, hfound⟩
  rw [h.headers]
  split <;> rfl

/-- A pass that throws may have its header out or not. -/
theorem Ready.failed (h : call.Ready c runs headers)
    (hpass : Connection.processResponse call io = (bytes, call', .failed)) :
    call' = call ∧ runs = 1 ∧ (headers + if call.pos = 0 then 1 else 0) ≤ 1 ∧
      call.found.length ≤ call.strVal.length := by
  obtain ⟨-, rfl⟩ := Connection.of_failed h.inRange hpass
  refine ⟨rfl, h.runs, ?_, h.underway.found.trans_le h.inRange.pos_le⟩
  rw [h.headers]
  split <;> simp

end Pass

theorem Stage.runs_le {call : Call} {runs headers : ℕ} {place : Place m n}
    (h : call.Stage runs headers place) : runs ≤ 1 := by
  unfold Stage at h
  split at h <;> grind [Ready, Untouched]

theorem Stage.headers_le {call : Call} {runs headers : ℕ} {place : Place m n}
    (h : call.Stage runs headers place) : headers ≤ 1 := by
  unfold Stage at h
  split at h <;> grind [Ready, Untouched]

/-- No more bytes were sent as the value than it has. -/
theorem Stage.found_le {call : Call} {runs headers : ℕ} {place : Place m n}
    (h : call.Stage runs headers place) : call.found.length ≤ call.strVal.length := by
  have huntouched {call : Call} {runs headers : ℕ} (h : call.Untouched runs headers) :
      call.found.length ≤ call.strVal.length := by
    rw [h.found]
    exact Nat.zero_le _
  have hready {call : Call} {c : ConnId} {runs headers : ℕ} (h : call.Ready c runs headers) :
      call.found.length ≤ call.strVal.length := h.underway.found.trans_le h.inRange.pos_le
  cases place with
  | unread => exact huntouched h
  | reader _ => exact huntouched h
  | calls => exact huntouched h
  | hand _ g =>
    cases g with
    | holding => exact huntouched h
    | valued => exact hready h.1
    | died =>
      rw [h.2.2.2]
      exact Nat.zero_le _
    | popped c => exact hready h
    | requeue c => exact hready h.1
  | responding c => exact hready h
  | sent => exact h.2.2.le
  | dropped => exact h.2.2

end Call

/-- What a call looks like where it is. -/
def Pipeline.Stage (p : Pipeline m n) (k : CallId) : Prop :=
  (p.calls k).Stage (p.runs k) (p.headers k) (p.place k)

/-- The calls that were read come from connections, are at the stage of their place, and have their
bytes on the sockets they were read from. -/
structure Recorded (s : State m n) : Prop where
  stage : ∀ k, s.pipe.Stage k
  connection : ∀ k < s.pipe.lastCall,
    (s.pipe.calls k).connection < s.listener.lastConnectionIndex
  out : ∀ c, ∀ x ∈ s.pipe.out c, x.1 < s.pipe.lastCall ∧ (s.pipe.calls x.1).connection = c

theorem Recorded.start : Recorded (State.start m n) where
  stage _ := ⟨rfl, rfl, rfl, rfl⟩
  connection _ hk := absurd hk (Nat.not_lt_zero _)
  out _ _ hx := absurd hx List.not_mem_nil

section Step

variable {s s' : State m n} {k : CallId}

/-- The rule for a step that works on one call. -/
theorem stage_of_ne {p p' : Pipeline m n} (h : ∀ j, p.Stage j) (hk : p'.Stage k)
    (hcalls : ∀ j ≠ k, p'.calls j = p.calls j) (hruns : ∀ j ≠ k, p'.runs j = p.runs j)
    (hheaders : ∀ j ≠ k, p'.headers j = p.headers j) (hplace : ∀ j ≠ k, p'.place j = p.place j)
    (j : CallId) : p'.Stage j := by
  by_cases hj : j = k
  · rw [hj]
    exact hk
  · unfold Pipeline.Stage
    rw [hcalls j hj, hruns j hj, hheaders j hj, hplace j hj]
    exact h j

/-- A step after which the calls have the same connections and no bytes were written. -/
theorem Recorded.of_connection (h : Recorded s) (hstage : ∀ j, s'.pipe.Stage j)
    (hlast : s'.pipe.lastCall = s.pipe.lastCall)
    (hindex : s.listener.lastConnectionIndex ≤ s'.listener.lastConnectionIndex)
    (hconn : ∀ j, (s'.pipe.calls j).connection = (s.pipe.calls j).connection)
    (hout : s'.pipe.out = s.pipe.out) : Recorded s' where
  stage := hstage
  connection j hj := by
    rw [hconn]
    rw [hlast] at hj
    exact (h.connection j hj).trans_le hindex
  out c x hx := by
    rw [hout] at hx
    rw [hlast, hconn]
    exact h.out c x hx

theorem Recorded.setListener (h : Recorded s) {l : Listener m}
    (hindex : s.listener.lastConnectionIndex ≤ l.lastConnectionIndex) :
    Recorded (s.setListener l) :=
  h.of_connection h.stage rfl hindex (fun _ => rfl) rfl

theorem Recorded.move (h : Recorded s) (k : CallId) (new : Place m n)
    (hk : (s.pipe.calls k).Stage (s.pipe.runs k) (s.pipe.headers k) new)
    (hplace : s'.pipe.place = Function.update s.pipe.place k new)
    (hindex : s'.listener.lastConnectionIndex = s.listener.lastConnectionIndex)
    (hcalls : s'.pipe.calls = s.pipe.calls) (hruns : s'.pipe.runs = s.pipe.runs)
    (hheaders : s'.pipe.headers = s.pipe.headers) (hlast : s'.pipe.lastCall = s.pipe.lastCall)
    (hout : s'.pipe.out = s.pipe.out) : Recorded s' := by
  refine h.of_connection (stage_of_ne (k := k) h.stage ?_ (fun j _ => by rw [hcalls])
    (fun j _ => by rw [hruns]) (fun j _ => by rw [hheaders]) fun j hj => ?_) hlast hindex.ge
    (fun j => by rw [hcalls]) hout
  · unfold Pipeline.Stage
    rw [hcalls, hruns, hheaders, hplace, Function.update_self]
    exact hk
  · rw [hplace, Function.update_of_ne hj]

theorem Recorded.newCall (h : Recorded s) (hp : Placed s) {r : Fin m} {c : ConnId} {call : Call}
    {l : Listener m} (hc : c < l.lastConnectionIndex)
    (hindex : s.listener.lastConnectionIndex = l.lastConnectionIndex) (hconn : call.connection = c)
    (hpos : call.pos = 0) (hfound : call.found = []) :
    Recorded { s with listener := l, pipe := s.pipe.newCall r call } := by
  have hne : ∀ {j}, j < s.pipe.lastCall →
      Function.update s.pipe.calls s.pipe.lastCall call j = s.pipe.calls j := fun hj =>
    Function.update_of_ne (Nat.ne_of_lt hj) ..
  have hnew : (s.pipe.calls s.pipe.lastCall).Untouched (s.pipe.runs s.pipe.lastCall)
      (s.pipe.headers s.pipe.lastCall) := by
    have hst := h.stage s.pipe.lastCall
    unfold Pipeline.Stage at hst
    rw [hp.coherent.place_eq (show s.At _ .unread from le_rfl)] at hst
    exact hst
  refine ⟨stage_of_ne (k := s.pipe.lastCall) h.stage ?_
    (fun j hj => Function.update_of_ne hj ..) (fun _ _ => rfl) (fun _ _ => rfl)
    (fun j hj => Function.update_of_ne hj ..), fun j hj => ?_, fun c' x hx => ?_⟩
  · unfold Pipeline.Stage
    have hplace : (s.pipe.newCall r call).place s.pipe.lastCall = .reader r :=
      Function.update_self ..
    have hcall : (s.pipe.newCall r call).calls s.pipe.lastCall = call := Function.update_self ..
    show ((s.pipe.newCall r call).calls s.pipe.lastCall).Stage _ _
      ((s.pipe.newCall r call).place s.pipe.lastCall)
    rw [hplace, hcall]
    exact ⟨hnew.runs, hnew.headers, hpos, hfound⟩
  · show (Function.update s.pipe.calls s.pipe.lastCall call j).connection < l.lastConnectionIndex
    rcases Nat.lt_succ_iff_lt_or_eq.mp hj with hj | rfl
    · rw [hne hj, ← hindex]
      exact h.connection j hj
    · rw [Function.update_self, hconn]
      exact hc
  · obtain ⟨hlt, hx⟩ := h.out c' x hx
    refine ⟨hlt.trans (Nat.lt_succ_self _), ?_⟩
    show (Function.update s.pipe.calls s.pipe.lastCall call x.1).connection = c'
    rw [hne hlt, hx]

theorem Recorded.execute (h : Recorded s) {h' : Fin n} {call : Call} {pc : Pc} {g : Hand}
    {status : Status} (hconn : call.connection = (s.pipe.calls k).connection)
    (hk : call.Stage (s.pipe.runs k + 1) (s.pipe.headers k)
      (.hand (.handler h') g : Place m n)) :
    Recorded { s with pipe := s.pipe.execute h' k call pc g, status } := by
  refine h.of_connection (stage_of_ne (k := k) h.stage ?_
    (fun j hj => Function.update_of_ne hj ..) (fun j hj => Function.update_of_ne hj ..)
    (fun _ _ => rfl) (fun j hj => Function.update_of_ne hj ..)) rfl le_rfl (fun j => ?_) rfl
  · unfold Pipeline.Stage
    have hplace : (s.pipe.execute h' k call pc g).place k = .hand (.handler h') g :=
      Function.update_self ..
    have hcall : (s.pipe.execute h' k call pc g).calls k = call := Function.update_self ..
    have hruns : (s.pipe.execute h' k call pc g).runs k = s.pipe.runs k + 1 :=
      Function.update_self ..
    rw [hplace, hcall, hruns]
    exact hk
  · show (Function.update s.pipe.calls k call j).connection = _
    by_cases hj : j = k
    · rw [hj, Function.update_self, hconn]
    · rw [Function.update_of_ne hj]

theorem Recorded.written (h : Recorded s) {t : Thread n} {c : ConnId} {bytes : Bytes} {call : Call}
    {pc : Pc} {new : Place m n} (hlt : k < s.pipe.lastCall)
    (hc : (s.pipe.calls k).connection = c)
    (hconn : call.connection = (s.pipe.calls k).connection)
    (hk : call.Stage (s.pipe.runs k)
      (s.pipe.headers k + if (s.pipe.calls k).pos = 0 then 1 else 0) new) :
    Recorded (s.setPipe ((s.pipe.written c k bytes call).move t k pc new)) := by
  have hcalls : ∀ j, (Function.update s.pipe.calls k call j).connection =
      (s.pipe.calls j).connection := by
    intro j
    by_cases hj : j = k
    · rw [hj, Function.update_self, hconn]
    · rw [Function.update_of_ne hj]
  refine ⟨stage_of_ne (k := k) h.stage ?_ (fun j hj => Function.update_of_ne hj ..)
    (fun _ _ => rfl) (fun j hj => Function.update_of_ne hj ..)
    (fun j hj => Function.update_of_ne hj ..), fun j hj => ?_, fun c' x hx => ?_⟩
  · unfold Pipeline.Stage
    have hplace : ((s.pipe.written c k bytes call).move t k pc new).place k = new :=
      Function.update_self ..
    have hcall : ((s.pipe.written c k bytes call).move t k pc new).calls k = call :=
      Function.update_self ..
    have hheaders : ((s.pipe.written c k bytes call).move t k pc new).headers k =
        s.pipe.headers k + if (s.pipe.calls k).pos = 0 then 1 else 0 := Function.update_self ..
    show (((s.pipe.written c k bytes call).move t k pc new).calls k).Stage _
      (((s.pipe.written c k bytes call).move t k pc new).headers k)
      (((s.pipe.written c k bytes call).move t k pc new).place k)
    rw [hplace, hcall, hheaders]
    exact hk
  · show (Function.update s.pipe.calls k call j).connection < s.listener.lastConnectionIndex
    rw [hcalls]
    exact h.connection j hj
  · show x.1 < s.pipe.lastCall ∧ (Function.update s.pipe.calls k call x.1).connection = c'
    rw [hcalls]
    change x ∈ Function.update s.pipe.out c (s.pipe.out c ++ bytes.map fun b => (k, b)) c' at hx
    by_cases hcc : c' = c
    · rw [hcc, Function.update_self, List.mem_append] at hx
      rcases hx with hx | hx
      · rw [hcc]
        exact h.out c x hx
      · obtain ⟨b, -, rfl⟩ := List.mem_map.mp hx
        exact ⟨hlt, hc.trans hcc.symm⟩
    · rw [Function.update_of_ne hcc] at hx
      exact h.out c' x hx

end Step

namespace Placed

variable {s : State m n} {k : CallId} {t : Thread n} {g : Hand}

theorem stage (h : Placed s) (hr : Recorded s) {p : Place m n} (hk : s.At k p) :
    (s.pipe.calls k).Stage (s.pipe.runs k) (s.pipe.headers k) p := by
  have := hr.stage k
  unfold Pipeline.Stage at this
  rw [h.coherent.place_eq hk] at this
  exact this

theorem lt_lastCall (h : Placed s) {p : Place m n} (hk : s.At k p) (hp : p ≠ .unread) :
    k < s.pipe.lastCall := by
  by_contra hlt
  exact hp (h.coherent.eq_of_at hk (show s.At k .unread from Nat.le_of_not_lt hlt))

theorem of_mem_respondQueue (h : Placed s) (hr : Recorded s) {c : ConnId}
    (hk : k ∈ s.pipe.respondQueue c) :
    (s.pipe.calls k).connection = c ∧ c < s.listener.lastConnectionIndex := by
  have hk : s.At k (.responding c) := hk
  have hst : (s.pipe.calls k).Ready c _ _ := h.stage hr hk
  have hlt := hr.connection k (h.lt_lastCall hk (by simp))
  rw [hst.connection] at hlt
  exact ⟨hst.connection, hlt⟩

theorem respondQueue_eq_nil (h : Placed s) (hr : Recorded s) {c : ConnId}
    (hc : s.listener.lastConnectionIndex ≤ c) : s.pipe.respondQueue c = [] :=
  List.eq_nil_iff_forall_not_mem.mpr fun _ hk =>
    Nat.not_lt.mpr hc (h.of_mem_respondQueue hr hk).2

end Placed

theorem Moves.recorded {s s' : State m n} {a : Action m n} (hm : Moves s a s')
    (hl : s.listener.Owned) (hp : Placed s) (h : Recorded s) : Recorded s' := by
  cases hm with
  | accept => exact h.setListener le_rfl
  | create => exact h.setListener (Nat.le_succ _)
  | reuse => exact h.setListener le_rfl
  | readError => exact h.setListener le_rfl
  | added => exact h.setListener le_rfl
  | retry => exact h.setListener le_rfl
  | readersFull => exact h.of_connection h.stage rfl le_rfl (fun _ => rfl) rfl
  | popConn => exact h.setListener le_rfl
  | readCall hpc hcall =>
    obtain ⟨hconn, hpos, hfound⟩ := Call.of_read hcall
    exact h.newCall hp (hl.lt_of_conn (by rw [hpc]; rfl)) rfl hconn hpos hfound
  | readFails => exact h.setListener le_rfl
  | @pushCall r c k q hpc hq =>
    have hk : s.At k (.reader r) := State.at_reader hpc rfl
    have hst := hp.stage h hk
    exact h.move k .calls hst rfl rfl rfl rfl rfl rfl rfl
  | rearm => exact h.setListener le_rfl
  | rearmThrows => exact h.setListener le_rfl
  | closeConnection => exact h.setListener le_rfl
  | closeThrows => exact h.setListener le_rfl
  | @popCall h' k q hpc hq =>
    have hk : s.At k .calls := State.at_calls hq
    have hst := hp.stage h hk
    exact h.move k (.hand (.handler h') .holding) hst rfl rfl rfl rfl rfl rfl rfl
  | @execute h' k call hpc hcall =>
    have hk : s.At k (.hand (.handler h') .holding) := State.at_hand hpc rfl
    obtain ⟨hr, hpos, hconn⟩ := Call.Untouched.execute (hp.stage h hk) hcall
    exact h.execute hconn ⟨hr, hpos⟩
  | @died h' k hpc =>
    have hk : s.At k (.hand (.handler h') .holding) := State.at_hand hpc rfl
    obtain ⟨hruns, hheaders, hpos, hfound⟩ := hp.stage h hk
    exact h.execute rfl ⟨by rw [hruns], hheaders, hpos, hfound⟩
  | @pushRespond h' k q hpc hq =>
    have hk : s.At k (.hand (.handler h') .valued) := State.at_hand hpc rfl
    exact h.move k (.responding _) (hp.stage h hk).1 rfl rfl rfl rfl rfl rfl rfl
  | sizeOne => exact h.of_connection h.stage rfl le_rfl (fun _ => rfl) rfl
  | sizeMore => exact h.of_connection h.stage rfl le_rfl (fun _ => rfl) rfl
  | pushToken => exact h.of_connection h.stage rfl le_rfl (fun _ => rfl) rfl
  | popToken => exact h.of_connection h.stage rfl le_rfl (fun _ => rfl) rfl
  | lookup => exact h.of_connection h.stage rfl le_rfl (fun _ => rfl) rfl
  | lookupFails => exact h.of_connection h.stage rfl le_rfl (fun _ => rfl) rfl
  | @tryPop t c k q hpc hq =>
    have hk : s.At k (.responding c) := State.at_responding hq
    have hst := hp.stage h hk
    exact h.move k (.hand t (.popped c)) hst rfl rfl rfl rfl rfl rfl rfl
  | tryPopFails => exact h.of_connection h.stage rfl le_rfl (fun _ => rfl) rfl
  | @again t c k io bytes call hpc hlock hio hpass =>
    have hk : s.At k (.hand t (.popped c)) := State.at_hand hpc rfl
    have hr : (s.pipe.calls k).Ready c _ _ := hp.stage h hk
    obtain ⟨hagain, hne⟩ := hr.again hio.1 hpass
    exact h.written (hp.lt_lastCall hk (by simp)) hr.connection
      (hagain.connection.trans hr.connection.symm) ⟨hagain, hne⟩
  | @sent t c k io bytes call hpc hlock hio hpass =>
    have hk : s.At k (.hand t (.popped c)) := State.at_hand hpc rfl
    have hr : (s.pipe.calls k).Ready c _ _ := hp.stage h hk
    obtain ⟨hconn, hstage⟩ := hr.sent hio.1 hpass
    exact h.written (hp.lt_lastCall hk (by simp)) hr.connection hconn hstage
  | @writeFails t c k io bytes call hpc hlock hio hpass =>
    have hk : s.At k (.hand t (.popped c)) := State.at_hand hpc rfl
    have hr : (s.pipe.calls k).Ready c _ _ := hp.stage h hk
    obtain ⟨rfl, hstage⟩ := hr.failed hpass
    have hw : Recorded (s.setPipe ((s.pipe.written c k bytes (s.pipe.calls k)).move t k .idle
        .dropped)) := h.written (hp.lt_lastCall hk (by simp)) hr.connection rfl hstage
    exact hw.of_connection hw.stage rfl le_rfl (fun _ => rfl) rfl
  | @requeue t c k q hpc hq =>
    have hk : s.At k (.hand t (.requeue c)) := State.at_hand hpc rfl
    exact h.move k (.responding c) (hp.stage h hk).1 rfl rfl rfl rfl rfl rfl rfl
  | @requeueFails t c k hpc hq =>
    have hk : s.At k (.hand t (.requeue c)) := State.at_hand hpc rfl
    obtain ⟨hr, hpos⟩ := hp.stage h hk
    have hlen := hr.underway.found.trans_le hr.inRange.pos_le
    refine h.move k .dropped ⟨hr.runs, ?_, hlen⟩ rfl rfl rfl rfl rfl rfl rfl
    rw [hr.headers, if_neg hpos]
  | retoken => exact h.of_connection h.stage rfl le_rfl (fun _ => rfl) rfl
  | abort => exact h.of_connection h.stage rfl le_rfl (fun _ => rfl) rfl

theorem recorded_of_reachable {s : State m n} (h : (system m n).Reachable s) : Recorded s :=
  h.invariant_of (J := fun s => s.listener.Owned ∧ Placed s)
    (fun _ hs => ⟨owned_of_reachable hs, placed_of_reachable hs⟩)
    (by rintro _ rfl; exact Recorded.start) fun _ _ _ hJ hI _ hs =>
      (State.moves_of_step hs).2.recorded hJ.1 hJ.2 hI

end PRpc.Server
