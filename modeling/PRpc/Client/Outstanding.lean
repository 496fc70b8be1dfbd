import PRpc.Client.GetConnection

/-!
# The tables of calls

Nothing ever takes a call out of a table: `recvRespond` leaves a call that it has set where it is,
and the erasing loop of `cleanupCalls` does not survive a table that is not empty. So a table holds
calls that are not done only as long as no response has been set (`outstanding_iff_run`). What
`waitForWork` and a second response need hangs on the same condition.
-/

namespace PRpc.Client

open Function LittleEndian

variable {s s' : State} {a : Action} {k : CallId} {c : ConnId} {g : Getting}

/-! ## Which bytes complete a call -/

/-- The bytes after the id complete the call: for a `MethodWritable` any bytes, since its
`readFields` catches everything; for an `IntWritable` a length with a buffer that can be allocated,
and that many bytes. A base `Writable` cannot be printed, which ends `setValue` too early. -/
def Call.Answers (M : Memory) (call : Call) (bs : Bytes) : Prop :=
  call.valueClass = ascii "MethodWritable" ∨
    call.valueClass = ascii "IntWritable" ∧ 8 ≤ bs.length ∧
      (ofLE (bs.take 8) + 1) % 2 ^ 64 ≤ M.limit ∧ 8 + ofLE (bs.take 8) ≤ bs.length

instance (M : Memory) (call : Call) (bs : Bytes) : Decidable (call.Answers M bs) :=
  inferInstanceAs (Decidable (_ ∨ _ ∧ _ ∧ _ ∧ _))

theorem asioRead_ok {n : ℕ} {s : Sock} (h : n ≤ s.input.length) :
    asioRead n s = .ok (s.input.take n) { s with input := s.input.drop n } := if_pos h

theorem readSize_ok {s : Sock} (h : 8 ≤ s.input.length) :
    readSize s = .ok (ofLE (s.input.take 8)) { s with input := s.input.drop 8 } := by
  unfold readSize
  rw [bind_ok (asioRead_ok h)]
  rfl

theorem readInt_ok {s : Sock} (h : 4 ≤ s.input.length) :
    readInt s = .ok (intOfBytes (s.input.take 4)) { s with input := s.input.drop 4 } := by
  unfold readInt
  rw [bind_ok (asioRead_ok h)]
  rfl

theorem readFields_int_ok_iff (s : Sock) :
    (∃ lv s', IntWritable.readFields s = .ok lv s') ↔ 8 ≤ s.input.length ∧
      (ofLE (s.input.take 8) + 1) % 2 ^ 64 ≤ s.memory.limit ∧
        8 + ofLE (s.input.take 8) ≤ s.input.length := by
  constructor
  · rintro ⟨lv, s', h⟩
    obtain ⟨length, t, hl, h1⟩ := of_bind_ok h
    obtain ⟨hlt, rfl⟩ := of_readSize_ok hl
    obtain ⟨u, t', hn, h2⟩ := of_bind_ok h1
    obtain ⟨hroom, rfl⟩ := of_newChars_ok hn
    obtain ⟨bs, t'', hr, -⟩ := of_bind_ok h2
    obtain ⟨rfl, rfl⟩ := of_asioRead_ok hr
    have htake :
        ((t''.unread bs).unread (sizeBytes bs.length)).input.take 8 = sizeBytes bs.length :=
      List.take_left' (length_sizeBytes _)
    rw [htake, ofLE_sizeBytes hlt]
    refine ⟨?_, hroom, ?_⟩
    · rw [Sock.input_unread, List.length_append, length_sizeBytes]
      omega
    · rw [Sock.input_unread, Sock.input_unread, List.length_append, List.length_append,
        length_sizeBytes]
      omega
  · rintro ⟨h8, hroom, hlen⟩
    have hdrop : ofLE (s.input.take 8) ≤ (s.input.drop 8).length := by
      rw [List.length_drop]
      omega
    unfold IntWritable.readFields
    rw [bind_ok (readSize_ok h8),
      bind_ok (newChars_ok (s := { s with input := s.input.drop 8 }) hroom),
      bind_ok (asioRead_ok (s := { s with input := s.input.drop 8 }) hdrop)]
    exact ⟨_, _, rfl⟩

theorem done_setValue {call : Call} (h : call.done = true) (val : Writable) :
    (call.setValue val).done = true := by
  unfold Call.setValue
  split
  · rfl
  · exact h

theorem recvValue_done_iff {call : Call} (h : call.done = false) (s : Sock) :
    (∃ call' ∈ (Connection.recvValue call s).1, call'.done = true) ↔
      call.Answers s.memory s.input := by
  unfold Call.Answers
  by_cases hint : call.valueClass = ascii "IntWritable"
  · have hne : call.valueClass ≠ ascii "MethodWritable" := by rw [hint]; decide
    rw [Connection.recvValue_int_eq hint, or_iff_right hne, and_iff_right hint]
    refine Iff.trans ?_ (readFields_int_ok_iff s.make)
    cases IntWritable.readFields s.make with
    | error e t => simp
    | ok lv t => simp
  · by_cases hmethod : call.valueClass = ascii "MethodWritable"
    · rw [Connection.recvValue_method_eq hmethod]
      simp [hmethod]
    · rw [Connection.recvValue_base_eq hint hmethod]
      simp [hint, hmethod, h]

/-! ## The steps on the tables -/

/-- Only calls in a table are done; a connection that does not exist yet has no calls; `recvRespond`
runs only while there are some. -/
structure Tabled (s : State) : Prop where
  fresh : ∀ c, s.lastConnectionIndex ≤ c → (s.conn c).calls = ∅
  done : ∀ k, (s.call k).done = true → ∃ c id, (s.conn c).calls.lookup id = some k
  receiving : ∀ c, s.receiver c = .receiving → ∃ id k, (s.conn c).calls.lookup id = some k

theorem CallMap.exists_of_entries {m : CallMap} (h : m.entries ≠ []) :
    ∃ id k, m.lookup id = some k := by
  obtain ⟨⟨id, k⟩, hmem⟩ := List.exists_mem_of_ne_nil _ h
  exact ⟨id, k, AList.mem_lookup_iff.mpr hmem⟩

theorem Tabled.start : Tabled .start where
  fresh _ _ := rfl
  done _ h := by cases h
  receiving _ h := by cases h

/-- What a response does when its id is that of a call in the table. -/
theorem State.recvRespond_of_found {input : Sock} (h4 : 4 ≤ input.input.length)
    (hk : (s.conn c).calls.lookup (intOfBytes (input.input.take 4)) = some k) :
    s.recvRespond c input =
      match (Connection.recvValue (s.call k) { input with input := input.input.drop 4 }).1 with
      | none => s.setReceiver c (.waiting 0)
      | some call => (s.setCall k call).setReceiver c (.waiting 0) := by
  unfold State.recvRespond Connection.recvRespond
  rw [readInt_ok h4]
  dsimp only
  rw [hk, Option.map_some]
  dsimp only
  rcases Connection.recvValue (s.call k) { input with input := input.input.drop 4 } with
    ⟨_ | call, t⟩
  · rfl
  · dsimp only
    rw [hk, Option.elim_some]

/-- Anything else ends the process. -/
theorem State.recvRespond_of_not_found {input : Sock} (h : ¬(4 ≤ input.input.length ∧
    ∃ k, (s.conn c).calls.lookup (intOfBytes (input.input.take 4)) = some k)) :
    ∃ status, s.recvRespond c input = { s with status } := by
  unfold State.recvRespond Connection.recvRespond
  by_cases h4 : 4 ≤ input.input.length
  · rw [readInt_ok h4]
    cases hk : (s.conn c).calls.lookup (intOfBytes (input.input.take 4)) with
    | none =>
      dsimp only
      rw [hk]
      exact ⟨.aborted, rfl⟩
    | some k => exact absurd ⟨h4, k, hk⟩ h
  · have hread : readInt input = .error .eof { input with input := [] } :=
      bind_error (if_neg h4)
    rw [hread]
    exact ⟨.crashed, rfl⟩

theorem State.call_recvRespond (s : State) (c : ConnId) (input : Sock)
    (hk : ∀ id, (s.conn c).calls.lookup id ≠ some k) :
    (s.recvRespond c input).call k = s.call k := by
  by_cases hfound : 4 ≤ input.input.length ∧
      ∃ k, (s.conn c).calls.lookup (intOfBytes (input.input.take 4)) = some k
  · obtain ⟨h4, k', hk'⟩ := hfound
    rw [State.recvRespond_of_found h4 hk']
    split
    · rfl
    · next call hval =>
      have hne : k ≠ k' := fun heq => hk _ (heq ▸ hk')
      exact update_of_ne hne ..
  · obtain ⟨status, heq⟩ := State.recvRespond_of_not_found hfound
    rw [heq]

theorem State.done_recvRespond (c : ConnId) (input : Sock) (h : (s.call k).done = true) :
    ((s.recvRespond c input).call k).done = true := by
  by_cases hfound : 4 ≤ input.input.length ∧
      ∃ k, (s.conn c).calls.lookup (intOfBytes (input.input.take 4)) = some k
  · obtain ⟨h4, k', hk'⟩ := hfound
    rw [State.recvRespond_of_found h4 hk']
    split
    · exact h
    · next call hval =>
      show (update s.call k' call k).done = true
      rw [update_apply]
      split
      · next heq =>
        subst heq
        obtain ⟨val, rfl⟩ := Connection.of_recvValue hval
        exact done_setValue h val
      · exact h
  · obtain ⟨status, heq⟩ := State.recvRespond_of_not_found hfound
    rw [heq]
    exact h

/-- **What a step does to a connection**: its table is as it was, and only `markClosed` marks it; or
`addCall` has inserted into the table; or the connection is new. -/
theorem Moves.conn_cases (hm : Moves s a s') (c : ConnId) :
    ((s'.conn c).calls = (s.conn c).calls ∧
      ((s'.conn c).shouldClose = (s.conn c).shouldClose ∨ a = .markClosed c)) ∨
    (∃ g, s.getting = some g ∧ g.pc = .adding ∧ s' = s.addCall g ∧ c = g.conn ∧
      (s'.conn c).calls = (s.conn c).calls.add (s.conn c).lastCallIndex g.call ∧
      (s'.conn c).shouldClose = (s.conn c).shouldClose) ∨
    (c = s.lastConnectionIndex ∧ c < s'.lastConnectionIndex ∧ (s'.conn c).calls = ∅ ∧
      (s'.conn c).shouldClose = false) := by
  cases hm with
  | @create ep k isNull hg hk hc =>
    have hconn : ((s.create ep isNull).enter ep k s.lastConnectionIndex).conn =
      update s.conn s.lastConnectionIndex (.new ep (if isNull then .null else .wild)) := rfl
    rw [hconn]
    by_cases heq : c = s.lastConnectionIndex
    · subst heq
      rw [update_self]
      exact .inr (.inr ⟨rfl, Nat.lt_succ_self _, rfl, rfl⟩)
    · rw [update_of_ne heq]
      exact .inl ⟨rfl, .inl rfl⟩
  | @connect g result hg hpc =>
    exact .inl ⟨s.connect_field g result Connection.calls (fun _ _ => rfl) c,
      .inl (s.connect_field g result Connection.shouldClose (fun _ _ => rfl) c)⟩
  | @startThread g ok hg hpc =>
    exact .inl ⟨s.startThread_field g ok Connection.calls (fun _ _ => rfl) c,
      .inl (s.startThread_field g ok Connection.shouldClose (fun _ _ => rfl) c)⟩
  | @addCall g hg hpc =>
    have hconn : (s.addCall g).conn = update s.conn g.conn ((s.conn g.conn).addCall g.call) := rfl
    by_cases heq : c = g.conn
    · refine .inr (.inl ⟨g, hg, hpc, rfl, heq, ?_⟩)
      rw [hconn, heq, update_self]
      exact ⟨rfl, rfl⟩
    · rw [hconn, update_of_ne heq]
      exact .inl ⟨rfl, .inl rfl⟩
  | @markClosed c' hc =>
    have hcalls : ∀ c, ((s.markClosed c').conn c).calls = (s.conn c).calls :=
      update_field Connection.calls rfl
    refine .inl ⟨hcalls c, ?_⟩
    by_cases heq : c = c'
    · exact .inr (heq ▸ rfl)
    · have hconn : (s.markClosed c').conn c = s.conn c := update_of_ne heq ..
      exact .inl (by rw [hconn])
  | @closeSock c' hc =>
    have hcalls : ∀ c, ((s.closeSock c').conn c).calls = (s.conn c).calls :=
      update_field Connection.calls rfl
    have hclose : ∀ c, ((s.closeSock c').conn c).shouldClose = (s.conn c).shouldClose :=
      update_field Connection.shouldClose rfl
    exact .inl ⟨hcalls c, .inl (hclose c)⟩
  | sendCall | recvRespond | cleanupCalls => simp
  | _ => exact .inl ⟨rfl, .inl rfl⟩

theorem Moves.lookup_mono (hm : Moves s a s') (ht : Tabled s) {id : CInt}
    (h : (s.conn c).calls.lookup id = some k) : (s'.conn c).calls.lookup id = some k := by
  rcases hm.conn_cases c with ⟨heq, -⟩ | ⟨g, -, -, -, -, heq, -⟩ | ⟨rfl, -, -⟩
  · rw [heq, h]
  · rw [heq]
    exact CallMap.lookup_add_of_lookup h
  · rw [ht.fresh _ le_rfl] at h
    cases (AList.lookup_empty (β := fun _ => CallId) id).symm.trans h

/-- **What a step does to `_done`**: nothing, unless the call is new or the step is a response. -/
theorem Moves.call_cases (hm : Moves s a s') (k : CallId) :
    (s'.call k).done = (s.call k).done ∨ (k = s.lastCall ∧ (s'.call k).done = false) ∨
      ∃ c input, a = .recvRespond c input ∧ s' = s.recvRespond c input := by
  cases hm with
  | @newCall ep valueClass param id =>
    have hcall : (s.newCall ep { valueClass, id, param }).call =
      update s.call s.lastCall { valueClass, id, param } := rfl
    rw [hcall]
    by_cases heq : k = s.lastCall
    · rw [heq, update_self]
      exact .inr (.inl ⟨rfl, rfl⟩)
    · rw [update_of_ne heq]
      exact .inl rfl
  | @addCall g hg hpc =>
    refine .inl ?_
    show (update s.call g.call ((s.call g.call).setId _) k).done = _
    by_cases heq : k = g.call
    · rw [heq, update_self]
      rfl
    · rw [update_of_ne heq]
  | @recvRespond c input hc => exact .inr (.inr ⟨c, input, rfl, rfl⟩)
  | connect | startThread | sendCall | cleanupCalls => simp
  | _ => exact .inl rfl

theorem Moves.done_cases (hm : Moves s a s') (h : (s'.call k).done = true) :
    (s.call k).done = true ∨
      ∃ c input id, a = .recvRespond c input ∧ (s.conn c).calls.lookup id = some k := by
  rcases hm.call_cases k with heq | ⟨-, hnew⟩ | ⟨c, input, rfl, rfl⟩
  · exact .inl (heq.symm.trans h)
  · rw [hnew] at h
    cases h
  · by_cases htable : ∃ id, (s.conn c).calls.lookup id = some k
    · obtain ⟨id, hid⟩ := htable
      exact .inr ⟨c, input, id, rfl, hid⟩
    · rw [s.call_recvRespond c input fun id hid => htable ⟨id, hid⟩] at h
      exact .inl h

theorem Moves.done_mono (hm : Moves s a s') (hk : k < s.lastCall) (h : (s.call k).done = true) :
    (s'.call k).done = true := by
  rcases hm.call_cases k with heq | ⟨hnew, -⟩ | ⟨c, input, rfl, rfl⟩
  · exact heq.trans h
  · exact absurd hnew (Nat.ne_of_lt hk)
  · exact State.done_recvRespond c input h

theorem Moves.lastConnectionIndex_le (hm : Moves s a s') :
    s.lastConnectionIndex ≤ s'.lastConnectionIndex := by
  cases hm with
  | create => exact Nat.le_succ _
  | connect | startThread | sendCall | recvRespond | cleanupCalls => simp
  | _ => exact le_rfl

/-- `waitForWork` returns `true` only if the table is not empty. -/
theorem Moves.receiving_cases (hm : Moves s a s') (h : s'.receiver c = .receiving) :
    s.receiver c = .receiving ∨ (s.conn c).calls.entries ≠ [] := by
  have hupdate : ∀ {c' : ConnId} {pc : ReceiverPc}, pc ≠ .receiving →
      update s.receiver c' pc c = .receiving → s.receiver c = .receiving := by
    intro c' pc hpc hr
    rw [update_apply] at hr
    split at hr
    · exact absurd hr hpc
    · exact hr
  cases hm with
  | connect | sendCall => exact .inl (by simpa using h)
  | @startThread g ok hg hpc =>
    unfold State.startThread at h
    split at h
    · exact .inl (hupdate (by simp) h)
    · exact .inl h
  | @waitForWork c' rep hc =>
    change update s.receiver c' _ c = .receiving at h
    by_cases hne : (s.conn c').calls.entries = []
    · rw [if_neg (not_not.mpr hne)] at h
      refine .inl (hupdate ?_ h)
      split <;> simp
    · by_cases heq : c = c'
      · exact .inr (heq ▸ hne)
      · rw [update_of_ne heq] at h
        exact .inl h
  | @recvRespond c' input hc =>
    obtain ⟨status, call, -, heq | heq⟩ := s.recvRespond_eq c' input
    · rw [heq] at h
      exact .inl h
    · rw [heq] at h
      exact .inl (hupdate (by simp) h)
  | markClosed => exact .inl (hupdate (by simp) h)
  | closeSock => exact .inl (hupdate (by simp) h)
  | removeConnection => exact .inl (hupdate (by simp) h)
  | @cleanupCalls c' hc =>
    unfold State.cleanupCalls at h
    split at h
    · exact .inl (hupdate (by simp) h)
    · exact .inl h
  | _ => exact .inl h

theorem Moves.tabled (hm : Moves s a s') (h : Managed s) (ht : Tabled s) : Tabled s' where
  fresh c hc := by
    rcases hm.conn_cases c with ⟨heq, -⟩ | ⟨g, hg, -, -, rfl, -⟩ | ⟨-, hlt, -⟩
    · rw [heq]
      exact ht.fresh c (hm.lastConnectionIndex_le.trans hc)
    · have hlt := (h.getting g hg).1
      exact absurd (hm.lastConnectionIndex_le.trans hc) (Nat.not_le.mpr hlt)
    · exact absurd hc (Nat.not_le.mpr hlt)
  done k hk := by
    have hold : ∃ c id, (s.conn c).calls.lookup id = some k := by
      rcases hm.done_cases hk with hdone | ⟨c, input, id, -, hid⟩
      · exact ht.done k hdone
      · exact ⟨c, id, hid⟩
    obtain ⟨c, id, hid⟩ := hold
    exact ⟨c, id, hm.lookup_mono ht hid⟩
  receiving c hc := by
    have hold : ∃ id k, (s.conn c).calls.lookup id = some k := by
      rcases hm.receiving_cases hc with hr | hne
      · exact ht.receiving c hr
      · exact CallMap.exists_of_entries hne
    obtain ⟨id, k, hid⟩ := hold
    exact ⟨id, k, hm.lookup_mono ht hid⟩

theorem tabled_of_reachable (h : client.Reachable s) : Tabled s :=
  h.invariant_of (fun _ hs => managed_of_reachable hs) (by rintro _ rfl; exact .start)
    fun _ _ _ hJ hI _ hs => (State.moves_of_step hs).tabled hJ hI

/-! ## Outstanding calls -/

/-- No call in a table is done. -/
def State.Outstanding (s : State) : Prop :=
  ∀ c id k, (s.conn c).calls.lookup id = some k → (s.call k).done = false

/-- `recvRespond` is given a response that completes a call. -/
def State.Delivers (s : State) : Action → Prop
  | .recvRespond c input => 4 ≤ input.input.length ∧
      ∃ k ∈ (s.conn c).calls.lookup (intOfBytes (input.input.take 4)),
        (s.call k).Answers input.memory (input.input.drop 4)
  | _ => False

instance (s : State) : (a : Action) → Decidable (s.Delivers a)
  | .recvRespond _ _ => inferInstanceAs (Decidable (_ ∧ _))
  | .newCall .. | .getConnection .. | .connect _ | .startThread _ | .addCall | .leave
  | .sendCall .. | .finish _ | .waitForWork _ | .markClosed _ | .closeSock _
  | .removeConnection _ | .cleanupCalls _ => .isFalse id

theorem Tabled.lt_lastCall (ht : Tabled s) (h : Managed s) (hk : (s.call k).done = true) :
    k < s.lastCall := by
  by_contra hlt
  obtain ⟨c, id, hid⟩ := ht.done k hk
  have hadd := h.added c id k hid
  unfold State.Added at hadd
  rw [h.unmade k (Nat.le_of_not_lt hlt)] at hadd
  exact hadd

/-- A table with a call that is done stays one. -/
theorem Moves.outstanding_of (hm : Moves s a s') (h : Managed s) (ht : Tabled s)
    (hout : s'.Outstanding) : s.Outstanding := by
  intro c id k hid
  by_contra hdone
  have hdone : (s.call k).done = true := by simpa using hdone
  have := hout c id k (hm.lookup_mono ht hid)
  rw [hm.done_mono (ht.lt_lastCall h hdone) hdone] at this
  cases this

/-- A response keeps the tables as they should be exactly if it completes no call. -/
theorem State.outstanding_recvRespond (h : s.Outstanding) (c : ConnId) (input : Sock) :
    (s.recvRespond c input).Outstanding ↔ ¬ s.Delivers (.recvRespond c input) := by
  by_cases hfound : 4 ≤ input.input.length ∧
      ∃ k, (s.conn c).calls.lookup (intOfBytes (input.input.take 4)) = some k
  · obtain ⟨h4, k, hk⟩ := hfound
    have hdone := h c _ k hk
    have hiff := recvValue_done_iff hdone { input with input := input.input.drop 4 }
    have hdeliver : s.Delivers (.recvRespond c input) ↔
        (s.call k).Answers input.memory (input.input.drop 4) := by
      simp [State.Delivers, hk, h4]
    rw [hdeliver, ← hiff, State.recvRespond_of_found h4 hk]
    cases hval : (Connection.recvValue (s.call k)
        { input with input := input.input.drop 4 }).1 with
    | none =>
      refine iff_of_true h ?_
      simp
    | some call =>
      have hcall : ((s.setCall k call).setReceiver c (.waiting 0)).call k = call :=
        update_self ..
      constructor
      · rintro hout ⟨call', hcall', hd⟩
        cases hcall'
        have hd' := hout c _ k hk
        rw [hcall, hd] at hd'
        cases hd'
      · intro hnot c' id' j hj
        by_cases heq : j = k
        · rw [heq, hcall]
          by_contra hd
          exact hnot ⟨call, rfl, by simpa using hd⟩
        · show (update s.call k call j).done = false
          rw [update_of_ne heq]
          exact h c' id' j hj
  · obtain ⟨status, heq⟩ := State.recvRespond_of_not_found hfound
    rw [heq]
    refine iff_of_true h fun hd => hfound ?_
    obtain ⟨h4, k, hk, -⟩ := hd
    exact ⟨h4, k, hk⟩

theorem Tabled.not_done_of_adding (ht : Tabled s) (h : Managed s) (hg : s.getting = some g)
    (hpc : g.pc = .adding) : (s.call g.call).done = false := by
  by_contra hdone
  obtain ⟨c, id, hid⟩ := ht.done g.call (by simpa using hdone)
  have hadd := h.added c id _ hid
  unfold State.Added at hadd
  rw [h.caller g hg] at hadd
  obtain ⟨g', hg', -, r, hr⟩ := hadd
  rw [hg] at hg'
  cases hg'
  rw [hpc] at hr
  cases hr

theorem Moves.outstanding_of_not_recvRespond (hm : Moves s a s') (h : Managed s) (ht : Tabled s)
    (ha : ∀ c input, a ≠ .recvRespond c input) (hout : s.Outstanding) : s'.Outstanding := by
  intro c id k hid
  have hkeep : (s.call k).done = false → (s'.call k).done = false := by
    intro hk
    by_contra hdone
    rcases hm.done_cases (by simpa using hdone) with hd | ⟨c', input, -, rfl, -⟩
    · rw [hk] at hd
      cases hd
    · exact ha c' input rfl
  rcases hm.conn_cases c with ⟨heq, -⟩ | ⟨g, hg, hpc, -, -, heq, -⟩ | ⟨-, -, hnil, -⟩
  · rw [heq] at hid
    exact hkeep (hout c id k hid)
  · rw [heq] at hid
    rcases CallMap.of_lookup_add hid with hid | ⟨-, rfl⟩
    · exact hkeep (hout c id k hid)
    · exact hkeep (ht.not_done_of_adding h hg hpc)
  · rw [hnil] at hid
    cases (AList.lookup_empty (β := fun _ => CallId) id).symm.trans hid

/-- **A step** keeps the tables as they should be exactly if it completes no call. -/
theorem Moves.outstanding_iff (hm : Moves s a s') (h : Managed s) (ht : Tabled s) :
    s'.Outstanding ↔ s.Outstanding ∧ ¬ s.Delivers a := by
  constructor
  · intro hout
    have hold := hm.outstanding_of h ht hout
    refine ⟨hold, ?_⟩
    cases hm with
    | @recvRespond c input hc => exact (State.outstanding_recvRespond hold c input).mp hout
    | _ => exact id
  · rintro ⟨hold, hdeliver⟩
    by_cases ha : ∃ c input, a = .recvRespond c input
    · obtain ⟨c, input, rfl⟩ := ha
      cases hm with
      | recvRespond hc => exact (State.outstanding_recvRespond hold c input).mpr hdeliver
    · exact hm.outstanding_of_not_recvRespond h ht (fun c input he => ha ⟨c, input, he⟩) hold

theorem outstanding_iff_run {as : List Action} (h : client.Reachable s)
    (hrun : client.run (fun _ _ => True) s as = some s') :
    s'.Outstanding ↔ s.Outstanding ∧ client.run (fun s a => ¬ s.Delivers a) s as = some s' := by
  induction as generalizing s with
  | nil =>
    cases hrun
    exact (and_iff_left rfl).symm
  | cons a as ih =>
    obtain ⟨t, ht, hrun⟩ := System.exists_step_of_run hrun
    have hstep := (State.moves_of_step ht).outstanding_iff (managed_of_reachable h)
      (tabled_of_reachable h)
    rw [ih (.step h trivial ht) hrun, hstep, System.run_cons ht, and_assoc]

/-! ## What hangs on it -/

/-- The tables hold outstanding work only, and what follows from it: `recvRespond` runs only while
some call waits for a response, a response leaves the value of a finished call alone, and a
connection whose calls have all been answered is idle for `waitForWork`. -/
structure State.OnlyOutstanding (s : State) : Prop where
  table : s.Outstanding
  work : ∀ c, s.receiver c = .receiving →
    ∃ id k, (s.conn c).calls.lookup id = some k ∧ (s.call k).done = false
  value : ∀ c input k, (s.call k).done = true →
    ((s.recvRespond c input).call k).value = (s.call k).value
  idle : ∀ c, (∀ id k, (s.conn c).calls.lookup id = some k → (s.call k).done = true) →
    ∀ rep, s.waitForWork c rep =
      s.setReceiver c (if rep + 1 < maxWaitRep then .waiting (rep + 1) else .timedOut)

theorem State.Outstanding.only (h : s.Outstanding) (ht : Tabled s) : s.OnlyOutstanding where
  table := h
  work c hc := by
    obtain ⟨id, k, hid⟩ := ht.receiving c hc
    exact ⟨id, k, hid, h c id k hid⟩
  value c input k hk := by
    have hnot : ∀ id, (s.conn c).calls.lookup id ≠ some k := by
      intro id hid
      rw [h c id k hid] at hk
      cases hk
    rw [s.call_recvRespond c input hnot]
  idle c hall rep := by
    have hnil : (s.conn c).calls.entries = [] := by
      by_contra hne
      obtain ⟨id, k, hid⟩ := CallMap.exists_of_entries hne
      have hdone := hall id k hid
      rw [h c id k hid] at hdone
      cases hdone
    unfold State.waitForWork
    rw [if_neg (not_not.mpr hnil)]

/-- **The tables hold outstanding work only** at the end of exactly the runs in which no response
completes a call. -/
theorem onlyOutstanding_iff {as : List Action}
    (hrun : client.run (fun _ _ => True) .start as = some s) :
    s.OnlyOutstanding ↔ client.run (fun s a => ¬ s.Delivers a) .start as = some s := by
  have hstart : State.start.Outstanding := by
    intro c id k hid
    cases (AList.lookup_empty (β := fun _ => CallId) id).symm.trans hid
  have hiff := outstanding_iff_run (.init rfl) hrun
  rw [and_iff_right hstart] at hiff
  rw [← hiff]
  constructor
  · intro h
    exact h.table
  · intro h
    exact h.only (tabled_of_reachable (.run (.init rfl) hrun))

/-- A call for an `IntWritable` up to `recvRespond`. -/
def upToResponse : List Action :=
  [peerCall, .getConnection 0 true, .connect .connected, .startThread true, .addCall, .leave,
    .sendCall 0 true, .waitForWork 0]

/-- The response to it: the value `1`. -/
def oneResponse : Sock := ⟨intBytes 0 ++ sizeBytes 4 ++ intBytes 1, 0, .whole, 0, 0⟩

theorem onlyOutstanding_upToResponse : ∃ s,
    client.run (fun _ _ => True) .start upToResponse = some s ∧ s.receiver 0 = .receiving ∧
      s.OnlyOutstanding := by
  have hrun : (client.run (fun s a => ¬ s.Delivers a) .start upToResponse).any
      (fun s => s.receiver 0 = .receiving) = true := by decide +kernel
  obtain ⟨s, hs, hreceiver⟩ := (Option.any_eq_true _ _).mp hrun
  have hs' : client.run (fun _ _ => True) .start upToResponse = some s :=
    System.run_mono (fun _ _ _ => trivial) hs
  exact ⟨s, hs', of_decide_eq_true hreceiver, (onlyOutstanding_iff hs').mpr hs⟩

/-- The call is answered and stays in the table. -/
theorem answered_not_onlyOutstanding : ¬ ∀ s, client.Reachable s → s.OnlyOutstanding := by
  intro h
  have hrun : (client.run (fun _ _ => True) .start
      (upToResponse ++ [.recvRespond 0 oneResponse])).any (fun s =>
        (s.conn 0).calls.lookup 0 = some 0 ∧ (s.call 0).done = true) = true := by decide +kernel
  obtain ⟨s, hs, hfacts⟩ := (Option.any_eq_true _ _).mp hrun
  obtain ⟨hid, hdone⟩ := of_decide_eq_true hfacts
  have hout := (h s (.run (.init rfl) hs)).table 0 0 0 hid
  rw [hdone] at hout
  cases hout

end PRpc.Client
