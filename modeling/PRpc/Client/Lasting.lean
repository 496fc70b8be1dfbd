import PRpc.Client.Removal

/-!
# A connection that was used

A connection is closed after waits in which its table is empty, and no call leaves a table. So once
a call is in the table, and the receiver thread has not come to the end of its waits by then, the
connection stays: its thread never leaves the loop, the socket stays connected, the entry stays in
the map, and no other connection is ever made for its endpoint (`lasts_of_run`). Idle closing is
for connections on which no call was registered in time.

A socket that could not be connected stays as it is, too: a receiver thread, which alone closes a
socket, is only started for one that is connected (`Plugged`).
-/

namespace PRpc.Client

open Function

variable {s s' t : State} {a : Action} {k : CallId} {c c' : ConnId}

/-- A call was registered before the receiver thread gave up. -/
structure Used (s : State) (c : ConnId) : Prop where
  called : ∃ id, id ∈ (s.conn c).calls
  waits : s.receiver c ≠ .timedOut
  unmarked : (s.conn c).shouldClose = false

namespace Used

theorem lt (h : Used s c) (ht : Tabled s) : c < s.lastConnectionIndex := by
  by_contra hle
  obtain ⟨id, hid⟩ := h.called
  rw [ht.fresh c (Nat.le_of_not_lt hle)] at hid
  exact AList.notMem_empty id hid

theorem not_closing (h : Used s c) (hM : Managed s) : ¬ (s.receiver c).Closing := by
  intro hclosing
  have hmarked := hM.closing c hclosing
  rw [h.unmarked] at hmarked
  cases hmarked

theorem entry (h : Used s c) (hr : client.Reachable s) :
    s.connections (s.conn c).ep.key = some c := by
  have hclosing := h.not_closing (managed_of_reachable hr)
  refine (mapped_of_reachable hr).present c (h.lt (tabled_of_reachable hr)) ?_
  cases hc : s.receiver c with
  | cleaning | exited => exact absurd (by rw [hc]; trivial) hclosing
  | _ => rfl

end Used

/-! ## What a step does to a connection -/

/-- `waitForWork` comes to its end only with an empty table. -/
theorem Moves.timedOut_cases (hm : Moves s a s') (h : s'.receiver c = .timedOut) :
    s.receiver c = .timedOut ∨ (s.conn c).calls.entries = [] := by
  have hupdate : ∀ {c' : ConnId} {pc : ReceiverPc}, pc ≠ .timedOut →
      update s.receiver c' pc c = .timedOut → s.receiver c = .timedOut := by
    intro c' pc hpc hr
    rw [update_apply] at hr
    split at hr
    · exact absurd hr hpc
    · exact hr
  cases hm with
  | connect | sendCall => exact .inl (by simpa using h)
  | @startThread g ok hg hpc =>
    unfold State.startThread at h
    split at h
    · exact .inl (hupdate (by simp) h)
    · exact .inl h
  | @waitForWork c' rep hc =>
    change update s.receiver c' _ c = .timedOut at h
    by_cases hnil : (s.conn c').calls.entries = []
    · by_cases heq : c = c'
      · exact .inr (heq ▸ hnil)
      · rw [update_of_ne heq] at h
        exact .inl h
    · rw [if_pos hnil] at h
      exact .inl (hupdate (by simp) h)
  | @recvRespond c' input hc =>
    obtain ⟨status, call, -, heq | heq⟩ := s.recvRespond_eq c' input
    · rw [heq] at h
      exact .inl h
    · rw [heq] at h
      exact .inl (hupdate (by simp) h)
  | markClosed | closeSock | removeConnection => exact .inl (hupdate (by simp) h)
  | @cleanupCalls c' hc =>
    unfold State.cleanupCalls at h
    split at h
    · exact .inl (hupdate (by simp) h)
    · exact .inl h
  | _ => exact .inl h

theorem Moves.ep_eq (hm : Moves s a s') (hlt : c < s.lastConnectionIndex) :
    (s'.conn c).ep = (s.conn c).ep := by
  cases hm with
  | @create ep k isNull hg hk hc =>
    show (update s.conn s.lastConnectionIndex _ c).ep = _
    rw [update_of_ne (Nat.ne_of_lt hlt)]
  | @connect g result => exact s.connect_field g result Connection.ep (fun _ _ => rfl) c
  | @startThread g ok => exact s.startThread_field g ok Connection.ep (fun _ _ => rfl) c
  | addCall | markClosed | closeSock =>
    refine update_field Connection.ep ?_ c
    rfl
  | sendCall | recvRespond | cleanupCalls => simp
  | _ => rfl

/-- A socket stays what it is until it is closed: `connect` does nothing about one that is not
null. -/
theorem Moves.sock_cases (hm : Moves s a s') (hlt : c < s.lastConnectionIndex)
    (h : (s.conn c).sock ≠ .null) :
    (s'.conn c).sock = (s.conn c).sock ∨ a = .closeSock c := by
  cases hm with
  | @create ep k isNull hg hk hc =>
    refine .inl ?_
    show (update s.conn s.lastConnectionIndex _ c).sock = _
    rw [update_of_ne (Nat.ne_of_lt hlt)]
  | @connect g result hg hpc =>
    refine .inl ?_
    unfold State.connect
    split
    · next hopens =>
      have hne : c ≠ g.conn := by
        rintro rfl
        exact h hopens.2
      have hsame (sock : SockPtr) (pc : GetPc) :
          (((s.setSock g sock).goOn g pc).conn c).sock = (s.conn c).sock := by
        show (update s.conn g.conn _ c).sock = _
        rw [update_of_ne hne]
      cases result with
      | noSocket => rfl
      | refused => exact hsame _ _
      | connected => exact hsame _ _
    · rfl
  | @startThread g ok =>
    exact .inl (s.startThread_field g ok Connection.sock (fun _ _ => rfl) c)
  | addCall | markClosed =>
    refine .inl (update_field Connection.sock ?_ c)
    rfl
  | @closeSock c' hc =>
    by_cases heq : c = c'
    · exact .inr (heq ▸ rfl)
    · refine .inl ?_
      show (update s.conn c' _ c).sock = _
      rw [update_of_ne heq]
  | sendCall | recvRespond | cleanupCalls => simp
  | _ => exact .inl rfl

/-- A connection is made only for an endpoint that has none in the map. -/
theorem Moves.new_cases (hm : Moves s a s') (hle : s.lastConnectionIndex ≤ c)
    (hlt : c < s'.lastConnectionIndex) : s.connections (s'.conn c).ep.key = none := by
  cases hm with
  | @create ep k isNull hg hk hc =>
    change c < s.lastConnectionIndex + 1 at hlt
    have hnew : c = s.lastConnectionIndex := Nat.le_antisymm (Nat.le_of_lt_succ hlt) hle
    show s.connections (update s.conn s.lastConnectionIndex _ c).ep.key = none
    rw [hnew, update_self]
    exact hc
  | connect | startThread | sendCall | recvRespond | cleanupCalls =>
    exact absurd (by simpa using hlt) (Nat.not_lt.mpr hle)
  | _ => exact absurd hlt (Nat.not_lt.mpr hle)

theorem Moves.used (hm : Moves s a s') (ht : Tabled s) (h : Used s c) : Used s' c where
  called := by
    obtain ⟨id, hid⟩ := h.called
    exact ⟨id, mem_calls_mono hm ht hid⟩
  waits hout := by
    obtain ⟨id, hid⟩ := h.called
    obtain ⟨k, hk⟩ := Option.isSome_iff_exists.mp (AList.lookup_isSome.mpr hid)
    rcases hm.timedOut_cases hout with hold | hnil
    · exact h.waits hold
    · have hmem := AList.mem_lookup_iff.mp hk
      rw [hnil] at hmem
      exact List.not_mem_nil hmem
  unmarked := by
    by_contra hmarked
    rcases hm.shouldClose_cases (c := c) (by simpa using hmarked) with hold | rfl
    · rw [h.unmarked] at hold
      cases hold
    · cases hm with
      | markClosed hc => exact h.waits hc

/-! ## The sockets of the receiver threads -/

/-- A receiver thread is started for a socket that is connected. -/
structure Plugged (s : State) : Prop where
  started : ∀ c, (s.conn c).recvStarted = true →
    (s.conn c).sock = .connected ∨ (s.conn c).sock = .deleted
  starting : ∀ g ∈ s.getting, g.pc = .starting →
    (s.conn g.conn).sock = .connected ∧ (s.conn g.conn).recvStarted = false

namespace Plugged

theorem start : Plugged .start where
  started _ h := by cases h
  starting _ h := by cases h

theorem of_conn (h : Plugged s) (hsock : ∀ c, (s'.conn c).sock = (s.conn c).sock)
    (hstarted : ∀ c, (s'.conn c).recvStarted = (s.conn c).recvStarted)
    (hgetting : ∀ g ∈ s'.getting, g.pc = .starting → g ∈ s.getting) : Plugged s' where
  started c hc := by
    rw [hstarted] at hc
    rw [hsock]
    exact h.started c hc
  starting g hg hpc := by
    rw [hsock, hstarted]
    exact h.starting g (hgetting g hg hpc) hpc

theorem connect {g : Getting} (h : Plugged s) (result : ConnectResult) :
    Plugged (s.connect g result) := by
  have hother (pc : GetPc) (hpc : pc ≠ .starting) : Plugged (s.goOn g pc) :=
    h.of_conn (fun _ => rfl) (fun _ => rfl) fun g' hg' hpc' => by
      cases hg'
      exact absurd hpc' hpc
  unfold State.connect
  split
  · next hopens =>
    have hflag : (s.conn g.conn).recvStarted = false := by
      by_contra hne
      have hsock := h.started g.conn (by simpa using hne)
      rw [hopens.2] at hsock
      rcases hsock with hsock | hsock <;> cases hsock
    have hstarted (sock : SockPtr) (c : ConnId)
        (hc : ((s.setSock g sock).conn c).recvStarted = true) :
        ((s.setSock g sock).conn c).sock = .connected ∨
          ((s.setSock g sock).conn c).sock = .deleted := by
      change (update s.conn g.conn _ c).recvStarted = true at hc
      show (update s.conn g.conn _ c).sock = _ ∨ (update s.conn g.conn _ c).sock = _
      by_cases heq : c = g.conn
      · rw [heq, update_self] at hc
        exact absurd hc (by simp [hflag])
      · rw [update_of_ne heq] at hc ⊢
        exact h.started c hc
    cases result with
    | noSocket => exact hother .adding (by simp)
    | refused =>
      refine ⟨hstarted _, fun g' hg' hpc => ?_⟩
      cases hg'
      cases hpc
    | connected =>
      refine ⟨hstarted _, fun g' hg' _ => ?_⟩
      cases hg'
      show (update s.conn g.conn _ g.conn).sock = _ ∧
        (update s.conn g.conn _ g.conn).recvStarted = _
      rw [update_self]
      exact ⟨rfl, hflag⟩
  · exact hother .adding (by simp)

theorem startThread {g : Getting} (h : Plugged s) (hg : s.getting = some g)
    (hpc : g.pc = .starting) (ok : Bool) : Plugged (s.startThread g ok) := by
  have hvacuous : ∀ g' ∈ (s.startThread g ok).getting, g'.pc ≠ .starting := by
    intro g' hg' hpc'
    unfold State.startThread at hg'
    split at hg' <;> cases hg' <;> cases hpc'
  have hsock := s.startThread_field g ok Connection.sock fun _ _ => rfl
  refine ⟨fun c hc => ?_, fun g' hg' hpc' => absurd hpc' (hvacuous g' hg')⟩
  rw [hsock]
  by_cases heq : c = g.conn
  · rw [heq]
    exact .inl (h.starting g hg hpc).1
  · unfold State.startThread at hc
    split at hc
    · change (update s.conn g.conn _ c).recvStarted = true at hc
      rw [update_of_ne heq] at hc
      exact h.started c hc
    · exact h.started c hc

end Plugged

theorem Moves.plugged (hm : Moves s a s') (hmap : Mapped s) (h : Plugged s) : Plugged s' := by
  cases hm with
  | reuse =>
    refine h.of_conn (fun _ => rfl) (fun _ => rfl) fun g hg hpc => ?_
    cases hg
    cases hpc
  | @create ep k isNull hg hk hc =>
    refine ⟨fun c hstarted => ?_, fun g hg hpc => ?_⟩
    · change (update s.conn s.lastConnectionIndex _ c).recvStarted = true at hstarted
      show (update s.conn s.lastConnectionIndex _ c).sock = _ ∨
        (update s.conn s.lastConnectionIndex _ c).sock = _
      by_cases heq : c = s.lastConnectionIndex
      · rw [heq, update_self] at hstarted
        cases hstarted
      · rw [update_of_ne heq] at hstarted ⊢
        exact h.started c hstarted
    · cases hg
      cases hpc
  | connect => exact h.connect _
  | startThread hg hpc => exact h.startThread hg hpc _
  | @addCall g hg hpc =>
    have hsock : ∀ c, ((s.addCall g).conn c).sock = (s.conn c).sock :=
      update_field Connection.sock rfl
    have hflag : ∀ c, ((s.addCall g).conn c).recvStarted = (s.conn c).recvStarted :=
      update_field Connection.recvStarted rfl
    refine h.of_conn hsock hflag fun g' hg' hpc' => ?_
    cases hg'
    cases hpc'
  | leave => exact h.of_conn (fun _ => rfl) (fun _ => rfl) fun g hg _ => by cases hg
  | sendCall | recvRespond | cleanupCalls =>
    exact h.of_conn (by simp) (by simp) fun _ hg _ => by simpa using hg
  | @markClosed c hc =>
    have hsock : ∀ c', ((s.markClosed c).conn c').sock = (s.conn c').sock :=
      update_field Connection.sock rfl
    have hflag : ∀ c', ((s.markClosed c).conn c').recvStarted = (s.conn c').recvStarted :=
      update_field Connection.recvStarted rfl
    exact h.of_conn hsock hflag fun _ hg _ => hg
  | @closeSock c hc =>
    -- its thread has been started
    have hstarted := hmap.started c (by simp [hc])
    have hflag : ∀ c', ((s.closeSock c).conn c').recvStarted = (s.conn c').recvStarted :=
      update_field Connection.recvStarted rfl
    refine ⟨fun c' hc' => ?_, fun g hg hpc => ?_⟩
    · rw [hflag] at hc'
      show (update s.conn c _ c').sock = _ ∨ (update s.conn c _ c').sock = _
      by_cases heq : c' = c
      · rw [heq, update_self]
        exact .inr rfl
      · rw [update_of_ne heq]
        exact h.started c' hc'
    · obtain ⟨hsock, hoff⟩ := h.starting g hg hpc
      have hne : g.conn ≠ c := by
        rintro rfl
        rw [hstarted] at hoff
        cases hoff
      rw [hflag]
      show (update s.conn c _ g.conn).sock = _ ∧ _
      rw [update_of_ne hne]
      exact ⟨hsock, hoff⟩
  | _ => exact h.of_conn (fun _ => rfl) (fun _ => rfl) fun _ hg _ => hg

theorem plugged_of_reachable (h : client.Reachable s) : Plugged s :=
  h.invariant_of (fun _ => mapped_of_reachable) (by rintro _ rfl; exact .start)
    fun _ _ _ hJ hI _ hs => (State.moves_of_step hs).plugged hJ hI

theorem Moves.unconnected (hm : Moves s a s') (hmap : Mapped s) (hP : Plugged s)
    (hlt : c < s.lastConnectionIndex) (h : (s.conn c).sock = .unconnected) :
    (s'.conn c).sock = .unconnected := by
  rcases hm.sock_cases hlt (by simp [h]) with hsame | rfl
  · exact hsame.trans h
  · cases hm with
    | closeSock hc =>
      have hsock := hP.started c (hmap.started c (by simp [hc]))
      rw [h] at hsock
      rcases hsock with hsock | hsock <;> cases hsock

/-! ## Over runs -/

/-- What is so in `t`, some time after the connection was used in `s`: it still is and has the
endpoint that it had, a socket that was connected is, the map has the connection, those that were
made since are for other endpoints, and a thread that asks for its endpoint gets it. -/
structure Lasts (s : State) (c : ConnId) (t : State) : Prop where
  used : Used t c
  running : ¬ (t.receiver c).Closing
  endpoint : (t.conn c).ep = (s.conn c).ep
  connected : (s.conn c).sock = .connected → (t.conn c).sock = .connected
  entry : t.connections (s.conn c).ep.key = some c
  only : ∀ c', s.lastConnectionIndex ≤ c' → c' < t.lastConnectionIndex →
    (t.conn c').ep ≠ (s.conn c).ep
  reuse : ∀ k isNull t', t.caller k = .made (s.conn c).ep →
    t.step (.getConnection k isNull) = some t' → t' = t.enter (s.conn c).ep k c

theorem reuse_of_entry {ep : Endpoint} (h : t.connections ep.key = some c) (k : CallId)
    (isNull : Bool) (s' : State) (hk : t.caller k = .made ep)
    (hs : t.step (.getConnection k isNull) = some s') : s' = t.enter ep k c := by
  cases State.moves_of_step hs with
  | reuse hg hk' hc =>
    obtain rfl := CallerPc.made.inj (hk.symm.trans hk')
    rw [Option.some.inj (hc.symm.trans h)]
  | create hg hk' hc =>
    obtain rfl := CallerPc.made.inj (hk.symm.trans hk')
    cases h.symm.trans hc

theorem Lasts.refl (hr : client.Reachable s) (h : Used s c) : Lasts s c s where
  used := h
  running := h.not_closing (managed_of_reachable hr)
  endpoint := rfl
  connected := id
  entry := h.entry hr
  only _ hle hlt := absurd hlt (Nat.not_lt.mpr hle)
  reuse := reuse_of_entry (h.entry hr)

theorem Lasts.step (h : Lasts s c t) (hr : client.Reachable t) (hs : t.step a = some s') :
    Lasts s c s' := by
  have hm := State.moves_of_step hs
  have hr' : client.Reachable s' := hr.step trivial hs
  have hlt := h.used.lt (tabled_of_reachable hr)
  have hused := hm.used (tabled_of_reachable hr) h.used
  have hep : (s'.conn c).ep = (s.conn c).ep := (hm.ep_eq hlt).trans h.endpoint
  have hentry : s'.connections (s.conn c).ep.key = some c := hep ▸ hused.entry hr'
  refine ⟨hused, hused.not_closing (managed_of_reachable hr'), hep, fun hsock => ?_, hentry,
    fun c' hle hlt' => ?_, reuse_of_entry hentry⟩
  · have hold := h.connected hsock
    rcases hm.sock_cases hlt (by simp [hold]) with hsame | rfl
    · exact hsame.trans hold
    · cases hm with
      | closeSock hc => exact absurd (by rw [hc]; trivial) h.running
  · by_cases hold : c' < t.lastConnectionIndex
    · rw [hm.ep_eq hold]
      exact h.only c' hle hold
    · intro heq
      have hnone := hm.new_cases (Nat.le_of_not_lt hold) hlt'
      rw [heq, h.entry] at hnone
      cases hnone

theorem Lasts.run {as : List Action} (h : Lasts s c t) (hr : client.Reachable t)
    (hrun : client.run (fun _ _ => True) t as = some s') : Lasts s c s' := by
  induction as generalizing t with
  | nil =>
    cases hrun
    exact h
  | cons a as ih =>
    obtain ⟨u, hu, hrun⟩ := System.exists_step_of_run hrun
    exact ih (h.step hr hu) (hr.step trivial hu) hrun

/-- **A connection that was used stays**, whatever the threads do. -/
theorem lasts_of_run {as : List Action} (hr : client.Reachable s) (h : Used s c)
    (hrun : client.run (fun _ _ => True) s as = some t) : Lasts s c t :=
  (Lasts.refl hr h).run hr hrun

/-- The only call is answered and returns, and there is another one for the same endpoint. -/
def afterResponse : List Action := [.recvRespond 0 oneResponse, .finish 0, .waitForWork 0, peerCall]

theorem lasts_of_run_afterResponse : ∃ s t,
    client.run (fun _ _ => True) .start upToResponse = some s ∧
      client.run (fun _ _ => True) s afterResponse = some t ∧
      t.caller 0 = .returned ∧ Lasts s 0 t := by
  have hrun : (client.run (fun _ _ => True) .start upToResponse).any (fun s =>
      0 ∈ (s.conn 0).calls ∧ s.receiver 0 = .receiving ∧ (s.conn 0).shouldClose = false ∧
        (client.run (fun _ _ => True) s afterResponse).any (fun t =>
          t.caller 0 = .returned) = true) = true := by decide +kernel
  obtain ⟨s, hs, hfacts⟩ := (Option.any_eq_true _ _).mp hrun
  obtain ⟨hid, hreceiver, hclose, hrun'⟩ := of_decide_eq_true hfacts
  obtain ⟨t, ht, hcaller⟩ := (Option.any_eq_true _ _).mp hrun'
  refine ⟨s, t, hs, ht, of_decide_eq_true hcaller, lasts_of_run (.run (.init rfl) hs) ?_ ht⟩
  exact ⟨⟨0, hid⟩, by simp [hreceiver], hclose⟩

end PRpc.Client
