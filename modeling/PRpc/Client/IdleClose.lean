import PRpc.Client.Outstanding

/-!
# Idle closing

A receiver thread that has waited long enough marks its connection, closes the socket, removes the
connection from the client's map and erases the calls, one step after the other. Nothing of this
looks at a caller that has the connection in its hands or at a call that was registered after the
last wait, and `getConnection` hands out a marked connection as long as it is in the map. A caller
is left alone only where neither happens (`Patient`), and there nothing is marked at all.
-/

namespace PRpc.Client

open Function

variable {s s' : State} {a : Action} {k : CallId} {c : ConnId} {g g' : Getting}

/-- No call is about to be added to or sent on a connection that is marked for closing, and none
that is not done is about to be erased while its caller has not returned. -/
structure Unstranded (s : State) : Prop where
  adding : ∀ g ∈ s.getting, g.pc = .adding → (s.conn g.conn).shouldClose = false
  sending : ∀ k c, s.caller k = .got c → (s.conn c).shouldClose = false
  erasing : ∀ c, s.receiver c = .cleaning → ∀ id k, (s.conn c).calls.lookup id = some k →
    s.caller k ≠ .returned → (s.call k).done = true

/-- A connection is marked only while it has no call and no thread has it in `getConnection`;
`getConnection` finds no connection that is marked. No `markClosed` that can be taken is so: in a
run of such steps nothing is ever marked (`Attended.unmarked`). -/
def Patient (s : State) : Action → Prop
  | .markClosed c => (s.conn c).calls.entries = [] ∧ ∀ g ∈ s.getting, g.conn ≠ c
  | .getConnection k _ => ∀ ep ∈ (s.caller k).endpoint, ∀ c ∈ s.connections ep.key,
      (s.conn c).shouldClose = false
  | _ => True

instance (s : State) : (a : Action) → Decidable (Patient s a)
  | .markClosed _ => inferInstanceAs (Decidable (_ ∧ ∀ _ ∈ _, _))
  | .getConnection _ _ => inferInstanceAs (Decidable (∀ _ ∈ _, ∀ _ ∈ _, _))
  | .newCall .. | .connect _ | .startThread _ | .addCall | .leave | .sendCall .. | .finish _
  | .waitForWork _ | .recvRespond .. | .closeSock _ | .removeConnection _ | .cleanupCalls _ =>
    .isTrue trivial

/-! ## What a step can do to a caller -/

theorem Moves.shouldClose_cases (hm : Moves s a s') (h : (s'.conn c).shouldClose = true) :
    (s.conn c).shouldClose = true ∨ a = .markClosed c := by
  rcases hm.conn_cases c with ⟨-, heq | rfl⟩ | ⟨g, -, -, -, -, -, heq⟩ | ⟨-, -, -, hnew⟩
  · exact .inl (heq.symm.trans h)
  · exact .inr rfl
  · exact .inl (heq.symm.trans h)
  · rw [hnew] at h
    cases h

/-- The thread in `getConnection` comes to the end by `addCall`. -/
theorem Moves.getting_cases (hm : Moves s a s') (hg' : s'.getting = some g') {r : Option ConnId}
    (hr : g'.pc = .returning r) : ∃ g, s.getting = some g ∧ g'.conn = g.conn ∧
      (g.pc = .returning r ∨ s' = s.addCall g) := by
  have hsame : s'.getting = s.getting → ∃ g, s.getting = some g ∧ g'.conn = g.conn ∧
      (g.pc = .returning r ∨ s' = s.addCall g) :=
    fun heq => ⟨g', heq ▸ hg', rfl, .inl hr⟩
  cases hm with
  | reuse => cases hg'; cases hr
  | create => cases hg'; cases hr
  | @connect g result hg hpc =>
    unfold State.connect at hg'
    split at hg'
    · cases result <;> cases hg' <;> cases hr
    · cases hg'
      cases hr
  | @startThread g ok hg hpc =>
    unfold State.startThread at hg'
    split at hg' <;> cases hg' <;> cases hr
  | @addCall g hg hpc =>
    cases hg'
    exact ⟨g, hg, rfl, .inr rfl⟩
  | leave => cases hg'
  | sendCall | recvRespond | cleanupCalls => exact hsame (by simp)
  | _ => exact hsame rfl

/-- The thread in `getConnection` stays there with its connection until it comes to the end. -/
theorem Moves.hand_cases (hm : Moves s a s') (hg : s.getting = some g) :
    (∃ g' ∈ s'.getting, g'.conn = g.conn) ∨ ∃ r, g.pc = .returning r := by
  have hsame (heq : s'.getting = s.getting) : ∃ g' ∈ s'.getting, g'.conn = g.conn :=
    ⟨g, heq.trans hg, rfl⟩
  cases hm with
  | reuse hg' | create hg' =>
    rw [hg'] at hg
    cases hg
  | @connect g₁ result hg' hpc =>
    obtain rfl := Option.some.inj (hg'.symm.trans hg)
    unfold State.connect
    split
    · cases result <;> exact .inl ⟨_, rfl, rfl⟩
    · exact .inl ⟨_, rfl, rfl⟩
  | @startThread g₁ ok hg' hpc =>
    obtain rfl := Option.some.inj (hg'.symm.trans hg)
    unfold State.startThread
    split <;> exact .inl ⟨_, rfl, rfl⟩
  | @addCall g₁ hg' hpc =>
    obtain rfl := Option.some.inj (hg'.symm.trans hg)
    exact .inl ⟨_, rfl, rfl⟩
  | @leave g₁ conn hg' hpc =>
    obtain rfl := Option.some.inj (hg'.symm.trans hg)
    exact .inr ⟨conn, hpc⟩
  | sendCall | recvRespond | cleanupCalls => exact .inl (hsame (by simp))
  | _ => exact .inl (hsame rfl)

theorem Moves.receiver_cases (hm : Moves s a s') (h : s'.receiver c ≠ .off) :
    s.receiver c ≠ .off ∨ ∃ g ∈ s'.getting, g.conn = c := by
  have hupdate {c' : ConnId} {pc : ReceiverPc} (hc' : s.receiver c' ≠ .off)
      (h : update s.receiver c' pc c ≠ .off) : s.receiver c ≠ .off := by
    by_cases heq : c = c'
    · rw [heq]
      exact hc'
    · rwa [update_of_ne heq] at h
  cases hm with
  | connect => exact .inl (by simpa using h)
  | sendCall => exact .inl (by simpa using h)
  | @startThread g ok hg hpc =>
    unfold State.startThread at h ⊢
    split at h
    · next hok =>
      rw [if_pos hok]
      change update s.receiver g.conn (.waiting 0) c ≠ .off at h
      by_cases heq : c = g.conn
      · exact .inr ⟨_, rfl, heq.symm⟩
      · rw [update_of_ne heq] at h
        exact .inl h
    · exact .inl h
  | waitForWork hc => exact .inl (hupdate (by simp [hc]) h)
  | @recvRespond c' input hc =>
    refine .inl ?_
    unfold State.recvRespond at h
    dsimp only at h
    split at h
    · exact h
    · exact h
    · exact hupdate (by simp [hc]) h
    · next id call _ =>
      cases hk : (s.conn c').calls.lookup id with
      | none =>
        rw [hk] at h
        exact hupdate (by simp [hc]) h
      | some k =>
        rw [hk] at h
        exact hupdate (by simp [hc]) h
  | markClosed hc => exact .inl (hupdate (by simp [hc]) h)
  | closeSock hc => exact .inl (hupdate (by simp [hc]) h)
  | removeConnection hc => exact .inl (hupdate (by simp [hc]) h)
  | cleanupCalls hc =>
    unfold State.cleanupCalls at h
    split at h
    · exact .inl (hupdate (by simp [hc]) h)
    · exact .inl h
  | _ => exact .inl h

/-! ## The invariant -/

/-- Nothing is marked: from the start of its receiver thread on, a connection is in the hands of a
thread in `getConnection` or has a call. -/
structure Attended (s : State) : Prop where
  unmarked : ∀ c, (s.conn c).shouldClose = false
  started : ∀ c, s.receiver c ≠ .off →
    (∃ g ∈ s.getting, g.conn = c) ∨ ∃ id, id ∈ (s.conn c).calls
  added : ∀ g ∈ s.getting, ∀ r, g.pc = .returning r → ∃ id, id ∈ (s.conn g.conn).calls

namespace Attended

theorem start : Attended .start where
  unmarked _ := rfl
  started _ h := absurd rfl h
  added _ h := by cases h

theorem unstranded (h : Attended s) (hM : Managed s) : Unstranded s where
  adding g _ _ := h.unmarked g.conn
  sending _ c _ := h.unmarked c
  erasing c hc _ _ _ _ := by
    have hmarked := hM.closing c (by rw [hc]; trivial)
    rw [h.unmarked c] at hmarked
    cases hmarked

end Attended

theorem mem_calls_mono (hm : Moves s a s') (ht : Tabled s) {id : CInt}
    (h : id ∈ (s.conn c).calls) : id ∈ (s'.conn c).calls := by
  obtain ⟨k, hk⟩ := Option.isSome_iff_exists.mp (AList.lookup_isSome.mpr h)
  exact AList.lookup_isSome.mp (hm.lookup_mono ht hk ▸ rfl)

theorem Moves.attended (hm : Moves s a s') (ht : Tabled s) (hC : Patient s a) (h : Attended s) :
    Attended s' where
  unmarked c := by
    by_contra hmarked
    rcases hm.shouldClose_cases (c := c) (by simpa using hmarked) with hold | rfl
    · rw [h.unmarked c] at hold
      cases hold
    cases hm with
    | markClosed hc =>
      rcases h.started c (by simp [hc]) with ⟨g, hg, hconn⟩ | ⟨id, hid⟩
      · exact hC.2 g hg hconn
      · obtain ⟨k, hk⟩ := Option.isSome_iff_exists.mp (AList.lookup_isSome.mpr hid)
        have hmem := AList.mem_lookup_iff.mp hk
        rw [hC.1] at hmem
        cases hmem
  started c hc := by
    rcases hm.receiver_cases hc with hc | hhand
    · rcases h.started c hc with ⟨g, hg, rfl⟩ | ⟨id, hid⟩
      · rcases hm.hand_cases hg with hhand | ⟨r, hr⟩
        · exact .inl hhand
        · obtain ⟨id, hid⟩ := h.added g hg r hr
          exact .inr ⟨id, mem_calls_mono hm ht hid⟩
      · exact .inr ⟨id, mem_calls_mono hm ht hid⟩
    · exact .inl hhand
  added g' hg' r hr := by
    obtain ⟨g, hg, hconn, hpc | rfl⟩ := hm.getting_cases hg' hr
    · rw [hconn]
      obtain ⟨id, hid⟩ := h.added g hg r hpc
      exact ⟨id, mem_calls_mono hm ht hid⟩
    · rw [hconn]
      have hcalls : ((s.addCall g).conn g.conn).calls =
          (s.conn g.conn).calls.add (s.conn g.conn).lastCallIndex g.call := by
        show (update s.conn g.conn ((s.conn g.conn).addCall g.call) g.conn).calls = _
        rw [update_self]
        rfl
      rw [hcalls]
      exact ⟨_, CallMap.mem_add⟩

theorem attended_of_reach (h : client.Reach Patient s) : Attended s :=
  h.invariant_of (J := Tabled) (fun _ hs => tabled_of_reachable hs) (by rintro _ rfl; exact .start)
    fun _ _ _ ht hI hC hs => (State.moves_of_step hs).attended ht hC hI

/-- **Nobody is stranded** in a run of patient steps. -/
theorem unstranded_of_patient (h : client.Reach Patient s) : Unstranded s :=
  (attended_of_reach h).unstranded (managed_of_reachable h.reachable)

/-- The receiver thread of a new connection waits its five times while the caller is still in
`getConnection`. -/
def fiveWaits : List Action :=
  [peerCall, .getConnection 0 true, .connect .connected, .startThread true] ++
    List.replicate 5 (.waitForWork 0)

/-- A caller whose `addCall` comes before the last wait. -/
theorem unstranded_upToResponse : ∃ s, client.run Patient .start upToResponse = some s ∧
    s.caller 0 = .waiting 0 ∧ Unstranded s := by
  have hrun : (client.run Patient .start upToResponse).any
      (fun s => s.caller 0 = .waiting 0) = true := by decide +kernel
  obtain ⟨s, hs, hcaller⟩ := (Option.any_eq_true _ _).mp hrun
  exact ⟨s, hs, of_decide_eq_true hcaller, unstranded_of_patient (.run (.init rfl) hs)⟩

/-- The connection is marked, and the call is added to it all the same. -/
theorem fiveWaits_stranded : ¬ ∀ s, client.Reachable s → Unstranded s := by
  intro h
  have hrun : (client.run (fun _ _ => True) .start (fiveWaits ++ [.markClosed 0])).any (fun s =>
      s.getting = some ⟨peer, 0, 0, .adding⟩ ∧ (s.conn 0).shouldClose = true) = true := by
    decide +kernel
  obtain ⟨s, hs, hfacts⟩ := (Option.any_eq_true _ _).mp hrun
  obtain ⟨hg, hmarked⟩ := of_decide_eq_true hfacts
  have hopen := (h s (.run (.init rfl) hs)).adding _ hg rfl
  rw [hmarked] at hopen
  cases hopen

end PRpc.Client
