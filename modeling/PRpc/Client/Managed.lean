import PRpc.Client.State

/-!
# The invariant of a client

Every entry of `_connections` is for its own endpoint, the calls in the tables are those that
`addCall` has registered, and a receiver thread that closes its connection has marked it.
-/

namespace PRpc.Client

open Function

variable {s s' : State} {a : Action} {k : CallId} {c : ConnId} {g : Getting}

/-- By where its thread is, the call `k` was registered by `addCall`. -/
def CallerPc.Added (getting : Option Getting) (k : CallId) : CallerPc → Prop
  | .unmade | .made _ => False
  | .getting => ∃ g ∈ getting, g.call = k ∧ ∃ r, g.pc = .returning r
  | .got _ | .waiting _ | .returned => True

/-- Outside of `getConnection` it does not matter which thread is inside. -/
theorem CallerPc.Added.of_ne {pc : CallerPc} {getting getting' : Option Getting}
    (h : pc.Added getting k) (hne : pc ≠ .getting) : pc.Added getting' k := by
  cases pc with
  | getting => exact absurd rfl hne
  | unmade | made => exact h.elim
  | got | waiting | returned => trivial

def State.Added (s : State) (k : CallId) : Prop := (s.caller k).Added s.getting k

/-- What is so in every reachable state. -/
structure Managed (s : State) : Prop where
  unmade : ∀ k, s.lastCall ≤ k → s.caller k = .unmade
  entry : ∀ key c, s.connections key = some c →
    c < s.lastConnectionIndex ∧ (s.conn c).ep.key = key
  caller : ∀ g ∈ s.getting, s.caller g.call = .getting
  getting : ∀ g ∈ s.getting, g.conn < s.lastConnectionIndex ∧ (s.conn g.conn).ep.key = g.ep.key
  result : ∀ g ∈ s.getting, ∀ r, g.pc = .returning r → r = some g.conn
  added : ∀ c id k, (s.conn c).calls.lookup id = some k → s.Added k
  off : ∀ c, s.lastConnectionIndex ≤ c → s.receiver c = .off
  closing : ∀ c, (s.receiver c).Closing → (s.conn c).shouldClose = true

namespace Managed

theorem start : Managed .start where
  unmade _ _ := rfl
  entry _ _ h := by cases h
  caller _ h := by cases h
  getting _ h := by cases h
  result _ h := by cases h
  added c id k h := by cases (AList.lookup_empty (β := fun _ => CallId) id).symm.trans h
  off _ _ := rfl
  closing _ h := h.elim

theorem setCaller (h : Managed s) {pc : CallerPc} (hk : (∃ c, s.caller k = .got c) ∨
    ∃ c, s.caller k = .waiting c) (hpc : (∃ c, pc = .waiting c) ∨ pc = .returned) :
    Managed (s.setCaller k pc) := by
  have hne : s.caller k ≠ .getting ∧ s.caller k ≠ .unmade := by
    rcases hk with ⟨c, hk⟩ | ⟨c, hk⟩ <;> simp [hk]
  refine ⟨fun j hj => ?_, h.entry, fun g hg => ?_, h.getting, h.result, fun c id j hj => ?_, h.off,
    h.closing⟩
  · show update s.caller k pc j = .unmade
    rw [update_of_ne]
    · exact h.unmade j hj
    · rintro rfl
      exact hne.2 (h.unmade j hj)
  · show update s.caller k pc g.call = .getting
    rw [update_of_ne]
    · exact h.caller g hg
    · rintro rfl
      exact hne.1 (h.caller g hg)
  · show (update s.caller k pc j).Added s.getting j
    by_cases heq : j = k
    · rw [heq, update_self]
      rcases hpc with ⟨c, rfl⟩ | rfl <;> trivial
    · rw [update_of_ne heq]
      exact h.added c id j hj

theorem setReceiver (h : Managed s) {pc : ReceiverPc} (hc : s.receiver c ≠ .off)
    (hcaller : s'.caller = s.caller) (hlast : s'.lastCall = s.lastCall)
    (hgetting : s'.getting = s.getting) (hindex : s'.lastConnectionIndex = s.lastConnectionIndex)
    (hentry : ∀ key c, s'.connections key = some c → s.connections key = some c)
    (hconn : ∀ c, (s'.conn c).ep = (s.conn c).ep ∧ (s'.conn c).calls = (s.conn c).calls)
    (hclose : ∀ c, (s.conn c).shouldClose = true → (s'.conn c).shouldClose = true)
    (hreceiver : s'.receiver = update s.receiver c pc)
    (hclosing : pc.Closing → (s'.conn c).shouldClose = true) : Managed s' where
  unmade := by rw [hlast, hcaller]; exact h.unmade
  entry key c hc := by
    rw [hindex, (hconn c).1]
    exact h.entry key c (hentry key c hc)
  caller := by rw [hgetting, hcaller]; exact h.caller
  getting g hg := by
    rw [hindex, (hconn g.conn).1]
    exact h.getting g (hgetting ▸ hg)
  result := by rw [hgetting]; exact h.result
  added c id k hk := by
    rw [(hconn c).2] at hk
    have hadd := h.added c id k hk
    unfold State.Added at hadd ⊢
    rw [hcaller, hgetting]
    exact hadd
  off c' hc' := by
    rw [hindex] at hc'
    rw [hreceiver, update_of_ne]
    · exact h.off c' hc'
    · rintro rfl
      exact hc (h.off c' hc')
  closing c' hc' := by
    rw [hreceiver, update_apply] at hc'
    split at hc'
    · next heq => exact heq ▸ hclosing hc'
    · exact hclose c' (h.closing c' hc')

theorem goOn (h : Managed s) (hg : s.getting = some g) {pc : GetPc}
    (hgetting : s'.getting = some { g with pc }) (hcaller : s'.caller = s.caller)
    (hlast : s'.lastCall = s.lastCall) (hindex : s'.lastConnectionIndex = s.lastConnectionIndex)
    (hentry : s'.connections = s.connections)
    (hep : ∀ c, (s'.conn c).ep = (s.conn c).ep)
    (hclose : ∀ c, (s'.conn c).shouldClose = (s.conn c).shouldClose)
    (hoff : ∀ c, s.lastConnectionIndex ≤ c → s'.receiver c = .off)
    (hclosing : ∀ c, (s'.receiver c).Closing → (s.receiver c).Closing)
    (hresult : ∀ r, pc = .returning r → r = some g.conn)
    (hadded : ∀ c id k, (s'.conn c).calls.lookup id = some k → s'.Added k) : Managed s' where
  unmade := by rw [hlast, hcaller]; exact h.unmade
  entry key c hc := by
    rw [hentry] at hc
    rw [hindex, hep]
    exact h.entry key c hc
  caller g' hg' := by
    rw [hgetting] at hg'
    cases hg'
    rw [hcaller]
    exact h.caller g hg
  getting g' hg' := by
    rw [hgetting] at hg'
    cases hg'
    rw [hindex, hep]
    exact h.getting g hg
  result g' hg' := by
    rw [hgetting] at hg'
    cases hg'
    exact hresult
  added := hadded
  off := by rw [hindex]; exact hoff
  closing c hc := (hclose c).trans (h.closing c (hclosing c hc))

theorem added_of_goOn (h : Managed s) (hg : s.getting = some g)
    (hpc : ∀ r, g.pc ≠ .returning r) {pc : GetPc} (hgetting : s'.getting = some { g with pc })
    (hcaller : s'.caller = s.caller) {id : CInt} (hk : (s.conn c).calls.lookup id = some k) :
    s'.Added k := by
  have hadd := h.added c id k hk
  unfold State.Added at hadd ⊢
  rw [hcaller, hgetting]
  rw [hg] at hadd
  by_cases hk : s.caller k = .getting
  · rw [hk] at hadd
    obtain ⟨g', hg', -, r, hr⟩ := hadd
    cases hg'
    exact absurd hr (hpc r)
  · exact hadd.of_ne hk

theorem newCall (h : Managed s) (ep : Endpoint) (call : Call) : Managed (s.newCall ep call) := by
  have hun := h.unmade _ le_rfl
  refine ⟨fun j hj => ?_, h.entry, fun g hg => ?_, h.getting, h.result, fun c id j hj => ?_, h.off,
    h.closing⟩
  · show update s.caller s.lastCall (.made ep) j = .unmade
    rw [update_of_ne (Nat.ne_of_gt hj)]
    exact h.unmade j (Nat.le_of_succ_le hj)
  · show update s.caller s.lastCall (.made ep) g.call = .getting
    rw [update_of_ne]
    · exact h.caller g hg
    · intro heq
      have := h.caller g hg
      rw [heq, hun] at this
      cases this
  · have hadd := h.added c id j hj
    show (update s.caller s.lastCall (.made ep) j).Added s.getting j
    rw [update_of_ne]
    · exact hadd
    · rintro rfl
      unfold State.Added at hadd
      rw [hun] at hadd
      exact hadd

theorem create (h : Managed s) (ep : Endpoint) (isNull : Bool) : Managed (s.create ep isNull) where
  unmade := h.unmade
  entry key c hc := by
    change update s.connections ep.key (some s.lastConnectionIndex) key = some c at hc
    show c < s.lastConnectionIndex + 1 ∧ (update s.conn s.lastConnectionIndex _ c).ep.key = key
    by_cases heq : key = ep.key
    · rw [heq, update_self] at hc
      cases hc
      rw [update_self]
      exact ⟨Nat.lt_succ_self _, heq.symm⟩
    · rw [update_of_ne heq] at hc
      obtain ⟨hlt, hkey⟩ := h.entry key c hc
      rw [update_of_ne (Nat.ne_of_lt hlt)]
      exact ⟨Nat.lt_succ_of_lt hlt, hkey⟩
  caller := h.caller
  getting g hg := by
    obtain ⟨hlt, hkey⟩ := h.getting g hg
    show g.conn < s.lastConnectionIndex + 1 ∧
      (update s.conn s.lastConnectionIndex _ g.conn).ep.key = _
    rw [update_of_ne (Nat.ne_of_lt hlt)]
    exact ⟨Nat.lt_succ_of_lt hlt, hkey⟩
  result := h.result
  added c id k hk := by
    change (update s.conn s.lastConnectionIndex _ c).calls.lookup id = some k at hk
    by_cases heq : c = s.lastConnectionIndex
    · rw [heq, update_self] at hk
      cases (AList.lookup_empty (β := fun _ => CallId) id).symm.trans hk
    · rw [update_of_ne heq] at hk
      exact h.added c id k hk
  off c hc := h.off c (Nat.le_of_succ_le hc)
  closing c hc := by
    show (update s.conn s.lastConnectionIndex _ c).shouldClose = true
    rw [update_of_ne]
    · exact h.closing c hc
    · rintro rfl
      change (s.receiver s.lastConnectionIndex).Closing at hc
      rw [h.off _ le_rfl] at hc
      exact hc

theorem enter (h : Managed s) {ep : Endpoint} (hg : s.getting = none) (hk : s.caller k = .made ep)
    (hc : s.connections ep.key = some c) : Managed (s.enter ep k c) where
  unmade j hj := by
    show update s.caller k .getting j = .unmade
    rw [update_of_ne]
    · exact h.unmade j hj
    · rintro rfl
      have := h.unmade j hj
      rw [hk] at this
      cases this
  entry := h.entry
  caller g hg := by cases hg; exact update_self ..
  getting g hg := by cases hg; exact h.entry _ c hc
  result g hg r hr := by cases hg; cases hr
  added c id j hj := by
    have hadd := h.added c id j hj
    show (update s.caller k .getting j).Added _ j
    unfold State.Added at hadd
    by_cases heq : j = k
    · rw [heq, hk] at hadd
      exact hadd.elim
    · rw [update_of_ne heq]
      by_cases hj : s.caller j = .getting
      · rw [hj, hg] at hadd
        obtain ⟨_, hg', -⟩ := hadd
        cases hg'
      · exact hadd.of_ne hj
  off := h.off
  closing := h.closing

theorem leave (h : Managed s) (hg : s.getting = some g) (conn : Option ConnId) :
    Managed (s.leave g conn) where
  unmade j hj := by
    show update s.caller g.call (conn.elim .returned .got) j = .unmade
    rw [update_of_ne]
    · exact h.unmade j hj
    · rintro rfl
      have := h.caller g hg
      rw [h.unmade _ hj] at this
      cases this
  entry := h.entry
  caller _ hg := by cases hg
  getting _ hg := by cases hg
  result _ hg := by cases hg
  added c id j hj := by
    have hadd := h.added c id j hj
    show (update s.caller g.call (conn.elim .returned .got) j).Added none j
    by_cases heq : j = g.call
    · rw [heq, update_self]
      cases conn <;> trivial
    · rw [update_of_ne heq]
      unfold State.Added at hadd
      by_cases hj : s.caller j = .getting
      · rw [hj, hg] at hadd
        obtain ⟨g', hg', hcall, -⟩ := hadd
        cases hg'
        exact absurd hcall.symm heq
      · exact hadd.of_ne hj
  off := h.off
  closing := h.closing

theorem setConn (h : Managed s) (hg : s.getting = some g) (hpc : ∀ r, g.pc ≠ .returning r)
    (conn : Connection) (pc : GetPc) (hep : conn.ep = (s.conn g.conn).ep)
    (hcalls : conn.calls = (s.conn g.conn).calls)
    (hclose : conn.shouldClose = (s.conn g.conn).shouldClose)
    (hpc' : ∀ r, pc ≠ .returning r) : Managed ((s.setConn g.conn conn).goOn g pc) := by
  refine h.goOn hg rfl rfl rfl rfl rfl (update_field Connection.ep hep)
    (update_field Connection.shouldClose hclose) h.off (fun _ hc => hc)
    (fun r hr => absurd hr (hpc' r)) fun c id k hk => ?_
  change (update s.conn g.conn conn c).calls.lookup id = some k at hk
  rw [update_field Connection.calls hcalls] at hk
  exact h.added_of_goOn hg hpc rfl rfl hk

theorem goOn_self (h : Managed s) (hg : s.getting = some g) (hpc : ∀ r, g.pc ≠ .returning r)
    (pc : GetPc) (hpc' : ∀ r, pc ≠ .returning r) : Managed (s.goOn g pc) :=
  h.goOn hg rfl rfl rfl rfl rfl (fun _ => rfl) (fun _ => rfl) h.off (fun _ hc => hc)
    (fun r hr => absurd hr (hpc' r)) fun _ _ _ hk => h.added_of_goOn hg hpc rfl rfl hk

theorem connect (h : Managed s) (hg : s.getting = some g) (hpc : g.pc = .connecting)
    (result : ConnectResult) : Managed (s.connect g result) := by
  have hne : ∀ r, g.pc ≠ .returning r := fun r hr => by rw [hpc] at hr; cases hr
  unfold State.connect
  split
  · cases result with
    | noSocket => exact h.goOn_self hg hne .adding (by simp)
    | refused => exact h.setConn hg hne _ .adding rfl rfl rfl (by simp)
    | connected => exact h.setConn hg hne _ .starting rfl rfl rfl (by simp)
  · exact h.goOn_self hg hne .adding (by simp)

theorem startThread (h : Managed s) (hg : s.getting = some g) (hpc : g.pc = .starting)
    (ok : Bool) : Managed (s.startThread g ok) := by
  have hne : ∀ r, g.pc ≠ .returning r := fun r hr => by rw [hpc] at hr; cases hr
  unfold State.startThread
  split
  · have hs := h.setConn hg hne { s.conn g.conn with recvStarted := true } .adding rfl rfl rfl
      (by simp)
    refine ⟨hs.unmade, hs.entry, hs.caller, hs.getting, hs.result, hs.added, fun c hc => ?_,
      fun c hc => ?_⟩
    · show update s.receiver g.conn _ c = .off
      rw [update_of_ne]
      · exact h.off c hc
      · rintro rfl
        exact absurd (h.getting g hg).1 (Nat.not_lt.mpr hc)
    · change (update s.receiver g.conn _ c).Closing at hc
      rw [update_apply] at hc
      split at hc
      · exact hc.elim
      · exact hs.closing c hc
  · exact h.goOn_self hg hne .adding (by simp)

theorem addCall (h : Managed s) (hg : s.getting = some g) (hpc : g.pc = .adding) :
    Managed (s.addCall g) := by
  have hne : ∀ r, g.pc ≠ .returning r := fun r hr => by rw [hpc] at hr; cases hr
  refine h.goOn hg rfl rfl rfl rfl rfl (update_field Connection.ep rfl)
    (update_field Connection.shouldClose rfl) h.off (fun _ hc => hc)
    (fun r hr => by cases hr; rfl) fun c id k hk => ?_
  change (update s.conn g.conn ((s.conn g.conn).addCall g.call) c).calls.lookup id = some k at hk
  have hgetting : (s.addCall g).getting = some { g with pc := .returning (some g.conn) } := rfl
  have hold : (s.conn c).calls.lookup id = some k → (s.addCall g).Added k :=
    h.added_of_goOn hg hne hgetting rfl
  rw [update_apply] at hk
  split at hk
  · next hc =>
    subst hc
    rcases CallMap.of_lookup_add hk with hk | ⟨-, rfl⟩
    · exact hold hk
    · show (s.caller g.call).Added _ g.call
      rw [h.caller g hg]
      exact ⟨_, rfl, rfl, _, rfl⟩
  · exact hold hk

end Managed

/-- `recvRespond` ends the process, or sets values and goes back to `waitForWork`. -/
theorem State.recvRespond_eq (s : State) (c : ConnId) (input : Sock) :
    ∃ status call, (∀ k, (call k).id = (s.call k).id) ∧
      (s.recvRespond c input = { s with status, call } ∨
        s.recvRespond c input = ({ s with status, call } : State).setReceiver c (.waiting 0)) := by
  unfold State.recvRespond
  dsimp only
  split
  · exact ⟨.aborted, s.call, fun _ => rfl, .inl rfl⟩
  · exact ⟨.crashed, s.call, fun _ => rfl, .inl rfl⟩
  · exact ⟨s.status, s.call, fun _ => rfl, .inr rfl⟩
  · next id call hset =>
    obtain ⟨call', hfind, hid⟩ := Connection.of_recvRespond_set hset
    obtain ⟨k, hk, rfl⟩ := Option.map_eq_some_iff.mp hfind
    rw [hk]
    refine ⟨s.status, update s.call k call, fun j => ?_, .inr rfl⟩
    by_cases heq : j = k
    · rw [heq, update_self]
      exact hid
    · rw [update_of_ne heq]

@[simp] theorem State.recvRespond_conn (s : State) (c : ConnId) (input : Sock) :
    (s.recvRespond c input).conn = s.conn := by
  obtain ⟨status, call, -, heq | heq⟩ := s.recvRespond_eq c input <;> rw [heq]
  rfl

@[simp] theorem State.recvRespond_caller (s : State) (c : ConnId) (input : Sock) :
    (s.recvRespond c input).caller = s.caller := by
  obtain ⟨status, call, -, heq | heq⟩ := s.recvRespond_eq c input <;> rw [heq]
  rfl

@[simp] theorem State.recvRespond_getting (s : State) (c : ConnId) (input : Sock) :
    (s.recvRespond c input).getting = s.getting := by
  obtain ⟨status, call, -, heq | heq⟩ := s.recvRespond_eq c input <;> rw [heq]
  rfl

@[simp] theorem State.recvRespond_lastConnectionIndex (s : State) (c : ConnId) (input : Sock) :
    (s.recvRespond c input).lastConnectionIndex = s.lastConnectionIndex := by
  obtain ⟨status, call, -, heq | heq⟩ := s.recvRespond_eq c input <;> rw [heq]
  rfl

theorem Managed.recvRespond (h : Managed s) (hc : s.receiver c = .receiving) (input : Sock) :
    Managed (s.recvRespond c input) := by
  obtain ⟨status, call, -, heq | heq⟩ := s.recvRespond_eq c input <;> rw [heq]
  · exact ⟨h.unmade, h.entry, h.caller, h.getting, h.result, h.added, h.off, h.closing⟩
  · exact h.setReceiver (by simp [hc]) rfl rfl rfl rfl (fun _ _ hc => hc)
      (fun _ => ⟨rfl, rfl⟩) (fun _ hc => hc) rfl fun h => h.elim

theorem Moves.managed (hm : Moves s a s') (h : Managed s) : Managed s' := by
  cases hm with
  | newCall => exact h.newCall ..
  | reuse hg hk hc => exact h.enter hg hk hc
  | @create ep k isNull hg hk hc => exact (h.create ep isNull).enter hg hk (update_self ..)
  | connect hg hpc => exact h.connect hg hpc _
  | startThread hg hpc => exact h.startThread hg hpc _
  | addCall hg hpc => exact h.addCall hg hpc
  | leave hg hpc => exact h.leave hg _
  | @sendCall k c ok hk =>
    unfold State.sendCall
    split
    · refine h.setCaller (.inl ⟨c, hk⟩) ?_
      cases ok
      · exact .inr rfl
      · exact .inl ⟨c, rfl⟩
    · exact h.setCaller (.inl ⟨c, hk⟩) (.inr rfl)
    all_goals exact ⟨h.unmade, h.entry, h.caller, h.getting, h.result, h.added, h.off, h.closing⟩
  | @finish k c hk => exact h.setCaller (.inr ⟨c, hk⟩) (.inr rfl)
  | @waitForWork c rep hc =>
    refine h.setReceiver (by simp [hc]) rfl rfl rfl rfl (fun _ _ hc => hc)
      (fun _ => ⟨rfl, rfl⟩) (fun _ hc => hc) rfl fun hcl => ?_
    split at hcl
    · exact hcl.elim
    · split at hcl <;> exact hcl.elim
  | recvRespond hc => exact h.recvRespond hc _
  | @markClosed c hc =>
    have hep : ∀ c', ((s.markClosed c).conn c').ep = (s.conn c').ep :=
      update_field Connection.ep rfl
    have hcalls : ∀ c', ((s.markClosed c).conn c').calls = (s.conn c').calls :=
      update_field Connection.calls rfl
    refine h.setReceiver (by simp [hc]) rfl rfl rfl rfl (fun _ _ hc => hc)
      (fun c' => ⟨hep c', hcalls c'⟩) (fun c' hc' => ?_) rfl fun _ => ?_
    · show (update s.conn c _ c').shouldClose = true
      rw [update_apply]
      split
      · rfl
      · exact hc'
    · show (update s.conn c _ c).shouldClose = true
      rw [update_self]
  | @closeSock c hc =>
    have hmarked : (s.conn c).shouldClose = true := h.closing c (by rw [hc]; trivial)
    have hep : ∀ c', ((s.closeSock c).conn c').ep = (s.conn c').ep :=
      update_field Connection.ep rfl
    have hcalls : ∀ c', ((s.closeSock c).conn c').calls = (s.conn c').calls :=
      update_field Connection.calls rfl
    have hclose : ∀ c', ((s.closeSock c).conn c').shouldClose = (s.conn c').shouldClose :=
      update_field Connection.shouldClose rfl
    exact h.setReceiver (by simp [hc]) rfl rfl rfl rfl (fun _ _ hc => hc)
      (fun c' => ⟨hep c', hcalls c'⟩) (fun c' hc' => (hclose c').trans hc') rfl
      fun _ => (hclose c).trans hmarked
  | @removeConnection c hc hg =>
    refine h.setReceiver (by simp [hc]) rfl rfl rfl rfl
      (fun key c' hc' => ?_) (fun _ => ⟨rfl, rfl⟩) (fun _ hc => hc) rfl
      fun _ => h.closing c (by rw [hc]; trivial)
    change update s.connections (s.conn c).ep.key none key = some c' at hc'
    rw [update_apply] at hc'
    split at hc'
    · cases hc'
    · exact hc'
  | @cleanupCalls c hc =>
    unfold State.cleanupCalls
    split
    · exact h.setReceiver (by simp [hc]) rfl rfl rfl rfl
        (fun _ _ hc => hc) (fun _ => ⟨rfl, rfl⟩) (fun _ hc => hc) rfl
        fun _ => h.closing c (by rw [hc]; trivial)
    · exact ⟨h.unmade, h.entry, h.caller, h.getting, h.result, h.added, h.off, h.closing⟩

theorem managed_of_reachable (h : client.Reachable s) : Managed s :=
  h.invariant (by rintro _ rfl; exact .start) fun _ _ _ hI _ hs =>
    (State.moves_of_step hs).managed hI

end PRpc.Client
