import PRpc.Client.Managed

/-!
# `getConnection`

`getConnection` puts a new connection into `_connections` before it connects it, and does not look
at what `connect` returns. So it is all or nothing only where nothing goes wrong on the way: `Fine`
says at each place in `getConnection` what has to be so for a usable connection at the end, and
`Sound` which steps keep it. A step keeps it exactly if it is sound (`Moves.fine_iff`), whence the
same for the whole of a `getConnection`, whatever other threads do meanwhile.
-/

namespace PRpc.Client

open Function

variable {s s' : State} {a : Action} {k : CallId} {c : ConnId} {g : Getting} {ep : Endpoint}

namespace Connection

/-- Connected, with its receiver thread started, and not marked for closing. -/
def Usable (conn : Connection) : Prop :=
  conn.sock = .connected ∧ conn.recvStarted = true ∧ conn.shouldClose = false

/-- A connection that is usable, or that `connect` will try to connect. -/
def Reusable (conn : Connection) : Prop := conn.Usable ∨ conn.Opens

instance (conn : Connection) : Decidable conn.Usable := inferInstanceAs (Decidable (_ ∧ _ ∧ _))

instance (conn : Connection) : Decidable conn.Reusable := inferInstanceAs (Decidable (_ ∨ _))

/-- A new connection is usable only by what its memory holds. -/
theorem reusable_new (ep : Endpoint) (isNull : Bool) :
    (new ep (if isNull then .null else .wild)).Reusable ↔ isNull = true := by
  unfold Reusable Usable Opens new
  cases isNull <;> simp

end Connection

/-- A `getConnection` for `ep` that began in `s` and is at its end in `s'`: it returns a usable
connection for `ep` that has the call under its id, or `NULL` with everything as it was. -/
def AllOrNothing (s s' : State) (ep : Endpoint) (k : CallId) : Option ConnId → Prop
  | some c => (s'.conn c).ep.key = ep.key ∧ (s'.conn c).Usable ∧
      (s'.conn c).calls.lookup (s'.call k).id = some k
  | none => s'.connections = s.connections ∧ ∀ c, (s'.conn c).calls = (s.conn c).calls

/-- What an existing connection for `ep` has to be, or the `_sock` of a new one. -/
def State.Enters (s : State) (ep : Endpoint) (isNull : Bool) : Prop :=
  (∀ c ∈ s.connections ep.key, (s.conn c).Reusable) ∧
    (s.connections ep.key = none → isNull = true)

instance (s : State) (ep : Endpoint) (isNull : Bool) : Decidable (s.Enters ep isNull) :=
  inferInstanceAs (Decidable (_ ∧ _))

/-- The endpoint of a call before `getConnection`. -/
def CallerPc.endpoint : CallerPc → Option Endpoint
  | .made ep => some ep
  | _ => none

/-- A socket is null before it is connected, and then is connected; the thread is started; the id
of the call is free; the connection is not marked for closing meanwhile. -/
def Sound (s : State) : Action → Prop
  | .getConnection k isNull => ∀ ep ∈ (s.caller k).endpoint, s.Enters ep isNull
  | .connect result => ∀ g ∈ s.getting, (s.conn g.conn).Opens → result = .connected
  | .startThread ok => ∀ g ∈ s.getting, (s.conn g.conn).recvStarted = false → ok = true
  | .addCall => ∀ g ∈ s.getting, (s.conn g.conn).lastCallIndex ∉ (s.conn g.conn).calls
  | .markClosed c => ∀ g ∈ s.getting, g.conn ≠ c
  | _ => True

instance (s : State) : (a : Action) → Decidable (Sound s a)
  | .getConnection _ _ | .connect _ | .startThread _ | .addCall | .markClosed _ =>
    inferInstanceAs (Decidable (∀ _ ∈ _, _))
  | .newCall .. | .leave | .sendCall _ _ | .finish _ | .waitForWork _ | .recvRespond _ _
  | .closeSock _ | .removeConnection _ | .cleanupCalls _ => .isTrue trivial

/-- What the connection has to be at a place in `getConnection`. -/
def State.Fine (s : State) (g : Getting) : Prop :=
  match g.pc with
  | .connecting => (s.conn g.conn).Reusable
  | .starting => (s.conn g.conn).sock = .connected ∧ (s.conn g.conn).shouldClose = false
  | .adding => (s.conn g.conn).Usable
  | .returning _ => (s.conn g.conn).Usable ∧
      (s.conn g.conn).calls.lookup (s.call g.call).id = some g.call

theorem forall_getting {P : Getting → Prop} (hg : s.getting = some g) :
    (∀ g' ∈ s.getting, P g') ↔ P g := by
  rw [hg]
  simp

/-- A step of `getConnection` or of another thread meanwhile: the same call is inside it, and what
has to be so at its place is so exactly if it was before and the step is sound. -/
def Keeps (s s' : State) (a : Action) (g g' : Getting) : Prop :=
  (g'.ep = g.ep ∧ g'.call = g.call ∧ g'.conn = g.conn) ∧ (s'.Fine g' ↔ s.Fine g ∧ Sound s a)

theorem Keeps.of_same (hconn : s'.conn g.conn = s.conn g.conn)
    (hid : (s'.call g.call).id = (s.call g.call).id) (ha : Sound s a) : Keeps s s' a g g := by
  refine ⟨⟨rfl, rfl, rfl⟩, ?_⟩
  unfold State.Fine
  rw [hconn, hid]
  exact ⟨fun h => ⟨h, ha⟩, And.left⟩

theorem keeps_connect (hg : s.getting = some g) (hpc : g.pc = .connecting)
    (result : ConnectResult) :
    ∃ g', (s.connect g result).getting = some g' ∧
      Keeps s (s.connect g result) (.connect result) g g' := by
  have hsound : Sound s (.connect result) ↔ ((s.conn g.conn).Opens → result = .connected) :=
    forall_getting hg
  have hfine : s.Fine g ↔ (s.conn g.conn).Reusable := by
    unfold State.Fine
    rw [hpc]
  by_cases hopens : (s.conn g.conn).Opens
  · have hclose := hopens.1
    have hsock := hopens.2
    cases result with
    | noSocket =>
      have heq : s.connect g .noSocket = s.goOn g .adding := if_pos hopens
      rw [heq]
      refine ⟨{ g with pc := .adding }, rfl, ⟨rfl, rfl, rfl⟩, ?_⟩
      rw [hsound]
      show (s.conn g.conn).Usable ↔ _
      constructor
      · intro h
        rw [h.1] at hsock
        cases hsock
      · intro h
        cases h.2 hopens
    | refused =>
      have heq : s.connect g .refused = (s.setSock g .unconnected).goOn g .adding := if_pos hopens
      rw [heq]
      refine ⟨{ g with pc := .adding }, rfl, ⟨rfl, rfl, rfl⟩, ?_⟩
      rw [hsound]
      show (update s.conn g.conn { s.conn g.conn with sock := .unconnected } g.conn).Usable ↔ _
      rw [update_self]
      constructor
      · intro h
        cases h.1
      · intro h
        cases h.2 hopens
    | connected =>
      have heq : s.connect g .connected = (s.setSock g .connected).goOn g .starting := if_pos hopens
      rw [heq]
      refine ⟨{ g with pc := .starting }, rfl, ⟨rfl, rfl, rfl⟩, ?_⟩
      rw [hsound, hfine]
      show (update s.conn g.conn { s.conn g.conn with sock := .connected } g.conn).sock = _ ∧
        (update s.conn g.conn { s.conn g.conn with sock := .connected } g.conn).shouldClose = _ ↔ _
      rw [update_self]
      exact ⟨fun _ => ⟨.inr hopens, fun _ => rfl⟩, fun _ => ⟨rfl, hclose⟩⟩
  · have heq : s.connect g result = s.goOn g .adding := if_neg hopens
    rw [heq]
    refine ⟨{ g with pc := .adding }, rfl, ⟨rfl, rfl, rfl⟩, ?_⟩
    rw [hsound, hfine]
    show (s.conn g.conn).Usable ↔ _
    exact ⟨fun h => ⟨.inl h, fun ho => absurd ho hopens⟩, fun h => h.1.resolve_right hopens⟩

theorem keeps_startThread (hg : s.getting = some g) (hpc : g.pc = .starting) (ok : Bool) :
    ∃ g', (s.startThread g ok).getting = some g' ∧
      Keeps s (s.startThread g ok) (.startThread ok) g g' := by
  have hsound : Sound s (.startThread ok) ↔ ((s.conn g.conn).recvStarted = false → ok = true) :=
    forall_getting hg
  have hfine : s.Fine g ↔
      (s.conn g.conn).sock = .connected ∧ (s.conn g.conn).shouldClose = false := by
    unfold State.Fine
    rw [hpc]
  by_cases hstart : (s.conn g.conn).recvStarted = false ∧ ok = true
  · have heq : s.startThread g ok = (s.started g).goOn g .adding := if_pos hstart
    rw [heq]
    refine ⟨{ g with pc := .adding }, rfl, ⟨rfl, rfl, rfl⟩, ?_⟩
    rw [hsound, hfine]
    show (update s.conn g.conn { s.conn g.conn with recvStarted := true } g.conn).Usable ↔ _
    rw [update_self]
    exact ⟨fun h => ⟨⟨h.1, h.2.2⟩, fun _ => hstart.2⟩, fun h => ⟨h.1.1, rfl, h.1.2⟩⟩
  · have heq : s.startThread g ok = s.goOn g .adding := if_neg hstart
    rw [heq]
    refine ⟨{ g with pc := .adding }, rfl, ⟨rfl, rfl, rfl⟩, ?_⟩
    rw [hsound, hfine]
    show (s.conn g.conn).Usable ↔ _
    constructor
    · rintro ⟨hsock, hstarted, hclose⟩
      exact ⟨⟨hsock, hclose⟩, by simp [hstarted]⟩
    · rintro ⟨⟨hsock, hclose⟩, hok⟩
      refine ⟨hsock, ?_, hclose⟩
      exact Bool.eq_true_of_not_eq_false fun hs => hstart ⟨hs, hok hs⟩

theorem keeps_addCall (h : Managed s) (hg : s.getting = some g) (hpc : g.pc = .adding) :
    ∃ g', (s.addCall g).getting = some g' ∧ Keeps s (s.addCall g) .addCall g g' := by
  have hsound : Sound s .addCall ↔ (s.conn g.conn).lastCallIndex ∉ (s.conn g.conn).calls :=
    forall_getting hg
  have hfine : s.Fine g ↔ (s.conn g.conn).Usable := by
    unfold State.Fine
    rw [hpc]
  have hnew : (s.conn g.conn).calls.lookup (s.conn g.conn).lastCallIndex ≠ some g.call := by
    intro hl
    have hadd := h.added _ _ _ hl
    unfold State.Added at hadd
    rw [h.caller g hg, hg] at hadd
    obtain ⟨g', hg', -, r, hr⟩ := hadd
    cases hg'
    rw [hpc] at hr
    cases hr
  refine ⟨{ g with pc := .returning (some g.conn) }, rfl, ⟨rfl, rfl, rfl⟩, ?_⟩
  rw [hsound, hfine]
  show (update s.conn g.conn ((s.conn g.conn).addCall g.call) g.conn).Usable ∧
    (update s.conn g.conn ((s.conn g.conn).addCall g.call) g.conn).calls.lookup
      (update s.call g.call _ g.call).id = some g.call ↔ _
  rw [update_self, update_self]
  refine and_congr_right fun _ => ?_
  exact CallMap.lookup_add_self.trans ⟨fun h => h.resolve_right hnew, .inl⟩

theorem keeps_markClosed (hg : s.getting = some g) :
    Keeps s (s.markClosed c) (.markClosed c) g g := by
  have hsound : Sound s (.markClosed c) ↔ g.conn ≠ c := forall_getting hg
  by_cases heq : g.conn = c
  · have hmarked : ((s.markClosed c).conn g.conn).shouldClose = true := by
      show (update s.conn c _ g.conn).shouldClose = true
      rw [heq, update_self]
    refine ⟨⟨rfl, rfl, rfl⟩, fun h => ?_, fun h => absurd heq (hsound.mp h.2)⟩
    have hopen : ((s.markClosed c).conn g.conn).shouldClose = false := by
      unfold State.Fine at h
      split at h
      · exact h.elim (fun h => h.2.2) And.left
      · exact h.2
      · exact h.2.2
      · exact h.1.2.2
    exact absurd (hmarked.symm.trans hopen) (by decide)
  · exact .of_same (update_of_ne heq ..) rfl (hsound.mpr heq)

/-- The receiver thread of the connection deletes the socket: it has marked the connection. -/
theorem keeps_closeSock (h : Managed s) (hc : s.receiver c = .closing) :
    Keeps s (s.closeSock c) (.closeSock c) g g := by
  by_cases heq : g.conn = c
  · have hmarked : (s.conn c).shouldClose = true := h.closing c (by rw [hc]; trivial)
    have hdeleted : ((s.closeSock c).conn g.conn).sock = .deleted := by
      show (update s.conn c _ g.conn).sock = _
      rw [heq, update_self]
    refine ⟨⟨rfl, rfl, rfl⟩, fun h => ?_, fun h => ?_⟩
    · have hsock : ((s.closeSock c).conn g.conn).sock ≠ .deleted := by
        intro hd
        unfold State.Fine Connection.Reusable Connection.Usable Connection.Opens at h
        rw [hd] at h
        split at h <;> simp at h
      exact absurd hdeleted hsock
    · have hopen : (s.conn g.conn).shouldClose = false := by
        have h := h.1
        unfold State.Fine at h
        split at h
        · exact h.elim (fun h => h.2.2) And.left
        · exact h.2
        · exact h.2.2
        · exact h.1.2.2
      rw [heq, hmarked] at hopen
      cases hopen
  · exact .of_same (update_of_ne heq ..) rfl trivial

/-- **Each step meanwhile** keeps what has to be so exactly if it is sound. -/
theorem Moves.fine_iff (hm : Moves s a s') (h : Managed s) (hg : s.getting = some g)
    (ha : a ≠ .leave) : ∃ g', s'.getting = some g' ∧ Keeps s s' a g g' := by
  cases hm with
  | newCall =>
    refine ⟨g, hg, .of_same rfl ?_ trivial⟩
    show (update s.call s.lastCall _ g.call).id = _
    rw [update_of_ne]
    intro heq
    have := h.caller g hg
    rw [h.unmade _ (Nat.le_of_eq heq.symm)] at this
    cases this
  | reuse hg' => rw [hg] at hg'; cases hg'
  | create hg' => rw [hg] at hg'; cases hg'
  | connect hg' hpc => rw [hg] at hg'; cases hg'; exact keeps_connect hg hpc _
  | startThread hg' hpc => rw [hg] at hg'; cases hg'; exact keeps_startThread hg hpc _
  | addCall hg' hpc => rw [hg] at hg'; cases hg'; exact keeps_addCall h hg hpc
  | leave => exact absurd rfl ha
  | sendCall =>
    unfold State.sendCall
    split <;> exact ⟨g, hg, .of_same rfl rfl trivial⟩
  | finish => exact ⟨g, hg, .of_same rfl rfl trivial⟩
  | waitForWork => exact ⟨g, hg, .of_same rfl rfl trivial⟩
  | @recvRespond c input hc =>
    obtain ⟨status, call, hid, heq | heq⟩ := s.recvRespond_eq c input <;> rw [heq] <;>
      exact ⟨g, hg, .of_same rfl (hid g.call) trivial⟩
  | markClosed => exact ⟨g, hg, keeps_markClosed hg⟩
  | closeSock hc => exact ⟨g, hg, keeps_closeSock h hc⟩
  | removeConnection _ hg' => rw [hg] at hg'; cases hg'
  | cleanupCalls =>
    unfold State.cleanupCalls
    split <;> exact ⟨g, hg, .of_same rfl rfl trivial⟩

theorem Moves.enter_iff {isNull : Bool} (hm : Moves s (.getConnection k isNull) s')
    (hk : s.caller k = .made ep) :
    ∃ g, s'.getting = some g ∧ g.ep = ep ∧ g.call = k ∧
      (s'.Fine g ↔ Sound s (.getConnection k isNull)) := by
  have hsound : Sound s (.getConnection k isNull) ↔ s.Enters ep isNull := by
    show (∀ ep ∈ (s.caller k).endpoint, s.Enters ep isNull) ↔ _
    rw [hk]
    simp [CallerPc.endpoint]
  rw [hsound]
  unfold State.Enters
  cases hm with
  | @reuse _ _ c _ _ hk' hc =>
    rw [hk] at hk'
    cases hk'
    rw [hc]
    refine ⟨_, rfl, rfl, rfl, ?_⟩
    show (s.conn c).Reusable ↔ _
    simp
  | create _ hk' hc =>
    rw [hk] at hk'
    cases hk'
    rw [hc]
    refine ⟨_, rfl, rfl, rfl, ?_⟩
    show (update s.conn s.lastConnectionIndex _ s.lastConnectionIndex).Reusable ↔ _
    rw [update_self, Connection.reusable_new]
    simp

/-! ## Whole calls of `getConnection` -/

/-- The steps up to a later place in the same `getConnection`: what has to be so there is so exactly
if it was at first and all steps are sound. -/
theorem fine_iff_run {as : List Action} (h : client.Reachable s) (hg : s.getting = some g)
    (hstay : ∀ a ∈ as, a ≠ .leave) (hrun : client.run (fun _ _ => True) s as = some s') :
    ∃ g', s'.getting = some g' ∧ (g'.ep = g.ep ∧ g'.call = g.call) ∧
      (s'.Fine g' ↔ s.Fine g ∧ client.run Sound s as = some s') := by
  induction as generalizing s g with
  | nil =>
    cases hrun
    exact ⟨g, hg, ⟨rfl, rfl⟩, (and_iff_left rfl).symm⟩
  | cons a as ih =>
    obtain ⟨t, ht, hrun⟩ := System.exists_step_of_run hrun
    have hm := State.moves_of_step ht
    obtain ⟨g₁, hg₁, ⟨hep, hcall, -⟩, hfine⟩ :=
      hm.fine_iff (managed_of_reachable h) hg (hstay a List.mem_cons_self)
    obtain ⟨g', hg', ⟨hep', hcall'⟩, hfine'⟩ :=
      ih (.step h trivial ht) hg₁ (fun b hb => hstay b (List.mem_cons_of_mem a hb)) hrun
    refine ⟨g', hg', ⟨hep'.trans hep, hcall'.trans hcall⟩, ?_⟩
    rw [hfine', hfine, System.run_cons ht, and_assoc]

/-- The thread of call `k` is before `getConnection` for `ep` in `s` and at its end in `s'`, with
the result `r`; `as` are its steps and those of other threads meanwhile. -/
structure Gets (s s' : State) (ep : Endpoint) (k : CallId) (isNull : Bool) (as : List Action)
    (r : Option ConnId) : Prop where
  made : s.caller k = .made ep
  stays : ∀ a ∈ as, a ≠ .leave
  run : client.run (fun _ _ => True) s (.getConnection k isNull :: as) = some s'
  result : s'.getting.map Getting.pc = some (.returning r)

/-- **`getConnection` is all or nothing exactly if its steps are sound**, from any reachable state
on and whatever other threads do meanwhile. -/
theorem allOrNothing_iff {as : List Action} {isNull : Bool} {r : Option ConnId}
    (h : client.Reachable s) (hgets : Gets s s' ep k isNull as r) :
    AllOrNothing s s' ep k r ↔ client.run Sound s (.getConnection k isNull :: as) = some s' := by
  obtain ⟨hk, hstay, hrun, hret⟩ := hgets
  obtain ⟨t, ht, hrest⟩ := System.exists_step_of_run hrun
  obtain ⟨g₁, hg₁, hep, hcall, hfine₁⟩ := (State.moves_of_step ht).enter_iff hk
  have hreach : client.Reachable t := .step h trivial ht
  obtain ⟨g, hg, ⟨hep', hcall'⟩, hfine⟩ := fine_iff_run hreach hg₁ hstay hrest
  have hmanaged := managed_of_reachable (hreach.run hrest)
  rw [hg] at hret
  have hpc : g.pc = .returning r := Option.some.inj hret
  obtain rfl := hmanaged.result g hg r hpc
  have hkey := (hmanaged.getting g hg).2
  have hcall : g.call = k := hcall'.trans hcall
  have hall : AllOrNothing s s' ep k (some g.conn) ↔ s'.Fine g := by
    unfold AllOrNothing State.Fine
    rw [hpc, ← hcall, ← hep, ← hep']
    exact and_iff_right hkey
  rw [hall, hfine, hfine₁, System.run_cons ht]

def peer : Endpoint := ⟨ascii "1.2.3.4", 80⟩

def peerCall : Action := .newCall peer (ascii "IntWritable") (.int 1) 0

/-- All goes well, and another thread makes a call meanwhile. -/
theorem allOrNothing_connected : ∃ s s', client.run (fun _ _ => True) .start [peerCall] = some s ∧
    Gets s s' peer 0 true [.connect .connected, peerCall, .startThread true, .addCall] (some 0) ∧
    AllOrNothing s s' peer 0 (some 0) := by
  have hrun : (client.run (fun _ _ => True) .start [peerCall]).any (fun s =>
      s.caller 0 = .made peer ∧ (client.run Sound s (.getConnection 0 true ::
        [.connect .connected, peerCall, .startThread true, .addCall])).any fun s' =>
          s'.getting.map Getting.pc = some (.returning (some 0))) = true := by decide +kernel
  obtain ⟨s, hs, hfacts⟩ := (Option.any_eq_true _ _).mp hrun
  obtain ⟨hmade, hgets⟩ := of_decide_eq_true hfacts
  obtain ⟨s', hs', hret⟩ := (Option.any_eq_true _ _).mp hgets
  have hg : Gets s s' peer 0 true [.connect .connected, peerCall, .startThread true, .addCall]
      (some 0) := by
    refine ⟨hmade, ?_, System.run_mono (fun _ _ _ => trivial) hs', of_decide_eq_true hret⟩
    simp [peerCall]
  exact ⟨s, s', hs, hg, (allOrNothing_iff (.run (.init rfl) hs) hg).mpr hs'⟩

/-- The peer refuses: a connection whose socket is not connected is returned, with the call. -/
theorem refused_not_allOrNothing : ¬ ∀ s s' ep k isNull as r, client.Reachable s →
    Gets s s' ep k isNull as r → AllOrNothing s s' ep k r := by
  intro h
  have hrun : (client.run (fun _ _ => True) .start [peerCall]).any (fun s =>
      s.caller 0 = .made peer ∧ (client.run (fun _ _ => True) s (.getConnection 0 true ::
        [.connect .refused, .addCall])).any fun s' =>
          s'.getting.map Getting.pc = some (.returning (some 0)) ∧
            (s'.conn 0).sock = .unconnected) = true := by decide +kernel
  obtain ⟨s, hs, hfacts⟩ := (Option.any_eq_true _ _).mp hrun
  obtain ⟨hmade, hgets⟩ := of_decide_eq_true hfacts
  obtain ⟨s', hs', hfacts'⟩ := (Option.any_eq_true _ _).mp hgets
  obtain ⟨hret, hsock⟩ := of_decide_eq_true hfacts'
  obtain ⟨-, ⟨hconnected, -⟩, -⟩ := h s s' peer 0 true [.connect .refused, .addCall] (some 0)
    (.run (.init rfl) hs) ⟨hmade, by simp, hs', hret⟩
  rw [hsock] at hconnected
  cases hconnected

end PRpc.Client
