import PRpc.Client.IdleClose

/-!
# What a closing connection removes

`removeConnection` erases by the key of an endpoint, some steps after the decision to close. It
erases the entry of its own connection all the same: a connection is in `_connections` from when it
is made until its own `removeConnection`, so no other connection has the key (`Mapped`), and a
receiver thread, which is started once, comes to `removeConnection` once.
-/

namespace PRpc.Client

open Function

/-! ## Keys -/

section Keys

variable {n : ℕ} {b : LittleEndian.Byte}

theorem ascii_toString (n : ℕ) :
    ascii (toString n) = (Nat.toDigits 10 n).map fun c => BitVec.ofNat 8 c.toNat := by
  unfold ascii
  rw [Nat.toString_eq_ofList_toDigits, String.toList_ofList]

theorem of_digit {c : Char} (hc : c.isDigit) : c.toNat ≤ 57 ∧
    Char.ofNat (BitVec.ofNat 8 c.toNat).toNat = c := by
  have hle : c.toNat ≤ 57 := by
    simp only [Char.isDigit, Bool.and_eq_true, decide_eq_true_eq] at hc
    exact hc.2
  refine ⟨hle, ?_⟩
  rw [BitVec.toNat_ofNat, Nat.mod_eq_of_lt (by omega), Char.ofNat_toNat]

theorem colon_notMem (n : ℕ) : (BitVec.ofNat 8 58 : LittleEndian.Byte) ∉ ascii (toString n) := by
  rw [ascii_toString, List.mem_map]
  rintro ⟨c, hc, heq⟩
  have hle := (of_digit (Nat.isDigit_of_mem_toDigits (by decide) (by decide) hc)).1
  have hnat := congrArg BitVec.toNat heq
  rw [BitVec.toNat_ofNat, Nat.mod_eq_of_lt (by omega)] at hnat
  exact absurd (hnat ▸ hle) (by decide)

theorem ascii_toString_injective : Injective fun n : ℕ => ascii (toString n) := by
  intro n n' h
  have hread (n : ℕ) : (ascii (toString n)).map (fun b => Char.ofNat b.toNat) =
      Nat.toDigits 10 n := by
    rw [ascii_toString, List.map_map]
    refine (List.map_congr_left fun c hc => ?_).trans (List.map_id _)
    exact (of_digit (Nat.isDigit_of_mem_toDigits (by decide) (by decide) hc)).2
  have hdigits := (hread n).symm.trans ((congrArg _ h).trans (hread n'))
  rw [← Nat.ofDigitChars_ten_toDigits (n := n), hdigits, Nat.ofDigitChars_ten_toDigits]

/-- What follows the last `b`, and what comes before it. -/
theorem of_append_cons {xs xs' ys ys' : Bytes} (h : xs ++ b :: ys = xs' ++ b :: ys')
    (hys : b ∉ ys) (hys' : b ∉ ys') : xs = xs' ∧ ys = ys' := by
  obtain ⟨zs, hxs, hzs⟩ | ⟨zs, hxs, hzs⟩ := List.append_eq_append_iff.mp h
  all_goals
    cases zs with
    | nil =>
      cases hzs
      exact ⟨by simp [hxs], rfl⟩
    | cons z zs =>
      cases hzs
      simp at hys hys'

/-- **The key tells the endpoint.** The port is behind the last colon. -/
theorem Endpoint.key_injective : Injective Endpoint.key := by
  rintro ⟨address, port⟩ ⟨address', port'⟩ h
  have hkey : ∀ ep : Endpoint, ep.key =
      ep.address ++ BitVec.ofNat 8 58 :: ascii (toString ep.port.toNat) := fun ep => by
    unfold Endpoint.key
    rw [List.append_assoc]
    rfl
  rw [hkey, hkey] at h
  obtain ⟨haddress, hport⟩ := of_append_cons h (colon_notMem _) (colon_notMem _)
  obtain rfl : address = address' := haddress
  obtain rfl : port = port' := BitVec.eq_of_toNat_eq (ascii_toString_injective hport)
  rfl

end Keys

variable {s s' : State} {a : Action} {c : ConnId} {g : Getting}

/-- `removeConnection` has been called for the connection. -/
def ReceiverPc.removed : ReceiverPc → ℕ
  | .cleaning | .exited => 1
  | _ => 0

def Action.removes (c : ConnId) : Action → Bool
  | .removeConnection c' => c' = c
  | _ => false

/-! ## The invariant -/

/-- A thread is started once, and a connection is in the map until it is removed. -/
structure Mapped (s : State) : Prop where
  started : ∀ c, s.receiver c ≠ .off → (s.conn c).recvStarted = true
  present : ∀ c < s.lastConnectionIndex, (s.receiver c).removed = 0 →
    s.connections (s.conn c).ep.key = some c

namespace Mapped

theorem start : Mapped .start where
  started _ h := absurd rfl h
  present _ h := absurd h (Nat.not_lt_zero _)

theorem of_connections (h : Mapped s) (hmap : s'.connections = s.connections)
    (hindex : s'.lastConnectionIndex = s.lastConnectionIndex)
    (hep : ∀ c, (s'.conn c).ep = (s.conn c).ep)
    (hstarted : ∀ c, s'.receiver c ≠ .off → (s'.conn c).recvStarted = true)
    (hremoved : ∀ c, (s'.receiver c).removed = 0 → (s.receiver c).removed = 0) : Mapped s' where
  started := hstarted
  present c hc hr := by
    rw [hindex] at hc
    rw [hmap, hep]
    exact h.present c hc (hremoved c hr)

theorem setReceiver (h : Mapped s) {pc : ReceiverPc} (hc : s.receiver c ≠ .off)
    (hpc : pc.removed = 0 → (s.receiver c).removed = 0) (hmap : s'.connections = s.connections)
    (hindex : s'.lastConnectionIndex = s.lastConnectionIndex)
    (hep : ∀ c, (s'.conn c).ep = (s.conn c).ep)
    (hflag : ∀ c, (s'.conn c).recvStarted = (s.conn c).recvStarted)
    (hreceiver : s'.receiver = update s.receiver c pc) : Mapped s' := by
  refine h.of_connections hmap hindex hep (fun c' hc' => ?_) fun c' hc' => ?_
  · rw [hflag]
    rw [hreceiver, update_apply] at hc'
    split at hc'
    · next heq => exact heq ▸ h.started c hc
    · exact h.started c' hc'
  · rw [hreceiver, update_apply] at hc'
    split at hc'
    · next heq => exact heq ▸ hpc hc'
    · exact hc'

theorem create (h : Mapped s) (hm : Managed s) {ep : Endpoint} (hc : s.connections ep.key = none)
    (isNull : Bool) : Mapped (s.create ep isNull) where
  started c hc := by
    have hne : c ≠ s.lastConnectionIndex := by
      rintro rfl
      exact hc (hm.off _ le_rfl)
    show (update s.conn s.lastConnectionIndex _ c).recvStarted = true
    rw [update_of_ne hne]
    exact h.started c hc
  present c hlt hr := by
    change c < s.lastConnectionIndex + 1 at hlt
    show update s.connections ep.key (some s.lastConnectionIndex)
      (update s.conn s.lastConnectionIndex _ c).ep.key = some c
    obtain hlt | rfl := Nat.lt_succ_iff_lt_or_eq.mp hlt
    · have hmap := h.present c hlt hr
      rw [update_of_ne (Nat.ne_of_lt hlt), update_of_ne]
      · exact hmap
      · intro hkey
        rw [hkey, hc] at hmap
        cases hmap
    · rw [update_self]
      exact update_self ..

theorem startThread (h : Mapped s) (g : Getting) (ok : Bool) : Mapped (s.startThread g ok) := by
  unfold State.startThread
  split
  · next hstart =>
    have hoff : s.receiver g.conn = .off := by
      by_contra hne
      exact absurd (h.started _ hne) (by rw [hstart.1]; decide)
    refine h.of_connections rfl rfl (update_field Connection.ep rfl) (fun c hc => ?_) fun c hc => ?_
    · show (update s.conn g.conn _ c).recvStarted = true
      change update s.receiver g.conn _ c ≠ .off at hc
      rw [update_apply] at hc ⊢
      split
      · rfl
      · next hne =>
        rw [if_neg hne] at hc
        exact h.started c hc
    · change (update s.receiver g.conn _ c).removed = 0 at hc
      rw [update_apply] at hc
      split at hc
      · next heq =>
        rw [heq, hoff]
        rfl
      · exact hc
  · exact h.of_connections rfl rfl (fun _ => rfl) h.started fun _ hr => hr

/-- The connection that is removed is in the map, and no other has its key. -/
theorem removeConnection (h : Mapped s) (hm : Managed s) (hc : s.receiver c = .removing) :
    s.connections (s.conn c).ep.key = some c ∧ ∀ key c',
      (s.removeConnection c).connections key = some c' ↔ s.connections key = some c' ∧ c' ≠ c := by
  have hlt : c < s.lastConnectionIndex := by
    by_contra hle
    have hoff := hm.off c (Nat.le_of_not_lt hle)
    rw [hc] at hoff
    cases hoff
  have hown := h.present c hlt (by rw [hc]; rfl)
  refine ⟨hown, fun key c' => ?_⟩
  show update s.connections (s.conn c).ep.key none key = some c' ↔ _
  rw [update_apply]
  split
  · next heq =>
    rw [heq, hown, Option.some_inj]
    exact ⟨fun hnone => (by cases hnone), fun hboth => absurd hboth.1.symm hboth.2⟩
  · next hne =>
    refine (and_iff_left_of_imp fun hc' heq => hne ?_).symm
    rw [← (hm.entry key c' hc').2, heq]

end Mapped

theorem Moves.mapped (hm : Moves s a s') (hI : Managed s) (h : Mapped s) : Mapped s' := by
  cases hm with
  | newCall => exact h.of_connections rfl rfl (fun _ => rfl) h.started fun _ hr => hr
  | reuse => exact h.of_connections rfl rfl (fun _ => rfl) h.started fun _ hr => hr
  | create hg hk hc =>
    exact (h.create hI hc _).of_connections rfl rfl (fun _ => rfl) (h.create hI hc _).started
      fun _ hr => hr
  | @connect g result =>
    have hflag := s.connect_field g result Connection.recvStarted fun _ _ => rfl
    refine h.of_connections (by simp) (by simp) (s.connect_field g result Connection.ep
      fun _ _ => rfl) (fun c hc => ?_) fun c hr => ?_
    · rw [State.connect_receiver] at hc
      exact (hflag c).trans (h.started c hc)
    · rwa [State.connect_receiver] at hr
  | startThread => exact h.startThread _ _
  | @addCall g hg =>
    have hflag : ∀ c, ((s.addCall g).conn c).recvStarted = (s.conn c).recvStarted :=
      update_field Connection.recvStarted rfl
    exact h.of_connections rfl rfl (update_field Connection.ep rfl)
      (fun c hc => (hflag c).trans (h.started c hc)) fun _ hr => hr
  | leave => exact h.of_connections rfl rfl (fun _ => rfl) h.started fun _ hr => hr
  | sendCall =>
    refine h.of_connections (by simp) (by simp) (by simp) (fun c hc => ?_) fun c hr => ?_
    · rw [State.sendCall_receiver] at hc
      rw [State.sendCall_conn]
      exact h.started c hc
    · rwa [State.sendCall_receiver] at hr
  | finish => exact h.of_connections rfl rfl (fun _ => rfl) h.started fun _ hr => hr
  | waitForWork hc =>
    exact h.setReceiver (by simp [hc]) (fun _ => by rw [hc]; rfl) rfl rfl (fun _ => rfl)
      (fun _ => rfl) rfl
  | @recvRespond c input hc =>
    obtain ⟨status, call, -, heq | heq⟩ := s.recvRespond_eq c input <;> rw [heq]
    · exact h.of_connections rfl rfl (fun _ => rfl) h.started fun _ hr => hr
    · exact h.setReceiver (by simp [hc]) (fun _ => by rw [hc]; rfl) rfl rfl (fun _ => rfl)
        (fun _ => rfl) rfl
  | markClosed hc =>
    exact h.setReceiver (by simp [hc]) (fun _ => by rw [hc]; rfl) rfl rfl
      (update_field Connection.ep rfl) (update_field Connection.recvStarted rfl) rfl
  | closeSock hc =>
    exact h.setReceiver (by simp [hc]) (fun _ => by rw [hc]; rfl) rfl rfl
      (update_field Connection.ep rfl) (update_field Connection.recvStarted rfl) rfl
  | @removeConnection c hc hg =>
    refine ⟨fun c' hc' => ?_, fun c' hlt hr => ?_⟩
    · change update s.receiver c .cleaning c' ≠ .off at hc'
      rw [update_apply] at hc'
      split at hc'
      · next heq => exact h.started c' (by rw [heq, hc]; decide)
      · exact h.started c' hc'
    · change (update s.receiver c .cleaning c').removed = 0 at hr
      have hne : c' ≠ c := by
        rintro rfl
        rw [update_self] at hr
        cases hr
      rw [update_of_ne hne] at hr
      exact ((h.removeConnection hI hc).2 _ c').mpr ⟨h.present c' hlt hr, hne⟩
  | cleanupCalls hc =>
    unfold State.cleanupCalls
    split
    · exact h.setReceiver (by simp [hc]) (fun hr => by cases hr) rfl rfl (fun _ => rfl)
        (fun _ => rfl) rfl
    · exact h.of_connections rfl rfl (fun _ => rfl) h.started fun _ hr => hr

theorem mapped_of_reachable (h : client.Reachable s) : Mapped s :=
  h.invariant_of (fun _ => managed_of_reachable) (by rintro _ rfl; exact .start)
    fun _ _ _ hJ hI _ hs => (State.moves_of_step hs).mapped hJ hI

/-! ## How often a connection is removed -/

theorem removed_update {f : ConnId → ReceiverPc} {pc : ReceiverPc} (i : ℕ)
    (h : pc.removed = (f c).removed + i) (c' : ConnId) :
    (update f c pc c').removed = (f c').removed + if c = c' then i else 0 := by
  by_cases heq : c = c'
  · rw [← heq, update_self, if_pos rfl, h]
  · rw [update_of_ne (Ne.symm heq), if_neg heq, Nat.add_zero]

theorem Moves.removed (hm : Moves s a s') (h : Mapped s) (c' : ConnId) :
    (s'.receiver c').removed = (s.receiver c').removed + if a.removes c' then 1 else 0 := by
  have hupdate {c : ConnId} {pc : ReceiverPc} (hpc : pc.removed = (s.receiver c).removed) :
      (update s.receiver c pc c').removed = (s.receiver c').removed + 0 := by
    rw [removed_update 0 hpc, ite_self]
  cases hm with
  | connect => rw [State.connect_receiver]; rfl
  | @startThread g ok =>
    unfold State.startThread
    split
    · next hstart =>
      have hoff : s.receiver g.conn = .off := by
        by_contra hne
        exact absurd (h.started _ hne) (by rw [hstart.1]; decide)
      exact hupdate (by rw [hoff]; rfl)
    · rfl
  | sendCall => rw [State.sendCall_receiver]; rfl
  | waitForWork hc =>
    refine hupdate ?_
    rw [hc]
    split
    · rfl
    · split <;> rfl
  | @recvRespond c input hc =>
    obtain ⟨status, call, -, heq | heq⟩ := s.recvRespond_eq c input <;> rw [heq]
    · rfl
    · exact hupdate (by rw [hc]; rfl)
  | markClosed hc => exact hupdate (by rw [hc]; rfl)
  | closeSock hc => exact hupdate (by rw [hc]; rfl)
  | @removeConnection c hc hg =>
    show (update s.receiver c .cleaning c').removed = _ + if decide (c = c') = true then 1 else 0
    rw [removed_update 1 (by rw [hc]; rfl)]
    simp only [decide_eq_true_eq]
  | cleanupCalls hc =>
    unfold State.cleanupCalls
    split
    · exact hupdate (by rw [hc]; rfl)
    · rfl
  | _ => rfl

theorem removed_of_run {as : List Action} (h : client.Reachable s)
    (hrun : client.run (fun _ _ => True) s as = some s') (c : ConnId) :
    (s'.receiver c).removed = (s.receiver c).removed + as.countP (Action.removes c) := by
  induction as generalizing s with
  | nil =>
    cases hrun
    rfl
  | cons a as ih =>
    obtain ⟨t, ht, hrun⟩ := System.exists_step_of_run hrun
    rw [ih (h.step trivial ht) hrun, (State.moves_of_step ht).removed (mapped_of_reachable h) c,
      List.countP_cons]
    omega

theorem ReceiverPc.removed_le (pc : ReceiverPc) : pc.removed ≤ 1 := by
  cases pc <;> simp [removed]

/-! ## Over runs -/

/-- What is so after a run: the entries are for their own endpoints, a connection that was made and
not removed has one, and a removal takes the entry of its connection and no other, once. -/
structure RemovesItself (as : List Action) (s : State) : Prop where
  entry : ∀ key c, s.connections key = some c → (s.conn c).ep.key = key
  endpoint : ∀ ep c, s.connections ep.key = some c → (s.conn c).ep = ep
  present : ∀ c < s.lastConnectionIndex, as.countP (Action.removes c) = 0 →
    s.connections (s.conn c).ep.key = some c
  removal : ∀ c s', s.step (.removeConnection c) = some s' →
    s.connections (s.conn c).ep.key = some c ∧
      ∀ key c', s'.connections key = some c' ↔ s.connections key = some c' ∧ c' ≠ c
  once : ∀ c, as.countP (Action.removes c) ≤ 1

/-- **A closing connection removes only itself**, whatever the threads do. -/
theorem removesItself_of_run {as : List Action}
    (h : client.run (fun _ _ => True) .start as = some s) : RemovesItself as s := by
  have hreach : client.Reachable s := .run (.init rfl) h
  have hmanaged := managed_of_reachable hreach
  have hmapped := mapped_of_reachable hreach
  have hcount := removed_of_run (.init rfl) h
  refine ⟨fun key c hc => (hmanaged.entry key c hc).2,
    fun ep c hc => Endpoint.key_injective (hmanaged.entry _ c hc).2, fun c hlt hzero => ?_,
    fun c s' hs => ?_, fun c => ?_⟩
  · refine hmapped.present c hlt ?_
    rw [hcount c, hzero]
    rfl
  · cases State.moves_of_step hs with
    | removeConnection hc hg => exact hmapped.removeConnection hmanaged hc
  · have hle := (s.receiver c).removed_le
    have hsum := hcount c
    omega

/-- The first connection is removed and another one is made for the same endpoint. -/
def madeAgain : List Action :=
  fiveWaits ++ [.markClosed 0, .closeSock 0, .addCall, .leave, .removeConnection 0, peerCall,
    .getConnection 1 true]

theorem removesItself_madeAgain : ∃ s, client.run (fun _ _ => True) .start madeAgain = some s ∧
    s.connections peer.key = some 1 ∧ RemovesItself madeAgain s := by
  have hrun : (client.run (fun _ _ => True) .start madeAgain).any
      (fun s => s.connections peer.key = some 1) = true := by decide +kernel
  obtain ⟨s, hs, hentry⟩ := (Option.any_eq_true _ _).mp hrun
  exact ⟨s, hs, of_decide_eq_true hentry, removesItself_of_run hs⟩

end PRpc.Client
