import PRpc.Client.Removal
import PRpc.Client.Session

/-!
# What one connection has of a client

A `Session` is the client as one of its connections sees it (`Seen`): the table is that of the
connection, and a call is where its thread is if the thread goes through the connection. Any other
call is one that was made and never registered. For what `getConnection` and the closing of a
connection do the session has no step; the other steps on the connection are its own.
-/

namespace PRpc.Client

open Function

variable {s s' : State} {a : Action} {t : Session} {d c : ConnId} {k : CallId} {g : Getting}

/-! ## A call has one connection -/

theorem Managed.lookup_ne_of_adding (h : Managed s) (hg : s.getting = some g)
    (hpc : g.pc = .adding) (c : ConnId) (id : CInt) :
    (s.conn c).calls.lookup id ≠ some g.call := by
  intro hid
  have hadd := h.added c id _ hid
  unfold State.Added at hadd
  rw [h.caller g hg] at hadd
  obtain ⟨g', hg', -, r, hr⟩ := hadd
  rw [hg] at hg'
  cases hg'
  rw [hpc] at hr
  cases hr

theorem Moves.of_lookup (hm : Moves s a s') {id : CInt}
    (h : (s'.conn c).calls.lookup id = some k) : (s.conn c).calls.lookup id = some k ∨
      ∃ g, s.getting = some g ∧ g.pc = .adding ∧ s' = s.addCall g ∧ c = g.conn ∧ k = g.call := by
  rcases hm.conn_cases c with ⟨heq, -⟩ | ⟨g, hg, hpc, hs, hc, heq, -⟩ | ⟨-, -, hnil, -⟩
  · exact .inl (heq ▸ h)
  · rw [heq] at h
    rcases CallMap.of_lookup_add h with hold | ⟨-, rfl⟩
    · exact .inl hold
    · exact .inr ⟨g, hg, hpc, hs, hc, rfl⟩
  · rw [hnil] at h
    cases (AList.lookup_empty (β := fun _ => CallId) id).symm.trans h

/-- No call is in the tables of two connections. -/
def State.OneTable (s : State) : Prop :=
  ∀ c c' id id' k, (s.conn c).calls.lookup id = some k → (s.conn c').calls.lookup id' = some k →
    c = c'

theorem Moves.oneTable (hm : Moves s a s') (hM : Managed s) (h : s.OneTable) : s'.OneTable := by
  intro c c' id id' k hid hid'
  rcases hm.of_lookup hid with hold | ⟨g, hg, hpc, -, rfl, rfl⟩
  · rcases hm.of_lookup hid' with hold' | ⟨g, hg, hpc, -, rfl, rfl⟩
    · exact h c c' id id' k hold hold'
    · exact absurd hold (hM.lookup_ne_of_adding hg hpc c id)
  · rcases hm.of_lookup hid' with hold' | ⟨g', hg', -, -, rfl, -⟩
    · exact absurd hold' (hM.lookup_ne_of_adding hg hpc c' id')
    · rw [hg] at hg'
      cases hg'
      rfl

theorem oneTable_of_reachable (h : client.Reachable s) : s.OneTable := by
  refine h.invariant_of (fun _ => managed_of_reachable) ?_ fun _ _ _ hJ hI _ hs =>
    (State.moves_of_step hs).oneTable hJ hI
  rintro _ rfl c c' id id' k hid
  cases (AList.lookup_empty (β := fun _ => CallId) id).symm.trans hid

/-! ## The call of a thread -/

/-- The call, registered on the connection `c`, is at `pc` in the session on `d` if that is the
connection. -/
def Through (d c : ConnId) (pc : Session.CallerPc) (call : Call) (pc' : Session.CallerPc)
    (call' : Call) : Prop := (c = d → pc' = pc ∧ call' = call) ∧ (c ≠ d → pc' = .made)

/-- What the session on `d` has of a call whose thread is at a place in `Client::call`. -/
def Shows (d : ConnId) (getting : Option Getting) (k : CallId) (call : Call)
    (pc' : Session.CallerPc) (call' : Call) : CallerPc → Prop
  | .unmade => pc' = .unmade
  | .made _ => pc' = .made ∧ call' = call
  | .getting => ∀ g ∈ getting, g.call = k →
      ((∀ r, g.pc ≠ .returning r) → pc' = .made ∧ call' = call) ∧
      ((∃ r, g.pc = .returning r) → Through d g.conn .added call pc' call')
  | .got c => Through d c .added call pc' call'
  | .waiting c => Through d c .sent call pc' call'
  -- the call was on another connection, or its request could not be written, or it is done
  | .returned => pc' = .made ∨ (pc' = .added ∨ pc' = .returned) ∧ call' = call

namespace Shows

variable {getting getting' : Option Getting} {call call₂ call' : Call} {pc : CallerPc}
  {pc' : Session.CallerPc}

theorem of_ne (h : Shows d getting k call pc' call' pc) (hne : pc ≠ .getting) :
    Shows d getting' k call pc' call' pc := by
  cases pc with
  | getting => exact absurd rfl hne
  | unmade | made | got | waiting | returned => exact h

theorem goOn (h : Shows d (some g) k call pc' call' pc) {gpc : GetPc}
    (hpc : ∀ r, g.pc ≠ .returning r) (hgpc : ∀ r, gpc ≠ .returning r) :
    Shows d (some { g with pc := gpc }) k call pc' call' pc := by
  by_cases hne : pc = .getting
  · subst hne
    rintro _ ⟨⟩ hk
    exact ⟨fun _ => (h g rfl hk).1 hpc, fun ⟨r, hr⟩ => absurd hr (hgpc r)⟩
  · exact h.of_ne hne

theorem elsewhere (h : Shows d getting k call .made call' pc) (hadd : pc.Added getting k) :
    Shows d getting k call₂ .made call' pc := by
  have hthrough {c : ConnId} {pc₀ : Session.CallerPc} (hpc : pc₀ ≠ .made)
      (h : Through d c pc₀ call .made call') : Through d c pc₀ call₂ .made call' :=
    ⟨fun hc => absurd (h.1 hc).1.symm hpc, h.2⟩
  cases pc with
  | unmade | made => exact hadd.elim
  | getting =>
    obtain ⟨g', hg', hk', r, hr⟩ := hadd
    intro g hg hk
    rw [hg'] at hg
    cases hg
    exact ⟨fun hne => absurd hr (hne r), fun hr => hthrough (by simp) ((h g' hg' hk).2 hr)⟩
  | got | waiting => exact hthrough (by simp) h
  | returned => exact .inl rfl

/-- The session has the call itself if it is registered there. -/
theorem call_eq (h : Shows d getting k call pc' call' pc) (hadd : pc.Added getting k)
    (hreg : pc'.Registered) : call' = call := by
  have hthrough {c : ConnId} {pc₀ : Session.CallerPc} (h : Through d c pc₀ call pc' call') :
      call' = call := by
    by_cases hc : c = d
    · exact (h.1 hc).2
    · rw [h.2 hc] at hreg
      exact hreg.elim
  cases pc with
  | unmade | made => exact hadd.elim
  | getting =>
    obtain ⟨g, hg, hk, hr⟩ := hadd
    exact hthrough ((h g hg hk).2 hr)
  | got | waiting => exact hthrough h
  | returned =>
    obtain rfl | ⟨-, hcall⟩ := h
    · exact hreg.elim
    · exact hcall

theorem waiting (h : Shows d getting k call .sent call' pc) (hadd : pc.Added getting k) :
    pc = .waiting d := by
  have hthrough {c : ConnId} {pc₀ : Session.CallerPc} (h : Through d c pc₀ call .sent call') :
      c = d ∧ pc₀ = .sent := by
    by_cases hc : c = d
    · exact ⟨hc, (h.1 hc).1.symm⟩
    · cases h.2 hc
  cases pc with
  | unmade | made => exact hadd.elim
  | getting =>
    obtain ⟨g, hg, hk, hr⟩ := hadd
    cases (hthrough ((h g hg hk).2 hr)).2
  | got => cases (hthrough h).2
  | waiting => rw [(hthrough h).1]
  | returned => obtain h | ⟨h | h, -⟩ := h <;> cases h

theorem set (h : Shows d getting k call pc' call' pc) (hreg : pc'.Registered) :
    Shows d getting k call₂ pc' call₂ pc := by
  have hthrough {c : ConnId} {pc₀ : Session.CallerPc} (h : Through d c pc₀ call pc' call') :
      Through d c pc₀ call₂ pc' call₂ := ⟨fun hc => ⟨(h.1 hc).1, rfl⟩, h.2⟩
  cases pc with
  | unmade => exact h
  | made => exact ⟨h.1, rfl⟩
  | getting =>
    intro g hg hk
    exact ⟨fun hr => ⟨((h g hg hk).1 hr).1, rfl⟩, fun hr => hthrough ((h g hg hk).2 hr)⟩
  | got | waiting => exact hthrough h
  | returned =>
    obtain rfl | ⟨hpc, -⟩ := h
    · exact hreg.elim
    · exact .inr ⟨hpc, rfl⟩

theorem ne_unmade (h : Shows d getting k call pc' call' pc) (hadd : pc.Added getting k) :
    pc' ≠ .unmade := by
  have hthrough {c : ConnId} {pc₀ : Session.CallerPc} (hpc : pc₀ ≠ .unmade)
      (h : Through d c pc₀ call pc' call') : pc' ≠ .unmade := by
    by_cases hc : c = d
    · rwa [(h.1 hc).1]
    · rw [h.2 hc]
      simp
  cases pc with
  | unmade | made => exact hadd.elim
  | getting =>
    obtain ⟨g, hg, hk, hr⟩ := hadd
    exact hthrough (by simp) ((h g hg hk).2 hr)
  | got | waiting => exact hthrough (by simp) h
  | returned => obtain rfl | ⟨rfl | rfl, -⟩ := h <;> simp

end Shows

/-! ## The session -/

/-- The session `t` is what the connection `d` has of the client. -/
structure Seen (d : ConnId) (s : State) (t : Session) : Prop where
  made : t.made = s.lastCall
  shows : ∀ k, Shows d s.getting k (s.call k) (t.caller k) (t.call k) (s.caller k)
  calls : t.conn.calls = (s.conn d).calls
  index : t.conn.lastCallIndex =
    if d < s.lastConnectionIndex then (s.conn d).lastCallIndex else 0
  receiver : t.receiver = if s.receiver d = .receiving then .receiving else .waiting

theorem Seen.start (d : ConnId) (ep : Endpoint) (fresh : CInt) (memory : Memory) :
    Seen d .start (Session.start ep fresh memory) where
  made := rfl
  shows _ := rfl
  calls := rfl
  index := rfl
  receiver := rfl

/-- The last step of `recvRespond`, with the call that was found. -/
def Session.readValue (t : Session) (k : CallId) (inbox : Sock) : Session :=
  match Connection.recvValue (t.call k) inbox with
  | (none, inbox) => t.received inbox
  | (some call, inbox) => t.complete k call inbox

theorem Session.act_recvValue {t : Session} {id : CInt} {k : CallId}
    (hpc : t.receiver = .found id k) (harrived : t.Arrived) :
    t.act .recvValue = some (t.readValue k t.inbox) := by
  unfold Session.act
  dsimp only
  rw [hpc]
  dsimp only
  rw [if_pos harrived]
  unfold readValue
  rcases Connection.recvValue (t.call k) t.inbox with ⟨_ | call, inbox⟩ <;> rfl

theorem Session.readValue_inbox (t : Session) (k : CallId) (inbox : Sock) :
    (t.readValue k inbox).inbox = (Connection.recvValue (t.call k) inbox).2 := by
  unfold readValue
  rcases Connection.recvValue (t.call k) inbox with ⟨_ | call, inbox'⟩ <;> rfl

/-- The calls that the session has registered are those in its table. -/
def Session.Keyed (t : Session) : Prop :=
  (∀ id k, t.conn.calls.lookup id = some k → (t.caller k).Registered) ∧
    ∀ k, (t.caller k).Registered → ∃ id, t.conn.calls.lookup id = some k

namespace Seen

/-- The rule for a step that leaves the session as it is. -/
theorem of_same (h : Seen d s t) (hlast : s'.lastCall = s.lastCall)
    (hshows : ∀ k, Shows d s'.getting k (s'.call k) (t.caller k) (t.call k) (s'.caller k))
    (hcalls : (s'.conn d).calls = (s.conn d).calls)
    (hindex : (s'.conn d).lastCallIndex = (s.conn d).lastCallIndex)
    (hnext : s'.lastConnectionIndex = s.lastConnectionIndex)
    (hreceiver : s'.receiver d = .receiving ↔ s.receiver d = .receiving) : Seen d s' t where
  made := h.made.trans hlast.symm
  shows := hshows
  calls := h.calls.trans hcalls.symm
  index := by rw [hnext, hindex]; exact h.index
  receiver := by simp only [hreceiver]; exact h.receiver

/-- A call of the session on another connection is not registered. -/
theorem caller_of_ne (h : Seen d s t) (hM : Managed s) (hone : s.OneTable) (hkey : t.Keyed)
    (hne : c ≠ d) {id : CInt} (hid : (s.conn c).calls.lookup id = some k) : t.caller k = .made := by
  have hunreg : ¬(t.caller k).Registered := by
    intro hreg
    obtain ⟨id', hid'⟩ := hkey.2 k hreg
    rw [h.calls] at hid'
    exact hne (hone c d id id' k hid hid')
  have hmade := (h.shows k).ne_unmade (hM.added c id k hid)
  cases hpc : t.caller k with
  | unmade => exact absurd hpc hmade
  | made => rfl
  | added | sent | returned => exact absurd (by rw [hpc]; trivial) hunreg

theorem call_of_lookup (h : Seen d s t) (hM : Managed s) (hkey : t.Keyed) {id : CInt}
    (hid : (s.conn d).calls.lookup id = some k) : t.call k = s.call k :=
  (h.shows k).call_eq (hM.added d id k hid) (hkey.1 id k (h.calls ▸ hid))

/-! ### The callers -/

theorem newCall (h : Seen d s t) (ep : Endpoint) (id : CInt) (param : Writable) :
    Seen d (s.newCall ep { valueClass := ascii "IntWritable", id, param })
      (t.newCall id param) where
  made := congrArg Nat.succ h.made
  shows k := by
    show Shows d s.getting k (update s.call s.lastCall _ k) (update t.caller t.made .made k)
      (update t.call t.made _ k) (update s.caller s.lastCall (.made ep) k)
    rw [h.made]
    by_cases heq : k = s.lastCall
    · rw [heq, update_self, update_self, update_self, update_self]
      exact ⟨rfl, rfl⟩
    · rw [update_of_ne heq, update_of_ne heq, update_of_ne heq, update_of_ne heq]
      exact h.shows k
  calls := h.calls
  index := h.index
  receiver := h.receiver

theorem create (h : Seen d s t) (ht : Tabled s) (ep : Endpoint) (isNull : Bool) :
    Seen d (s.create ep isNull) t where
  made := h.made
  shows := h.shows
  calls := by
    show _ = (update s.conn s.lastConnectionIndex _ d).calls
    by_cases heq : d = s.lastConnectionIndex
    · rw [heq, update_self]
      exact h.calls.trans (ht.fresh d (le_of_eq heq.symm))
    · rw [update_of_ne heq]
      exact h.calls
  index := by
    have hindex := h.index
    show _ = if d < s.lastConnectionIndex + 1 then
      (update s.conn s.lastConnectionIndex _ d).lastCallIndex else 0
    by_cases heq : d = s.lastConnectionIndex
    · rw [if_neg (heq ▸ Nat.lt_irrefl _)] at hindex
      rw [heq, update_self, if_pos (Nat.lt_succ_self _)]
      exact hindex
    · rw [update_of_ne heq]
      have hiff : d < s.lastConnectionIndex + 1 ↔ d < s.lastConnectionIndex :=
        Nat.lt_succ_iff.trans ⟨fun hle => Nat.lt_of_le_of_ne hle heq, Nat.le_of_lt⟩
      simp only [hiff]
      exact hindex
  receiver := h.receiver

theorem enter (h : Seen d s t) {ep : Endpoint} (hk : s.caller k = .made ep) (c : ConnId) :
    Seen d (s.enter ep k c) t := by
  refine h.of_same rfl (fun j => ?_) rfl rfl rfl .rfl
  show Shows d (some ⟨ep, k, c, .connecting⟩) j (s.call j) (t.caller j) (t.call j)
    (update s.caller k .getting j)
  by_cases heq : j = k
  · have hshows := h.shows k
    rw [hk] at hshows
    rw [heq, update_self]
    rintro _ ⟨⟩ -
    exact ⟨fun _ => hshows, fun ⟨r, hr⟩ => by cases hr⟩
  · rw [update_of_ne heq]
    by_cases hpc : s.caller j = .getting
    · rw [hpc]
      rintro _ ⟨⟩ hj
      exact absurd hj.symm heq
    · exact (h.shows j).of_ne hpc

theorem setCaller (h : Seen d s t) {pc : CallerPc} (pc' : Session.CallerPc)
    (hcaller : s'.caller = update s.caller k pc) (hcall : s'.call = s.call)
    (hconn : s'.conn = s.conn) (hreceiver : s'.receiver = s.receiver)
    (hlast : s'.lastCall = s.lastCall) (hnext : s'.lastConnectionIndex = s.lastConnectionIndex)
    (hgetting : s'.getting = s.getting ∨ s'.getting = none)
    (hself : Shows d s'.getting k (s.call k) pc' (t.call k) pc) :
    Seen d s' (t.setCaller k pc') where
  made := h.made.trans hlast.symm
  shows j := by
    show Shows d s'.getting j (s'.call j) (update t.caller k pc' j) (t.call j) (s'.caller j)
    rw [hcall, hcaller]
    by_cases heq : j = k
    · rw [heq, update_self, update_self]
      exact hself
    · rw [update_of_ne heq, update_of_ne heq]
      rcases hgetting with hsame | hnone
      · rw [hsame]
        exact h.shows j
      · by_cases hpc : s.caller j = .getting
        · rw [hpc, hnone]
          rintro _ ⟨⟩
        · exact (h.shows j).of_ne hpc
  calls := by rw [hconn]; exact h.calls
  index := by rw [hnext, hconn]; exact h.index
  receiver := by rw [hreceiver]; exact h.receiver

/-- The thread of a call goes on by a step that the session does not have. -/
theorem setCaller_self (h : Seen d s t) {pc : CallerPc} (hcaller : s'.caller = update s.caller k pc)
    (hcall : s'.call = s.call) (hconn : s'.conn = s.conn) (hreceiver : s'.receiver = s.receiver)
    (hlast : s'.lastCall = s.lastCall) (hnext : s'.lastConnectionIndex = s.lastConnectionIndex)
    (hgetting : s'.getting = s.getting ∨ s'.getting = none)
    (hself : Shows d s'.getting k (s.call k) (t.caller k) (t.call k) pc) : Seen d s' t := by
  have hsame : t.setCaller k (t.caller k) = t := by
    unfold Session.setCaller
    rw [update_eq_self]
  have h' := h.setCaller (t.caller k) hcaller hcall hconn hreceiver hlast hnext hgetting hself
  rwa [hsame] at h'

theorem leave (h : Seen d s t) (hM : Managed s) (hg : s.getting = some g) {r : Option ConnId}
    (hpc : g.pc = .returning r) : Seen d (s.leave g r) t := by
  obtain rfl := hM.result g hg r hpc
  have hshows := h.shows g.call
  rw [hM.caller g hg] at hshows
  have hcaller : (s.leave g (some g.conn)).caller = update s.caller g.call (.got g.conn) := rfl
  exact h.setCaller_self hcaller rfl rfl rfl rfl rfl (.inr rfl) ((hshows g hg rfl).2 ⟨_, hpc⟩)

theorem finish (h : Seen d s t) (hk : s.caller k = .waiting d) :
    t.caller k = .sent ∧ t.call k = s.call k ∧
      Seen d (s.setCaller k .returned) (t.setCaller k .returned) := by
  have hshows := h.shows k
  rw [hk] at hshows
  obtain ⟨hsent, hcall⟩ := hshows.1 rfl
  exact ⟨hsent, hcall, h.setCaller .returned rfl rfl rfl rfl rfl rfl (.inl rfl)
    (.inr ⟨.inr rfl, hcall⟩)⟩

theorem finish_of_ne (h : Seen d s t) (hk : s.caller k = .waiting c) (hne : c ≠ d) :
    Seen d (s.setCaller k .returned) t := by
  have hshows := h.shows k
  rw [hk] at hshows
  exact h.setCaller_self rfl rfl rfl rfl rfl rfl (.inl rfl) (.inl (hshows.2 hne))

theorem sendCall (h : Seen d s t) (hk : s.caller k = .got d) :
    t.caller k = .added ∧ t.call k = s.call k ∧
      Seen d (s.setCaller k (.waiting d)) (t.setCaller k .sent) := by
  have hshows := h.shows k
  rw [hk] at hshows
  obtain ⟨hadded, hcall⟩ := hshows.1 rfl
  exact ⟨hadded, hcall, h.setCaller .sent rfl rfl rfl rfl rfl rfl (.inl rfl)
    ⟨fun _ => ⟨rfl, hcall⟩, fun hne => absurd rfl hne⟩⟩

/-- Nothing goes out on it: the call has another connection, or the write fails. -/
theorem sendCall_of_ne (h : Seen d s t) (hk : s.caller k = .got c) {ok : Bool}
    (hne : c = d → (s.conn c).sock = .connected → ok = false) : Seen d (s.sendCall k c ok) t := by
  have hshows := h.shows k
  rw [hk] at hshows
  have hreturned : Shows d s.getting k (s.call k) (t.caller k) (t.call k) .returned := by
    by_cases hc : c = d
    · exact .inr ⟨.inl (hshows.1 hc).1, (hshows.1 hc).2⟩
    · exact .inl (hshows.2 hc)
  unfold State.sendCall
  split
  · next hsock =>
    refine h.setCaller_self rfl rfl rfl rfl rfl rfl (.inl rfl) ?_
    cases ok with
    | false => exact hreturned
    | true => exact ⟨fun hc => absurd (hne hc hsock) (by simp), hshows.2⟩
  · exact h.setCaller_self rfl rfl rfl rfl rfl rfl (.inl rfl) hreturned
  all_goals exact h.of_same rfl h.shows rfl rfl rfl .rfl

/-! ### In `getConnection` -/

theorem connect (h : Seen d s t) (hg : s.getting = some g) (hpc : g.pc = .connecting)
    (result : ConnectResult) : Seen d (s.connect g result) t := by
  have hfields : (s.connect g result).lastCall = s.lastCall ∧ ∃ pc : GetPc,
      (∀ r, pc ≠ .returning r) ∧ (s.connect g result).getting = some { g with pc } := by
    unfold State.connect
    split
    · cases result with
      | noSocket => exact ⟨rfl, .adding, by simp, rfl⟩
      | refused => exact ⟨rfl, .adding, by simp, rfl⟩
      | connected => exact ⟨rfl, .starting, by simp, rfl⟩
    · exact ⟨rfl, .adding, by simp, rfl⟩
  obtain ⟨hlast, pc, hne, hgetting⟩ := hfields
  refine h.of_same hlast (fun k => ?_)
    (s.connect_field g result Connection.calls (fun _ _ => rfl) d)
    (s.connect_field g result Connection.lastCallIndex (fun _ _ => rfl) d) (by simp) (by simp)
  have hshows := h.shows k
  rw [hg] at hshows
  rw [hgetting, State.connect_call, State.connect_caller]
  exact hshows.goOn (by simp [hpc]) hne

theorem startThread (h : Seen d s t) (hmap : Mapped s) (hg : s.getting = some g)
    (hpc : g.pc = .starting) (ok : Bool) : Seen d (s.startThread g ok) t := by
  have hfields : (s.startThread g ok).lastCall = s.lastCall ∧
      (s.startThread g ok).getting = some { g with pc := .adding } ∧
      ((s.startThread g ok).receiver d = .receiving ↔ s.receiver d = .receiving) := by
    unfold State.startThread
    split
    · next hstart =>
      refine ⟨rfl, rfl, ?_⟩
      show update s.receiver g.conn (.waiting 0) d = .receiving ↔ _
      by_cases heq : d = g.conn
      · -- the thread is started once
        have hoff : s.receiver g.conn = .off := by
          by_contra hne
          exact absurd (hmap.started _ hne) (by rw [hstart.1]; decide)
        rw [heq, update_self, hoff]
        simp
      · rw [update_of_ne heq]
    · exact ⟨rfl, rfl, .rfl⟩
  obtain ⟨hlast, hgetting, hreceiver⟩ := hfields
  refine h.of_same hlast (fun k => ?_)
    (s.startThread_field g ok Connection.calls (fun _ _ => rfl) d)
    (s.startThread_field g ok Connection.lastCallIndex (fun _ _ => rfl) d) (by simp) hreceiver
  have hshows := h.shows k
  rw [hg] at hshows
  rw [hgetting, State.startThread_call, State.startThread_caller]
  exact hshows.goOn (by simp [hpc]) (by simp)

theorem shows_addCall (h : Seen d s t) (hg : s.getting = some g) (hk : k ≠ g.call) :
    Shows d (s.addCall g).getting k ((s.addCall g).call k) (t.caller k) (t.call k)
      (s.caller k) := by
  show Shows d (some { g with pc := .returning (some g.conn) }) k
    (update s.call g.call _ k) (t.caller k) (t.call k) (s.caller k)
  rw [update_of_ne hk]
  have hshows := h.shows k
  rw [hg] at hshows
  by_cases hne : s.caller k = .getting
  · rw [hne]
    rintro _ ⟨⟩ heq
    exact absurd heq.symm hk
  · exact hshows.of_ne hne

theorem addCall (h : Seen d s t) (hM : Managed s) (hg : s.getting = some g) (hpc : g.pc = .adding)
    (hd : g.conn = d) : t.caller g.call = .made ∧ Seen d (s.addCall g) (t.register g.call) := by
  subst hd
  have hshows := h.shows g.call
  rw [hM.caller g hg] at hshows
  obtain ⟨hmade, hcall⟩ := (hshows g hg rfl).1 (by simp [hpc])
  have hlt := (hM.getting g hg).1
  have hindex := h.index
  rw [if_pos hlt] at hindex
  refine ⟨hmade, h.made, fun k => ?_, ?_, ?_, h.receiver⟩
  · show Shows _ _ k _ (update t.caller g.call .added k)
      (update t.call g.call ((t.call g.call).setId t.conn.lastCallIndex) k) (s.caller k)
    by_cases heq : k = g.call
    · rw [heq, update_self, update_self, hM.caller g hg]
      rintro _ ⟨⟩ -
      refine ⟨fun hne => absurd rfl (hne _),
        fun _ => ⟨fun _ => ⟨rfl, ?_⟩, fun hne => absurd rfl hne⟩⟩
      show _ = update s.call g.call _ g.call
      rw [update_self, hcall, hindex]
    · rw [update_of_ne heq, update_of_ne heq]
      exact h.shows_addCall hg heq
  · show t.conn.calls.add t.conn.lastCallIndex g.call = (update s.conn g.conn _ g.conn).calls
    rw [update_self, h.calls, hindex]
    rfl
  · show t.conn.lastCallIndex + 1 = if g.conn < s.lastConnectionIndex then
      (update s.conn g.conn _ g.conn).lastCallIndex else 0
    rw [if_pos hlt, update_self, hindex]
    rfl

theorem addCall_of_ne (h : Seen d s t) (hM : Managed s) (hg : s.getting = some g)
    (hpc : g.pc = .adding) (hd : g.conn ≠ d) : Seen d (s.addCall g) t := by
  have hconn : (s.addCall g).conn d = s.conn d := update_of_ne (Ne.symm hd) ..
  refine h.of_same rfl (fun k => ?_) (by rw [hconn]) (by rw [hconn]) rfl .rfl
  by_cases heq : k = g.call
  · have hshows := h.shows g.call
    rw [hM.caller g hg] at hshows
    obtain ⟨hmade, -⟩ := (hshows g hg rfl).1 (by simp [hpc])
    rw [heq, hmade]
    show Shows d _ g.call _ .made _ (s.caller g.call)
    rw [hM.caller g hg]
    rintro _ ⟨⟩ -
    exact ⟨fun hne => absurd rfl (hne _), fun _ => ⟨fun hc => absurd hc hd, fun _ => rfl⟩⟩
  · exact h.shows_addCall hg heq

/-! ### The receiver threads -/

/-- A receiver thread goes on, but does not go to or come from `recvRespond` of the connection. -/
theorem setReceiver (h : Seen d s t) {pc : ReceiverPc} (hlast : s'.lastCall = s.lastCall)
    (hcall : s'.call = s.call) (hcaller : s'.caller = s.caller) (hgetting : s'.getting = s.getting)
    (hcalls : (s'.conn d).calls = (s.conn d).calls)
    (hindex : (s'.conn d).lastCallIndex = (s.conn d).lastCallIndex)
    (hnext : s'.lastConnectionIndex = s.lastConnectionIndex)
    (hreceiver : s'.receiver = update s.receiver c pc)
    (hpc : c = d → pc ≠ .receiving ∧ s.receiver c ≠ .receiving) : Seen d s' t := by
  refine h.of_same hlast (fun k => ?_) hcalls hindex hnext ?_
  · rw [hcall, hcaller, hgetting]
    exact h.shows k
  · rw [hreceiver]
    by_cases heq : d = c
    · obtain ⟨hne, hne'⟩ := hpc heq.symm
      rw [heq, update_self]
      exact iff_of_false hne hne'
    · rw [update_of_ne heq]

theorem waitForWork (h : Seen d s t) {rep : ℕ} (hc : s.receiver d = .waiting rep)
    (hne : (s.conn d).calls.entries ≠ []) : t.receiver = .waiting ∧ t.conn.calls.entries ≠ [] ∧
      Seen d (s.waitForWork d rep) (t.setReceiver .receiving) := by
  have hreceiver := h.receiver
  rw [hc, if_neg (by simp)] at hreceiver
  refine ⟨hreceiver, h.calls ▸ hne, h.made, h.shows, h.calls, h.index, ?_⟩
  show Session.ReceiverPc.receiving = if update s.receiver d _ d = .receiving then _ else _
  rw [update_self, if_pos hne, if_pos rfl]

theorem waitForWork_of_ne (h : Seen d s t) {rep : ℕ} (hc : s.receiver c = .waiting rep)
    (hne : c = d → (s.conn c).calls.entries = []) : Seen d (s.waitForWork c rep) t := by
  refine h.setReceiver rfl rfl rfl rfl rfl rfl rfl rfl fun hd => ⟨?_, by simp [hc]⟩
  rw [if_neg (not_not.mpr (hne hd))]
  split <;> simp

theorem recvRespond_of_ne (h : Seen d s t) (hM : Managed s) (hone : s.OneTable) (hkey : t.Keyed)
    (hne : c ≠ d) (input : Sock) : Seen d (s.recvRespond c input) t := by
  have hlast : (s.recvRespond c input).lastCall = s.lastCall ∧
      ((s.recvRespond c input).receiver d = .receiving ↔ s.receiver d = .receiving) := by
    obtain ⟨status, call, -, heq | heq⟩ := s.recvRespond_eq c input <;> rw [heq]
    · exact ⟨rfl, .rfl⟩
    · refine ⟨rfl, ?_⟩
      show update s.receiver c _ d = .receiving ↔ _
      rw [update_of_ne (Ne.symm hne)]
  refine h.of_same hlast.1 (fun k => ?_) (by simp) (by simp) (by simp) hlast.2
  rw [State.recvRespond_getting, State.recvRespond_caller]
  by_cases htable : ∃ id, (s.conn c).calls.lookup id = some k
  · obtain ⟨id, hid⟩ := htable
    have hshows := h.shows k
    rw [h.caller_of_ne hM hone hkey hne hid] at hshows ⊢
    exact hshows.elsewhere (hM.added c id k hid)
  · rw [s.call_recvRespond c input fun id hid => htable ⟨id, hid⟩]
    exact h.shows k

/-- **A response on the connection** is for the call that the session finds under its id. -/
theorem recvRespond (h : Seen d s t) (hM : Managed s) (hkey : t.Keyed) {input : Sock}
    (h4 : 4 ≤ input.input.length)
    (hk : t.conn.calls.lookup (intOfBytes (input.input.take 4)) = some k) :
    Seen d (s.recvRespond d input)
      (t.readValue k { input with input := input.input.drop 4 }) := by
  have hk' := hk
  rw [h.calls] at hk'
  have hnew : Session.ReceiverPc.waiting =
      if update s.receiver d (.waiting 0) d = .receiving then .receiving else .waiting := by
    rw [update_self, if_neg (by simp)]
  rw [State.recvRespond_of_found h4 hk']
  unfold Session.readValue
  rw [h.call_of_lookup hM hkey hk']
  rcases Connection.recvValue (s.call k) { input with input := input.input.drop 4 } with
    ⟨_ | call, inbox⟩
  · exact ⟨h.made, h.shows, h.calls, h.index, hnew⟩
  · refine ⟨h.made, fun j => ?_, h.calls, h.index, hnew⟩
    show Shows d s.getting j (update s.call k call j) (t.caller j) (update t.call k call j)
      (s.caller j)
    by_cases heq : j = k
    · rw [heq, update_self, update_self]
      exact (h.shows k).set (hkey.1 _ k hk)
    · rw [update_of_ne heq, update_of_ne heq]
      exact h.shows j

theorem markClosed (h : Seen d s t) (hc : s.receiver c = .timedOut) :
    Seen d (s.markClosed c) t := by
  have hcalls : ∀ c', ((s.markClosed c).conn c').calls = (s.conn c').calls :=
    update_field Connection.calls rfl
  have hindex : ∀ c', ((s.markClosed c).conn c').lastCallIndex = (s.conn c').lastCallIndex :=
    update_field Connection.lastCallIndex rfl
  exact h.setReceiver rfl rfl rfl rfl (hcalls d) (hindex d) rfl rfl
    fun _ => ⟨by simp, by simp [hc]⟩

theorem closeSock (h : Seen d s t) (hc : s.receiver c = .closing) : Seen d (s.closeSock c) t := by
  have hcalls : ∀ c', ((s.closeSock c).conn c').calls = (s.conn c').calls :=
    update_field Connection.calls rfl
  have hindex : ∀ c', ((s.closeSock c).conn c').lastCallIndex = (s.conn c').lastCallIndex :=
    update_field Connection.lastCallIndex rfl
  exact h.setReceiver rfl rfl rfl rfl (hcalls d) (hindex d) rfl rfl
    fun _ => ⟨by simp, by simp [hc]⟩

theorem removeConnection (h : Seen d s t) (hc : s.receiver c = .removing) :
    Seen d (s.removeConnection c) t :=
  h.setReceiver rfl rfl rfl rfl rfl rfl rfl rfl fun _ => ⟨by simp, by simp [hc]⟩

theorem cleanupCalls (h : Seen d s t) (hc : s.receiver c = .cleaning) :
    Seen d (s.cleanupCalls c) t := by
  unfold State.cleanupCalls
  split
  · exact h.setReceiver rfl rfl rfl rfl rfl rfl rfl rfl fun _ => ⟨by simp, by simp [hc]⟩
  · exact h.of_same rfl h.shows rfl rfl rfl .rfl

end Seen

end PRpc.Client
