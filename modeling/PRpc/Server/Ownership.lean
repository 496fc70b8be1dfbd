import PRpc.Server.Step
import PRpc.Library.Count

/-!
# One reader for a connection

Nothing in the listener stores who may read from a socket. The right to do so is handed over: from
a registered read to the loop of `addToReader`, from there to the queue of a reader, to the reader
itself, and back to a registered read. `tickets` counts these for a connection. An invariant bounds
the count by one, and by zero once the connection was closed; with that no second connection is
ever made for an endpoint, and an endpoint in `_connections` leads to the connection it belongs to.
At the end the tickets are counted exactly: every step hands them on (`Moves.tickets`), but for the
few actions that give one up (`State.loses`).
-/

namespace PRpc.Server

open Queue

variable {m n : ℕ}

/-- The connection a reader works on. -/
def ReaderPc.conn : ReaderPc → Option ConnId
  | .idle => none
  | .reading c => some c
  | .failed c => some c
  | .read c _ => some c
  | .pushed c => some c

def ReaderPc.tickets (c : ConnId) (pc : ReaderPc) : ℕ := if pc.conn = some c then 1 else 0

def Reader.tickets (c : ConnId) (reader : Reader) : ℕ :=
  reader.bqConn.count c + reader.pc.tickets c

def ListenerPc.tickets (c : ConnId) : ListenerPc → ℕ
  | .idle => 0
  | .adding c' _ => if c' = c then 1 else 0

namespace Listener

/-- How often a connection is in the hands of the listener or of a reader. -/
def held (l : Listener m) (c : ConnId) : ℕ :=
  l.pc.tickets c + Count.total (Reader.tickets c) l.readers

/-- How many rights to read from a connection there are. -/
def tickets (l : Listener m) (c : ConnId) : ℕ := l.pendingReads.count (l.endpoint c) + l.held c

/-- The tickets are single, and only those of connections that are not closed. -/
structure Owned (l : Listener m) : Prop where
  pending : ∀ e, l.pendingReads.count e ≤ 1
  accepted : ∀ e ∈ l.pendingReads, e < l.accepted
  made : ∀ c < l.lastConnectionIndex, l.endpoint c < l.accepted
  inj : ∀ c < l.lastConnectionIndex, ∀ c' < l.lastConnectionIndex,
    l.endpoint c = l.endpoint c' → c = c'
  entry : ∀ e c, l.connections e = some c → c < l.lastConnectionIndex ∧ l.endpoint c = e
  ticket : ∀ c < l.lastConnectionIndex,
    l.tickets c ≤ if l.connections (l.endpoint c) = some c then 1 else 0
  fresh : ∀ c, l.lastConnectionIndex ≤ c → l.held c = 0

/-! ## Moving tickets -/

theorem held_setReader (l : Listener m) (r : Fin m) (x : Reader) (c : ConnId) :
    (l.setReader r x).held c + (l.readers r).tickets c = l.held c + x.tickets c := by
  have := Count.total_update (Reader.tickets c) l.readers r x
  show l.pc.tickets c + Count.total (Reader.tickets c) (Function.update l.readers r x) + _ =
    l.pc.tickets c + Count.total (Reader.tickets c) l.readers + _
  omega

theorem held_setReaderPc (l : Listener m) (r : Fin m) (pc : ReaderPc) (c : ConnId) :
    (l.setReaderPc r pc).held c + (l.readers r).pc.tickets c = l.held c + pc.tickets c := by
  have h := l.held_setReader r { l.readers r with pc } c
  change _ + ((l.readers r).bqConn.count c + (l.readers r).pc.tickets c) =
    _ + ((l.readers r).bqConn.count c + pc.tickets c) at h
  unfold setReaderPc
  omega

theorem le_held (l : Listener m) (r : Fin m) (c : ConnId) : (l.readers r).tickets c ≤ l.held c := by
  have := Count.le_total (Reader.tickets c) l.readers r
  unfold held
  omega

theorem held_setReaderPc_of_conn {l : Listener m} {r : Fin m} {pc : ReaderPc}
    (h : pc.conn = (l.readers r).pc.conn) (c : ConnId) :
    (l.setReaderPc r pc).held c = l.held c := by
  have := l.held_setReaderPc r pc c
  unfold ReaderPc.tickets at this
  rw [h] at this
  omega

/-- A reader that ends `_do_read` without a registration gives its ticket up. -/
theorem held_giveUp (l : Listener m) (r : Fin m) (c : ConnId) :
    (l.setReaderPc r .idle).held c + (l.readers r).pc.tickets c = l.held c := by
  have := l.held_setReaderPc r .idle c
  have hidle : ReaderPc.tickets c .idle = 0 := rfl
  omega

theorem held_setReaderPc_idle {l : Listener m} {r : Fin m} {c : ConnId}
    (h : (l.readers r).pc.conn = some c) (c' : ConnId) :
    (l.setReaderPc r .idle).held c' + (if c = c' then 1 else 0) = l.held c' := by
  have hgive := l.held_giveUp r c'
  unfold ReaderPc.tickets at hgive
  rw [h] at hgive
  simpa using hgive

section Tickets

variable {l l' : Listener m} {e : Ep} {c c' : ConnId} {r : Fin m} {q : List ConnId}
  {retryTimes : ℕ}

theorem held_nextReader (l' : Listener m) (hpc : l.pc = .idle) (hr : l'.readers = l.readers)
    (c : ConnId) (retryTimes : ℕ) (c' : ConnId) :
    (l'.nextReader c retryTimes).held c' = l.held c' + if c = c' then 1 else 0 := by
  show (if c = c' then 1 else 0) + Count.total (Reader.tickets c') l'.readers = l.held c' + _
  unfold held
  rw [hpc, hr, ListenerPc.tickets]
  omega

theorem held_added (hpc : l.pc = .adding c retryTimes)
    (hq : tryPush maxReaderQueueSize (l.readers r).bqConn c true = some q) (c' : ConnId) :
    (l.added r q).held c' = l.held c' := by
  have ht := Count.total_update (Reader.tickets c') l.readers r { l.readers r with bqConn := q }
  have hw : Reader.tickets c' { l.readers r with bqConn := q } =
      q.count c' + (l.readers r).pc.tickets c' := rfl
  rw [hw, count_of_tryPush hq, Reader.tickets] at ht
  show 0 + Count.total (Reader.tickets c') (Function.update l.readers r _) = _
  unfold held
  rw [hpc, ListenerPc.tickets]
  omega

theorem held_popConn (hpc : (l.readers r).pc = .idle) (hq : (l.readers r).bqConn = c :: q)
    (c' : ConnId) : (l.setReader r ⟨q, .reading c⟩).held c' = l.held c' := by
  have ht := l.held_setReader r ⟨q, .reading c⟩ c'
  unfold Reader.tickets ReaderPc.tickets at ht
  rw [hpc, hq, List.count_cons] at ht
  simp only [ReaderPc.conn, beq_iff_eq, Option.some.injEq] at ht
  simp at ht
  omega

theorem held_retry (hpc : l.pc = .adding c retryTimes) (retryTimes' : ℕ) (c' : ConnId) :
    (l.nextReader c retryTimes').held c' = l.held c' := by
  show ListenerPc.tickets c' (.adding c retryTimes') + _ = _
  unfold held
  rw [hpc]
  rfl

theorem tickets_congr (hpend : l'.pendingReads = l.pendingReads) (hep : l'.endpoint = l.endpoint)
    (hheld : l'.held c = l.held c) : l'.tickets c = l.tickets c := by
  unfold tickets
  rw [hpend, hep, hheld]

theorem tickets_giveUp {k : ℕ} (hpend : l'.pendingReads = l.pendingReads)
    (hep : l'.endpoint = l.endpoint) (hheld : l'.held c + k = l.held c) :
    l'.tickets c + k = l.tickets c := by
  unfold tickets
  rw [hpend, hep, Nat.add_assoc, hheld]

/-- A registered read gives its ticket to the listener, or loses it. -/
theorem count_complete (l : Listener m) (e e' : Ep) : (l.complete e).pendingReads.count e' =
    l.pendingReads.count e' - if e = e' then 1 else 0 := by
  show (l.pendingReads.erase e).count e' = _
  rw [List.count_erase]
  simp

theorem count_complete_add (he : e ∈ l.pendingReads) (e' : Ep) :
    (l.complete e).pendingReads.count e' + (if e' = e then 1 else 0) = l.pendingReads.count e' := by
  have hpos : 1 ≤ l.pendingReads.count e := List.count_pos_iff.mpr he
  rw [count_complete]
  by_cases hee : e = e'
  · subst hee
    simp only [if_true]
    omega
  · rw [if_neg hee, if_neg (Ne.symm hee)]
    rfl

theorem tickets_complete (he : e ∈ l.pendingReads) (c : ConnId) :
    (l.complete e).tickets c + (if l.endpoint c = e then 1 else 0) = l.tickets c := by
  have := count_complete_add he (l.endpoint c)
  show (l.complete e).pendingReads.count (l.endpoint c) + l.held c + _ = _
  unfold tickets
  omega

end Tickets

namespace Owned

variable {l l' : Listener m} {e : Ep} {c c' : ConnId} {r : Fin m} {q : List ConnId}
  {retryTimes : ℕ}

theorem lt_of_held (h : l.Owned) (hc : l.held c ≠ 0) : c < l.lastConnectionIndex := by
  by_contra hlt
  exact hc (h.fresh c (Nat.le_of_not_lt hlt))

theorem lt_of_conn (h : l.Owned) (hc : (l.readers r).pc.conn = some c) :
    c < l.lastConnectionIndex := by
  refine h.lt_of_held (Nat.ne_of_gt (Nat.lt_of_lt_of_le ?_ (l.le_held r c)))
  unfold Reader.tickets ReaderPc.tickets
  rw [if_pos hc]
  omega

theorem connections_endpoint (h : l.Owned) (hc : c < l.lastConnectionIndex) {c' : ConnId}
    (hf : l.connections (l.endpoint c) = some c') : c' = c := by
  obtain ⟨hlt, he⟩ := h.entry _ _ hf
  exact h.inj c' hlt c hc he

/-- A registered read of an endpoint without a connection belongs to no connection made before. -/
theorem endpoint_ne (h : l.Owned) (he : e ∈ l.pendingReads) (hc : l.connections e = none)
    (hlt : c < l.lastConnectionIndex) : l.endpoint c ≠ e := by
  intro hep
  have hcount : 1 ≤ l.pendingReads.count e := List.count_pos_iff.mpr he
  have ht := h.ticket c hlt
  rw [hep, hc] at ht
  unfold tickets at ht
  rw [hep] at ht
  simp at ht
  omega

theorem count_complete_self (h : l.Owned) : (l.complete e).pendingReads.count e = 0 := by
  have := h.pending e
  rw [count_complete, if_pos rfl]
  omega

/-! ## Tickets are handed on -/

theorem tickets_handleAccept (h : l.Owned) (hc : c < l.lastConnectionIndex) :
    l.handleAccept.tickets c = l.tickets c := by
  have hne : l.accepted ≠ l.endpoint c := (h.made c hc).ne'
  show (l.pendingReads ++ [l.accepted]).count (l.endpoint c) + l.held c = _
  rw [List.count_append, List.count_singleton]
  simp [hne, tickets]

/-- The read of an endpoint with a connection is completed: the listener has the ticket. -/
theorem tickets_reuse (h : l.Owned) (hpc : l.pc = .idle) (he : e ∈ l.pendingReads)
    (hc : l.connections e = some c) (hlt : c' < l.lastConnectionIndex) :
    ((l.complete e).nextReader c 0).tickets c' = l.tickets c' := by
  obtain ⟨hclt, hep⟩ := h.entry e c hc
  have hcomplete := tickets_complete he c'
  have hheld := held_nextReader (l.complete e) hpc rfl c 0 c'
  have hiff : l.endpoint c' = e ↔ c = c' := by
    rw [← hep]
    exact ⟨fun heq => (h.inj c' hlt c hclt heq).symm, fun heq => by rw [heq]⟩
  simp only [hiff] at hcomplete
  unfold tickets at hcomplete ⊢
  show (l.complete e).pendingReads.count (l.endpoint c') + _ = _
  rw [hheld]
  change (l.complete e).pendingReads.count (l.endpoint c') + l.held c' + _ = _ at hcomplete
  omega

theorem tickets_create (h : l.Owned) (hpc : l.pc = .idle) (he : e ∈ l.pendingReads)
    (hc : l.connections e = none) (hlt : c' < l.lastConnectionIndex) :
    (((l.complete e).create e).nextReader l.lastConnectionIndex 0).tickets c' = l.tickets c' := by
  have hne := h.endpoint_ne he hc hlt
  have hcomplete := count_complete_add he (l.endpoint c')
  have hheld := held_nextReader ((l.complete e).create e) hpc rfl l.lastConnectionIndex 0 c'
  rw [if_neg hne] at hcomplete
  rw [if_neg (Nat.ne_of_gt hlt)] at hheld
  show (l.complete e).pendingReads.count
    (Function.update l.endpoint l.lastConnectionIndex e c') + _ = _
  rw [hheld, Function.update_of_ne (Nat.ne_of_lt hlt)]
  unfold tickets
  omega

theorem tickets_created (h : l.Owned) (hpc : l.pc = .idle) :
    (((l.complete e).create e).nextReader l.lastConnectionIndex 0).tickets l.lastConnectionIndex =
      1 := by
  have hheld := held_nextReader ((l.complete e).create e) hpc rfl l.lastConnectionIndex 0
    l.lastConnectionIndex
  rw [if_pos rfl, h.fresh _ le_rfl] at hheld
  show (l.complete e).pendingReads.count
    (Function.update l.endpoint l.lastConnectionIndex e l.lastConnectionIndex) + _ = _
  rw [hheld, Function.update_self, h.count_complete_self]

theorem tickets_rearm (h : l.Owned) (hpc : (l.readers r).pc = .pushed c)
    (hlt : c' < l.lastConnectionIndex) : (l.rearm r c).tickets c' = l.tickets c' := by
  have hconn : (l.readers r).pc.conn = some c := by rw [hpc]; rfl
  have hheld := held_setReaderPc_idle hconn c'
  have hiff : l.endpoint c = l.endpoint c' ↔ c = c' :=
    ⟨fun heq => h.inj c (h.lt_of_conn hconn) c' hlt heq, fun heq => by rw [heq]⟩
  show (l.pendingReads ++ [l.endpoint c]).count (l.endpoint c') +
    (l.setReaderPc r .idle).held c' = _
  rw [List.count_append, List.count_singleton]
  simp only [beq_iff_eq, hiff]
  unfold tickets
  omega

/-! ## The steps -/

/-- The steps that leave the map as it is and give no new ticket. -/
theorem of_le (h : l.Owned) (hacc : l'.accepted = l.accepted)
    (hconn : l'.connections = l.connections) (hep : l'.endpoint = l.endpoint)
    (hlast : l'.lastConnectionIndex = l.lastConnectionIndex)
    (hpend : ∀ e, l'.pendingReads.count e ≤ 1) (hmem : ∀ e ∈ l'.pendingReads, e < l.accepted)
    (hheld : ∀ c, l.lastConnectionIndex ≤ c → l'.held c = 0)
    (htick : ∀ c < l.lastConnectionIndex, l'.tickets c ≤ l.tickets c) : l'.Owned where
  pending := hpend
  accepted := by rw [hacc]; exact hmem
  made := by rw [hacc, hep, hlast]; exact h.made
  inj := by rw [hep, hlast]; exact h.inj
  entry := by rw [hconn, hep, hlast]; exact h.entry
  ticket := by
    rw [hconn, hep, hlast]
    exact fun c hc => (htick c hc).trans (h.ticket c hc)
  fresh := by rw [hlast]; exact hheld

theorem of_held_le (h : l.Owned) (hpend : l'.pendingReads = l.pendingReads)
    (hacc : l'.accepted = l.accepted) (hconn : l'.connections = l.connections)
    (hep : l'.endpoint = l.endpoint) (hlast : l'.lastConnectionIndex = l.lastConnectionIndex)
    (hheld : ∀ c, l'.held c ≤ l.held c) : l'.Owned := by
  refine h.of_le hacc hconn hep hlast (by rw [hpend]; exact h.pending)
    (by rw [hpend]; exact h.accepted) (fun c hc => ?_) (fun c _ => ?_)
  · exact Nat.eq_zero_of_le_zero (h.fresh c hc ▸ hheld c)
  · unfold tickets
    rw [hpend, hep]
    exact Nat.add_le_add_left (hheld c) _

theorem setReaderPc_of_conn (h : l.Owned) {pc : ReaderPc} (hpc : pc.conn = (l.readers r).pc.conn) :
    (l.setReaderPc r pc).Owned :=
  h.of_held_le rfl rfl rfl rfl rfl fun c => (held_setReaderPc_of_conn hpc c).le

theorem setReaderPc_idle (h : l.Owned) (hpc : (l.readers r).pc.conn = some c) :
    (l.setReaderPc r .idle).Owned :=
  h.of_held_le rfl rfl rfl rfl rfl fun c' => by
    have := held_setReaderPc_idle hpc c'
    omega

theorem start : (State.start m n).listener.Owned where
  pending _ := Nat.zero_le _
  accepted _ he := absurd he List.not_mem_nil
  made _ hc := absurd hc (Nat.not_lt_zero _)
  inj _ hc := absurd hc (Nat.not_lt_zero _)
  entry _ _ hc := by cases hc
  ticket _ hc := absurd hc (Nat.not_lt_zero _)
  fresh c _ := by
    have h0 : Count.total (Reader.tickets c) (State.start m n).listener.readers = 0 :=
      Count.total_eq_zero fun _ => rfl
    unfold held
    rw [h0]
    rfl

theorem handleAccept (h : l.Owned) : l.handleAccept.Owned := by
  have hnew : l.pendingReads.count l.accepted = 0 :=
    List.count_eq_zero.mpr fun hm => Nat.lt_irrefl _ (h.accepted _ hm)
  have hcount : ∀ e, l.handleAccept.pendingReads.count e =
      l.pendingReads.count e + if l.accepted = e then 1 else 0 := by
    intro e
    show (l.pendingReads ++ [l.accepted]).count e = _
    rw [List.count_append, List.count_singleton]
    simp
  refine ⟨fun e => ?_, fun e he => ?_, fun c hc => (h.made c hc).trans (Nat.lt_succ_self _), h.inj,
    h.entry, fun c hc => ?_, h.fresh⟩
  · have := h.pending e
    rw [hcount]
    split
    · next he => rw [← he, hnew]
    · omega
  · show e < l.accepted + 1
    rcases List.mem_append.mp he with he | he
    · exact (h.accepted e he).trans (Nat.lt_succ_self _)
    · rw [List.mem_singleton.mp he]
      exact Nat.lt_succ_self _
  · rw [h.tickets_handleAccept hc]
    exact h.ticket c hc

theorem complete (h : l.Owned) : (l.complete e).Owned := by
  refine h.of_le rfl rfl rfl rfl (fun e' => ?_) (fun e' he => ?_) h.fresh (fun c _ => ?_)
  · have := h.pending e'
    rw [count_complete]
    omega
  · exact h.accepted e' (List.mem_of_mem_erase he)
  · unfold tickets
    rw [count_complete]
    exact Nat.add_le_add_right (Nat.sub_le _ _) _

theorem reuse (h : l.Owned) (hpc : l.pc = .idle) (he : e ∈ l.pendingReads)
    (hc : l.connections e = some c) : ((l.complete e).nextReader c 0).Owned := by
  obtain ⟨hlt, -⟩ := h.entry e c hc
  have hheld := held_nextReader (l.complete e) hpc rfl c 0
  refine h.of_le rfl rfl rfl rfl h.complete.pending h.complete.accepted (fun c' hc' => ?_)
    fun c' hc' => (h.tickets_reuse hpc he hc hc').le
  rw [hheld, h.fresh c' hc', if_neg (Nat.ne_of_lt (Nat.lt_of_lt_of_le hlt hc'))]

theorem create (h : l.Owned) (hpc : l.pc = .idle) (he : e ∈ l.pendingReads)
    (hc : l.connections e = none) :
    (((l.complete e).create e).nextReader l.lastConnectionIndex 0).Owned := by
  have hne := fun {c} => h.endpoint_ne (c := c) he hc
  have hheld := held_nextReader ((l.complete e).create e) hpc rfl l.lastConnectionIndex 0
  have hnew : Function.update l.endpoint l.lastConnectionIndex e l.lastConnectionIndex = e :=
    Function.update_self ..
  have hold : ∀ {c}, c < l.lastConnectionIndex →
      Function.update l.endpoint l.lastConnectionIndex e c = l.endpoint c := fun hlt =>
    Function.update_of_ne (Nat.ne_of_lt hlt) ..
  have hcases : ∀ {c}, c < l.lastConnectionIndex + 1 →
      c < l.lastConnectionIndex ∨ c = l.lastConnectionIndex := fun hlt =>
    Nat.lt_succ_iff_lt_or_eq.mp hlt
  refine ⟨h.complete.pending, h.complete.accepted, fun c hlt => ?_, fun c hlt c' hlt' hcc => ?_,
    fun e' c hf => ?_, fun c hlt => ?_, fun c hlt => ?_⟩
  · show Function.update l.endpoint l.lastConnectionIndex e c < l.accepted
    rcases hcases hlt with hlt | rfl
    · rw [hold hlt]
      exact h.made c hlt
    · rw [hnew]
      exact h.accepted e he
  · change Function.update l.endpoint l.lastConnectionIndex e c =
      Function.update l.endpoint l.lastConnectionIndex e c' at hcc
    rcases hcases hlt with hlt | rfl <;> rcases hcases hlt' with hlt' | rfl
    · rw [hold hlt, hold hlt'] at hcc
      exact h.inj c hlt c' hlt' hcc
    · rw [hold hlt, hnew] at hcc
      exact absurd hcc (hne hlt)
    · rw [hold hlt', hnew] at hcc
      exact absurd hcc.symm (hne hlt')
    · rfl
  · change Function.update l.connections e (some l.lastConnectionIndex) e' = some c at hf
    show c < l.lastConnectionIndex + 1 ∧
      Function.update l.endpoint l.lastConnectionIndex e c = e'
    by_cases hee : e' = e
    · rw [hee, Function.update_self] at hf
      cases hf
      exact ⟨Nat.lt_succ_self _, by rw [hnew, hee]⟩
    · rw [Function.update_of_ne hee] at hf
      obtain ⟨hlt, hep⟩ := h.entry e' c hf
      exact ⟨hlt.trans (Nat.lt_succ_self _), by rw [hold hlt, hep]⟩
  · show _ ≤ if Function.update l.connections e (some l.lastConnectionIndex)
      (Function.update l.endpoint l.lastConnectionIndex e c) = some c then 1 else 0
    rcases hcases hlt with hlt | rfl
    · rw [h.tickets_create hpc he hc hlt, hold hlt, Function.update_of_ne (hne hlt)]
      exact h.ticket c hlt
    · rw [h.tickets_created hpc, hnew, Function.update_self, if_pos rfl]
  · have hlt' : l.lastConnectionIndex + 1 ≤ c := hlt
    have hcc : l.lastConnectionIndex ≠ c := by omega
    rw [hheld, h.fresh c (by omega), if_neg hcc]

theorem retry (h : l.Owned) {retryTimes' : ℕ} (hpc : l.pc = .adding c retryTimes) :
    (l.nextReader c retryTimes').Owned :=
  h.of_held_le rfl rfl rfl rfl rfl fun c' => (held_retry hpc retryTimes' c').le

theorem added (h : l.Owned) (hpc : l.pc = .adding c retryTimes)
    (hq : tryPush maxReaderQueueSize (l.readers r).bqConn c true = some q) : (l.added r q).Owned :=
  h.of_held_le rfl rfl rfl rfl rfl fun c' => (held_added hpc hq c').le

theorem popConn (h : l.Owned) (hpc : (l.readers r).pc = .idle)
    (hq : (l.readers r).bqConn = c :: q) : (l.setReader r ⟨q, .reading c⟩).Owned :=
  h.of_held_le rfl rfl rfl rfl rfl fun c' => (held_popConn hpc hq c').le

theorem rearm (h : l.Owned) (hpc : (l.readers r).pc = .pushed c) : (l.rearm r c).Owned := by
  have hconn : (l.readers r).pc.conn = some c := by rw [hpc]; rfl
  have hlt := h.lt_of_conn hconn
  have hheld := fun c' => held_setReaderPc_idle hconn c'
  have hcount : ∀ e, (l.rearm r c).pendingReads.count e =
      l.pendingReads.count e + if l.endpoint c = e then 1 else 0 := by
    intro e
    show (l.pendingReads ++ [l.endpoint c]).count e = _
    rw [List.count_append, List.count_singleton]
    simp
  refine h.of_le rfl rfl rfl rfl (fun e => ?_) (fun e he => ?_) (fun c' hc' => ?_)
    fun c' hc' => (h.tickets_rearm hpc hc').le
  · have hp := h.pending e
    rw [hcount]
    by_cases hee : l.endpoint c = e
    · -- the reader had the only ticket
      have ht := h.ticket c hlt
      have hself := hheld c
      unfold tickets at ht
      rw [if_pos rfl] at hself
      rw [if_pos hee, ← hee]
      split at ht <;> omega
    · rw [if_neg hee]
      omega
  · rcases List.mem_append.mp he with he | he
    · exact h.accepted e he
    · rw [List.mem_singleton.mp he]
      exact h.made c hlt
  · have hz := h.fresh c' hc'
    have := hheld c'
    show (l.setReaderPc r .idle).held c' = 0
    omega

theorem closeThrows (h : l.Owned) (hpc : (l.readers r).pc = .failed c) :
    (l.closeThrows r c).Owned :=
  (h.setReaderPc_idle (c := c) (by rw [hpc]; rfl)).of_held_le rfl rfl rfl rfl rfl fun _ => le_rfl

theorem closeConnection (h : l.Owned) (hpc : (l.readers r).pc = .failed c) :
    (l.closeConnection r c).Owned := by
  have hconn : (l.readers r).pc.conn = some c := by rw [hpc]; rfl
  have hlt := h.lt_of_conn hconn
  have hheld := fun c' => held_setReaderPc_idle hconn c'
  refine ⟨h.pending, h.accepted, h.made, h.inj, fun e c' hf => ?_, fun c' hc' => ?_,
    fun c' hc' => ?_⟩
  · change Function.update l.connections (l.endpoint c) none e = some c' at hf
    by_cases hee : e = l.endpoint c
    · rw [hee, Function.update_self] at hf
      cases hf
    · rw [Function.update_of_ne hee] at hf
      exact h.entry e c' hf
  · have ht := h.ticket c' hc'
    have := hheld c'
    show l.pendingReads.count (l.endpoint c') + (l.setReaderPc r .idle).held c' ≤
      if Function.update l.connections (l.endpoint c) none (l.endpoint c') = some c' then 1 else 0
    unfold tickets at ht
    by_cases hcc : c = c'
    · rw [if_pos hcc] at this
      split at ht <;> omega
    · have hne : l.endpoint c' ≠ l.endpoint c := fun hep => hcc (h.inj c hlt c' hc' hep.symm)
      rw [Function.update_of_ne hne]
      omega
  · have hz := h.fresh c' hc'
    have := hheld c'
    show (l.setReaderPc r .idle).held c' = 0
    omega

end Owned

end Listener

theorem Moves.owned {s s' : State m n} {a : Action m n} (hm : Moves s a s')
    (h : s.listener.Owned) : s'.listener.Owned := by
  cases hm with
  | accept => exact h.handleAccept
  | create hpc he hc => exact h.create hpc he hc
  | reuse hpc he hc => exact h.reuse hpc he hc
  | readError => exact h.complete
  | added hpc hq => exact h.added hpc hq
  | retry hpc => exact h.retry hpc
  | readersFull hpc => exact h.retry hpc
  | popConn hpc hq => exact h.popConn hpc hq
  | readCall hpc => exact h.setReaderPc_of_conn (by rw [hpc]; rfl)
  | readFails hpc => exact h.setReaderPc_of_conn (by rw [hpc]; rfl)
  | pushCall hpc => exact h.setReaderPc_of_conn (by rw [hpc]; rfl)
  | rearm hpc => exact h.rearm hpc
  | rearmThrows hpc => exact h.setReaderPc_idle (by rw [hpc]; rfl)
  | closeConnection hpc => exact h.closeConnection hpc
  | closeThrows hpc => exact h.closeThrows hpc
  | _ => exact h

theorem owned_of_reachable {s : State m n} (h : (system m n).Reachable s) : s.listener.Owned :=
  h.invariant (by rintro _ rfl; exact Listener.Owned.start) fun _ _ _ hI _ hs =>
    (State.moves_of_step hs).2.owned hI

/-! ## What becomes of a ticket -/

/-- How many tickets of a connection an action gives up. -/
def State.loses (s : State m n) (c : ConnId) : Action m n → ℕ
  | .readError e => if s.listener.endpoint c = e then 1 else 0
  | .rearmThrows r => (s.listener.readers r).pc.tickets c
  | .closeConnection r => (s.listener.readers r).pc.tickets c
  | .closeThrows r => (s.listener.readers r).pc.tickets c
  | _ => 0

/-- **Tickets are handed on**: of each connection there are as many as before, less those that the
action gives up. -/
theorem Moves.tickets {s s' : State m n} {a : Action m n} (hm : Moves s a s')
    (h : s.listener.Owned) (hrun : s'.status = .running) {c : ConnId}
    (hc : c < s.listener.lastConnectionIndex) :
    s'.listener.tickets c + s.loses c a = s.listener.tickets c := by
  cases hm with
  | accept => exact h.tickets_handleAccept hc
  | create hpc he hnone => exact h.tickets_create hpc he hnone hc
  | reuse hpc he hsome => exact h.tickets_reuse hpc he hsome hc
  | readError he => exact Listener.tickets_complete he c
  | added hpc hq => exact Listener.tickets_congr rfl rfl (Listener.held_added hpc hq c)
  | retry hpc => exact Listener.tickets_congr rfl rfl (Listener.held_retry hpc _ c)
  | readersFull hpc => exact Listener.tickets_congr rfl rfl (Listener.held_retry hpc _ c)
  | popConn hpc hq => exact Listener.tickets_congr rfl rfl (Listener.held_popConn hpc hq c)
  | readCall hpc =>
    exact Listener.tickets_congr rfl rfl (Listener.held_setReaderPc_of_conn (by rw [hpc]; rfl) c)
  | readFails hpc =>
    exact Listener.tickets_congr rfl rfl (Listener.held_setReaderPc_of_conn (by rw [hpc]; rfl) c)
  | pushCall hpc =>
    exact Listener.tickets_congr rfl rfl (Listener.held_setReaderPc_of_conn (by rw [hpc]; rfl) c)
  | rearm hpc => exact h.tickets_rearm hpc hc
  | @rearmThrows r => exact Listener.tickets_giveUp rfl rfl (s.listener.held_giveUp r c)
  | @closeConnection r => exact Listener.tickets_giveUp rfl rfl (s.listener.held_giveUp r c)
  | @closeThrows r => exact Listener.tickets_giveUp rfl rfl (s.listener.held_giveUp r c)
  | abort => cases hrun
  | _ => rfl

end PRpc.Server
