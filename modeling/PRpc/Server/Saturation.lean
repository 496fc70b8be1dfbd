import PRpc.Server.Capacity
import Mathlib.Algebra.Order.BigOperators.Group.Finset

/-!
# The readers' queues

An open connection is in at most one queue of a reader, and the one that the listener is about to
add is in none. So while there are no more open connections than places in the queues, one of the
queues has room (`length_queues_lt`), and it keeps it until the listener comes round to it: nobody
else pushes, and the loop of `addToReader` tries every reader once, wherever it starts.
-/

namespace PRpc.Server

open Queue

variable {m n : ℕ}

namespace Listener

/-- The connections that were made and not closed. -/
def openConns (l : Listener m) : Finset ConnId :=
  (Finset.range l.lastConnectionIndex).filter fun c => l.closed c = false

def numOpen (l : Listener m) : ℕ := l.openConns.card

/-- Who is closed has no ticket any more. -/
def Gone (l : Listener m) : Prop :=
  ∀ c, l.closed c = true → c < l.lastConnectionIndex ∧ l.tickets c = 0

/-- All queues of the readers together. -/
def queued (l : Listener m) : ℕ := Count.total (fun reader => reader.bqConn.length) l.readers

/-! ## Counting the queues -/

variable {l : Listener m} {c : ConnId} {retryTimes : ℕ}

theorem lt_of_mem (h : l.Owned) {r : Fin m} (hc : c ∈ (l.readers r).bqConn) :
    c < l.lastConnectionIndex := by
  have hpos : 0 < (l.readers r).bqConn.count c := List.count_pos_iff.mpr hc
  have hle := l.le_held r c
  unfold Reader.tickets at hle
  exact h.lt_of_held (by omega)

theorem queued_eq (h : l.Owned) : l.queued = ∑ c ∈ Finset.range l.lastConnectionIndex,
    Count.total (fun reader => reader.bqConn.count c) l.readers := by
  have hlength : ∀ r, (l.readers r).bqConn.length =
      ∑ c ∈ Finset.range l.lastConnectionIndex, (l.readers r).bqConn.count c := by
    intro r
    have hsum := Multiset.sum_count_eq_card (m := ((l.readers r).bqConn : Multiset ConnId))
      (s := Finset.range l.lastConnectionIndex) fun c hc => Finset.mem_range.mpr (lt_of_mem h hc)
    simpa only [Multiset.coe_count, Multiset.coe_card] using hsum.symm
  unfold queued Count.total
  rw [Finset.sum_comm]
  exact Finset.sum_congr rfl fun r _ => hlength r

/-- An open connection is in the listener's hands or in one queue, a closed one in neither. -/
theorem count_le (h : l.Owned) (hgone : l.Gone) (hc : c < l.lastConnectionIndex) :
    Count.total (fun reader => reader.bqConn.count c) l.readers + l.pc.tickets c ≤
      if l.closed c = false then 1 else 0 := by
  have hle : Count.total (fun reader => reader.bqConn.count c) l.readers ≤
      Count.total (Reader.tickets c) l.readers :=
    Count.total_le_total fun r => Nat.le_add_right _ _
  have hheld : l.held c ≤ l.tickets c := Nat.le_add_left _ _
  unfold held at hheld
  split
  · have hone := h.ticket c hc
    split at hone <;> omega
  · next hclosed =>
    have hzero := (hgone c (by simpa using hclosed)).2
    omega

/-- **The connection to be added is one more** than those in the queues. -/
theorem queued_lt (h : l.Owned) (hgone : l.Gone) (hpc : l.pc = .adding c retryTimes) :
    l.queued < l.numOpen := by
  have hc : c < l.lastConnectionIndex := by
    refine h.lt_of_held ?_
    unfold held
    rw [hpc, ListenerPc.tickets, if_pos rfl]
    omega
  have hopen : l.numOpen =
      ∑ c ∈ Finset.range l.lastConnectionIndex, if l.closed c = false then 1 else 0 := by
    unfold numOpen openConns
    rw [Finset.card_filter]
  rw [queued_eq h, hopen]
  refine Finset.sum_lt_sum (fun c' hc' => ?_) ⟨c, Finset.mem_range.mpr hc, ?_⟩
  · have := count_le h hgone (Finset.mem_range.mp hc')
    omega
  · have := count_le h hgone hc
    rw [hpc, ListenerPc.tickets, if_pos rfl] at this
    omega

theorem exists_room (h : l.Owned) (hgone : l.Gone) (hpc : l.pc = .adding c retryTimes)
    (hopen : l.numOpen ≤ m * maxReaderQueueSize) :
    ∃ r, (l.readers r).bqConn.length < maxReaderQueueSize := by
  by_contra hall
  push Not at hall
  have hfull : m * maxReaderQueueSize ≤ l.queued := by
    have := Finset.card_nsmul_le_sum Finset.univ (fun r => (l.readers r).bqConn.length)
      maxReaderQueueSize fun r _ => hall r
    simpa [queued, Count.total] using this
  have := queued_lt h hgone hpc
  omega

/-! ## The round -/

/-- In the loop of `addToReader` a queue with room is still to come. -/
def Room (l : Listener m) : Prop :=
  ∀ c retryTimes, l.pc = .adding c retryTimes →
    0 ≤ l.lastReaderIndex ∧ l.lastReaderIndex < m ∧ ∃ j r, retryTimes + j < m ∧
      ((r : Fin m) : ℤ) = (l.lastReaderIndex + j) % m ∧
      (l.readers r).bqConn.length < maxReaderQueueSize

/-- From any index, each reader is met within a round. -/
theorem exists_ahead {i : ℤ} (r : Fin m) : ∃ j : ℕ, j < m ∧ (r : ℤ) = (i + j) % m := by
  have hpos : (0 : ℤ) < m := by have := r.pos; omega
  have h0 := Int.emod_nonneg (r - i) hpos.ne'
  have h1 := Int.emod_lt_of_pos (r - i) hpos
  refine ⟨((r - i) % m).toNat, by omega, ?_⟩
  rw [Int.toNat_of_nonneg h0, Int.add_emod_emod, add_sub_cancel]
  exact (Int.emod_eq_of_lt (Int.natCast_nonneg _) (by have := r.isLt; omega)).symm

theorem nextReader_index (hm : 0 < m) (c : ConnId) (retryTimes : ℕ) :
    0 ≤ (l.nextReader c retryTimes).lastReaderIndex ∧
      (l.nextReader c retryTimes).lastReaderIndex < m :=
  ⟨Int.emod_nonneg _ (by omega), Int.emod_lt_of_pos _ (by omega)⟩

theorem Room.start {l' : Listener m} (h : (l'.nextReader c 0).Owned)
    (hgone : (l'.nextReader c 0).Gone)
    (hopen : (l'.nextReader c 0).numOpen ≤ m * maxReaderQueueSize) : (l'.nextReader c 0).Room := by
  intro c' k hpc
  cases hpc
  obtain ⟨r, hroom⟩ := exists_room h hgone rfl hopen
  obtain ⟨h0, h1⟩ := l'.nextReader_index r.pos c 0
  obtain ⟨j, hj, hr⟩ := exists_ahead (i := (l'.nextReader c 0).lastReaderIndex) r
  exact ⟨h0, h1, j, r, by omega, hr, hroom⟩

/-- A reader that has no room is not the one that has: the loop goes on. -/
theorem Room.retry (h : l.Room) (hpc : l.pc = .adding c retryTimes) {r : Fin m}
    (hr : (r : ℤ) = l.lastReaderIndex)
    (hfull : maxReaderQueueSize ≤ (l.readers r).bqConn.length) :
    retryTimes + 1 < m ∧ (l.nextReader c (retryTimes + 1)).Room := by
  obtain ⟨h0, h1, j, r', hj, hr', hroom⟩ := h c retryTimes hpc
  cases j with
  | zero =>
    have hsame : r' = r := by
      rw [Nat.cast_zero, add_zero, Int.emod_eq_of_lt h0 h1, ← hr] at hr'
      exact Fin.ext (by omega)
    rw [hsame] at hroom
    omega
  | succ j =>
    refine ⟨by omega, fun c' k hpc' => ?_⟩
    cases hpc'
    obtain ⟨h0', h1'⟩ := l.nextReader_index (by omega) c (retryTimes + 1)
    refine ⟨h0', h1', j, r', by omega, ?_, hroom⟩
    show (r' : ℤ) = ((l.lastReaderIndex + 1) % m + j) % m
    rw [Int.emod_add_emod, hr', Nat.cast_succ]
    congr 1
    omega

theorem Room.of_le {l' : Listener m} (h : l.Room) (hpc : l'.pc = l.pc)
    (hindex : l'.lastReaderIndex = l.lastReaderIndex)
    (hle : ∀ r, (l'.readers r).bqConn.length ≤ (l.readers r).bqConn.length) : l'.Room := by
  intro c k hadding
  rw [hpc] at hadding
  obtain ⟨h0, h1, j, r, hj, hr, hroom⟩ := h c k hadding
  rw [hindex]
  exact ⟨h0, h1, j, r, hj, hr, (hle r).trans_lt hroom⟩

theorem Room.idle (h : l.pc = .idle) : l.Room := by
  intro c k hpc
  rw [h] at hpc
  cases hpc

end Listener

/-! ## The steps -/

section Steps

variable {s s' : State m n} {a : Action m n} {c : ConnId}

theorem Moves.lastConnectionIndex_le (hm : Moves s a s') :
    s.listener.lastConnectionIndex ≤ s'.listener.lastConnectionIndex := by
  cases hm with
  | create => exact Nat.le_succ _
  | _ => exact Nat.le_refl _

/-- Who is closed was closed before, or gives its ticket up. -/
theorem Moves.of_closed (hm : Moves s a s') (h : s.listener.Owned)
    (hc : s'.listener.closed c = true) : s.listener.closed c = true ∨
      c < s.listener.lastConnectionIndex ∧ s.loses c a = 1 := by
  have hcloses {r : Fin m} {c₀ : ConnId} (hpc : (s.listener.readers r).pc = .failed c₀)
      (hupdate : Function.update s.listener.closed c₀ true c = true) :
      s.listener.closed c = true ∨
        c < s.listener.lastConnectionIndex ∧ (s.listener.readers r).pc.tickets c = 1 := by
    have hconn : (s.listener.readers r).pc.conn = some c₀ := by rw [hpc]; rfl
    by_cases hcc : c = c₀
    · subst hcc
      exact .inr ⟨h.lt_of_conn hconn, if_pos hconn⟩
    · rw [Function.update_of_ne hcc] at hupdate
      exact .inl hupdate
  cases hm with
  | closeConnection hpc => exact hcloses hpc hc
  | closeThrows hpc => exact hcloses hpc hc
  | _ => exact .inl hc

theorem Moves.gone (hm : Moves s a s') (h : s.listener.Owned) (hgone : s.listener.Gone)
    (hrun : s'.status = .running) : s'.listener.Gone := by
  intro c hc
  have hmono := hm.lastConnectionIndex_le
  obtain hclosed | ⟨hlt, hloses⟩ := hm.of_closed h hc
  · obtain ⟨hlt, hzero⟩ := hgone c hclosed
    have := hm.tickets h hrun hlt
    exact ⟨hlt.trans_le hmono, by omega⟩
  · have hcount := hm.tickets h hrun hlt
    have hone := h.ticket c hlt
    refine ⟨hlt.trans_le hmono, ?_⟩
    split at hone <;> omega

theorem Listener.length_setReader {l : Listener m} {r : Fin m} {x : Reader}
    (hle : x.bqConn.length ≤ (l.readers r).bqConn.length) (r' : Fin m) :
    ((l.setReader r x).readers r').bqConn.length ≤ (l.readers r').bqConn.length := by
  show (Function.update l.readers r x r').bqConn.length ≤ _
  rw [Function.update_apply]
  split
  · next hr => rw [hr]; exact hle
  · exact le_rfl

theorem Moves.room (hm : Moves s a s') (hroom : s.listener.Room) (h' : s'.listener.Owned)
    (hgone : s'.listener.Gone) (hopen : s'.listener.numOpen ≤ m * maxReaderQueueSize)
    (hrun : s'.status = .running) (ha : ∀ r, a ≠ .addToReader r) : s'.listener.Room := by
  cases hm with
  | create => exact Listener.Room.start h' hgone hopen
  | reuse => exact Listener.Room.start h' hgone hopen
  | added | retry | readersFull => exact absurd rfl (ha _)
  | popConn hpc hq =>
    exact hroom.of_le rfl rfl (Listener.length_setReader (by rw [hq]; exact Nat.le_succ _))
  | readCall | readFails | pushCall | rearm | rearmThrows | closeConnection | closeThrows =>
    exact hroom.of_le rfl rfl (Listener.length_setReader le_rfl)
  | abort => cases hrun
  | _ => exact hroom.of_le rfl rfl fun _ => le_rfl

namespace State

theorem of_addToReader {r : Fin m} (h : s.addToReader r = some s') (hroom : s.listener.Room) :
    ∃ c k, s.listener.pc = .adding c k ∧
      ((∃ q, tryPush maxReaderQueueSize (s.listener.readers r).bqConn c true = some q ∧
          s' = s.setListener (s.listener.added r q)) ∨
        s' = s.setListener (s.listener.nextReader c (k + 1)) ∧ k + 1 < m ∧
          (s.listener.nextReader c (k + 1)).Room) := by
  unfold addToReader at h
  split at h
  · cases h
  · next c k hpc =>
    refine ⟨c, k, hpc, ?_⟩
    split at h
    · next hr =>
      split at h
      · next q hq => cases h; exact .inl ⟨q, hq, rfl⟩
      · next hq =>
        obtain ⟨hlt, hnext⟩ := hroom.retry hpc hr (of_tryPush_none hq)
        rw [if_pos hlt] at h
        cases h
        exact .inr ⟨rfl, hlt, hnext⟩
    · cases h

theorem ne_handleRead_of_act (h : s.act a = some s') (hs : s.status = .running)
    (ha : ∀ r, a ≠ .addToReader r) : s'.status ≠ .aborted .handleRead := by
  have hne : s.status ≠ .aborted .handleRead := by simp [hs]
  cases a with
  | readable e =>
    obtain ⟨l, -, rfl⟩ := Option.map_eq_some_iff.mp h
    exact hne
  | popConn r =>
    obtain ⟨l, -, rfl⟩ := Option.map_eq_some_iff.mp h
    exact hne
  | addToReader r => exact absurd rfl (ha r)
  | _ =>
    grind [act, readCall, pushCall, rearm, closeConnection, popCall, execute, pushRespond, size,
      pushToken, popToken, lookup, tryPop, write, requeue, retoken, setListener, setPipe, abort,
      failed]

end State

end Steps

/-! ## While there are no more open connections than places -/

/-- There are at most as many open connections as places in the queues of the readers. -/
def State.Fits (s : State m n) : Prop := s.listener.numOpen ≤ m * maxReaderQueueSize

instance : DecidablePred (State.Fits : State m n → Prop) := fun s =>
  inferInstanceAs (Decidable (s.listener.numOpen ≤ m * maxReaderQueueSize))

theorem gone_of_reachable {s : State m n} (h : (system m n).Reachable s)
    (hrun : s.status = .running) : s.listener.Gone := by
  induction h with
  | init hi =>
    cases hi
    exact fun c hc => by cases hc
  | step hr _ hstep ih =>
    obtain ⟨hrun', hm⟩ := State.moves_of_step hstep
    exact hm.gone (owned_of_reachable hr) (ih hrun') hrun

structure Spacious (s : State m n) : Prop where
  room : s.status = .running → s.Fits → s.listener.Room
  noAbort : s.status ≠ .aborted .handleRead

theorem spacious_of_reach {s : State m n} (h : (system m n).Reach (fun s _ => s.Fits) s) :
    Spacious s := by
  induction h with
  | init hi =>
    cases hi
    exact ⟨fun _ _ => Listener.Room.idle rfl, fun h => (by cases h)⟩
  | @step s s' a hr hfits hstep ih =>
    obtain ⟨hrun, hm⟩ := State.moves_of_step hstep
    have hl' := hm.owned (owned_of_reachable hr.reachable)
    have hgone := gone_of_reachable (.step hr.reachable trivial hstep)
    change (if s.status = .running then s.act a else none) = some s' at hstep
    rw [if_pos hrun] at hstep
    by_cases ha : ∃ r, a = .addToReader r
    · obtain ⟨r, rfl⟩ := ha
      obtain ⟨c, k, -, ⟨q, -, rfl⟩ | ⟨rfl, -, hroom⟩⟩ :=
        State.of_addToReader hstep (ih.room hrun hfits)
      · exact ⟨fun _ _ => Listener.Room.idle rfl, ih.noAbort⟩
      · exact ⟨fun _ _ => hroom, ih.noAbort⟩
    · have ha' : ∀ r, a ≠ .addToReader r := fun r hr => ha ⟨r, hr⟩
      exact ⟨fun hrun' hfits' => hm.room (ih.room hrun hfits) hl' (hgone hrun') hfits' hrun' ha',
        State.ne_handleRead_of_act hstep hrun ha'⟩

/-- What a round of the loop does: the connection is in the queue of this reader, once, and in no
other, and the loop is left; or the queues are as before and another reader is tried. -/
def State.Round (s s' : State m n) (r : Fin m) (c : ConnId) (retryTimes : ℕ) : Prop :=
  (s'.listener.pc = .idle ∧
    (s'.listener.readers r).bqConn = (s.listener.readers r).bqConn ++ [c] ∧
    (s'.listener.readers r).bqConn.count c = 1 ∧
    ∀ r', r' ≠ r → (s'.listener.readers r').bqConn = (s.listener.readers r').bqConn ∧
      c ∉ (s'.listener.readers r').bqConn) ∨
  (s'.listener.pc = .adding c (retryTimes + 1) ∧ retryTimes + 1 < m ∧
    s'.listener.readers = s.listener.readers)

/-- Every call of `addToReader` succeeds: its loop can go on and goes through the readers once at
most, nothing else ends it, and it ends with the connection in one queue. -/
structure Served (s : State m n) : Prop where
  noAbort : s.status ≠ .aborted .handleRead
  enabled : ∀ c k, s.status = .running → s.listener.pc = .adding c k →
    ∃ r s', s.step (.addToReader r) = some s'
  stays : ∀ c k a s', s.listener.pc = .adding c k → s.step a = some s' →
    (∀ r, a ≠ .addToReader r) → s'.listener.pc = .adding c k
  round : ∀ c k r s', s.listener.pc = .adding c k → s.step (.addToReader r) = some s' →
    s.Round s' r c k

section Served

variable {s s' : State m n} {a : Action m n} {c : ConnId} {k : ℕ} {r : Fin m}

theorem State.exists_addToReader (hrun : s.status = .running) (hpc : s.listener.pc = .adding c k)
    (hr : (r : ℤ) = s.listener.lastReaderIndex) : ∃ s', s.step (.addToReader r) = some s' := by
  show ∃ s', (if s.status = .running then s.addToReader r else none) = some s'
  rw [if_pos hrun]
  unfold addToReader
  rw [hpc]
  dsimp only
  rw [if_pos hr]
  split
  · exact ⟨_, rfl⟩
  · split <;> exact ⟨_, rfl⟩

theorem Moves.stays (hm : Moves s a s') (hpc : s.listener.pc = .adding c k)
    (ha : ∀ r, a ≠ .addToReader r) : s'.listener.pc = .adding c k := by
  cases hm with
  | create hidle | reuse hidle =>
    rw [hpc] at hidle
    cases hidle
  | added | retry | readersFull => exact absurd rfl (ha _)
  | _ => exact hpc

theorem Listener.count_added {l : Listener m} {q : List ConnId} (h : (l.added r q).Owned)
    (hq : tryPush maxReaderQueueSize (l.readers r).bqConn c true = some q) :
    q = (l.readers r).bqConn ++ [c] ∧ q.count c = 1 ∧
      ∀ r', r' ≠ r → ((l.added r q).readers r').bqConn = (l.readers r').bqConn ∧
        c ∉ ((l.added r q).readers r').bqConn := by
  obtain ⟨-, hqueue⟩ := of_tryPush hq
  rw [if_pos rfl] at hqueue
  have hself : ((l.added r q).readers r).bqConn = q := by
    show (Function.update l.readers r _ r).bqConn = q
    rw [Function.update_self]
  have hmem : c ∈ ((l.added r q).readers r).bqConn := by
    rw [hself, hqueue]
    exact List.mem_append_right _ (List.mem_singleton_self c)
  have hlt := lt_of_mem h hmem
  have hone : (l.added r q).held c ≤ 1 := by
    have hticket := h.ticket c hlt
    unfold tickets at hticket
    split at hticket <;> omega
  have hpos : ∀ {r' : Fin m}, c ∈ ((l.added r q).readers r').bqConn →
      1 ≤ ((l.added r q).readers r').tickets c := by
    intro r' hr'
    have : 0 < ((l.added r q).readers r').bqConn.count c := List.count_pos_iff.mpr hr'
    unfold Reader.tickets
    omega
  refine ⟨hqueue, ?_, fun r' hne => ⟨?_, fun hmem' => ?_⟩⟩
  · have hle := (l.added r q).le_held r c
    have hcount : 0 < q.count c := List.count_pos_iff.mpr (hself ▸ hmem)
    unfold Reader.tickets at hle
    rw [hself] at hle
    omega
  · show (Function.update l.readers r _ r').bqConn = _
    rw [Function.update_of_ne hne]
  · have hboth := Count.add_le_total (Reader.tickets c) (l.added r q).readers hne
    have h1 := hpos hmem
    have h2 := hpos hmem'
    unfold held at hone
    omega

/-- **`addToReader` succeeds** while there are no more open connections than places in the queues
of the readers, whatever the readers do meanwhile and wherever the round starts. -/
theorem served_of_reach (h : (system m n).Reach (fun s _ => s.Fits) s) (hfits : s.Fits) :
    Served s where
  noAbort := (spacious_of_reach h).noAbort
  enabled c k hrun hpc := by
    obtain ⟨h0, h1, -⟩ := (spacious_of_reach h).room hrun hfits c k hpc
    obtain ⟨i, hi⟩ := Int.eq_ofNat_of_zero_le h0
    refine ⟨⟨i, by omega⟩, State.exists_addToReader hrun hpc ?_⟩
    exact hi.symm
  stays c k a s' hpc hstep ha := (State.moves_of_step hstep).2.stays hpc ha
  round c k r s' hpc hstep := by
    obtain ⟨hrun, hm⟩ := State.moves_of_step hstep
    have hl' := hm.owned (owned_of_reachable h.reachable)
    change (if s.status = .running then s.addToReader r else none) = some s' at hstep
    rw [if_pos hrun] at hstep
    obtain ⟨c', k', hpc', ⟨q, hq, rfl⟩ | ⟨rfl, hlt, -⟩⟩ :=
      State.of_addToReader hstep ((spacious_of_reach h).room hrun hfits)
    · rw [hpc] at hpc'
      cases hpc'
      obtain ⟨hqueue, hcount, hothers⟩ := Listener.count_added hl' hq
      have hself : ((s.listener.added r q).readers r).bqConn = q := by
        show (Function.update s.listener.readers r _ r).bqConn = q
        rw [Function.update_self]
      exact .inl ⟨rfl, hself.trans hqueue, (congrArg (List.count c) hself).trans hcount, hothers⟩
    · rw [hpc] at hpc'
      cases hpc'
      exact .inr ⟨rfl, hlt, rfl⟩

end Served

/-- A second connection, while a reader has the first one. -/
theorem served_secondConnection : ∃ s, (system 2 2).run (fun s _ => s.Fits) (.start 2 2)
    [.accept, .accept, .readable 0, .addToReader t₀, .popConn t₀, .readable 1] = some s ∧
    s.listener.pc = .adding 1 0 ∧ Served s := by
  have hrun : ((system 2 2).run (fun s _ => s.Fits) (.start 2 2)
      [.accept, .accept, .readable 0, .addToReader t₀, .popConn t₀, .readable 1]).any
      (fun s => s.listener.pc = .adding 1 0 ∧ s.Fits) = true := by
    decide +kernel
  obtain ⟨s, hs, hfacts⟩ := (Option.any_eq_true _ _).mp hrun
  obtain ⟨hpc, hfits⟩ := of_decide_eq_true hfacts
  exact ⟨s, hs, hpc, served_of_reach (.run (.init rfl) hs) hfits⟩

end PRpc.Server
