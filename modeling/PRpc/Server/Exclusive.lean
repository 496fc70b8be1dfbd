import PRpc.Server.Disconnect
import Mathlib.Data.Set.Card

/-!
# Exclusive sockets and the number of connections

Consequences of `Listener.Owned` in terms of sockets: a socket has one registered read, or one
entry in the queue of a reader, or one reader in `_do_read` on it. A reader that calls
`close_connection` therefore finds its connection in `_connections` and not closed yet, which makes
the decrement of `num_connections` right.
-/

namespace PRpc.Server

variable {m n : ℕ}

/-! ## One user of a socket -/

/-- How often a reader has a socket: in its queue, or in `_do_read`. -/
def Reader.uses (endpoint : ConnId → Ep) (e : Ep) (reader : Reader) : ℕ :=
  reader.bqConn.countP (fun c => endpoint c = e) +
    if reader.pc.conn.map endpoint = some e then 1 else 0

namespace Listener

/-- How often a socket is registered for a read, waits for a reader or is read from. -/
def uses (l : Listener m) (e : Ep) : ℕ :=
  l.pendingReads.count e + Count.total (Reader.uses l.endpoint e) l.readers

/-- The number of entries of `_connections`. -/
noncomputable def size (l : Listener m) : ℕ := Set.ncard {e | l.connections e ≠ none}

/-- `num_connections` counts the entries, and a closed connection has none, unless its `close`
threw with `_mutex_conns` locked for good. -/
structure Counted (l : Listener m) : Prop where
  count : l.numConnections = l.size
  closed : ∀ c, l.closed c = true →
    l.mutexConns = true ∨ c < l.lastConnectionIndex ∧ l.connections (l.endpoint c) ≠ some c

/-- One reader for a socket, one connection for an endpoint, and the right count. -/
structure Exclusive (l : Listener m) : Prop where
  uses : ∀ e, l.uses e ≤ 1
  readers : ∀ r r' c c', (l.readers r).pc.conn = some c → (l.readers r').pc.conn = some c' →
    l.endpoint c = l.endpoint c' → r = r'
  closing : ∀ r c, (l.readers r).pc = .failed c → l.connections (l.endpoint c) = some c
  inj : ∀ c < l.lastConnectionIndex, ∀ c' < l.lastConnectionIndex,
    l.endpoint c = l.endpoint c' → c = c'
  count : l.numConnections = l.size

namespace Owned

variable {l : Listener m} {r r' : Fin m} {c c' : ConnId} {e : Ep}

/-- A reader has no other connection with the same endpoint. -/
theorem uses_le_tickets (h : l.Owned) (hc : c < l.lastConnectionIndex) (r : Fin m) :
    (l.readers r).uses l.endpoint (l.endpoint c) ≤ (l.readers r).tickets c := by
  have hqueue : (l.readers r).bqConn.countP (fun c' => l.endpoint c' = l.endpoint c) ≤
      (l.readers r).bqConn.count c := by
    refine List.countP_mono_left fun c' hmem hep => ?_
    have hpos : 0 < (l.readers r).bqConn.count c' := List.count_pos_iff.mpr hmem
    have hheld := l.le_held r c'
    unfold Reader.tickets at hheld
    have hlt := h.lt_of_held (c := c') (by omega)
    have heq := h.inj c' hlt c hc (by simpa using hep)
    simp [heq]
  have hpc : (if (l.readers r).pc.conn.map l.endpoint = some (l.endpoint c) then 1 else 0) ≤
      (l.readers r).pc.tickets c := by
    split
    · next hmap =>
      obtain ⟨c', hconn, hep⟩ := Option.map_eq_some_iff.mp hmap
      have heq := h.inj c' (h.lt_of_conn hconn) c hc hep
      unfold ReaderPc.tickets
      rw [hconn, heq, if_pos rfl]
    · exact Nat.zero_le _
  exact Nat.add_le_add hqueue hpc

theorem uses_eq_zero (h : l.Owned) (he : ∀ c < l.lastConnectionIndex, l.endpoint c ≠ e)
    (r : Fin m) : (l.readers r).uses l.endpoint e = 0 := by
  have hqueue : (l.readers r).bqConn.countP (fun c' => l.endpoint c' = e) = 0 := by
    refine List.countP_eq_zero.mpr fun c hmem hep => ?_
    have hpos : 0 < (l.readers r).bqConn.count c := List.count_pos_iff.mpr hmem
    have hheld := l.le_held r c
    unfold Reader.tickets at hheld
    exact he c (h.lt_of_held (by omega)) (by simpa using hep)
  have hpc : (l.readers r).pc.conn.map l.endpoint ≠ some e := by
    intro hmap
    obtain ⟨c, hconn, hep⟩ := Option.map_eq_some_iff.mp hmap
    exact he c (h.lt_of_conn hconn) hep
  unfold Reader.uses
  rw [hqueue, if_neg hpc]

theorem uses_le (h : l.Owned) (e : Ep) : l.uses e ≤ 1 := by
  by_cases he : ∃ c < l.lastConnectionIndex, l.endpoint c = e
  · obtain ⟨c, hc, rfl⟩ := he
    have hreaders := Count.total_le_total (fun r => h.uses_le_tickets hc r)
    have hticket := h.ticket c hc
    unfold tickets held at hticket
    unfold uses
    split at hticket <;> omega
  · have hreaders := Count.total_eq_zero (w := Reader.uses l.endpoint e) (f := l.readers)
      fun r => h.uses_eq_zero (fun c hc hep => he ⟨c, hc, hep⟩) r
    have hpending := h.pending e
    unfold uses
    omega

theorem eq_of_conn (h : l.Owned) (hr : (l.readers r).pc.conn = some c)
    (hr' : (l.readers r').pc.conn = some c') (hep : l.endpoint c = l.endpoint c') : r = r' := by
  by_contra hne
  have hone : ∀ {r c}, (l.readers r).pc.conn = some c →
      1 ≤ (l.readers r).uses l.endpoint (l.endpoint c) := by
    intro r c hconn
    unfold Reader.uses
    rw [hconn, Option.map_some, if_pos rfl]
    omega
  have hsum := Count.add_le_total (Reader.uses l.endpoint (l.endpoint c)) l.readers hne
  have h1 := hone hr
  have h2 := hone hr'
  rw [← hep] at h2
  have huses := h.uses_le (l.endpoint c)
  unfold uses at huses
  omega

theorem connections_of_conn (h : l.Owned) (hr : (l.readers r).pc.conn = some c) :
    l.connections (l.endpoint c) = some c := by
  have hticket := h.ticket c (h.lt_of_conn hr)
  have hheld := l.le_held r c
  unfold Reader.tickets ReaderPc.tickets at hheld
  unfold tickets at hticket
  rw [if_pos hr] at hheld
  split at hticket
  · assumption
  · omega

end Owned

/-! ## The count -/

namespace Counted

variable {l l' : Listener m} {r : Fin m} {c : ConnId} {e : Ep}

theorem start : (State.start m n).listener.Counted where
  count := by
    have hnone : {e : Ep | (State.start m n).listener.connections e ≠ none} = ∅ := by
      ext e
      simp [State.start]
    unfold size
    rw [hnone, Set.ncard_empty]
    rfl
  closed c hc := by cases hc

theorem of_eq (h : l.Counted) (hconn : l'.connections = l.connections)
    (hnum : l'.numConnections = l.numConnections) (hclosed : l'.closed = l.closed)
    (hmutex : l'.mutexConns = l.mutexConns) (hep : l'.endpoint = l.endpoint)
    (hlast : l'.lastConnectionIndex = l.lastConnectionIndex) : l'.Counted where
  count := by
    unfold size
    rw [hconn, hnum]
    exact h.count
  closed := by
    rw [hconn, hclosed, hmutex, hep, hlast]
    exact h.closed

/-- Only endpoints of accepted sockets have an entry. -/
theorem finite_connections (h : l.Owned) : {e | l.connections e ≠ none}.Finite := by
  refine (Set.finite_lt_nat l.accepted).subset fun e he => ?_
  obtain ⟨c, hc⟩ := Option.ne_none_iff_exists'.mp he
  obtain ⟨hlt, rfl⟩ := h.entry e c hc
  exact h.made c hlt

theorem create (h : l.Counted) (hl : l.Owned) (he : e ∈ l.pendingReads)
    (hc : l.connections e = none) :
    (((l.complete e).create e).nextReader l.lastConnectionIndex 0).Counted where
  count := by
    have hset : {e' | Function.update l.connections e (some l.lastConnectionIndex) e' ≠ none} =
        insert e {e' | l.connections e' ≠ none} := by
      ext e'
      by_cases hee : e' = e
      · simp [hee]
      · simp [hee]
    have hnew : e ∉ {e' | l.connections e' ≠ none} := fun hne => hne hc
    have hsize : (((l.complete e).create e).nextReader l.lastConnectionIndex 0).size = l.size + 1 :=
      (congrArg Set.ncard hset).trans (Set.ncard_insert_of_notMem hnew (finite_connections hl))
    rw [hsize]
    show l.numConnections + 1 = _
    rw [h.count]
    rfl
  closed c hclosed := by
    rcases h.closed c hclosed with hm | ⟨hlt, hne⟩
    · exact .inl hm
    · refine .inr ⟨hlt.trans (Nat.lt_succ_self _), ?_⟩
      show Function.update l.connections e (some l.lastConnectionIndex)
        (Function.update l.endpoint l.lastConnectionIndex e c) ≠ some c
      rw [Function.update_of_ne (Nat.ne_of_lt hlt),
        Function.update_of_ne (hl.endpoint_ne he hc hlt)]
      exact hne

theorem closeConnection (h : l.Counted) (hl : l.Owned) (hpc : (l.readers r).pc = .failed c) :
    (l.closeConnection r c).Counted where
  count := by
    have hconn := hl.connections_of_conn (r := r) (c := c) (by rw [hpc]; rfl)
    have hmem : l.endpoint c ∈ {e | l.connections e ≠ none} := by simp [hconn]
    have hset : {e | Function.update l.connections (l.endpoint c) none e ≠ none} =
        {e | l.connections e ≠ none} \ {l.endpoint c} := by
      ext e
      by_cases hee : e = l.endpoint c
      · simp [hee]
      · simp [hee]
    have hsize : (l.closeConnection r c).size + 1 = l.size :=
      (congrArg (Set.ncard · + 1) hset).trans
        (Set.ncard_sdiff_singleton_add_one hmem (finite_connections hl))
    show l.numConnections - 1 = _
    rw [h.count, ← hsize]
    push_cast
    omega
  closed c' hclosed := by
    have hlt := hl.lt_of_conn (r := r) (c := c) (by rw [hpc]; rfl)
    change Function.update l.closed c true c' = true at hclosed
    show l.mutexConns = true ∨ c' < l.lastConnectionIndex ∧
      Function.update l.connections (l.endpoint c) none (l.endpoint c') ≠ some c'
    by_cases hcc : c' = c
    · rw [hcc]
      exact .inr ⟨hlt, by simp⟩
    · rw [Function.update_of_ne hcc] at hclosed
      refine (h.closed c' hclosed).imp_right fun hne => ⟨hne.1, ?_⟩
      rw [Function.update_apply]
      split
      · simp
      · exact hne.2

end Counted

end Listener

theorem Moves.counted {s s' : State m n} {a : Action m n} (hm : Moves s a s')
    (hl : s.listener.Owned) (h : s.listener.Counted) : s'.listener.Counted := by
  cases hm with
  | create hpc he hc => exact h.create hl he hc
  | closeConnection hpc => exact h.closeConnection hl hpc
  | closeThrows =>
    exact ⟨h.count, fun _ _ => .inl rfl⟩
  | _ => exact h.of_eq rfl rfl rfl rfl rfl rfl

theorem counted_of_reachable {s : State m n} (h : (system m n).Reachable s) :
    s.listener.Counted :=
  h.invariant_of (fun _ hs => owned_of_reachable hs)
    (by rintro _ rfl; exact Listener.Counted.start) fun _ _ _ hJ hI _ hs =>
      (State.moves_of_step hs).2.counted hJ hI

theorem exclusive_of_reachable {s : State m n} (h : (system m n).Reachable s) :
    s.listener.Exclusive := by
  have hl := owned_of_reachable h
  refine ⟨hl.uses_le, fun r r' c c' => hl.eq_of_conn, fun r c hpc => ?_, hl.inj,
    (counted_of_reachable h).count⟩
  exact hl.connections_of_conn (r := r) (by rw [hpc]; rfl)

/-! ## Closing once -/

namespace State

variable {s s' : State m n} {a : Action m n} {c : ConnId}

/-- The connection for which an action runs `close_connection`. -/
def closing (s : State m n) : Action m n → Option ConnId
  | .closeConnection r => (s.listener.readers r).pc.conn
  | .closeThrows r => (s.listener.readers r).pc.conn
  | _ => none

/-- The connections for which `close_connection` runs in the course of some actions. -/
def closings (s : State m n) : List (Action m n) → List ConnId
  | [] => []
  | a :: as =>
    match s.step a with
    | none => []
    | some s' => (s.closing a).toList ++ s'.closings as

theorem closed_mono (hm : Moves s a s') (h : s.listener.closed c = true) :
    s'.listener.closed c = true := by
  have hupdate : ∀ c', Function.update s.listener.closed c' true c = true := by
    intro c'
    rw [Function.update_apply]
    split
    · rfl
    · exact h
  cases hm with
  | closeConnection => exact hupdate _
  | closeThrows => exact hupdate _
  | _ => exact h

/-- A reader that runs `close_connection` has the lock and a connection that is in the map. -/
theorem closed_of_closeConnection {r : Fin m} {throws : Bool} (hl : s.listener.Owned)
    (hc : s.listener.Counted) (hs : s.closeConnection r throws = some s')
    (hconn : (s.listener.readers r).pc.conn = some c) :
    s.listener.closed c = false ∧ s'.listener.closed c = true := by
  unfold closeConnection at hs
  split at hs
  · next c' hpc =>
    rw [hpc] at hconn
    cases hconn
    have hentry := hl.connections_of_conn (r := r) (c := c) (by rw [hpc]; rfl)
    split at hs
    · cases hs
    · next hmutex =>
      refine ⟨?_, ?_⟩
      · by_contra hclosed
        rcases hc.closed c (by simpa using hclosed) with hm | ⟨-, hne⟩
        · exact hmutex hm
        · exact hne hentry
      · split at hs
        · cases hs
          exact Function.update_self ..
        · cases hs
          exact Function.update_self ..
  · cases hs

theorem closed_of_closing (hl : s.listener.Owned) (hc : s.listener.Counted)
    (hs : s.step a = some s') (hclosing : s.closing a = some c) :
    s.listener.closed c = false ∧ s'.listener.closed c = true := by
  unfold step at hs
  split at hs
  · cases a with
    | closeConnection r => exact closed_of_closeConnection hl hc hs hclosing
    | closeThrows r => exact closed_of_closeConnection hl hc hs hclosing
    | _ => cases hclosing
  · cases hs

/-- From a reachable state on `close_connection` runs once at most for each connection, and not
for those that are closed already. -/
theorem nodup_closings (h : (system m n).Reachable s) (as : List (Action m n)) :
    (s.closings as).Nodup ∧ ∀ c ∈ s.closings as, s.listener.closed c = false := by
  induction as generalizing s with
  | nil => exact ⟨List.nodup_nil, fun _ hc => absurd hc List.not_mem_nil⟩
  | cons a as ih =>
    unfold closings
    cases hs : s.step a with
    | none => exact ⟨List.nodup_nil, fun _ hc => absurd hc List.not_mem_nil⟩
    | some s' =>
      obtain ⟨hnodup, hopen⟩ := ih (.step h trivial hs)
      have hopen' : ∀ c ∈ s'.closings as, s.listener.closed c = false := by
        intro c hc
        by_contra hclosed
        have := closed_mono (moves_of_step hs).2 (c := c) (by simpa using hclosed)
        rw [hopen c hc] at this
        cases this
      cases hclosing : s.closing a with
      | none => exact ⟨hnodup, hopen'⟩
      | some c =>
        obtain ⟨hc, hc'⟩ :=
          closed_of_closing (owned_of_reachable h) (counted_of_reachable h) hs hclosing
        refine ⟨List.nodup_cons.mpr ⟨fun hmem => ?_, hnodup⟩, fun c' hmem => ?_⟩
        · rw [hopen c hmem] at hc'
          cases hc'
        · rcases List.mem_cons.mp hmem with rfl | hmem
          · exact hc
          · exact hopen' c' hmem

end State

/-- **One reader for a socket.** In every reachable state a socket has one user at most, the
connections and their count are right, and whatever happens afterwards, `close_connection` runs at
most once for each connection. -/
theorem exclusive_sockets {s : State m n} (h : (system m n).Reachable s) :
    s.listener.Exclusive ∧ ∀ as, (s.closings as).Nodup :=
  ⟨exclusive_of_reachable h, fun as => (State.nodup_closings h as).1⟩

/-- The reader that finds the peer gone, before it closes the connection. -/
theorem exclusive_sockets_twoTokens : ∃ s, (system 2 2).run (fun _ _ => True) (.start 2 2)
    twoTokens = some s ∧ s.closings [.closeConnection t₀, .closeConnection t₀] = [0] ∧
    s.listener.Exclusive := by
  have hrun : ((system 2 2).run (fun _ _ => True) (.start 2 2) twoTokens).any
      (fun s => s.closings [.closeConnection t₀, .closeConnection t₀] = [0]) = true := by
    decide +kernel
  obtain ⟨s, hs, hclosings⟩ := (Option.any_eq_true _ _).mp hrun
  exact ⟨s, hs, of_decide_eq_true hclosings, (exclusive_sockets (.run (.init rfl) hs)).1⟩

end PRpc.Server
