import PRpc.Server.Saturation
import PRpc.Server.Exclusive

/-!
# Dead entries

An entry of `_connections` is alive while its socket is registered for a read, or while the listener
or a reader has the connection. Two kinds of exits leave an entry behind that is not: `handle_read`
does nothing when it gets an error, and the handlers of `handle_read` and `_do_read` log what was
thrown and go on. Without them no entry is ever dead, and each of them kills one
(`noDeadEntries_iff`).
-/

namespace PRpc.Server

variable {m n : ℕ}

/-! ## The exceptions -/

/-- The steps of the server, and the ways in which something throws in between. -/
inductive FaultyAction (m n : ℕ)
  | server (a : Action m n)
  /-- In `handle_read`, before a new connection is inserted. -/
  | makeThrows (e : Ep)
  /-- In `handle_read` with the connection in the map, before `addToReader`. -/
  | findThrows (e : Ep)
  /-- In `addToReader`, before the connection is pushed to a reader; after that nothing is left to
  do, and an exception comes to the same as the normal end. -/
  | addThrows
  /-- In `_do_read`, at any point up to the registration, or in `close_connection` before the entry
  is erased; later on an exception comes to the same as the normal end. -/
  | doReadThrows (r : Fin m)
  deriving DecidableEq

namespace Listener

/-- The connection of an endpoint is in the map; the read is completed. -/
def find (l : Listener m) (e : Ep) : Listener m :=
  match l.connections e with
  | some _ => l.complete e
  | none => (l.complete e).create e

/-- `handle_read` may begin with the endpoint. -/
def Readable (l : Listener m) (e : Ep) : Prop :=
  l.pc = .idle ∧ e ∈ l.pendingReads ∧ l.mutexConns = false

instance (l : Listener m) : DecidablePred l.Readable := fun e =>
  inferInstanceAs (Decidable (l.pc = .idle ∧ e ∈ l.pendingReads ∧ l.mutexConns = false))

end Listener

namespace State

/-- The handler in `_do_read`: the reader goes on, and the call it had read is gone. -/
def doReadThrows (s : State m n) (r : Fin m) : Option (State m n) :=
  match (s.listener.readers r).pc with
  | .idle => none
  | .read _ k => some { s with
      listener := s.listener.setReaderPc r .idle
      pipe := s.pipe.setPlace k .dropped }
  | _ => some (s.setListener (s.listener.setReaderPc r .idle))

/-- What an exception does in a running server. -/
def fault (s : State m n) : FaultyAction m n → Option (State m n)
  | .server a => s.act a
  | .makeThrows e =>
    -- `_last_connection_index` may have been counted up; an index is only printed
    if s.listener.Readable e ∧ s.listener.connections e = none then
      some (s.setListener (s.listener.complete e))
    else none
  | .findThrows e =>
    if s.listener.Readable e then some (s.setListener (s.listener.find e)) else none
  | .addThrows =>
    match s.listener.pc with
    | .adding _ _ => some (s.setListener { s.listener with pc := .idle })
    | .idle => none
  | .doReadThrows r => s.doReadThrows r

def faultyStep (s : State m n) (a : FaultyAction m n) : Option (State m n) :=
  if s.status = .running then s.fault a else none

end State

/-- The server, with exceptions anywhere in `handle_read` and `_do_read`. -/
def faulty (m n : ℕ) : System (State m n) (FaultyAction m n) where
  init s := s = .start m n
  step := State.faultyStep

/-! ## What is alive -/

/-- There is a way to read from the connection or to close it. -/
def Listener.Alive (l : Listener m) (e : Ep) (c : ConnId) : Prop :=
  e ∈ l.pendingReads ∨ (∃ retryTimes, l.pc = .adding c retryTimes) ∨
    ∃ r, c ∈ (l.readers r).bqConn ∨ (l.readers r).pc.conn = some c

/-- Every entry is alive, and its socket was not closed. -/
def NoDeadEntries (s : State m n) : Prop :=
  s.status = .running → ∀ e c, s.listener.connections e = some c →
    s.listener.Alive e c ∧ s.listener.closed c = false

/-- Something is thrown while the connection is in the map. -/
def FaultyAction.throws : FaultyAction m n → Bool
  | .server (.rearmThrows _) | .server (.closeThrows _) => true
  | .findThrows _ | .addThrows | .doReadThrows _ => true
  | _ => false

/-- The endpoint for which `handle_read` gets an error. -/
def FaultyAction.error : FaultyAction m n → Option Ep
  | .server (.readError e) => some e
  | _ => none

/-- No exception once the connection is in the map, and no error for a socket that has one. -/
def Keeps (s : State m n) (a : FaultyAction m n) : Prop :=
  a.throws = false ∧ ∀ e ∈ a.error, s.listener.connections e = none

instance (s : State m n) (a : FaultyAction m n) : Decidable (Keeps s a) :=
  inferInstanceAs (Decidable (_ ∧ _))

/-! ## Tickets of the entries -/

namespace Listener

variable {l l' : Listener m} {e : Ep} {c : ConnId} {r : Fin m}

theorem alive_iff (hep : l.endpoint c = e) : l.Alive e c ↔ 0 < l.tickets c := by
  have hreader (r : Fin m) : 0 < (l.readers r).tickets c ↔
      c ∈ (l.readers r).bqConn ∨ (l.readers r).pc.conn = some c := by
    unfold Reader.tickets ReaderPc.tickets
    rw [← List.count_pos_iff]
    split <;> simp [*]
  have hpc : 0 < l.pc.tickets c ↔ ∃ retryTimes, l.pc = .adding c retryTimes := by
    cases hl : l.pc with
    | idle => simp [ListenerPc.tickets]
    | adding c' k =>
      unfold ListenerPc.tickets
      by_cases hcc : c' = c <;> simp [hcc]
  have htotal : 0 < Count.total (Reader.tickets c) l.readers ↔
      ∃ r, 0 < (l.readers r).tickets c := by
    constructor
    · intro hpos
      by_contra hall
      push Not at hall
      rw [Count.total_eq_zero fun r => Nat.le_zero.mp (hall r)] at hpos
      exact absurd hpos (Nat.lt_irrefl 0)
    · rintro ⟨r, hpos⟩
      exact hpos.trans_le (Count.le_total (Reader.tickets c) l.readers r)
  have hpending : 0 < l.pendingReads.count (l.endpoint c) ↔ e ∈ l.pendingReads := by
    rw [hep]
    exact List.count_pos_iff
  unfold Alive
  rw [← hpending, ← hpc, ← exists_congr hreader, ← htotal]
  unfold tickets held
  omega

end Listener

section Entries

variable {s s' : State m n} {a : Action m n} {e : Ep} {c : ConnId}

theorem Moves.of_entry (hm : Moves s a s') (h : s.listener.Owned)
    (hc : s'.listener.connections e = some c) : s.listener.connections e = some c ∨
      c = s.listener.lastConnectionIndex ∧ s'.listener.tickets c = 1 := by
  cases hm with
  | @create e' hpc =>
    change Function.update s.listener.connections e' _ e = some c at hc
    by_cases hee : e = e'
    · rw [hee, Function.update_self] at hc
      cases hc
      exact .inr ⟨rfl, h.tickets_created hpc⟩
    · rw [Function.update_of_ne hee] at hc
      exact .inl hc
  | @closeConnection r c' =>
    change Function.update s.listener.connections _ none e = some c at hc
    by_cases hee : e = s.listener.endpoint c'
    · rw [hee, Function.update_self] at hc
      cases hc
    · rw [Function.update_of_ne hee] at hc
      exact .inl hc
  | _ => exact .inl hc

/-- Every entry has a ticket. -/
def Listener.Ticketed (l : Listener m) : Prop :=
  ∀ e c, l.connections e = some c → 0 < l.tickets c

/-- A step that takes no ticket from an entry that stays. -/
theorem Moves.ticketed (hm : Moves s a s') (h : s.listener.Owned) (ht : s.listener.Ticketed)
    (hrun : s'.status = .running) (hloses : ∀ e c, s.listener.connections e = some c →
      s'.listener.connections e = some c → s.loses c a = 0) : s'.listener.Ticketed := by
  intro e c hc
  obtain hold | ⟨-, hone⟩ := hm.of_entry h hc
  · have hcount := hm.tickets h hrun (h.entry e c hold).1
    have hpos := ht e c hold
    rw [hloses e c hold hc] at hcount
    omega
  · omega

/-- What a step without errors and exceptions takes is taken with the entry. -/
theorem Moves.loses_eq_zero (hm : Moves s a s') (h : s.listener.Owned) (hk : Keeps s (.server a))
    (hrun : s'.status = .running) (hc : s.listener.connections e = some c)
    (hc' : s'.listener.connections e = some c) : s.loses c a = 0 := by
  obtain ⟨hthrows, herror⟩ := hk
  obtain ⟨-, hep⟩ := h.entry e c hc
  cases hm with
  | readError =>
    have hnone := herror _ rfl
    refine if_neg fun heq => ?_
    rw [← heq, hep, hc] at hnone
    cases hnone
  | rearmThrows | closeThrows => cases hthrows
  | @closeConnection r c' hpc =>
    change Function.update s.listener.connections _ none e = some c at hc'
    show (s.listener.readers r).pc.tickets c = 0
    rw [hpc]
    refine if_neg fun hcc => ?_
    cases hcc
    rw [hep, Function.update_self] at hc'
    cases hc'
  | abort => cases hrun
  | _ => rfl

/-! ## Runs -/

theorem exists_step_of_keeps {a : FaultyAction m n} (hk : Keeps s a)
    (hs : (faulty m n).step s a = some s') :
    ∃ b, (system m n).step s b = some s' ∧ Keeps s (.server b) := by
  change (if s.status = .running then s.fault a else none) = some s' at hs
  split at hs
  · next hrun =>
    cases a with
    | server b =>
      refine ⟨b, ?_, hk⟩
      show (if s.status = .running then s.act b else none) = some s'
      rw [if_pos hrun]
      exact hs
    | makeThrows e =>
      dsimp only [State.fault] at hs
      split at hs
      · next hg =>
        obtain ⟨⟨hidle, he, -⟩, hnone⟩ := hg
        refine ⟨.readError e, ?_, rfl, fun e' he' => ?_⟩
        · show (if s.status = .running then s.act (.readError e) else none) = some s'
          rw [if_pos hrun]
          dsimp only [State.act]
          rw [if_pos ⟨hidle, he⟩]
          exact hs
        · cases he'
          exact hnone
      · cases hs
    | findThrows | addThrows | doReadThrows => cases hk.1
  · cases hs

theorem reachable_of_keeps (h : (faulty m n).Reach Keeps s) : (system m n).Reachable s := by
  induction h with
  | init hi => exact .init hi
  | step _ hk hs ih =>
    obtain ⟨b, hb, -⟩ := exists_step_of_keeps hk hs
    exact .step ih trivial hb

theorem ticketed_of_keeps (h : (faulty m n).Reach Keeps s) (hrun : s.status = .running) :
    s.listener.Ticketed := by
  induction h with
  | init hi =>
    cases hi
    exact fun e c hc => by cases hc
  | step hr hk hs ih =>
    obtain ⟨b, hb, hkb⟩ := exists_step_of_keeps hk hs
    obtain ⟨hrun', hm⟩ := State.moves_of_step hb
    have hl := owned_of_reachable (reachable_of_keeps hr)
    exact hm.ticketed hl (ih hrun') hrun fun e c hc hc' => hm.loses_eq_zero hl hkb hrun hc hc'

theorem noDeadEntries_of_keeps (h : (faulty m n).Reach Keeps s) : NoDeadEntries s := by
  intro hrun e c hc
  have hr := reachable_of_keeps h
  have hpos := ticketed_of_keeps h hrun e c hc
  refine ⟨(Listener.alive_iff ((owned_of_reachable hr).entry e c hc).2).mpr hpos, ?_⟩
  by_contra hclosed
  rw [Bool.not_eq_false] at hclosed
  have := (gone_of_reachable hr hrun c hclosed).2
  omega

theorem not_noDeadEntries (hrun : s.status = .running) (hc : s.listener.connections e = some c)
    (hep : s.listener.endpoint c = e) (hzero : s.listener.tickets c = 0) : ¬ NoDeadEntries s := by
  intro h
  have hpos := (Listener.alive_iff hep).mp (h hrun e c hc).1
  omega

/-- The only ticket of a connection in the map is given up: the entry that is left is dead. -/
theorem not_noDeadEntries_of_giveUp (h : s.listener.Owned) (hrun : s'.status = .running)
    (hlt : c < s.listener.lastConnectionIndex)
    (hc : s.listener.connections (s.listener.endpoint c) = some c)
    (hconn : s'.listener.connections = s.listener.connections)
    (hep : s'.listener.endpoint = s.listener.endpoint)
    (hgive : s'.listener.tickets c + 1 = s.listener.tickets c) : ¬ NoDeadEntries s' := by
  have hone := h.ticket c hlt
  rw [if_pos hc] at hone
  refine not_noDeadEntries (e := s.listener.endpoint c) (c := c) hrun ?_ ?_ (by omega)
  · rw [hconn]
    exact hc
  · rw [hep]

theorem not_noDeadEntries_of_reader (h : s.listener.Owned) {r : Fin m}
    (hpc : (s.listener.readers r).pc.conn = some c) (hrun : s'.status = .running)
    (hconn : s'.listener.connections = s.listener.connections)
    (hep : s'.listener.endpoint = s.listener.endpoint)
    (hpend : s'.listener.pendingReads = s.listener.pendingReads)
    (hheld : s'.listener.held c = (s.listener.setReaderPc r .idle).held c) :
    ¬ NoDeadEntries s' := by
  have hgive := s.listener.held_giveUp r c
  unfold ReaderPc.tickets at hgive
  rw [if_pos hpc, ← hheld] at hgive
  exact not_noDeadEntries_of_giveUp h hrun (h.lt_of_conn hpc) (h.connections_of_conn hpc) hconn hep
    (Listener.tickets_giveUp hpend hep hgive)

theorem not_noDeadEntries_of_error {e : Ep} (h : s.listener.Owned) (hrun : s.status = .running)
    (he : e ∈ s.listener.pendingReads) (hc : s.listener.connections e = some c) :
    ¬ NoDeadEntries (s.setListener (s.listener.complete e)) := by
  obtain ⟨hlt, hep⟩ := h.entry e c hc
  have hgive := Listener.tickets_complete he c
  rw [if_pos hep] at hgive
  exact not_noDeadEntries_of_giveUp h hrun hlt (by rw [hep]; exact hc) rfl rfl hgive

/-- `handle_read` gives up with the connection in the map, whether it was there before or not. -/
theorem not_noDeadEntries_of_find {e : Ep} (h : s.listener.Owned) (hrun : s.status = .running)
    (he : s.listener.Readable e) : ¬ NoDeadEntries (s.setListener (s.listener.find e)) := by
  obtain ⟨hpc, hmem, -⟩ := he
  unfold Listener.find
  split
  · next c hc => exact not_noDeadEntries_of_error h hrun hmem hc
  · next hc =>
    have hnew : Function.update s.listener.endpoint s.listener.lastConnectionIndex e
        s.listener.lastConnectionIndex = e := Function.update_self ..
    refine not_noDeadEntries (e := e) (c := s.listener.lastConnectionIndex) hrun ?_ hnew ?_
    · exact Function.update_self ..
    · show (s.listener.complete e).pendingReads.count (Function.update s.listener.endpoint
        s.listener.lastConnectionIndex e s.listener.lastConnectionIndex) +
          s.listener.held s.listener.lastConnectionIndex = 0
      rw [hnew, h.count_complete_self, h.fresh _ le_rfl]

theorem not_noDeadEntries_of_add {retryTimes : ℕ} (h : s.listener.Owned)
    (hrun : s.status = .running) (hpc : s.listener.pc = .adding c retryTimes) :
    ¬ NoDeadEntries (s.setListener { s.listener with pc := .idle }) := by
  have hgive : ({ s.listener with pc := .idle } : Listener m).held c + 1 = s.listener.held c := by
    show 0 + Count.total (Reader.tickets c) s.listener.readers + 1 = _
    unfold Listener.held
    rw [hpc, ListenerPc.tickets, if_pos rfl]
    omega
  have hlt : c < s.listener.lastConnectionIndex := h.lt_of_held (by omega)
  have hc : s.listener.connections (s.listener.endpoint c) = some c := by
    have hticket := h.ticket c hlt
    unfold Listener.tickets at hticket
    split at hticket
    · next hc => exact hc
    · omega
  exact not_noDeadEntries_of_giveUp h hrun hlt hc rfl rfl (Listener.tickets_giveUp rfl rfl hgive)

/-- `_do_read` throws: a reader with a connection gives it up, whatever it has done with it. -/
theorem not_noDeadEntries_of_doReadThrows {r : Fin m} (h : s.listener.Owned)
    (hrun : s.status = .running) (hs : s.doReadThrows r = some s') : ¬ NoDeadEntries s' := by
  unfold State.doReadThrows at hs
  split at hs
  · cases hs
  · next c k hpc =>
    cases hs
    exact not_noDeadEntries_of_reader h (c := c) (by rw [hpc]; rfl) hrun rfl rfl rfl rfl
  · next hidle _ =>
    cases hs
    obtain ⟨c, hc⟩ : ∃ c, (s.listener.readers r).pc.conn = some c := by
      cases hpc : (s.listener.readers r).pc with
      | idle => exact absurd hpc hidle
      | _ => exact ⟨_, rfl⟩
    exact not_noDeadEntries_of_reader h hc hrun rfl rfl rfl rfl

/-- A step of the server that keeps every entry alive meets no error and no exception. -/
theorem keeps_of_act (h : s.listener.Owned) (hrun : s.status = .running)
    (hs : s.act a = some s') (hnd : NoDeadEntries s') : Keeps s (.server a) := by
  cases a with
  | readError e =>
    dsimp only [State.act] at hs
    split at hs
    · next hg =>
      cases hs
      refine ⟨rfl, fun e' he' => ?_⟩
      cases he'
      by_contra hne
      obtain ⟨c, hc⟩ := Option.ne_none_iff_exists'.mp hne
      exact not_noDeadEntries_of_error h hrun hg.2 hc hnd
    · cases hs
  | rearmThrows r =>
    dsimp only [State.act, State.rearm] at hs
    split at hs
    · next c hpc =>
      cases hs
      exact absurd hnd
        (not_noDeadEntries_of_reader h (c := c) (by rw [hpc]; rfl) hrun rfl rfl rfl rfl)
    · cases hs
  | closeThrows r =>
    dsimp only [State.act, State.closeConnection] at hs
    split at hs
    · next c hpc =>
      split at hs
      · cases hs
      · cases hs
        exact absurd hnd
          (not_noDeadEntries_of_reader h (c := c) (by rw [hpc]; rfl) hrun rfl rfl rfl rfl)
    · cases hs
  | _ => exact ⟨rfl, fun e he => by cases he⟩

/-- **Every other step kills an entry.** -/
theorem keeps_of_noDeadEntries {a : FaultyAction m n} (h : s.listener.Owned)
    (hs : (faulty m n).step s a = some s') (hnd : NoDeadEntries s') : Keeps s a := by
  change (if s.status = .running then s.fault a else none) = some s' at hs
  split at hs
  · next hrun =>
    cases a with
    | server b => exact keeps_of_act h hrun hs hnd
    | makeThrows e => exact ⟨rfl, fun e he => by cases he⟩
    | findThrows e =>
      dsimp only [State.fault] at hs
      split at hs
      · next he =>
        cases hs
        exact absurd hnd (not_noDeadEntries_of_find h hrun he)
      · cases hs
    | addThrows =>
      dsimp only [State.fault] at hs
      split at hs
      · next c k hpc =>
        cases hs
        exact absurd hnd (not_noDeadEntries_of_add h hrun hpc)
      · cases hs
    | doReadThrows r => exact absurd hnd (not_noDeadEntries_of_doReadThrows h hrun hs)
  · cases hs

end Entries

/-- **When no entry is ever dead**: in the runs without an error for a socket that has a connection,
and without an exception once the connection is in the map. -/
theorem noDeadEntries_iff {as : List (FaultyAction m n)} {s : State m n}
    (h : (faulty m n).run (fun _ _ => True) (.start m n) as = some s) :
    (faulty m n).Along NoDeadEntries (.start m n) as ↔
      (faulty m n).run Keeps (.start m n) as = some s :=
  System.along_iff (fun _ => noDeadEntries_of_keeps)
    (fun _ _ _ hr hs => keeps_of_noDeadEntries (owned_of_reachable (reachable_of_keeps hr)) hs)
    (.init rfl) h

/-- A call arrives, and the socket is registered for the next one. -/
def registered : List (FaultyAction 2 2) :=
  [.accept, .readable 0, .addToReader t₀, .popConn t₀, .readCall t₀ (ping 0), .pushCall t₀,
    .rearm t₀].map .server

/-- The peer goes away; the reader finds out and closes the connection. -/
theorem noDeadEntries_closed : ∃ s, (faulty 2 2).run (fun _ _ => True) (.start 2 2) (registered ++
      [.readable 0, .addToReader t₁, .popConn t₁, .readCall t₁ peerClosed,
        .closeConnection t₁].map .server) = some s ∧ s.listener.connections 0 = none ∧
    (faulty 2 2).Along NoDeadEntries (.start 2 2) (registered ++
      [.readable 0, .addToReader t₁, .popConn t₁, .readCall t₁ peerClosed,
        .closeConnection t₁].map .server) := by
  have hrun : ((faulty 2 2).run Keeps (.start 2 2) (registered ++
      [.readable 0, .addToReader t₁, .popConn t₁, .readCall t₁ peerClosed,
        .closeConnection t₁].map .server)).any
      (fun s => s.listener.connections 0 = none) = true := by decide +kernel
  obtain ⟨s, hs, hnone⟩ := (Option.any_eq_true _ _).mp hrun
  have hall := System.run_mono (D := fun _ _ => True) (fun _ _ _ => trivial) hs
  exact ⟨s, hall, of_decide_eq_true hnone, (noDeadEntries_iff hall).mpr hs⟩

/-- `handle_read` gets an error for the registered socket. -/
theorem readError_not_noDeadEntries :
    ¬ ∀ s, (faulty 2 2).Reachable s → NoDeadEntries s := by
  intro h
  have hrun : ((faulty 2 2).run (fun _ _ => True) (.start 2 2)
      (registered ++ [.server (.readError 0)])).any
      (fun s => s.status = .running ∧ s.listener.connections 0 = some 0 ∧
        s.listener.endpoint 0 = 0 ∧ s.listener.tickets 0 = 0) = true := by decide +kernel
  obtain ⟨s, hs, hfacts⟩ := (Option.any_eq_true _ _).mp hrun
  obtain ⟨hstatus, hc, hep, hzero⟩ := of_decide_eq_true hfacts
  exact not_noDeadEntries hstatus hc hep hzero (h s (.run (.init rfl) hs))

end PRpc.Server
