import PRpc.Library.Mutex
import PRpc.Server.State

/-!
# `_mutex_conns`

The mutex of the connection map is locked by hand in `handle_read`, `close_connection` and
`respond`, statement by statement here, with what each of them may throw. Two of the exceptions go
wrong: one thrown in `handle_read` after the unlock reaches a handler that unlocks again, and one
thrown by `close` leaves `close_connection` without an unlock. In the runs without these the mutex
is balanced, and in no others (`balanced_iff`).

An exception that no handler catches, thrown in a handler or in `respond`, ends the process, as
`std::abort` does: there is no statement after it.
-/

namespace PRpc.Server

open Mutex (Effect)

variable {m : ℕ}

/-- The threads that lock `_mutex_conns`. -/
inductive Locker (m : ℕ)
  | listener
  | reader (r : Fin m)
  | responder
  deriving DecidableEq

/-- The statements of the three functions. -/
inductive Point
  /-- In none of them. -/
  | outside
  | readLock
  | readFind
  | readMake
  | readLog
  | readUnlock
  | readAdd
  /-- The readers are all full. -/
  | readFull
  /-- In the handler of `handle_read`, after its unlock. -/
  | readCaught
  | closeLock
  | closeSock
  | closeErase
  | closeUnlock
  | closeLog
  /-- In the handler of `_do_read`; `close_connection` has ended. -/
  | closeCaught
  | respondLock
  | respondFind
  | respondUnlock (found : Bool)
  | respondLog (found : Bool)
  deriving DecidableEq

/-- A statement goes on, with what it has found, or throws. -/
inductive Label
  | goes (found : Bool)
  | throws
  deriving DecidableEq

/-- `Listener::handle_read`; its handler begins with an unlock. -/
def handleRead : Point → Label → Option (Effect × Point)
  | .outside, .goes _ => some (.keep, .readLock)
  | .readLock, .goes _ => some (.lock, .readFind)
  | .readFind, .goes found => some (.keep, if found then .readLog else .readMake)
  | .readMake, .goes _ => some (.keep, .readLog)
  | .readMake, .throws => some (.unlock, .readCaught)
  | .readLog, .goes _ => some (.keep, .readUnlock)
  | .readLog, .throws => some (.unlock, .readCaught)
  | .readUnlock, .goes _ => some (.unlock, .readAdd)
  | .readAdd, .goes added => some (.keep, if added then .outside else .readFull)
  | .readAdd, .throws => some (.unlock, .readCaught)
  | .readFull, .throws => some (.unlock, .readCaught)
  | .readCaught, .goes _ => some (.keep, .outside)
  | _, _ => none

/-- `Listener::close_connection`, called in the `try` block of `_do_read`. -/
def closeConnection : Point → Label → Option (Effect × Point)
  | .outside, .goes _ => some (.keep, .closeLock)
  | .closeLock, .goes _ => some (.lock, .closeSock)
  | .closeSock, .goes _ => some (.keep, .closeErase)
  | .closeSock, .throws => some (.keep, .closeCaught)
  | .closeErase, .goes _ => some (.keep, .closeUnlock)
  | .closeUnlock, .goes _ => some (.unlock, .closeLog)
  | .closeLog, .goes _ => some (.keep, .outside)
  | .closeLog, .throws => some (.keep, .closeCaught)
  | .closeCaught, .goes _ => some (.keep, .outside)
  | _, _ => none

/-- A round of `Responder::respond`. -/
def respond : Point → Label → Option (Effect × Point)
  | .outside, .goes _ => some (.keep, .respondLock)
  | .respondLock, .goes _ => some (.lock, .respondFind)
  | .respondFind, .goes found => some (.keep, .respondUnlock found)
  | .respondUnlock found, .goes _ => some (.unlock, .respondLog found)
  | .respondLog true, .goes _ => some (.keep, .outside)
  | _, _ => none

/-- The three functions. -/
inductive Task
  | handleRead
  | closeConnection
  | respond
  deriving DecidableEq

def Task.code : Task → Point → Label → Option (Effect × Point)
  | .handleRead => PRpc.Server.handleRead
  | .closeConnection => PRpc.Server.closeConnection
  | .respond => PRpc.Server.respond

def Locker.task : Locker m → Task
  | .listener => .handleRead
  | .reader _ => .closeConnection
  | .responder => .respond

def Locker.code (i : Locker m) : Point → Label → Option (Effect × Point) := i.task.code

/-- The listener, the readers and the responder. -/
abbrev mutexConns (m : ℕ) : System (Mutex.State (Locker m) Point) (Locker m × Label) :=
  Mutex.system Locker.code .outside

namespace Point

/-- Between the lock and the unlock. -/
def holds : Point → Bool
  | .readFind | .readMake | .readLog | .readUnlock => true
  | .closeSock | .closeErase | .closeUnlock => true
  | .respondFind | .respondUnlock _ => true
  | _ => false

/-- The function that the statement is in. -/
def task : Point → Option Task
  | .outside => none
  | .readLock | .readFind | .readMake | .readLog | .readUnlock => some .handleRead
  | .readAdd | .readFull | .readCaught => some .handleRead
  | .closeLock | .closeSock | .closeErase | .closeUnlock => some .closeConnection
  | .closeLog | .closeCaught => some .closeConnection
  | .respondLock | .respondFind | .respondUnlock _ | .respondLog _ => some .respond

/-- The way to the unlock. -/
def toUnlock : Point → List Label
  | .readUnlock | .closeUnlock | .respondUnlock _ => [.goes true]
  | .readLog | .closeErase | .respondFind => [.goes true, .goes true]
  | _ => [.goes true, .goes true, .goes true]

/-- The function has ended, normally or by an exception that was caught outside of it. -/
def ended : Point → Bool
  | .outside | .closeCaught => true
  | _ => false

/-- What is thrown here is not followed by the right unlock. -/
def unguarded : Point → Bool
  | .readAdd | .readFull | .closeSock => true
  | _ => false

end Point

/-- No unlock of a mutex that is not held, no end with the mutex, and the thread that has it can
unlock it without waiting for anything. -/
structure Balanced (s : Mutex.State (Locker m) Point) : Prop where
  notMisused : s.misused = false
  ended : ∀ i, (s.points i).ended = true → s.owner ≠ some i
  released : ∀ i, s.owner = some i → ∃ (bs : List Label) (s' : _), bs.length ≤ 3 ∧
    (mutexConns m).run (fun _ _ => True) s (bs.map fun b => (i, b)) = some s' ∧ s'.owner = none

/-- Nothing is thrown where it is not followed by the right unlock. -/
def Careful (s : Mutex.State (Locker m) Point) (a : Locker m × Label) : Prop :=
  a.2 = .throws → (s.points a.1).unguarded = false

instance (s : Mutex.State (Locker m) Point) (a : Locker m × Label) : Decidable (Careful s a) :=
  inferInstanceAs (Decidable (_ → _))

/-! ## The statements, one by one -/

section Code

variable {t : Task} {p p' : Point} {b : Label} {e : Effect}

/-- **What a statement does**: it agrees with its points, unless it throws unguarded, and leads to a
statement of the same function or out of it. -/
theorem of_code (h : t.code p b = some (e, p')) :
    ((b = .throws → p.unguarded = false) → Mutex.Agrees Point.holds p e p') ∧
      (p'.task = none ∨ p'.task = some t) := by
  cases t with
  | handleRead =>
    change handleRead p b = some (e, p') at h
    unfold handleRead at h
    split at h <;> cases h
    -- `readFind` and `addToReader` go two ways
    case h_3 found => cases found <;> exact ⟨fun _ => rfl, .inr rfl⟩
    case h_9 added => cases added <;> simp [Mutex.Agrees, Point.holds, Point.task]
    all_goals first
      | exact ⟨fun _ => rfl, by simp [Point.task]⟩
      | exact ⟨fun _ => ⟨rfl, rfl⟩, .inr rfl⟩
      | exact ⟨fun hb => Bool.noConfusion (hb rfl), .inr rfl⟩
  | closeConnection =>
    change closeConnection p b = some (e, p') at h
    unfold closeConnection at h
    split at h <;> cases h
    all_goals first
      | exact ⟨fun _ => rfl, by simp [Point.task]⟩
      | exact ⟨fun _ => ⟨rfl, rfl⟩, .inr rfl⟩
      | exact ⟨fun hb => Bool.noConfusion (hb rfl), .inr rfl⟩
  | respond =>
    change respond p b = some (e, p') at h
    unfold respond at h
    split at h <;> cases h
    all_goals first
      | exact ⟨fun _ => rfl, by simp [Point.task]⟩
      | exact ⟨fun _ => ⟨rfl, rfl⟩, .inr rfl⟩

theorem unlocks_of_holds (h : p.holds = true) (ht : p.task = none ∨ p.task = some t) :
    p.toUnlock.length ≤ 3 ∧ Mutex.unlocks t.code p p.toUnlock = true := by
  cases p <;> cases h <;> obtain ht | ht := ht <;> cases ht <;>
    exact ⟨by simp [Point.toUnlock], rfl⟩

/-- What is thrown unguarded: an unlock without the mutex, or an end with it. -/
theorem code_unguarded (h : t.code p .throws = some (e, p')) (hp : p.unguarded = true) :
    (p.holds = false ∧ e = .unlock) ∨ (p.holds = true ∧ e = .keep ∧ p'.ended = true) := by
  cases p <;> cases hp <;> cases t <;> cases h
  · exact .inl ⟨rfl, rfl⟩
  · exact .inl ⟨rfl, rfl⟩
  · exact .inr ⟨rfl, rfl, rfl⟩

theorem not_holds_of_ended (h : p.ended = true) : p.holds = false := by
  cases p <;> cases h <;> rfl

end Code

/-! ## Over runs -/

section Runs

variable {s s' : Mutex.State (Locker m) Point} {a : Locker m × Label}

/-- Every thread is in its own function. -/
def InTask (s : Mutex.State (Locker m) Point) : Prop :=
  ∀ i, (s.points i).task = none ∨ (s.points i).task = some i.task

theorem InTask.step (h : InTask s) (hs : s.step Locker.code a = some s') : InTask s' := by
  intro i
  obtain ⟨e, p, hcode, hpoints⟩ := Mutex.State.points_of_step hs
  rw [hpoints]
  obtain rfl | hne := eq_or_ne i a.1
  · rw [Function.update_self]
    exact (of_code hcode).2
  · rw [Function.update_of_ne hne]
    exact h i

theorem inTask_of_reachable (h : (mutexConns m).Reachable s) : InTask s :=
  h.invariant (fun s h0 => by cases h0; exact fun _ => .inl rfl) fun _ _ _ hI _ hs => hI.step hs

/-- Without an unguarded exception a thread has the mutex between the lock and the unlock. -/
theorem held_of_careful (h : (mutexConns m).Reach Careful s) : Mutex.Inv Point.holds s :=
  Mutex.inv rfl (fun _ _ _ _ hc hcode => (of_code hcode).1 hc) h

theorem balanced_of_careful (h : (mutexConns m).Reach Careful s) : Balanced s := by
  have hinv := held_of_careful h
  refine ⟨hinv.notMisused, fun i hend howner => ?_, fun i howner => ?_⟩
  · have hin := (hinv.owner i).mp howner
    rw [not_holds_of_ended hend] at hin
    cases hin
  · obtain ⟨hlen, hunlocks⟩ : _ ∧ Mutex.unlocks i.code (s.points i) _ = true :=
      unlocks_of_holds ((hinv.owner i).mp howner) (inTask_of_reachable h.reachable i)
    obtain ⟨s', hs', hfree⟩ := Mutex.exists_run_of_unlocks hinv.notMisused howner hunlocks
    exact ⟨_, s', hlen, hs', hfree⟩

/-- The first exception that is thrown unguarded is seen. -/
theorem careful_of_balanced (h : Mutex.Inv Point.holds s) (hs : s.step Locker.code a = some s')
    (hb : Balanced s') : Careful s a := by
  intro hthrows
  by_contra hp
  rw [Bool.not_eq_false] at hp
  obtain ⟨e, p, hcode, -⟩ := Mutex.State.points_of_step hs
  have hcode' := hcode
  rw [hthrows] at hcode'
  obtain ⟨hout, rfl⟩ | ⟨hin, rfl, hend⟩ := code_unguarded hcode' hp
  · have hmisused := h.misused_of_step hs hcode hout
    rw [hb.notMisused] at hmisused
    cases hmisused
  · obtain ⟨howner, hpoint⟩ := h.keeps_step hs hcode hin
    exact hb.ended a.1 (by rw [hpoint]; exact hend) howner

/-- **When `_mutex_conns` is balanced in all states of a run**: exactly when nothing is thrown in
the `try` block of `handle_read` after its unlock, and nothing by `close` in `close_connection`. -/
theorem balanced_iff {as : List (Locker m × Label)}
    (h : (mutexConns m).run (fun _ _ => True) ⟨fun _ => .outside, none, false⟩ as = some s) :
    (mutexConns m).Along Balanced ⟨fun _ => .outside, none, false⟩ as ↔
      (mutexConns m).run Careful ⟨fun _ => .outside, none, false⟩ as = some s :=
  System.along_iff (fun _ => balanced_of_careful)
    (fun _ _ _ hr hs => careful_of_balanced (held_of_careful hr) hs) (.init rfl) h

end Runs

/-- The allocation of a connection fails, with the handler after it. -/
def makeThrows : List (Locker 1 × Label) :=
  [.goes true, .goes true, .goes false, .throws, .goes true].map fun b => (.listener, b)

theorem balanced_makeThrows : ∃ s,
    (mutexConns 1).run (fun _ _ => True) ⟨fun _ => .outside, none, false⟩ makeThrows = some s ∧
      (mutexConns 1).Along Balanced ⟨fun _ => .outside, none, false⟩ makeThrows := by
  have hrun : ((mutexConns 1).run Careful ⟨fun _ => .outside, none, false⟩ makeThrows).isSome =
      true := by decide
  obtain ⟨s, hs⟩ := Option.isSome_iff_exists.mp hrun
  have hall := System.run_mono (D := fun _ _ => True) (fun _ _ _ => trivial) hs
  exact ⟨s, hall, (balanced_iff hall).mpr hs⟩

/-- The socket of a connection that is to be closed throws. -/
def closeThrows : List (Locker 1 × Label) :=
  [.goes true, .goes true, .throws].map fun b => (.reader 0, b)

theorem closeThrows_not_balanced : ¬ ∀ s, (mutexConns 1).Reachable s → Balanced s := by
  intro h
  have hrun : ((mutexConns 1).run (fun _ _ => True) ⟨fun _ => .outside, none, false⟩
      closeThrows).any (fun s => s.owner = some (.reader 0) ∧
        (s.points (.reader 0)).ended = true) = true := by decide
  obtain ⟨s, hs, hfacts⟩ := (Option.any_eq_true _ _).mp hrun
  obtain ⟨howner, hend⟩ := of_decide_eq_true hfacts
  exact (h s (.run (.init rfl) hs)).ended _ hend howner

end PRpc.Server
