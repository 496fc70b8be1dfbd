import PRpc.Library.OrderedMap
import PRpc.Server.State

/-!
# `cleanup_connections`

The loop visits the connections in the order of the map, and advances its iterator after it may have
erased the element that the iterator is at. So it does what it is for exactly when there is nothing
to clean up (`cleansUp_iff`).
-/

namespace PRpc.Server.Cleanup

open OrderedMap (Iterator)

/-- The clock and the connections, as one call of `cleanup_connections` finds them. -/
structure Env where
  /-- What `getTime` returns, call by call. -/
  getTime : ℕ → ℤ
  rand : ℕ
  lastContact : ConnId → ℤ
  /-- `close` throws for the socket of the connection. -/
  closeThrows : ConnId → Bool

def maxIdleDuration : ℤ := 500

def connCleanupInterval : ℤ := 400

/-- `Connection::timeOut`, with a call of `getTime`. -/
def Env.timeOut (env : Env) (call : ℕ) (conn : ConnId) : Bool :=
  env.getTime call - env.lastContact conn > maxIdleDuration

variable {K : Type} [LinearOrder K]

structure State (K : Type) [LinearOrder K] where
  connections : OrderedMap K ConnId
  numConnections : ℤ
  lastCleanupTime : ℤ
  iter : Iterator K
  /-- The connections for which `timeOut` was called. -/
  visited : List ConnId
  closed : List ConnId

/-- How the loop ends. -/
inductive Outcome (K : Type) [LinearOrder K]
  | returned (s : State K)
  /-- In the handler; `_mutex_conns` is unlocked. -/
  | caught (s : State K)
  | undefined

def Outcome.andThen (f : State K → Outcome K) : Outcome K → Outcome K
  | .returned s => f s
  | .caught s => .caught s
  | .undefined => .undefined

namespace State

variable (s : State K) (env : Env)

/-- `iter++` -/
def advance : Outcome K :=
  match s.connections.next s.iter with
  | none => .undefined
  | some iter => .returned { s with iter }

/-- The body of the loop, under `_mutex_conns`; the first call of `getTime` was before it. -/
def body (i : ℕ) : Outcome K :=
  match s.connections.deref s.iter with
  | none => .undefined
  | some (k, conn) =>
    if env.timeOut (i + 1) conn then
      if env.closeThrows conn then .caught { s with visited := s.visited ++ [conn] }
      else
        { s with
          visited := s.visited ++ [conn]
          closed := s.closed ++ [conn]
          connections := s.connections.erase k
          numConnections := s.numConnections - 1 }.advance
    else { s with visited := s.visited ++ [conn] }.advance

/-- The last rounds, from a value of `i` on. -/
def rounds : ℕ → ℕ → State K → Outcome K
  | 0, _, s => .returned s
  | n + 1, i, s => (s.body env i).andThen (rounds n (i + 1))

/-- `while(i <= end)`, from the beginning of the map. -/
def loop (last : ℕ) : Outcome K :=
  rounds env (last + 1) 0 { s with iter := s.connections.begin, visited := [], closed := [] }

end State

/-- `Listener::cleanup_connections` -/
def cleanupConnections (env : Env) (s : State K) : Outcome K :=
  if s.numConnections = 0 then .returned s
  else if env.getTime 0 - s.lastCleanupTime < connCleanupInterval then .returned s
  else
    let last := (Int.tmod env.rand s.numConnections).toNat
    (s.loop env last).andThen fun s' =>
      .returned { s' with lastCleanupTime := env.getTime (last + 2) }

/-! ## What the loop is for -/

/-- The first connections of the map that have timed out when they are visited. -/
def timedOut (env : Env) (last : ℕ) (m : OrderedMap K ConnId) : List (K × ConnId) :=
  (((m.entries.take (last + 1)).zipIdx 1).filter fun x => env.timeOut x.2 x.1.2).map Prod.fst

/-- The loop visits the first connections, and closes and erases those that have timed out. -/
structure CleansUp (env : Env) (last : ℕ) (s s' : State K) : Prop where
  visited : s'.visited = (s.connections.entries.take (last + 1)).map Prod.snd
  closed : s'.closed = (timedOut env last s.connections).map Prod.snd
  connections : s'.connections.entries =
    s.connections.entries.filter fun x => x ∉ timedOut env last s.connections
  numConnections : s'.numConnections = s.numConnections - (timedOut env last s.connections).length

section Loop

variable {env : Env} {s : State K} {before rest : List (K × ConnId)} {n i last : ℕ}

theorem State.body_of_not_timeOut {x : K × ConnId}
    (h : s.connections.entries = before ++ x :: rest) (hit : s.iter = .ofElements (x :: rest))
    (hx : env.timeOut (i + 1) x.2 = false) : s.body env i =
      .returned { s with iter := .ofElements rest, visited := s.visited ++ [x.2] } := by
  unfold State.body State.advance
  rw [hit, OrderedMap.deref_ofElements h]
  dsimp only
  rw [hx, if_neg Bool.false_ne_true, OrderedMap.next_ofElements h]

/-- A round at one that has: an exception, or an iterator whose element was erased. -/
theorem State.body_of_timeOut {x : K × ConnId}
    (h : s.connections.entries = before ++ x :: rest) (hit : s.iter = .ofElements (x :: rest))
    (hx : env.timeOut (i + 1) x.2 = true) (s' : State K) : s.body env i ≠ .returned s' := by
  unfold State.body State.advance
  rw [hit, OrderedMap.deref_ofElements h]
  dsimp only
  rw [if_pos hx]
  split
  · exact fun hs => by cases hs
  · show (match (s.connections.erase x.1).next (.elem x.1) with
      | none => Outcome.undefined
      | some _ => _) ≠ _
    rw [OrderedMap.next_erase]
    exact fun hs => by cases hs

theorem State.rounds_of_none (before : List (K × ConnId))
    (h : s.connections.entries = before ++ rest)
    (hit : s.iter = .ofElements rest) (hn : n ≤ rest.length)
    (hnone : ∀ x ∈ (rest.take n).zipIdx (i + 1), env.timeOut x.2 x.1.2 = false) :
    State.rounds env n i s = .returned { s with
      iter := .ofElements (rest.drop n)
      visited := s.visited ++ (rest.take n).map Prod.snd } := by
  induction n generalizing i s before rest with
  | zero =>
    rw [List.take_zero, List.map_nil, List.append_nil, List.drop_zero, ← hit]
    rfl
  | succ n ih =>
    cases rest with
    | nil => cases hn
    | cons x rest =>
      rw [List.take_succ_cons, List.zipIdx_cons, List.forall_mem_cons] at hnone
      unfold State.rounds
      rw [State.body_of_not_timeOut h hit hnone.1]
      dsimp only [Outcome.andThen]
      rw [ih (before ++ [x]) (by simp [h]) rfl (Nat.le_of_succ_le_succ hn) hnone.2]
      simp

/-- The first timeout ends the loop. -/
theorem State.rounds_of_timeOut (before : List (K × ConnId))
    (h : s.connections.entries = before ++ rest)
    (hit : s.iter = .ofElements rest)
    (hsome : ∃ x ∈ (rest.take n).zipIdx (i + 1), env.timeOut x.2 x.1.2 = true) (s' : State K) :
    State.rounds env n i s ≠ .returned s' := by
  induction n generalizing i s before rest with
  | zero =>
    obtain ⟨x, hx, -⟩ := hsome
    cases hx
  | succ n ih =>
    cases rest with
    | nil =>
      obtain ⟨x, hx, -⟩ := hsome
      cases hx
    | cons x rest =>
      rw [List.take_succ_cons, List.zipIdx_cons] at hsome
      unfold State.rounds
      cases hx : env.timeOut (i + 1) x.2 with
      | true =>
        have hbody := State.body_of_timeOut h hit hx
        cases hout : s.body env i with
        | returned t => exact absurd hout (hbody t)
        | caught t => exact fun hs => by cases hs
        | undefined => exact fun hs => by cases hs
      | false =>
        rw [State.body_of_not_timeOut h hit hx]
        obtain ⟨y, hy, htimeOut⟩ := hsome
        obtain rfl | hy := List.mem_cons.mp hy
        · rw [hx] at htimeOut
          cases htimeOut
        · exact ih (before ++ [x]) (by simp [h]) rfl ⟨y, hy, htimeOut⟩

theorem State.loop_of_none (hlast : last < s.connections.size)
    (hnone : ∀ x ∈ (s.connections.entries.take (last + 1)).zipIdx 1,
      env.timeOut x.2 x.1.2 = false) :
    s.loop env last = .returned { s with
      iter := .ofElements (s.connections.entries.drop (last + 1))
      visited := (s.connections.entries.take (last + 1)).map Prod.snd
      closed := [] } :=
  State.rounds_of_none (s := { s with iter := s.connections.begin, visited := [], closed := [] })
    [] rfl rfl hlast hnone

theorem State.timeOut_of_loop {s' : State K} (h : s.loop env last = .returned s') :
    ∀ x ∈ (s.connections.entries.take (last + 1)).zipIdx 1, env.timeOut x.2 x.1.2 = false := by
  intro x hx
  by_contra htrue
  rw [Bool.not_eq_false] at htrue
  exact State.rounds_of_timeOut
    (s := { s with iter := s.connections.begin, visited := [], closed := [] }) []
    rfl rfl ⟨x, hx, htrue⟩ s' h

/-- **When the loop does what it is for**: when none of the connections that it visits has timed
out. -/
theorem cleansUp_iff (hsize : s.numConnections = s.connections.size)
    (hlast : last < s.numConnections) :
    (∃ s', s.loop env last = .returned s' ∧ CleansUp env last s s') ↔
      ∀ x ∈ (s.connections.entries.take (last + 1)).zipIdx 1, env.timeOut x.2 x.1.2 = false := by
  constructor
  · rintro ⟨s', hs', -⟩
    exact State.timeOut_of_loop hs'
  · intro hnone
    have hgone : timedOut env last s.connections = [] := by
      unfold timedOut
      rw [List.filter_eq_nil_iff.mpr fun x hx => by rw [hnone x hx]; decide, List.map_nil]
    refine ⟨_, State.loop_of_none (by omega) hnone, ⟨rfl, ?_, ?_, ?_⟩⟩
    · rw [hgone]
      rfl
    · rw [hgone]
      simp
    · rw [hgone]
      simp

/-- A call that returns has not closed or erased any connection. -/
theorem cleanupConnections_connections {s' : State K}
    (hsize : s.numConnections = s.connections.size)
    (h : cleanupConnections env s = .returned s') : s'.connections = s.connections := by
  unfold cleanupConnections at h
  split at h
  · cases h
    rfl
  · next hne =>
    split at h
    · cases h
      rfl
    · have hlast : (Int.tmod env.rand s.numConnections).toNat < s.connections.size := by
        have hpos : 0 < s.numConnections := by omega
        have hlt := Int.tmod_lt_of_pos (env.rand : ℤ) hpos
        omega
      dsimp only at h
      cases hloop : s.loop env (Int.tmod env.rand s.numConnections).toNat with
      | returned t =>
        rw [hloop] at h
        cases h
        rw [State.loop_of_none hlast (State.timeOut_of_loop hloop)] at hloop
        cases hloop
        rfl
      | caught t =>
        rw [hloop] at h
        cases h
      | undefined =>
        rw [hloop] at h
        cases h

end Loop

/-- Two connections, the first of them idle for longer. -/
def twoConnections : State ℕ where
  connections := ⟨[(0, 0), (1, 1)], by decide⟩
  numConnections := 2
  lastCleanupTime := 0
  iter := .past
  visited := []
  closed := []

/-- A call at a time, with the first connection last in contact at the time 0. -/
def callAt (time : ℤ) : Env where
  getTime _ := time
  rand := 0
  lastContact conn := 100 * conn
  closeThrows _ := false

theorem cleansUp_twoConnections : ∃ s', twoConnections.loop (callAt 500) 1 = .returned s' ∧
    CleansUp (callAt 500) 1 twoConnections s' :=
  (cleansUp_iff rfl (by decide)).mpr (by decide)

/-- The first connection has timed out; its iterator is advanced after the erase. -/
theorem callAt_550_not_cleansUp : ¬ ∀ (env : Env) (s : State ℕ) (last : ℕ),
    s.numConnections = s.connections.size → last < s.numConnections →
      ∃ s', s.loop env last = .returned s' ∧ CleansUp env last s s' := by
  intro h
  have hundefined : twoConnections.loop (callAt 550) 0 = .undefined := by rfl
  obtain ⟨s', hs', -⟩ := h (callAt 550) twoConnections 0 rfl (by decide)
  rw [hundefined] at hs'
  cases hs'

end PRpc.Server.Cleanup
