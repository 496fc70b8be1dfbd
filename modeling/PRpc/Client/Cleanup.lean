import PRpc.Client.IdleClose
import PRpc.Library.Machine
import PRpc.Library.OrderedMap

/-!
# `cleanupCalls`

The loop erases the entry that its iterator is at, and advances the iterator afterwards. The first
round of it cannot be finished, so it empties no table but an empty one (`emptiesTable_iff`). The
step `State.cleanupCalls` of the client is what this loop does to the table of the connection
(`cleanupCalls_of_loop`).
-/

namespace PRpc.Client

namespace CallMap

/-- The keys are compared as signed numbers. -/
def keyLe (x y : ℤ × CallId) : Bool := x.1 ≤ y.1

def sortedEntries (m : CallMap) : List (ℤ × CallId) :=
  (m.entries.map fun x => (x.1.toInt, x.2)).mergeSort keyLe

theorem pairwise_ne (m : CallMap) : (sortedEntries m).Pairwise fun x y => x.1 ≠ y.1 := by
  have hkeys := List.nodupKeys_iff_pairwise.mp m.nodupKeys
  have hperm := List.mergeSort_perm (m.entries.map fun x => (x.1.toInt, x.2)) keyLe
  refine (hperm.pairwise_iff fun hne => hne.symm).mpr ?_
  rw [List.pairwise_map]
  exact hkeys.imp fun hne heq => hne (BitVec.eq_of_toInt_eq heq)

/-- The `std::map` of a table: the entries in the order of their keys. -/
def ordered (m : CallMap) : OrderedMap ℤ CallId where
  entries := sortedEntries m
  sorted := by
    have hle : (sortedEntries m).Pairwise fun x y => keyLe x y = true :=
      List.pairwise_mergeSort
        (fun _ _ _ hxy hyz =>
          decide_eq_true ((of_decide_eq_true hxy).trans (of_decide_eq_true hyz)))
        (fun x y => by simpa [keyLe] using le_total x.1 y.1) _
    refine (hle.and (pairwise_ne m)).imp fun h => ?_
    exact lt_of_le_of_ne (of_decide_eq_true h.1) h.2

theorem ordered_entries_eq_nil {m : CallMap} : (ordered m).entries = [] ↔ m.entries = [] := by
  have hperm := List.mergeSort_perm (m.entries.map fun x => (x.1.toInt, x.2)) keyLe
  show sortedEntries m = [] ↔ _
  unfold sortedEntries
  rw [← List.length_eq_zero_iff, hperm.length_eq, List.length_map, List.length_eq_zero_iff]

end CallMap

namespace Cleanup

open OrderedMap (Iterator)

variable {K V : Type} [LinearOrder K]

/-- The table and the iterator between two rounds. -/
structure Loop (K V : Type) [LinearOrder K] where
  calls : OrderedMap K V
  iter : Iterator K
  /-- The entries at which the iterator was dereferenced. -/
  visited : List (K × V)

/-- How far the function is. -/
inductive Progress (K V : Type) [LinearOrder K]
  | running (l : Loop K V)
  | returned (l : Loop K V)
  /-- The iterator of an erased entry, or the end, was used. -/
  | undefined

/-- The body of the loop: `erase(iter->first)`, then `iter++`. -/
def Loop.body (l : Loop K V) : Progress K V :=
  match l.calls.deref l.iter with
  | none => .undefined
  | some x =>
    match (l.calls.erase x.1).next l.iter with
    | none => .undefined
    | some iter => .running ⟨l.calls.erase x.1, iter, l.visited ++ [x]⟩

namespace Progress

/-- The test of the loop, and a round if it is not at its end. -/
def step : Progress K V → Progress K V
  | .running l => if l.iter = .past then .returned l else l.body
  | p => p

/-- Before the loop. -/
def start (calls : OrderedMap K V) : Progress K V := .running ⟨calls, calls.begin, []⟩

def Halted : Progress K V → Prop
  | .running _ => False
  | .returned _ | .undefined => True

theorem step_of_halted (p : Progress K V) (h : p.Halted) : p.step = p := by
  cases p with
  | running => cases h
  | returned | undefined => rfl

variable {calls : OrderedMap K V}

theorem step_start_of_nil (h : calls.entries = []) :
    (start calls).step = .returned ⟨calls, calls.begin, []⟩ := by
  have hbegin : calls.begin = .past := by
    unfold OrderedMap.begin
    rw [h]
    rfl
  exact if_pos hbegin

/-- **The first round** erases the first entry, and the iterator is not to be advanced any more. -/
theorem step_start_of_cons {x : K × V} {rest : List (K × V)} (h : calls.entries = x :: rest) :
    (start calls).step = .undefined := by
  have hbegin : calls.begin = .ofElements (x :: rest) := by
    unfold OrderedMap.begin
    rw [h]
  have hround : Loop.body ⟨calls, calls.begin, []⟩ = .undefined := by
    have hfirst : calls.entries = [] ++ x :: rest := h
    unfold Loop.body
    rw [hbegin, OrderedMap.deref_ofElements hfirst]
    show (match (calls.erase x.1).next (.elem x.1) with
      | none => Progress.undefined
      | some _ => _) = _
    rw [OrderedMap.next_erase]
  show (if calls.begin = .past then _ else _) = _
  rw [if_neg (by rw [hbegin]; exact fun heq => by cases heq)]
  exact hround

/-- The function is at its end after one step, in one way or another. -/
theorem halted_one (calls : OrderedMap K V) : (step^[1] (start calls)).Halted := by
  show (start calls).step.Halted
  cases h : calls.entries with
  | nil =>
    rw [step_start_of_nil h]
    trivial
  | cons x rest =>
    rw [step_start_of_cons h]
    trivial

end Progress

/-- The function returns with an empty table. It has visited each entry once, and has used no
iterator that may not be used. -/
structure EmptiesTable (calls : OrderedMap K V) : Prop where
  returns : ∃ n l, Progress.step^[n] (.start calls) = .returned l ∧
    l.calls.entries = [] ∧ l.visited = calls.entries
  defined : ∀ n, Progress.step^[n] (.start calls) ≠ .undefined

/-- **When the table is emptied**: when it is empty. -/
theorem emptiesTable_iff {calls : OrderedMap K V} : EmptiesTable calls ↔ calls.entries = [] := by
  constructor
  · intro h
    cases hentries : calls.entries with
    | nil => rfl
    | cons x rest => exact absurd (Progress.step_start_of_cons hentries) (h.defined 1)
  · intro h
    have hreturns := Progress.step_start_of_nil h
    refine ⟨⟨1, _, hreturns, h, h.symm⟩, fun n => ?_⟩
    cases n with
    | zero => exact fun heq => by cases heq
    | succ n =>
      rw [Machine.iterate_eq_of_le Progress.step_of_halted (Progress.halted_one calls)
        (Nat.le_add_left 1 n)]
      show (Progress.start calls).step ≠ .undefined
      rw [hreturns]
      exact fun heq => by cases heq

/-- What the end of the loop means for the receiver thread. -/
def Progress.ends (s : State) (c : ConnId) : Progress ℤ CallId → State
  | .returned _ => s.setReceiver c .exited
  | .running _ | .undefined => s.crash

/-- **The step of the client is what the loop does** to the table of the connection. -/
theorem cleanupCalls_of_loop (s : State) (c : ConnId) {n : ℕ}
    (h : (Progress.step^[n] (.start (s.conn c).calls.ordered)).Halted) :
    s.cleanupCalls c = (Progress.step^[n] (.start (s.conn c).calls.ordered)).ends s c := by
  rw [Machine.iterate_eq Progress.step_of_halted (Progress.halted_one _) h]
  show s.cleanupCalls c = ((Progress.start (s.conn c).calls.ordered).step).ends s c
  unfold State.cleanupCalls
  cases h : (s.conn c).calls.ordered.entries with
  | nil =>
    rw [Progress.step_start_of_nil h, if_pos (CallMap.ordered_entries_eq_nil.mp h)]
    rfl
  | cons x rest =>
    have hne : (s.conn c).calls.entries ≠ [] := fun hnil => by
      rw [CallMap.ordered_entries_eq_nil.mpr hnil] at h
      cases h
    rw [Progress.step_start_of_cons h, if_neg hne]
    rfl

end Cleanup

/-- A call is added to a connection that is marked, and the connection is closed. -/
def addedWhileClosing : List Action :=
  fiveWaits ++ [.markClosed 0, .addCall, .leave, .closeSock 0, .removeConnection 0]

/-- With the call, the receiver thread comes to the loop. -/
theorem addedWhileClosing_not_emptiesTable : ∃ s,
    client.run (fun _ _ => True) .start addedWhileClosing = some s ∧ s.receiver 0 = .cleaning ∧
      ¬ Cleanup.EmptiesTable (s.conn 0).calls.ordered := by
  have hrun : (client.run (fun _ _ => True) .start addedWhileClosing).any (fun s =>
      s.receiver 0 = .cleaning ∧ (s.conn 0).calls.entries ≠ []) = true := by decide +kernel
  obtain ⟨s, hs, hfacts⟩ := (Option.any_eq_true _ _).mp hrun
  obtain ⟨hcleaning, hcalls⟩ := of_decide_eq_true hfacts
  refine ⟨s, hs, hcleaning, fun h => hcalls ?_⟩
  exact CallMap.ordered_entries_eq_nil.mp (Cleanup.emptiesTable_iff.mp h)

end PRpc.Client
