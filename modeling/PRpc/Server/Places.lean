import PRpc.Server.Ownership
import PRpc.Library.Placement

/-!
# Where a call is

A call goes from its reader to `_bq_call`, into a handler's hands, to the response queue of its
connection, from there into the hands of any thread that sends responses, and back to the queue
after a short write. `State.At` looks for a call in the queues and in the threads; every step moves
at most one call, so that each call is in exactly one place (`Moves.placed`).
-/

namespace PRpc.Server

open Queue Placement

variable {m n : ℕ}

/-! ## Places -/

/-- The call a reader has read and not handed on. -/
def ReaderPc.call : ReaderPc → Option CallId
  | .read _ k => some k
  | _ => none

/-- The call in a thread's hands. -/
def Pc.hand : Pc → Option (CallId × Hand)
  | .holding k => some (k, .holding)
  | .valued k => some (k, .valued)
  | .died k => some (k, .died)
  | .popped c k => some (k, .popped c)
  | .requeue c k => some (k, .requeue c)
  | _ => none

/-- The call is found at the place. That it was sent or dropped is recorded only. -/
def State.At (s : State m n) (k : CallId) : Place m n → Prop
  | .unread => s.pipe.lastCall ≤ k
  | .reader r => (s.listener.readers r).pc.call = some k
  | .calls => k ∈ s.pipe.bqCall
  | .hand t g => (s.pipe.pc t).hand = some (k, g)
  | .responding c => k ∈ s.pipe.respondQueue c
  | .sent => s.pipe.place k = .sent
  | .dropped => s.pipe.place k = .dropped

section At

variable {s : State m n} {k : CallId}

theorem State.at_reader {r : Fin m} {pc : ReaderPc} (h : (s.listener.readers r).pc = pc)
    (hk : pc.call = some k) : s.At k (.reader r) := by
  subst h
  exact hk

theorem State.at_hand {t : Thread n} {g : Hand} {pc : Pc} (h : s.pipe.pc t = pc)
    (hk : pc.hand = some (k, g)) : s.At k (.hand t g) := by
  subst h
  exact hk

theorem State.at_calls {q : List CallId} (h : s.pipe.bqCall = k :: q) : s.At k .calls := by
  show k ∈ s.pipe.bqCall
  simp [h]

theorem State.at_responding {c : ConnId} {q : List CallId} (h : s.pipe.respondQueue c = k :: q) :
    s.At k (.responding c) := by
  show k ∈ s.pipe.respondQueue c
  simp [h]

end At

/-- Every call is in one place, and in a queue once. -/
structure Placed (s : State m n) : Prop where
  coherent : Coherent s.At s.pipe.place
  bqCall : s.pipe.bqCall.Nodup
  respondQueue : ∀ c, (s.pipe.respondQueue c).Nodup

theorem Placed.start : Placed (State.start m n) where
  coherent k p := by
    cases p with
    | unread => exact iff_of_true (Nat.zero_le k) rfl
    | reader r => simp [State.At, State.start, ReaderPc.call]
    | calls => simp [State.At, State.start]
    | hand t g => simp [State.At, State.start, Pc.hand]
    | responding c => simp [State.At, State.start]
    | sent => exact Iff.rfl
    | dropped => exact Iff.rfl
  bqCall := List.nodup_nil
  respondQueue _ := List.nodup_nil

section Move

variable {s s' : State m n} {k : CallId}

/-- The rule for a step that moves one call. -/
theorem Placed.move (h : Placed s) (old new : Place m n)
    (hplace : s'.pipe.place = Function.update s.pipe.place k new)
    (hk : s.At k old) (hne : old ≠ new)
    (hrest : ∀ j p, p ≠ old → p ≠ new → p ≠ .sent → p ≠ .dropped → (s'.At j p ↔ s.At j p))
    (hout : ∀ j, s'.At j old ↔ s.At j old ∧ j ≠ k) (hin : ∀ j, s'.At j new ↔ s.At j new ∨ j = k) :
    Coherent s'.At s'.pipe.place := by
  -- what is only recorded changes with the record
  have hrec : ∀ j p, p ≠ old → p ≠ new → (s'.pipe.place j = p ↔ s.pipe.place j = p) := by
    intro j p h1 h2
    rw [hplace]
    by_cases hj : j = k
    · rw [hj, Function.update_self, h.coherent.place_eq hk]
      exact iff_of_false h2.symm h1.symm
    · rw [Function.update_of_ne hj]
  rw [hplace]
  refine h.coherent.move hk hne (fun j p h1 h2 => ?_) hout hin
  by_cases hs : p = .sent
  · subst hs
    exact hrec j _ h1 h2
  · by_cases hd : p = .dropped
    · subst hd
      exact hrec j _ h1 h2
    · exact hrest j p h1 h2 hs hd

theorem Placed.stay (h : Placed s) (hplace : s'.pipe.place = s.pipe.place)
    (hlast : s'.pipe.lastCall = s.pipe.lastCall)
    (hreaders : ∀ r, (s'.listener.readers r).pc.call = (s.listener.readers r).pc.call)
    (hcalls : s'.pipe.bqCall = s.pipe.bqCall) (hpc : ∀ t, (s'.pipe.pc t).hand = (s.pipe.pc t).hand)
    (hqueue : s'.pipe.respondQueue = s.pipe.respondQueue) : Placed s' where
  coherent k p := by
    rw [hplace, ← h.coherent k p]
    cases p with
    | unread => show s'.pipe.lastCall ≤ k ↔ _; rw [hlast]; rfl
    | reader r => show (s'.listener.readers r).pc.call = some k ↔ _; rw [hreaders]; rfl
    | calls => show k ∈ s'.pipe.bqCall ↔ _; rw [hcalls]; rfl
    | hand t g => show (s'.pipe.pc t).hand = some (k, g) ↔ _; rw [hpc]; rfl
    | responding c => show k ∈ s'.pipe.respondQueue c ↔ _; rw [hqueue]; rfl
    | sent => show s'.pipe.place k = .sent ↔ _; rw [hplace]; rfl
    | dropped => show s'.pipe.place k = .dropped ↔ _; rw [hplace]; rfl
  bqCall := by rw [hcalls]; exact h.bqCall
  respondQueue := by rw [hqueue]; exact h.respondQueue

end Move

/-! ## The steps that move no call -/

theorem call_update (f : Fin m → Reader) (r : Fin m) (x : Reader) (r' : Fin m) :
    (Function.update f r x r').pc.call = if r' = r then x.pc.call else (f r').pc.call := by
  rw [Function.update_apply]
  split <;> rfl

theorem hand_update (f : Thread n → Pc) (t : Thread n) (pc : Pc) (t' : Thread n) :
    (Function.update f t pc t').hand = if t' = t then pc.hand else (f t').hand := by
  rw [Function.update_apply]
  split <;> rfl

theorem call_update_self {f : Fin m → Reader} {r : Fin m} {x : Reader}
    (h : x.pc.call = (f r).pc.call) (r' : Fin m) :
    (Function.update f r x r').pc.call = (f r').pc.call := by
  rw [call_update, h]
  split
  · next hr => rw [hr]
  · rfl

theorem hand_update_self {f : Thread n → Pc} {t : Thread n} {pc : Pc} (h : pc.hand = (f t).hand)
    (t' : Thread n) : (Function.update f t pc t').hand = (f t').hand := by
  rw [hand_update, h]
  split
  · next ht => rw [ht]
  · rfl

namespace Placed

variable {s : State m n} {k : CallId} {c : ConnId} {r : Fin m} {t : Thread n}

/-- The status plays no part. -/
theorem abort (h : Placed s) (site : Site) : Placed (s.abort site) :=
  h.stay rfl rfl (fun _ => rfl) rfl (fun _ => rfl) rfl

theorem failed (h : Placed s) (t : Thread n) : Placed (s.failed t) :=
  h.stay rfl rfl (fun _ => rfl) rfl (fun _ => rfl) rfl

theorem setPc (h : Placed s) {pc : Pc} (hpc : pc.hand = (s.pipe.pc t).hand) :
    Placed (s.setPipe (s.pipe.setPc t pc)) :=
  h.stay rfl rfl (fun _ => rfl) rfl (hand_update_self hpc) rfl

theorem setTokens (h : Placed s) {pc : Pc} {q : List Ep} (hpc : pc.hand = (s.pipe.pc t).hand) :
    Placed (s.setPipe (s.pipe.setTokens t pc q)) :=
  h.stay rfl rfl (fun _ => rfl) rfl (hand_update_self hpc) rfl

theorem setListener (h : Placed s) {l : Listener m} {x : Reader}
    (hl : l.readers = Function.update s.listener.readers r x)
    (hx : x.pc.call = (s.listener.readers r).pc.call) : Placed (s.setListener l) := by
  refine h.stay rfl rfl (fun r' => ?_) rfl (fun _ => rfl) rfl
  show (l.readers r').pc.call = _
  rw [hl, call_update_self hx]

theorem setListener_of_readers (h : Placed s) {l : Listener m}
    (hl : l.readers = s.listener.readers) :
    Placed (s.setListener l) :=
  h.stay rfl rfl (fun r => by show (l.readers r).pc.call = _; rw [hl]) rfl (fun _ => rfl) rfl

/-! ## The steps that move a call -/

theorem newCall (h : Placed s) {call : Call} (hpc : (s.listener.readers r).pc = .reading c) :
    Placed { s with
      listener := s.listener.setReaderPc r (.read c s.pipe.lastCall)
      pipe := s.pipe.newCall r call } := by
  have hcall : (s.listener.readers r).pc.call = none := by rw [hpc]; rfl
  have hat : ∀ r' j,
      ((s.listener.setReaderPc r (.read c s.pipe.lastCall)).readers r').pc.call = some j ↔
        if r' = r then s.pipe.lastCall = j else (s.listener.readers r').pc.call = some j := by
    intro r' j
    show (Function.update s.listener.readers r _ r').pc.call = some j ↔ _
    rw [call_update]
    split
    · exact Option.some_inj
    · rfl
  refine ⟨h.move .unread (.reader r) rfl le_rfl (by simp) (fun j p h1 h2 h3 h4 => ?_)
    (fun j => ?_) (fun j => ?_), h.bqCall, h.respondQueue⟩
  · cases p with
    | unread => exact absurd rfl h1
    | reader r' => exact (hat r' j).trans (by rw [if_neg fun hr => h2 (congrArg _ hr)]; rfl)
    | sent => exact absurd rfl h3
    | dropped => exact absurd rfl h4
    | _ => exact Iff.rfl
  · show s.pipe.lastCall + 1 ≤ j ↔ s.pipe.lastCall ≤ j ∧ j ≠ s.pipe.lastCall
    rw [Nat.succ_le_iff, lt_iff_le_and_ne, ne_comm]
  · refine (hat r j).trans ?_
    show _ ↔ (s.listener.readers r).pc.call = some j ∨ _
    rw [if_pos rfl, hcall, eq_comm]
    simp

theorem pushCall (h : Placed s) {q : List CallId} (hpc : (s.listener.readers r).pc = .read c k)
    (hq : tryPush maxNumCalls s.pipe.bqCall k true = some q) :
    Placed { s with
      listener := s.listener.setReaderPc r (.pushed c)
      pipe := s.pipe.pushCall k q } := by
  have hk : s.At k (.reader r) := State.at_reader hpc rfl
  have hat : ∀ r' j, ((s.listener.setReaderPc r (.pushed c)).readers r').pc.call = some j ↔
      (s.listener.readers r').pc.call = some j ∧ r' ≠ r := by
    intro r' j
    show (Function.update s.listener.readers r _ r').pc.call = some j ↔ _
    rw [call_update]
    split
    · next hr => exact iff_of_false (fun he => by cases he) fun he => he.2 hr
    · next hr => exact (and_iff_left hr).symm
  refine ⟨h.move (.reader r) .calls rfl hk (by simp) (fun j p h1 h2 h3 h4 => ?_) (fun j => ?_)
    (fun j => (mem_of_tryPush hq).trans or_comm), ?_, h.respondQueue⟩
  · cases p with
    | calls => exact absurd rfl h2
    | reader r' => exact (hat r' j).trans (and_iff_left fun hr => h1 (congrArg _ hr))
    | sent => exact absurd rfl h3
    | dropped => exact absurd rfl h4
    | _ => exact Iff.rfl
  · refine (hat r j).trans (iff_of_false (fun he => he.2 rfl) fun he => he.2 ?_)
    have : (s.listener.readers r).pc.call = some j := he.1
    rw [hpc] at this
    exact (Option.some_inj.mp this).symm
  · refine (nodup_of_tryPush hq).mpr ⟨fun hmem => ?_, h.bqCall⟩
    exact absurd (h.coherent.eq_of_at (show s.At k .calls from hmem) hk) (by simp)

section Hand

variable {pc : Pc} {old new : Place m n}

/-- A thread goes on: elsewhere than at the places of its hands nothing changes. -/
theorem hand_rest (hx : ∀ j g, (s.pipe.pc t).hand = some (j, g) → old = .hand t g)
    (hy : ∀ j g, pc.hand = some (j, g) → new = .hand t g) {t' : Thread n} {g : Hand}
    (h1 : .hand t' g ≠ old) (h2 : .hand t' g ≠ new) (j : CallId) :
    (Function.update s.pipe.pc t pc t').hand = some (j, g) ↔
      (s.pipe.pc t').hand = some (j, g) := by
  rw [hand_update]
  split
  · next ht =>
    rw [ht] at h1 h2 ⊢
    exact iff_of_false (fun he => h2 (hy j g he).symm) fun he => h1 (hx j g he).symm
  · rfl

theorem hand_out {g : Hand} (hx : (s.pipe.pc t).hand = some (k, g))
    (hy : ∀ j, pc.hand ≠ some (j, g)) (j : CallId) :
    (Function.update s.pipe.pc t pc t).hand = some (j, g) ↔
      (s.pipe.pc t).hand = some (j, g) ∧ j ≠ k := by
  rw [Function.update_self, hx]
  refine iff_of_false (hy j) fun he => he.2 ?_
  exact ((Prod.mk.inj (Option.some_inj.mp he.1)).1).symm

theorem hand_in {g : Hand} (hx : ∀ j, (s.pipe.pc t).hand ≠ some (j, g)) (hy : pc.hand = some (k, g))
    (j : CallId) : (Function.update s.pipe.pc t pc t).hand = some (j, g) ↔
      (s.pipe.pc t).hand = some (j, g) ∨ j = k := by
  rw [Function.update_self, hy, or_iff_right (hx j), eq_comm]
  simp

theorem popCall (h : Placed s) {h' : Fin n} {q : List CallId}
    (hpc : s.pipe.pc (.handler h') = .idle) (hq : s.pipe.bqCall = k :: q) :
    Placed (s.setPipe (s.pipe.popCall h' k q)) := by
  have hk : s.At k .calls := State.at_calls hq
  have hnodup : k ∉ q ∧ q.Nodup := by rw [← List.nodup_cons, ← hq]; exact h.bqCall
  have hx : ∀ j g, (s.pipe.pc (.handler h')).hand ≠ some (j, g) := by
    rw [hpc]
    exact fun j g he => by cases he
  refine ⟨h.move .calls (.hand (.handler h') .holding) rfl hk (by simp) (fun j p h1 h2 h3 h4 => ?_)
    (fun j => ?_) (hand_in (fun j => hx j _) rfl), hnodup.2, h.respondQueue⟩
  · cases p with
    | calls => exact absurd rfl h1
    | hand t g =>
      exact hand_rest (fun j g he => absurd he (hx j g)) (fun j g he => by cases he; rfl) h1 h2 j
    | sent => exact absurd rfl h3
    | dropped => exact absurd rfl h4
    | _ => exact Iff.rfl
  · show j ∈ q ↔ j ∈ s.pipe.bqCall ∧ j ≠ k
    rw [hq, List.mem_cons]
    constructor
    · intro hj
      exact ⟨.inr hj, fun hjk => hnodup.1 (hjk ▸ hj)⟩
    · rintro ⟨hj, hne⟩
      exact hj.resolve_left hne

variable {s' : State m n}

theorem keep (h : Placed s) {g g' : Hand} (hl : s'.listener = s.listener)
    (hcalls : s'.pipe.bqCall = s.pipe.bqCall) (hqueue : s'.pipe.respondQueue = s.pipe.respondQueue)
    (hlast : s'.pipe.lastCall = s.pipe.lastCall)
    (hpc : s'.pipe.pc = Function.update s.pipe.pc t pc)
    (hplace : s'.pipe.place = Function.update s.pipe.place k (.hand t g'))
    (hx : (s.pipe.pc t).hand = some (k, g)) (hy : pc.hand = some (k, g')) (hne : g ≠ g') :
    Placed s' := by
  refine ⟨h.move (.hand t g) (.hand t g') hplace hx (fun he => ?_) (fun j p h1 h2 h3 h4 => ?_)
    (fun j => ?_) (fun j => ?_), hcalls ▸ h.bqCall, hqueue ▸ h.respondQueue⟩
  · cases he
    exact hne rfl
  · cases p with
    | unread => show s'.pipe.lastCall ≤ j ↔ _; rw [hlast]; rfl
    | reader r => show (s'.listener.readers r).pc.call = _ ↔ _; rw [hl]; rfl
    | calls => show j ∈ s'.pipe.bqCall ↔ _; rw [hcalls]; rfl
    | responding c => show j ∈ s'.pipe.respondQueue c ↔ _; rw [hqueue]; rfl
    | hand t' g'' =>
      show (s'.pipe.pc t').hand = _ ↔ _
      rw [hpc]
      refine hand_rest (fun j g he => ?_) (fun j g he => ?_) h1 h2 j
      · rw [hx] at he; cases he; rfl
      · rw [hy] at he; cases he; rfl
    | sent => exact absurd rfl h3
    | dropped => exact absurd rfl h4
  · show (s'.pipe.pc t).hand = _ ↔ _
    rw [hpc]
    exact hand_out hx (fun j he => by rw [hy] at he; cases he; exact hne rfl) j
  · show (s'.pipe.pc t).hand = _ ↔ _
    rw [hpc]
    exact hand_in (fun j he => by rw [hx] at he; cases he; exact hne rfl) hy j

theorem settle (h : Placed s) {g : Hand} (hl : s'.listener = s.listener)
    (hcalls : s'.pipe.bqCall = s.pipe.bqCall) (hqueue : s'.pipe.respondQueue = s.pipe.respondQueue)
    (hlast : s'.pipe.lastCall = s.pipe.lastCall)
    (hpc : s'.pipe.pc = Function.update s.pipe.pc t pc)
    (hplace : s'.pipe.place = Function.update s.pipe.place k new)
    (hx : (s.pipe.pc t).hand = some (k, g)) (hy : pc.hand = none)
    (hnew : new = .sent ∨ new = .dropped) : Placed s' := by
  have hrec : ∀ j, s'.pipe.place j = new ↔ s.pipe.place j = new ∨ j = k := by
    intro j
    rw [hplace, Function.update_apply]
    split
    · next hj => exact iff_of_true rfl (.inr hj)
    · next hj => exact (or_iff_left hj).symm
  refine ⟨h.move (.hand t g) new hplace hx (fun he => ?_) (fun j p h1 h2 h3 h4 => ?_)
    (fun j => ?_) (fun j => ?_), hcalls ▸ h.bqCall, hqueue ▸ h.respondQueue⟩
  · rw [← he] at hnew
    rcases hnew with he | he <;> cases he
  · cases p with
    | unread => show s'.pipe.lastCall ≤ j ↔ _; rw [hlast]; rfl
    | reader r => show (s'.listener.readers r).pc.call = _ ↔ _; rw [hl]; rfl
    | calls => show j ∈ s'.pipe.bqCall ↔ _; rw [hcalls]; rfl
    | responding c => show j ∈ s'.pipe.respondQueue c ↔ _; rw [hqueue]; rfl
    | hand t' g' =>
      show (s'.pipe.pc t').hand = _ ↔ _
      rw [hpc]
      refine hand_rest (fun j g he => ?_) (fun j g he => ?_) h1 h2 j
      · rw [hx] at he; cases he; rfl
      · rw [hy] at he; cases he
    | sent => exact absurd rfl h3
    | dropped => exact absurd rfl h4
  · show (s'.pipe.pc t).hand = _ ↔ _
    rw [hpc]
    exact hand_out hx (fun j he => by rw [hy] at he; cases he) j
  · rcases hnew with rfl | rfl <;> exact hrec j

theorem mem_update_queue (f : ConnId → List CallId) (c : ConnId) (q : List CallId) (c' : ConnId)
    (j : CallId) : j ∈ Function.update f c q c' ↔ if c' = c then j ∈ q else j ∈ f c' := by
  rw [Function.update_apply]
  split <;> rfl

theorem nodup_update_queue {f : ConnId → List CallId} {q : List CallId} (hf : ∀ c, (f c).Nodup)
    (hq : q.Nodup) (c' : ConnId) : (Function.update f c q c').Nodup := by
  rw [Function.update_apply]
  split
  · exact hq
  · exact hf c'

theorem enqueue (h : Placed s) {g : Hand} {q : List CallId} (hx : (s.pipe.pc t).hand = some (k, g))
    (hy : pc.hand = none)
    (hq : tryPush Connection.maxRespondSize (s.pipe.respondQueue c) k true = some q) :
    Placed (s.setPipe (s.pipe.enqueue t c k q pc)) := by
  have hat : ∀ c' j, j ∈ (s.pipe.enqueue t c k q pc).respondQueue c' ↔
      j ∈ s.pipe.respondQueue c' ∨ c' = c ∧ j = k := by
    intro c' j
    refine (mem_update_queue _ _ _ _ _).trans ?_
    split
    · next hc => rw [mem_of_tryPush hq, hc]; simp [or_comm]
    · next hc => simp [hc]
  refine ⟨h.move (.hand t g) (.responding c) rfl hx (by simp) (fun j p h1 h2 h3 h4 => ?_)
    (hand_out hx fun j he => by rw [hy] at he; cases he) (fun j => ?_), h.bqCall,
    nodup_update_queue h.respondQueue
      ((nodup_of_tryPush hq).mpr ⟨fun hmem => ?_, h.respondQueue c⟩)⟩
  · cases p with
    | responding c' =>
      refine (hat c' j).trans (or_iff_left fun hc => h2 ?_)
      rw [hc.1]
    | hand t' g' =>
      refine hand_rest (fun j g he => ?_) (fun j g he => ?_) h1 h2 j
      · rw [hx] at he; cases he; rfl
      · rw [hy] at he; cases he
    | sent => exact absurd rfl h3
    | dropped => exact absurd rfl h4
    | _ => exact Iff.rfl
  · refine (hat c j).trans (or_congr Iff.rfl ?_)
    exact and_iff_right rfl
  · exact absurd (h.coherent.eq_of_at (show s.At k (.responding c) from hmem)
      (show s.At k (.hand t g) from hx)) (by simp)

theorem dequeue (h : Placed s) {q : List CallId} (hpc : s.pipe.pc t = .popping c)
    (hq : s.pipe.respondQueue c = k :: q) : Placed (s.setPipe (s.pipe.dequeue t c k q)) := by
  have hk : s.At k (.responding c) := by
    show k ∈ s.pipe.respondQueue c
    rw [hq]
    exact List.mem_cons_self
  have hnodup : k ∉ q ∧ q.Nodup := by rw [← List.nodup_cons, ← hq]; exact h.respondQueue c
  have hx : ∀ j g, (s.pipe.pc t).hand ≠ some (j, g) := by
    rw [hpc]
    exact fun j g he => by cases he
  have hat : ∀ c' j, j ∈ (s.pipe.dequeue t c k q).respondQueue c' ↔
      j ∈ s.pipe.respondQueue c' ∧ ¬(c' = c ∧ j = k) := by
    intro c' j
    refine (mem_update_queue _ _ _ _ _).trans ?_
    split
    · next hc =>
      rw [hc, hq, List.mem_cons]
      constructor
      · intro hj
        exact ⟨.inr hj, fun he => hnodup.1 (he.2 ▸ hj)⟩
      · rintro ⟨hj, hne⟩
        exact hj.resolve_left fun he => hne ⟨rfl, he⟩
    · next hc => exact (and_iff_left fun he => hc he.1).symm
  refine ⟨h.move (.responding c) (.hand t (.popped c)) rfl hk (by simp)
    (fun j p h1 h2 h3 h4 => ?_) (fun j => ?_) (hand_in (fun j => hx j _) rfl), h.bqCall,
    nodup_update_queue h.respondQueue hnodup.2⟩
  · cases p with
    | responding c' =>
      refine (hat c' j).trans (and_iff_left fun hc => h1 ?_)
      rw [hc.1]
    | hand t' g =>
      exact hand_rest (fun j g he => absurd he (hx j g)) (fun j g he => by cases he; rfl) h1 h2 j
    | sent => exact absurd rfl h3
    | dropped => exact absurd rfl h4
    | _ => exact Iff.rfl
  · refine (hat c j).trans (and_congr_right' (not_congr ?_))
    exact and_iff_right rfl

end Hand

end Placed

theorem Moves.placed {s s' : State m n} {a : Action m n} (hm : Moves s a s') (h : Placed s) :
    Placed s' := by
  cases hm with
  | accept => exact h.setListener_of_readers rfl
  | create => exact h.setListener_of_readers rfl
  | reuse => exact h.setListener_of_readers rfl
  | readError => exact h.setListener_of_readers rfl
  | added => exact h.setListener rfl rfl
  | retry => exact h.setListener_of_readers rfl
  | readersFull =>
    refine Placed.abort ?_ _
    exact h.setListener_of_readers rfl
  | popConn hpc => exact h.setListener rfl (by rw [hpc]; rfl)
  | readCall hpc => exact h.newCall hpc
  | readFails hpc => exact h.setListener rfl (by rw [hpc]; rfl)
  | pushCall hpc hq => exact h.pushCall hpc hq
  | rearm hpc => exact h.setListener rfl (by rw [hpc]; rfl)
  | rearmThrows hpc => exact h.setListener rfl (by rw [hpc]; rfl)
  | closeConnection hpc => exact h.setListener rfl (by rw [hpc]; rfl)
  | closeThrows hpc => exact h.setListener rfl (by rw [hpc]; rfl)
  | popCall hpc hq => exact h.popCall hpc hq
  | execute hpc => exact h.keep rfl rfl rfl rfl rfl rfl (by rw [hpc]; rfl) rfl (by simp)
  | died hpc => exact h.keep rfl rfl rfl rfl rfl rfl (by rw [hpc]; rfl) rfl (by simp)
  | pushRespond hpc hq => exact h.enqueue (by rw [hpc]; rfl) rfl hq
  | sizeOne hpc => exact h.setPc (by rw [hpc]; rfl)
  | sizeMore hpc => exact h.setPc (by rw [hpc]; rfl)
  | pushToken hpc => exact h.setTokens (by rw [hpc]; rfl)
  | popToken hpc => exact h.setTokens (by rw [hpc]; rfl)
  | lookup hpc => exact h.setPc (by rw [hpc]; rfl)
  | lookupFails => exact h.abort _
  | tryPop hpc hq => exact h.dequeue hpc hq
  | tryPopFails hpc => exact (h.setPc (by rw [hpc]; rfl)).failed _
  | again hpc => exact h.keep rfl rfl rfl rfl rfl rfl (by rw [hpc]; rfl) rfl (by simp)
  | sent hpc => exact h.settle rfl rfl rfl rfl rfl rfl (by rw [hpc]; rfl) rfl (.inl rfl)
  | writeFails hpc => exact h.settle rfl rfl rfl rfl rfl rfl (by rw [hpc]; rfl) rfl (.inr rfl)
  | requeue hpc hq => exact h.enqueue (by rw [hpc]; rfl) rfl hq
  | requeueFails hpc => exact h.settle rfl rfl rfl rfl rfl rfl (by rw [hpc]; rfl) rfl (.inr rfl)
  | retoken hpc => exact h.setTokens (by rw [hpc]; rfl)
  | abort => exact h.abort _

theorem placed_of_reachable {s : State m n} (h : (system m n).Reachable s) : Placed s :=
  h.invariant (by rintro _ rfl; exact Placed.start) fun _ _ _ hI _ hs =>
    (State.moves_of_step hs).2.placed hI

end PRpc.Server
