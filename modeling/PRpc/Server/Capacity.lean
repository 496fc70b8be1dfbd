import PRpc.Server.Tokens
import Mathlib.Algebra.BigOperators.Group.Finset.Basic

/-!
# The capacities of the queues

While at most a hundred calls are in flight, no push finds its queue full. For `_bq_call` and the
response queues this is so because the calls in a queue are in flight, and the one to be pushed is
one more. An endpoint in `_bq_respond` stands for a call in the response queue of its connection
(`Tokens.balance`), and the thread that pushes it stands for another one.
-/

namespace PRpc.Server

open Queue

variable {m n : ℕ}

namespace State

/-- The calls that were read and are neither sent completely nor dropped. -/
def inFlightCalls (s : State m n) : Finset CallId :=
  (Finset.range s.pipe.lastCall).filter fun k =>
    s.pipe.place k ≠ .sent ∧ s.pipe.place k ≠ .dropped

def inFlight (s : State m n) : ℕ := s.inFlightCalls.card

/-- The capacity and the length of the queue that an action is about to push into. -/
def target (s : State m n) : Action m n → Option (ℕ × ℕ)
  | .pushCall r =>
    match (s.listener.readers r).pc with
    | .read _ _ => some (maxNumCalls, s.pipe.bqCall.length)
    | _ => none
  | .pushRespond h =>
    match s.pipe.pc (.handler h) with
    | .valued k =>
      some (Connection.maxRespondSize, (s.pipe.respondQueue (s.pipe.calls k).connection).length)
    | _ => none
  | .pushToken h =>
    match s.pipe.pc (.handler h) with
    | .queueing _ => some (Responder.maxRespondSize, s.pipe.bqRespond.length)
    | _ => none
  | .requeue t =>
    match s.pipe.pc t with
    | .requeue c _ => some (Connection.maxRespondSize, (s.pipe.respondQueue c).length)
    | _ => none
  | .retoken t =>
    match s.pipe.pc t with
    | .token _ => some (Responder.maxRespondSize, s.pipe.bqRespond.length)
    | _ => none
  | _ => none

end State

/-- The exits of the pushes that find their queue full. -/
def Site.noRoom : Site → Bool
  | .doRead => true
  | .handle => true
  | .doRespond => true
  | .processResponse => true
  | _ => false

namespace State

variable {s s' : State m n} {a : Action m n} {k : CallId} {c : ConnId} {site : Site}

theorem push_ne_none {α : Type} {q : List α} {x : α} {timed : Bool} {max : ℕ}
    (hroom : ∀ t ∈ s.target a, t.2 < t.1) (ht : s.target a = some (max, q.length)) :
    tryPush max q x timed ≠ none := by
  intro hq
  have hfull := of_tryPush_none hq
  have := hroom _ ht
  omega

/-- Where every push finds room, none of its exits is taken: each is the branch of a `tryPush` that
gives `none`. -/
theorem noRoom_of_act (h : s.act a = some s') (hs : s.status = .running)
    (hroom : ∀ t ∈ s.target a, t.2 < t.1) (hsite : s'.status = .aborted site) :
    site.noRoom = false := by
  have hne : s.status ≠ .aborted site := by simp [hs]
  cases a with
  | readable e =>
    obtain ⟨l, -, rfl⟩ := Option.map_eq_some_iff.mp h
    exact absurd hsite hne
  | popConn r =>
    obtain ⟨l, -, rfl⟩ := Option.map_eq_some_iff.mp h
    exact absurd hsite hne
  | pushCall r =>
    simp only [act, pushCall] at h
    split at h
    · next c k hpc =>
      split at h
      · next hq => exact absurd hq (push_ne_none hroom (by simp only [target, hpc]))
      · cases h; exact absurd hsite hne
    · cases h
  | pushRespond h' =>
    simp only [act, pushRespond] at h
    split at h
    · next k hpc =>
      split at h
      · next hq => exact absurd hq (push_ne_none hroom (by simp only [target, hpc]))
      · cases h; exact absurd hsite hne
    · cases h
  | pushToken h' =>
    simp only [act, pushToken] at h
    split at h
    · next c hpc =>
      split at h
      · next hq => exact absurd hq (push_ne_none hroom (by simp only [target, hpc]))
      · cases h; exact absurd hsite hne
    · cases h
  | retoken t =>
    simp only [act, retoken] at h
    split at h
    · next c hpc =>
      split at h
      · next hq => exact absurd hq (push_ne_none hroom (by simp only [target, hpc]))
      · cases h; exact absurd hsite hne
    · cases h
  | _ =>
    -- what remains pushes nothing, or goes on without the call (`requeue`)
    grind [act, Site.noRoom, addToReader, readCall, rearm, closeConnection, popCall, execute, size,
      popToken, lookup, tryPop, write, requeue, setListener, setPipe, abort, failed]

/-! ## Counting the calls in flight -/

theorem mem_inFlightCalls : k ∈ s.inFlightCalls ↔
    k < s.pipe.lastCall ∧ s.pipe.place k ≠ .sent ∧ s.pipe.place k ≠ .dropped := by
  unfold inFlightCalls
  rw [Finset.mem_filter, Finset.mem_range]

theorem inFlight_of_at (hp : Placed s) {p : Place m n} (hk : s.At k p) (h1 : p ≠ .unread)
    (h2 : p ≠ .sent) (h3 : p ≠ .dropped) : k ∈ s.inFlightCalls := by
  have hplace := hp.coherent.place_eq hk
  rw [mem_inFlightCalls, hplace]
  exact ⟨hp.lt_lastCall hk h1, h2, h3⟩

theorem length_le_inFlight {ks : List CallId} (hnodup : ks.Nodup)
    (hmem : ∀ k ∈ ks, k ∈ s.inFlightCalls) : ks.length ≤ s.inFlight := by
  rw [← List.toFinset_card_of_nodup hnodup]
  exact Finset.card_le_card fun k hk => hmem k (List.mem_toFinset.mp hk)

/-- The calls of a queue and one more call elsewhere. -/
theorem length_lt_inFlight {ks : List CallId} {p q : Place m n} (hp : Placed s)
    (hnodup : ks.Nodup) (hks : ∀ j ∈ ks, s.At j q) (hk : s.At k p) (hpq : p ≠ q)
    (hp' : p ≠ .unread ∧ p ≠ .sent ∧ p ≠ .dropped) (hq : q ≠ .unread ∧ q ≠ .sent ∧ q ≠ .dropped) :
    ks.length < s.inFlight := by
  have hnew : k ∉ ks := fun hmem => hpq (hp.coherent.eq_of_at hk (hks k hmem))
  have hcons : (k :: ks).Nodup := List.nodup_cons.mpr ⟨hnew, hnodup⟩
  refine length_le_inFlight hcons fun j hj => ?_
  rcases List.mem_cons.mp hj with rfl | hj
  · exact inFlight_of_at hp hk hp'.1 hp'.2.1 hp'.2.2
  · exact inFlight_of_at hp (hks j hj) hq.1 hq.2.1 hq.2.2

theorem length_bqCall_lt (hp : Placed s) {r : Fin m} (hk : s.At k (.reader r)) :
    s.pipe.bqCall.length < s.inFlight :=
  length_lt_inFlight (q := .calls) hp hp.bqCall (fun _ hj => hj) hk (by simp) (by simp) (by simp)

theorem length_respondQueue_lt (hp : Placed s) {t : Thread n} {g : Hand}
    (hk : s.At k (.hand t g)) (c : ConnId) : (s.pipe.respondQueue c).length < s.inFlight :=
  length_lt_inFlight (q := .responding c) hp (hp.respondQueue c) (fun _ hj => hj) hk (by simp)
    (by simp) (by simp)

theorem sum_length_le_inFlight (hp : Placed s) (N : ℕ) :
    ∑ c ∈ Finset.range N, (s.pipe.respondQueue c).length ≤ s.inFlight := by
  have hcard : ∀ c, (s.pipe.respondQueue c).length = (s.pipe.respondQueue c).toFinset.card :=
    fun c => (List.toFinset_card_of_nodup (hp.respondQueue c)).symm
  simp only [hcard]
  rw [← Finset.card_biUnion]
  · refine Finset.card_le_card fun k hk => ?_
    obtain ⟨c, -, hk⟩ := Finset.mem_biUnion.mp hk
    have hat : s.At k (.responding c) := List.mem_toFinset.mp hk
    exact inFlight_of_at hp hat (by simp) (by simp) (by simp)
  · intro c _ c' _ hne
    refine Finset.disjoint_left.mpr fun k hk hk' => hne ?_
    have hat : s.At k (.responding c) := List.mem_toFinset.mp hk
    have hat' : s.At k (.responding c') := List.mem_toFinset.mp hk'
    simpa using hp.coherent.eq_of_at hat hat'

theorem length_bqRespond (hl : s.listener.Owned) (ht : Tokens s) : s.pipe.bqRespond.length =
    ∑ c ∈ Finset.range s.listener.lastConnectionIndex,
      s.pipe.bqRespond.count (s.listener.endpoint c) := by
  have himage : ∀ e ∈ (s.pipe.bqRespond : Multiset Ep),
      e ∈ (Finset.range s.listener.lastConnectionIndex).image s.listener.endpoint := by
    intro e he
    obtain ⟨c, hc, rfl⟩ := ht.known.token e he
    exact Finset.mem_image_of_mem _ (Finset.mem_range.mpr hc)
  have hsum := Multiset.sum_count_eq_card himage
  rw [Finset.sum_image] at hsum
  · simpa only [Multiset.coe_count, Multiset.coe_card] using hsum.symm
  · intro c hc c' hc' hep
    exact hl.inj c (by simpa using hc) c' (by simpa using hc') hep

/-- A thread that owes an endpoint stands for a call of its own. -/
theorem length_bqRespond_lt (hl : s.listener.Owned) (hp : Placed s) (ht : Tokens s) {t : Thread n}
    (hconn : (s.pipe.pc t).conn = some c)
    (howes : (s.pipe.pc t).owes (s.listener.endpoint c) c = 1) :
    s.pipe.bqRespond.length < s.inFlight := by
  have hc := ht.known.conn t c hconn
  have hle := s.owes_le_owed t c
  rw [howes] at hle
  have hsum := sum_length_le_inFlight hp s.listener.lastConnectionIndex
  rw [length_bqRespond hl ht]
  refine Nat.lt_of_lt_of_le (Finset.sum_lt_sum (fun c' hc' => ?_)
    ⟨c, Finset.mem_range.mpr hc, ?_⟩) hsum
  · have := ht.balance c' (Finset.mem_range.mp hc')
    omega
  · have := ht.balance c hc
    omega

/-- **Inversion** of a target: a thread is about to push the call it holds into `_bq_call` or into
a response queue, or an endpoint into `_bq_respond`. -/
theorem of_target {max length : ℕ} (h : s.target a = some (max, length)) :
    (∃ k r, s.At k (.reader r) ∧ max = maxNumCalls ∧ length = s.pipe.bqCall.length) ∨
    (∃ k t g c, s.At k (.hand t g) ∧ max = Connection.maxRespondSize ∧
      length = (s.pipe.respondQueue c).length) ∨
    ∃ t c, (s.pipe.pc t).conn = some c ∧ (s.pipe.pc t).owes (s.listener.endpoint c) c = 1 ∧
      max = Responder.maxRespondSize ∧ length = s.pipe.bqRespond.length := by
  cases a with
  | pushCall r =>
    dsimp only [target] at h
    split at h
    · next c k hpc =>
      cases h
      have hk : s.At k (.reader r) := State.at_reader hpc rfl
      exact .inl ⟨k, r, hk, rfl, rfl⟩
    · cases h
  | pushRespond h' =>
    dsimp only [target] at h
    split at h
    · next k hpc =>
      cases h
      have hk : s.At k (.hand (.handler h') .valued) := State.at_hand hpc rfl
      exact .inr (.inl ⟨k, _, _, _, hk, rfl, rfl⟩)
    · cases h
  | requeue t =>
    dsimp only [target] at h
    split at h
    · next c k hpc =>
      cases h
      have hk : s.At k (.hand t (.requeue c)) := State.at_hand hpc rfl
      exact .inr (.inl ⟨k, t, _, c, hk, rfl, rfl⟩)
    · cases h
  | pushToken h' =>
    dsimp only [target] at h
    split at h
    · next c hpc =>
      cases h
      exact .inr (.inr ⟨.handler h', c, by rw [hpc]; rfl, by rw [hpc]; exact if_pos rfl, rfl, rfl⟩)
    · cases h
  | retoken t =>
    dsimp only [target] at h
    split at h
    · next c hpc =>
      cases h
      exact .inr (.inr ⟨t, c, by rw [hpc]; rfl, by rw [hpc]; exact if_pos rfl, rfl, rfl⟩)
    · cases h
  | _ => cases h

/-- **Room for every push**, while no more than a hundred calls are in flight. -/
theorem target_lt (hl : s.listener.Owned) (hp : Placed s) (ht : Tokens s)
    (hcap : s.inFlight ≤ 100) {max length : ℕ} (htarget : s.target a = some (max, length)) :
    length < max := by
  obtain ⟨k, r, hk, rfl, rfl⟩ | ⟨k, t, g, c, hk, rfl, rfl⟩ | ⟨t, c, hc, howes, rfl, rfl⟩ :=
    of_target htarget
  · exact (length_bqCall_lt hp hk).trans_le hcap
  · exact (length_respondQueue_lt hp hk c).trans_le hcap
  · exact (length_bqRespond_lt hl hp ht hc howes).trans_le hcap

end State

/-! ## Runs with a hundred calls in flight -/

/-- No push from here finds its queue full, and none has before. -/
structure Capacious (s : State m n) : Prop where
  room : ∀ a, ∀ t ∈ s.target a, t.2 < t.1
  exits : ∀ site, s.status = .aborted site → site.noRoom = false

theorem room_of_reachable {s : State m n} (h : (system m n).Reachable s)
    (hcap : s.inFlight ≤ 100) (a : Action m n) : ∀ t ∈ s.target a, t.2 < t.1 :=
  fun _ ht => State.target_lt (owned_of_reachable h) (placed_of_reachable h)
    (tokens_of_reachable h) hcap ht

/-- **A hundred calls in flight** are what the queues have room for. -/
theorem capacious_of_inFlight {s : State m n}
    (h : (system m n).Reach (fun s _ => s.inFlight ≤ 100) s) (hcap : s.inFlight ≤ 100) :
    Capacious s where
  room := room_of_reachable h.reachable hcap
  exits := by
    clear hcap
    induction h with
    | init hi =>
      subst hi
      intro site hsite
      cases hsite
    | @step s s' a hr hle hstep ih =>
      intro site hsite
      change (if s.status = .running then s.act a else none) = some s' at hstep
      split at hstep
      · next hs => exact State.noRoom_of_act hstep hs (room_of_reachable hr.reachable hle a) hsite
      · cases hstep

/-- The two calls of `twoCalls` while the second handler is about to push its endpoint. -/
theorem capacious_twoCalls : ∃ s : State 2 2,
    (system 2 2).run (fun s _ => s.inFlight ≤ 100) (.start 2 2)
      (twoCalls ++ [.pushRespond t₀, .pushRespond t₁, .size t₀, .size t₁, .pushToken t₀]) = some s ∧
    s.inFlight = 2 ∧ s.target (.pushToken t₁) = some (100, 1) ∧ Capacious s := by
  have hrun : ((system 2 2).run (fun s _ => s.inFlight ≤ 100) (.start 2 2)
      (twoCalls ++ [.pushRespond t₀, .pushRespond t₁, .size t₀, .size t₁, .pushToken t₀])).any
      (fun s => s.inFlight = 2 ∧ s.target (.pushToken t₁) = some (100, 1)) = true := by
    decide +kernel
  obtain ⟨s, hs, hfacts⟩ := (Option.any_eq_true _ _).mp hrun
  obtain ⟨htwo, htarget⟩ := of_decide_eq_true hfacts
  exact ⟨s, hs, htwo, htarget, capacious_of_inFlight (.run (.init rfl) hs) (by omega)⟩

end PRpc.Server
