import PRpc.Server.Answer

/-!
# Execution and delivery

What the invariants say about a call that a reader has handed on: it is in one place, was executed
and answered at most once, and its bytes are on one socket only, that of the connection it was read
from. The responder finds this connection although it looks it up by the endpoint.
-/

namespace PRpc.Server

variable {m n : ℕ}

/-- The places of the calls that were handed on. -/
def Place.HandedOn : Place m n → Prop
  | .unread => False
  | .reader _ => False
  | _ => True

/-- A call was read, and its reader has handed it on. -/
def State.HandedOn (s : State m n) (k : CallId) : Prop :=
  k < s.pipe.lastCall ∧ ∀ r, (s.listener.readers r).pc.call ≠ some k

/-- At most once: a call is in exactly one place of the pipeline, and once there; it was executed
at most once, its header was written at most once, and its bytes are on its own socket, the whole
frame once it is sent. -/
structure Delivered (s : State m n) (k : CallId) : Prop where
  place : ∃! p, s.At k p
  handedOn : ∀ p, s.At k p → p.HandedOn
  bqCall : s.pipe.bqCall.count k ≤ 1
  respondQueue : ∀ c, k ∈ s.pipe.respondQueue c →
    (s.pipe.calls k).connection = c ∧ (s.pipe.respondQueue c).count k = 1
  runs : s.pipe.runs k ≤ 1
  headers : s.pipe.headers k ≤ 1
  out : ∀ c b, (k, b) ∈ s.pipe.out c → (s.pipe.calls k).connection = c
  sent : s.At k .sent → s.Answered k

/-- The connection that the responder finds for an endpoint is the one whose response queue the
endpoint stands for; it holds a call. -/
def Directed (s : State m n) : Prop :=
  ∀ e, s.pipe.pc .responder = .lookup e → ∃ c < s.listener.lastConnectionIndex,
    s.listener.endpoint c = e ∧ s.pipe.respondQueue c ≠ [] ∧
      ∀ c', s.listener.connections e = some c' → c' = c

theorem directed_of_reachable {s : State m n} (h : (system m n).Reachable s) : Directed s := by
  intro e hpc
  have hl := owned_of_reachable h
  have ht := tokens_of_reachable h
  obtain ⟨c, hc, rfl⟩ := ht.known.lookup _ _ hpc
  refine ⟨c, hc, rfl, fun hnil => ?_, fun c' hf => hl.connections_endpoint hc hf⟩
  have hle := s.owes_le_owed .responder c
  have hbal := ht.balance c hc
  rw [hpc, Pc.owes, if_pos rfl] at hle
  rw [hnil, List.length_nil] at hbal
  omega

/-- **At-most-once execution, and delivery** on the right connection. -/
theorem at_most_once {s : State m n} (h : (system m n).Reachable s) :
    (∀ k, s.HandedOn k → Delivered s k) ∧ Directed s := by
  have hp := placed_of_reachable h
  have hr := recorded_of_reachable h
  refine ⟨fun k hk => ?_, directed_of_reachable h⟩
  refine ⟨hp.coherent.existsUnique k, fun p hat => ?_, List.nodup_iff_count_le_one.mp hp.bqCall k,
    fun c hmem => ⟨(hp.of_mem_respondQueue hr hmem).1,
      List.count_eq_one_of_mem (hp.respondQueue c) hmem⟩,
    (hr.stage k).runs_le, (hr.stage k).headers_le, fun c b hb => (hr.out c _ hb).2,
    fun hat => answered_of_sent h (hp.coherent.place_eq hat)⟩
  cases p with
  | unread => exact Nat.not_lt.mpr hat hk.1
  | reader r => exact hk.2 r hat
  | _ => trivial

/-- The first of two calls while its response is being sent. -/
theorem at_most_once_twoCalls : ∃ s : State 2 2,
    (system 2 2).run (fun _ _ => True) (.start 2 2) (twoCalls ++ [.pushRespond t₀, .size t₀,
      .tryPop (.handler t₀), .write (.handler t₀) (.accepts 1)]) = some s ∧
    (s.pipe.out 0).length = 13 ∧ Delivered s 0 := by
  have hrun : ((system 2 2).run (fun _ _ => True) (.start 2 2) (twoCalls ++ [.pushRespond t₀,
      .size t₀, .tryPop (.handler t₀), .write (.handler t₀) (.accepts 1)])).any
      (fun s => 0 < s.pipe.lastCall ∧ (∀ r, (s.listener.readers r).pc.call ≠ some 0) ∧
        (s.pipe.out 0).length = 13) = true := by decide +kernel
  obtain ⟨s, hs, hfacts⟩ := (Option.any_eq_true _ _).mp hrun
  obtain ⟨hlt, hreaders, hlen⟩ := of_decide_eq_true hfacts
  exact ⟨s, hs, hlen, (at_most_once (.run (.init rfl) hs)).1 0 ⟨hlt, hreaders⟩⟩

end PRpc.Server
