import PRpc.Server.Framing

/-!
# Disconnecting clients and the responder

The responder aborts the process when the endpoint it popped is not in `_connections` any more, and
when the pass it makes fails. A reader removes a connection without a look at `_bq_respond`, so the
first is prevented only by the order of the steps: no endpoint may be on its way to a lookup when
its connection is removed, and none may be pushed afterwards (`Considerate`).
-/

namespace PRpc.Server

open Queue

variable {m n : ℕ}

/-- The endpoint will be looked up: it is in `_bq_respond`, or the responder has it. -/
def State.Awaited (s : State m n) (e : Ep) : Prop :=
  e ∈ s.pipe.bqRespond ∨ s.pipe.pc .responder = .lookup e

instance (s : State m n) (e : Ep) : Decidable (s.Awaited e) :=
  inferInstanceAs (Decidable (_ ∨ _))

/-- The connection that an action takes out of `_connections`. -/
def State.closes (s : State m n) : Action m n → Option ConnId
  | .closeConnection r => (s.listener.readers r).pc.conn
  | _ => none

/-- The connection whose endpoint an action pushes into `_bq_respond`. -/
def State.pushes (s : State m n) : Action m n → Option ConnId
  | .pushToken h => (s.pipe.pc (.handler h)).conn
  | .retoken t => (s.pipe.pc t).conn
  | _ => none

/-- No connection is removed while its endpoint is awaited, no endpoint of a removed connection is
pushed, no write of the responder fails, and the responder finds room for a call it puts back. -/
def Considerate (s : State m n) (a : Action m n) : Prop :=
  (∀ c ∈ s.closes a, ¬ s.Awaited (s.listener.endpoint c)) ∧
    (∀ c ∈ s.pushes a, s.listener.connections (s.listener.endpoint c) = some c) ∧
    (∀ w ∈ a.pass, w.1 = .responder → w.2.works = true) ∧
    (a.requeuer = some .responder → Roomy s a)

instance (s : State m n) (a : Action m n) : Decidable (Considerate s a) :=
  inferInstanceAs (Decidable (_ ∧ _ ∧ _ ∧ _))

/-- `std::abort` was not called in `respond`. -/
def Survives (s : State m n) : Prop :=
  s.status ≠ .aborted .respondLookup ∧ s.status ≠ .aborted .respondFailed

/-- The responder lives, and every endpoint it will look up is in `_connections`. -/
structure Attended (s : State m n) : Prop where
  survives : Survives s
  found : ∀ e, s.Awaited e → s.listener.connections e ≠ none

namespace Attended

variable {s s' : State m n} {e : Ep} {c : ConnId}

theorem start : Attended (State.start m n) where
  survives := by simp [Survives, State.start]
  found _ h := h.elim (fun h => absurd h List.not_mem_nil) fun h => by cases h

/-- A step after which no other endpoint is awaited and no connection is missing. -/
theorem of_awaited (h : Attended s) (hstatus : s'.status = s.status)
    (hawaited : ∀ e, s'.Awaited e → s.Awaited e)
    (hfound : ∀ e, s.listener.connections e ≠ none → s'.listener.connections e ≠ none) :
    Attended s' where
  survives := by
    unfold Survives
    rw [hstatus]
    exact h.survives
  found e he := hfound e (h.found e (hawaited e he))

theorem setListener (h : Attended s) {l : Listener m}
    (hfound : ∀ e, s.listener.connections e ≠ none → l.connections e ≠ none) :
    Attended (s.setListener l) :=
  h.of_awaited rfl (fun _ he => he) hfound

theorem setPc (h : Attended s) {t : Thread n} {pc : Pc} (hl : s'.listener = s.listener)
    (hstatus : s'.status = s.status) (hq : s'.pipe.bqRespond = s.pipe.bqRespond)
    (hpc : s'.pipe.pc = Function.update s.pipe.pc t pc) (hlookup : ∀ e, pc ≠ .lookup e) :
    Attended s' := by
  refine h.of_awaited hstatus (fun e he => ?_) fun e he => by rw [hl]; exact he
  rcases he with he | he
  · exact .inl (hq ▸ he)
  · rw [hpc, Function.update_apply] at he
    split at he
    · exact absurd he (hlookup e)
    · exact .inr he

/-- The removal of a connection whose endpoint nobody will look up. -/
theorem closeConnection (h : Attended s) {r : Fin m} (hc : ¬ s.Awaited (s.listener.endpoint c)) :
    Attended (s.setListener (s.listener.closeConnection r c)) where
  survives := h.survives
  found e he := by
    show Function.update s.listener.connections (s.listener.endpoint c) none e ≠ none
    have hne : e ≠ s.listener.endpoint c := fun heq => hc (heq ▸ he)
    rw [Function.update_of_ne hne]
    exact h.found e he

theorem pushToken (h : Attended s) {t : Thread n} {q : List Ep} {back : Bool}
    (hc : s.listener.connections (s.listener.endpoint c) = some c)
    (hq : tryPush Responder.maxRespondSize s.pipe.bqRespond (s.listener.endpoint c) back = some q) :
    Attended (s.setPipe (s.pipe.setTokens t .idle q)) where
  survives := h.survives
  found e he := by
    show s.listener.connections e ≠ none
    rcases he with he | he
    · rcases (mem_of_tryPush hq).mp he with rfl | he
      · simp [hc]
      · exact h.found e (.inl he)
    · change Function.update s.pipe.pc t .idle .responder = .lookup e at he
      rw [Function.update_apply] at he
      split at he
      · cases he
      · exact h.found e (.inr he)

theorem popToken (h : Attended s) {q : List Ep} (hq : s.pipe.bqRespond = e :: q) :
    Attended (s.setPipe (s.pipe.setTokens .responder (.lookup e) q)) := by
  refine h.of_awaited rfl (fun e' he => .inl ?_) fun _ he => he
  rw [hq]
  rcases he with he | he
  · exact List.mem_cons_of_mem _ he
  · change Function.update s.pipe.pc .responder (.lookup e) .responder = .lookup e' at he
    rw [Function.update_self] at he
    cases he
    exact List.mem_cons_self

/-- A handler goes on after a pass that failed. -/
theorem failed (h : Attended s) {t : Thread n} (ht : t ≠ .responder) : Attended (s.failed t) :=
  h.of_awaited (if_neg ht) (fun _ he => he) fun _ he => he

theorem abort (h : Attended s) {site : Site} (h1 : site ≠ .respondLookup)
    (h2 : site ≠ .respondFailed) : Attended (s.abort site) where
  survives := ⟨fun he => h1 (by cases he; rfl), fun he => h2 (by cases he; rfl)⟩
  found := h.found

end Attended

theorem Moves.attended {s s' : State m n} {a : Action m n} (hm : Moves s a s') (hp : Placed s)
    (hr : Recorded s) (ht : Tokens s) (hC : Considerate s a) (h : Attended s) : Attended s' := by
  obtain ⟨hclose, hpush, hwrite, hroom⟩ := hC
  cases hm with
  | accept => exact h.setListener fun _ he => he
  | @create e hpc he hc =>
    refine h.setListener fun e' he' => ?_
    show Function.update s.listener.connections e _ e' ≠ none
    rw [Function.update_apply]
    split
    · simp
    · exact he'
  | reuse => exact h.setListener fun _ he => he
  | readError => exact h.setListener fun _ he => he
  | added => exact h.setListener fun _ he => he
  | retry => exact h.setListener fun _ he => he
  | readersFull =>
    refine Attended.abort ?_ (by decide) (by decide)
    exact h.setListener fun _ he => he
  | popConn => exact h.setListener fun _ he => he
  | readCall => exact h.of_awaited rfl (fun _ he => he) fun _ he => he
  | readFails => exact h.setListener fun _ he => he
  | pushCall => exact h.of_awaited rfl (fun _ he => he) fun _ he => he
  | rearm => exact h.setListener fun _ he => he
  | rearmThrows => exact h.setListener fun _ he => he
  | @closeConnection r c hpc =>
    refine h.closeConnection (hclose c ?_)
    show (s.listener.readers r).pc.conn = some c
    rw [hpc]
    rfl
  | closeThrows => exact h.setListener fun _ he => he
  | popCall => exact h.setPc rfl rfl rfl rfl fun _ he => by cases he
  | execute => exact h.setPc rfl rfl rfl rfl fun _ he => by cases he
  | @died h' k hpc =>
    have hpc : Attended (s.setPipe (s.pipe.execute h' k (s.pipe.calls k) (.died k) .died)) :=
      h.setPc rfl rfl rfl rfl fun _ he => by cases he
    exact ⟨⟨fun he => (by cases he), fun he => (by cases he)⟩, hpc.found⟩
  | pushRespond => exact h.setPc rfl rfl rfl rfl fun _ he => by cases he
  | sizeOne => exact h.setPc rfl rfl rfl rfl fun _ he => by cases he
  | sizeMore => exact h.setPc rfl rfl rfl rfl fun _ he => by cases he
  | @pushToken h' c q hpc hq =>
    refine h.pushToken (hpush c ?_) hq
    show (s.pipe.pc _).conn = some c
    rw [hpc]
    rfl
  | popToken hpc hq => exact h.popToken hq
  | lookup => exact h.setPc rfl rfl rfl rfl fun _ he => by cases he
  | lookupFails hpc hc => exact absurd hc (h.found _ (.inr hpc))
  | tryPop => exact h.setPc rfl rfl rfl rfl fun _ he => by cases he
  | tryPopFails hpc hq => exact absurd hq (ht.ne_nil hpc)
  | again => exact h.setPc rfl rfl rfl rfl fun _ he => by cases he
  | sent => exact h.setPc rfl rfl rfl rfl fun _ he => by cases he
  | @writeFails t c k io bytes call hpc hlock hio hpass =>
    have hk : s.At k (.hand t (.popped c)) := State.at_hand hpc rfl
    have hst : (s.pipe.calls k).Ready c _ _ := hp.stage hr hk
    obtain ⟨hfails, -⟩ := Connection.of_failed hst.inRange hpass
    refine Attended.failed ?_ fun hrt => ?_
    · exact h.setPc rfl rfl rfl rfl fun _ he => by cases he
    · exact absurd (hfails.symm.trans (hwrite (t, io) rfl hrt)) (by simp)
  | requeue => exact h.setPc rfl rfl rfl rfl fun _ he => by cases he
  | @requeueFails t c k hpc hq =>
    refine Attended.failed ?_ fun hrt => ?_
    · exact h.setPc rfl rfl rfl rfl fun _ he => by cases he
    · refine absurd (hroom (by rw [hrt]; rfl) t rfl c (by rw [hpc]; rfl)) ?_
      exact Nat.not_lt.mpr (of_tryPush_none hq)
  | @retoken t c q hpc hq =>
    refine h.pushToken (hpush c ?_) hq
    show (s.pipe.pc t).conn = some c
    rw [hpc]
    rfl
  | abort h1 h2 => exact h.abort h1 h2

theorem attended_of_reach {s : State m n} (h : (system m n).Reach Considerate s) : Attended s :=
  h.invariant_of (J := fun s => Placed s ∧ Recorded s ∧ Tokens s)
    (fun _ hs => ⟨placed_of_reachable hs, recorded_of_reachable hs, tokens_of_reachable hs⟩)
    (by rintro _ rfl; exact Attended.start) fun _ _ _ hJ hI hC hs =>
      (State.moves_of_step hs).2.attended hJ.1 hJ.2.1 hJ.2.2 hC hI

/-- **The responder survives** every run of considerate steps. -/
theorem survives_of_considerate {s : State m n} (h : (system m n).Reach Considerate s) :
    Survives s := (attended_of_reach h).survives

/-- What a read finds when the peer is gone. -/
def peerClosed : Sock := ⟨[], 0, .whole, 0, 0⟩

/-- Two handlers have pushed the endpoint of the connection, and it is readable again. -/
def twoTokens : List (Action 2 2) := twoCalls ++
  [.rearm t₁, .pushRespond t₀, .pushRespond t₁, .size t₀, .size t₁, .pushToken t₀, .pushToken t₁,
    .readable 0, .addToReader t₀, .popConn t₀, .readCall t₀ peerClosed]

/-- The responder has sent both responses before the reader removes the connection. -/
def closedAfter : List (Action 2 2) := twoTokens ++
  [.popToken, .lookup, .tryPop .responder, .write .responder (.accepts 4), .popToken, .lookup,
    .tryPop .responder, .write .responder (.accepts 4), .closeConnection t₀]

theorem survives_closedAfter : ∃ s, (system 2 2).run Considerate (.start 2 2) closedAfter = some s ∧
    s.listener.connections 0 = none ∧ Survives s := by
  have hrun : ((system 2 2).run Considerate (.start 2 2) closedAfter).any
      (fun s => s.listener.connections 0 = none) = true := by decide +kernel
  obtain ⟨s, hs, hgone⟩ := (Option.any_eq_true _ _).mp hrun
  exact ⟨s, hs, of_decide_eq_true hgone, survives_of_considerate (.run (.init rfl) hs)⟩

/-- The reader removes the connection first. -/
theorem closed_not_survives : ¬ ∀ s, (system 2 2).Reachable s → Survives s := by
  intro h
  have hrun : ((system 2 2).run (fun _ _ => True) (.start 2 2)
      (twoTokens ++ [.closeConnection t₀, .popToken, .lookup])).any
      (fun s => s.status = .aborted .respondLookup) = true := by decide +kernel
  obtain ⟨s, hs, hstatus⟩ := (Option.any_eq_true _ _).mp hrun
  exact (h s (.run (.init rfl) hs)).1 (of_decide_eq_true hstatus)

end PRpc.Server
