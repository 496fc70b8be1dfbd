import PRpc.Completion
import PRpc.Whole

/-!
# Every call through the connection returns

With the receiver thread of the connection in its loop, no call through it hangs: if neither the
server nor the threads that are through `getConnection` can go on, each of these threads has
returned with its own result (`through_of_still`). What the threads of other connections do, and
those inside `getConnection`, does not matter.
-/

namespace PRpc

open Client (Session session Seen)
open Client.Session

/-- A frame that has arrived is a whole response. -/
theorem Sock.holdsResponse_of_frames {s : Sock} {M : Memory} {f : CInt × Bytes}
    {fs : List (CInt × Bytes)} (h : s.input = (f :: fs).flatMap frame)
    (hf : f.2.length < M.limit) : s.HoldsResponse := by
  have hinput : s.input = intBytes f.1 ++ (sizeBytes f.2.length ++ (f.2 ++ fs.flatMap frame)) := by
    rw [h, List.flatMap_cons, frame, List.append_assoc, List.append_assoc]
  have hlen : s.input.length = 12 + f.2.length + (fs.flatMap frame).length := by
    rw [hinput]
    simp only [List.length_append, length_intBytes, length_sizeBytes]
    omega
  have hsize : LittleEndian.ofLE ((s.input.drop 4).take 8) = f.2.length := by
    rw [hinput, List.drop_left' (length_intBytes _), List.take_left' (length_sizeBytes _)]
    exact ofLE_sizeBytes (hf.trans (M.lt.trans (by decide)))
  unfold HoldsResponse
  rw [hsize, hlen]
  exact ⟨by omega, by omega⟩

namespace Whole

variable {m n : ℕ} {c : Server.ConnId} {d : Client.ConnId} {s s' : Whole m n} {u : Network m n}
  {t : Session} {svc : Service Request} {rest : Bytes} {reqs : List Request}

/-- The steps of the threads that are through `getConnection`, of the connection's receiver thread
in its loop, and of the server as far as they need no other client. -/
def Due (c : Server.ConnId) (d : Client.ConnId) (s : Whole m n) : Action m n → Prop
  | .client .leave => True
  | .client (.sendCall _ ok) => ok = true
  | .client (.finish _) => True
  | .client (.waitForWork c') => c' = d
  | .client (.recvRespond c' _) => c' = d
  | .client _ => False
  | .server a => Server.Unaided s.server a ∨ a = .readable (s.server.listener.endpoint c) ∨
    (s.server.input c a).isSome

/-- The receiver thread of the connection is in its loop. -/
def Receives (d : Client.ConnId) (s : Whole m n) : Prop :=
  (∃ rep, s.client.receiver d = .waiting rep) ∨ s.client.receiver d = .receiving

/-- The server goes on exactly if that of a network with the same bytes does. -/
theorem stepServer_eq_none_iff (hserver : u.server = s.server) (hup : u.upstream = s.upstream)
    (hmemory : u.memory = s.memory) {a : Server.Action m n} :
    s.stepServer c a = none ↔ u.stepServer c a = none := by
  unfold stepServer Network.stepServer
  rw [hserver, hup, hmemory]
  cases s.server.step a with
  | none => exact iff_of_true rfl rfl
  | some server =>
    dsimp only
    cases s.server.input c a with
    | none => simp
    | some input =>
      dsimp only
      split <;> simp

theorem act_eq_none (hrun : s.client.status = .running) {a : Client.Action}
    (hnone : s.stepClient d a = none) (hsend : ∀ k, a ≠ .sendCall k false)
    (hrecv : ∀ input, a = .recvRespond d input → input = s.inbox ∧ input.HoldsResponse) :
    s.client.act a = none := by
  by_contra hsome
  obtain ⟨client, hact⟩ := Option.ne_none_iff_exists'.mp hsome
  have hstep : s.client.step a = some client := (if_pos hrun).trans hact
  unfold stepClient at hnone
  rw [hstep] at hnone
  cases a with
  | sendCall k ok =>
    cases ok with
    | false => exact hsend k rfl
    | true =>
      dsimp only at hnone
      rw [if_pos rfl] at hnone
      split at hnone <;> cases hnone
  | recvRespond c' input =>
    dsimp only at hnone
    split at hnone
    · next hc =>
      rw [if_pos (hrecv input (by rw [hc]))] at hnone
      cases hnone
    · cases hnone
  | _ => cases hnone

theorem Shown.frames_eq_nil (h : Shown d s u) (hj : Network.Joined c u t svc [] reqs)
    (hl : Linked t) (hrun : s.client.status = .running) (hreceives : Receives d s)
    (hstill : (whole m n c d).Still (Due c d) s) : t.frames = [] := by
  by_contra hf
  obtain ⟨f, fs, hfs⟩ := List.exists_cons_of_ne_nil hf
  obtain ⟨rep, hpc⟩ | hpc := hreceives
  · have hnone :=
      act_eq_none (d := d) hrun (hstill (.client (.waitForWork d)) rfl) (by simp) (by simp)
    unfold Client.State.act at hnone
    dsimp only at hnone
    rw [hpc] at hnone
    cases hnone
  · have hreceiver : t.receiver = .receiving :=
      hj.receiver_eq.trans (h.seen.receiver.trans (if_pos hpc))
    have hinput : s.inbox.input = (f :: fs).flatMap frame := by
      have hin := hl.wired.inbox
      rw [hj.inbox, List.append_nil, h.inbox, hreceiver, hfs] at hin
      exact hin
    have hholds := Sock.holdsResponse_of_frames hinput
      (hl.wired.answers f (by rw [hfs]; exact List.mem_cons_self)).2
    have hnone := act_eq_none (d := d) hrun (hstill (.client (.recvRespond d s.inbox)) rfl)
      (by simp) fun input heq => (by cases heq; exact ⟨rfl, hholds⟩)
    unfold Client.State.act at hnone
    dsimp only at hnone
    rw [if_pos hpc] at hnone
    cases hnone

/-- **No call through the connection hangs.** -/
theorem through_of_still (hm : 0 < m) (hn : 0 < n) (h : (whole m n c d).Reach (Proper c) s)
    (hserver : s.server.status = .running) (hmutex : s.server.listener.mutexConns = false)
    (halive : s.server.listener.Alive (s.server.listener.endpoint c) c)
    (hothers : ∀ r c', (s.server.listener.readers r).pc = .reading c' → c' = c)
    (hrun : s.client.status = .running) (hreceives : Receives d s)
    (hstill : (whole m n c d).Still (Due c d) s) (id : CInt) (k : Client.CallId)
    (hk : (s.client.conn d).calls.lookup id = some k) :
    s.client.caller k = .returned ∧ Network.OwnResult (s.client.call k) := by
  obtain ⟨u, hu, hR⟩ := shown_of_reach h
  obtain ⟨t, svc, rest, reqs, ht, hj⟩ := Network.joined_of_reach hu
  have hl := linked_of_reachable ht hj.made
  have hcl := client_of_reach h
  have hM := Client.managed_of_reachable hcl
  have hkey := (keyed_of_reach hu).2
  have hcall := hR.seen.call_of_lookup hM hkey hk
  -- nothing is in flight
  obtain ⟨rfl, hrequests, hpending⟩ := hj.drained (Network.server_of_reach hu) hm hn
    (by rw [hR.server]; exact hserver) (by rw [hR.server]; exact hmutex)
    (by rw [hR.server]; exact halive) (by rw [hR.server]; exact hothers)
    fun a ha => (stepServer_eq_none_iff hR.server hR.upstream hR.memory).mp (hstill (.server a) (by
      change Server.Unaided u.server a ∨ _ ∨ _ at ha
      rw [hR.server] at ha
      exact ha))
  have hframes := hR.frames_eq_nil hj hl hrun hreceives hstill
  have hsettled : t.inFlight = [] := by
    unfold inFlight
    rw [hrequests, hpending, hframes]
    rfl
  -- the thread has a step otherwise
  have hadd := hM.added d id k hk
  have hshows := hR.seen.shows k
  have hreturned : s.client.caller k = .returned := by
    unfold Client.State.Added at hadd
    cases hpc : s.client.caller k with
    | unmade | made => rw [hpc] at hadd; exact hadd.elim
    | getting =>
      rw [hpc] at hadd
      obtain ⟨g, hg, -, r, hr⟩ := hadd
      have hnone := act_eq_none (d := d) hrun (hstill (.client .leave) trivial) (by simp) (by simp)
      unfold Client.State.act at hnone
      dsimp only at hnone
      rw [show s.client.getting = some g from hg, Option.bind_some, hr] at hnone
      cases hnone
    | got c' =>
      have hnone :=
        act_eq_none (d := d) hrun (hstill (.client (.sendCall k true)) rfl) (by simp) (by simp)
      unfold Client.State.act at hnone
      dsimp only at hnone
      rw [hpc] at hnone
      cases hnone
    | waiting c' =>
      have hnone :=
        act_eq_none (d := d) hrun (hstill (.client (.finish k)) trivial) (by simp) (by simp)
      unfold Client.State.act at hnone
      dsimp only at hnone
      rw [hpc] at hnone hshows
      dsimp only at hnone
      by_cases hdone : (s.client.call k).done = true
      · rw [if_pos hdone] at hnone
        cases hnone
      · -- its id would be on the way
        have hc : c' = d := by
          by_contra hne
          have hreg := hkey.1 id k (hR.seen.calls ▸ hk)
          rw [hshows.2 hne] at hreg
          exact hreg
        have hsent := (hshows.1 hc).1
        rw [← hj.caller_eq] at hsent
        rw [← hcall, ← hj.call_eq] at hdone
        have hin := tracked_of_reachable ht hj.made k hsent (by simpa using hdone)
        rw [hsettled] at hin
        exact absurd hin List.not_mem_nil
    | returned => rfl
  -- the socket was connected when the receiver thread was started
  have hsock : (s.client.conn d).sock ≠ .unconnected := by
    have hstarted := (Client.mapped_of_reachable hcl).started d (by
      obtain ⟨rep, hpc⟩ | hpc := hreceives <;> simp [hpc])
    obtain hsock | hsock := (Client.plugged_of_reachable hcl).started d hstarted <;> simp [hsock]
  have hdone := (settled_of_reach h id k hk hreturned).resolve_right hsock
  refine ⟨hreturned, ?_⟩
  rw [← hcall] at hdone ⊢
  exact hj.ownResult hl hdone

/-! ## A run to the end -/

theorem still_of_rest (hrest : s.server.AtRest)
    (hpending : s.server.listener.endpoint c ∉ s.server.listener.pendingReads)
    (hup : s.upstream = []) (hgetting : s.client.getting = none)
    (hcallers : ∀ k, s.client.caller k = .unmade ∨ s.client.caller k = .returned)
    (hreceiver : s.client.receiver d = .receiving) (hinbox : s.inbox.input = []) :
    (whole m n c d).Still (Due c d) s := by
  intro a ha
  cases a with
  | client a =>
    have hstuck (hact : s.client.act a = none) : s.stepClient d a = none := by
      unfold stepClient Client.State.step
      rw [hact, ite_self]
    show s.stepClient d a = none
    cases a with
    | leave => exact hstuck (by simp [Client.State.act, hgetting])
    | sendCall k ok =>
      refine hstuck ?_
      obtain hk | hk := hcallers k <;> simp [Client.State.act, hk]
    | finish k =>
      refine hstuck ?_
      obtain hk | hk := hcallers k <;> simp [Client.State.act, hk]
    | waitForWork c' =>
      obtain rfl : c' = d := ha
      exact hstuck (by simp [Client.State.act, hreceiver])
    | recvRespond c' input =>
      obtain rfl : c' = d := ha
      unfold stepClient
      split
      · rfl
      · refine (if_pos rfl).trans (if_neg ?_)
        rintro ⟨rfl, h12, -⟩
        rw [hinbox] at h12
        exact absurd h12 (by decide)
    | _ => exact ha.elim
  | server a =>
    let u : Network m n := ⟨s.server, .start ⟨[], 0⟩ 0 .whole, s.upstream, s.memory⟩
    exact (stepServer_eq_none_iff (u := u) rfl rfl rfl).mpr
      (Network.stepServer_eq_none (s := u) hrest hpending hup ha)

/-- `twoEndpoints`, and the connection is with a reader again. -/
def backToReader : List (Action 2 2) := twoEndpoints ++
  [.client (.waitForWork 1), .server (.rearm Server.t₀), .server (.readable 0),
    .server (.addToReader Server.t₁), .server (.popConn Server.t₁)]

theorem through_of_still_backToReader : ∃ s,
    (whole 2 2 0 1).run (Proper 0) starting backToReader = some s ∧
    (s.client.conn 1).calls.lookup 0 = some 1 ∧ s.client.caller 1 = .returned ∧
    Network.OwnResult (s.client.call 1) := by
  have hrun : ((whole 2 2 0 1).run (Proper 0) starting backToReader).any
      (fun s =>
        (s.client.lastCall = 2 ∧ s.client.caller 0 = .returned ∧ s.client.caller 1 = .returned ∧
          s.client.getting = none ∧ s.client.receiver 1 = .receiving ∧
          s.client.status = .running ∧ (s.client.conn 1).calls.lookup 0 = some 1) ∧
        (s.inbox.input = [] ∧ s.upstream = []) ∧
        (s.server.status = .running ∧ s.server.listener.mutexConns = false) ∧
        (s.server.listener.pendingReads = [] ∧ s.server.listener.pc = .idle ∧
          (s.server.listener.readers Server.t₁).pc = .reading 0 ∧
          (∀ r, (s.server.listener.readers r).AtRest s.server.listener.mutexConns) ∧
          ∀ r, (s.server.listener.readers r).pc.conn = none ∨
            (s.server.listener.readers r).pc.conn = some 0) ∧
        s.server.pipe.bqCall = [] ∧ (∀ h, s.server.pipe.pc (.handler h) = .idle) ∧
        s.server.pipe.pc .responder = .idle ∧ s.server.pipe.bqRespond = []) = true := by
    decide +kernel
  obtain ⟨s, hs, hfacts⟩ := (Option.any_eq_true _ _).mp hrun
  obtain ⟨⟨hlast, h0, h1, hgetting, hreceiver, hclient, hid⟩, ⟨hinbox, hup⟩, ⟨hrunning, hmutex⟩,
    ⟨hpending, hl, hreading, hreaders, hothers⟩, hq, hh, hresponder⟩ := of_decide_eq_true hfacts
  have hreach : (whole 2 2 0 1).Reach (Proper 0) s := .run (.init ⟨_, _, _, rfl⟩) hs
  have hcallers : ∀ k, s.client.caller k = .unmade ∨ s.client.caller k = .returned := by
    intro k
    have hunmade := (Client.managed_of_reachable (client_of_reach hreach)).unmade k
    rw [hlast] at hunmade
    match k with
    | 0 => exact .inr h0
    | 1 => exact .inr h1
    | k + 2 => exact .inl (hunmade (Nat.le_add_left 2 k))
  have hstill := still_of_rest (c := 0) ⟨hl, hreaders, hq, hh, .inl hresponder⟩
    (by rw [hpending]; exact List.not_mem_nil) hup hgetting hcallers hreceiver hinbox
  refine ⟨s, hs, hid, through_of_still (by decide) (by decide) hreach hrunning hmutex
    (.inr (.inr ⟨Server.t₁, .inr (by rw [hreading]; rfl)⟩)) (fun r c hpc => ?_) hclient
    (.inr hreceiver) hstill 0 1 hid⟩
  have hconn := hothers r
  rw [hpc] at hconn
  obtain hconn | hconn := hconn <;> cases hconn
  rfl

end Whole

end PRpc
