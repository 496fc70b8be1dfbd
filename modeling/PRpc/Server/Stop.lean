import PRpc.Server.Answer
import PRpc.Server.Exclusive

/-!
# Stopping the server

`Server::stop` sets the flag of the listener and then waits for the readers, the handlers and the
responder, one after the other: `waitToFinish` polls the size of the queue that the thread takes its
items from, and sets the thread's flag once it is zero. A thread tests its flag only before the
next pop, and `interrupt` has no effect on the waits of the standard library.

An empty queue does not mean that the thread before it has nothing left to push. A call that was
read in time is answered at the end if at two polls nobody holds it: the one that ends the wait for
the last handler, where a reader may still hold it, and the one that ends the wait for the
responder, where a handler may (`Settled`).
-/

namespace PRpc.Server

variable {m n : ℕ}

/-- The threads with a loop `while(!_should_stop)` and a `waitToFinish`. -/
inductive Loop (m n : ℕ)
  | reader (r : Fin m)
  | thread (t : Thread n)
  deriving DecidableEq

/-- The waits of `Server::stop` after those of `Listener::stop`. -/
def Loop.afterReaders (m n : ℕ) : List (Loop m n) :=
  (List.finRange n).map (fun h => .thread (.handler h)) ++ [.thread .responder]

/-- The order of the calls of `waitToFinish`. -/
def Loop.all (m n : ℕ) : List (Loop m n) :=
  (List.finRange m).map .reader ++ Loop.afterReaders m n

/-- Where the thread in `Server::stop` is. -/
inductive StopPc (m n : ℕ)
  | uncalled
  /-- In the loop of a `waitToFinish`, with those that follow. -/
  | polling (w : Loop m n) (rest : List (Loop m n))
  /-- After the loop, before the flag is set. -/
  | setting (w : Loop m n) (rest : List (Loop m n))
  | returned
  deriving DecidableEq

namespace StopPc

/-- The next call of `waitToFinish`. -/
def next : List (Loop m n) → StopPc m n
  | [] => .returned
  | w :: rest => .polling w rest

/-- The threads whose `waitToFinish` has not left its loop. -/
def todo : StopPc m n → List (Loop m n)
  | .uncalled => Loop.all m n
  | .polling w rest => w :: rest
  | .setting _ rest => rest
  | .returned => []

/-- The threads whose flag is not set. -/
def unset : StopPc m n → List (Loop m n)
  | .uncalled => Loop.all m n
  | .polling w rest => w :: rest
  | .setting w rest => w :: rest
  | .returned => []

/-- The `waitToFinish` that polls. -/
def polls : StopPc m n → Option (Loop m n × List (Loop m n))
  | .polling w rest => some (w, rest)
  | _ => none

@[simp] theorem todo_next (ws : List (Loop m n)) : (next ws).todo = ws := by
  cases ws <;> rfl

@[simp] theorem unset_next (ws : List (Loop m n)) : (next ws).unset = ws := by
  cases ws <;> rfl

end StopPc

/-- The thread whose queue an action takes from. -/
def Action.taker : Action m n → Option (Loop m n)
  | .popConn r => some (.reader r)
  | .popCall h => some (.thread (.handler h))
  | .popToken => some (.thread .responder)
  | _ => none

/-- The completions that reach the listener thread: whether they come without an error, so that
`handle_accept` and `handle_read` look at the flag. -/
def Action.completes : Action m n → Option Bool
  | .accept => some true
  | .readable _ => some true
  | .readError _ => some false
  | _ => none

namespace State

/-- The size that `waitToFinish` polls. -/
def queueSize (s : State m n) : Loop m n → ℕ
  | .reader r => (s.listener.readers r).bqConn.length
  | .thread (.handler _) => s.pipe.bqCall.length
  | .thread .responder => s.pipe.bqRespond.length

/-- The thread is between two items. -/
def Between (s : State m n) : Loop m n → Prop
  | .reader r => (s.listener.readers r).pc = .idle
  | .thread t => s.pipe.pc t = .idle

instance (s : State m n) : DecidablePred s.Between
  | .reader r => inferInstanceAs (Decidable ((s.listener.readers r).pc = .idle))
  | .thread t => inferInstanceAs (Decidable (s.pipe.pc t = .idle))

end State

/-- The server with the thread that stops it. The last field records what happened. -/
structure Stopping (m n : ℕ) where
  server : State m n
  stop : StopPc m n
  /-- `_should_stop` of the listener. -/
  listenerStop : Bool
  /-- The listener thread has found its flag unset and goes on with a completion. -/
  handling : Bool
  shouldStop : Loop m n → Bool
  /-- The thread has found its flag unset and goes into its pop. -/
  popping : Loop m n → Bool
  /-- The calls that a reader had read completely when its flag was not set. -/
  timely : List CallId

inductive StopAction (m n : ℕ)
  | server (a : Action m n)
  /-- The test of `_should_stop` in `handle_accept` or `handle_read`. -/
  | handle
  /-- The test of `_should_stop` in the loop of a thread. -/
  | enter (w : Loop m n)
  | stop
  /-- A look at the size of the queue in `waitToFinish`. -/
  | poll
  /-- The assignment of `_should_stop` in `waitToFinish`. -/
  | set
  deriving DecidableEq

namespace Stopping

/-- The server after `Server::start`, before `Server::stop`. -/
def start (m n : ℕ) : Stopping m n where
  server := .start m n
  stop := .uncalled
  listenerStop := false
  handling := false
  shouldStop _ := false
  popping _ := false
  timely := []

/-- The calls that an action reads in time, with the state of the server after it. -/
def reads (s : Stopping m n) (a : Action m n) (server : State m n) : List CallId :=
  match a with
  | .readCall r _ =>
    if server.pipe.lastCall = s.server.pipe.lastCall ∨ s.shouldStop (.reader r) then []
    else [s.server.pipe.lastCall]
  | _ => []

/-- A step of the server's threads. A completion that finds the flag set is dropped like one with
an error. -/
def serverStep (s : Stopping m n) (a : Action m n) : Option (Stopping m n) :=
  if (∀ w ∈ a.taker, s.popping w = true) ∧ ∀ b ∈ a.completes, s.handling = b then
    (s.server.step a).map fun server =>
      { s with
        server
        handling := s.handling && a.completes.isNone
        popping := fun w => s.popping w && decide (a.taker ≠ some w)
        timely := s.reads a server ++ s.timely }
  else none

/-- What a test of a flag or the thread in `Server::stop` does. -/
def act (s : Stopping m n) : StopAction m n → Option (Stopping m n)
  | .server a => s.serverStep a
  | .handle =>
    if s.server.listener.pc = .idle ∧ s.listenerStop = false then some { s with handling := true }
    else none
  | .enter w =>
    if s.server.Between w ∧ s.shouldStop w = false then
      some { s with popping := Function.update s.popping w true }
    else none
  | .stop =>
    match s.stop with
    | .uncalled => some { s with stop := .next (Loop.all m n), listenerStop := true }
    | _ => none
  | .poll =>
    match s.stop with
    | .polling w rest =>
      if s.server.queueSize w = 0 then some { s with stop := .setting w rest } else some s
    | _ => none
  | .set =>
    match s.stop with
    | .setting w rest =>
      some { s with stop := .next rest, shouldStop := Function.update s.shouldStop w true }
    | _ => none

def step (s : Stopping m n) (a : StopAction m n) : Option (Stopping m n) :=
  if s.server.status = .running then s.act a else none

end Stopping

/-- The server with `m` readers and `n` handlers, and a thread that may call `Server::stop`. -/
def stopping (m n : ℕ) : System (Stopping m n) (StopAction m n) where
  init s := s = .start m n
  step := Stopping.step

/-! ## The condition -/

/-- At the poll that ends the wait for the last handler no reader holds a call that was read in
time; at the one that ends the wait for the responder nobody holds one, and no thread is between
the push of a call into a response queue and the end of a pass. -/
def Stopping.Ready (s : Stopping m n) (rest : List (Loop m n)) : Loop m n → Prop
  | .reader _ => True
  | .thread (.handler _) => (∀ h, .thread (.handler h) ∉ rest) →
      ∀ r, ∀ k ∈ (s.server.listener.readers r).pc.call, k ∉ s.timely
  | .thread .responder => ∀ t, ¬ (s.server.pipe.pc t).Inside ∧
      ∀ x ∈ (s.server.pipe.pc t).hand, x.1 ∉ s.timely

instance (s : Stopping m n) (rest : List (Loop m n)) : DecidablePred (s.Ready rest)
  | .reader _ => .isTrue trivial
  | .thread (.handler _) =>
    inferInstanceAs (Decidable ((∀ h, .thread (.handler h) ∉ rest) →
      ∀ r, ∀ k ∈ (s.server.listener.readers r).pc.call, k ∉ s.timely))
  | .thread .responder =>
    inferInstanceAs (Decidable (∀ t, ¬ (s.server.pipe.pc t).Inside ∧
      ∀ x ∈ (s.server.pipe.pc t).hand, x.1 ∉ s.timely))

/-- No write fails, a call that was begun finds room, and the two polls find the stages before them
empty. -/
def Settled (s : Stopping m n) : StopAction m n → Prop
  | .server a => NoWriteError s.server a ∧ Roomy s.server a
  | .poll => ∀ x ∈ s.stop.polls, s.server.queueSize x.1 = 0 → s.Ready x.2 x.1
  | _ => True

instance (s : Stopping m n) : DecidablePred (Settled s)
  | .server _ => inferInstanceAs (Decidable (_ ∧ _))
  | .poll => inferInstanceAs (Decidable (∀ x ∈ s.stop.polls, _))
  | .handle | .enter _ | .stop | .set => .isTrue trivial

/-- When `Server::stop` has returned, the calls that were read in time are answered. -/
def Drained (s : Stopping m n) : Prop :=
  s.stop = .returned → ∀ k ∈ s.timely, s.server.Answered k

/-! ## The order of the waits -/

namespace StopPc

/-- While a reader's flag is not set, nobody after the readers was waited for. -/
theorem suffix_todo {pc : StopPc m n} (h : pc.unset <:+ Loop.all m n) {r : Fin m}
    (hr : .reader r ∈ pc.unset) : Loop.afterReaders m n <:+ pc.todo := by
  have hall : Loop.afterReaders m n <:+ Loop.all m n := List.suffix_append _ _
  have hnot : .reader r ∉ Loop.afterReaders m n := by simp [Loop.afterReaders]
  have hsuffix : Loop.afterReaders m n <:+ pc.unset := by
    rcases List.suffix_or_suffix_of_suffix h hall with hle | hle
    · exact absurd (hle.subset hr) hnot
    · exact hle
  cases pc with
  | setting w rest =>
    rcases List.suffix_cons_iff.mp hsuffix with heq | hle
    · exact absurd (heq ▸ hr) hnot
    · exact hle
  | _ => exact hsuffix

theorem eq_nil_of_responder {rest : List (Loop m n)}
    (h : .thread .responder :: rest <:+ Loop.all m n) : rest = [] := by
  unfold Loop.all Loop.afterReaders at h
  rw [← List.append_assoc, List.suffix_concat_iff] at h
  rcases h with hnil | ⟨ws, heq, hws⟩
  · cases hnil
  · cases ws with
    | nil => exact (List.cons.inj heq).2
    | cons w ws =>
      have hmem : w ∈ _ := hws.subset List.mem_cons_self
      rw [← (List.cons.inj heq).1] at hmem
      simp at hmem

end StopPc

/-! ## The invariant -/

/-- What holds of the calls that were read in time as the waits come to their ends. -/
structure Draining (s : Stopping m n) : Prop where
  server : (system m n).Reachable s.server
  kept : ∀ k, s.server.pipe.place k ≠ .dropped
  made : ∀ k ∈ s.timely, k < s.server.pipe.lastCall
  order : s.stop.unset <:+ Loop.all m n
  flags : ∀ r, .reader r ∈ s.stop.unset ∨ s.shouldStop (.reader r) = true
  taken : (∀ h, .thread (.handler h) ∉ s.stop.todo) → ∀ k ∈ s.timely,
    (s.server.pipe.place k).Taken
  sent : .thread .responder ∉ s.stop.todo → ∀ k ∈ s.timely, s.server.pipe.place k = .sent

theorem Draining.start : Draining (.start m n) where
  server := .init rfl
  kept _ h := by cases h
  made _ hk := absurd hk List.not_mem_nil
  order := List.suffix_rfl
  flags r := .inl (by simp [Stopping.start, StopPc.unset, Loop.all])
  taken _ _ hk := absurd hk List.not_mem_nil
  sent _ _ hk := absurd hk List.not_mem_nil

namespace Stopping

variable {s : Stopping m n} {a : Action m n} {server : State m n} {k : CallId}

/-- A call that is read in time is the one that was just made, and the flag of its reader is not
set. -/
theorem of_mem_reads (h : s.server.step a = some server) (hk : k ∈ s.reads a server) :
    k = s.server.pipe.lastCall ∧ server.pipe.lastCall = s.server.pipe.lastCall + 1 ∧
      ∃ r, s.shouldStop (.reader r) = false := by
  cases a with
  | readCall r input =>
    unfold reads at hk
    dsimp only at hk
    split at hk
    · exact absurd hk List.not_mem_nil
    · next hne =>
      obtain ⟨hlast, hflag⟩ := not_or.mp hne
      refine ⟨List.mem_singleton.mp hk, ?_, r, by simpa using hflag⟩
      cases (State.moves_of_step h).2 with
      | readCall => rfl
      | readFails => exact absurd rfl hlast
      | abort => exact absurd rfl hlast
  | _ => exact absurd hk List.not_mem_nil

end Stopping

namespace Draining

variable {s s' : Stopping m n} {k : CallId}

/-- While a reader may still read in time, the handlers and the responder are waited for. -/
theorem todo_of_flag (h : Draining s) {r : Fin m} (hr : s.shouldStop (.reader r) = false) :
    Loop.afterReaders m n <:+ s.stop.todo := by
  refine StopPc.suffix_todo h.order ((h.flags r).resolve_right ?_)
  simp [hr]

theorem serverStep (h : Draining s) (hn : 0 < n) {a : Action m n} (hw : NoWriteError s.server a)
    (hroom : Roomy s.server a) (hs : s.serverStep a = some s') : Draining s' := by
  unfold Stopping.serverStep at hs
  split at hs
  · obtain ⟨server, hstep, rfl⟩ := Option.map_eq_some_iff.mp hs
    have hm := (State.moves_of_step hstep).2
    have hp := placed_of_reachable h.server
    have hr := recorded_of_reachable h.server
    have hlast : s.server.pipe.lastCall ≤ server.pipe.lastCall := by
      cases hm <;> first | exact le_rfl | exact Nat.le_succ _
    -- what is read in time now is read while the later threads are waited for
    have hnew : ∀ {w : Loop m n}, w ∈ Loop.afterReaders m n → w ∉ s.stop.todo →
        ∀ k, k ∉ s.reads a server := by
      intro w hw hout k hk
      obtain ⟨-, -, r, hflag⟩ := Stopping.of_mem_reads hstep hk
      exact hout ((h.todo_of_flag hflag).subset hw)
    refine ⟨.step h.server trivial hstep, hm.kept hp hr hw hroom h.kept, fun k hk => ?_, h.order,
      h.flags, fun hout k hk => ?_, fun hout k hk => ?_⟩
    · rcases List.mem_append.mp hk with hk | hk
      · obtain ⟨rfl, hsucc, -⟩ := Stopping.of_mem_reads hstep hk
        show s.server.pipe.lastCall < server.pipe.lastCall
        omega
      · exact (h.made k hk).trans_le hlast
    · rcases List.mem_append.mp hk with hk | hk
      · refine absurd hk (hnew ?_ (hout ⟨0, hn⟩) k)
        simp [Loop.afterReaders]
      · exact hm.taken hp hr (h.taken hout k hk)
    · rcases List.mem_append.mp hk with hk | hk
      · refine absurd hk (hnew ?_ hout k)
        simp [Loop.afterReaders]
      · exact hm.stays_sent hp hr (h.sent hout k hk)
  · cases hs

/-- A call that was read in time has a place in the pipeline. -/
theorem taken_of_not_at (h : Draining s) (hk : k ∈ s.timely)
    (hreader : ∀ r, (s.server.listener.readers r).pc.call ≠ some k)
    (hcalls : k ∉ s.server.pipe.bqCall) : (s.server.pipe.place k).Taken := by
  have hat := fun p => (placed_of_reachable h.server).coherent k p
  cases hplace : s.server.pipe.place k with
  | unread => exact absurd (h.made k hk) (Nat.not_lt.mpr ((hat .unread).mpr hplace))
  | reader r => exact absurd ((hat (.reader r)).mpr hplace) (hreader r)
  | calls => exact absurd ((hat .calls).mpr hplace) hcalls
  | _ => trivial

/-- **The last poll**: when `_bq_respond` is empty and nobody is at work on a call that was read in
time, the calls that a handler had taken are sent. -/
theorem sent_of_ready (h : Draining s) (hnil : s.server.pipe.bqRespond = [])
    (hready : s.Ready [] (.thread .responder)) (hk : k ∈ s.timely)
    (htaken : (s.server.pipe.place k).Taken) : s.server.pipe.place k = .sent := by
  have hat := fun p => (placed_of_reachable h.server).coherent k p
  have hqueues := (work_tokens h.server).2.2 hnil fun t => (hready t).1
  cases hplace : s.server.pipe.place k with
  | sent => rfl
  | dropped => exact absurd hplace (h.kept k)
  | responding c =>
    have hmem : k ∈ s.server.pipe.respondQueue c := (hat (.responding c)).mpr hplace
    rw [hqueues c] at hmem
    exact absurd hmem List.not_mem_nil
  | hand t g => exact absurd hk ((hready t).2 (k, g) ((hat (.hand t g)).mpr hplace))
  | unread => rw [hplace] at htaken; exact htaken.elim
  | reader r => rw [hplace] at htaken; exact htaken.elim
  | calls => rw [hplace] at htaken; exact htaken.elim

theorem poll (h : Draining s) (hn : 0 < n) {w : Loop m n} {rest : List (Loop m n)}
    (hpc : s.stop = .polling w rest) (hsize : s.server.queueSize w = 0) (hready : s.Ready rest w) :
    Draining { s with stop := .setting w rest } := by
  obtain ⟨hserver, hkept, hmade, horder, hflags, htaken, hsent⟩ := h
  have h : Draining s := ⟨hserver, hkept, hmade, horder, hflags, htaken, hsent⟩
  rw [hpc] at horder hflags htaken hsent
  have hresponder : ∀ {w}, s.stop = .polling w rest → w ≠ .thread .responder →
      .thread .responder ∉ rest → ∀ k ∈ s.timely, s.server.pipe.place k = .sent := by
    intro w hpc hne hout
    refine h.sent ?_
    rw [hpc]
    exact fun hmem => (List.mem_cons.mp hmem).elim (fun he => hne he.symm) hout
  refine ⟨hserver, hkept, hmade, horder, hflags, fun hout k hk => ?_, fun hout k hk => ?_⟩
  · cases w with
    | reader r =>
      -- the handlers are still waited for
      have hsuffix : Loop.afterReaders m n <:+ (StopPc.setting (.reader r) rest).todo :=
        StopPc.suffix_todo horder List.mem_cons_self
      refine absurd (hsuffix.subset ?_) (hout ⟨0, hn⟩)
      simp [Loop.afterReaders]
    | thread t =>
      cases t with
      | handler h' =>
        refine h.taken_of_not_at hk (fun r hr => hready hout r k hr hk) ?_
        rw [List.length_eq_zero_iff.mp (show s.server.pipe.bqCall.length = 0 from hsize)]
        exact List.not_mem_nil
      | responder =>
        refine htaken (fun h' hmem => ?_) k hk
        exact (List.mem_cons.mp hmem).elim (fun he => by cases he) (hout h')
  · cases w with
    | reader r => exact hresponder hpc (by simp) hout k hk
    | thread t =>
      cases t with
      | handler h' => exact hresponder hpc (by simp) hout k hk
      | responder =>
        obtain rfl := StopPc.eq_nil_of_responder horder
        refine h.sent_of_ready (List.length_eq_zero_iff.mp hsize) hready hk ?_
        exact htaken (fun h' hmem => by simp [StopPc.todo] at hmem) k hk

theorem set (h : Draining s) {w : Loop m n} {rest : List (Loop m n)}
    (hpc : s.stop = .setting w rest) :
    Draining { s with stop := .next rest, shouldStop := Function.update s.shouldStop w true } := by
  obtain ⟨hserver, hkept, hmade, horder, hflags, htaken, hsent⟩ := h
  rw [hpc] at horder hflags htaken hsent
  refine ⟨hserver, hkept, hmade, ?_, fun r => ?_, ?_, ?_⟩
  · rw [StopPc.unset_next]
    exact (List.suffix_cons w rest).trans horder
  · rw [StopPc.unset_next]
    show _ ∨ Function.update s.shouldStop w true (.reader r) = true
    by_cases hw : Loop.reader r = w
    · rw [← hw, Function.update_self]
      exact .inr rfl
    · rw [Function.update_of_ne hw]
      exact (hflags r).imp_left fun hmem => (List.mem_cons.mp hmem).resolve_left hw
  · rw [StopPc.todo_next]
    exact htaken
  · rw [StopPc.todo_next]
    exact hsent

theorem step (h : Draining s) (hn : 0 < n) {a : StopAction m n} (hC : Settled s a)
    (hs : (stopping m n).step s a = some s') : Draining s' := by
  change (if s.server.status = .running then s.act a else none) = some s' at hs
  split at hs
  · cases a with
    | server a => exact h.serverStep hn hC.1 hC.2 hs
    | handle =>
      simp only [Stopping.act] at hs
      split at hs
      · cases hs
        exact ⟨h.server, h.kept, h.made, h.order, h.flags, h.taken, h.sent⟩
      · cases hs
    | enter w =>
      simp only [Stopping.act] at hs
      split at hs
      · cases hs
        exact ⟨h.server, h.kept, h.made, h.order, h.flags, h.taken, h.sent⟩
      · cases hs
    | stop =>
      simp only [Stopping.act] at hs
      split at hs
      · next hpc =>
        obtain ⟨hserver, hkept, hmade, horder, hflags, htaken, hsent⟩ := h
        rw [hpc] at horder hflags htaken hsent
        cases hs
        refine ⟨hserver, hkept, hmade, ?_, ?_, ?_, ?_⟩
        · rw [StopPc.unset_next]
        · rw [StopPc.unset_next]; exact hflags
        · rw [StopPc.todo_next]; exact htaken
        · rw [StopPc.todo_next]; exact hsent
      · cases hs
    | poll =>
      simp only [Stopping.act] at hs
      split at hs
      · next w rest hpc =>
        split at hs
        · next hsize =>
          cases hs
          exact h.poll hn hpc hsize (hC (w, rest) (by rw [hpc]; rfl) hsize)
        · cases hs
          exact h
      · cases hs
    | set =>
      simp only [Stopping.act] at hs
      split at hs
      · next w rest hpc => cases hs; exact h.set hpc
      · cases hs
  · cases hs

end Draining

theorem draining_of_reach (hn : 0 < n) {s : Stopping m n} (h : (stopping m n).Reach Settled s) :
    Draining s :=
  h.invariant (by rintro _ rfl; exact Draining.start) fun _ _ _ hI hC hs => hI.step hn hC hs

/-- **A settled stop drains the pipeline.** -/
theorem drained_of_settled (hn : 0 < n) {s : Stopping m n} (h : (stopping m n).Reach Settled s) :
    Drained s := by
  intro hpc k hk
  have hd := draining_of_reach hn h
  refine answered_of_sent hd.server (hd.sent ?_ k hk)
  rw [hpc]
  exact List.not_mem_nil

/-- A reader has read a call and handed it on, and a handler has popped it. -/
def oneCall : List (StopAction 2 2) :=
  [.handle, .server .accept, .handle, .server (.readable 0), .server (.addToReader t₀),
    .enter (.reader t₀), .server (.popConn t₀), .server (.readCall t₀ (ping 0)),
    .server (.pushCall t₀), .server (.rearm t₀), .enter (.thread (.handler t₀)),
    .server (.popCall t₀)]

/-- `Server::stop` finds every queue empty at its first look. -/
def stopAtOnce : List (StopAction 2 2) :=
  [.stop, .poll, .set, .poll, .set, .poll, .set, .poll, .set, .poll, .set]

/-- The handler answers the call before the server is stopped. -/
def answeredBefore : List (StopAction 2 2) := oneCall ++
  [.server (.execute t₀), .server (.pushRespond t₀), .server (.size t₀),
    .server (.tryPop (.handler t₀)), .server (.write (.handler t₀) (.accepts 1)),
    .server (.requeue (.handler t₀)), .server (.retoken (.handler t₀)),
    .enter (.thread .responder), .server .popToken, .server .lookup,
    .server (.tryPop .responder), .server (.write .responder (.accepts 3))] ++ stopAtOnce

theorem drained_answeredBefore : ∃ s, (stopping 2 2).run Settled (.start 2 2) answeredBefore =
    some s ∧ s.stop = .returned ∧ 0 ∈ s.timely ∧ Drained s := by
  have hrun : ((stopping 2 2).run Settled (.start 2 2) answeredBefore).any
      (fun s => s.stop = .returned ∧ 0 ∈ s.timely) = true := by decide +kernel
  obtain ⟨s, hs, hfacts⟩ := (Option.any_eq_true _ _).mp hrun
  obtain ⟨hpc, hmem⟩ := of_decide_eq_true hfacts
  exact ⟨s, hs, hpc, hmem, drained_of_settled (by decide) (.run (.init rfl) hs)⟩

/-- No write fails and no connection closes. -/
def Undamaged (s : Stopping m n) : StopAction m n → Prop
  | .server a => NoWriteError s.server a ∧ s.server.closing a = none
  | _ => True

instance (s : Stopping m n) : DecidablePred (Undamaged s)
  | .server _ => inferInstanceAs (Decidable (_ ∧ _))
  | .handle | .enter _ | .stop | .poll | .set => .isTrue trivial

/-- The server is stopped while the handler holds the call. -/
theorem heldCall_not_drained : ¬ ∀ s, (stopping 2 2).Reach Undamaged s → Drained s := by
  intro h
  have hrun : ((stopping 2 2).run Undamaged (.start 2 2) (oneCall ++ stopAtOnce)).any
      (fun s => s.stop = .returned ∧ 0 ∈ s.timely ∧
        (s.server.pipe.pc (.handler t₀)).hand = some (0, .holding)) = true := by decide +kernel
  obtain ⟨s, hs, hfacts⟩ := (Option.any_eq_true _ _).mp hrun
  obtain ⟨hpc, hmem, hhand⟩ := of_decide_eq_true hfacts
  have hanswered := h s (.run (.init rfl) hs) hpc 0 hmem
  have hplace := hanswered.place (.hand (.handler t₀) .holding) hhand
  cases hplace

end PRpc.Server
