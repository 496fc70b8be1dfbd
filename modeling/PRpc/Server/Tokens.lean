import PRpc.Server.Records

/-!
# The endpoints in `_bq_respond` are work tokens

A handler that finds more than its own call in the response queue leaves an endpoint in
`_bq_respond`; otherwise it pops the queue itself, whatever is at its front by then. Both ways the
books balance: a response queue holds as many calls as there are endpoints of its connection in
`_bq_respond` and threads that still have to pop it or to push such an endpoint (`Tokens.balance`).
So nobody who pops a response queue finds it empty, and no response is left behind.
-/

namespace PRpc.Server

open Queue

variable {m n : ℕ}

/-- The pops and endpoints that a thread owes to the response queue of a connection `c` with the
endpoint `e`. -/
def Pc.owes (e : Ep) (c : ConnId) : Pc → ℕ
  | .idle => 0
  | .holding _ => 0
  | .valued _ => 0
  | .died _ => 0
  | .sizing c' => if c' = c then 1 else 0
  | .queueing c' => if c' = c then 1 else 0
  | .lookup e' => if e' = e then 1 else 0
  | .popping c' => if c' = c then 1 else 0
  | .popped _ _ => 0
  | .requeue _ _ => 0
  | .token c' => if c' = c then 1 else 0

/-- The connection for which a thread owes something. -/
def Pc.conn : Pc → Option ConnId
  | .sizing c => some c
  | .queueing c => some c
  | .popping c => some c
  | .token c => some c
  | _ => none

/-- The thread is somewhere between the push of a call into a response queue and the end of a
pass, or has an endpoint. -/
def Pc.Inside : Pc → Prop
  | .idle => False
  | .holding _ => False
  | .valued _ => False
  | .died _ => False
  | _ => True

instance : DecidablePred Pc.Inside
  | .idle | .holding _ | .valued _ | .died _ => .isFalse id
  | .sizing _ | .queueing _ | .lookup _ | .popping _ | .popped _ _ | .requeue _ _ | .token _ =>
    .isTrue trivial

/-- What all threads owe to a connection. -/
def State.owed (s : State m n) (c : ConnId) : ℕ :=
  Count.total (Pc.owes (s.listener.endpoint c) c) s.pipe.pc

/-- The endpoints in flight belong to connections. -/
structure Known (l : Listener m) (p : Pipeline m n) : Prop where
  conn : ∀ t c, (p.pc t).conn = some c → c < l.lastConnectionIndex
  lookup : ∀ t e, p.pc t = .lookup e → ∃ c < l.lastConnectionIndex, l.endpoint c = e
  token : ∀ e ∈ p.bqRespond, ∃ c < l.lastConnectionIndex, l.endpoint c = e

/-- The calls in a response queue are matched by endpoints and by what the threads owe. -/
structure Tokens (s : State m n) : Prop where
  known : Known s.listener s.pipe
  balance : ∀ c < s.listener.lastConnectionIndex, (s.pipe.respondQueue c).length =
    s.pipe.bqRespond.count (s.listener.endpoint c) + s.owed c

theorem Tokens.start : Tokens (State.start m n) where
  known :=
    ⟨fun _ _ h => (by cases h), fun _ _ h => (by cases h), fun _ h => absurd h List.not_mem_nil⟩
  balance _ hc := absurd hc (Nat.not_lt_zero _)

/-! ## Endpoints that are known -/

namespace Known

variable {l l' : Listener m} {p p' : Pipeline m n}

theorem mono (h : Known l p) (hindex : l.lastConnectionIndex ≤ l'.lastConnectionIndex)
    (hep : ∀ c < l.lastConnectionIndex, l'.endpoint c = l.endpoint c) : Known l' p where
  conn t c hc := (h.conn t c hc).trans_le hindex
  lookup t e he := by
    obtain ⟨c, hc, hce⟩ := h.lookup t e he
    exact ⟨c, hc.trans_le hindex, (hep c hc).trans hce⟩
  token e he := by
    obtain ⟨c, hc, hce⟩ := h.token e he
    exact ⟨c, hc.trans_le hindex, (hep c hc).trans hce⟩

theorem step (h : Known l p) (t : Thread n) (pc : Pc) (hpc : p'.pc = Function.update p.pc t pc)
    (hconn : ∀ c, pc.conn = some c → c < l.lastConnectionIndex)
    (hlookup : ∀ e, pc = .lookup e → ∃ c < l.lastConnectionIndex, l.endpoint c = e)
    (htoken : ∀ e ∈ p'.bqRespond, e ∈ p.bqRespond ∨ ∃ c < l.lastConnectionIndex, l.endpoint c = e) :
    Known l p' where
  conn t' c hc := by
    rw [hpc, Function.update_apply] at hc
    split at hc
    · exact hconn c hc
    · exact h.conn t' c hc
  lookup t' e he := by
    rw [hpc, Function.update_apply] at he
    split at he
    · exact hlookup e he
    · exact h.lookup t' e he
  token e he := (htoken e he).elim (h.token e) id

end Known

/-! ## The balance -/

theorem State.owed_setPc (s s' : State m n) (t : Thread n) (pc : Pc)
    (hl : s'.listener = s.listener) (hpc : s'.pipe.pc = Function.update s.pipe.pc t pc)
    (c : ConnId) :
    s'.owed c + (s.pipe.pc t).owes (s.listener.endpoint c) c =
      s.owed c + pc.owes (s.listener.endpoint c) c := by
  unfold owed
  rw [hl, hpc]
  exact Count.total_update _ _ _ _

theorem State.owes_le_owed (s : State m n) (t : Thread n) (c : ConnId) :
    (s.pipe.pc t).owes (s.listener.endpoint c) c ≤ s.owed c :=
  Count.le_total (Pc.owes (s.listener.endpoint c) c) s.pipe.pc t

namespace Tokens

variable {s s' : State m n} {t : Thread n} {pc : Pc} {c : ConnId}

theorem setListener (h : Tokens s) (hp : s'.pipe.pc = s.pipe.pc)
    (hq : s'.pipe.respondQueue = s.pipe.respondQueue) (hb : s'.pipe.bqRespond = s.pipe.bqRespond)
    (hindex : s'.listener.lastConnectionIndex = s.listener.lastConnectionIndex)
    (hep : s'.listener.endpoint = s.listener.endpoint) : Tokens s' where
  known := by
    obtain ⟨h1, h2, h3⟩ := h.known
    refine ⟨?_, ?_, ?_⟩
    · rw [hp, hindex]; exact h1
    · rw [hp, hindex, hep]; exact h2
    · rw [hb, hindex, hep]; exact h3
  balance c hc := by
    unfold State.owed
    rw [hindex] at hc
    rw [hp, hq, hb, hep]
    exact h.balance c hc

theorem setPc (h : Tokens s) (hl : s'.listener = s.listener)
    (hpc : s'.pipe.pc = Function.update s.pipe.pc t pc)
    (hq : s'.pipe.respondQueue = s.pipe.respondQueue) (hb : s'.pipe.bqRespond = s.pipe.bqRespond)
    (hconn : pc.conn = (s.pipe.pc t).conn) (hlookup : ∀ e, pc ≠ .lookup e)
    (howes : ∀ e c, pc.owes e c = (s.pipe.pc t).owes e c) : Tokens s' where
  known := by
    rw [hl]
    refine h.known.step t pc hpc (fun c hc => h.known.conn t c (hconn ▸ hc))
      (fun e he => absurd he (hlookup e)) fun e he => .inl ?_
    rwa [hb] at he
  balance c hc := by
    rw [hl] at hc
    have ho := State.owed_setPc s s' t pc hl hpc c
    have hbal := h.balance c hc
    rw [hq, hb, hl]
    rw [howes] at ho
    omega

/-- A call enters the response queue of a connection, and its thread owes for it. -/
theorem enqueue (h : Tokens s) {k : CallId} {q : List CallId}
    (hc : c < s.listener.lastConnectionIndex)
    (hq : tryPush Connection.maxRespondSize (s.pipe.respondQueue c) k true = some q)
    (hold : ∀ e c', (s.pipe.pc t).owes e c' = 0) (hconn : pc.conn = some c)
    (howes : ∀ e c', pc.owes e c' = if c = c' then 1 else 0) :
    Tokens (s.setPipe (s.pipe.enqueue t c k q pc)) where
  known := by
    refine h.known.step t pc rfl (fun c' hc' => ?_) (fun e he => ?_)
      fun e he => .inl he
    · rw [hconn] at hc'
      cases hc'
      exact hc
    · rw [he] at hconn
      cases hconn
  balance c' hc' := by
    have ho := State.owed_setPc s (s.setPipe (s.pipe.enqueue t c k q pc)) t pc rfl rfl c'
    have hbal := h.balance c' hc'
    rw [hold, howes] at ho
    show (Function.update s.pipe.respondQueue c q c').length =
      s.pipe.bqRespond.count (s.listener.endpoint c') + _
    by_cases hcc : c = c'
    · subst hcc
      rw [Function.update_self, length_of_tryPush hq]
      rw [if_pos rfl] at ho
      omega
    · rw [Function.update_of_ne (Ne.symm hcc)]
      rw [if_neg hcc] at ho
      omega

/-- A call leaves the response queue, and its thread owes nothing any more. -/
theorem dequeue (h : Tokens s) {k : CallId} {q : List CallId} (hpc : s.pipe.pc t = .popping c)
    (hq : s.pipe.respondQueue c = k :: q) : Tokens (s.setPipe (s.pipe.dequeue t c k q)) where
  known := h.known.step t (.popped c k) rfl (fun _ he => by cases he)
    (fun _ he => by cases he) fun _ he => .inl he
  balance c' hc' := by
    have ho := State.owed_setPc s (s.setPipe (s.pipe.dequeue t c k q)) t (.popped c k) rfl rfl c'
    have hbal := h.balance c' hc'
    rw [hpc, Pc.owes, Pc.owes] at ho
    show (Function.update s.pipe.respondQueue c q c').length =
      s.pipe.bqRespond.count (s.listener.endpoint c') + _
    by_cases hcc : c = c'
    · subst hcc
      rw [Function.update_self]
      rw [hq, List.length_cons] at hbal
      rw [if_pos rfl] at ho
      omega
    · rw [Function.update_of_ne (Ne.symm hcc)]
      rw [if_neg hcc] at ho
      omega

theorem pushToken (h : Tokens s) (hl : s.listener.Owned) {q : List Ep} {back : Bool}
    (hconn : (s.pipe.pc t).conn = some c)
    (howes : ∀ e c', (s.pipe.pc t).owes e c' = if c = c' then 1 else 0)
    (hq : tryPush Responder.maxRespondSize s.pipe.bqRespond (s.listener.endpoint c) back = some q) :
    Tokens (s.setPipe (s.pipe.setTokens t .idle q)) where
  known := by
    have hc := h.known.conn t c hconn
    refine h.known.step t .idle rfl (fun _ he => by cases he)
      (fun _ he => by cases he) fun e he => ?_
    rcases (mem_of_tryPush hq).mp he with rfl | he
    · exact .inr ⟨c, hc, rfl⟩
    · exact .inl he
  balance c' hc' := by
    have ho := State.owed_setPc s (s.setPipe (s.pipe.setTokens t .idle q)) t .idle rfl rfl c'
    have hbal := h.balance c' hc'
    rw [howes, Pc.owes] at ho
    show (s.pipe.respondQueue c').length = q.count (s.listener.endpoint c') + _
    rw [count_of_tryPush hq]
    by_cases hcc : c = c'
    · rw [if_pos hcc] at ho
      rw [if_pos (congrArg _ hcc)]
      omega
    · have hne : s.listener.endpoint c ≠ s.listener.endpoint c' := fun he =>
        hcc (hl.inj c (h.known.conn t c hconn) c' hc' he)
      rw [if_neg hcc] at ho
      rw [if_neg hne]
      omega

/-- The responder has taken an endpoint and owes a pop for it. -/
theorem popToken (h : Tokens s) {e : Ep} {q : List Ep} (hpc : s.pipe.pc .responder = .idle)
    (hq : s.pipe.bqRespond = e :: q) :
    Tokens (s.setPipe (s.pipe.setTokens .responder (.lookup e) q)) where
  known := by
    refine h.known.step .responder (.lookup e) rfl (fun _ he => by cases he)
      (fun e' he => ?_) fun e' he => .inl ?_
    · cases he
      exact h.known.token e (by rw [hq]; exact List.mem_cons_self)
    · rw [hq]
      exact List.mem_cons_of_mem _ he
  balance c hc := by
    have ho := State.owed_setPc s (s.setPipe (s.pipe.setTokens .responder (.lookup e) q)) .responder
      (.lookup e) rfl rfl c
    have hbal := h.balance c hc
    rw [hpc, Pc.owes, Pc.owes] at ho
    rw [hq, List.count_cons] at hbal
    simp only [beq_iff_eq] at hbal
    show (s.pipe.respondQueue c).length = q.count (s.listener.endpoint c) + _
    omega

/-- The responder has found the connection that its endpoint belongs to. -/
theorem lookup (h : Tokens s) (hl : s.listener.Owned) {e : Ep}
    (hpc : s.pipe.pc .responder = .lookup e) (hc : s.listener.connections e = some c) :
    Tokens (s.setPipe (s.pipe.setPc .responder (.popping c))) where
  known := by
    obtain ⟨hlt, -⟩ := hl.entry e c hc
    refine h.known.step .responder (.popping c) rfl (fun c' he => ?_)
      (fun _ he => by cases he) fun _ he => .inl he
    cases he
    exact hlt
  balance c' hc' := by
    obtain ⟨hlt, hce⟩ := hl.entry e c hc
    have ho := State.owed_setPc s (s.setPipe (s.pipe.setPc .responder (.popping c))) .responder
      (.popping c) rfl rfl c'
    have hbal := h.balance c' hc'
    have hiff : e = s.listener.endpoint c' ↔ c = c' := by
      rw [← hce]
      exact ⟨hl.inj c hlt c' hc', congrArg _⟩
    rw [hpc, Pc.owes, Pc.owes] at ho
    simp only [hiff] at ho
    show (s.pipe.respondQueue c').length =
      s.pipe.bqRespond.count (s.listener.endpoint c') + _
    omega

theorem ne_nil (h : Tokens s) (hpc : s.pipe.pc t = .popping c) : s.pipe.respondQueue c ≠ [] := by
  have hc := h.known.conn t c (by rw [hpc]; rfl)
  have hle := s.owes_le_owed t c
  have hbal := h.balance c hc
  intro hnil
  rw [hpc, Pc.owes, if_pos rfl] at hle
  rw [hnil, List.length_nil] at hbal
  omega

theorem create (h : Tokens s) (hl : s.listener.Owned) {e : Ep} {l : Listener m}
    (he : e ∈ s.listener.pendingReads) (hc : s.listener.connections e = none)
    (hindex : l.lastConnectionIndex = s.listener.lastConnectionIndex + 1)
    (hep : l.endpoint = Function.update s.listener.endpoint s.listener.lastConnectionIndex e)
    (hnil : s.pipe.respondQueue s.listener.lastConnectionIndex = []) :
    Tokens (s.setListener l) where
  known := by
    refine h.known.mono (by show _ ≤ l.lastConnectionIndex; omega) fun c hc => ?_
    show l.endpoint c = _
    rw [hep, Function.update_of_ne (Nat.ne_of_lt hc)]
  balance c hlt := by
    have hne := fun {c} => hl.endpoint_ne (c := c) he hc
    show (s.pipe.respondQueue c).length = s.pipe.bqRespond.count (l.endpoint c) +
      Count.total (Pc.owes (l.endpoint c) c) s.pipe.pc
    rw [hep]
    change c < l.lastConnectionIndex at hlt
    rw [hindex] at hlt
    rcases Nat.lt_succ_iff_lt_or_eq.mp hlt with hlt | rfl
    · rw [Function.update_of_ne (Nat.ne_of_lt hlt)]
      exact h.balance c hlt
    · have hcount : s.pipe.bqRespond.count e = 0 := by
        refine List.count_eq_zero.mpr fun hmem => ?_
        obtain ⟨c, hlt, hce⟩ := h.known.token e hmem
        exact hne hlt hce
      have howed : Count.total (Pc.owes e s.listener.lastConnectionIndex) s.pipe.pc = 0 := by
        refine Count.total_eq_zero fun t => ?_
        have hconn := h.known.conn t
        have hlook := h.known.lookup t
        cases hpc : s.pipe.pc t with
        | lookup e' =>
          obtain ⟨c, hlt, hce⟩ := hlook e' hpc
          exact if_neg fun hee => hne hlt (hce.trans hee)
        | sizing c => exact if_neg (Nat.ne_of_lt (hconn c (by rw [hpc]; rfl)))
        | queueing c => exact if_neg (Nat.ne_of_lt (hconn c (by rw [hpc]; rfl)))
        | popping c => exact if_neg (Nat.ne_of_lt (hconn c (by rw [hpc]; rfl)))
        | token c => exact if_neg (Nat.ne_of_lt (hconn c (by rw [hpc]; rfl)))
        | _ => rfl
      rw [Function.update_self, hnil, hcount, howed]
      rfl

end Tokens

theorem Moves.tokens {s s' : State m n} {a : Action m n} (hm : Moves s a s')
    (hl : s.listener.Owned) (hp : Placed s) (hr : Recorded s) (h : Tokens s) : Tokens s' := by
  cases hm with
  | accept => exact h.setListener rfl rfl rfl rfl rfl
  | create hpc he hc =>
    exact h.create hl he hc rfl rfl (hp.respondQueue_eq_nil hr le_rfl)
  | reuse => exact h.setListener rfl rfl rfl rfl rfl
  | readError => exact h.setListener rfl rfl rfl rfl rfl
  | added => exact h.setListener rfl rfl rfl rfl rfl
  | retry => exact h.setListener rfl rfl rfl rfl rfl
  | readersFull => exact h.setListener rfl rfl rfl rfl rfl
  | popConn => exact h.setListener rfl rfl rfl rfl rfl
  | readCall => exact h.setListener rfl rfl rfl rfl rfl
  | readFails => exact h.setListener rfl rfl rfl rfl rfl
  | pushCall => exact h.setListener rfl rfl rfl rfl rfl
  | rearm => exact h.setListener rfl rfl rfl rfl rfl
  | rearmThrows => exact h.setListener rfl rfl rfl rfl rfl
  | closeConnection => exact h.setListener rfl rfl rfl rfl rfl
  | closeThrows => exact h.setListener rfl rfl rfl rfl rfl
  | popCall hpc =>
    exact h.setPc rfl rfl rfl rfl (by rw [hpc]; rfl) (fun _ he => by cases he)
      fun _ _ => by rw [hpc]; rfl
  | execute hpc =>
    exact h.setPc rfl rfl rfl rfl (by rw [hpc]; rfl) (fun _ he => by cases he)
      fun _ _ => by rw [hpc]; rfl
  | died hpc =>
    exact h.setPc rfl rfl rfl rfl (by rw [hpc]; rfl) (fun _ he => by cases he)
      fun _ _ => by rw [hpc]; rfl
  | @pushRespond h' k q hpc hq =>
    have hk : s.At k (.hand (.handler h') .valued) := State.at_hand hpc rfl
    exact h.enqueue (hr.connection k (hp.lt_lastCall hk (by simp))) hq
      (fun _ _ => by rw [hpc]; rfl) rfl fun _ _ => rfl
  | sizeOne hpc =>
    exact h.setPc rfl rfl rfl rfl (by rw [hpc]; rfl) (fun _ he => by cases he)
      fun _ _ => by rw [hpc]; rfl
  | sizeMore hpc =>
    exact h.setPc rfl rfl rfl rfl (by rw [hpc]; rfl) (fun _ he => by cases he)
      fun _ _ => by rw [hpc]; rfl
  | pushToken hpc hq =>
    exact h.pushToken hl (by rw [hpc]; rfl) (fun _ _ => by rw [hpc]; rfl) hq
  | popToken hpc hq => exact h.popToken hpc hq
  | lookup hpc hc => exact h.lookup hl hpc hc
  | lookupFails => exact h.setListener rfl rfl rfl rfl rfl
  | tryPop hpc hq => exact h.dequeue hpc hq
  | tryPopFails hpc hq => exact absurd hq (h.ne_nil hpc)
  | again hpc =>
    exact h.setPc rfl rfl rfl rfl (by rw [hpc]; rfl) (fun _ he => by cases he)
      fun _ _ => by rw [hpc]; rfl
  | sent hpc =>
    exact h.setPc rfl rfl rfl rfl (by rw [hpc]; rfl) (fun _ he => by cases he)
      fun _ _ => by rw [hpc]; rfl
  | writeFails hpc =>
    exact h.setPc rfl rfl rfl rfl (by rw [hpc]; rfl) (fun _ he => by cases he)
      fun _ _ => by rw [hpc]; rfl
  | @requeue t c k q hpc hq =>
    have hk : s.At k (.hand t (.requeue c)) := State.at_hand hpc rfl
    obtain ⟨hst, -⟩ : (s.pipe.calls k).Ready c _ _ ∧ _ := hp.stage hr hk
    have hlt := hr.connection k (hp.lt_lastCall hk (by simp))
    rw [hst.connection] at hlt
    exact h.enqueue hlt hq (fun _ _ => by rw [hpc]; rfl) rfl fun _ _ => rfl
  | requeueFails hpc =>
    exact h.setPc rfl rfl rfl rfl (by rw [hpc]; rfl) (fun _ he => by cases he)
      fun _ _ => by rw [hpc]; rfl
  | retoken hpc hq => exact h.pushToken hl (by rw [hpc]; rfl) (fun _ _ => by rw [hpc]; rfl) hq
  | abort => exact h.setListener rfl rfl rfl rfl rfl

theorem tokens_of_reachable {s : State m n} (h : (system m n).Reachable s) : Tokens s :=
  h.invariant_of (J := fun s => s.listener.Owned ∧ Placed s ∧ Recorded s)
    (fun _ hs => ⟨owned_of_reachable hs, placed_of_reachable hs, recorded_of_reachable hs⟩)
    (by rintro _ rfl; exact Tokens.start) fun _ _ _ hJ hI _ hs =>
      (State.moves_of_step hs).2.tokens hJ.1 hJ.2.1 hJ.2.2 hI

/-- **The work tokens.** The calls of a response queue are the endpoints and debts that stand for
them; a pop never meets an empty queue; nothing is stranded when nobody is at work. -/
theorem work_tokens {s : State m n} (h : (system m n).Reachable s) :
    (∀ c < s.listener.lastConnectionIndex, (s.pipe.respondQueue c).length =
      s.pipe.bqRespond.count (s.listener.endpoint c) + s.owed c) ∧
    (∀ t c, s.pipe.pc t = .popping c → s.pipe.respondQueue c ≠ []) ∧
    (s.pipe.bqRespond = [] → (∀ t, ¬ (s.pipe.pc t).Inside) → ∀ c, s.pipe.respondQueue c = []) := by
  have ht := tokens_of_reachable h
  refine ⟨ht.balance, fun t c => ht.ne_nil, fun hnil hout c => ?_⟩
  by_cases hc : c < s.listener.lastConnectionIndex
  · have hbal := ht.balance c hc
    have howed : s.owed c = 0 := by
      refine Count.total_eq_zero fun t => ?_
      have := hout t
      cases hpc : s.pipe.pc t <;> rw [hpc] at this <;> first | rfl | exact absurd trivial this
    rw [hnil, howed] at hbal
    exact List.length_eq_zero_iff.mp hbal
  · exact (placed_of_reachable h).respondQueue_eq_nil (recorded_of_reachable h)
      (Nat.le_of_not_lt hc)

/-- What arrives for a call of `FSNameSystem.create`. -/
def ping (id : CInt) : Sock :=
  ⟨Request.bytes ⟨id, ascii "FSNameSystem", ascii "create", []⟩, 0, .whole, 0, 0⟩

/-- The first and the second of two readers or handlers. -/
def t₀ : Fin 2 := 0

def t₁ : Fin 2 := 1

/-- Two calls arrive on one connection. -/
def twoCalls : List (Action 2 2) :=
  [.accept, .readable 0, .addToReader t₀, .popConn t₀, .readCall t₀ (ping 0), .pushCall t₀,
    .rearm t₀, .readable 0, .addToReader t₁, .popConn t₁, .readCall t₁ (ping 1), .pushCall t₁,
    .popCall t₀, .popCall t₁, .execute t₀, .execute t₁]

/-- Both calls are in the response queue: one endpoint is in `_bq_respond`, the other is owed. -/
theorem work_tokens_twoCalls : ∃ s : State 2 2,
    (system 2 2).run (fun _ _ => True) (.start 2 2)
      (twoCalls ++ [.pushRespond t₀, .pushRespond t₁, .size t₀, .size t₁, .pushToken t₀]) = some s ∧
    (s.pipe.respondQueue 0).length = 2 ∧ s.pipe.bqRespond.count (s.listener.endpoint 0) = 1 ∧
    (s.pipe.respondQueue 0).length =
      s.pipe.bqRespond.count (s.listener.endpoint 0) + s.owed 0 := by
  have hrun : ((system 2 2).run (fun _ _ => True) (.start 2 2)
      (twoCalls ++ [.pushRespond t₀, .pushRespond t₁, .size t₀, .size t₁, .pushToken t₀])).any
      (fun s => 0 < s.listener.lastConnectionIndex ∧ (s.pipe.respondQueue 0).length = 2 ∧
        s.pipe.bqRespond.count (s.listener.endpoint 0) = 1) = true := by decide +kernel
  obtain ⟨s, hs, hfacts⟩ := (Option.any_eq_true _ _).mp hrun
  obtain ⟨hlt, hlen, hcount⟩ := of_decide_eq_true hfacts
  exact ⟨s, hs, hlen, hcount, (work_tokens (.run (.init rfl) hs)).1 0 hlt⟩

end PRpc.Server
