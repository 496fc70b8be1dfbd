import PRpc.Client.Session

/-!
# Responses reach their own callers

An id that was sent is on the wire to the server, in the server, or in a frame on its way back, and
in one of them only (`Wired`); it is in the table with a call that waits. The table has the calls in
the order of `addCall` (`Indexed`), whatever the order in which they are sent and answered. So each
frame that the receiver thread reads completes the one call whose id it carries.
-/

namespace PRpc.Client.Session

open Function

variable {s s' : Session} {a : Action} {k : CallId} {id : CInt}

/-! ## The table of calls -/

/-- The calls that have an id are in the table under it, and `last_call_index` counts them. -/
structure Indexed (s : Session) : Prop where
  unmade : ∀ k, s.caller k = .unmade ↔ s.made ≤ k
  valueClass : ∀ k, s.caller k ≠ .unmade → (s.call k).valueClass = ascii "IntWritable"
  done : ∀ k, (s.call k).done = true → s.caller k = .sent ∨ s.caller k = .returned
  index : s.conn.lastCallIndex.toNat = s.conn.calls.entries.length
  keys : ∀ id ∈ s.conn.calls, id.toNat < s.conn.lastCallIndex.toNat
  of_lookup : ∀ id k, s.conn.calls.lookup id = some k →
    (s.call k).id = id ∧ (s.caller k).Registered
  lookup : ∀ k, (s.caller k).Registered → s.conn.calls.lookup (s.call k).id = some k

namespace Indexed

theorem start (ep : Endpoint) (fresh : CInt) (memory : Memory) :
    Indexed (Session.start ep fresh memory) where
  unmade _ := ⟨fun _ => Nat.zero_le _, fun _ => rfl⟩
  valueClass _ h := absurd rfl h
  done _ h := by cases h
  index := rfl
  keys id h := absurd h (AList.notMem_empty id)
  of_lookup id k h := by cases (AList.lookup_empty (β := fun _ => CallId) id).symm.trans h
  lookup _ h := h.elim

theorem of_conn (h : Indexed s) (hconn : s'.conn = s.conn) (hmade : s'.made = s.made)
    (hcall : ∀ k, (s'.call k).id = (s.call k).id ∧ (s'.call k).valueClass = (s.call k).valueClass)
    (hcaller : ∀ k, (s'.caller k = .unmade ↔ s.caller k = .unmade) ∧
      ((s'.caller k).Registered ↔ (s.caller k).Registered))
    (hdone : ∀ k, (s'.call k).done = true → s'.caller k = .sent ∨ s'.caller k = .returned) :
    Indexed s' where
  unmade k := by rw [(hcaller k).1, hmade]; exact h.unmade k
  valueClass k hk := by
    rw [(hcall k).2]
    exact h.valueClass k fun h' => hk ((hcaller k).1.mpr h')
  done := hdone
  index := by rw [hconn]; exact h.index
  keys := by rw [hconn]; exact h.keys
  of_lookup id k hk := by
    rw [hconn] at hk
    rw [(hcall k).1, (hcaller k).2]
    exact h.of_lookup id k hk
  lookup k hk := by
    rw [hconn, (hcall k).1]
    exact h.lookup k ((hcaller k).2.mp hk)

theorem of_same (h : Indexed s) (hconn : s'.conn = s.conn) (hmade : s'.made = s.made)
    (hcall : s'.call = s.call) (hcaller : s'.caller = s.caller) : Indexed s' :=
  h.of_conn hconn hmade (fun k => by rw [hcall]; exact ⟨rfl, rfl⟩)
    (fun k => by rw [hcaller]; exact ⟨.rfl, .rfl⟩) fun k => by rw [hcall, hcaller]; exact h.done k

theorem of_update (h : Indexed s) {call : Call} {pc : CallerPc}
    (hcall : s'.call = update s.call k call) (hcaller : s'.caller = update s.caller k pc)
    (hnew : ¬ (s.caller k).Registered)
    (hunmade : ∀ j, update s.caller k pc j = .unmade ↔ s'.made ≤ j)
    (hclass : call.valueClass = ascii "IntWritable") (hdone : call.done = false)
    (hindex : s'.conn.lastCallIndex.toNat = s'.conn.calls.entries.length)
    (hkeys : ∀ id ∈ s'.conn.calls, id.toNat < s'.conn.lastCallIndex.toNat)
    (hold : ∀ id j, s'.conn.calls.lookup id = some j →
      s.conn.calls.lookup id = some j ∨ j = k ∧ call.id = id ∧ pc.Registered)
    (hmono : ∀ id j, s.conn.calls.lookup id = some j → s'.conn.calls.lookup id = some j)
    (hlookup : pc.Registered → s'.conn.calls.lookup call.id = some k) : Indexed s' where
  unmade j := by
    rw [hcaller]
    exact hunmade j
  valueClass j hj := by
    rw [hcaller] at hj
    rw [hcall]
    by_cases heq : j = k
    · rw [heq, update_self]
      exact hclass
    · rw [update_of_ne heq] at hj ⊢
      exact h.valueClass j hj
  done j hj := by
    rw [hcall] at hj
    rw [hcaller]
    by_cases heq : j = k
    · rw [heq, update_self, hdone] at hj
      cases hj
    · rw [update_of_ne heq] at hj ⊢
      exact h.done j hj
  index := hindex
  keys := hkeys
  of_lookup id j hij := by
    rw [hcall, hcaller]
    obtain hij | ⟨rfl, hid, hreg⟩ := hold id j hij
    · obtain ⟨hid, hreg⟩ := h.of_lookup id j hij
      have hne : j ≠ k := by
        rintro rfl
        exact hnew hreg
      rw [update_of_ne hne, update_of_ne hne]
      exact ⟨hid, hreg⟩
    · rw [update_self, update_self]
      exact ⟨hid, hreg⟩
  lookup j hj := by
    rw [hcaller] at hj
    rw [hcall]
    by_cases heq : j = k
    · rw [heq, update_self] at hj ⊢
      exact hlookup hj
    · rw [update_of_ne heq] at hj ⊢
      exact hmono _ _ (h.lookup j hj)

theorem newCall (h : Indexed s) (id : CInt) (param : Writable) :
    Indexed (s.newCall id param) := by
  have hun : s.caller s.made = .unmade := (h.unmade _).mpr le_rfl
  have hnew : ¬ (s.caller s.made).Registered := by
    rw [hun]
    exact fun hreg => hreg
  refine h.of_update rfl rfl hnew (fun j => ?_) rfl rfl h.index h.keys (fun _ _ hij => .inl hij)
    (fun _ _ hij => hij) fun hreg => hreg.elim
  show update s.caller s.made .made j = .unmade ↔ s.made + 1 ≤ j
  by_cases heq : j = s.made
  · rw [heq, update_self]
    simp
  · rw [update_of_ne heq, h.unmade]
    exact ⟨fun h => Nat.lt_of_le_of_ne h (Ne.symm heq), Nat.le_of_succ_le⟩

theorem lookup_injective (h : Indexed s) {id' : CInt} (h1 : s.conn.calls.lookup id = some k)
    (h2 : s.conn.calls.lookup id' = some k) : id = id' :=
  (h.of_lookup _ _ h1).1.symm.trans (h.of_lookup _ _ h2).1

theorem length_lt (h : Indexed s) (hk : s.caller k = .made) :
    s.conn.calls.entries.length < s.made := by
  let values := s.conn.calls.entries.map Sigma.snd
  have hmem : ∀ j ∈ values, (s.caller j).Registered := by
    intro j hj
    obtain ⟨⟨id, _⟩, he, rfl⟩ := List.mem_map.mp hj
    exact (h.of_lookup id _ (AList.mem_lookup_iff.mpr he)).2
  have hnodup : values.Nodup := by
    refine List.Nodup.map_on ?_ s.conn.calls.nodupKeys.nodup
    rintro ⟨id, j⟩ hx ⟨id', j'⟩ hy heq
    obtain rfl : j = j' := heq
    rw [h.lookup_injective (AList.mem_lookup_iff.mpr hx) (AList.mem_lookup_iff.mpr hy)]
  have hnew : k ∉ values := by
    intro hmk
    have := hmem k hmk
    rw [hk] at this
    exact this
  have hsub : k :: values ⊆ List.range s.made := by
    intro j hj
    refine List.mem_range.mpr (Nat.lt_of_not_le fun hle => ?_)
    have hun := (h.unmade j).mpr hle
    rcases List.mem_cons.mp hj with rfl | hj
    · rw [hk] at hun
      cases hun
    · have := hmem j hj
      rw [hun] at this
      exact this
  have hle := (List.subperm_of_subset (List.nodup_cons.mpr ⟨hnew, hnodup⟩) hsub).length_le
  rw [List.length_cons, List.length_map, List.length_range] at hle
  exact hle

theorem notMem_calls (h : Indexed s) : s.conn.lastCallIndex ∉ s.conn.calls := fun hm =>
  lt_irrefl _ (h.keys _ hm)

/-- The index does not wrap around with fewer than 2 ^ 31 calls. -/
theorem toNat_register (h : Indexed s) (hmade : s.made < 2 ^ 31) (hk : s.caller k = .made) :
    (s.register k).conn.lastCallIndex.toNat = s.conn.lastCallIndex.toNat + 1 := by
  have hlt := h.length_lt hk
  have hidx := h.index
  show (s.conn.lastCallIndex + 1).toNat = _
  rw [BitVec.toNat_add]
  refine Nat.mod_eq_of_lt ?_
  show s.conn.lastCallIndex.toNat + 1 < 2 ^ 32
  omega

/-- **`addCall`** takes an id that is not in use while there are fewer than 2 ^ 31 calls. -/
theorem register (h : Indexed s) (hmade : s.made < 2 ^ 31) (hk : s.caller k = .made) :
    Indexed (s.register k) := by
  have hfree := h.notMem_calls
  have hnext := h.toNat_register hmade hk
  have hcalls : (s.register k).conn.calls = s.conn.calls.insert s.conn.lastCallIndex k :=
    CallMap.add_of_notMem hfree k
  have hnew : ¬ (s.caller k).Registered := by
    rw [hk]
    exact fun hreg => hreg
  have hnotDone : (s.call k).done = false := by
    by_contra hd
    rw [Bool.not_eq_false] at hd
    rcases h.done k hd with hd | hd <;> rw [hk] at hd <;> cases hd
  refine h.of_update rfl rfl hnew (fun j => ?_) (h.valueClass k (by simp [hk])) hnotDone ?_
    (fun i hi => ?_) (fun i j hij => ?_) (fun _ _ hij => CallMap.lookup_add_of_lookup hij)
    fun _ => CallMap.lookup_add_self.mpr (.inl hfree)
  · show update s.caller k .added j = .unmade ↔ s.made ≤ j
    by_cases heq : j = k
    · rw [heq, update_self, ← h.unmade k, hk]
      simp
    · rw [update_of_ne heq]
      exact h.unmade j
  · rw [hnext, hcalls, AList.entries_insert_of_notMem hfree, List.length_cons, h.index]
  · rw [hcalls] at hi
    rw [hnext]
    rcases (AList.mem_insert _).mp hi with rfl | hi
    · exact Nat.lt_succ_self _
    · exact Nat.lt_succ_of_lt (h.keys i hi)
  · rcases CallMap.of_lookup_add hij with hij | ⟨rfl, rfl⟩
    · exact .inl hij
    · exact .inr ⟨rfl, rfl, trivial⟩

theorem setCaller (h : Indexed s) (pc : CallerPc) (hk : (s.caller k).Registered)
    (hpc : pc = .sent ∨ pc = .returned) : Indexed (s.setCaller k pc) := by
  refine h.of_conn rfl rfl (fun _ => ⟨rfl, rfl⟩) (fun j => ?_) fun j hj => ?_
  · show (update s.caller k pc j = .unmade ↔ _) ∧ ((update s.caller k pc j).Registered ↔ _)
    by_cases heq : j = k
    · rw [heq, update_self]
      cases hs : s.caller k <;> rw [hs] at hk <;> first | exact hk.elim | skip
      all_goals rcases hpc with rfl | rfl <;> simp [CallerPc.Registered]
    · rw [update_of_ne heq]
      exact ⟨.rfl, .rfl⟩
  · show update s.caller k pc j = .sent ∨ update s.caller k pc j = .returned
    by_cases heq : j = k
    · rw [heq, update_self]
      exact hpc
    · rw [update_of_ne heq]
      exact h.done j hj

theorem setCall (h : Indexed s) {call : Call} (hk : s.caller k = .sent)
    (hcall : s'.call = update s.call k call) (hid : call.id = (s.call k).id)
    (hclass : call.valueClass = (s.call k).valueClass) (hconn : s'.conn = s.conn)
    (hmade : s'.made = s.made) (hcaller : s'.caller = s.caller) : Indexed s' := by
  refine h.of_conn hconn hmade (fun j => ?_) (fun j => by rw [hcaller]; exact ⟨.rfl, .rfl⟩)
    fun j hj => ?_
  · rw [hcall]
    by_cases heq : j = k
    · rw [heq, update_self]
      exact ⟨hid, hclass⟩
    · rw [update_of_ne heq]
      exact ⟨rfl, rfl⟩
  · rw [hcaller]
    rw [hcall] at hj
    by_cases heq : j = k
    · exact .inl (heq ▸ hk)
    · rw [update_of_ne heq] at hj
      exact h.done j hj

end Indexed

/-! ## The ids in flight -/

/-- The ids of the requests that were sent and whose value was not read yet. -/
def inFlight (s : Session) : List CInt :=
  s.requests.map requestId ++ (s.pending ++ s.frames.map Prod.fst)

/-- A thread waits for the response with this id. -/
def Awaited (s : Session) (id : CInt) : Prop :=
  ∃ k, s.conn.calls.lookup id = some k ∧ s.caller k = .sent ∧ (s.call k).done = false

/-- An id in flight is in one place, and awaited; the bytes that arrive are those of the frames, and
the receiver thread has read the id of the first frame at most. -/
structure Wired (s : Session) : Prop where
  nodup : s.inFlight.Nodup
  awaited : ∀ id ∈ s.inFlight, s.Awaited id
  answers : ∀ f ∈ s.frames, s.answers f.1 = some f.2 ∧ f.2.length < s.inbox.memory.limit
  inbox : s.inbox.input = (s.frames.flatMap frame).drop s.receiver.taken
  current : ∀ id ∈ s.receiver.id, ∃ bs rest, s.frames = (id, bs) :: rest
  found : ∀ id k, s.receiver = .found id k → s.conn.calls.lookup id = some k

namespace Wired

theorem start (ep : Endpoint) (fresh : CInt) (memory : Memory) :
    Wired (Session.start ep fresh memory) where
  nodup := List.nodup_nil
  awaited _ h := absurd h List.not_mem_nil
  answers _ h := absurd h List.not_mem_nil
  inbox := rfl
  current _ h := by cases h
  found _ _ h := by cases h

/-- A step of a caller that puts nothing on the wire. -/
theorem of_awaited (h : Wired s) (hin : s'.inFlight = s.inFlight) (hframes : s'.frames = s.frames)
    (hinbox : s'.inbox = s.inbox) (hreceiver : s'.receiver = s.receiver)
    (hanswers : s'.answers = s.answers) (hawaited : ∀ id, s.Awaited id → s'.Awaited id)
    (hfound : ∀ id k, s.conn.calls.lookup id = some k → s'.conn.calls.lookup id = some k) :
    Wired s' where
  nodup := by rw [hin]; exact h.nodup
  awaited := by rw [hin]; exact fun id hid => hawaited id (h.awaited id hid)
  answers := by rw [hframes, hanswers, hinbox]; exact h.answers
  inbox := by rw [hinbox, hframes, hreceiver]; exact h.inbox
  current := by rw [hreceiver, hframes]; exact h.current
  found := by rw [hreceiver]; exact fun id k hk => hfound id k (h.found id k hk)

theorem of_caller (h : Wired s) {pc : CallerPc}
    (hk : ¬(s.caller k = .sent ∧ (s.call k).done = false))
    (hin : s'.inFlight = s.inFlight) (hframes : s'.frames = s.frames)
    (hinbox : s'.inbox = s.inbox) (hreceiver : s'.receiver = s.receiver)
    (hanswers : s'.answers = s.answers) (hcaller : s'.caller = update s.caller k pc)
    (hcall : ∀ j, j ≠ k → s'.call j = s.call j)
    (hfound : ∀ id j, s.conn.calls.lookup id = some j → s'.conn.calls.lookup id = some j) :
    Wired s' := by
  refine h.of_awaited hin hframes hinbox hreceiver hanswers ?_ hfound
  rintro id ⟨j, hj, hsent, hdone⟩
  have hne : j ≠ k := by
    rintro rfl
    exact hk ⟨hsent, hdone⟩
  exact ⟨j, hfound id j hj, by rw [hcaller, update_of_ne hne, hsent], by rw [hcall j hne, hdone]⟩

theorem send (h : Wired s) (hx : Indexed s) (hk : s.caller k = .added) : Wired (s.send k) := by
  have hreg : s.conn.calls.lookup (s.call k).id = some k := hx.lookup k (by rw [hk]; trivial)
  have hnew : (s.call k).id ∉ s.inFlight := by
    intro hmem
    obtain ⟨j, hj, hsent, -⟩ := h.awaited _ hmem
    rw [hreg] at hj
    cases hj
    rw [hk] at hsent
    cases hsent
  have hdone : (s.call k).done = false := by
    refine Bool.eq_false_iff.mpr fun hd => ?_
    rcases hx.done k hd with hd | hd <;> rw [hk] at hd <;> cases hd
  have hperm : ((s.send k).inFlight).Perm ((s.call k).id :: s.inFlight) := by
    show ((s.requests ++ [_]).map requestId ++ _).Perm _
    rw [List.map_append, List.append_assoc, List.map_singleton, requestId_write]
    exact List.perm_middle
  refine ⟨?_, fun id hid => ?_, h.answers, h.inbox, h.current, h.found⟩
  · exact hperm.nodup_iff.mpr (List.nodup_cons.mpr ⟨hnew, h.nodup⟩)
  · rcases List.mem_cons.mp (hperm.mem_iff.mp hid) with rfl | hid
    · exact ⟨k, hreg, update_self .., hdone⟩
    · obtain ⟨j, hj, hsent, hjd⟩ := h.awaited id hid
      refine ⟨j, hj, ?_, hjd⟩
      show update s.caller k .sent j = .sent
      rw [update_apply]
      split
      · rfl
      · exact hsent

theorem take (h : Wired s) {r : Bytes} {rest : List Bytes} (hr : s.requests = r :: rest) :
    Wired (s.take r rest) := by
  have hperm : ((s.take r rest).inFlight).Perm s.inFlight := by
    show (rest.map requestId ++ ((s.pending ++ [requestId r]) ++ _)).Perm
      (s.requests.map requestId ++ _)
    rw [hr, List.map_cons, List.append_assoc, List.singleton_append, List.cons_append,
      ← List.append_assoc]
    exact List.perm_middle.trans (by rw [List.append_assoc]; exact .rfl)
  exact ⟨hperm.nodup_iff.mpr h.nodup, fun id hid => h.awaited id (hperm.mem_iff.mp hid), h.answers,
    h.inbox, h.current, h.found⟩

theorem answer (h : Wired s) {bs : Bytes} (hid : id ∈ s.pending)
    (hbs : bs.length < s.inbox.memory.limit) : Wired (s.answer id bs) := by
  have hperm : ((s.answer id bs).inFlight).Perm s.inFlight := by
    show (s.requests.map requestId ++ (s.pending.erase id ++ (s.frames ++ [(id, bs)]).map _)).Perm _
    refine List.Perm.append_left _ ?_
    rw [List.map_append, List.map_singleton, ← List.append_assoc]
    refine (List.perm_append_singleton _ _).trans ?_
    rw [← List.cons_append]
    exact (List.perm_cons_erase hid).symm.append_right _
  have hother : ∀ f ∈ s.frames, f.1 ≠ id := by
    rintro f hf rfl
    have hd := (List.nodup_append.mp (List.nodup_append.mp h.nodup).2.1).2.2
    exact hd _ hid _ (List.mem_map_of_mem hf) rfl
  refine ⟨hperm.nodup_iff.mpr h.nodup, fun id hid => h.awaited id (hperm.mem_iff.mp hid),
    fun f hf => ?_, ?_, fun i hi => ?_, h.found⟩
  · show update s.answers id (some bs) f.1 = some f.2 ∧ _
    rcases List.mem_append.mp hf with hf | hf
    · rw [update_of_ne (hother f hf)]
      exact h.answers f hf
    · obtain rfl := List.mem_singleton.mp hf
      exact ⟨update_self .., hbs⟩
  · show s.inbox.input ++ frame (id, bs) =
      ((s.frames ++ [(id, bs)]).flatMap frame).drop s.receiver.taken
    rw [List.flatMap_append, List.flatMap_singleton, h.inbox, List.drop_append_of_le_length]
    unfold ReceiverPc.taken
    split
    · next hsome =>
      obtain ⟨i, hi⟩ := Option.isSome_iff_exists.mp hsome
      obtain ⟨b, rest, hf⟩ := h.current i hi
      rw [hf, List.flatMap_cons]
      unfold frame
      rw [List.append_assoc, List.length_append, length_intBytes]
      exact Nat.le_add_right _ _
    · exact Nat.zero_le _
  · obtain ⟨b, rest, hf⟩ := h.current i hi
    exact ⟨b, rest ++ [(id, bs)], by show s.frames ++ _ = _; rw [hf]; rfl⟩

theorem wait (h : Wired s) (hpc : s.receiver = .waiting) : Wired (s.setReceiver .receiving) := by
  have hin := h.inbox
  rw [hpc] at hin
  exact ⟨h.nodup, h.awaited, h.answers, hin, fun _ hi => (by cases hi), fun _ _ hk => by cases hk⟩

theorem receive (h : Wired s) {inbox : Sock} (hpc : s.receiver = .receiving)
    (hin : s.inbox = inbox.unread (intBytes id)) : Wired (s.receive id inbox) := by
  have hbytes : intBytes id ++ inbox.input = s.frames.flatMap frame := by
    have := h.inbox
    rw [hpc, hin] at this
    exact this
  have hfirst : ∃ bs rest, s.frames = (id, bs) :: rest := by
    cases hf : s.frames with
    | nil =>
      rw [hf] at hbytes
      have := congrArg List.length hbytes
      rw [List.length_append, length_intBytes, List.flatMap_nil, List.length_nil] at this
      omega
    | cons f rest =>
      rw [hf, List.flatMap_cons] at hbytes
      unfold frame at hbytes
      rw [List.append_assoc] at hbytes
      have hid := (List.append_inj hbytes (by rw [length_intBytes, length_intBytes])).1
      have hid : id = f.1 := by rw [← intOfBytes_intBytes id, hid, intOfBytes_intBytes]
      exact ⟨f.2, rest, by rw [hid]⟩
  have hanswers := h.answers
  rw [hin, Sock.memory_unread] at hanswers
  refine ⟨h.nodup, h.awaited, hanswers, ?_, fun i hi => ?_, fun _ _ hk => by cases hk⟩
  · show inbox.input = (s.frames.flatMap frame).drop 4
    rw [← hbytes, List.drop_left' (length_intBytes id)]
  · cases hi
    exact hfirst

theorem lookup (h : Wired s) (hpc : s.receiver = .received id)
    (hk : s.conn.calls.lookup id = some k) : Wired (s.setReceiver (.found id k)) := by
  have hin := h.inbox
  have hcur := h.current
  rw [hpc] at hin hcur
  refine ⟨h.nodup, h.awaited, h.answers, hin, hcur, fun i j hij => ?_⟩
  cases hij
  exact hk

/-- **The id is always found**: a thread waits for it. -/
theorem awaited_current (h : Wired s) (id : CInt) (hid : id ∈ s.receiver.id) : s.Awaited id := by
  obtain ⟨bs, rest, hf⟩ := h.current id hid
  refine h.awaited id (List.mem_append_right _ (List.mem_append_right _ ?_))
  rw [hf]
  exact List.mem_cons_self

end Wired

/-! ## Reading a value -/

/-- **The receiver thread reads the rest of the first frame** for the call it has found, which
waits: all of it has arrived, and nothing behind it is touched. -/
theorem recvValue_eq (hx : Indexed s) (h : Wired s) (hpc : s.receiver = .found id k) :
    ∃ bs rest inbox, s.frames = (id, bs) :: rest ∧ s.Arrived ∧
      s.inbox.input = sizeBytes bs.length ++ bs ++ inbox.input ∧
      inbox.input = rest.flatMap frame ∧
      Connection.recvValue (s.call k) s.inbox =
        (some { s.call k with value := some (.int (intOfPayload bs)), done := true }, inbox) := by
  obtain ⟨bs, rest, hf⟩ := h.current id (by rw [hpc]; rfl)
  have hbs : bs.length < s.inbox.memory.limit := by
    refine (h.answers (id, bs) ?_).2
    rw [hf]
    exact List.mem_cons_self
  have hinput : s.inbox.input = sizeBytes bs.length ++ bs ++ rest.flatMap frame := by
    have hin := h.inbox
    rw [hpc, hf, List.flatMap_cons] at hin
    unfold frame at hin
    rw [List.append_assoc] at hin
    exact hin.trans (List.drop_left' (length_intBytes id))
  have hclass : (s.call k).valueClass = ascii "IntWritable" := by
    obtain ⟨-, hreg⟩ := hx.of_lookup id k (h.found id k hpc)
    exact hx.valueClass k fun hun => by rw [hun] at hreg; exact hreg
  obtain ⟨inbox, hin, hval⟩ := Connection.recvValue_int hclass
    (s := { s.inbox with input := rest.flatMap frame }) hbs
  rw [← Sock.eq_unread hinput] at hval
  refine ⟨bs, rest, inbox, hf, ?_, ?_, hin, hval⟩
  · have hlen : s.inbox.input.length = 8 + bs.length + (rest.flatMap frame).length := by
      rw [hinput, List.length_append, List.length_append, length_sizeBytes]
    refine ⟨by omega, ?_⟩
    have hn : LittleEndian.ofLE (s.inbox.input.take 8) = bs.length := by
      rw [hinput, List.append_assoc, List.take_left' (length_sizeBytes _)]
      exact ofLE_sizeBytes (hbs.trans (s.inbox.memory.lt.trans (by decide)))
    omega
  · rw [hin]
    exact hinput

/-- One step of the receiver thread has read the rest of a frame, and has set the call whose id the
frame carries; that call was not done. -/
def Completes (s s' : Session) : Prop :=
  ∃ id k bs, s.frames = (id, bs) :: s'.frames ∧
    s.inbox.input = sizeBytes bs.length ++ bs ++ s'.inbox.input ∧
    s.conn.calls.lookup id = some k ∧ (s.call k).id = id ∧ (s.call k).done = false ∧
    s'.call = update s.call k
      { s.call k with value := some (.int (intOfPayload bs)), done := true }

/-- What a call that is done holds. -/
structure Answered (s : Session) : Prop where
  alive : s.aborted = false
  own : ∀ k, (s.call k).done = true → ∃ bs, s.answers (s.call k).id = some bs ∧
    (s.call k).value = some (.int (intOfPayload bs))
  once : ∀ k, s.completions k = if (s.call k).done = true then 1 else 0

namespace Answered

theorem start (ep : Endpoint) (fresh : CInt) (memory : Memory) :
    Answered (Session.start ep fresh memory) where
  alive := rfl
  own _ h := by cases h
  once _ := rfl

theorem of_same (h : Answered s) (halive : s'.aborted = s.aborted)
    (hanswers : s'.answers = s.answers) (hcompletions : s'.completions = s.completions)
    (hcall : s'.call = s.call) : Answered s' where
  alive := halive.trans h.alive
  own := by rw [hcall, hanswers]; exact h.own
  once := by rw [hcall, hcompletions]; exact h.once

theorem of_call (h : Answered s) {call : Call} (hcall : s'.call = update s.call k call)
    (hk : (s.call k).done = false) (hdone : call.done = false) (halive : s'.aborted = s.aborted)
    (hanswers : s'.answers = s.answers) (hcompletions : s'.completions = s.completions) :
    Answered s' where
  alive := halive.trans h.alive
  own j hj := by
    rw [hcall] at hj ⊢
    rw [hanswers]
    by_cases heq : j = k
    · rw [heq, update_self, hdone] at hj
      cases hj
    · rw [update_of_ne heq] at hj ⊢
      exact h.own j hj
  once j := by
    rw [hcall, hcompletions]
    by_cases heq : j = k
    · rw [heq, update_self, hdone, h.once k, hk]
    · rw [update_of_ne heq]
      exact h.once j

theorem answer (h : Answered s) (hx : Indexed s) {bs : Bytes} (hid : s.Awaited id) :
    Answered (s.answer id bs) where
  alive := h.alive
  own j hj := by
    show ∃ b, update s.answers id (some bs) (s.call j).id = some b ∧ _
    obtain ⟨k, hk, -, hd⟩ := hid
    have hne : (s.call j).id ≠ id := by
      rintro rfl
      have hreg : (s.caller j).Registered := by
        rcases hx.done j hj with h | h <;> rw [h] <;> trivial
      have hjk := hx.lookup j hreg
      rw [hk] at hjk
      cases hjk
      exact absurd (hj.symm.trans hd) (by decide)
    rw [update_of_ne hne]
    exact h.own j hj
  once := h.once

/-- A call is set with the value of the answer to its id. -/
theorem complete (h : Answered s) {bs : Bytes} {inbox : Sock} (hk : (s.call k).done = false)
    (hbs : s.answers (s.call k).id = some bs) : Answered (s.complete k
      { s.call k with value := some (.int (intOfPayload bs)), done := true } inbox) where
  alive := h.alive
  own j hj := by
    change (update s.call k _ j).done = true at hj
    show ∃ b, s.answers (update s.call k _ j).id = some b ∧ (update s.call k _ j).value = _
    by_cases heq : j = k
    · rw [heq, update_self]
      exact ⟨bs, hbs, rfl⟩
    · rw [update_of_ne heq] at hj ⊢
      exact h.own j hj
  once j := by
    show update s.completions k _ j = if (update s.call k _ j).done = true then 1 else 0
    by_cases heq : j = k
    · rw [heq, update_self, update_self, h.once k, hk]
      rfl
    · rw [update_of_ne heq, update_of_ne heq]
      exact h.once j

end Answered

/-! ## The runs -/

/-- The three invariants. -/
structure Linked (s : Session) : Prop where
  indexed : Indexed s
  wired : Wired s
  answered : Answered s

namespace Linked

theorem not_done (h : Linked s) (h1 : s.caller k ≠ .sent) (h2 : s.caller k ≠ .returned) :
    (s.call k).done = false :=
  Bool.eq_false_iff.mpr fun hd => (h.indexed.done k hd).elim h1 h2

/-- The id of the frame that was read is in flight no more, and no other is new. -/
theorem inFlight_complete (hn : s.inFlight.Nodup) {bs : Bytes} {rest : List (CInt × Bytes)}
    (hf : s.frames = (id, bs) :: rest) (call : Call) (inbox : Sock) :
    (s.complete k call inbox).inFlight.Sublist s.inFlight ∧
      id ∉ (s.complete k call inbox).inFlight := by
  have htail : s.frames.tail = rest := by rw [hf]; rfl
  have hafter : (s.complete k call inbox).inFlight =
      s.requests.map requestId ++ (s.pending ++ rest.map Prod.fst) := by
    rw [← htail]
    rfl
  have hbefore : s.inFlight =
      s.requests.map requestId ++ (s.pending ++ id :: rest.map Prod.fst) := by
    unfold inFlight
    rw [hf, List.map_cons]
  rw [hbefore] at hn ⊢
  rw [hafter]
  refine ⟨.append_left (.append_left (List.sublist_cons_self _ _) _) _, ?_⟩
  rw [← List.append_assoc, List.nodup_middle, List.append_assoc] at hn
  exact (List.nodup_cons.mp hn).1

theorem recvValue (h : Linked s) (hpc : s.receiver = .found id k) {call : Call} {inbox : Sock}
    (hval : Connection.recvValue (s.call k) s.inbox = (some call, inbox)) :
    Linked (s.complete k call inbox) ∧ Completes s (s.complete k call inbox) := by
  obtain ⟨bs, rest, inbox', hf, -, hbytes, hrest, hval'⟩ :=
    recvValue_eq h.indexed h.wired hpc
  rw [hval] at hval'
  cases hval'
  have hlookup := h.wired.found id k hpc
  have hid := (h.indexed.of_lookup id k hlookup).1
  obtain ⟨j, hj, hsent, hdone⟩ := h.wired.awaited_current id (by rw [hpc]; rfl)
  rw [hlookup] at hj
  cases hj
  have hans : s.answers (s.call k).id = some bs := by
    rw [hid]
    refine (h.wired.answers (id, bs) ?_).1
    rw [hf]
    exact List.mem_cons_self
  have htail : s.frames.tail = rest := by rw [hf]; rfl
  obtain ⟨hsub, hgone⟩ := inFlight_complete (k := k) h.wired.nodup hf { s.call k with
    value := some (.int (intOfPayload bs)), done := true } inbox
  refine ⟨⟨?_, ⟨?_, fun i hi => ?_, fun f hmem => ?_, ?_, fun _ h => (by cases h),
    fun _ _ h => by cases h⟩, ?_⟩, id, k, bs, ?_, hbytes, hlookup, hid, hdone, rfl⟩
  · exact h.indexed.setCall hsent rfl rfl rfl rfl rfl rfl
  · exact h.wired.nodup.sublist hsub
  · obtain ⟨j, hj, hs, hd⟩ := h.wired.awaited i (hsub.subset hi)
    have hne : j ≠ k := by
      rintro rfl
      exact hgone (h.indexed.lookup_injective hlookup hj ▸ hi)
    refine ⟨j, hj, hs, ?_⟩
    show (update s.call k _ j).done = false
    rw [update_of_ne hne]
    exact hd
  · have hanswers := h.wired.answers f (List.mem_of_mem_tail hmem)
    rwa [← Connection.recvValue_memory hval] at hanswers
  · show inbox.input = s.frames.tail.flatMap frame
    rw [htail]
    exact hrest
  · exact h.answered.complete hdone hans
  · show s.frames = (id, bs) :: s.frames.tail
    rw [htail, hf]

end Linked

theorem Moves.linked (hm : Moves s a s') (h : Linked s) (hmade : s.made < 2 ^ 31) : Linked s' := by
  cases hm with
  | @newCall id param =>
    have hun : s.caller s.made = .unmade := (h.indexed.unmade _).mpr le_rfl
    have hdone : (s.call s.made).done = false :=
      h.not_done (by simp [hun]) (by simp [hun])
    refine ⟨h.indexed.newCall id param, ?_, h.answered.of_call rfl hdone rfl rfl rfl rfl⟩
    refine h.wired.of_caller (fun hc => ?_) rfl rfl rfl rfl rfl rfl (fun j hj => update_of_ne hj ..)
      fun _ _ hj => hj
    rw [hun] at hc
    cases hc.1
  | @addCall k hk =>
    have hdone : (s.call k).done = false :=
      h.not_done (by simp [hk]) (by simp [hk])
    refine ⟨h.indexed.register hmade hk, ?_, h.answered.of_call rfl hdone hdone rfl rfl rfl⟩
    refine h.wired.of_caller (fun hc => ?_) rfl rfl rfl rfl rfl rfl (fun j hj => update_of_ne hj ..)
      fun _ _ hj => CallMap.lookup_add_of_lookup hj
    rw [hk] at hc
    cases hc.1
  | @sendCall k hk =>
    refine ⟨?_, h.wired.send h.indexed hk, h.answered.of_same rfl rfl rfl rfl⟩
    have hsent := h.indexed.setCaller (k := k) .sent (by rw [hk]; trivial) (.inl rfl)
    exact hsent.of_same rfl rfl rfl rfl
  | request hr =>
    exact ⟨h.indexed.of_same rfl rfl rfl rfl, h.wired.take hr, h.answered.of_same rfl rfl rfl rfl⟩
  | respond hid hbs =>
    refine ⟨h.indexed.of_same rfl rfl rfl rfl, h.wired.answer hid hbs,
      h.answered.answer h.indexed (h.wired.awaited _ ?_)⟩
    exact List.mem_append_right _ (List.mem_append_left _ hid)
  | waitForWork hpc =>
    exact ⟨h.indexed.of_same rfl rfl rfl rfl, h.wired.wait hpc, h.answered.of_same rfl rfl rfl rfl⟩
  | recvId hpc hin =>
    exact ⟨h.indexed.of_same rfl rfl rfl rfl, h.wired.receive hpc hin,
      h.answered.of_same rfl rfl rfl rfl⟩
  | lookup hpc hk =>
    exact ⟨h.indexed.of_same rfl rfl rfl rfl, h.wired.lookup hpc hk,
      h.answered.of_same rfl rfl rfl rfl⟩
  | @lookupFails id hpc hk =>
    obtain ⟨k, hk', -⟩ := h.wired.awaited_current id (by rw [hpc]; rfl)
    rw [hk] at hk'
    cases hk'
  | recvValue hpc hval => exact (h.recvValue hpc hval).1
  | recvFails hpc hval =>
    obtain ⟨_, _, _, -, -, -, -, hval'⟩ := recvValue_eq h.indexed h.wired hpc
    rw [hval] at hval'
    cases hval'
  | @finish k hk hdone =>
    refine ⟨h.indexed.setCaller .returned (by rw [hk]; trivial) (.inr rfl), ?_,
      h.answered.of_same rfl rfl rfl rfl⟩
    refine h.wired.of_caller (fun hc => ?_) rfl rfl rfl rfl rfl rfl (fun _ _ => rfl)
      fun _ _ hj => hj
    rw [hdone] at hc
    cases hc.2

theorem Moves.made_le (hm : Moves s a s') : s.made ≤ s'.made := by
  cases hm <;> first | exact Nat.le_refl _ | exact Nat.le_succ _

/-- The invariants hold as long as fewer than 2 ^ 31 calls were made. -/
theorem linked_of_reachable (h : session.Reachable s) (hmade : s.made < 2 ^ 31) : Linked s := by
  refine h.invariant (I := fun s => s.made < 2 ^ 31 → Linked s) ?_ ?_ hmade
  · rintro _ ⟨ep, fresh, memory, rfl⟩ -
    exact ⟨.start ep fresh memory, .start ep fresh memory, .start ep fresh memory⟩
  · intro s a s' hI _ hs hmade'
    have hm := moves_of_step hs
    have hlt := hm.made_le.trans_lt hmade'
    exact hm.linked (hI hlt) hlt

theorem Moves.call_eq (hm : Moves s a s') (h : Linked s) (ha : a ≠ .recvValue)
    (hdone : (s'.call k).done = true) : s'.call k = s.call k := by
  cases hm with
  | newCall =>
    change (update s.call s.made _ k).done = true at hdone
    show update s.call s.made _ k = s.call k
    by_cases heq : k = s.made
    · rw [heq, update_self] at hdone
      cases hdone
    · rw [update_of_ne heq]
  | @addCall j hj =>
    change (update s.call j _ k).done = true at hdone
    show update s.call j _ k = s.call k
    by_cases heq : k = j
    · rw [heq, update_self] at hdone
      have := h.not_done (k := j) (by simp [hj])
        (by simp [hj])
      exact absurd (hdone.symm.trans this) (by decide)
    · rw [update_of_ne heq]
  | recvValue => exact absurd rfl ha
  | recvFails => exact absurd rfl ha
  | _ => rfl

/-- While there is a frame, the receiver thread does not wait. -/
theorem Linked.receives (h : Linked s) (hf : s.frames ≠ []) :
    (session.step s s.receiver.next).isSome := by
  obtain ⟨f, rest, hf⟩ := List.exists_cons_of_ne_nil hf
  have hstep : session.step s = s.act := by
    show s.step = s.act
    funext a
    unfold step
    rw [if_neg (by rw [h.answered.alive]; decide)]
  rw [hstep]
  cases hpc : s.receiver with
  | waiting =>
    have hmem : f.1 ∈ s.inFlight := by
      refine List.mem_append_right _ (List.mem_append_right _ ?_)
      rw [hf]
      exact List.mem_cons_self
    obtain ⟨k, hk, -⟩ := h.wired.awaited f.1 hmem
    have hne : s.conn.calls.entries ≠ [] :=
      List.ne_nil_of_mem (AList.mem_lookup_iff.mp hk)
    simp only [ReceiverPc.next, act, hpc, hne, ne_eq, not_false_eq_true, and_self, if_true,
      Option.isSome_some]
  | receiving =>
    have hin := h.wired.inbox
    rw [hpc, hf, List.flatMap_cons] at hin
    have hin : s.inbox.input =
        intBytes f.1 ++ (sizeBytes f.2.length ++ f.2 ++ rest.flatMap frame) :=
      hin.trans (List.append_assoc ..)
    have hread := readInt_unread f.1
      { s.inbox with input := sizeBytes f.2.length ++ f.2 ++ rest.flatMap frame }
    rw [← Sock.eq_unread hin] at hread
    simp only [ReceiverPc.next, act, hpc, hread, Option.isSome_some]
  | received id =>
    obtain ⟨k, hk, -⟩ := h.wired.awaited_current id (by rw [hpc]; rfl)
    simp only [ReceiverPc.next, act, hpc, hk, Option.isSome_some]
  | found id k =>
    obtain ⟨_, _, _, -, harr, -, -, hval⟩ := recvValue_eq h.indexed h.wired hpc
    simp only [ReceiverPc.next, act, hpc, harr, hval, if_true, Option.isSome_some]

/-- Responses reach their own callers. -/
structure OwnResponses (s : Session) : Prop where
  /-- The id that was received is found, with a call that waits for it. -/
  alive : s.aborted = false
  found : ∀ id, s.receiver = .received id → s.Awaited id
  /-- A call that is done holds the value of the answer to its own id, and was set once. -/
  own : ∀ k, (s.call k).done = true → ∃ bs, s.answers (s.call k).id = some bs ∧
    (s.call k).value = some (.int (intOfPayload bs))
  once : ∀ k, s.completions k = if (s.call k).done = true then 1 else 0
  /-- The end of `recvRespond` completes the one call of the frame; nothing else does. -/
  completes : ∀ s', session.step s .recvValue = some s' → Completes s s'
  others : ∀ a s' k, a ≠ .recvValue → session.step s a = some s' → (s'.call k).done = true →
    s'.call k = s.call k
  receives : s.frames ≠ [] → (session.step s s.receiver.next).isSome

/-- **In every session** of fewer than 2 ^ 31 calls the responses reach their own callers. -/
theorem responses_reach_callers (h : session.Reachable s) (hmade : s.made < 2 ^ 31) :
    OwnResponses s := by
  have hl := linked_of_reachable h hmade
  refine ⟨hl.answered.alive, fun id hpc => hl.wired.awaited_current id (by rw [hpc]; rfl),
    hl.answered.own, hl.answered.once, fun s' hs => ?_,
    fun a s' k ha hs hdone => (moves_of_step hs).call_eq hl ha hdone, hl.receives⟩
  cases moves_of_step hs with
  | recvValue hpc hval => exact (hl.recvValue hpc hval).2
  | recvFails hpc hval =>
    obtain ⟨_, _, _, -, -, -, -, hval'⟩ := recvValue_eq hl.indexed hl.wired hpc
    rw [hval] at hval'
    cases hval'

/-- Two calls, sent in the other order than registered and answered in yet another; the receiver
thread is at the value of the first answer. -/
def crossed : List Action :=
  [.newCall 9 (.int 1), .newCall 9 (.int 2), .addCall 1, .addCall 0, .sendCall 0, .sendCall 1,
    .request, .request, .respond 0 [5, 0, 0, 0], .respond 1 [6, 0, 0, 0], .waitForWork, .recvId,
    .lookup]

theorem responses_reach_callers_crossed : ∃ s s',
    session.run (fun _ _ => True) (start ⟨[], 0⟩ 0 .whole) crossed = some s ∧
    session.step s .recvValue = some s' ∧ (s'.call 1).done = true ∧ Completes s s' ∧
    OwnResponses s' := by
  have hrun : (session.run (fun _ _ => True) (start ⟨[], 0⟩ 0 .whole) crossed).any (fun s =>
      s.made < 2 ^ 31 ∧ (session.step s .recvValue).any fun s' =>
        s'.made < 2 ^ 31 ∧ (s'.call 1).done = true) = true := by decide +kernel
  obtain ⟨s, hs, hfacts⟩ := (Option.any_eq_true _ _).mp hrun
  obtain ⟨hmade, hstep⟩ := of_decide_eq_true hfacts
  obtain ⟨s', hs', hfacts'⟩ := (Option.any_eq_true _ _).mp hstep
  obtain ⟨hmade', hdone⟩ := of_decide_eq_true hfacts'
  have hreach : session.Reachable s := .run (.init ⟨_, _, _, rfl⟩) hs
  exact ⟨s, s', hs, hs', hdone, (responses_reach_callers hreach hmade).completes s' hs',
    responses_reach_callers (.step hreach trivial hs') hmade'⟩

end PRpc.Client.Session
