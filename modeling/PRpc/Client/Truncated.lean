import PRpc.Client.Frames

/-!
# Streams that end early

The connection breaks at an arbitrary byte of the responses. A response that is cut after its id is
logged, and its call is left as it is. One `try` block is around the reading of the id, too: where
the stream ends before an id is complete, the handler asks a call that was not looked up for its id.
So the responses are handled as long as `recvRespond` is called for complete ids only
(`handled_iff`). How the stream ends, by an end of file or by an error of the socket, makes no
difference: the handler looks at nothing but the text of the exception.
-/

namespace PRpc.Client

open LittleEndian Session

/-- The frames that lie before the cut. -/
def complete : List (CInt × Bytes) → ℕ → List (CInt × Bytes)
  | [], _ => []
  | f :: frames, cut =>
    if (frame f).length ≤ cut then f :: complete frames (cut - (frame f).length) else []

/-- How many ids lie before the cut. -/
def completeIds : List (CInt × Bytes) → ℕ → ℕ
  | [], _ => 0
  | f :: frames, cut =>
    if (frame f).length ≤ cut then completeIds frames (cut - (frame f).length) + 1
    else if 4 ≤ cut then 1 else 0

/-- The table after successive responses. -/
def tableAfter (calls : CInt → Option Call) (rs : List (Received × Sock)) : CInt → Option Call :=
  rs.foldl (fun calls r => r.1.table calls) calls

/-- Frames for calls in the table that wait for an `IntWritable`, each with a buffer for its
value. -/
def Expected (M : Memory) (calls : CInt → Option Call) (frames : List (CInt × Bytes)) : Prop :=
  ∀ f ∈ frames, (calls f.1).map Call.valueClass = some (ascii "IntWritable") ∧
    f.2.length < M.limit

/-- What `n` calls of `recvRespond` should make of the frames up to the cut: the calls whose frames
are complete are done, no others are, and an exception finds a call that was looked up. -/
structure Handled (calls : CInt → Option Call) (frames : List (CInt × Bytes)) (cut n : ℕ)
    (s : Sock) : Prop where
  done : ∀ id call, tableAfter calls (Connection.recvResponds n calls s) id = some call →
    (call.done = true ↔ (∃ f ∈ (complete frames cut).take n, f.1 = id) ∨
      ∃ old, calls id = some old ∧ old.done = true)
  lookedUp : ∀ r ∈ Connection.recvResponds n calls s, r.1 ≠ .crash

/-! ## One response -/

namespace Connection

variable {calls : CInt → Option Call} {s : Sock} {f : CInt × Bytes} {call : Call}

theorem recvRespond_noId (h : s.input.length < 4) :
    (recvRespond calls s).1 = .crash := by
  have hread : readInt s = .error .eof { s with input := [] } :=
    bind_error (if_neg (Nat.not_le.mpr h))
  unfold recvRespond
  rw [hread]

/-- A length and a value that are cut are refused with nothing left. -/
theorem refused_take {M : Memory} {value : Bytes} (hlen : value.length < M.limit) {cut : ℕ}
    (hcut : cut < 8 + value.length) :
    (payloadField M).Refused ((sizeBytes value.length ++ value).take cut) [] := by
  have hlt := M.lt
  have hsize : value.length < 2 ^ 64 := by omega
  by_cases h8 : cut < 8
  · refine .noLength ?_
    rw [List.length_take]
    exact (Nat.min_le_left _ _).trans_lt h8
  · have htake : (sizeBytes value.length ++ value).take cut =
        sizeBytes value.length ++ value.take (cut - 8) := by
      rw [List.take_append, length_sizeBytes, List.take_of_length_le (by simp; omega)]
    rw [htake]
    refine .short (length_sizeBytes _) ?_ ?_
    · show ¬ M.limit < (ofLE (sizeBytes value.length) + 1) % 2 ^ 64
      rw [ofLE_sizeBytes hsize]
      omega
    · show (value.take (cut - 8)).length < ofLE (sizeBytes value.length)
      rw [ofLE_sizeBytes hsize, List.length_take]
      omega

/-- The stream ends inside the length or the value: the response is logged, and nothing is left. -/
theorem recvRespond_cut (hfind : calls f.1 = some call)
    (hclass : call.valueClass = ascii "IntWritable") (hlen : f.2.length < s.memory.limit) {cut : ℕ}
    (h4 : 4 ≤ cut) (hcut : cut < (frame f).length) (hs : s.input = (frame f).take cut) :
    ∃ t, t.input = [] ∧ recvRespond calls s = (.logged f.1, t) := by
  have htake : (frame f).take cut =
      intBytes f.1 ++ (sizeBytes f.2.length ++ f.2).take (cut - 4) := by
    unfold frame
    rw [List.take_append, length_intBytes, List.take_of_length_le (by simp; omega)]
  have hread : readInt s =
      .ok f.1 { s with input := (sizeBytes f.2.length ++ f.2).take (cut - 4) } := by
    conv_lhs => rw [Sock.eq_unread (hs.trans htake)]
    exact readInt_unread _ _
  have hvalue : cut - 4 < 8 + f.2.length := by
    unfold frame at hcut
    rw [List.length_append, List.length_append, length_intBytes, length_sizeBytes] at hcut
    omega
  obtain ⟨e, he⟩ := intReadFields_refused
    (s := ({ s with input := (sizeBytes f.2.length ++ f.2).take (cut - 4) } : Sock).make)
    (refused_take hlen hvalue)
  have hvalue : recvValue call
      { s with input := (sizeBytes f.2.length ++ f.2).take (cut - 4) } =
        (none, Sock.fail { s.make with input := [] }) := by
    rw [recvValue_int_eq hclass, he]
    rfl
  refine ⟨Sock.fail { s.make with input := [] }, rfl, ?_⟩
  unfold recvRespond
  rw [hread]
  simp only [hfind]
  rw [hvalue]

end Connection

/-! ## All of them -/

variable {calls : CInt → Option Call} {frames : List (CInt × Bytes)} {f : CInt × Bytes}
  {call : Call} {cut n : ℕ} {s : Sock}

theorem handled_zero (calls : CInt → Option Call) (frames : List (CInt × Bytes)) (cut : ℕ)
    (s : Sock) : Handled calls frames cut 0 s where
  done id call hfind := by
    change calls id = some call at hfind
    rw [hfind]
    simp
  lookedUp r hr := absurd hr List.not_mem_nil

/-- Without a complete id the next call of `recvRespond` fails before it has looked up a call. -/
theorem not_handled_of_noId (h : s.input.length < 4) : ¬ Handled calls frames cut (n + 1) s := by
  intro hhandled
  have hcrash : (Connection.recvRespond calls s).1 = .crash := Connection.recvRespond_noId h
  refine hhandled.lookedUp _ ?_ hcrash
  unfold Connection.recvResponds
  exact List.mem_cons_self

/-- Of a frame that is cut after its id the call is looked up, and the stream is at its end. -/
theorem handled_of_cut (hfind : calls f.1 = some call)
    (hclass : call.valueClass = ascii "IntWritable") (hlen : f.2.length < s.memory.limit)
    (h4 : 4 ≤ cut) (hcut : cut < (frame f).length) (hs : s.input = (frame f).take cut) :
    Handled calls (f :: frames) cut (n + 1) s ↔ n = 0 := by
  obtain ⟨t, hnil, hr⟩ := Connection.recvRespond_cut hfind hclass hlen h4 hcut hs
  have hlist : Connection.recvResponds (n + 1) calls s =
      (.logged f.1, t) :: Connection.recvResponds n calls t := by
    conv_lhs => unfold Connection.recvResponds
    rw [hr]
    rfl
  cases n with
  | zero =>
    refine iff_of_true ⟨fun id call hfind => ?_, fun r hmem => ?_⟩ rfl
    · rw [hlist] at hfind
      change calls id = some call at hfind
      have hnone : complete (f :: frames) cut = [] := if_neg (Nat.not_le.mpr hcut)
      rw [hnone, hfind]
      simp
    · rw [hlist] at hmem
      obtain rfl := List.mem_singleton.mp hmem
      simp
  | succ n =>
    refine iff_of_false (fun hhandled => ?_) (Nat.succ_ne_zero n)
    have hcrash : (Connection.recvRespond calls t).1 = .crash :=
      Connection.recvRespond_noId (by simp [hnil])
    refine hhandled.lookedUp _ ?_ hcrash
    rw [hlist]
    unfold Connection.recvResponds
    simp

theorem done_update_iff {id : CInt} {value : Option Writable} :
    ((∃ g ∈ f :: frames, g.1 = id) ∨ ∃ old, calls id = some old ∧ old.done = true) ↔
      (∃ g ∈ frames, g.1 = id) ∨ ∃ old, Function.update calls f.1
        (some { call with value, done := true }) id = some old ∧ old.done = true := by
  by_cases hid : f.1 = id
  · subst hid
    simp
  · rw [Function.update_of_ne (Ne.symm hid)]
    simp [hid]

theorem handled_cons (hfind : calls f.1 = some call)
    (hclass : call.valueClass = ascii "IntWritable") (hlen : f.2.length < s.memory.limit)
    (hcut : (frame f).length ≤ cut)
    (hs : s.input = ((f :: frames).flatMap frame).take cut) :
    ∃ value t, t.input = (frames.flatMap frame).take (cut - (frame f).length) ∧
      t.memory = s.memory ∧
      (Handled calls (f :: frames) cut (n + 1) s ↔
        Handled (Function.update calls f.1 (some { call with value, done := true })) frames
          (cut - (frame f).length) n t) := by
  have htake : s.input = intBytes f.1 ++ sizeBytes f.2.length ++ f.2 ++
      (frames.flatMap frame).take (cut - (frame f).length) := by
    rw [hs, List.flatMap_cons, List.take_append, List.take_of_length_le hcut]
    unfold frame
    simp
  obtain ⟨t, hin, hr⟩ := Connection.recvRespond_int calls hfind hclass
    (s := { s with input := (frames.flatMap frame).take (cut - (frame f).length) }) hlen
  rw [← Sock.eq_unread htake] at hr
  have hmem : t.memory = s.memory := by
    have := Connection.recvRespond_memory calls s
    rwa [hr] at this
  refine ⟨some (.int (intOfPayload f.2)), t, hin, hmem, ?_⟩
  have hlist : Connection.recvResponds (n + 1) calls s =
      (.set f.1 { call with value := some (.int (intOfPayload f.2)), done := true }, t) ::
      Connection.recvResponds n (Function.update calls f.1
        (some { call with value := some (.int (intOfPayload f.2)), done := true })) t := by
    conv_lhs => unfold Connection.recvResponds
    rw [hr]
    rfl
  have hcomplete : (complete (f :: frames) cut).take (n + 1) =
      f :: (complete frames (cut - (frame f).length)).take n := by
    conv_lhs => unfold complete
    rw [if_pos hcut, List.take_succ_cons]
  constructor
  · rintro ⟨hdone, hlookedUp⟩
    rw [hlist] at hdone hlookedUp
    rw [hcomplete] at hdone
    exact ⟨fun id call hfind => (hdone id call hfind).trans done_update_iff,
      fun r hr => hlookedUp r (List.mem_cons_of_mem _ hr)⟩
  · rintro ⟨hdone, hlookedUp⟩
    refine ⟨fun id call hfind => ?_, fun r hr => ?_⟩
    · rw [hlist] at hfind
      rw [hcomplete]
      exact (hdone id call hfind).trans done_update_iff.symm
    · rw [hlist] at hr
      rcases List.mem_cons.mp hr with rfl | hr
      · simp
      · exact hlookedUp r hr

/-- **Truncated responses** are handled exactly as long as `recvRespond` is called for complete ids
only. -/
theorem handled_iff (h : Expected s.memory calls frames) (cut n : ℕ)
    (hs : s.input = (frames.flatMap frame).take cut) :
    Handled calls frames cut n s ↔ n ≤ completeIds frames cut := by
  induction frames generalizing calls cut n s with
  | nil =>
    cases n with
    | zero => exact iff_of_true (handled_zero ..) (Nat.zero_le _)
    | succ n =>
      refine iff_of_false (not_handled_of_noId ?_) (Nat.not_succ_le_zero n)
      simp [hs]
  | cons f frames ih =>
    obtain ⟨hf, hlen⟩ := h f List.mem_cons_self
    obtain ⟨call, hfind, hclass⟩ := Option.map_eq_some_iff.mp hf
    cases n with
    | zero => exact iff_of_true (handled_zero ..) (Nat.zero_le _)
    | succ n =>
      unfold completeIds
      by_cases hcut : (frame f).length ≤ cut
      · obtain ⟨value, t, ht, hmem, hiff⟩ := handled_cons (n := n) hfind hclass hlen hcut hs
        rw [hiff, ih (fun g hg => ?_) _ _ ht, if_pos hcut]
        · omega
        · -- the call that was answered keeps its class
          obtain ⟨hg, hglen⟩ := h g (List.mem_cons_of_mem f hg)
          refine ⟨?_, hmem ▸ hglen⟩
          by_cases hid : g.1 = f.1
          · rw [hid, Function.update_self]
            exact congrArg some hclass
          · rw [Function.update_of_ne hid]
            exact hg
      · have hs' : s.input = (frame f).take cut := by
          rw [hs, List.flatMap_cons, List.take_append_of_le_length (by omega)]
        rw [if_neg hcut]
        by_cases h4 : 4 ≤ cut
        · rw [if_pos h4, handled_of_cut hfind hclass hlen h4 (Nat.not_le.mp hcut) hs']
          omega
        · rw [if_neg h4]
          refine iff_of_false (not_handled_of_noId ?_) (Nat.not_succ_le_zero n)
          rw [hs', List.length_take]
          omega

/-- Two calls for an `IntWritable`. -/
def twoInts (id : CInt) : Option Call :=
  if id = 0 ∨ id = 1 then some { valueClass := ascii "IntWritable", id, param := .base } else none

/-- The responses to them. -/
def intFrames : List (CInt × Bytes) := [(0, intBytes 7), (1, intBytes 9)]

/-- The second response is cut inside its length. -/
theorem handled_twoInts : Handled twoInts intFrames 22 2
    ⟨(intFrames.flatMap frame).take 22, 0, .whole, 0, 0⟩ :=
  (handled_iff (by unfold Expected; decide) 22 2 rfl).mpr (by decide)

/-- The stream ends between the two, and `recvRespond` is called once more. -/
theorem betweenFrames_not_handled : ¬ ∀ calls frames cut n s, Expected s.memory calls frames →
    s.input = (frames.flatMap frame).take cut → Handled calls frames cut n s := by
  intro h
  have hhandled := h twoInts intFrames 16 2 ⟨(intFrames.flatMap frame).take 16, 0, .whole, 0, 0⟩
    (by unfold Expected; decide) rfl
  have hcrash : (Connection.recvResponds 2 twoInts
      ⟨(intFrames.flatMap frame).take 16, 0, .whole, 0, 0⟩).any
        (fun r => match r.1 with
          | .crash => true
          | _ => false) = true := by decide +kernel
  obtain ⟨r, hmem, hr⟩ := List.any_eq_true.mp hcrash
  refine hhandled.lookedUp r hmem ?_
  split at hr
  · assumption
  · cases hr

end PRpc.Client
