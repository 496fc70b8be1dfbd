import PRpc.Library.Machine
import PRpc.Server.Failures

/-!
# The decoder, one round at a time

`Call::read` and the `readFields` of the `MethodWritable`s inside it as a machine that keeps its
loops on a stack. A step is one round of the innermost loop or its end, so that nothing in the
machine is recursive, and it returns after a number of steps that is bounded by the input, with
what `Call.read` is (`read_bounded`). Every round that goes on has taken five bytes.
-/

namespace PRpc

/-! ## Up to the loop -/

/-- How far `readFields` gets without a loop: to its end, or to the head of a loop. -/
inductive Begun
  | read (ret : Except Exn CInt) (w : Writable) (s : Sock)
  | loop (className methodName : Bytes) (size : ℕ) (s : Sock)

/-- `MethodWritable::readFields` before its loop. -/
def MethodWritable.begin (s : Sock) : Begun :=
  match Writable.readString s with
  | .error _ s => .read (.ok (-1)) (.method [] [] []) s.fail
  | .ok className s =>
    match Writable.readString s with
    | .error _ s => .read (.ok (-1)) (.method className [] []) s.fail
    | .ok methodName s =>
      match readCount s with
      | .error _ s => .read (.ok (-1)) (.method className methodName []) s.fail
      | .ok size s => .loop className methodName size s

/-- `IntWritable::readFields`, which has no loop. -/
def IntWritable.begin (value : CInt) (s : Sock) : Begun :=
  match IntWritable.readFields s with
  | .ok (l, value) s => .read (.ok l) (.int value) (if l.toInt < 0 then s.fail else s)
  | .error e s => .read (.error e) (.int value) s.fail

/-- The virtual call before a loop. -/
def Writable.begin : Writable → Sock → Begun
  | .base, s => .read (.ok 0) .base s
  | .int value, s => IntWritable.begin value s
  | .method _ _ _, s => MethodWritable.begin s

/-- What `readFields` makes of the end of its loop. -/
def Begun.finish (loop : ℕ → Sock → Filled) : Begun → Except Exn CInt × Writable × Sock
  | .read ret w s => (ret, w, s)
  | .loop className methodName size s =>
    let filled := loop size s
    (.ok (if filled.thrown.isSome then -1 else 0), .method className methodName filled.params,
      if filled.thrown.isSome then filled.sock.fail else filled.sock)

theorem Writable.readFields_eq (loop : ℕ → Sock → Filled) (w : Writable) (s : Sock) :
    Writable.readFields loop w s = (w.begin s).finish loop := by
  cases w with
  | base => rfl
  | int v =>
    rw [Writable.readFields_int]
    show _ = (IntWritable.begin v s).finish loop
    unfold IntWritable.begin
    cases IntWritable.readFields s with
    | ok x s => rfl
    | error e s => rfl
  | method c m ps =>
    rw [Writable.readFields_method]
    show _ = (MethodWritable.begin s).finish loop
    unfold MethodWritable.readFields MethodWritable.begin
    cases h₁ : Writable.readString s with
    | error e s₁ => rfl
    | ok c s₁ =>
      cases h₂ : Writable.readString s₁ with
      | error e s₂ => simp only [h₂]; rfl
      | ok m s₂ =>
        cases h₃ : readCount s₂ with
        | error e s₃ => simp only [h₂, h₃]; rfl
        | ok size s₃ =>
          simp only [h₂, h₃]
          unfold Begun.finish
          cases hthrown : (loop size s₃).thrown with
          | none => simp [hthrown]
          | some e => simp [hthrown]

/-! ## What is made on the way -/

/-- Code that makes no object, however it ends. -/
structure MakesNothing {α : Type} (x : SockM α) : Prop where
  ok : ∀ {s s' : Sock} {a : α}, x s = .ok a s' → s'.made = s.made
  error : ∀ {s s' : Sock} {e : Exn}, x s = .error e s' → s'.made = s.made

namespace MakesNothing

variable {α β : Type} {x : SockM α} {f : α → SockM β}

theorem pure (a : α) : MakesNothing (Pure.pure a : SockM α) where
  ok h := by cases h; rfl
  error h := by cases h

theorem throw (e : Exn) : MakesNothing (MonadExcept.throw e : SockM α) where
  ok h := by cases h
  error h := by cases h; rfl

theorem bind (hx : MakesNothing x) (hf : ∀ a, MakesNothing (f a)) : MakesNothing (x >>= f) where
  ok h := by
    obtain ⟨a, t, h₁, h₂⟩ := of_bind_ok h
    exact ((hf a).ok h₂).trans (hx.ok h₁)
  error {s s' e} h := by
    cases h₁ : x s with
    | ok a t => rw [bind_ok h₁] at h; exact ((hf a).error h).trans (hx.ok h₁)
    | error e' t => rw [bind_error h₁] at h; cases h; exact hx.error h₁

theorem asioRead (n : ℕ) : MakesNothing (asioRead n) where
  ok h := by
    obtain ⟨-, rfl⟩ := of_asioRead_ok h
    rfl
  error {s s' e} h := by
    unfold PRpc.asioRead at h
    split at h
    · cases h
    · cases h
      rfl

theorem newChars (n : ℕ) : MakesNothing (newChars n) where
  ok h := by rw [(of_newChars_ok h).2]
  error h := by rw [of_newChars_error h]

theorem reserve (n : ℕ) : MakesNothing (reserve n) where
  ok h := by rw [(of_reserve_ok h).2]
  error h := by rw [of_reserve_error h]

theorem readInt : MakesNothing readInt := (asioRead 4).bind fun _ => .pure _

theorem readSize : MakesNothing readSize := (asioRead 8).bind fun _ => .pure _

theorem readCount : MakesNothing readCount :=
  readSize.bind fun _ => (reserve _).bind fun _ => .pure _

theorem readString : MakesNothing Writable.readString := by
  refine readInt.bind fun length => ?_
  split
  · exact (newChars _).bind fun _ => (asioRead _).bind fun _ => .pure _
  · exact .throw _

theorem intReadFields : MakesNothing IntWritable.readFields :=
  readSize.bind fun _ => (newChars _).bind fun _ => (asioRead _).bind fun _ => .pure _

end MakesNothing

namespace Begun

/-- The socket at this point. -/
def sock : Begun → Sock
  | .read _ _ s => s
  | .loop _ _ _ s => s

variable (w : Writable) (s : Sock)

theorem after : (w.begin s).sock.After s := by
  have h := Writable.readFields_after (f := fun _ t => ⟨[], none, t⟩) (fun _ t => .refl t) w s
  rw [Writable.readFields_eq] at h
  cases hb : w.begin s <;> rw [hb] at h <;> exact h

theorem made : (w.begin s).sock.made = s.made := by
  cases w with
  | base => rfl
  | int v =>
    show (IntWritable.begin v s).sock.made = s.made
    unfold IntWritable.begin
    split
    · next h =>
      have hmade := MakesNothing.intReadFields.ok h
      dsimp only [sock]
      split <;> exact hmade
    · next h =>
      have hmade := MakesNothing.intReadFields.error h
      exact hmade
  | method c m ps =>
    show (MethodWritable.begin s).sock.made = s.made
    unfold MethodWritable.begin
    split
    · next h₁ =>
      have hmade₁ := MakesNothing.readString.error h₁
      exact hmade₁
    · next h₁ =>
      have hmade₁ := MakesNothing.readString.ok h₁
      split
      · next h₂ =>
        have hmade₂ := (MakesNothing.readString.error h₂).trans hmade₁
        exact hmade₂
      · next h₂ =>
        have hmade₂ := (MakesNothing.readString.ok h₂).trans hmade₁
        split
        · next h₃ =>
          have hmade₃ := (MakesNothing.readCount.error h₃).trans hmade₂
          exact hmade₃
        · next h₃ => exact (MakesNothing.readCount.ok h₃).trans hmade₂

end Begun

/-! ## The machine -/

namespace Server

/-- A parameter loop: the class and the method it belongs to, the vector, the rounds left. -/
structure ParamLoop where
  className : Bytes
  methodName : Bytes
  params : List Writable
  left : ℕ

/-- `_params.push_back`. -/
def ParamLoop.push (l : ParamLoop) (w : Writable) : ParamLoop :=
  { l with params := l.params ++ [w] }

/-- The loop of the innermost object with the loops of the objects around it, the last one that of
the call itself; or what `Call::read` has returned. -/
inductive Decoder
  | running (callId : CInt) (loop : ParamLoop) (outer : List ParamLoop) (s : Sock)
  | returned (call : Option Call) (s : Sock)

namespace Decoder

variable (conn : ConnId)

/-- A loop ends. The call is returned, unless something was thrown; a `MethodWritable` catches it,
and the loop around goes on. -/
def close (callId : CInt) (l : ParamLoop) (thrown : Option Exn) : List ParamLoop → Sock → Decoder
  | [], s => .returned (if thrown.isSome then none else some
      { connection := conn, callId, className := l.className, methodName := l.methodName,
        params := l.params }) s
  | around :: outer, s =>
    .running callId (around.push (.method l.className l.methodName l.params)) outer
      (if thrown.isSome then s.fail else s)

/-- A round of the loop, up to the head of the loop inside it if there is one. -/
def round (callId : CInt) (l : ParamLoop) (outer : List ParamLoop) (s : Sock) : Decoder :=
  match Writable.readString s with
  | .error e s => close conn callId l (some e) outer s
  | .ok class_ s =>
    match (Method.getNewInstance s.fresh class_).begin s.make with
    | .read (.error e) w s => close conn callId (l.push w) (some e) outer s
    | .read (.ok _) w s => .running callId (l.push w) outer s
    | .loop className methodName size s =>
      .running callId ⟨className, methodName, [], size⟩ (l :: outer) s

/-- One step. -/
def step : Decoder → Decoder
  | .running callId l outer s =>
    match l.left with
    | 0 => close conn callId l none outer s
    | n + 1 => round conn callId { l with left := n } outer s
  | .returned call s => .returned call s

/-- `Call::read` before its loop. -/
def head : SockM (CInt × ParamLoop) := do
  let callId ← readInt
  let className ← Writable.readString
  let methodName ← Writable.readString
  let size ← readCount
  return (callId, ⟨className, methodName, [], size⟩)

/-- The first state; an exception before the loop is caught around all of it. -/
def start (s : Sock) : Decoder :=
  match head s with
  | .ok (callId, l) s => .running callId l [] s
  | .error _ s => .returned none s

/-- `Call::read` has returned. -/
def Returned : Decoder → Prop
  | .running .. => False
  | .returned .. => True

/-- The socket at this point. -/
def sock : Decoder → Sock
  | .running _ _ _ s => s
  | .returned _ s => s

/-- A bound for the steps that are left: each round takes a byte at least, each end takes a loop. -/
def work : Decoder → ℕ
  | .running _ _ outer s => s.input.length + outer.length + 1
  | .returned _ _ => 0

theorem step_returned (x : Decoder) (h : x.Returned) : step conn x = x := by
  cases x with
  | running => exact h.elim
  | returned => rfl

section Close

variable (callId : CInt) (l : ParamLoop) (thrown : Option Exn) (outer : List ParamLoop) (s : Sock)

/-- The rounds left do not matter any more. -/
theorem close_left (n : ℕ) :
    close conn callId { l with left := n } thrown outer s = close conn callId l thrown outer s := by
  cases outer <;> rfl

theorem work_close :
    (close conn callId l thrown outer s).work ≤ s.input.length + outer.length := by
  cases outer with
  | nil => exact Nat.zero_le _
  | cons around outer =>
    have hinput : (if thrown.isSome then s.fail else s).input = s.input := by split <;> rfl
    show (if thrown.isSome then s.fail else s).input.length + outer.length + 1 ≤ _
    rw [hinput, List.length_cons, Nat.add_assoc]

theorem made_close : (close conn callId l thrown outer s).sock.made = s.made := by
  cases outer with
  | nil => rfl
  | cons around outer =>
    unfold close sock
    dsimp only
    split <;> rfl

theorem work_round : (round conn callId l outer s).work ≤ s.input.length + outer.length := by
  unfold round
  split
  · next h =>
    have := (Reads.readString.error h).length_le
    exact (work_close ..).trans (by omega)
  · next class_ s₁ h =>
    have hlen := (readString_consumes h).1
    have hle := (Begun.after (Method.getNewInstance s₁.fresh class_) s₁.make).length_le
    have hmake : s₁.make.input = s₁.input := rfl
    rw [hmake] at hle
    split
    · next hb =>
      rw [hb] at hle
      dsimp only [Begun.sock] at hle
      exact (work_close ..).trans (by omega)
    · next hb =>
      rw [hb] at hle
      dsimp only [Begun.sock, work] at hle ⊢
      omega
    · next hb =>
      rw [hb] at hle
      dsimp only [Begun.sock, work] at hle ⊢
      rw [List.length_cons]
      omega

theorem made_round : s.made ≤ (round conn callId l outer s).sock.made := by
  unfold round
  split
  · next h => exact ((made_close ..).trans (MakesNothing.readString.error h)).ge
  · next class_ s₁ h =>
    have h₁ := MakesNothing.readString.ok h
    have h₂ := Begun.made (Method.getNewInstance s₁.fresh class_) s₁.make
    have hmake : s₁.make.made = s₁.made + 1 := rfl
    split <;> next hb =>
      rw [hb] at h₂
      dsimp only [Begun.sock] at h₂
      first
      | rw [made_close]; omega
      | dsimp only [sock]; omega

end Close

theorem work_step (x : Decoder) (h : ¬ x.Returned) : (step conn x).work < x.work := by
  cases x with
  | running callId l outer s =>
    refine Nat.lt_succ_of_le ?_
    unfold step
    dsimp only
    split
    · exact work_close ..
    · exact work_round ..
  | returned => exact absurd trivial h

theorem made_step (x : Decoder) : x.sock.made ≤ (step conn x).sock.made := by
  cases x with
  | running callId l outer s =>
    unfold step
    dsimp only
    split
    · exact (made_close ..).ge
    · exact made_round ..
  | returned => exact le_rfl

/-! ### The machine does what `Call.read` says -/

/-- A loop that runs to its end, with the loops inside it. -/
theorem exists_close (callId : CInt) (l : ParamLoop) (outer : List ParamLoop) (s : Sock) :
    ∃ k, (step conn)^[k] (.running callId l outer s) =
      close conn callId { l with params := l.params ++ (paramLoop l.left s).params }
        (paramLoop l.left s).thrown outer (paramLoop l.left s).sock := by
  induction hlen : s.input.length using Nat.strong_induction_on generalizing l outer s with
  | _ len ih =>
    obtain ⟨c, m, ps, n⟩ := l
    cases n with
    | zero =>
      refine ⟨1, ?_⟩
      show close conn callId _ none outer s = close conn callId _ none outer s
      rw [show (paramLoop 0 s).params = [] from rfl, List.append_nil]
    | succ n =>
      have hstep (k : ℕ) : (step conn)^[k + 1] (.running callId ⟨c, m, ps, n + 1⟩ outer s) =
        (step conn)^[k] (round conn callId ⟨c, m, ps, n⟩ outer s) := rfl
      dsimp only
      rw [paramLoop_succ]
      simp only [Writable.readFields_eq]
      cases hr : Writable.readString s with
      | error e s₁ =>
        refine ⟨1, ?_⟩
        rw [hstep 0]
        unfold round
        simp only [hr, List.append_nil, Function.iterate_zero_apply]
        exact (close_left conn callId ⟨c, m, ps, n⟩ _ outer s₁ (n + 1)).symm
      | ok class_ s₁ =>
        have hlen₁ := (readString_consumes hr).1
        have hmake : s₁.make.input = s₁.input := rfl
        have ha := (Begun.after (Method.getNewInstance s₁.fresh class_) s₁.make).length_le
        rw [hmake] at ha
        cases hb : (Method.getNewInstance s₁.fresh class_).begin s₁.make with
        | read ret w s₂ =>
          rw [hb] at ha
          dsimp only [Begun.sock] at ha
          cases ret with
          | error e =>
            refine ⟨1, ?_⟩
            rw [hstep 0]
            unfold round
            simp only [hr, hb, Begun.finish, Function.iterate_zero_apply]
            exact (close_left conn callId ⟨c, m, ps ++ [w], n⟩ _ outer s₂ (n + 1)).symm
          | ok r =>
            obtain ⟨k, hk⟩ := ih _ (by omega) ⟨c, m, ps ++ [w], n⟩ outer s₂ rfl
            refine ⟨k + 1, ?_⟩
            rw [hstep k]
            unfold round
            simp only [hr, hb, Begun.finish]
            refine hk.trans ?_
            simp only [List.append_assoc, List.singleton_append]
            exact (close_left conn callId ⟨c, m, _, n⟩ _ outer _ (n + 1)).symm
        | loop c' m' size s₂ =>
          rw [hb] at ha
          dsimp only [Begun.sock] at ha
          -- the loop of the inner object, then the rounds that are left of this one
          obtain ⟨k₁, h₁⟩ := ih _ (by omega) ⟨c', m', [], size⟩ (⟨c, m, ps, n⟩ :: outer) s₂ rfl
          have hinner : (paramLoop size s₂).sock.input.length ≤ s₂.input.length :=
            (readParams_after _ size s₂).length_le
          simp only [List.nil_append] at h₁
          generalize hf : paramLoop size s₂ = filled at h₁ hinner
          have hinput : (if filled.thrown.isSome then filled.sock.fail else filled.sock).input =
            filled.sock.input := by split <;> rfl
          obtain ⟨k₂, h₂⟩ := ih _ (by rw [hinput]; omega)
            ⟨c, m, ps ++ [.method c' m' filled.params], n⟩ outer
            (if filled.thrown.isSome then filled.sock.fail else filled.sock) rfl
          refine ⟨k₂ + k₁ + 1, ?_⟩
          rw [hstep (k₂ + k₁)]
          unfold round
          simp only [hr, hb, hf, Begun.finish]
          rw [Function.iterate_add_apply, h₁]
          refine h₂.trans ?_
          simp only [List.append_assoc, List.singleton_append]
          exact (close_left conn callId ⟨c, m, _, n⟩ _ outer _ (n + 1)).symm

theorem readBody_eq : Call.readBody conn =
    head >>= fun p => Call.readArgs p.2.left >>= fun params =>
    pure { connection := conn, callId := p.1, className := p.2.className,
           methodName := p.2.methodName, params } := by
  unfold Call.readBody head
  simp only [bind_assoc, pure_bind]

theorem reads_head : Reads head :=
  Reads.readInt.bind fun _ => Reads.readString.bind fun _ => Reads.readString.bind fun _ =>
    Reads.readCount.bind fun _ => .pure _

theorem head_makesNothing : MakesNothing head :=
  MakesNothing.readInt.bind fun _ => MakesNothing.readString.bind fun _ =>
    MakesNothing.readString.bind fun _ => MakesNothing.readCount.bind fun _ => .pure _

theorem params_of_head {s t : Sock} {callId : CInt} {l : ParamLoop}
    (h : head s = .ok (callId, l) t) : l.params = [] := by
  obtain ⟨_, _, -, h⟩ := of_bind_ok h
  obtain ⟨_, _, -, h⟩ := of_bind_ok h
  obtain ⟨_, _, -, h⟩ := of_bind_ok h
  obtain ⟨_, _, -, h⟩ := of_bind_ok h
  cases h
  rfl

/-- The machine returns what `Call::read` returns, with the socket that it leaves. -/
theorem exists_returned (s : Sock) :
    ∃ k, (step conn)^[k] (start s) = .returned (Call.read conn s).1 (Call.read conn s).2 := by
  unfold start Call.read
  rw [readBody_eq]
  cases hh : head s with
  | error e t =>
    rw [bind_error hh]
    exact ⟨0, rfl⟩
  | ok p t =>
    obtain ⟨callId, l⟩ := p
    rw [bind_ok hh]
    obtain ⟨k, hk⟩ := exists_close conn callId l [] t
    refine ⟨k, hk.trans ?_⟩
    dsimp only
    rw [params_of_head hh, List.nil_append]
    rcases hl : paramLoop l.left t with ⟨params, thrown, u⟩
    cases thrown with
    | none =>
      have hargs : Call.readArgs l.left t = .ok params u := by unfold Call.readArgs; rw [hl]
      rw [bind_ok hargs]
      rfl
    | some e =>
      have hargs : Call.readArgs l.left t = .error e u := by unfold Call.readArgs; rw [hl]
      rw [bind_error hargs]
      rfl

theorem work_start (s : Sock) : (start s).work ≤ s.input.length + 1 := by
  unfold start
  split
  · next h =>
    have := (reads_head.ok h).length_le
    dsimp only [work]
    rw [List.length_nil]
    omega
  · exact Nat.zero_le _

theorem made_start (s : Sock) : (start s).sock.made = s.made := by
  unfold start
  split
  · next h => exact head_makesNothing.ok h
  · next h => exact head_makesNothing.error h

/-- **Decoding terminates and is bounded by its input**: after as many steps as there are bytes,
and one more, the machine has returned what `Call.read` is; what was consumed is a prefix of the
stream, and pays five bytes for each object that was made, also where something failed. -/
theorem read_bounded (s : Sock) : ∃ call t consumed created, Call.read conn s = (call, t) ∧
    (∀ n, s.input.length + 1 ≤ n → (step conn)^[n] (start s) = .returned call t) ∧
    s.input = consumed ++ t.input ∧ t.made = s.made + created ∧ 5 * created ≤ consumed.length := by
  obtain ⟨k, hk⟩ := exists_returned conn s
  obtain ⟨consumed, hconsumed⟩ := (Call.read_after conn s).suffix
  have hmade := Machine.iterate_rel (R := fun x y : Decoder => x.sock.made ≤ y.sock.made)
    (fun _ => le_rfl) (fun _ y h => h.trans (made_step conn y)) (start s) k
  rw [hk, made_start] at hmade
  obtain ⟨created, hcreated⟩ := Nat.exists_eq_add_of_le hmade
  refine ⟨(Call.read conn s).1, (Call.read conn s).2, consumed, created, rfl, fun n hn => ?_,
    hconsumed.symm, hcreated, ?_⟩
  · have hhalted : ((step conn)^[n] (start s)).Returned :=
      Machine.halted_of_le (step_returned conn) (work_step conn) ((work_start s).trans hn)
    have hlooks := Machine.iterate_eq (step_returned conn) (by rw [hk]; trivial) hhalted
    exact hlooks.trans hk
  · have hafter := (Call.read_after conn s).made
    have hlength := congrArg List.length hconsumed
    rw [List.length_append] at hlength
    dsimp only [sock] at hcreated
    omega

end Decoder

end Server

end PRpc
