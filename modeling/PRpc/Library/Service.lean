import PRpc.Library.Transition
import Mathlib.Data.List.Perm.Basic

/-!
# A service of requests and replies

What a server is for, seen from one of its clients: it takes requests and replies to those it has
taken, in any order, to each at most once and with the whole reply to that request. `reply` says
what the reply is; a request without one is never answered. The bytes to the client are the replies
one behind the other (`out`).
-/

/-- The requests that wait for their reply, and those that have got it. -/
structure Service (ρ : Type) where
  pending : List ρ
  answered : List ρ

namespace Service

variable {ρ β : Type}

inductive Action (ρ : Type)
  | take (r : ρ)
  /-- A reply to the request at this place. -/
  | answer (i : ℕ)

def start : Service ρ := ⟨[], []⟩

def take (s : Service ρ) (r : ρ) : Service ρ := { s with pending := s.pending ++ [r] }

/-- The request `r`, at place `i`, has got its reply. -/
def answer (s : Service ρ) (i : ℕ) (r : ρ) : Service ρ :=
  ⟨s.pending.eraseIdx i, s.answered ++ [r]⟩

def step (reply : ρ → Option (List β)) (s : Service ρ) : Action ρ → Option (Service ρ)
  | .take r => some (s.take r)
  | .answer i =>
    match s.pending[i]? with
    | none => none
    | some r => if (reply r).isSome then some (s.answer i r) else none

/-- The service, for the replies that it gives. -/
def system (reply : ρ → Option (List β)) : System (Service ρ) (Action ρ) where
  init s := s = start
  step := step reply

/-- What was sent to the client. -/
def out (reply : ρ → Option (List β)) (s : Service ρ) : List β :=
  s.answered.flatMap fun r => (reply r).getD []

section

variable {reply : ρ → Option (List β)} {s s' : Service ρ} {i : ℕ} {r : ρ} {bs : List β}

@[simp] theorem out_take : out reply (s.take r) = out reply s := rfl

theorem out_answer (hr : reply r = some bs) : out reply (s.answer i r) = out reply s ++ bs := by
  unfold out answer
  rw [List.flatMap_append, List.flatMap_singleton, hr, Option.getD_some]

theorem step_answer (hi : s.pending[i]? = some r) (hr : reply r = some bs) :
    step reply s (.answer i) = some (s.answer i r) := by
  unfold step
  simp only [hi, hr, Option.isSome_some, if_true]

/-- One step of the service or none; the label is the request that it takes, if it takes one. -/
inductive Evolves (reply : ρ → Option (List β)) (s : Service ρ) : Option ρ → Service ρ → Prop
  | stay : Evolves reply s none s
  | take (r : ρ) : Evolves reply s (some r) (s.take r)
  | answer {i : ℕ} {r : ρ} {bs : List β} (hi : s.pending[i]? = some r) (hr : reply r = some bs) :
      Evolves reply s none (s.answer i r)

theorem Evolves.step {o : Option ρ} (h : Evolves reply s o s') :
    s' = s ∨ ∃ a, step reply s a = some s' := by
  cases h with
  | stay => exact .inl rfl
  | take r => exact .inr ⟨.take r, rfl⟩
  | answer hi hr => exact .inr ⟨.answer _, step_answer hi hr⟩

theorem perm_eraseIdx {l : List ρ} (hi : l[i]? = some r) : l.Perm (r :: l.eraseIdx i) := by
  obtain ⟨hlt, rfl⟩ := List.getElem?_eq_some_iff.mp hi
  exact (List.getElem_cons_eraseIdx_perm hlt).symm

theorem perm_answer (hi : s.pending[i]? = some r) :
    ((s.answer i r).answered ++ (s.answer i r).pending).Perm (s.answered ++ s.pending) := by
  show (s.answered ++ [r] ++ s.pending.eraseIdx i).Perm _
  rw [List.append_assoc]
  exact (perm_eraseIdx hi).symm.append_left _

theorem of_step_answer (h : step reply s (.answer i) = some s') :
    ∃ r bs, s.pending[i]? = some r ∧ reply r = some bs ∧ s' = s.answer i r := by
  simp only [step] at h
  split at h
  · cases h
  · next r hi =>
    split at h
    · next hr =>
      obtain ⟨bs, hbs⟩ := Option.isSome_iff_exists.mp hr
      cases h
      exact ⟨r, bs, hi, hbs, rfl⟩
    · cases h

/-- **Only what has a reply is answered**, in every run. -/
theorem answered_of_reachable (h : (system reply).Reachable s) :
    ∀ r ∈ s.answered, (reply r).isSome := by
  refine h.invariant (I := fun s => ∀ r ∈ s.answered, (reply r).isSome) ?_ ?_
  · rintro _ rfl r hr
    exact absurd hr List.not_mem_nil
  · intro s a s' hI _ hs
    cases a with
    | take r => cases hs; exact hI
    | answer i =>
      obtain ⟨r, bs, -, hr, rfl⟩ := of_step_answer hs
      intro x hx
      obtain hx | hx := List.mem_append.mp hx
      · exact hI x hx
      · rw [List.mem_singleton.mp hx, hr]
        rfl

end

end Service
