import Mathlib.Data.List.Basic

/-!
# Streams of frames

A stream is framed if it consists of whole frames and at most one unfinished one at its end, no
frame twice. What was written of a framed stream up to some moment is framed too
(`Framed.of_prefix`).
-/

namespace Framing

variable {κ β : Type} {f : κ → List β} {l l' tail : List β} {ks : List κ}

/-- Whole frames of distinct keys, then a part of the frame of another one. -/
def Framed (f : κ → List β) (l : List β) : Prop :=
  ∃ ks : List κ, ∃ tail : List β, l = ks.flatMap f ++ tail ∧ ks.Nodup ∧
    (tail = [] ∨ ∃ k, k ∉ ks ∧ tail <+: f k)

/-- A prefix of a list of frames stops after or inside one of them. -/
theorem prefix_flatMap (h : l <+: ks.flatMap f) :
    ∃ ks₁ tail, l = ks₁.flatMap f ++ tail ∧ ks₁ <+: ks ∧
      (tail = [] ∨ ∃ k, ks₁ ++ [k] <+: ks ∧ tail <+: f k) := by
  induction ks generalizing l with
  | nil =>
    rw [List.flatMap_nil] at h
    exact ⟨[], [], List.prefix_nil.mp h, List.prefix_rfl, .inl rfl⟩
  | cons k ks ih =>
    rw [List.flatMap_cons] at h
    rcases List.prefix_or_prefix_of_prefix h (List.prefix_append (f k) _) with hk | ⟨l', rfl⟩
    · exact ⟨[], l, rfl, List.nil_prefix, .inr ⟨k, List.prefix_append [k] ks, hk⟩⟩
    · rw [List.prefix_append_right_inj] at h
      obtain ⟨ks₁, tail, rfl, hpre, htail⟩ := ih h
      refine ⟨k :: ks₁, tail, by rw [List.flatMap_cons, List.append_assoc],
        (List.prefix_cons_inj k).mpr hpre, htail.imp_right ?_⟩
      rintro ⟨j, hj, hf⟩
      exact ⟨j, (List.prefix_cons_inj k).mpr hj, hf⟩

/-- **What was written before** of a framed stream is framed. -/
theorem Framed.of_prefix (h : Framed f l) (hl : l' <+: l) : Framed f l' := by
  obtain ⟨ks, tail, rfl, hnodup, htail⟩ := h
  rcases List.prefix_or_prefix_of_prefix hl (List.prefix_append (ks.flatMap f) tail) with
    hpre | ⟨l'', rfl⟩
  · obtain ⟨ks₁, tail₁, rfl, hks, h₁⟩ := prefix_flatMap hpre
    refine ⟨ks₁, tail₁, rfl, hnodup.sublist hks.sublist, h₁.imp_right ?_⟩
    rintro ⟨k, hk, hf⟩
    have hk' := hnodup.sublist hk.sublist
    have hdisj := (List.nodup_append.mp hk').2.2
    exact ⟨k, fun hmem => hdisj k hmem k List.mem_cons_self rfl, hf⟩
  · rw [List.prefix_append_right_inj] at hl
    refine ⟨ks, l'', rfl, hnodup, ?_⟩
    rcases htail with rfl | ⟨k, hk, hf⟩
    · exact .inl (List.prefix_nil.mp hl)
    · exact .inr ⟨k, hk, hl.trans hf⟩

/-- A framed stream starts with the frame that its first element belongs to, or with a part of it
if there is no more. -/
theorem Framed.head {x : β} {k : κ} (h : Framed f (x :: l)) (hne : ∀ j, f j ≠ [])
    (hx : ∀ j, x ∈ f j → j = k) : x :: l <+: f k ∨ f k <+: x :: l := by
  obtain ⟨ks, tail, heq, -, htail⟩ := h
  cases ks with
  | nil =>
    have heq : x :: l = tail := heq
    rcases htail with rfl | ⟨j, -, hf⟩
    · cases heq
    · rw [← heq] at hf
      have hj := hx j (hf.subset List.mem_cons_self)
      exact .inl (hj ▸ hf)
  | cons j ks =>
    rw [List.flatMap_cons, List.append_assoc] at heq
    have hpre : f j <+: x :: l := heq ▸ List.prefix_append _ _
    obtain ⟨y, ys, hy⟩ := List.exists_cons_of_ne_nil (hne j)
    have hyx : y = x := by
      rw [hy] at hpre
      exact (List.cons_prefix_cons.mp hpre).1
    have hj := hx j (by rw [hy, hyx]; exact List.mem_cons_self)
    exact .inr (hj ▸ hpre)

end Framing
