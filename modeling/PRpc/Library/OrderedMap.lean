import Mathlib.Data.List.TakeWhile
import Mathlib.Order.Lattice

/-!
# Ordered maps with iterators

The elements of a map in the order of their keys. An iterator is at an element or past the end. It
stays with its element while others are erased; what is done with the iterator of an erased element,
or past the end, is undefined (`none`). The traversal rule is `elements_ofElements`: the iterator at
the front of a rest of the map has that rest before it.
-/

/-- The elements have different keys, and are sorted by them. -/
structure OrderedMap (K V : Type) [LinearOrder K] where
  entries : List (K × V)
  sorted : entries.Pairwise fun x y => x.1 < y.1

namespace OrderedMap

/-- At the element with a key, or past the end. -/
inductive Iterator (K : Type)
  | elem (k : K)
  | past
  deriving DecidableEq, Repr

variable {K V : Type} [LinearOrder K] (m : OrderedMap K V)

def size : ℕ := m.entries.length

/-- All other iterators stay as they are. -/
def erase (k : K) : OrderedMap K V where
  entries := m.entries.filter fun x => x.1 ≠ k
  sorted := m.sorted.filter _

namespace Iterator

/-- At the first of these elements. -/
def ofElements : List (K × V) → Iterator K
  | [] => .past
  | x :: _ => .elem x.1

/-- The elements that are still to come; none for an iterator that may not be used. -/
def elements (m : OrderedMap K V) : Iterator K → List (K × V)
  | .elem k => m.entries.dropWhile fun x => x.1 ≠ k
  | .past => []

end Iterator

def begin : Iterator K := .ofElements m.entries

/-- `*it` -/
def deref (it : Iterator K) : Option (K × V) := (it.elements m).head?

/-- `it++` -/
def next (it : Iterator K) : Option (Iterator K) :=
  match it.elements m with
  | [] => none
  | _ :: rest => some (.ofElements rest)

variable {m} {x : K × V} {before rest : List (K × V)}

/-- **Traversal**: what is still to come for the iterator at the first of the last elements. -/
theorem elements_ofElements (h : m.entries = before ++ rest) :
    (Iterator.ofElements rest).elements m = rest := by
  cases rest with
  | nil => rfl
  | cons x rest =>
    have hsorted := m.sorted
    rw [h, List.pairwise_append] at hsorted
    have hbefore : ∀ y ∈ before, decide (y.1 ≠ x.1) = true := fun y hy =>
      decide_eq_true (hsorted.2.2 y hy x List.mem_cons_self).ne
    show m.entries.dropWhile (fun y => y.1 ≠ x.1) = x :: rest
    rw [h, List.dropWhile_append_of_pos hbefore, List.dropWhile_cons_of_neg (by simp)]

theorem deref_ofElements (h : m.entries = before ++ x :: rest) :
    m.deref (.ofElements (x :: rest)) = some x := by
  unfold deref
  rw [elements_ofElements h]
  rfl

theorem next_ofElements (h : m.entries = before ++ x :: rest) :
    m.next (.ofElements (x :: rest)) = some (.ofElements rest) := by
  unfold next
  rw [elements_ofElements h]

theorem elements_erase (k : K) : (Iterator.elem k).elements (m.erase k) = [] := by
  refine List.dropWhile_eq_nil_iff.mpr fun x hx => ?_
  exact (List.mem_filter.mp hx).2

/-- The iterator of an erased element may not be advanced. -/
theorem next_erase (k : K) : (m.erase k).next (.elem k) = none := by
  unfold next
  rw [elements_erase]

end OrderedMap
