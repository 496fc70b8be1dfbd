import Mathlib.Data.Nat.ModEq
import Mathlib.Tactic.Ring

/-!
# Little-endian byte strings

`toLE n x` is the `n`-byte little-endian form of the number `x` (its low `n` bytes), `ofLE` reads
such a form back. The two are inverse on numbers below `256 ^ n` and on byte strings of length `n`.
-/

namespace LittleEndian

/-- An octet. -/
abbrev Byte := BitVec 8

/-- The low `n` bytes of `x`, lowest first. -/
def toLE : ℕ → ℕ → List Byte
  | 0, _ => []
  | n + 1, x => BitVec.ofNat 8 x :: toLE n (x / 256)

/-- The number a byte string spells, lowest byte first. -/
def ofLE : List Byte → ℕ
  | [] => 0
  | b :: bs => b.toNat + 256 * ofLE bs

@[simp] theorem length_toLE (n x : ℕ) : (toLE n x).length = n := by
  induction n generalizing x with
  | zero => rfl
  | succ n ih => rw [toLE, List.length_cons, ih]

theorem ofLE_lt (bs : List Byte) : ofLE bs < 256 ^ bs.length := by
  induction bs with
  | nil => decide
  | cons b bs ih =>
    have hb : b.toNat < 256 := b.isLt
    rw [ofLE, List.length_cons, pow_succ]
    omega

/-- Writing and reading back keeps the low `n` bytes. -/
theorem ofLE_toLE (n x : ℕ) : ofLE (toLE n x) = x % 256 ^ n := by
  induction n generalizing x with
  | zero => rw [pow_zero, Nat.mod_one]; rfl
  | succ n ih =>
    have hb : (BitVec.ofNat 8 x).toNat = x % 256 := BitVec.toNat_ofNat x 8
    rw [toLE, ofLE, ih, hb, pow_succ', Nat.mod_mul]

theorem ofLE_toLE_of_lt {n x : ℕ} (h : x < 256 ^ n) : ofLE (toLE n x) = x := by
  rw [ofLE_toLE, Nat.mod_eq_of_lt h]

theorem toLE_ofLE (bs : List Byte) : toLE bs.length (ofLE bs) = bs := by
  induction bs with
  | nil => rfl
  | cons b bs ih =>
    have hb : b.toNat < 256 := b.isLt
    have hhead : BitVec.ofNat 8 (b.toNat + 256 * ofLE bs) = b := by
      apply BitVec.eq_of_toNat_eq
      rw [BitVec.toNat_ofNat]
      omega
    have htail : (b.toNat + 256 * ofLE bs) / 256 = ofLE bs := by omega
    rw [List.length_cons, ofLE, toLE, hhead, htail, ih]

end LittleEndian
