import Mathlib.Data.Nat.Bitwise

/-!
# Masks

Masks of all bits from one on, and registers with bits that no store changes.
-/

namespace SmallOs.Base

variable {n k j : Nat}

/-- The bits from bit `k` on, up to bit `n`. -/
theorem and_upperMask (h : k ≤ n) (x : Nat) :
    x &&& (2 ^ n - 2 ^ k) = x % 2 ^ n / 2 ^ k * 2 ^ k := by
  have hmask : 2 ^ n - 2 ^ k = (2 ^ (n - k) - 1) * 2 ^ k := by
    rw [Nat.sub_mul, Nat.one_mul, ← Nat.pow_add, Nat.sub_add_cancel h]
  apply Nat.eq_of_testBit_eq
  intro i
  rw [hmask, Nat.testBit_and, Nat.testBit_mul_two_pow, Nat.testBit_mul_two_pow,
    Nat.testBit_two_pow_sub_one, Nat.testBit_div_two_pow, Nat.testBit_mod_two_pow]
  by_cases hi : k ≤ i
  · have hiff : i - k < n - k ↔ i < n := by omega
    simp [hi, hiff, Bool.and_comm]
  · simp [hi]

/-- What a register holds after a store: the bits that cannot be written stay. -/
def keep (old new writable : BitVec n) : BitVec n := (old &&& ~~~writable) ||| (new &&& writable)

theorem getLsbD_keep (old new writable : BitVec n) (i : Nat) : (keep old new writable).getLsbD i =
    if writable.getLsbD i then new.getLsbD i else old.getLsbD i := by
  rw [keep, BitVec.getLsbD_or, BitVec.getLsbD_and, BitVec.getLsbD_and, BitVec.getLsbD_not]
  by_cases hi : i < n
  · cases writable.getLsbD i <;> simp [hi]
  · simp [BitVec.getLsbD_of_ge _ i (Nat.le_of_not_lt hi)]

/-- A store hides the store before it, and storing what is there changes nothing. -/
theorem keep_keep_self (old new writable : BitVec n) :
    keep (keep old new writable) old writable = old := by
  apply BitVec.eq_of_getLsbD_eq
  intro i hi
  rw [getLsbD_keep, getLsbD_keep]
  split <;> rfl

/-- A register that can be written from bit `j` on, after a store of ones. -/
theorem toNat_keep_allOnes {old writable : BitVec n} (hj : j ≤ n)
    (hwritable : writable.toNat = 2 ^ n - 2 ^ j) :
    (keep old (BitVec.allOnes n) writable).toNat = old.toNat % 2 ^ j + (2 ^ n - 2 ^ j) := by
  have hpow : 2 ^ j ≤ 2 ^ n := Nat.pow_le_pow_right (by decide) hj
  have hpos : 0 < 2 ^ j := Nat.two_pow_pos j
  have hnot : 2 ^ n - 1 - writable.toNat = 2 ^ j - 1 := by omega
  have hupper : 2 ^ n - 2 ^ j = 2 ^ j * (2 ^ (n - j) - 1) := by
    rw [Nat.mul_sub, Nat.mul_one, ← Nat.pow_add, Nat.add_sub_cancel' hj]
  have hlt : old.toNat % 2 ^ j < 2 ^ j := Nat.mod_lt _ hpos
  rw [keep, BitVec.allOnes_and, BitVec.toNat_or, BitVec.toNat_and, BitVec.toNat_not, hnot,
    Nat.and_two_pow_sub_one_eq_mod, hwritable, hupper, Nat.or_comm,
    ← Nat.two_pow_add_eq_or_of_lt hlt, Nat.add_comm]

/-- What is left of that when the lower four bits are cleared. -/
theorem clear_ones {r : Nat} (hn : 4 ≤ n) (hr : r < 2 ^ j) (hr' : r < 2 ^ 4) :
    (r + (2 ^ n - 2 ^ j)) / 2 ^ 4 * 2 ^ 4 = 2 ^ n - 2 ^ max 4 j := by
  have hpow : 2 ^ n = 2 ^ (n - 4) * 2 ^ 4 := by rw [← Nat.pow_add, Nat.sub_add_cancel hn]
  rcases Nat.le_total 4 j with hle | hle
  · have hpow' : 2 ^ j = 2 ^ (j - 4) * 2 ^ 4 := by rw [← Nat.pow_add, Nat.sub_add_cancel hle]
    rw [Nat.max_eq_right hle]
    omega
  · have hsmall : 2 ^ j ≤ 2 ^ 4 := Nat.pow_le_pow_right (by decide) hle
    have hlarge : 2 ^ 4 ≤ 2 ^ n := Nat.pow_le_pow_right (by decide) hn
    rw [Nat.max_eq_left hle]
    omega

/-- The negated mask of the bits from bit `k` on. -/
theorem toNat_not_add_one {x : BitVec n} (hk : k < n) (hx : x.toNat = 2 ^ n - 2 ^ k) :
    (~~~x + 1#n).toNat = 2 ^ k := by
  have hlt : 2 ^ k < 2 ^ n := Nat.pow_lt_pow_right (by decide) hk
  rw [← BitVec.neg_eq_not_add, BitVec.toNat_neg, hx, Nat.sub_sub_self hlt.le]
  exact Nat.mod_eq_of_lt hlt

end SmallOs.Base
