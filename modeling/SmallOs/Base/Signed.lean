import Mathlib.Algebra.Ring.Int.Defs
import SmallOs.Base.Bytes

/-!
# Signed little-endian words

A signed word of `n` bytes is the number modulo `256 ^ n`, and its top bit is the sign. In a machine
word of 64 bits it is put together byte by byte, and its sign is extended by a mask.
-/

namespace SmallOs.Base

/-- The number that a word of `n` bytes stands for when its top bit is the sign. -/
def signedValue (n raw : Nat) : Int :=
  if 0 < n ∧ 2 ^ (8 * n - 1) ≤ raw then (raw : Int) - 2 ^ (8 * n) else raw

/-- The word of `n` bytes for a number. -/
def signedWord (n : Nat) (v : Int) : Nat := (v % 2 ^ (8 * n)).toNat

/-- The number fits into a signed word of `n` bytes. -/
def FitsSigned (n : Nat) (v : Int) : Prop := -2 ^ (8 * n - 1) ≤ v ∧ v < 2 ^ (8 * n - 1)

instance (n : Nat) (v : Int) : Decidable (FitsSigned n v) := inferInstanceAs (Decidable (_ ∧ _))

theorem signedWord_lt (n : Nat) (v : Int) : signedWord n v < 256 ^ n := by
  have hpow : (256 : Nat) ^ n = 2 ^ (8 * n) := by rw [Nat.pow_mul]
  have hpos : (0 : Int) < 2 ^ (8 * n) := by exact_mod_cast Nat.two_pow_pos (8 * n)
  have hlt := Int.emod_lt_of_pos v hpos
  have hnonneg := Int.emod_nonneg v (Int.ne_of_gt hpos)
  rw [signedWord, hpow, Int.toNat_lt hnonneg]
  exact_mod_cast hlt

/-- A number that fits is read back with its sign. -/
theorem signedValue_signedWord {n : Nat} {v : Int} (hn : 0 < n) (h : FitsSigned n v) :
    signedValue n (signedWord n v) = v := by
  obtain ⟨hlow, hhigh⟩ := h
  have hhalf : (2 : Int) ^ (8 * n) = 2 ^ (8 * n - 1) + 2 ^ (8 * n - 1) := by
    have hexp : 8 * n = 8 * n - 1 + 1 := by omega
    rw [hexp, Nat.add_sub_cancel, pow_succ]
    omega
  have hcast : ((2 ^ (8 * n - 1) : Nat) : Int) = 2 ^ (8 * n - 1) := by push_cast; rfl
  generalize (2 : Int) ^ (8 * n - 1) = half at *
  rw [signedValue, signedWord, hhalf]
  by_cases hneg : v < 0
  · have hmod : v % (half + half) = v + (half + half) := by
      rw [← Int.add_emod_right, Int.emod_eq_of_lt (by omega) (by omega)]
    rw [hmod, if_pos ⟨hn, by omega⟩]
    omega
  · rw [Int.emod_eq_of_lt (by omega) (by omega), if_neg (by omega)]
    omega

/-! ### In a machine word -/

/-- A word of one byte more has that byte on top. -/
theorem leAt_succ (b : List UInt8) (off n : Nat) :
    leAt b off (n + 1) = leAt b off n + 256 ^ n * (b.getD (off + n) 0).toNat := by
  by_cases hin : off + n < b.length
  · have hone : slice b (off + n) 1 = [b.getD (off + n) 0] := by
      rw [slice, List.drop_eq_getElem_cons hin, List.take_succ_cons, List.take_zero,
        List.getD_eq_getElem?_getD, List.getElem?_eq_getElem hin, Option.getD_some]
    rw [leAt, leAt, slice_add, leNat_append, length_slice _ _ _ (by omega), hone, leNat, leNat,
      Nat.mul_zero, Nat.add_zero]
  · have hzero : b.getD (off + n) 0 = 0 := by
      rw [List.getD_eq_getElem?_getD, List.getElem?_eq_none (by omega), Option.getD_none]
    have hsame : slice b off (n + 1) = slice b off n := by
      rw [slice, slice, List.take_of_length_le (by rw [List.length_drop]; omega),
        List.take_of_length_le (by rw [List.length_drop]; omega)]
    rw [leAt, leAt, hsame, hzero]
    rfl

/-- A word is negative when its top byte has the sign bit. -/
theorem half_le_leAt_iff (b : List UInt8) (off : Nat) {n : Nat} (hn : 0 < n) :
    2 ^ (8 * n - 1) ≤ leAt b off n ↔ 128 ≤ (b.getD (off + n - 1) 0).toNat := by
  obtain ⟨m, rfl⟩ := Nat.exists_eq_add_one_of_ne_zero (Nat.ne_of_gt hn)
  have hlow := leAt_lt b off m
  have hpow : (256 : Nat) ^ m = 2 ^ (8 * m) := by rw [Nat.pow_mul]
  have hexp : 8 * (m + 1) - 1 = 8 * m + 7 := by omega
  have hoff : off + (m + 1) - 1 = off + m := rfl
  rw [leAt_succ, hexp, Nat.pow_add, ← hpow, hoff]
  generalize (b.getD (off + m) 0).toNat = top
  constructor
  · intro h
    by_contra hsmall
    have hle := Nat.mul_le_mul_left (256 ^ m) (show top + 1 ≤ 128 by omega)
    rw [Nat.mul_succ] at hle
    omega
  · intro h
    exact Nat.le_trans (Nat.mul_le_mul_left (256 ^ m) h) (Nat.le_add_left _ _)

/-- A byte that is shifted above a word and joined with it is its top byte. -/
theorem toNat_or_shiftLeft {acc : BitVec 64} {n i : Nat} (hn : n < 256) (hi : i < 8)
    (hacc : acc.toNat < 256 ^ i) :
    (acc ||| BitVec.ofNat 64 n <<< (i * 8)).toNat = acc.toNat + 256 ^ i * n := by
  have hpow : (256 : Nat) ^ i = 2 ^ (8 * i) := by rw [Nat.pow_mul]
  have hfit : n * 2 ^ (i * 8) < 2 ^ 64 := by
    calc n * 2 ^ (i * 8) < 256 * 2 ^ (i * 8) := Nat.mul_lt_mul_of_pos_right hn (Nat.two_pow_pos _)
      _ = 2 ^ (8 + i * 8) := by rw [Nat.pow_add]
      _ ≤ 2 ^ 64 := Nat.pow_le_pow_right (by decide) (by omega)
  have hn64 : n % 2 ^ 64 = n := Nat.mod_eq_of_lt (by omega)
  rw [hpow] at hacc ⊢
  rw [BitVec.toNat_or, BitVec.toNat_shiftLeft, BitVec.toNat_ofNat, hn64, Nat.shiftLeft_eq,
    Nat.mod_eq_of_lt hfit, Nat.or_comm, Nat.mul_comm n, Nat.mul_comm i,
    ← Nat.two_pow_add_eq_or_of_lt hacc, Nat.add_comm]

/-- Setting all bits above the `k` low ones subtracts `2 ^ k`. -/
theorem toInt_or_not_mask {raw : BitVec 64} {k : Nat} (hraw : raw.toNat < 2 ^ k) (hk : k < 64) :
    (raw ||| ~~~(1#64 <<< k - 1#64)).toInt = (raw.toNat : Int) - 2 ^ k := by
  have hlt : 2 ^ k < 2 ^ 64 := Nat.pow_lt_pow_right (by decide) hk
  have hhalf : 2 ^ k ≤ 2 ^ 63 := Nat.pow_le_pow_right (by decide) (by omega)
  have hpos := Nat.two_pow_pos k
  have hone : (1#64 <<< k).toNat = 2 ^ k := by
    rw [BitVec.toNat_shiftLeft, Nat.shiftLeft_eq, BitVec.toNat_ofNat,
      Nat.one_mod_two_pow (by decide), Nat.one_mul, Nat.mod_eq_of_lt hlt]
  have hmask : (1#64 <<< k - 1#64).toNat = 2 ^ k - 1 := by
    rw [BitVec.toNat_sub_of_le, hone]
    · rfl
    · rw [BitVec.le_def, hone]
      exact hpos
  have hsplit : 2 ^ 64 - 1 - (2 ^ k - 1) = 2 ^ k * (2 ^ (64 - k) - 1) := by
    rw [Nat.mul_sub, ← Nat.pow_add, Nat.add_sub_of_le (Nat.le_of_lt hk)]
    omega
  have hall : (raw ||| ~~~(1#64 <<< k - 1#64)).toNat = 2 ^ 64 - 2 ^ k + raw.toNat := by
    rw [BitVec.toNat_or, BitVec.toNat_not, hmask, hsplit, Nat.or_comm,
      ← Nat.two_pow_add_eq_or_of_lt hraw, ← hsplit]
    omega
  have hcast : ((2 ^ k : Nat) : Int) = 2 ^ k := by push_cast; rfl
  rw [BitVec.toInt_eq_toNat_cond, hall, if_neg (by omega), ← hcast]
  omega

end SmallOs.Base
