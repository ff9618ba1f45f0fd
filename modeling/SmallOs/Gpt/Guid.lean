import Mathlib.Data.Nat.ModEq
import SmallOs.Gpt.Table

/-!
# Generated identifiers

`lib/vfs/src/partition/gpt/mod.rs:22–30`. The version mark takes bits 52 to 55 of the
counter. The multiplier is odd, so the product puts them back: below bit 52 the product
depends on the kept bits alone, and its bits from 52 on stand unmarked in the last two bytes.
-/

namespace SmallOs.Gpt

open SmallOs.Base

/-- `lib/vfs/src/partition/gpt/mod.rs:26`. -/
def guidMultiplier : Nat := 0x9E3779B97F4A7C15

/-! ### The bytes of an identifier -/

/-- The version mark leaves the low half of the byte. -/
theorem version_mod (byte : UInt8) :
    ((byte &&& 0x0F) ||| 0x40).toNat % 16 = byte.toNat % 16 := by
  have hand : byte.toNat &&& 15 = byte.toNat % 16 := Nat.and_two_pow_sub_one_eq_mod _ 4
  have hor : (byte.toNat % 16 ||| 64) % 2 ^ 4 = byte.toNat % 16 % 2 ^ 4 ||| 64 % 2 ^ 4 :=
    Nat.or_mod_two_pow
  rw [UInt8.toNat_or, UInt8.toNat_and]
  change (byte.toNat &&& 15 ||| 64) % 16 = _
  rw [hand]
  simpa using hor

theorem guidOf_counter (n : UInt64) (i : Nat) (hi : i < 8) (h6 : i ≠ 6) :
    ((guidOf n)[i]).toNat = n.toNat / 256 ^ i % 256 := by
  simp [guidOf, show 8 ≠ i by omega, show 6 ≠ i by omega, hi]

theorem guidOf_version (n : UInt64) (i : Nat) (hi : i < 8) (h6 : i = 6) :
    ((guidOf n)[i]).toNat % 16 = n.toNat / 256 ^ i % 16 := by
  have hbyte : (guidOf n)[i] =
      (UInt8.ofNat (n.toNat / 256 ^ i % 256) &&& 0x0F) ||| 0x40 := by
    subst h6
    simp [guidOf]
  rw [hbyte, version_mod]
  simp

theorem guidOf_product (n : UInt64) (i : Nat) (hi : i < 16) (h8 : 8 < i) :
    ((guidOf n)[i]).toNat = n.toNat * guidMultiplier % 2 ^ 64 / 256 ^ (i - 8) % 256 := by
  simp [guidOf, show 8 ≠ i by omega, show 6 ≠ i by omega, show ¬i < 8 by omega, guidMultiplier]

/-! ### What the marks leave -/

/-- The bytes before the mark and its low half hold the counter's low 52 bits. -/
theorem counter_low {n m : UInt64} (h : guidOf n = guidOf m) :
    n.toNat % 2 ^ 52 = m.toNat % 2 ^ 52 := by
  have hbyte (i : Nat) (hi : i < 8) (h6 : i ≠ 6) :
      n.toNat / 256 ^ i % 256 = m.toNat / 256 ^ i % 256 := by
    rw [← guidOf_counter n i hi h6, ← guidOf_counter m i hi h6, h]
  have hlow : ∀ i ≤ 6, n.toNat % 256 ^ i = m.toNat % 256 ^ i := by
    intro i hi
    induction i with
    | zero => rw [Nat.pow_zero, Nat.mod_one, Nat.mod_one]
    | succ i ih =>
      rw [Nat.pow_succ, Nat.mod_mul, Nat.mod_mul, ih (by omega), hbyte i (by omega) (by omega)]
  have hmark : n.toNat / 256 ^ 6 % 16 = m.toNat / 256 ^ 6 % 16 := by
    rw [← guidOf_version n 6 (by decide) rfl, ← guidOf_version m 6 (by decide) rfl, h]
  have hbits : 2 ^ 52 = 256 ^ 6 * 16 := by decide
  rw [hbits, Nat.mod_mul, Nat.mod_mul, hlow 6 (Nat.le_refl 6), hmark]

/-- The last two bytes hold the product's bits from 48 on. -/
theorem product_high {n m : UInt64} (h : guidOf n = guidOf m) :
    n.toNat * guidMultiplier % 2 ^ 64 / 2 ^ 52 = m.toNat * guidMultiplier % 2 ^ 64 / 2 ^ 52 := by
  have hbyte (i : Nat) (hi : i < 16) (h8 : 8 < i) :
      n.toNat * guidMultiplier % 2 ^ 64 / 256 ^ (i - 8) % 256 =
        m.toNat * guidMultiplier % 2 ^ 64 / 256 ^ (i - 8) % 256 := by
    rw [← guidOf_product n i hi h8, ← guidOf_product m i hi h8, h]
  have h14 := hbyte 14 (by decide) (by decide)
  have h15 := hbyte 15 (by decide) (by decide)
  omega

/-- Counters with the same low bits have products with the same low bits. -/
theorem product_low {n m k : Nat} (c : Nat) (hk : k ≤ 64) (h : n % 2 ^ k = m % 2 ^ k) :
    n * c % 2 ^ 64 % 2 ^ k = m * c % 2 ^ 64 % 2 ^ k := by
  have hdvd : 2 ^ k ∣ 2 ^ 64 := Nat.pow_dvd_pow 2 hk
  rw [Nat.mod_mod_of_dvd _ hdvd, Nat.mod_mod_of_dvd _ hdvd]
  exact Nat.ModEq.mul_right c h

/-- Multiplication by the odd constant loses nothing modulo `2 ^ 64`. -/
theorem eq_of_product {n m : Nat} (hn : n < 2 ^ 64) (hm : m < 2 ^ 64)
    (h : n * guidMultiplier % 2 ^ 64 = m * guidMultiplier % 2 ^ 64) : n = m := by
  have hcoprime : Nat.gcd (2 ^ 64) guidMultiplier = 1 := by decide
  have hmod : n ≡ m [MOD 2 ^ 64] := Nat.ModEq.cancel_right_of_coprime hcoprime h
  exact Nat.ModEq.eq_of_lt_of_lt hmod hn hm

theorem guidOf_inj {n m : UInt64} (h : guidOf n = guidOf m) : n = m := by
  have hlow := product_low guidMultiplier (by decide) (counter_low h)
  have hhigh := product_high h
  have hproduct : n.toNat * guidMultiplier % 2 ^ 64 = m.toNat * guidMultiplier % 2 ^ 64 := by
    rw [← Nat.div_add_mod (n.toNat * guidMultiplier % 2 ^ 64) (2 ^ 52), hlow, hhigh,
      Nat.div_add_mod]
  exact UInt64.toNat_inj.mp (eq_of_product n.toNat_lt m.toNat_lt hproduct)

/-- Two calls return the same sixteen bytes exactly when they found the same counter. -/
theorem generateGuid_eq_iff {D : Type} (s t : State D) :
    (generateGuid s).1 = (generateGuid t).1 ↔ s.guidCounter = t.guidCounter := by
  constructor
  · intro h
    exact guidOf_inj (Outcome.ok.inj h)
  · intro h
    simp only [generateGuid, h]

end SmallOs.Gpt
