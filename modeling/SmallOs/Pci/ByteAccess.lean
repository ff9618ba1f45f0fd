import Mathlib.Data.Nat.Bitwise
import SmallOs.Base.Lanes
import SmallOs.Pci.Ecam

/-!
# Accesses to parts of a register

Reads of 8 and of 16 bits take a lane of a register and writes replace one. Over registers that keep
what is stored, the configuration space of every function is a memory of bytes.
-/

namespace SmallOs.Pci

open SmallOs.Base ConfigSpace

/-! ### Lanes -/

section Shifts

variable {part off : UInt16} {w cur sh : UInt32}

theorem toNat_and_three (off : UInt16) : (off &&& 3).toNat = off.toNat % 4 :=
  Nat.and_two_pow_sub_one_eq_mod off.toNat 2

/-- In an even offset, the bit above the last says where in the register it is. -/
theorem toNat_and_two (h : off.toNat % 2 = 0) : (off &&& 2).toNat = off.toNat % 4 := by
  have hmask : off.toNat &&& 2 = off.toNat / 2 % 2 * 2 := by
    have hbit := Nat.and_two_pow off.toNat 1
    rwa [Nat.toNat_testBit] at hbit
  change off.toNat &&& 2 = off.toNat % 4
  omega

theorem toNat_shift (h : part.toNat < 4) : (part * 8).toUInt32.toNat = 8 * part.toNat := by
  have height : (8 : UInt16).toNat = 8 := rfl
  rw [UInt16.toNat_toUInt32, UInt16.toNat_mul, height]
  omega

/-- How far the code shifts for a byte. -/
theorem toNat_shift8 (off : UInt16) :
    ((off &&& 3) * 8).toUInt32.toNat = 8 * (off.toNat % 4) := by
  have hpart := toNat_and_three off
  rw [toNat_shift (by omega), hpart]

/-- How far it shifts for half of a register. -/
theorem toNat_shift16 (h : off.toNat % 2 = 0) :
    ((off &&& 2) * 8).toUInt32.toNat = 8 * (off.toNat % 4) := by
  have hpart := toNat_and_two h
  rw [toNat_shift (by omega), hpart]

theorem toBitVec_shiftRight (h : sh.toNat < 32) :
    (w >>> sh).toBitVec = w.toBitVec >>> sh.toNat := by
  rw [UInt32.toBitVec_shiftRight, BitVec.ushiftRight_eq', BitVec.toNat_umod, UInt32.toNat_toBitVec]
  exact congrArg _ (Nat.mod_eq_of_lt h)

theorem toBitVec_shiftLeft (h : sh.toNat < 32) :
    (w <<< sh).toBitVec = w.toBitVec <<< sh.toNat := by
  rw [UInt32.toBitVec_shiftLeft, BitVec.shiftLeft_eq', BitVec.toNat_umod, UInt32.toNat_toBitVec]
  exact congrArg _ (Nat.mod_eq_of_lt h)

/-- A write under the mask of a byte replaces a lane. -/
theorem toBitVec_mask8 (v : UInt8) (h : sh.toNat < 32) :
    ((cur &&& ~~~(0xFF <<< sh)) ||| (v.toUInt32 <<< sh)).toBitVec =
      putLane cur.toBitVec sh.toNat v.toBitVec := by
  rw [UInt32.toBitVec_or, UInt32.toBitVec_and, UInt32.toBitVec_not, toBitVec_shiftLeft h,
    toBitVec_shiftLeft h]
  rfl

/-- So does one under the mask of two bytes. -/
theorem toBitVec_mask16 (v : UInt16) (h : sh.toNat < 32) :
    ((cur &&& ~~~(0xFFFF <<< sh)) ||| (v.toUInt32 <<< sh)).toBitVec =
      putLane cur.toBitVec sh.toNat v.toBitVec := by
  rw [UInt32.toBitVec_or, UInt32.toBitVec_and, UInt32.toBitVec_not, toBitVec_shiftLeft h,
    toBitVec_shiftLeft h]
  rfl

end Shifts

section Access

variable {S : Type} [ConfigSpace S] {e : Ecam} {s : S} {a b : PciAddress} {off off' : UInt16}

theorem read32_aligned : read32 e s a (off &&& ~~~3) = read32 e s a off := by
  rw [read32, read32, ecamPtr_aligned]

theorem write32_aligned {v : UInt32} : write32 e s a (off &&& ~~~3) v = write32 e s a off v := by
  rw [write32, write32, ecamPtr_aligned]

/-- A byte of a register. -/
theorem toBitVec_read8 : (read8 e s a off).toBitVec =
    lane 8 (read32 e s a off).toBitVec (8 * (off.toNat % 4)) := by
  have hshift := toNat_shift8 off
  rw [read8, read32_aligned, UInt32.toBitVec_toUInt8, toBitVec_shiftRight (by omega), hshift]
  rfl

/-- Half of a register. -/
theorem toBitVec_read16 (h : off.toNat % 2 = 0) : (read16 e s a off).toBitVec =
    lane 16 (read32 e s a off).toBitVec (8 * (off.toNat % 4)) := by
  have hshift := toNat_shift16 h
  rw [read16, read32_aligned, UInt32.toBitVec_toUInt16, toBitVec_shiftRight (by omega), hshift]
  rfl

theorem write8_eq {v : UInt8} : write8 e s a off v = write32 e s a off
    ⟨putLane (read32 e s a off).toBitVec (8 * (off.toNat % 4)) v.toBitVec⟩ := by
  have hshift := toNat_shift8 off
  rw [write8, read32_aligned, write32_aligned]
  congr 1
  apply UInt32.toBitVec_inj.mp
  rw [toBitVec_mask8 v (by omega), hshift]

theorem write16_eq {v : UInt16} (h : off.toNat % 2 = 0) :
    write16 e s a off v = write32 e s a off
      ⟨putLane (read32 e s a off).toBitVec (8 * (off.toNat % 4)) v.toBitVec⟩ := by
  have hshift := toNat_shift16 h
  rw [write16, read32_aligned, write32_aligned]
  congr 1
  apply UInt32.toBitVec_inj.mp
  rw [toBitVec_mask16 v (by omega), hshift]

theorem toNat_add_lt {i : UInt16} (h : off.toNat + i.toNat < 2 ^ 16) :
    (off + i).toNat = off.toNat + i.toNat := by
  rw [UInt16.toNat_add]
  exact Nat.mod_eq_of_lt h

/-- Offsets in one register. -/
theorem read32_congr (h : off.toNat / 4 = off'.toNat / 4) :
    read32 e s a off = read32 e s a off' := by
  rw [read32, read32, ecamPtr_eq, ecamPtr_eq, h]

/-- Half of a register is its two bytes, the lower one first. -/
theorem read16_bytes (h : off.toNat % 2 = 0) (hoff : off.toNat < 4096) : read16 e s a off =
    (read8 e s a off).toUInt16 ||| (read8 e s a (off + 1)).toUInt16 <<< 8 := by
  have hone : (1 : UInt16).toNat = 1 := rfl
  have hnext : (off + 1).toNat = off.toNat + 1 := toNat_add_lt (by omega)
  have hsame : read32 e s a (off + 1) = read32 e s a off := read32_congr (by omega)
  have hshift : 8 * ((off.toNat + 1) % 4) = 8 * (off.toNat % 4) + 8 := by omega
  apply UInt16.toBitVec_inj.mp
  rw [UInt16.toBitVec_or, UInt16.toBitVec_shiftLeft, UInt8.toBitVec_toUInt16,
    UInt8.toBitVec_toUInt16, toBitVec_read16 h, toBitVec_read8, toBitVec_read8, hsame, hnext,
    hshift, lane_split (k := 8) (by decide)]
  rfl

/-- The offset of the register that holds an offset. -/
theorem toNat_aligned (off : UInt16) :
    (off &&& ~~~3).toNat % 4 = 0 ∧ (off &&& ~~~3).toNat + 4 ≤ 2 ^ 16 := by
  have hmod : (off &&& ~~~3).toNat % 4 = 0 := by
    rw [← Nat.and_two_pow_sub_one_eq_mod _ 2, UInt16.toNat_and, Nat.and_assoc]
    exact Nat.and_zero _
  have hlt := (off &&& ~~~3).toNat_lt
  exact ⟨hmod, by omega⟩

/-- A byte of the register that holds an offset. -/
theorem toBitVec_read8_aligned {i : UInt16} (hi : i.toNat < 4) :
    (read8 e s a ((off &&& ~~~3) + i)).toBitVec =
      lane 8 (read32 e s a off).toBitVec (8 * i.toNat) := by
  obtain ⟨hmod, hlt⟩ := toNat_aligned off
  have hsum : ((off &&& ~~~3) + i).toNat = (off &&& ~~~3).toNat + i.toNat := toNat_add_lt (by omega)
  have hsame : read32 e s a ((off &&& ~~~3) + i) = read32 e s a off := by
    rw [read32_congr (show ((off &&& ~~~3) + i).toNat / 4 = (off &&& ~~~3).toNat / 4 by omega)]
    exact read32_aligned
  rw [toBitVec_read8, hsame, show ((off &&& ~~~3) + i).toNat % 4 = i.toNat by omega]

/-- A register is its four bytes, the lowest one first. -/
theorem read32_bytes : read32 e s a off =
    (read8 e s a ((off &&& ~~~3) + 0)).toUInt32 |||
      (read8 e s a ((off &&& ~~~3) + 1)).toUInt32 <<< 8 |||
      (read8 e s a ((off &&& ~~~3) + 2)).toUInt32 <<< 16 |||
      (read8 e s a ((off &&& ~~~3) + 3)).toUInt32 <<< 24 := by
  apply UInt32.toBitVec_inj.mp
  simp only [UInt32.toBitVec_or, UInt32.toBitVec_shiftLeft, UInt8.toBitVec_toUInt32]
  rw [toBitVec_read8_aligned (by decide), toBitVec_read8_aligned (by decide),
    toBitVec_read8_aligned (by decide), toBitVec_read8_aligned (by decide)]
  exact (bytes_join _).symm

end Access

/-! ### A memory of bytes -/

section Words

variable {e : Ecam} {words : Words} {a b : PciAddress} {off off' : UInt16} {v : UInt32}

/-- What is read after a store. -/
theorem read32_write32 : read32 e (write32 e words a off v) b off' =
    if ecamPtr e b off' = ecamPtr e a off then v else read32 e words b off' := rfl

/-- A byte in front of the lane that is replaced, behind it, or in another register. -/
theorem read8_putLane_of_ne {m : Nat} {x : BitVec m} (ha : a.Valid) (hb : b.Valid)
    (hoff : off.toNat < 4096) (hoff' : off'.toNat < 4096) (hm : 8 * (off.toNat % 4) + m ≤ 32)
    (hne : b ≠ a ∨ off'.toNat < off.toNat ∨ 8 * off.toNat + m ≤ 8 * off'.toNat) :
    read8 e (write32 e words a off
        ⟨putLane (read32 e words a off).toBitVec (8 * (off.toNat % 4)) x⟩) b off' =
      read8 e words b off' := by
  apply UInt8.toBitVec_inj.mp
  rw [toBitVec_read8, toBitVec_read8, read32_write32]
  split
  · next hsame =>
    obtain ⟨rfl, hword⟩ := ecamPtr_inj hb ha hoff' hoff hsame
    have hread : read32 e words b off' = read32 e words b off := read32_congr hword
    rw [hread]
    apply lane_putLane_of_disjoint hm
    rcases hne with hne | hne
    · exact absurd rfl hne
    · omega
  · rfl

/-- Stores of bytes and of half registers change exactly the bytes that they are for, in the
configuration space of their function; half registers and registers are read as their bytes, the
lowest one first; and different registers have different addresses. -/
structure ActsAsBytes (e : Ecam) : Prop where
  read8_write8 : ∀ (words : Words) a off v, read8 e (write8 e words a off v) a off = v
  write8_others : ∀ (words : Words) a b off off' v, a.Valid → b.Valid → off.toNat < 4096 →
    off'.toNat < 4096 → (b, off') ≠ (a, off) →
      read8 e (write8 e words a off v) b off' = read8 e words b off'
  read16_write16 : ∀ (words : Words) a off v, off.toNat % 2 = 0 →
    read16 e (write16 e words a off v) a off = v
  write16_others : ∀ (words : Words) a b off off' v, a.Valid → b.Valid → off.toNat < 4096 →
    off.toNat % 2 = 0 → off'.toNat < 4096 → (b, off') ≠ (a, off) → (b, off') ≠ (a, off + 1) →
      read8 e (write16 e words a off v) b off' = read8 e words b off'
  read16_bytes : ∀ (words : Words) a off, off.toNat < 4096 → off.toNat % 2 = 0 →
    read16 e words a off =
      (read8 e words a off).toUInt16 ||| (read8 e words a (off + 1)).toUInt16 <<< 8
  read32_bytes : ∀ (words : Words) a off, read32 e words a off =
    (read8 e words a ((off &&& ~~~3) + 0)).toUInt32 |||
      (read8 e words a ((off &&& ~~~3) + 1)).toUInt32 <<< 8 |||
      (read8 e words a ((off &&& ~~~3) + 2)).toUInt32 <<< 16 |||
      (read8 e words a ((off &&& ~~~3) + 3)).toUInt32 <<< 24
  addresses : ∀ a b off off', a.Valid → b.Valid → off.toNat < 4096 → off'.toNat < 4096 →
    ecamPtr e a off = ecamPtr e b off' → a = b ∧ off.toNat / 4 = off'.toNat / 4

theorem ne_of_pair_ne (h : (b, off') ≠ (a, off)) : b ≠ a ∨ off'.toNat ≠ off.toNat := by
  by_contra hboth
  rw [not_or, not_not, not_not] at hboth
  exact h (Prod.ext hboth.1 (UInt16.toNat_inj.mp hboth.2))

/-- The configuration space behind every window is a memory of bytes. -/
theorem actsAsBytes (e : Ecam) : ActsAsBytes e where
  read8_write8 words a off v := by
    apply UInt8.toBitVec_inj.mp
    rw [write8_eq, toBitVec_read8, read32_write32, if_pos rfl]
    exact lane_putLane_self (by omega)
  write8_others words a b off off' v ha hb hoff hoff' hne := by
    rw [write8_eq]
    apply read8_putLane_of_ne ha hb hoff hoff' (by omega)
    exact (ne_of_pair_ne hne).imp_right (by omega)
  read16_write16 words a off v heven := by
    apply UInt16.toBitVec_inj.mp
    rw [write16_eq heven, toBitVec_read16 heven, read32_write32, if_pos rfl]
    exact lane_putLane_self (by omega)
  write16_others words a b off off' v ha hb hoff heven hoff' hne hne' := by
    rw [write16_eq heven]
    apply read8_putLane_of_ne ha hb hoff hoff' (by omega)
    have hone : (1 : UInt16).toNat = 1 := rfl
    have hnext : (off + 1).toNat = off.toNat + 1 := toNat_add_lt (by omega)
    rcases ne_of_pair_ne hne with hfunction | hfirst
    · exact .inl hfunction
    · rcases ne_of_pair_ne hne' with hfunction | hsecond
      · exact .inl hfunction
      · exact .inr (by omega)
  read16_bytes words a off hoff heven := Pci.read16_bytes heven hoff
  read32_bytes words a off := Pci.read32_bytes
  addresses a b off off' ha hb hoff hoff' h := ecamPtr_inj ha hb hoff hoff' h

end Words

end SmallOs.Pci
