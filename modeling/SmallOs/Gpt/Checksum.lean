import SmallOs.Base.Crc
import SmallOs.Gpt.Table

/-!
# The table-driven checksum is CRC-32

`lib/vfs/src/partition/gpt/mod.rs:31–54` against the checksum that the GPT format
prescribes: the reflected register of 32 bits, its polynomial `0xEDB88320`, started at
all ones and complemented at the end, with every byte fed in bit after bit.
-/

namespace SmallOs.Gpt

open SmallOs.Base

/-- The reflected polynomial of CRC-32. -/
def crcPolynomial : BitVec 32 := 0xEDB88320#32

/-- CRC-32 one message bit at a time, without a table. -/
def crc32Bitwise (data : List UInt8) : UInt32 :=
  ~~~ UInt32.ofBitVec (Crc.feedBits crcPolynomial (BitVec.allOnes 32)
    (data.flatMap fun byte ↦ Crc.bits 8 (byte.toBitVec.setWidth 32)))

/-! ### The table's construction -/

theorem toBitVec_crcBit (crc : UInt32) :
    (crcBit crc).toBitVec = Crc.shift crcPolynomial crc.toBitVec := by
  have hlow : (crc &&& 1 ≠ 0) ↔ crc.toBitVec.getLsbD 0 = true := by
    rw [Ne, ← UInt32.toBitVec_inj, UInt32.toBitVec_and]
    change ¬crc.toBitVec &&& 1#32 = 0#32 ↔ _
    rw [BitVec.and_one_eq_setWidth_ofBool_getLsbD]
    cases crc.toBitVec.getLsbD 0 <;> decide
  simp only [crcBit, Crc.shift]
  by_cases h : crc.toBitVec.getLsbD 0 = true
  · rw [if_pos (hlow.mpr h), if_pos h]
    rfl
  · rw [if_neg (fun hc ↦ h (hlow.mp hc)), if_neg h]
    rfl

theorem toBitVec_repeat_crcBit (n : Nat) (crc : UInt32) :
    (Nat.repeat crcBit n crc).toBitVec = Crc.shifts crcPolynomial n crc.toBitVec := by
  induction n with
  | zero => rfl
  | succ n ih => rw [Nat.repeat, toBitVec_crcBit, ih, Crc.shifts_succ]

/-- Entry `i` of the table is eight register steps of `i`. -/
theorem toBitVec_crc32cTable (i : UInt8) :
    (crc32cTable.get ⟨i.toNat, UInt8.toNat_lt i⟩).toBitVec =
      Crc.shifts crcPolynomial 8 (i.toBitVec.setWidth 32) := by
  have hget : crc32cTable.get ⟨i.toNat, UInt8.toNat_lt i⟩ =
      Nat.repeat crcBit 8 (UInt32.ofNat i.toNat) := Vector.getElem_ofFn ..
  have hword : (UInt32.ofNat i.toNat).toBitVec = i.toBitVec.setWidth 32 := by
    apply BitVec.eq_of_toNat_eq
    simp
  rw [hget, toBitVec_repeat_crcBit, hword]

/-! ### One byte of the message -/

theorem byte_ushiftRight (byte : UInt8) : byte.toBitVec.setWidth 32 >>> 8 = 0#32 := by
  apply BitVec.eq_of_getLsbD_eq
  intro i hi
  simp

/-- The table's index is the low byte of register and message byte together. -/
theorem bits_crcIndex (crc : UInt32) (byte : UInt8) :
    Crc.bits 8 ((crc.toUInt8 ^^^ byte).toBitVec.setWidth 32) =
      Crc.bits 8 (crc.toBitVec ^^^ byte.toBitVec.setWidth 32) := by
  apply List.map_congr_left
  intro i hi
  have h8 : i < 8 := List.mem_range.mp hi
  have h32 : i < 32 := by omega
  simp only [UInt8.toBitVec_xor, UInt32.toBitVec_toUInt8, BitVec.getLsbD_setWidth,
    BitVec.getLsbD_xor, h8, h32, decide_true, Bool.true_and]

/-- One round of the table is the byte's eight bits fed in. -/
theorem toBitVec_crcByte (crc : UInt32) (byte : UInt8) :
    (crcByte crc byte).toBitVec =
      Crc.feedBits crcPolynomial crc.toBitVec (Crc.bits 8 (byte.toBitVec.setWidth 32)) := by
  have hhigh : (crc.toBitVec ^^^ byte.toBitVec.setWidth 32) >>> 8 = crc.toBitVec >>> 8 := by
    rw [BitVec.ushiftRight_xor_distrib, byte_ushiftRight, BitVec.xor_zero]
  calc (crcByte crc byte).toBitVec
      = Crc.shifts crcPolynomial 8 ((crc.toUInt8 ^^^ byte).toBitVec.setWidth 32)
          ^^^ (crc.toBitVec >>> 8) := by
        rw [crcByte, UInt32.toBitVec_xor, toBitVec_crc32cTable]
        rfl
    _ = Crc.shifts crcPolynomial 8 (crc.toBitVec ^^^ byte.toBitVec.setWidth 32) := by
        rw [Crc.shifts_split crcPolynomial (bits_crcIndex crc byte) (byte_ushiftRight _), hhigh]
    _ = _ := (Crc.feedBits_bits crcPolynomial (byte_ushiftRight byte) _).symm

/-! ### The whole message -/

theorem toBitVec_foldl_crcByte (data : List UInt8) (crc : UInt32) :
    (data.foldl crcByte crc).toBitVec = Crc.feedBits crcPolynomial crc.toBitVec
      (data.flatMap fun byte ↦ Crc.bits 8 (byte.toBitVec.setWidth 32)) := by
  induction data generalizing crc with
  | nil => rfl
  | cons byte data ih =>
    rw [List.foldl_cons, List.flatMap_cons, Crc.feedBits_append, ih, toBitVec_crcByte]

/-- For every byte string the table gives the checksum that the bits give one by one. -/
theorem crc32_eq_crc32Bitwise (data : List UInt8) : crc32 data = crc32Bitwise data := by
  have hfold : data.foldl crcByte (~~~ 0) = UInt32.ofBitVec
      (Crc.feedBits crcPolynomial (BitVec.allOnes 32)
        (data.flatMap fun byte ↦ Crc.bits 8 (byte.toBitVec.setWidth 32))) :=
    UInt32.toBitVec_inj.mp (toBitVec_foldl_crcByte data (~~~ 0))
  rw [crc32_eq_foldl, hfold, crc32Bitwise]

/-- What two strings end in alike hides no difference between them. -/
theorem crc32_append_right {a b rest : List UInt8} (h : crc32 (a ++ rest) = crc32 (b ++ rest)) :
    crc32 a = crc32 b := by
  rw [crc32_eq_foldl, crc32_eq_foldl, List.foldl_append, List.foldl_append, UInt32.not_inj] at h
  have hbits := congrArg UInt32.toBitVec h
  rw [toBitVec_foldl_crcByte rest, toBitVec_foldl_crcByte rest] at hbits
  have htop : crcPolynomial.getLsbD (32 - 1) = true := by decide
  have hsame : a.foldl crcByte (~~~ 0) = b.foldl crcByte (~~~ 0) :=
    UInt32.toBitVec_inj.mp (Crc.feedBits_injective htop hbits)
  rw [crc32_eq_foldl, crc32_eq_foldl, hsame]

/-- The check value of CRC-32: the nine digits `123456789`. -/
example : crc32Bitwise [0x31, 0x32, 0x33, 0x34, 0x35, 0x36, 0x37, 0x38, 0x39] = 0xCBF43926 := by
  decide +kernel

end SmallOs.Gpt
