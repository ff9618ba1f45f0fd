import SmallOs.Driver.Sectors
import SmallOs.Driver.Transfer

/-!
# What an AHCI command addresses

`lib/driver/src/block/ahci/port.rs:122–231` and `identify_sector_count` of `ahci/mod.rs`, with
the meaning that ATA gives to the bytes of a command: the opcode says which of them hold the
address. The driver spreads 48 bits over a command that reads 28 of them, and takes 32 bits of
the sector count.
-/

namespace SmallOs.Driver.Ahci

open SmallOs.Base SmallOs.Hal

/-! ### The register FIS -/

/-- `lib/driver/src/block/ahci/fis.rs:14–32`, in the order of its bytes. -/
structure FisRegH2D where
  fisType : UInt8
  pmport : UInt8
  command : UInt8
  featurel : UInt8
  lba0 : UInt8
  lba1 : UInt8
  lba2 : UInt8
  device : UInt8
  lba3 : UInt8
  lba4 : UInt8
  lba5 : UInt8
  featureh : UInt8
  countl : UInt8
  counth : UInt8
  icc : UInt8
  control : UInt8
  reserved : Vector UInt8 4
  deriving DecidableEq

/-- The FIS in memory. -/
def FisRegH2D.bytes (fis : FisRegH2D) : List UInt8 :=
  [fis.fisType, fis.pmport, fis.command, fis.featurel, fis.lba0, fis.lba1, fis.lba2, fis.device,
    fis.lba3, fis.lba4, fis.lba5, fis.featureh, fis.countl, fis.counth, fis.icc, fis.control] ++
    fis.reserved.toList

/-- `((lba >> shift) & 0xFF) as u8`. -/
def lbaByte (lba shift : Nat) : UInt8 := UInt8.ofNat (lba >>> shift &&& 0xFF)

/-- The FIS of a command, over the zeroed command table;
`lib/driver/src/block/ahci/port.rs:151–164`. -/
def Command.fis (c : Command) : FisRegH2D where
  fisType := 0x27
  pmport := 0x80
  command := c.command
  featurel := 0
  lba0 := lbaByte c.lba 0
  lba1 := lbaByte c.lba 8
  lba2 := lbaByte c.lba 16
  device := (0x40 : UInt8) ||| UInt8.ofNat (c.lba >>> 24 &&& 0x0F)
  lba3 := lbaByte c.lba 24
  lba4 := lbaByte c.lba 32
  lba5 := lbaByte c.lba 40
  featureh := 0
  countl := UInt8.ofNat (c.count &&& 0xFF)
  counth := UInt8.ofNat (c.count >>> 8 &&& 0xFF)
  icc := 0
  control := 0
  reserved := #v[0, 0, 0, 0]

/-! ### What a drive makes of it -/

/-- READ SECTORS and WRITE SECTORS. -/
def is28Bit (opcode : UInt8) : Bool := opcode = 0x20 || opcode = 0x30

/-- READ SECTORS EXT and WRITE SECTORS EXT. -/
def is48Bit (opcode : UInt8) : Bool := opcode = 0x24 || opcode = 0x34

/-- The sector that a drive goes to: a 28-bit command has its high bits in the low half of the
device register, an EXT command has six address bytes. -/
def addressed (fis : List UInt8) : Option Nat :=
  let byte i := (fis.getD i 0).toNat
  if is28Bit (fis.getD 2 0) then
    some (byte 4 + 2 ^ 8 * byte 5 + 2 ^ 16 * byte 6 + 2 ^ 24 * (byte 7 % 16))
  else if is48Bit (fis.getD 2 0) then
    some (byte 4 + 2 ^ 8 * byte 5 + 2 ^ 16 * byte 6 + 2 ^ 24 * byte 8 + 2 ^ 32 * byte 9 +
      2 ^ 40 * byte 10)
  else none

theorem toNat_lbaByte (lba shift : Nat) : (lbaByte lba shift).toNat = lba / 2 ^ shift % 256 := by
  have hand : lba >>> shift &&& 0xFF = lba / 2 ^ shift % 256 := by
    rw [Nat.shiftRight_eq_div_pow]
    exact Nat.and_two_pow_sub_one_eq_mod _ 8
  rw [lbaByte, hand, UInt8.toNat_ofNat']
  omega

/-- The mark for addressing by LBA leaves the low half of the device register. -/
theorem device_mod (lba : Nat) :
    ((0x40 : UInt8) ||| UInt8.ofNat (lba >>> 24 &&& 0x0F)).toNat % 16 = lba / 2 ^ 24 % 16 := by
  have hand : lba >>> 24 &&& 0x0F = lba / 2 ^ 24 % 16 := by
    rw [Nat.shiftRight_eq_div_pow]
    exact Nat.and_two_pow_sub_one_eq_mod _ 4
  have hbyte : (UInt8.ofNat (lba >>> 24 &&& 0x0F)).toNat = lba / 2 ^ 24 % 16 := by
    rw [hand, UInt8.toNat_ofNat']
    omega
  have hor : (64 ||| lba / 2 ^ 24 % 16) % 2 ^ 4 = 64 % 2 ^ 4 ||| lba / 2 ^ 24 % 16 % 2 ^ 4 :=
    Nat.or_mod_two_pow
  rw [UInt8.toNat_or, hbyte]
  simpa using hor

/-- The two commands of the driver go to the low 28 bits of their address. -/
theorem addressed_fis {c : Command} (h : is28Bit c.command = true) :
    addressed c.fis.bytes = some (c.lba % 2 ^ 28) := by
  have hopcode : c.fis.bytes.getD 2 0 = c.command := rfl
  have hdevice := device_mod c.lba
  have h0 := toNat_lbaByte c.lba 0
  have h1 := toNat_lbaByte c.lba 8
  have h2 := toNat_lbaByte c.lba 16
  simp only [addressed, hopcode, h, if_true]
  congr 1
  change (lbaByte c.lba 0).toNat + 2 ^ 8 * (lbaByte c.lba 8).toNat +
    2 ^ 16 * (lbaByte c.lba 16).toNat +
      2 ^ 24 * (((0x40 : UInt8) ||| UInt8.ofNat (c.lba >>> 24 &&& 0x0F)).toNat % 16) = _
  rw [h0, h1, h2, hdevice]
  omega

/-! ### The commands of a port -/

/-- A port that keeps the FIS of every command that it issues. -/
def recordFis : IssueCommand (List (List UInt8)) := fun c p ↦
  (.ok (), { p with device := p.device ++ [c.fis.bytes] })

/-- The FIS that such a port keeps of its first command. -/
theorem addressed_recordFis {c : Command} {fis : List UInt8} (dataBuf : Memory)
    (hc : is28Bit c.command = true) (h : fis ∈ (recordFis c ⟨[], dataBuf⟩).2.device) :
    addressed fis = some (c.lba % 2 ^ 28) := by
  rw [List.mem_singleton.mp h]
  exact addressed_fis hc

/-- A read of a sector issues one command for the low 28 bits of its number. -/
theorem addressed_readSectors {lba : Nat} {buf fis : List UInt8} {dataBuf : Memory}
    (h : fis ∈ (readSectors recordFis lba buf ⟨[], dataBuf⟩).2.device) :
    addressed fis = some (lba % 2 ^ 28) := by
  rw [readSectors] at h
  split at h
  · cases h
  · exact addressed_recordFis dataBuf (c := readCommand lba) rfl h

/-- So does a write. -/
theorem addressed_writeSectors {lba : Nat} {buf fis : List UInt8} {dataBuf : Memory}
    (h : fis ∈ (writeSectors recordFis lba buf ⟨[], dataBuf⟩).2.device) :
    addressed fis = some (lba % 2 ^ 28) := by
  rw [writeSectors] at h
  split at h
  · cases h
  · exact addressed_recordFis _ (c := writeCommand lba) rfl h

/-- A read of a whole sector issues its command. -/
theorem readSectors_issues (lba : Nat) (buf : List UInt8) (dataBuf : Memory)
    (h : sectorSize ≤ buf.length) :
    (readCommand lba).fis.bytes ∈ (readSectors recordFis lba buf ⟨[], dataBuf⟩).2.device := by
  rw [readSectors, if_neg (Nat.not_lt.mpr h)]
  exact List.mem_singleton_self _

/-! ### The size of a drive -/

/-- `lib/driver/src/block/ahci/mod.rs:160–172`; a failed IDENTIFY has no answer. -/
def identifySectorCount (answer : Option (List UInt8)) : Option UInt64 := do
  let buf ← answer
  let lo := leAt buf 200 2
  let hi := leAt buf 202 2
  let count := lo ||| hi <<< 16
  if count = 0 then none else some (UInt64.ofNat count)

/-- The port that `AhciState::init` keeps for a drive; `lib/driver/src/block/ahci/mod.rs:90–97`. -/
def attach {H : Type} (portIdx : UInt8) (state : PortState H) (answer : Option (List UInt8)) :
    AhciPortWrapper H where
  portIdx := portIdx
  state := state
  sectorCount := (identifySectorCount answer).getD 131071

/-- The words 100 to 103 of an answer hold the number of sectors. -/
structure Identifies (buf : List UInt8) (n : Nat) : Prop where
  length : buf.length = 512
  words : leAt buf 200 8 = n

/-- The two words that the driver reads are the low 32 bits of the count. -/
theorem Identifies.count {buf : List UInt8} {n : Nat} (h : Identifies buf n) :
    leAt buf 200 2 ||| leAt buf 202 2 <<< 16 = n % 2 ^ 32 := by
  have hlength := h.length
  have hlow : (slice buf 200 2).length = 2 := length_slice _ _ _ (by omega)
  have hmid : (slice buf 202 2).length = 2 := length_slice _ _ _ (by omega)
  have hwords : n = leAt buf 200 2 + 2 ^ 16 * (leAt buf 202 2 + 2 ^ 16 * leAt buf 204 4) := by
    have hsplit : slice buf 200 8 = slice buf 200 2 ++ (slice buf 202 2 ++ slice buf 204 4) := by
      rw [← slice_add buf 202 2 4, ← slice_add buf 200 2 6]
    rw [← h.words, leAt, hsplit, leNat_append, leNat_append, hlow, hmid]
    rfl
  have hlo := leAt_lt buf 200 2
  have hhi := leAt_lt buf 202 2
  rw [Nat.or_comm, ← Nat.shiftLeft_add_eq_or_of_lt hlo, Nat.shiftLeft_eq]
  omega

/-- The driver takes the count for what its low 32 bits are, and for 131071 when these are zero. -/
theorem toNat_sectorCount_attach {H : Type} (portIdx : UInt8) (state : PortState H)
    {buf : List UInt8} {n : Nat} (h : Identifies buf n) :
    (attach portIdx state (some buf)).sectorCount.toNat =
      if n % 2 ^ 32 = 0 then 131071 else n % 2 ^ 32 := by
  have hidentify : identifySectorCount (some buf) =
      if n % 2 ^ 32 = 0 then none else some (UInt64.ofNat (n % 2 ^ 32)) := by
    rw [← h.count]
    rfl
  rw [attach, hidentify]
  split
  · rfl
  · have hlt : n % 2 ^ 32 < 2 ^ 64 := by omega
    exact UInt64.toNat_ofNat_of_lt' hlt

/-- The driver knows the size of the drive, and every sector of it that is read or written is the
one that the command addresses. -/
structure AddressesDrive {H : Type} [Controller H] (drive : AhciPortWrapper H) (n : Nat) :
    Prop where
  blockCount : (BlockDevice.blockCount (BlockDeviceEnum.ahci drive)).toNat = n
  read : ∀ lba < n, ∀ buf dataBuf,
    ∀ fis ∈ (readSectors recordFis lba buf ⟨[], dataBuf⟩).2.device, addressed fis = some lba
  write : ∀ lba < n, ∀ buf dataBuf,
    ∀ fis ∈ (writeSectors recordFis lba buf ⟨[], dataBuf⟩).2.device, addressed fis = some lba

/-- A drive is addressed right exactly when 28 bits are enough for its sectors. -/
theorem addressesDrive_iff {H : Type} [Controller H] (portIdx : UInt8) (state : PortState H)
    {buf : List UInt8} {n : Nat} (h : Identifies buf n) (hpos : 1 ≤ n) (hlt : n < 2 ^ 48) :
    AddressesDrive (attach portIdx state (some buf)) n ↔ n ≤ 2 ^ 28 := by
  have hcount := toNat_sectorCount_attach portIdx state h
  constructor
  · intro hdrive
    by_contra hlarge
    have hissued := readSectors_issues (2 ^ 28) (List.replicate 512 0) (fun _ ↦ 0)
      (Nat.le_of_eq List.length_replicate.symm)
    have hlba := hdrive.read (2 ^ 28) (by omega) _ _ _ hissued
    rw [addressed_fis rfl] at hlba
    exact absurd hlba (by decide)
  · intro hle
    constructor
    · change (attach portIdx state (some buf)).sectorCount.toNat = n
      rw [hcount, if_neg (by omega)]
      omega
    · intro lba hlba buf dataBuf fis hfis
      rw [addressed_readSectors hfis, Nat.mod_eq_of_lt (by omega)]
    · intro lba hlba buf dataBuf fis hfis
      rw [addressed_writeSectors hfis, Nat.mod_eq_of_lt (by omega)]

/-- A disk whose answer to IDENTIFY says that it has `n` sectors. -/
def identifyOf (n : Nat) : List UInt8 :=
  List.replicate 200 0 ++ leBytes 8 n ++ List.replicate 304 0

theorem identifies_identifyOf {n : Nat} (h : n < 2 ^ 64) : Identifies (identifyOf n) n := by
  have hfront : (List.replicate 200 (0 : UInt8)).length = 200 := List.length_replicate
  have hwords : slice (identifyOf n) 200 8 = leBytes 8 n := by
    rw [identifyOf, slice, List.append_assoc, List.drop_append_of_le_length (by omega),
      List.drop_replicate]
    exact List.take_left' (length_leBytes 8 n)
  constructor
  · rw [identifyOf, List.length_append, List.length_append, length_leBytes, List.length_replicate,
      List.length_replicate]
  · exact leAt_of_slice hwords h

/-- A drive of one sector is addressed right. -/
theorem addressesDrive_one : Identifies (identifyOf 1) 1 ∧
    AddressesDrive (attach 0 ⟨()⟩ (some (identifyOf 1))) 1 := by
  have h : Identifies (identifyOf 1) 1 := identifies_identifyOf (by decide)
  exact ⟨h, (addressesDrive_iff 0 ⟨()⟩ h (by decide) (by decide)).mpr (by decide)⟩

/-- The last sector of a drive of 2^28 + 1 sectors is read at sector 0. -/
theorem not_addressesDrive_large : Identifies (identifyOf (2 ^ 28 + 1)) (2 ^ 28 + 1) ∧
    ¬AddressesDrive (attach 0 ⟨()⟩ (some (identifyOf (2 ^ 28 + 1)))) (2 ^ 28 + 1) := by
  refine ⟨identifies_identifyOf (by decide), ?_⟩
  intro hdrive
  have hissued := readSectors_issues (2 ^ 28) (List.replicate 512 0) (fun _ ↦ 0)
    (Nat.le_of_eq List.length_replicate.symm)
  have hlba := hdrive.read (2 ^ 28) (by decide) _ _ _ hissued
  rw [addressed_fis rfl] at hlba
  exact absurd hlba (by decide)

end SmallOs.Driver.Ahci
