import SmallOs.Gpt.Table

/-!
# Writing a GPT

`lib/vfs/src/partition/gpt/write.rs`: the protective MBR, the entry array in two
places, and a header in front of and behind the usable space. Fields that the
source writes one after the other into a zeroed sector are one concatenation here.
-/

namespace SmallOs.Gpt

open SmallOs.Base SmallOs.Hal

/-- The block built by `lib/vfs/src/partition/gpt/write.rs:140–165`. -/
def protectiveMbr (sector lastLba : Nat) : List UInt8 :=
  List.replicate 446 0 ++ ([0x00, 0x00, 0x02, 0x00, 0xEE, 0xFF, 0xFF, 0xFF] ++ (leBytes 4 1 ++
    (leBytes 4 (min lastLba 0xFFFFFFFF) ++ (List.replicate 48 0 ++ ([0x55, 0xAA] ++
      List.replicate (sector - 512) 0)))))

/-- Header bytes before the checksum field. -/
def headerPrefix : List UInt8 :=
  gptSignature.toList ++ (gptRevision.toList ++ leBytes 4 gptHeaderSize)

/-- Header bytes after the checksum field, the reserved word first;
`lib/vfs/src/partition/gpt/write.rs:118–127`. -/
def headerSuffix (myLba alternateLba partitionEntryLba : Nat) (entryArrayCrc : UInt32)
    (lastLba : Nat) (diskGuid : Vector UInt8 16) (numEntries : Nat) : List UInt8 :=
  leBytes 4 0 ++ (leBytes 8 myLba ++ (leBytes 8 alternateLba ++ (leBytes 8 gptFirstUsableLba ++
    (leBytes 8 (lastLba - gptReservedLbas) ++ (diskGuid.toList ++ (leBytes 8 partitionEntryLba ++
      (leBytes 4 numEntries ++ (leBytes 4 gptEntrySize ++ leBytes 4 entryArrayCrc.toNat))))))))

/-- `lib/vfs/src/partition/gpt/write.rs:96–130`. The last usable LBA saturates at zero, as
the subtraction of naturals does. -/
def buildHeader (myLba alternateLba partitionEntryLba : Nat) (entryArrayCrc : UInt32)
    (lastLba sector : Nat) (diskGuid : Vector UInt8 16) (numEntries : Nat) :
    Outcome GptError (List UInt8) := do
  Outcome.ensure (gptHeaderSize ≤ sector) .invalidHeaderSize
  return headerPrefix ++ (leBytes 4 0 ++ (headerSuffix myLba alternateLba partitionEntryLba
    entryArrayCrc lastLba diskGuid numEntries ++ List.replicate (sector - gptHeaderSize) 0))

/-- `lib/vfs/src/partition/gpt/write.rs:132–137`. -/
def finalizeHeaderCrc (header : List UInt8) : List UInt8 :=
  let header := splice header 16 (leBytes 4 0)
  let crc := crc32 (slice header 0 gptHeaderSize)
  splice header 16 (leBytes 4 crc.toNat)

section Device

variable {D : Type} [BlockDevice D]

/-- `lib/vfs/src/partition/gpt/write.rs:139–168`. Indexing byte 511 of the zeroed sector
panics for a smaller block size. -/
def writeProtectiveMbr (lastLba : Nat) : Prog (State D) GptError Unit := do
  let s ← Prog.get
  let sector := BlockDevice.blockSize s.device
  Prog.lift (Outcome.assert (512 ≤ sector))
  writeBlocks 0 (protectiveMbr sector lastLba)

/-- The last LBA of the device; `checked_sub` of an empty one is `NoSpace`. -/
def lastLba (blockCount : UInt64) : Outcome GptError Nat := do
  Outcome.ensure (0 < blockCount.toNat) .noSpace
  return blockCount.toNat - 1

/-- LBA behind the primary entry array, rounded up to whole blocks;
`lib/vfs/src/partition/gpt/write.rs:36–37`. -/
def entriesEndLba (numEntries sector : Nat) : Nat :=
  2 + (numEntries * gptEntrySize + sector - 1) / sector

/-- LBA of the backup entry array; `lib/vfs/src/partition/gpt/write.rs:48`. -/
def backupEntriesLba (lastLba : Nat) : Nat := lastLba - gptReservedLbas + 1

/-- The four writes after validation, entry arrays before headers;
`lib/vfs/src/partition/gpt/write.rs:74–91`. -/
def writeTables (sector lastLba : Nat) (entryArray primary backup : List UInt8) :
    Prog (State D) GptError Unit := do
  writeBlocks (← Prog.lift (Outcome.mulAt 64 2 sector)) entryArray
  writeBlocks (← Prog.lift (Outcome.mulAt 64 (backupEntriesLba lastLba) sector)) entryArray
  writeBlocks (← Prog.lift (Outcome.mulAt 64 1 sector)) primary
  writeBlocks (← Prog.lift (Outcome.mulAt 64 lastLba sector)) backup

/-- `lib/vfs/src/partition/gpt/write.rs:24–94`. Past the protective MBR the sector size is
at least 512, so the divisions and the backup position cannot fail. -/
def writeGpt (entries : List GptEntry) : Prog (State D) GptError Unit := do
  Prog.lift (Outcome.ensure (entries.length ≤ gptMaxEntries) .noSpace)
  let s ← Prog.get
  let sector := BlockDevice.blockSize s.device
  let lastLba ← Prog.lift (lastLba (BlockDevice.blockCount s.device))
  writeProtectiveMbr lastLba
  let _ ← Prog.lift (Outcome.addAt 64 (entries.length * gptEntrySize) sector)
  Prog.lift (Outcome.ensure
    (entriesEndLba entries.length sector < lastLba - gptReservedLbas) .noSpace)
  let entryArray := serializeEntries entries
  let entryArrayCrc := crc32 entryArray
  let diskGuid ← generateGuid
  let primary ← Prog.lift
    (buildHeader 1 lastLba 2 entryArrayCrc lastLba sector diskGuid entries.length)
  let backup ← Prog.lift (buildHeader lastLba 1 (backupEntriesLba lastLba) entryArrayCrc
    lastLba sector diskGuid entries.length)
  writeTables sector lastLba entryArray (finalizeHeaderCrc primary) (finalizeHeaderCrc backup)

end Device

end SmallOs.Gpt
