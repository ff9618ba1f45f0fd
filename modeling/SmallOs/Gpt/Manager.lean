import SmallOs.Gpt.Read
import SmallOs.Gpt.Write

/-!
# The partition manager

`lib/vfs/src/partition/gpt/manager.rs`: a fresh table with two partitions, the report on the
partitions of a disk, looking a partition up by the GUID of its type, and the boot sector of a new
NTFS partition.
-/

namespace SmallOs.Gpt

open SmallOs.Base SmallOs.Hal

/-- `lib/vfs/src/partition/gpt/manager.rs:11–14`. -/
def espGuid : Vector UInt8 16 :=
  #v[0x28, 0x73, 0x2A, 0xC1, 0x1F, 0xF8, 0xD2, 0x11, 0xBA, 0x4B, 0x00, 0xA0, 0xC9, 0x3E, 0xC9, 0x3B]

/-- `lib/vfs/src/partition/gpt/manager.rs:17–20`. -/
def ntfsGuid : Vector UInt8 16 :=
  #v[0xA2, 0xA0, 0xD0, 0xEB, 0xE5, 0xB9, 0x33, 0x44, 0x87, 0xC0, 0x68, 0xB6, 0xB7, 0x26, 0x99, 0xC7]

/-- `lib/vfs/src/partition/gpt/manager.rs:23`. -/
def espSizeSectors : Nat := 1048576

/-- `lib/vfs/src/partition/gpt/manager.rs:182–187`. -/
inductive PartitionKind where
  | esp
  | ntfs
  | unknown
  deriving DecidableEq, Repr

/-- `lib/vfs/src/partition/gpt/manager.rs:199–209`. -/
structure PartitionInfo where
  kind : PartitionKind
  typeGuid : String
  uniqueGuid : String
  startLba : UInt64
  endLba : UInt64
  sizeBytes : UInt64
  attributes : UInt64
  name : String
  deriving DecidableEq, Repr

/-- `lib/vfs/src/partition/gpt/manager.rs:189–197`. -/
structure GptInfo where
  diskGuid : String
  sectorSize : Nat
  totalSectors : UInt64
  firstUsableLba : UInt64
  lastUsableLba : UInt64
  partitions : List PartitionInfo
  deriving DecidableEq, Repr

/-! ### Texts -/

/-- The units of one character in UTF-16. -/
def utf16Units (c : Char) : List UInt16 :=
  if c.toNat < 0x10000 then [UInt16.ofNat c.toNat]
  else [UInt16.ofNat (0xD800 + (c.toNat - 0x10000) / 0x400),
    UInt16.ofNat (0xDC00 + (c.toNat - 0x10000) % 0x400)]

/-- `lib/vfs/src/partition/gpt/manager.rs:215–221`: at most 36 units, zeros behind them. -/
def strToUtf16le (s : String) : Vector UInt16 36 :=
  Vector.ofFn fun i ↦ (s.toList.flatMap utf16Units).getD i.val 0

/-- `lib/vfs/src/partition/gpt/manager.rs:223–230`: the units outside of ASCII are left out. -/
def utf16leToStr (name : Vector UInt16 36) : String :=
  String.ofList (((name.toList.takeWhile (· ≠ 0)).filter (· < 128)).map fun c ↦ Char.ofNat c.toNat)

/-- `{:0width$x}`. -/
def lowerHex (width n : Nat) : List Char :=
  let digits := Nat.toDigits 16 n
  List.replicate (width - digits.length) '0' ++ digits

/-- `lib/vfs/src/partition/gpt/manager.rs:232–241`: the first three groups are little-endian
numbers, the other two are bytes. -/
def formatGuid (guid : Vector UInt8 16) : String :=
  let raw := guid.toList
  String.ofList (lowerHex 8 (leAt raw 0 4) ++ '-' :: lowerHex 4 (leAt raw 4 2) ++
    '-' :: lowerHex 4 (leAt raw 6 2) ++ '-' :: (slice raw 8 2).flatMap (lowerHex 2 ·.toNat) ++
    '-' :: (slice raw 10 6).flatMap (lowerHex 2 ·.toNat))

/-- The GUID of an EFI system partition as it is written in texts. -/
example : formatGuid espGuid = "c12a7328-f81f-11d2-ba4b-00a0c93ec93b" := by decide

/-- `lib/vfs/src/partition/gpt/manager.rs:243–245`. -/
def isZeroGuid (guid : Vector UInt8 16) : Bool := guid.toList.all (· = 0)

/-! ### Formatting -/

/-- The two entries of a fresh table; `lib/vfs/src/partition/gpt/manager.rs:66–83`. -/
def freshEntries (espUnique ntfsUnique : Vector UInt8 16) (ntfsStart ntfsEnd : Nat) :
    List GptEntry :=
  [{ typeGuid := espGuid
     uniqueGuid := espUnique
     startLba := UInt64.ofNat gptFirstUsableLba
     endLba := UInt64.ofNat (gptFirstUsableLba + espSizeSectors - 1)
     attributes := 0
     name := strToUtf16le "EFI System" },
   { typeGuid := ntfsGuid
     uniqueGuid := ntfsUnique
     startLba := UInt64.ofNat ntfsStart
     endLba := UInt64.ofNat ntfsEnd
     attributes := 0
     name := strToUtf16le "Userspace" }]

/-- What `format_disk` returns: start and size of both partitions, in sectors. -/
structure Formatted where
  espStart : Nat
  espSize : Nat
  ntfsStart : Nat
  ntfsSize : Nat
  deriving DecidableEq, Repr

/-- The last LBA that `format_disk` gives to a partition;
`lib/vfs/src/partition/gpt/manager.rs:45`. -/
def formatLastUsable (totalSectors : Nat) : Nat := totalSectors - (gptReservedLbas + 1)

/-- `lib/vfs/src/partition/gpt/manager.rs:57`. -/
def formatNtfsStart : Nat := gptFirstUsableLba + espSizeSectors - 1 + 1

/-- The requested size, or what is left; `lib/vfs/src/partition/gpt/manager.rs:58–63`. -/
def grantedSize (available ntfsSizeSectors : Nat) : Nat :=
  if ntfsSizeSectors = 0 ∨ available < ntfsSizeSectors then available else ntfsSizeSectors

variable {D : Type} [BlockDevice D]

/-- `lib/vfs/src/partition/gpt/manager.rs:33–88`. Behind the first check no difference is negative
and no sum overflows. -/
def formatDisk (ntfsSizeSectors : UInt64) : Prog (State D) GptError Formatted := do
  let s ← Prog.get
  let totalSectors := (BlockDevice.blockCount s.device).toNat
  Prog.lift (Outcome.ensure (espSizeSectors + 128 ≤ totalSectors) .noSpace)
  let usableTotal := formatLastUsable totalSectors - gptFirstUsableLba
  Prog.lift (Outcome.ensure (espSizeSectors + 1 ≤ usableTotal) .noSpace)
  let available := formatLastUsable totalSectors - formatNtfsStart
  let ntfsSize := grantedSize available ntfsSizeSectors.toNat
  let espUnique ← generateGuid
  let ntfsUnique ← generateGuid
  writeGpt (freshEntries espUnique ntfsUnique formatNtfsStart (formatNtfsStart + ntfsSize - 1))
  return ⟨gptFirstUsableLba, espSizeSectors, formatNtfsStart, ntfsSize⟩

/-! ### Reading -/

/-- `lib/vfs/src/partition/gpt/manager.rs:101–107`. -/
def partitionKind (typeGuid : Vector UInt8 16) : PartitionKind :=
  if typeGuid = espGuid then .esp else if typeGuid = ntfsGuid then .ntfs else .unknown

/-- The bytes of an entry's range; a step beyond 64 bits panics.
`lib/vfs/src/partition/gpt/manager.rs:100`. -/
def sizeBytes (entry : GptEntry) (sectorSize : Nat) : Outcome GptError Nat := do
  let difference ← Outcome.sub entry.endLba.toNat entry.startLba.toNat
  let sectors ← Outcome.addAt 64 difference 1
  Outcome.mulAt 64 sectors sectorSize

/-- One entry of the report; `lib/vfs/src/partition/gpt/manager.rs:99–118`. -/
def partitionInfo (sectorSize : Nat) (entry : GptEntry) : Outcome GptError PartitionInfo := do
  let size ← sizeBytes entry sectorSize
  return {
    kind := partitionKind entry.typeGuid
    typeGuid := formatGuid entry.typeGuid
    uniqueGuid := formatGuid entry.uniqueGuid
    startLba := entry.startLba
    endLba := entry.endLba
    sizeBytes := UInt64.ofNat size
    attributes := entry.attributes
    name := utf16leToStr entry.name }

/-- The entries that `read_disk` reports on. -/
def usedEntries (entries : List GptEntry) : List GptEntry :=
  entries.filter fun entry ↦ !isZeroGuid entry.typeGuid

/-- `lib/vfs/src/partition/gpt/manager.rs:91–129`. -/
def readDisk : Prog (State D) GptError GptInfo := do
  let (header, entries) ← readGpt
  let s ← Prog.get
  let sectorSize := BlockDevice.blockSize s.device
  let partitions ← Prog.lift ((usedEntries entries).mapM (partitionInfo sectorSize))
  return {
    diskGuid := formatGuid header.diskGuid
    sectorSize := sectorSize
    totalSectors := BlockDevice.blockCount s.device
    firstUsableLba := header.firstUsableLba
    lastUsableLba := header.lastUsableLba
    partitions := partitions }

/-- The byte offset of the first entry of a type; a product beyond 64 bits panics. -/
def findOffset (guid : Vector UInt8 16) : Prog (State D) GptError Nat := do
  let (_, entries) ← readGpt
  let s ← Prog.get
  match entries.find? fun entry ↦ entry.typeGuid = guid with
  | some entry => Prog.lift (Outcome.mulAt 64 entry.startLba.toNat (BlockDevice.blockSize s.device))
  | none => Prog.fail .notFound

/-- `lib/vfs/src/partition/gpt/manager.rs:131–140`. -/
def findEspOffset : Prog (State D) GptError Nat := findOffset espGuid

/-- `lib/vfs/src/partition/gpt/manager.rs:142–151`. -/
def findNtfsOffset : Prog (State D) GptError Nat := findOffset ntfsGuid

/-- `b"NTFS    "`. -/
def oemId : List UInt8 := [0x4E, 0x54, 0x46, 0x53, 0x20, 0x20, 0x20, 0x20]

/-- `lib/vfs/src/partition/gpt/manager.rs:154–175`; the sector size is cut down to a `u16`. -/
def createNtfsBootSector (totalSectors : UInt64) (sectorSize : Nat) :
    Outcome GptError (List UInt8) := do
  Outcome.ensure (512 ≤ sectorSize) .invalidHeaderSize
  let boot := List.replicate sectorSize 0
  let boot ← putAt boot 0 [0xEB, 0x52, 0x90]
  let boot ← putAt boot 3 oemId
  let boot ← putAt boot 11 (leBytes 2 (sectorSize % 2 ^ 16))
  let boot ← putAt boot 13 [8]
  let boot ← putAt boot 40 (leBytes 8 totalSectors.toNat)
  let boot ← putAt boot 48 (leBytes 8 2)
  let boot ← putAt boot 72 (leBytes 8 0x123456789ABCDEF0)
  let boot ← putAt boot 510 [0x55]
  putAt boot 511 [0xAA]

end SmallOs.Gpt
