import SmallOs.Hal.Block

/-!
# GPT structures, checksum and entry serialization

`lib/vfs/src/partition/gpt/mod.rs`, `structs.rs` and `error.rs`. A header and an
entry keep the fixed-width fields of the source; an entry is 128 bytes on disk.
-/

namespace SmallOs.Gpt

open SmallOs.Base SmallOs.Hal

/-- `lib/vfs/src/partition/gpt/mod.rs:10`. -/
def gptSignature : Vector UInt8 8 := #v[0x45, 0x46, 0x49, 0x20, 0x50, 0x41, 0x52, 0x54]
/-- `lib/vfs/src/partition/gpt/mod.rs:11`. -/
def gptRevision : Vector UInt8 4 := #v[0x00, 0x00, 0x01, 0x00]
/-- `lib/vfs/src/partition/gpt/mod.rs:12`. -/
def gptHeaderSize : Nat := 92
/-- `lib/vfs/src/partition/gpt/mod.rs:13`. -/
def gptEntrySize : Nat := 128
/-- `lib/vfs/src/partition/gpt/mod.rs:14`. -/
def gptMaxEntries : Nat := 128
/-- `lib/vfs/src/partition/gpt/mod.rs:15`. -/
def gptFirstUsableLba : Nat := 34
/-- `lib/vfs/src/partition/gpt/mod.rs:16`. -/
def gptReservedLbas : Nat := 33

/-- `lib/vfs/src/partition/gpt/error.rs:5–15`. -/
inductive GptError where
  | invalidSignature
  | invalidHeaderCrc
  | invalidEntriesCrc
  | invalidHeaderSize
  | invalidEntrySize
  | ioError
  | overflow
  | noSpace
  | notFound
  deriving DecidableEq, Repr

/-- `lib/vfs/src/partition/gpt/structs.rs:3–18`. -/
structure GptHeader where
  signature : Vector UInt8 8
  revision : Vector UInt8 4
  headerSize : UInt32
  headerCrc32 : UInt32
  reserved : UInt32
  myLba : UInt64
  alternateLba : UInt64
  firstUsableLba : UInt64
  lastUsableLba : UInt64
  diskGuid : Vector UInt8 16
  partitionEntryLba : UInt64
  numPartitionEntries : UInt32
  partitionEntrySize : UInt32
  partitionArrayCrc32 : UInt32
  deriving DecidableEq

/-- `lib/vfs/src/partition/gpt/structs.rs:22–29`. -/
structure GptEntry where
  typeGuid : Vector UInt8 16
  uniqueGuid : Vector UInt8 16
  startLba : UInt64
  endLba : UInt64
  attributes : UInt64
  name : Vector UInt16 36
  deriving DecidableEq, Inhabited

/-- The device that the GPT functions work on, next to the process-wide `GUID_COUNTER`. -/
structure State (D : Type) where
  device : D
  guidCounter : UInt64

/-! ### Checksum -/

/-- One bit of the table's construction; `lib/vfs/src/partition/gpt/mod.rs:38`. -/
def crcBit (crc : UInt32) : UInt32 :=
  if crc &&& 1 ≠ 0 then (crc >>> 1) ^^^ 0xEDB88320 else crc >>> 1

/-- `lib/vfs/src/partition/gpt/mod.rs:31–45`: each index goes through eight bit steps. -/
def crc32cTable : Vector UInt32 256 :=
  Vector.ofFn fun i ↦ Nat.repeat crcBit 8 (UInt32.ofNat i.val)

/-- `lib/vfs/src/partition/gpt/mod.rs:48–54`. -/
def crc32 (data : List UInt8) : UInt32 :=
  ~~~ data.foldl (fun crc byte ↦
    crc32cTable.get ⟨(crc.toUInt8 ^^^ byte).toNat, UInt8.toNat_lt _⟩ ^^^ (crc >>> 8)) (~~~ 0)

/-- The loop body of `crc32`; `lib/vfs/src/partition/gpt/mod.rs:51`. -/
def crcByte (crc : UInt32) (byte : UInt8) : UInt32 :=
  crc32cTable.get ⟨(crc.toUInt8 ^^^ byte).toNat, UInt8.toNat_lt _⟩ ^^^ (crc >>> 8)

theorem crc32_eq_foldl (data : List UInt8) : crc32 data = ~~~ data.foldl crcByte (~~~ 0) := rfl

/-! ### Entries on disk -/

/-- The fields of one entry in the order of `serialize_entries`;
`lib/vfs/src/partition/gpt/mod.rs:59–66`. -/
def serializeEntry (entry : GptEntry) : List UInt8 :=
  entry.typeGuid.toList ++ (entry.uniqueGuid.toList ++ (leBytes 8 entry.startLba.toNat ++
    (leBytes 8 entry.endLba.toNat ++ (leBytes 8 entry.attributes.toNat ++
      entry.name.toList.flatMap fun unit ↦ leBytes 2 unit.toNat))))

/-- `lib/vfs/src/partition/gpt/mod.rs:56–69`. -/
def serializeEntries (entries : List GptEntry) : List UInt8 := entries.flatMap serializeEntry

theorem length_serializeEntry (entry : GptEntry) :
    (serializeEntry entry).length = gptEntrySize := by
  have hn := length_flatMap_const (fun unit : UInt16 ↦ leBytes 2 unit.toNat) 2
    (fun _ ↦ length_leBytes _ _) entry.name.toList
  simp only [serializeEntry, List.length_append, length_leBytes, Vector.length_toList, hn,
    gptEntrySize]

theorem length_serializeEntries (entries : List GptEntry) :
    (serializeEntries entries).length = entries.length * gptEntrySize :=
  length_flatMap_const _ _ length_serializeEntry entries

/-! ### Unique identifiers -/

/-- The sixteen bytes built from a counter value; `lib/vfs/src/partition/gpt/mod.rs:24–28`. -/
def guidOf (n : UInt64) : Vector UInt8 16 :=
  let product := n * 0x9E3779B97F4A7C15
  let g : Vector UInt8 16 := Vector.ofFn fun i ↦
    if i.val < 8 then UInt8.ofNat (n.toNat / 256 ^ i.val % 256)
    else UInt8.ofNat (product.toNat / 256 ^ (i.val - 8) % 256)
  let g := g.set 6 ((g[6] &&& 0x0F) ||| 0x40)
  g.set 8 ((g[8] &&& 0x3F) ||| 0x80)

/-- `lib/vfs/src/partition/gpt/mod.rs:22–30`; the counter wraps. -/
def generateGuid {D : Type} : Prog (State D) GptError (Vector UInt8 16) := fun s ↦
  (.ok (guidOf s.guidCounter), { s with guidCounter := s.guidCounter + 1 })

/-! ### Device calls -/

section Device

variable {D : Type} [BlockDevice D]

/-- `dev.write_blocks(..)?`: any device error is `IoError`. -/
def writeBlocks (lba : Nat) (buf : List UInt8) : Prog (State D) GptError Unit := fun s ↦
  match BlockDevice.writeBlocks s.device lba buf with
  | (.ok (), d) => (.ok (), { s with device := d })
  | (.error _, d) => (.err .ioError, { s with device := d })

/-- `dev.read_blocks(..)?`: any device error is `IoError`. -/
def readBlocks (lba : Nat) (buf : List UInt8) : Prog (State D) GptError (List UInt8) := fun s ↦
  match BlockDevice.readBlocks s.device lba buf with
  | (.ok w, d) => (.ok w, { s with device := d })
  | (.error _, d) => (.err .ioError, { s with device := d })

end Device

end SmallOs.Gpt
