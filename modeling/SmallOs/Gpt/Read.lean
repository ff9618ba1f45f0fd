import SmallOs.Gpt.Table

/-!
# Reading a GPT

`lib/vfs/src/partition/gpt/read.rs`: the primary header, or the backup one when the
primary fails its header checks, and then the entry array that the chosen header names.
-/

namespace SmallOs.Gpt

open SmallOs.Base SmallOs.Hal

/-- The `n` bytes at `off` as a fixed-size array; callers check the window first. -/
def bytesArray (raw : List UInt8) (off n : Nat) : Vector UInt8 n :=
  Vector.ofFn fun i ↦ raw.getD (off + i.val) 0

/-- `lib/vfs/src/partition/gpt/read.rs:93–114`. -/
def parseHeader (raw : List UInt8) : Outcome GptError GptHeader := do
  Outcome.ensure (gptHeaderSize ≤ raw.length) .invalidHeaderSize
  return {
    signature := bytesArray raw 0 8
    revision := bytesArray raw 8 4
    headerSize := UInt32.ofNat (leAt raw 12 4)
    headerCrc32 := UInt32.ofNat (leAt raw 16 4)
    reserved := UInt32.ofNat (leAt raw 20 4)
    myLba := UInt64.ofNat (leAt raw 24 8)
    alternateLba := UInt64.ofNat (leAt raw 32 8)
    firstUsableLba := UInt64.ofNat (leAt raw 40 8)
    lastUsableLba := UInt64.ofNat (leAt raw 48 8)
    diskGuid := bytesArray raw 56 16
    partitionEntryLba := UInt64.ofNat (leAt raw 72 8)
    numPartitionEntries := UInt32.ofNat (leAt raw 80 4)
    partitionEntrySize := UInt32.ofNat (leAt raw 84 4)
    partitionArrayCrc32 := UInt32.ofNat (leAt raw 88 4) }

/-- `lib/vfs/src/partition/gpt/read.rs:64–79`; the revision is read and not checked. -/
def validateHeader (header : GptHeader) : Outcome GptError Unit := do
  Outcome.ensure (header.signature = gptSignature) .invalidSignature
  Outcome.ensure (header.headerSize.toNat = gptHeaderSize) .invalidHeaderSize
  Outcome.ensure (header.partitionEntrySize.toNat = gptEntrySize) .invalidEntrySize

/-- `lib/vfs/src/partition/gpt/read.rs:43–62`. -/
def parseAndVerifyHeader (raw : List UInt8) : Outcome GptError (List UInt8 × GptHeader) := do
  Outcome.ensure (gptHeaderSize ≤ raw.length) .invalidHeaderSize
  let header ← parseHeader raw
  validateHeader header
  let crcBuf ← sliceAt raw 0 header.headerSize.toNat
  let crcBuf ← putAt crcBuf 16 (leBytes 4 0)
  Outcome.ensure (crc32 crcBuf = header.headerCrc32) .invalidHeaderCrc
  return (raw, header)

/-- `lib/vfs/src/partition/gpt/read.rs:162–170`. -/
def parseUtf16le (data : List UInt8) : Vector UInt16 36 :=
  Vector.ofFn fun i ↦ UInt16.ofNat (leAt data (2 * i.val) 2)

/-- `lib/vfs/src/partition/gpt/read.rs:147–160`. -/
def parseGptEntry (e : List UInt8) : Outcome GptError GptEntry := do
  Outcome.ensure (gptEntrySize ≤ e.length) .invalidEntrySize
  return {
    typeGuid := bytesArray e 0 16
    uniqueGuid := bytesArray e 16 16
    startLba := UInt64.ofNat (leAt e 32 8)
    endLba := UInt64.ofNat (leAt e 40 8)
    attributes := UInt64.ofNat (leAt e 48 8)
    name := parseUtf16le (slice e 56 72) }

/-- `lib/vfs/src/partition/gpt/read.rs:172–175`. -/
def verifyEntriesCrc (entries : List GptEntry) (stored : UInt32) : Outcome GptError Unit :=
  Outcome.ensure (crc32 (serializeEntries entries) = stored) .invalidEntriesCrc

section Device

variable {D : Type} [BlockDevice D]

/-- `lib/vfs/src/partition/gpt/read.rs:81–91`: a device error, an overflow or a wrong
signature is `None`. -/
def readHeaderRaw (lba sector : Nat) : Prog (State D) GptError (Option (List UInt8)) :=
  if 4096 < sector then pure none
  else if 2 ^ 64 ≤ lba * sector then pure none
  else do
    match ← Prog.attempt (readBlocks (lba * sector) (List.replicate sector 0)) with
    | .error _ => pure none
    | .ok buf =>
      -- `buf.get(0..8)?` is absent in a shorter buffer.
      pure (if 8 ≤ buf.length ∧ slice buf 0 8 = gptSignature.toList then some buf else none)

/-- `lib/vfs/src/partition/gpt/read.rs:116–145`. -/
def readEntries (sector : Nat) (h : GptHeader) : Prog (State D) GptError (List GptEntry) := do
  Prog.lift (Outcome.ensure (h.partitionEntrySize.toNat = gptEntrySize) .invalidEntrySize)
  Prog.lift (Outcome.ensure
    (h.numPartitionEntries.toNat ≤ gptMaxEntries * 4) .invalidHeaderSize)
  -- At most 512 entries of 128 bytes: neither the product nor the cast can overflow.
  let totalBytes := h.numPartitionEntries.toNat * h.partitionEntrySize.toNat
  let offset := h.partitionEntryLba.toNat * sector
  Prog.lift (Outcome.ensure (offset < 2 ^ 64) .overflow)
  let buf ← readBlocks offset (List.replicate totalBytes 0)
  Prog.lift ((chunksExact gptEntrySize buf).mapM parseGptEntry)

/-- The checks of `read_header_raw` and `parse_and_verify_header` on the header at `lba`,
any failure as `None`; `lib/vfs/src/partition/gpt/read.rs:22`. -/
def checkedHeader (lba sector : Nat) :
    Prog (State D) GptError (Option (List UInt8 × GptHeader)) := do
  match ← readHeaderRaw lba sector with
  | none => pure none
  | some raw =>
    match ← Prog.lift (parseAndVerifyHeader raw).attempt with
    | .error _ => pure none
    | .ok r => pure (some r)

/-- The fallback of `lib/vfs/src/partition/gpt/read.rs:27–31`. -/
def backupHeader (sector : Nat) : Prog (State D) GptError (List UInt8) := do
  let s ← Prog.get
  let blockCount := (BlockDevice.blockCount s.device).toNat
  Prog.lift (Outcome.ensure (0 < blockCount) .invalidSignature)
  match ← readHeaderRaw (blockCount - 1) sector with
  | none => Prog.fail .invalidSignature
  | some raw => Prog.lift (Prod.fst <$> parseAndVerifyHeader raw)

/-- `lib/vfs/src/partition/gpt/read.rs:18–41`. -/
def readGpt : Prog (State D) GptError (GptHeader × List GptEntry) := do
  let s ← Prog.get
  let sector := BlockDevice.blockSize s.device
  let headerRaw ← match ← checkedHeader 1 sector with
    | some (raw, _) => pure raw
    | none => backupHeader sector
  let header ← Prog.lift (parseHeader headerRaw)
  Prog.lift (validateHeader header)
  let entries ← readEntries sector header
  Prog.lift (verifyEntriesCrc entries header.partitionArrayCrc32)
  return (header, entries)

end Device

end SmallOs.Gpt
