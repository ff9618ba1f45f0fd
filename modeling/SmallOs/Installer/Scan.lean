import Mathlib.Data.List.Nodup
import SmallOs.Gpt.Format
import SmallOs.Gpt.Guid

/-!
# The installer's scan of the disks

`installer/src/lib.rs:172–230`: a device with a boot signature or with a table is left alone, and
any other one is formatted. The protective MBR of a fresh table carries the boot signature, so a
second scan leaves every device alone.
-/

namespace SmallOs.Installer

open SmallOs.Base SmallOs.Hal SmallOs.Gpt

/-- What the scan prints about a device. -/
inductive Verdict where
  | readFailed (e : BlockError)
  | bootDevice
  | partitioned (info : GptInfo)
  | formatted (f : Formatted)
  | formatFailed (e : GptError)
  deriving DecidableEq, Repr

/-- The device was formatted. -/
def Verdict.isFormatted : Verdict → Bool
  | formatted _ => true
  | _ => false

/-- `buf[510] == 0x55 && buf[511] == 0xAA`; the second byte is read only behind the first. -/
def hasBootSignature (buf : List UInt8) : Outcome GptError Bool := do
  let first ← uintAt buf 510 1
  if first = 0x55 then
    let second ← uintAt buf 511 1
    return second = 0xAA
  else return false

section Device

variable {D : Type} [BlockDevice D]

/-- The scan behind the first read; `installer/src/lib.rs:181–228`. The sizes that are printed
after formatting are products of 64-bit words. -/
def inspect (buf : List UInt8) : Prog (State D) GptError Verdict := do
  let bootDevice ← Prog.lift (hasBootSignature buf)
  if bootDevice then return .bootDevice
  match ← Prog.attempt readDisk with
  | .ok info => return .partitioned info
  | .error _ =>
    match ← Prog.attempt (formatDisk 0) with
    | .ok f =>
      let s ← Prog.get
      let _ ← Prog.lift (Outcome.mulAt 64 f.espSize (BlockDevice.blockSize s.device))
      let _ ← Prog.lift (Outcome.mulAt 64 f.ntfsSize (BlockDevice.blockSize s.device))
      return .formatted f
    | .error e => return .formatFailed e

/-- The closure that is called with each block device; `installer/src/lib.rs:172–229`. -/
def scanDevice : Prog (State D) GptError Verdict := fun s ↦
  match BlockDevice.readBlocks s.device 0
      (List.replicate (BlockDevice.blockSize s.device) 0) with
  | (.error e, device) => (.ok (.readFailed e), { s with device })
  | (.ok buf, device) => inspect buf { s with device }

end Device

/-! ### What a disk holds -/

/-- The report on a disk, from its bytes. -/
def report (d : ByteStore) : Outcome GptError GptInfo := do
  let (header, entries) ← diskTable d
  let partitions ← (usedEntries entries).mapM (partitionInfo d.blockSize)
  return {
    diskGuid := formatGuid header.diskGuid
    sectorSize := d.blockSize
    totalSectors := d.blockCount
    firstUsableLba := header.firstUsableLba
    lastUsableLba := header.lastUsableLba
    partitions := partitions }

/-- The first block ends with the boot signature, where a disk of 512-byte blocks has it. -/
def HasSignature (d : ByteStore) : Prop := d.bytes[510]? = some 0x55 ∧ d.bytes[511]? = some 0xAA

instance : DecidablePred HasSignature := fun _ ↦
  inferInstanceAs (Decidable (_ ∧ _))

section Store

variable {d : ByteStore} {counter : UInt64}

/-! ### The boot signature -/

/-- The number that is drawn next; a table takes three. -/
def drawn (counter : UInt64) (v : Verdict) : UInt64 :=
  if v.isFormatted then counter + 3 else counter

end Store

end SmallOs.Installer
