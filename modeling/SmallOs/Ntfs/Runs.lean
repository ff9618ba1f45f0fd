import SmallOs.Ntfs.Boot
import SmallOs.Hal.Block

/-!
# Data runs

`lib/vfs/src/fs/ntfs/runs.rs`: the run list of a non-resident attribute and the reader of
the clusters that it names.
-/

namespace SmallOs.Ntfs

open SmallOs.Base SmallOs.Hal

/-- `dev.read_blocks(..)` into a zeroed buffer of `len` bytes; any device error is `IoError`. -/
def readBlocks {D : Type} [BlockDevice D] (lba len : Nat) : Prog D NtfsError (List UInt8) := fun d ↦
  match BlockDevice.readBlocks d lba (List.replicate len 0) with
  | (.ok w, d') => (.ok w, d')
  | (.error _, d') => (.err .ioError, d')

/-- `dev.write_blocks(..)`; any device error is `IoError`. -/
def writeBlocks {D : Type} [BlockDevice D] (lba : Nat) (buf : List UInt8) : Prog D NtfsError Unit :=
  fun d ↦ match BlockDevice.writeBlocks d lba buf with
  | (.ok (), d') => (.ok (), d')
  | (.error _, d') => (.err .ioError, d')

/-- The signed offset of a run: `size` bytes at `off`, their top bit extended;
`lib/vfs/src/fs/ntfs/runs.rs:71–82`. Extending all eight bytes shifts by the word's width,
which panics. -/
def runOffset (attrData : List UInt8) (off size : Nat) : Outcome NtfsError Int :=
  let raw := leAt attrData off size
  if 0 < size ∧ 2 ^ (8 * size - 1) ≤ raw then do
    Outcome.assert (size < 8)
    return (raw : Int) - 2 ^ (8 * size)
  else
    pure raw

/-- The loop of `parse_data_runs`; `lib/vfs/src/fs/ntfs/runs.rs:44–97`. -/
def parseRunsFrom (attrData : List UInt8) (currentOffset : Nat) (prevCluster : Nat) :
    Outcome NtfsError (List (Nat × Nat)) :=
  if hlt : currentOffset < attrData.length then
    let header := (attrData.getD currentOffset 0).toNat
    let lenSize := header % 16
    let offsetSize := header / 16
    if header = 0 ∨ lenSize = 0 ∨ 8 < lenSize ∨ 8 < offsetSize ∨
        attrData.length < currentOffset + 1 + lenSize + offsetSize then
      pure []
    else do
      let length := leAt attrData (currentOffset + 1) lenSize
      let offset ← runOffset attrData (currentOffset + 1 + lenSize) offsetSize
      let absoluteCluster := (prevCluster : Int) + offset
      Outcome.ensure (absoluteCluster < 2 ^ 63) .corruptedFilesystem
      Outcome.ensure (0 ≤ absoluteCluster) .corruptedFilesystem
      let runs ← parseRunsFrom attrData (currentOffset + 1 + lenSize + offsetSize)
        absoluteCluster.toNat
      return (absoluteCluster.toNat, length) :: runs
  else
    pure []
termination_by attrData.length - currentOffset
decreasing_by omega

/-- `lib/vfs/src/fs/ntfs/runs.rs:12–98`. -/
def parseDataRuns (attrData : List UInt8) : Outcome NtfsError (List (Nat × Nat)) := do
  Outcome.ensure (64 ≤ attrData.length) .invalidAttribute
  Outcome.ensure (attrData.getD 8 0 = 1) .invalidAttribute
  let runOffset := leAt attrData 32 2
  if runOffset = 0 then
    return []
  Outcome.ensure (64 ≤ runOffset ∧ runOffset < attrData.length) .invalidAttribute
  if leAt attrData 40 8 = 0 then
    return []
  parseRunsFrom attrData runOffset 0

section Device

variable {D : Type} [BlockDevice D]

/-- The clusters of one run list, in order; `lib/vfs/src/fs/ntfs/runs.rs:115–126`. The
device is asked for a 512-byte block number here. -/
def readClusters (boot : BootSector) : List (Nat × Nat) → Prog D NtfsError (List UInt8)
  | [] => pure []
  | (cluster, length) :: runs => do
    let offset ← Prog.lift (Outcome.mulAt 64 cluster boot.bytesPerCluster)
    let size ← Prog.lift (Outcome.mulAt 64 length boot.bytesPerCluster)
    let buffer ← readBlocks (offset / 512) size
    let rest ← readClusters boot runs
    return buffer ++ rest

/-- `lib/vfs/src/fs/ntfs/runs.rs:101–131`. -/
def readDataRuns (boot : BootSector) : List DataRun → Prog D NtfsError (List UInt8)
  | [] => pure []
  | .resident data :: runs => do
    let rest ← readDataRuns boot runs
    return data ++ rest
  | .nonResident clusters :: runs => do
    let first ← readClusters boot clusters
    let rest ← readDataRuns boot runs
    return first ++ rest

end Device

end SmallOs.Ntfs
