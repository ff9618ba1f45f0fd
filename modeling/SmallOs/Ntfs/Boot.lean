import SmallOs.Ntfs.Types

/-!
# The boot sector

`lib/vfs/src/fs/ntfs/boot.rs`: the volume's geometry and the byte offsets derived from it.
Offsets are sums and products of `u64`, so an overflow is a panic.
-/

namespace SmallOs.Ntfs

open SmallOs.Base

/-- `lib/vfs/src/fs/ntfs/boot.rs:6–21`. -/
structure BootSector where
  bytesPerSector : UInt16
  sectorsPerCluster : UInt8
  mediaType : UInt8
  totalSectors : UInt64
  mftStartCluster : UInt64
  mftMirrorStartCluster : UInt64
  clustersPerMftRecord : Int8
  clustersPerIndexBuffer : Int8
  serialNumber : UInt64
  partitionByteOffset : UInt64

namespace BootSector

/-- `lib/vfs/src/fs/ntfs/boot.rs:28–51`, on the 512 bytes read from the volume's start. -/
def fromBytes (buf : List UInt8) (partitionByteOffset : UInt64) :
    Outcome NtfsError BootSector := do
  Outcome.ensure (slice buf 0x03 8 = [0x4E, 0x54, 0x46, 0x53, 0x20, 0x20, 0x20, 0x20])
    .invalidBootSector
  Outcome.ensure (slice buf 0x1FE 2 = [0x55, 0xAA]) .invalidBootSector
  return {
    bytesPerSector := UInt16.ofNat (leAt buf 0x0B 2)
    sectorsPerCluster := UInt8.ofNat (leAt buf 0x0D 1)
    mediaType := UInt8.ofNat (leAt buf 0x15 1)
    totalSectors := UInt64.ofNat (leAt buf 0x28 8)
    mftStartCluster := UInt64.ofNat (leAt buf 0x30 8)
    mftMirrorStartCluster := UInt64.ofNat (leAt buf 0x38 8)
    clustersPerMftRecord := (UInt8.ofNat (leAt buf 0x40 1)).toInt8
    clustersPerIndexBuffer := (UInt8.ofNat (leAt buf 0x44 1)).toInt8
    serialNumber := UInt64.ofNat (leAt buf 0x48 8)
    partitionByteOffset }

/-- `lib/vfs/src/fs/ntfs/boot.rs:53–55`; a `u16` times a `u8` cannot overflow. -/
def bytesPerCluster (boot : BootSector) : Nat :=
  boot.bytesPerSector.toNat * boot.sectorsPerCluster.toNat

/-- `lib/vfs/src/fs/ntfs/boot.rs:62–70`: a cluster count, or minus the binary logarithm of
the size. An exponent of 64 or more panics. -/
def mftRecordSize (boot : BootSector) : Outcome NtfsError Nat :=
  if 0 < boot.clustersPerMftRecord.toInt then
    pure (boot.clustersPerMftRecord.toInt.toNat * boot.bytesPerCluster)
  else do
    let exp := (-boot.clustersPerMftRecord.toInt).toNat
    Outcome.assert (exp < 64)
    return 2 ^ exp

/-- `lib/vfs/src/fs/ntfs/boot.rs:84–86`. -/
def clusterToDiskOffset (boot : BootSector) (lcn : Nat) : Outcome NtfsError Nat := do
  Outcome.addAt 64 boot.partitionByteOffset.toNat (← Outcome.mulAt 64 lcn boot.bytesPerCluster)

/-- `lib/vfs/src/fs/ntfs/boot.rs:74–76`. -/
def mftByteOffset (boot : BootSector) : Outcome NtfsError Nat := do
  Outcome.addAt 64 boot.partitionByteOffset.toNat
    (← Outcome.mulAt 64 boot.mftStartCluster.toNat boot.bytesPerCluster)

end BootSector

/-- Two sectors a cluster, one cluster a record, the MFT at the start of the device. -/
def smallBoot : BootSector where
  bytesPerSector := 512
  sectorsPerCluster := 2
  mediaType := 0xF8
  totalSectors := 36
  mftStartCluster := 0
  mftMirrorStartCluster := 0
  clustersPerMftRecord := 1
  clustersPerIndexBuffer := 1
  serialNumber := 0
  partitionByteOffset := 0

end SmallOs.Ntfs
