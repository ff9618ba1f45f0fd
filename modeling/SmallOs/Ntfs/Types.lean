import SmallOs.Base.Bytes

/-!
# NTFS types

`lib/vfs/src/fs/ntfs/types.rs` and `error.rs`: what a file record says about its file.
The parsers here look at one attribute each and cannot fail otherwise than by `None`.
-/

namespace SmallOs.Ntfs

open SmallOs.Base

/-- `lib/vfs/src/fs/ntfs/error.rs:6–21`. -/
inductive NtfsError where
  | invalidBootSector
  | invalidMftRecord
  | invalidAttribute
  | fileNotFound
  | invalidPath
  | ioError
  | notADirectory
  | notAFile
  | corruptedFilesystem
  | noSpace
  | alreadyExists
  | invalidInput
  | notSupported
  | nameTooLong
  deriving DecidableEq, Repr

/-- A file by the number of its MFT record; `lib/vfs/src/fs/ntfs/types.rs:7–15`. -/
structure NtfsFile where
  recordNumber : Nat
  deriving DecidableEq, Repr

/-- `lib/vfs/src/fs/ntfs/types.rs:35–38`; a run is its first cluster and its length. -/
inductive DataRun where
  | resident (data : List UInt8)
  | nonResident (runs : List (Nat × Nat))
  deriving DecidableEq, Repr

/-- The bytes from `off` on, when `off` lies inside the buffer or at its end. -/
def tailAt (b : List UInt8) (off : Nat) : Option (List UInt8) :=
  if off ≤ b.length then some (b.drop off) else none

/-- The `len` bytes at `off`, when they lie inside the buffer. -/
def windowAt (b : List UInt8) (off len : Nat) : Option (List UInt8) :=
  if off + len ≤ b.length then some (slice b off len) else none

/-- A UTF-16 unit as the readers of names show it. -/
def decodeUnit (unit : Nat) : Char := if unit < 128 then Char.ofNat unit else '?'

/-- `lib/vfs/src/fs/ntfs/types.rs:42–53`; the attribute flags keep their known bits only. -/
structure StandardInformation where
  created : UInt64
  modified : UInt64
  mftModified : UInt64
  accessed : UInt64
  fileAttributes : UInt32
  ownerId : Option UInt32
  securityId : Option UInt32
  quotaCharged : Option UInt64
  usn : Option UInt64
  deriving DecidableEq, Repr

/-- `lib/vfs/src/fs/ntfs/types.rs:77–113`. -/
def StandardInformation.parse (attrData : List UInt8) : Option StandardInformation := do
  let data ← tailAt attrData 24
  if data.length < 48 then none else
  let extended := 72 ≤ data.length
  return {
    created := UInt64.ofNat (leAt data 0 8)
    modified := UInt64.ofNat (leAt data 8 8)
    mftModified := UInt64.ofNat (leAt data 16 8)
    accessed := UInt64.ofNat (leAt data 24 8)
    fileAttributes := UInt32.ofNat (leAt data 32 4) &&& 0x30007FE7
    ownerId := if extended then some (UInt32.ofNat (leAt data 48 4)) else none
    securityId := if extended then some (UInt32.ofNat (leAt data 52 4)) else none
    quotaCharged := if extended then some (UInt64.ofNat (leAt data 56 8)) else none
    usn := if extended then some (UInt64.ofNat (leAt data 64 8)) else none }

/-- `lib/vfs/src/fs/ntfs/types.rs:126–131`. -/
structure ObjectId where
  objectId : List UInt8
  birthVolumeId : Option (List UInt8)
  birthObjectId : Option (List UInt8)
  domainId : Option (List UInt8)
  deriving DecidableEq, Repr

/-- `lib/vfs/src/fs/ntfs/types.rs:134–168`; a trailing identifier is present when it fits. -/
def ObjectId.parse (attrData : List UInt8) : Option ObjectId := do
  let data ← tailAt attrData 24
  let objectId ← windowAt data 0 16
  return {
    objectId
    birthVolumeId := windowAt data 16 16
    birthObjectId := windowAt data 32 16
    domainId := windowAt data 48 16 }

/-- `lib/vfs/src/fs/ntfs/types.rs:190–198`; the control word keeps its known bits only. -/
structure SecurityDescriptor where
  raw : List UInt8
  revision : UInt8
  control : UInt16
  ownerOffset : Option UInt32
  groupOffset : Option UInt32
  daclOffset : Option UInt32
  saclOffset : Option UInt32
  deriving DecidableEq, Repr

/-- An offset of a security descriptor; zero means that the part is absent. -/
def nonZeroOffset (v : UInt32) : Option UInt32 := if v ≠ 0 then some v else none

/-- `lib/vfs/src/fs/ntfs/types.rs:219–248`. -/
def SecurityDescriptor.parse (attrData : List UInt8) (isResident : Bool) :
    Option SecurityDescriptor := do
  let data ← if isResident then
      (windowAt attrData 20 2).bind fun w ↦ tailAt attrData (leNat w)
    else none
  if data.length < 20 then none else
  return {
    raw := data
    revision := data.getD 0 0
    control := UInt16.ofNat (leAt data 2 2) &&& 0xFC3F
    ownerOffset := nonZeroOffset (UInt32.ofNat (leAt data 4 4))
    groupOffset := nonZeroOffset (UInt32.ofNat (leAt data 8 4))
    saclOffset := nonZeroOffset (UInt32.ofNat (leAt data 12 4))
    daclOffset := nonZeroOffset (UInt32.ofNat (leAt data 16 4)) }

/-- `lib/vfs/src/fs/ntfs/types.rs:261–265`. -/
inductive ReparseTag where
  | symbolicLink
  | mountPoint
  | other (tag : UInt32)
  deriving DecidableEq, Repr

/-- `lib/vfs/src/fs/ntfs/types.rs:253–258`. -/
structure ReparsePoint where
  reparseTag : ReparseTag
  reparseData : List UInt8
  substituteName : Option (List Char)
  printName : Option (List Char)
  deriving DecidableEq, Repr

/-- `lib/vfs/src/fs/ntfs/types.rs:317–321`. -/
def decodeUtf16 (raw : List UInt8) : List Char :=
  (chunksExact 2 raw).map fun c ↦ decodeUnit (leNat c)

/-- `lib/vfs/src/fs/ntfs/types.rs:297–315`. -/
def ReparsePoint.parseNameBuffer (data : List UInt8) (tag : ReparseTag) :
    Option (Option (List Char) × Option (List Char)) := do
  if data.length < 8 then none else
  let bufStart := match tag with
    | .symbolicLink => 12
    | _ => 8
  let sub ← windowAt data (bufStart + leAt data 0 2) (leAt data 2 2)
  let prt ← windowAt data (bufStart + leAt data 4 2) (leAt data 6 2)
  return (some (decodeUtf16 sub), some (decodeUtf16 prt))

/-- `lib/vfs/src/fs/ntfs/types.rs:271–295`. -/
def ReparsePoint.parse (attrData : List UInt8) : Option ReparsePoint := do
  let data ← tailAt attrData 24
  if data.length < 8 then none else
  let tag := leAt data 0 4
  let reparseData ← windowAt data 8 (leAt data 4 2)
  let reparseTag := if tag = 0xA000000C then ReparseTag.symbolicLink
    else if tag = 0xA0000003 then .mountPoint
    else .other (UInt32.ofNat tag)
  let names := match reparseTag with
    | .other _ => (none, none)
    | _ => (ReparsePoint.parseNameBuffer reparseData reparseTag).getD (none, none)
  return { reparseTag, reparseData, substituteName := names.1, printName := names.2 }

/-- `lib/vfs/src/fs/ntfs/types.rs:326–330`. -/
structure AlternateDataStream where
  name : List Char
  size : Nat
  data : DataRun
  deriving DecidableEq, Repr

/-- `lib/vfs/src/fs/ntfs/types.rs:19–30`. -/
structure NtfsStat where
  isDirectory : Bool := false
  size : Nat := 0
  name : Option (List Char) := none
  dataRuns : List DataRun := []
  indexRoot : Option (List UInt8) := none
  standardInfo : Option StandardInformation := none
  securityDescriptor : Option SecurityDescriptor := none
  objectId : Option ObjectId := none
  reparsePoint : Option ReparsePoint := none
  alternateDataStreams : List AlternateDataStream := []
  deriving DecidableEq, Repr

/-- `lib/vfs/src/fs/ntfs/types.rs:344–347`. -/
structure CreateOptions where
  isDirectory : Bool
  data : List UInt8
  deriving DecidableEq, Repr

/-- `lib/vfs/src/fs/ntfs/types.rs:352–369`; the end marker is not a type that is yielded. -/
inductive AttributeType where
  | standardInformation
  | attributeList
  | fileName
  | objectId
  | securityDescriptor
  | volumeName
  | volumeInformation
  | data
  | indexRoot
  | indexAllocation
  | bitmap
  | reparsePoint
  | eaInformation
  | ea
  | loggedUtilityStream
  deriving DecidableEq, Repr

/-- The type of an attribute from its code; `lib/vfs/src/fs/ntfs/attr.rs:58–75`. -/
def AttributeType.ofCode : Nat → Option AttributeType
  | 0x10 => some .standardInformation
  | 0x20 => some .attributeList
  | 0x30 => some .fileName
  | 0x40 => some .objectId
  | 0x50 => some .securityDescriptor
  | 0x60 => some .volumeName
  | 0x70 => some .volumeInformation
  | 0x80 => some .data
  | 0x90 => some .indexRoot
  | 0xA0 => some .indexAllocation
  | 0xB0 => some .bitmap
  | 0xC0 => some .reparsePoint
  | 0xD0 => some .eaInformation
  | 0xE0 => some .ea
  | 0x100 => some .loggedUtilityStream
  | _ => none

end SmallOs.Ntfs
