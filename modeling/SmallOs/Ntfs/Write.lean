import SmallOs.Ntfs.Driver

/-!
# Writing files

`lib/vfs/src/fs/ntfs/write.rs`: the in-place update of a resident file, and the creation of a
file. An attribute of a new record is one concatenation here; the source writes its fields
one after the other into the zeroed record.
-/

namespace SmallOs.Ntfs

open SmallOs.Base SmallOs.Hal

/-! ### The record of a new file -/

/-- The header of a resident attribute without a name. -/
def residentHeader (code attrLen dataLen flags : Nat) : List UInt8 :=
  leBytes 4 code ++ (leBytes 4 attrLen ++ (leBytes 1 0 ++ (leBytes 1 0 ++ (leBytes 2 0 ++
    (leBytes 4 0 ++ (leBytes 4 dataLen ++ (leBytes 2 24 ++ leBytes 2 flags)))))))

theorem length_residentHeader (code attrLen dataLen flags : Nat) :
    (residentHeader code attrLen dataLen flags).length = 24 := by
  simp [residentHeader]

/-- `lib/vfs/src/fs/ntfs/write.rs:177–214`. -/
def writeStandardInfoAttr (recordLen offset : Nat) (isDirectory : Bool) :
    Outcome NtfsError (List UInt8) := do
  Outcome.ensure (offset + 96 ≤ recordLen) .noSpace
  return residentHeader 0x10 96 72 0 ++ (List.replicate 32 0 ++
    (leBytes 4 (if isDirectory then 0x10 else 0x20) ++ List.replicate 36 0))

/-- `lib/vfs/src/fs/ntfs/write.rs:217–264`; the indexed flag stands in the header's tail. -/
def writeFilenameAttr (recordLen offset : Nat) (name : List Char) (parentRecord : Nat) :
    Outcome NtfsError (List UInt8) := do
  let utf16 := nameUtf16 name
  Outcome.ensure (utf16.length ≤ 255) .nameTooLong
  let dataLen := 66 + utf16.length * 2
  let attrLen := (24 + dataLen + 7) / 8 * 8
  Outcome.ensure (offset + attrLen ≤ recordLen) .noSpace
  return residentHeader 0x30 attrLen dataLen 1 ++ (leBytes 8 parentRecord ++
    (List.replicate 56 0 ++ (leBytes 1 utf16.length ++ (leBytes 1 1 ++
      (utf16.flatMap (leBytes 2) ++ List.replicate (attrLen - (24 + dataLen)) 0)))))

/-- `lib/vfs/src/fs/ntfs/write.rs:267–296`. -/
def writeDataAttr (recordLen offset : Nat) (data : List UInt8) :
    Outcome NtfsError (List UInt8) := do
  Outcome.ensure (data.length ≤ 700) .invalidAttribute
  let attrLen := (24 + data.length + 7) / 8 * 8
  Outcome.ensure (offset + attrLen ≤ recordLen) .noSpace
  return residentHeader 0x80 attrLen data.length 0 ++ (data ++
    List.replicate (attrLen - (24 + data.length)) 0)

/-- `lib/vfs/src/fs/ntfs/write.rs:299–355`: an empty root whose allocated size is its used
size. -/
def writeIndexRootAttr (recordLen offset mftRecordSize : Nat) : Outcome NtfsError (List UInt8) := do
  Outcome.ensure (offset + 72 ≤ recordLen) .noSpace
  return residentHeader 0x90 72 48 0 ++ (leBytes 4 0x30 ++ (leBytes 4 0 ++
    (leBytes 4 mftRecordSize ++ (leBytes 1 1 ++ (List.replicate 3 0 ++ (leBytes 4 32 ++
      (leBytes 4 48 ++ (leBytes 4 48 ++ (List.replicate 4 0 ++ (leBytes 8 0 ++ (leBytes 2 16 ++
        (leBytes 2 0 ++ (leBytes 2 2 ++ List.replicate 2 0)))))))))))))

/-- The header of a new record and its update sequence array;
`lib/vfs/src/fs/ntfs/write.rs:136–152,169–171`. -/
def recordHeader (recordNumber mftRecordSize usedSize : Nat) : List UInt8 :=
  fileSignature ++ (leBytes 2 48 ++ (leBytes 2 3 ++ (leBytes 8 0 ++ (leBytes 2 recordNumber ++
    (leBytes 2 1 ++ (leBytes 2 56 ++ (leBytes 2 1 ++ (leBytes 4 usedSize ++
      (leBytes 4 mftRecordSize ++ (leBytes 8 0 ++ (leBytes 2 0 ++ (List.replicate 6 0 ++
        (leBytes 2 recordNumber ++ List.replicate 6 0)))))))))))))

theorem length_recordHeader (n size used : Nat) : (recordHeader n size used).length = 56 := by
  simp [recordHeader, fileSignature]

/-- `lib/vfs/src/fs/ntfs/write.rs:124–174`. The header needs 54 bytes and the end marker
four behind the attributes; a smaller record panics there. -/
def buildMftRecord (driver : NtfsDriver) (recordNumber : Nat) (name : List Char)
    (parentRecord : Nat) (isDirectory : Bool) (data : List UInt8) :
    Outcome NtfsError (List UInt8) := do
  let size := driver.mftRecordSize
  Outcome.assert (54 ≤ size)
  let standardInfo ← writeStandardInfoAttr size 56 isDirectory
  let off := 56 + standardInfo.length
  let filename ← writeFilenameAttr size off name parentRecord
  let off := off + filename.length
  let content ← (if isDirectory then writeIndexRootAttr size off size
    else writeDataAttr size off data)
  let off := off + content.length
  Outcome.assert (off + 4 ≤ size)
  let usedSize := (off + 4 + 7) / 8 * 8
  return recordHeader recordNumber size usedSize ++ (standardInfo ++ (filename ++ (content ++
    (leBytes 4 0xFFFFFFFF ++ List.replicate (size - (off + 4)) 0))))

/-! ### Programs -/

section Device

variable {D : Type} [BlockDevice D]

/-- The checks of `write_resident_file` on the metadata;
`lib/vfs/src/fs/ntfs/write.rs:23–34`. -/
def checkResident (st : NtfsStat) (data : List UInt8) : Outcome NtfsError Unit :=
  match st.dataRuns with
  | [] => .err .invalidAttribute
  | .resident existing :: _ =>
    Outcome.ensure (data.length = existing.length) .invalidAttribute
  | .nonResident _ :: _ => .err .invalidAttribute

/-- The record with its data replaced and its fixups set;
`lib/vfs/src/fs/ntfs/write.rs:37–40`. -/
def updateRecord (driver : NtfsDriver) (record data : List UInt8) :
    Outcome NtfsError (List UInt8) := do
  let dataAttrOffset ← findDataAttributeOffset record
  let record ← updateResidentData record dataAttrOffset data
  reapplyFixups record driver.sectorSize

/-- `lib/vfs/src/fs/ntfs/write.rs:17–47`. -/
def writeResidentFile (driver : NtfsDriver) (file : NtfsFile) (data : List UInt8) :
    Prog D NtfsError Unit := do
  let st ← stat driver file
  Prog.lift (checkResident st data)
  let record ← readMftRecord driver file.recordNumber
  let record ← Prog.lift (updateRecord driver record data)
  let mftOffset ← Prog.lift (driver.recordOffset file.recordNumber)
  writeBlocks mftOffset record

/-- `NtfsDriver::write_file`; `lib/vfs/src/fs/ntfs/mod.rs:124–126`. -/
def writeFile (driver : NtfsDriver) (file : NtfsFile) (data : List UInt8) :
    Prog D NtfsError Unit := writeResidentFile driver file data

/-- A record in use starts with one of two signatures. -/
def inUse (buf : List UInt8) : Prop :=
  slice buf 0 4 = fileSignature ∨ slice buf 0 4 = baadSignature

instance (buf : List UInt8) : Decidable (inUse buf) := inferInstanceAs (Decidable (_ ∨ _))

/-- The scan from record `num` on over `count` records;
`lib/vfs/src/fs/ntfs/write.rs:107–120`. -/
def allocateFrom (driver : NtfsDriver) (num : Nat) : Nat → Prog D NtfsError Nat
  | 0 => Prog.fail .noSpace
  | count + 1 => do
    let offset ← Prog.lift (driver.recordOffset num)
    match ← Prog.attempt (readBlocks offset driver.mftRecordSize) with
    | .error _ => allocateFrom driver (num + 1) count
    | .ok buf =>
      Prog.lift (Outcome.assert (4 ≤ buf.length))
      if inUse buf then allocateFrom driver (num + 1) count else pure num

/-- `lib/vfs/src/fs/ntfs/write.rs:103–121`. -/
def allocateMftRecord (driver : NtfsDriver) : Prog D NtfsError Nat :=
  allocateFrom driver 16 (100000 - 16)

/-- A name must not be found, and only its absence passes;
`lib/vfs/src/fs/ntfs/write.rs:62–66`. -/
def requireAbsent : Except NtfsError Nat → Outcome NtfsError Unit
  | .ok _ => .err .alreadyExists
  | .error .fileNotFound => .ok ()
  | .error e => .err e

/-- The checks of `create_file`, the new record's number and its bytes, fixups included;
`lib/vfs/src/fs/ntfs/write.rs:56–86`. -/
def prepareRecord (driver : NtfsDriver) (parent : NtfsFile) (name : List Char)
    (options : CreateOptions) : Prog D NtfsError (Nat × List UInt8) := do
  let directory ← isDirectory driver parent
  Prog.lift (Outcome.ensure (directory = true) .notADirectory)
  let found ← Prog.attempt (findInDirectory driver parent name)
  Prog.lift (requireAbsent found)
  Prog.lift (Outcome.ensure ((name.map Char.utf8Size).sum ≤ 255) .nameTooLong)
  let recordNumber ← allocateMftRecord driver
  let record ← Prog.lift (buildMftRecord driver recordNumber name parent.recordNumber
    options.isDirectory options.data)
  let record ← Prog.lift (reapplyFixups record driver.sectorSize)
  return (recordNumber, record)

/-- `lib/vfs/src/fs/ntfs/write.rs:50–100`. -/
def createFile (driver : NtfsDriver) (parent : NtfsFile) (name : List Char)
    (options : CreateOptions) : Prog D NtfsError NtfsFile := do
  let (recordNumber, record) ← prepareRecord driver parent name options
  let mftOffset ← Prog.lift (driver.recordOffset recordNumber)
  writeBlocks mftOffset record
  addDirectoryEntry driver parent recordNumber name
  openFile driver recordNumber

end Device

end SmallOs.Ntfs
