import SmallOs.Ntfs.Index

/-!
# The driver

`lib/vfs/src/fs/ntfs/mod.rs` and the device accesses of `index.rs`. A mounted volume is its
boot sector and record size, which no call changes; the device is the state of the programs.
-/

namespace SmallOs.Ntfs

open SmallOs.Base SmallOs.Hal

/-- The fields of `NtfsDriver` beside its device; `lib/vfs/src/fs/ntfs/mod.rs:25–29`. -/
structure NtfsDriver where
  boot : BootSector
  mftRecordSize : Nat

namespace NtfsDriver

/-- Where an MFT record starts; `lib/vfs/src/fs/ntfs/mod.rs:156`. -/
def recordOffset (driver : NtfsDriver) (recordNumber : Nat) : Outcome NtfsError Nat := do
  let mftOffset ← driver.boot.mftByteOffset
  Outcome.addAt 64 mftOffset (← Outcome.mulAt 64 recordNumber driver.mftRecordSize)

/-- The size of a sector in bytes. -/
def sectorSize (driver : NtfsDriver) : Nat := driver.boot.bytesPerSector.toNat

end NtfsDriver

/-- `b"FILE"`. -/
def fileSignature : List UInt8 := [0x46, 0x49, 0x4C, 0x45]

/-- `b"BAAD"`. -/
def baadSignature : List UInt8 := [0x42, 0x41, 0x41, 0x44]

/-- The checks on a raw record and its restored bytes; `lib/vfs/src/fs/ntfs/mod.rs:161–166`. -/
def openRecord (driver : NtfsDriver) (buf : List UInt8) : Outcome NtfsError (List UInt8) := do
  let signature ← sliceAt buf 0 4
  Outcome.ensure (signature = fileSignature) .invalidMftRecord
  applyFixups buf driver.sectorSize

/-- The index data of a directory that keeps none in its metadata;
`lib/vfs/src/fs/ntfs/mod.rs:176–184`. -/
def rootValue (record : List UInt8) : Outcome NtfsError (List UInt8) := do
  let offset ← findAttributeOffset record 0x90
  let flag ← uintAt record (offset + 8) 1
  Outcome.ensure (flag = 0) .notSupported
  let valOff ← uintAt record (offset + 20) 2
  Outcome.assert (offset + valOff ≤ record.length)
  return record.drop (offset + valOff)

section Device

variable {D : Type} [BlockDevice D]

/-- `lib/vfs/src/fs/ntfs/mod.rs:32–38`. -/
def mount (partitionByteOffset : UInt64) : Prog D NtfsError NtfsDriver := do
  let bootBuf ← readBlocks partitionByteOffset.toNat 512
  let boot ← Prog.lift (BootSector.fromBytes bootBuf partitionByteOffset)
  let mftRecordSize ← Prog.lift boot.mftRecordSize
  return { boot, mftRecordSize }

/-- `lib/vfs/src/fs/ntfs/mod.rs:155–167`. -/
def readMftRecord (driver : NtfsDriver) (recordNumber : Nat) : Prog D NtfsError (List UInt8) := do
  let offset ← Prog.lift (driver.recordOffset recordNumber)
  let buf ← readBlocks offset driver.mftRecordSize
  Prog.lift (openRecord driver buf)

/-- `lib/vfs/src/fs/ntfs/mod.rs:72–75`. -/
def openFile (driver : NtfsDriver) (recordNumber : Nat) : Prog D NtfsError NtfsFile := do
  let _ ← readMftRecord driver recordNumber
  return { recordNumber }

/-- `lib/vfs/src/fs/ntfs/mod.rs:77–80`. -/
def stat (driver : NtfsDriver) (file : NtfsFile) : Prog D NtfsError NtfsStat := do
  let record ← readMftRecord driver file.recordNumber
  Prog.lift (parseStat record driver.boot)

/-- `lib/vfs/src/fs/ntfs/mod.rs:82–87`; the root directory is not looked at. -/
def isDirectory (driver : NtfsDriver) (file : NtfsFile) : Prog D NtfsError Bool :=
  if file.recordNumber = 5 then pure true
  else NtfsStat.isDirectory <$> stat driver file

/-- `lib/vfs/src/fs/ntfs/mod.rs:97–103`. -/
def readFileAll (driver : NtfsDriver) (file : NtfsFile) : Prog D NtfsError (List UInt8) := do
  let st ← stat driver file
  Prog.lift (Outcome.ensure (st.isDirectory = false) .notAFile)
  readDataRuns driver.boot st.dataRuns

/-- `lib/vfs/src/fs/ntfs/mod.rs:169–185`. -/
def getIndexData (driver : NtfsDriver) (file : NtfsFile) (st : NtfsStat) :
    Prog D NtfsError (List UInt8) :=
  match st.indexRoot with
  | some data => pure data
  | none => do
    let record ← readMftRecord driver file.recordNumber
    Prog.lift (rootValue record)

/-- The index data that both directory scans work on. -/
def directoryIndex (driver : NtfsDriver) (dir : NtfsFile) : Prog D NtfsError (List UInt8) := do
  let st ← stat driver dir
  getIndexData driver dir st

/-- `lib/vfs/src/fs/ntfs/mod.rs:112–116`. -/
def listDirectory (driver : NtfsDriver) (dir : NtfsFile) : Prog D NtfsError (List (List Char)) := do
  let indexData ← directoryIndex driver dir
  return listEntries indexData

/-- `lib/vfs/src/fs/ntfs/mod.rs:118–122`. -/
def findInDirectory (driver : NtfsDriver) (dir : NtfsFile) (name : List Char) :
    Prog D NtfsError Nat := do
  let indexData ← directoryIndex driver dir
  Prog.lift (findEntry indexData name)

/-- `lib/vfs/src/fs/ntfs/index.rs:42–151`. -/
def addToResidentIndex (driver : NtfsDriver) (record : List UInt8) (parent : NtfsFile)
    (childRecord : Nat) (childName : List Char) : Prog D NtfsError Unit := do
  let record ← Prog.lift (insertResident record parent.recordNumber childRecord childName)
  let record ← Prog.lift (reapplyFixups record driver.sectorSize)
  let mftOffset ← Prog.lift (driver.recordOffset parent.recordNumber)
  writeBlocks mftOffset record

/-- `lib/vfs/src/fs/ntfs/index.rs:154–315`. -/
def addToExternalIndex (driver : NtfsDriver) (parentRecord : List UInt8) (parent : NtfsFile)
    (childRecord : Nat) (childName : List Char) : Prog D NtfsError Unit := do
  let (idxOffset, idxRecordSize) ← Prog.lift (locateExternal driver.boot parentRecord)
  let idxBuf ← readBlocks idxOffset idxRecordSize
  let idxBuf ← Prog.lift (insertExternal idxBuf parent.recordNumber childRecord childName)
  writeBlocks idxOffset idxBuf

/-- `lib/vfs/src/fs/ntfs/index.rs:17–39`: with an external index, a full root falls back to
it; the resident inserter has not changed the record then. -/
def addDirectoryEntry (driver : NtfsDriver) (parent : NtfsFile) (childRecord : Nat)
    (childName : List Char) : Prog D NtfsError Unit := do
  let record ← readMftRecord driver parent.recordNumber
  if (findAttributeOffset record 0xA0).isOk then
    match ← Prog.attempt (addToResidentIndex driver record parent childRecord childName) with
    | .ok () => pure ()
    | .error .noSpace => addToExternalIndex driver record parent childRecord childName
    | .error e => Prog.fail e
  else
    addToResidentIndex driver record parent childRecord childName

end Device

end SmallOs.Ntfs
