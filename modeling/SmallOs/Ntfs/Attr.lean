import SmallOs.Ntfs.Runs

/-!
# Attributes of a file record

`lib/vfs/src/fs/ntfs/attr.rs`: the attribute iterator, the metadata gathered from it, and
the second walker, which looks for `$DATA` by type code alone.
-/

namespace SmallOs.Ntfs

open SmallOs.Base

/-! ### Names -/

/-- `lib/vfs/src/fs/ntfs/attr.rs:384–405`: the name ends at its first zero unit. -/
def parseNameAndParent (data : List UInt8) (nameOffset : Nat) : Option (List Char × Nat) :=
  if data.length < nameOffset + 2 then none else
  let nameLen := (data.getD 0x40 0).toNat
  if data.length - nameOffset < nameLen * 2 then none else
  let units := (List.range nameLen).map fun i ↦ leAt data (nameOffset + i * 2) 2
  some ((units.takeWhile (· ≠ 0)).map decodeUnit, leAt data 0 8)

/-- `lib/vfs/src/fs/ntfs/attr.rs:18–21`; slicing a shorter attribute panics. -/
def parseFilename (attrData : List UInt8) : Outcome NtfsError (Option (List Char × Nat)) := do
  Outcome.assert (24 ≤ attrData.length)
  return parseNameAndParent (attrData.drop 24) 0x42

/-- `lib/vfs/src/fs/ntfs/attr.rs:23–25`. -/
def parseFilenameFromKey (key : List UInt8) : Option (List Char × Nat) :=
  parseNameAndParent key 0x42

/-- `lib/vfs/src/fs/ntfs/attr.rs:367–382`; a name out of bounds is empty. -/
def parseAttrName (attrData : List UInt8) (nameLength : Nat) : List Char :=
  if attrData.length < 12 then [] else
  match windowAt attrData (leAt attrData 10 2) (nameLength * 2) with
  | none => []
  | some raw => decodeUtf16 raw

/-! ### The iterator -/

/-- An attribute as the iterator yields it, with the offset it was found at. -/
structure Attr where
  offset : Nat
  typ : AttributeType
  data : List UInt8
  isResident : Bool
  deriving DecidableEq, Repr

/-- One step of the iterator; `lib/vfs/src/fs/ntfs/attr.rs:36–78`. An attribute of at most
eight bytes at the record's end panics on its resident flag. -/
def nextAttr (record : List UInt8) (offset : Nat) : Outcome NtfsError (Option Attr) :=
  if record.length < offset + 8 then pure none
  else if leAt record offset 4 = 0xFFFFFFFF then pure none
  else if leAt record (offset + 4) 4 = 0 ∨
      record.length < offset + leAt record (offset + 4) 4 then pure none
  else do
    let flag ← uintAt record (offset + 8) 1
    match AttributeType.ofCode (leAt record offset 4) with
    | none => return none
    | some typ => return some {
        offset
        typ
        data := slice record offset (leAt record (offset + 4) 4)
        isResident := flag = 0 }

/-- What a yielded attribute says about the record. -/
theorem nextAttr_eq_some {record : List UInt8} {offset : Nat} {a : Attr}
    (h : nextAttr record offset = .ok (some a)) :
    offset + 9 ≤ record.length ∧ leAt record offset 4 ≠ 0xFFFFFFFF ∧
      0 < leAt record (offset + 4) 4 ∧
      offset + leAt record (offset + 4) 4 ≤ record.length ∧
      AttributeType.ofCode (leAt record offset 4) = some a.typ ∧ a.offset = offset ∧
      a.data = slice record offset (leAt record (offset + 4) 4) ∧
      a.isResident = decide (leAt record (offset + 8) 1 = 0) := by
  unfold nextAttr at h
  split at h
  · cases h
  split at h
  · cases h
  split at h
  · cases h
  next h₁ h₂ h₃ =>
    rw [Outcome.bind_eq_ok] at h
    obtain ⟨flag, hflag, h⟩ := h
    obtain ⟨hlen, rfl⟩ := uintAt_eq_ok.mp hflag
    split at h
    · cases h
    next typ ht =>
      cases h
      exact ⟨by omega, h₂, by omega, by omega, ht, rfl, rfl, rfl⟩

/-- The length of a yielded attribute is its length field. -/
theorem nextAttr_length {record : List UInt8} {offset : Nat} {a : Attr}
    (h : nextAttr record offset = .ok (some a)) :
    0 < a.data.length ∧ offset + a.data.length ≤ record.length := by
  obtain ⟨-, -, hpos, hle, -, -, hd, -⟩ := nextAttr_eq_some h
  rw [hd, length_slice _ _ _ hle]
  exact ⟨hpos, hle⟩

/-- The attributes yielded from an offset on, and whether the iterator then ends or panics. -/
def attrsFrom (record : List UInt8) (offset : Nat) : List Attr × Outcome NtfsError Unit :=
  match _h : nextAttr record offset with
  | .ok (some a) =>
    let rest := attrsFrom record (offset + a.data.length)
    (a :: rest.1, rest.2)
  | .ok none => ([], .ok ())
  | .err e => ([], .err e)
  | .panic => ([], .panic)
termination_by record.length - offset
decreasing_by
  have hl := nextAttr_length _h
  omega

/-- `lib/vfs/src/fs/ntfs/attr.rs:29–80`; a record without the offset field panics. -/
def parseAttributes (record : List UInt8) :
    Outcome NtfsError (List Attr × Outcome NtfsError Unit) := do
  let first ← uintAt record 20 2
  return attrsFrom record first

/-! ### File metadata -/

/-- The bytes that a run list stands for; `lib/vfs/src/fs/ntfs/attr.rs:237`. -/
def runsSize (bytesPerCluster : Nat) (runs : List (Nat × Nat)) : Outcome NtfsError Nat :=
  runs.foldlM (fun size run ↦ do
    Outcome.addAt 64 size (← Outcome.mulAt 64 run.2 bytesPerCluster)) 0

private theorem foldlM_runsSize {bytesPerCluster : Nat} {runs : List (Nat × Nat)} {size : Nat}
    (h : size < 2 ^ 64) :
    (runs.foldlM (fun size run ↦ do
      Outcome.addAt 64 size (← Outcome.mulAt 64 run.2 bytesPerCluster)) size :
        Outcome NtfsError Nat) =
      if size + (runs.map fun run ↦ run.2 * bytesPerCluster).sum < 2 ^ 64 then
        .ok (size + (runs.map fun run ↦ run.2 * bytesPerCluster).sum)
      else .panic := by
  induction runs generalizing size with
  | nil =>
    rw [List.map_nil, List.sum_nil, Nat.add_zero, if_pos h]
    rfl
  | cons run runs ih =>
    rw [List.map_cons, List.sum_cons, ← Nat.add_assoc, List.foldlM_cons]
    by_cases hmul : run.2 * bytesPerCluster < 2 ^ 64
    swap
    · rw [if_neg (by omega), Outcome.mulAt, Outcome.assert_not hmul]
      rfl
    rw [Outcome.mulAt_of hmul, Outcome.ok_bind]
    by_cases hadd : size + run.2 * bytesPerCluster < 2 ^ 64
    · rw [Outcome.addAt_of hadd, Outcome.ok_bind, ih hadd]
    · rw [if_neg (by omega), Outcome.addAt, Outcome.assert_not hadd]
      rfl

/-- The bytes of the runs are added up where the sum fits into a word. -/
theorem runsSize_eq_ite (bytesPerCluster : Nat) (runs : List (Nat × Nat)) :
    runsSize bytesPerCluster runs =
      if (runs.map fun run ↦ run.2 * bytesPerCluster).sum < 2 ^ 64 then
        .ok (runs.map fun run ↦ run.2 * bytesPerCluster).sum
      else .panic := by
  have hfold := @foldlM_runsSize bytesPerCluster runs 0 (by decide)
  rwa [Nat.zero_add] at hfold

/-- A stream found in the record: the unnamed one goes to the file, a named one to its
alternate streams; `lib/vfs/src/fs/ntfs/attr.rs:222–234,239–249`. -/
def addStream (stat : NtfsStat) (attrData : List UInt8) (nameLength size : Nat) (run : DataRun) :
    NtfsStat :=
  if nameLength = 0 then { stat with size, dataRuns := stat.dataRuns ++ [run] }
  else { stat with alternateDataStreams := stat.alternateDataStreams ++
      [{ name := parseAttrName attrData nameLength, size, data := run }] }

/-- `lib/vfs/src/fs/ntfs/attr.rs:203–251`; a resident value out of bounds is skipped. -/
def statData (boot : BootSector) (stat : NtfsStat) (a : Attr) : Outcome NtfsError NtfsStat := do
  let nameLength ← uintAt a.data 9 1
  if a.isResident then
    if a.data.length < 24 then return stat
    let valueLength := leAt a.data 16 4
    let valueOffset := leAt a.data 20 2
    if a.data.length < valueOffset + valueLength then return stat
    return addStream stat a.data nameLength valueLength
      (.resident (slice a.data valueOffset valueLength))
  else
    let runs ← parseDataRuns a.data
    let size ← runsSize boot.bytesPerCluster runs
    return addStream stat a.data nameLength size (.nonResident runs)

/-- `lib/vfs/src/fs/ntfs/attr.rs:192–201`. -/
def statIndexRoot (stat : NtfsStat) (a : Attr) : Outcome NtfsError NtfsStat :=
  if a.isResident then do
    let valOff ← uintAt a.data 20 2
    return { stat with
      isDirectory := true
      indexRoot := if valOff < a.data.length then some (a.data.drop valOff) else stat.indexRoot }
  else pure stat

/-- `lib/vfs/src/fs/ntfs/attr.rs:184–190`: the first name that parses stays. -/
def statFileName (stat : NtfsStat) (a : Attr) : Outcome NtfsError NtfsStat :=
  if a.isResident ∧ stat.name = none then do
    match ← parseFilename a.data with
    | some (name, _) => return { stat with name := some name }
    | none => return stat
  else pure stat

/-- What one attribute adds to the metadata; `lib/vfs/src/fs/ntfs/attr.rs:161–254`. -/
def statStep (boot : BootSector) (stat : NtfsStat) (a : Attr) : Outcome NtfsError NtfsStat :=
  match a.typ with
  | .standardInformation => pure (if a.isResident then
      { stat with standardInfo := StandardInformation.parse a.data } else stat)
  | .objectId => pure (if a.isResident then
      { stat with objectId := ObjectId.parse a.data } else stat)
  | .securityDescriptor => pure
      { stat with securityDescriptor := SecurityDescriptor.parse a.data a.isResident }
  | .reparsePoint => pure (if a.isResident then
      { stat with reparsePoint := ReparsePoint.parse a.data } else stat)
  | .fileName => statFileName stat a
  | .indexRoot => statIndexRoot stat a
  | .data => statData boot stat a
  | _ => pure stat

/-- `lib/vfs/src/fs/ntfs/attr.rs:146–258`. -/
def parseStat (record : List UInt8) (boot : BootSector) : Outcome NtfsError NtfsStat := do
  let (attrs, ending) ← parseAttributes record
  let stat ← attrs.foldlM (statStep boot) {}
  ending
  return stat

/-- The metadata is a fold over the yielded attributes, then the iterator's own ending. -/
theorem parseStat_eq (record : List UInt8) (boot : BootSector) :
    parseStat record boot = uintAt record 20 2 >>= fun first ↦
      (attrsFrom record first).1.foldlM (statStep boot) {} >>= fun stat ↦
        (attrsFrom record first).2 >>= fun _ ↦ pure stat := by
  rw [parseStat, parseAttributes, bind_assoc]
  rfl

/-! ### The second walker -/

/-- The loop of `find_data_attribute_offset`; `lib/vfs/src/fs/ntfs/attr.rs:86–110`. -/
def findDataFrom (record : List UInt8) (offset : Nat) : Outcome NtfsError Nat :=
  if _hle : offset + 8 ≤ record.length then
    if leAt record offset 4 = 0xFFFFFFFF then .err .invalidAttribute
    else if leAt record offset 4 = 0x80 then .ok offset
    else if _hlen : leAt record (offset + 4) 4 = 0 then .err .invalidAttribute
    else findDataFrom record (offset + leAt record (offset + 4) 4)
  else .err .invalidAttribute
termination_by record.length - offset
decreasing_by omega

/-- `lib/vfs/src/fs/ntfs/attr.rs:83–111`; neither the stream's name nor its form is read. -/
def findDataAttributeOffset (record : List UInt8) : Outcome NtfsError Nat := do
  let first ← uintAt record 20 2
  findDataFrom record first

/-- `lib/vfs/src/fs/ntfs/attr.rs:114–141`. -/
def updateResidentData (record : List UInt8) (attrOffset : Nat) (data : List UInt8) :
    Outcome NtfsError (List UInt8) := do
  Outcome.ensure (attrOffset + 24 ≤ record.length) .invalidAttribute
  let start := attrOffset + leAt record (attrOffset + 20) 2
  let valueLength := leAt record (attrOffset + 16) 4
  Outcome.ensure (data.length = valueLength ∧ start + valueLength ≤ record.length)
    .invalidAttribute
  putAt record start data

end SmallOs.Ntfs
