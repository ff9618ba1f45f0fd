import SmallOs.Ntfs.Write

/-!
# The record of a new file, field by field

`build_mft_record` of `lib/vfs/src/fs/ntfs/write.rs` writes the fields of a record one after the
other into a zeroed buffer, where an index outside of the buffer panics. The bytes that it leaves
are those of `buildMftRecord`, and it ends as that function does.
-/

namespace SmallOs.Ntfs

open SmallOs.Base SmallOs.Hal

/-! ### The attributes -/

/-- The length of an attribute with a value of `dataLen` bytes, rounded up to eight bytes. -/
def attrLenAligned (dataLen : Nat) : Nat := (24 + dataLen + 7) / 8 * 8

/-- The value of a `$FILE_NAME`. -/
def filenameValue (name : List Char) (parentRecord : Nat) : List UInt8 :=
  leBytes 8 parentRecord ++ (List.replicate 56 0 ++ (leBytes 1 (nameUtf16 name).length ++
    (leBytes 1 1 ++ (nameUtf16 name).flatMap (leBytes 2))))

/-- The value of an empty `$INDEX_ROOT`. -/
def indexRootValue (mftRecordSize : Nat) : List UInt8 :=
  leBytes 4 0x30 ++ (leBytes 4 0 ++ (leBytes 4 mftRecordSize ++ (leBytes 1 1 ++
    (List.replicate 3 0 ++ (leBytes 4 32 ++ (leBytes 4 48 ++ (leBytes 4 48 ++
      (List.replicate 4 0 ++ (leBytes 8 0 ++ (leBytes 2 16 ++ (leBytes 2 0 ++ (leBytes 2 2 ++
        List.replicate 2 0))))))))))))

/-- The value of a `$STANDARD_INFORMATION`. -/
def standardInfoValue (isDirectory : Bool) : List UInt8 :=
  List.replicate 32 0 ++ (leBytes 4 (if isDirectory then 0x10 else 0x20) ++ List.replicate 36 0)

/-- A resident attribute with its value, filled up with zeros. -/
def residentAttr (code flags : Nat) (value : List UInt8) : List UInt8 :=
  residentHeader code (attrLenAligned value.length) value.length flags ++ (value ++
    List.replicate (attrLenAligned value.length - (24 + value.length)) 0)

theorem length_residentAttr (code flags : Nat) (value : List UInt8) :
    (residentAttr code flags value).length = attrLenAligned value.length := by
  simp only [residentAttr, List.length_append, length_residentHeader, List.length_replicate,
    attrLenAligned]
  omega

theorem length_filenameValue (name : List Char) (parentRecord : Nat) :
    (filenameValue name parentRecord).length = 66 + (nameUtf16 name).length * 2 := by
  have hname := length_flatMap_const (leBytes 2) 2 (fun _ ↦ length_leBytes _ _) (nameUtf16 name)
  simp only [filenameValue, List.length_append, length_leBytes, List.length_replicate, hname]
  omega

theorem length_indexRootValue (mftRecordSize : Nat) :
    (indexRootValue mftRecordSize).length = 48 := by
  simp [indexRootValue]

theorem length_standardInfoValue (isDirectory : Bool) :
    (standardInfoValue isDirectory).length = 72 := by
  simp [standardInfoValue]

section Writers

variable {recordLen offset : Nat} {attr : List UInt8}

theorem writeStandardInfoAttr_eq_ok {isDirectory : Bool} :
    writeStandardInfoAttr recordLen offset isDirectory = .ok attr ↔
      offset + 96 ≤ recordLen ∧ residentAttr 0x10 0 (standardInfoValue isDirectory) = attr := by
  have hattr : residentAttr 0x10 0 (standardInfoValue isDirectory) =
      residentHeader 0x10 96 72 0 ++ standardInfoValue isDirectory := by
    rw [residentAttr, length_standardInfoValue]
    exact congrArg _ (List.append_nil _)
  simp only [writeStandardInfoAttr, Outcome.bind_eq_ok, Outcome.ensure_eq_ok, Outcome.pure_eq_ok,
    Outcome.ok.injEq, hattr]
  constructor
  · rintro ⟨-, h⟩
    exact h
  · intro h
    exact ⟨(), h⟩

theorem writeFilenameAttr_eq_ok {name : List Char} {parentRecord : Nat} :
    writeFilenameAttr recordLen offset name parentRecord = .ok attr ↔
      (nameUtf16 name).length ≤ 255 ∧
        offset + attrLenAligned (66 + (nameUtf16 name).length * 2) ≤ recordLen ∧
        residentAttr 0x30 1 (filenameValue name parentRecord) = attr := by
  have hattr : residentAttr 0x30 1 (filenameValue name parentRecord) = residentHeader 0x30
      (attrLenAligned (66 + (nameUtf16 name).length * 2)) (66 + (nameUtf16 name).length * 2) 1 ++
      (filenameValue name parentRecord ++ List.replicate
        (attrLenAligned (66 + (nameUtf16 name).length * 2) -
          (24 + (66 + (nameUtf16 name).length * 2))) 0) := by
    rw [residentAttr, length_filenameValue]
  rw [hattr]
  simp only [writeFilenameAttr, Outcome.bind_eq_ok, Outcome.ensure_eq_ok, Outcome.pure_eq_ok,
    Outcome.ok.injEq, filenameValue, List.append_assoc, attrLenAligned]
  constructor
  · rintro ⟨-, h₁, -, h₂, h₃⟩
    exact ⟨h₁, h₂, h₃⟩
  · rintro ⟨h₁, h₂, h₃⟩
    exact ⟨(), h₁, (), h₂, h₃⟩

theorem writeDataAttr_eq_ok {data : List UInt8} :
    writeDataAttr recordLen offset data = .ok attr ↔
      data.length ≤ 700 ∧ offset + attrLenAligned data.length ≤ recordLen ∧
        residentAttr 0x80 0 data = attr := by
  simp only [writeDataAttr, Outcome.bind_eq_ok, Outcome.ensure_eq_ok, Outcome.pure_eq_ok,
    Outcome.ok.injEq, residentAttr, attrLenAligned]
  constructor
  · rintro ⟨-, h₁, -, h₂, h₃⟩
    exact ⟨h₁, h₂, h₃⟩
  · rintro ⟨h₁, h₂, h₃⟩
    exact ⟨(), h₁, (), h₂, h₃⟩

theorem writeIndexRootAttr_eq_ok {mftRecordSize : Nat} :
    writeIndexRootAttr recordLen offset mftRecordSize = .ok attr ↔
      offset + 72 ≤ recordLen ∧ residentAttr 0x90 0 (indexRootValue mftRecordSize) = attr := by
  have hattr : residentAttr 0x90 0 (indexRootValue mftRecordSize) =
      residentHeader 0x90 72 48 0 ++ indexRootValue mftRecordSize := by
    rw [residentAttr, length_indexRootValue]
    exact congrArg _ (List.append_nil _)
  simp only [writeIndexRootAttr, Outcome.bind_eq_ok, Outcome.ensure_eq_ok, Outcome.pure_eq_ok,
    Outcome.ok.injEq, hattr]
  constructor
  · rintro ⟨-, h⟩
    exact h
  · intro h
    exact ⟨(), h⟩

theorem fits_writeStandardInfoAttr {isDirectory : Bool}
    (h : writeStandardInfoAttr recordLen offset isDirectory = .ok attr) :
    offset + attr.length ≤ recordLen := by
  obtain ⟨hfit, rfl⟩ := writeStandardInfoAttr_eq_ok.mp h
  rwa [length_residentAttr, length_standardInfoValue]

theorem fits_writeFilenameAttr {name : List Char} {parentRecord : Nat}
    (h : writeFilenameAttr recordLen offset name parentRecord = .ok attr) :
    offset + attr.length ≤ recordLen := by
  obtain ⟨-, hfit, rfl⟩ := writeFilenameAttr_eq_ok.mp h
  rwa [length_residentAttr, length_filenameValue]

theorem fits_writeContent {isDirectory : Bool} {mftRecordSize : Nat} {data : List UInt8}
    (h : (if isDirectory then writeIndexRootAttr recordLen offset mftRecordSize
      else writeDataAttr recordLen offset data) = .ok attr) :
    offset + attr.length ≤ recordLen := by
  cases isDirectory with
  | true =>
    obtain ⟨hfit, rfl⟩ := writeIndexRootAttr_eq_ok.mp h
    rwa [length_residentAttr, length_indexRootValue]
  | false =>
    obtain ⟨-, hfit, rfl⟩ := writeDataAttr_eq_ok.mp h
    rwa [length_residentAttr]

end Writers

namespace InPlace

/-- The fields of a resident header, as all writers but that of `$STANDARD_INFORMATION` cut them. -/
def headerFields (code attrLen dataLen : Nat) : List (List UInt8) :=
  [leBytes 4 code, leBytes 4 attrLen, [0], [0], leBytes 2 0, leBytes 4 0, leBytes 4 dataLen,
    leBytes 2 24]

/-- `lib/vfs/src/fs/ntfs/write.rs:177–214`. -/
def writeStandardInfoAttr (record : List UInt8) (offset : Nat) (isDirectory : Bool) :
    Outcome NtfsError (List UInt8 × Nat) := do
  let dataLen := 72
  let attrLen := 24 + dataLen
  Outcome.ensure (offset + attrLen ≤ record.length) .noSpace
  let now := 0
  let flags := if isDirectory then 0x10 else 0x20
  let record ← putFields record offset
    [leBytes 4 0x10, leBytes 4 attrLen, [0], [0], leBytes 2 0, leBytes 2 0, leBytes 2 0,
      leBytes 4 dataLen, leBytes 2 24, List.replicate 2 0]
  let record ← putFields record (offset + 24)
    [leBytes 8 now, leBytes 8 now, leBytes 8 now, leBytes 8 now, leBytes 4 flags,
      List.replicate 36 0]
  return (record, offset + attrLen)

/-- `lib/vfs/src/fs/ntfs/write.rs:217–264`. The bytes behind the name stay as they were. -/
def writeFilenameAttr (record : List UInt8) (offset : Nat) (name : List Char) (parentRecord : Nat) :
    Outcome NtfsError (List UInt8 × Nat) := do
  let utf16 := nameUtf16 name
  Outcome.ensure (utf16.length ≤ 255) .nameTooLong
  let dataLen := 66 + utf16.length * 2
  let attrLen := (24 + dataLen + 7) / 8 * 8
  Outcome.ensure (offset + attrLen ≤ record.length) .noSpace
  let record ← putFields record offset (headerFields 0x30 attrLen dataLen ++ [[1], [0]])
  let record ← putFields record (offset + 24)
    [leBytes 8 parentRecord, List.replicate 56 0, leBytes 1 utf16.length, [1]]
  let record ← putFields record (offset + 24 + 66) (utf16.map (leBytes 2))
  return (record, offset + attrLen)

/-- `lib/vfs/src/fs/ntfs/write.rs:267–296`. -/
def writeDataAttr (record : List UInt8) (offset : Nat) (data : List UInt8) :
    Outcome NtfsError (List UInt8 × Nat) := do
  let maxResidentData := 700
  Outcome.ensure (data.length ≤ maxResidentData) .invalidAttribute
  let attrLen := (24 + data.length + 7) / 8 * 8
  Outcome.ensure (offset + attrLen ≤ record.length) .noSpace
  let record ← putFields record offset
    (headerFields 0x80 attrLen data.length ++ [List.replicate 2 0])
  let record ← putFields record (offset + 24)
    [data, List.replicate (attrLen - (24 + data.length)) 0]
  return (record, offset + attrLen)

/-- `lib/vfs/src/fs/ntfs/write.rs:299–355`. -/
def writeIndexRootAttr (record : List UInt8) (offset mftRecordSize : Nat) :
    Outcome NtfsError (List UInt8 × Nat) := do
  let indexRootHeaderLen := 16
  let indexHeaderLen := 16
  let endEntryLen := 16
  let dataLen := indexRootHeaderLen + indexHeaderLen + endEntryLen
  let attrLen := 24 + dataLen
  Outcome.ensure (offset + attrLen ≤ record.length) .noSpace
  let record ← putFields record offset (headerFields 0x90 attrLen dataLen ++ [List.replicate 2 0])
  let record ← putFields record (offset + 24)
    [leBytes 4 0x30, leBytes 4 0, leBytes 4 mftRecordSize, [1], List.replicate 3 0]
  let firstEntryOffset := indexRootHeaderLen + indexHeaderLen
  let totalSize := indexRootHeaderLen + indexHeaderLen + endEntryLen
  let record ← putFields record (offset + 24 + 16)
    [leBytes 4 firstEntryOffset, leBytes 4 totalSize, leBytes 4 totalSize, List.replicate 4 0]
  let record ← putFields record (offset + 24 + 32)
    [leBytes 8 0, leBytes 2 16, leBytes 2 0, leBytes 2 0x0002, List.replicate 2 0]
  return (record, offset + attrLen)

/-- The fields of a record's header in front of its used size;
`lib/vfs/src/fs/ntfs/write.rs:136–152`. -/
def recordFields (seq mftRecordSize : Nat) : List (List UInt8) :=
  [fileSignature, leBytes 2 48, leBytes 2 3, leBytes 8 0, leBytes 2 seq, leBytes 2 1, leBytes 2 56,
    leBytes 2 1, leBytes 4 0, leBytes 4 mftRecordSize, leBytes 8 0, leBytes 2 0,
    List.replicate 6 0, leBytes 2 seq, List.replicate 4 0]

/-- `lib/vfs/src/fs/ntfs/write.rs:124–174`. -/
def buildMftRecord (driver : NtfsDriver) (recordNumber : Nat) (name : List Char)
    (parentRecord : Nat) (isDirectory : Bool) (data : List UInt8) :
    Outcome NtfsError (List UInt8) := do
  let record := List.replicate driver.mftRecordSize 0
  let seq := recordNumber % 2 ^ 16
  let record ← putFields record 0 (recordFields seq driver.mftRecordSize)
  let (record, off) ← writeStandardInfoAttr record 56 isDirectory
  let (record, off) ← writeFilenameAttr record off name parentRecord
  let (record, off) ← (if isDirectory then writeIndexRootAttr record off driver.mftRecordSize
    else writeDataAttr record off data)
  let record ← putAt record off (leBytes 4 0xFFFFFFFF)
  let off := off + 4
  let usedSize := (off + 7) / 8 * 8
  putAt record 0x18 (leBytes 4 usedSize)

/-! ### The writers on a zeroed buffer -/

/-- A record that has been written up to the end of `front`. -/
def written (front : List UInt8) (n : Nat) : List UInt8 := front ++ List.replicate n 0

theorem length_written (front : List UInt8) (n : Nat) :
    (written front n).length = front.length + n := by
  rw [written, List.length_append, List.length_replicate]

/-- Zeros at the end of the written part have been there before. -/
theorem written_append_zeros (front : List UInt8) (k n : Nat) :
    written (front ++ List.replicate k 0) n = written front (k + n) := by
  rw [written, written, List.append_assoc, List.replicate_append_replicate]

/-- What a writer returns that has laid an attribute behind `front`. -/
def laid (front : List UInt8) (n : Nat) (attr : List UInt8) : List UInt8 × Nat :=
  (written (front ++ attr) (n - attr.length), front.length + attr.length)

/-- The same in a record of a given size. -/
theorem laid_eq (front : List UInt8) (size : Nat) (attr : List UInt8) :
    laid front (size - front.length) attr =
      (written (front ++ attr) (size - (front ++ attr).length), (front ++ attr).length) := by
  rw [laid, List.length_append, Nat.sub_sub]

theorem putFields_written {front : List UInt8} {n : Nat} {fields : List (List UInt8)}
    (h : fields.flatten.length ≤ n) :
    (putFields (written front n) front.length fields : Outcome NtfsError (List UInt8)) =
      .ok (written (front ++ fields.flatten) (n - fields.flatten.length)) := by
  have hsplit : List.replicate n (0 : UInt8) = List.replicate fields.flatten.length 0 ++
      List.replicate (n - fields.flatten.length) 0 := by
    rw [List.replicate_append_replicate]
    congr 1
    omega
  rw [written, hsplit, putFields_append (by rw [List.length_replicate]), written, List.append_assoc]

/-- The same for a single field. -/
theorem putAt_written {front field : List UInt8} {n : Nat} (h : field.length ≤ n) :
    (putAt (written front n) front.length field : Outcome NtfsError (List UInt8)) =
      .ok (written (front ++ field) (n - field.length)) := by
  have hone : putFields (written front n) front.length [field] =
      (putAt (written front n) front.length field : Outcome NtfsError (List UInt8)) := bind_pure _
  have hflat : [field].flatten = field := List.flatten_singleton
  rw [← hone, putFields_written (by rwa [hflat]), hflat]

/-- The same from the start of a buffer. -/
theorem putFields_zeros {n : Nat} {fields : List (List UInt8)} (h : fields.flatten.length ≤ n) :
    (putFields (List.replicate n 0) 0 fields : Outcome NtfsError (List UInt8)) =
      .ok (written fields.flatten (n - fields.flatten.length)) :=
  @putFields_written [] n fields h

variable {front : List UInt8} {n : Nat}

/-- A writer that lays an attribute when it fits; zeros at its end have been there before. -/
theorem putFields_laid {fields : List (List UInt8)} {attr : List UInt8} {len : Nat} (pad : Nat)
    (hattr : fields.flatten ++ List.replicate pad 0 = attr) (hlen : attr.length = len)
    (h : len ≤ n) :
    ((putFields (written front n) front.length fields : Outcome NtfsError (List UInt8)) >>=
      fun record ↦ pure (record, front.length + len)) = .ok (laid front n attr) := by
  subst hattr hlen
  rw [List.length_append, List.length_replicate] at h
  have hzeros : List.replicate pad (0 : UInt8) ++
      List.replicate (n - (fields.flatten.length + pad)) 0 =
      List.replicate (n - fields.flatten.length) 0 := by
    rw [List.replicate_append_replicate]
    congr 1
    omega
  rw [putFields_written (by omega), Outcome.ok_bind, laid, written, written, List.length_append,
    List.length_replicate, ← hzeros]
  simp only [List.append_assoc]
  rfl

theorem writeStandardInfoAttr_eq (isDirectory : Bool) :
    writeStandardInfoAttr (written front n) front.length isDirectory =
      laid front n <$> Ntfs.writeStandardInfoAttr (front.length + n) front.length isDirectory := by
  unfold writeStandardInfoAttr Ntfs.writeStandardInfoAttr
  dsimp only
  rw [length_written]
  by_cases hfit : front.length + 96 ≤ front.length + n
  · rw [Outcome.ensure_of hfit, Outcome.ok_bind, Outcome.ok_bind, ← bind_assoc,
      putFields_bind (by simp), putFields_laid 0 _ _ (by omega)]
    · rfl
    · cases isDirectory <;> decide
    · cases isDirectory <;> decide
  · rw [Outcome.ensure_not hfit]
    rfl

theorem writeFilenameAttr_eq (name : List Char) (parent : Nat) :
    writeFilenameAttr (written front n) front.length name parent =
      laid front n <$> Ntfs.writeFilenameAttr (front.length + n) front.length name parent := by
  unfold writeFilenameAttr Ntfs.writeFilenameAttr
  dsimp only
  rw [length_written]
  by_cases hunits : (nameUtf16 name).length ≤ 255
  swap
  · rw [Outcome.ensure_not hunits]
    rfl
  rw [Outcome.ensure_of hunits, Outcome.ok_bind, Outcome.ok_bind]
  generalize hlen : (24 + (66 + (nameUtf16 name).length * 2) + 7) / 8 * 8 = attrLen
  by_cases hfit : front.length + attrLen ≤ front.length + n
  swap
  · rw [Outcome.ensure_not hfit]
    rfl
  have hname := length_flatMap_const (leBytes 2) 2 (fun _ ↦ length_leBytes _ _) (nameUtf16 name)
  rw [Outcome.ensure_of hfit, Outcome.ok_bind, Outcome.ok_bind, ← bind_assoc,
    putFields_bind (by simp [headerFields]), ← bind_assoc, putFields_bind (by simp [headerFields]),
    putFields_laid (attrLen - (24 + (66 + (nameUtf16 name).length * 2))) _ _ (by omega)]
  · rfl
  · rw [List.flatMap_def]
    simp [headerFields, residentHeader, leBytes]
  · simp only [residentHeader, List.length_append, length_leBytes, List.length_replicate, hname]
    omega

theorem writeDataAttr_eq (data : List UInt8) :
    writeDataAttr (written front n) front.length data =
      laid front n <$> Ntfs.writeDataAttr (front.length + n) front.length data := by
  unfold writeDataAttr Ntfs.writeDataAttr
  dsimp only
  rw [length_written]
  by_cases hsmall : data.length ≤ 700
  swap
  · rw [Outcome.ensure_not hsmall]
    rfl
  rw [Outcome.ensure_of hsmall, Outcome.ok_bind, Outcome.ok_bind]
  generalize hlen : (24 + data.length + 7) / 8 * 8 = attrLen
  by_cases hfit : front.length + attrLen ≤ front.length + n
  swap
  · rw [Outcome.ensure_not hfit]
    rfl
  rw [Outcome.ensure_of hfit, Outcome.ok_bind, Outcome.ok_bind, ← bind_assoc,
    putFields_bind (by simp [headerFields]), putFields_laid 0 _ _ (by omega)]
  · rfl
  · simp [headerFields, residentHeader, leBytes]
  · simp [residentHeader]
    omega

theorem writeIndexRootAttr_eq (mftRecordSize : Nat) :
    writeIndexRootAttr (written front n) front.length mftRecordSize =
      laid front n <$> Ntfs.writeIndexRootAttr (front.length + n) front.length mftRecordSize := by
  unfold writeIndexRootAttr Ntfs.writeIndexRootAttr
  dsimp only
  rw [length_written]
  by_cases hfit : front.length + 72 ≤ front.length + n
  · rw [Outcome.ensure_of hfit, Outcome.ok_bind, Outcome.ok_bind, ← bind_assoc,
      putFields_bind (by simp [headerFields]), ← bind_assoc,
      putFields_bind (by simp [headerFields]), ← bind_assoc,
      putFields_bind (by simp [headerFields]), putFields_laid 0 _ _ (by omega)]
    · rfl
    · simp [headerFields, residentHeader, leBytes]
    · simp [residentHeader]
  · rw [Outcome.ensure_not hfit]
    rfl

/-! ### The whole record -/

theorem recordFields_flatten (recordNumber mftRecordSize : Nat) :
    (recordFields (recordNumber % 2 ^ 16) mftRecordSize).flatten ++ List.replicate 2 0 =
      recordHeader recordNumber mftRecordSize 0 := by
  have hseq : leBytes 2 (recordNumber % 2 ^ 16) = leBytes 2 recordNumber := by
    have hlow : recordNumber % 2 ^ 16 % 256 = recordNumber % 256 := by omega
    have hhigh : recordNumber % 2 ^ 16 / 256 % 256 = recordNumber / 256 % 256 := by omega
    rw [leBytes, leBytes, leBytes, leBytes, leBytes, leBytes, hlow, hhigh]
  rw [recordFields, hseq]
  simp [recordHeader]

/-- The used size takes its place in the header. -/
theorem splice_usedSize (recordNumber mftRecordSize usedSize : Nat) (rest : List UInt8) :
    splice (recordHeader recordNumber mftRecordSize 0 ++ rest) 0x18 (leBytes 4 usedSize) =
      recordHeader recordNumber mftRecordSize usedSize ++ rest := by
  have hfront : ∀ used, recordHeader recordNumber mftRecordSize used ++ rest =
      (fileSignature ++ (leBytes 2 48 ++ (leBytes 2 3 ++ (leBytes 8 0 ++ (leBytes 2 recordNumber ++
        (leBytes 2 1 ++ (leBytes 2 56 ++ leBytes 2 1))))))) ++ (leBytes 4 used ++
          (leBytes 4 mftRecordSize ++ (leBytes 8 0 ++ (leBytes 2 0 ++ (List.replicate 6 0 ++
            (leBytes 2 recordNumber ++ (List.replicate 6 0 ++ rest))))))) := by
    intro used
    simp only [recordHeader, List.append_assoc]
  rw [hfront, hfront]
  exact splice_append _ _ _ _ (by rw [length_leBytes, length_leBytes])

/-- The writer of the third attribute. -/
theorem writeContent_eq {front : List UInt8} {n : Nat} (isDirectory : Bool) (mftRecordSize : Nat)
    (data : List UInt8) :
    (if isDirectory then writeIndexRootAttr (written front n) front.length mftRecordSize
      else writeDataAttr (written front n) front.length data) =
    laid front n <$> (if isDirectory then
      Ntfs.writeIndexRootAttr (front.length + n) front.length mftRecordSize
      else Ntfs.writeDataAttr (front.length + n) front.length data) := by
  cases isDirectory with
  | true => exact writeIndexRootAttr_eq _
  | false => exact writeDataAttr_eq _

/-- Where a writer lays an attribute that fits, the record goes on behind it. -/
theorem laid_bind {α : Type} {front : List UInt8} {size : Nat}
    {attr : Outcome NtfsError (List UInt8)}
    {f : List UInt8 × Nat → Outcome NtfsError α} {g : List UInt8 → Outcome NtfsError α}
    (hfit : ∀ bytes, attr = .ok bytes → front.length + bytes.length ≤ size)
    (hnext : ∀ bytes, attr = .ok bytes → (front ++ bytes).length ≤ size →
      f (written (front ++ bytes) (size - (front ++ bytes).length), (front ++ bytes).length) =
        g bytes) :
    ((laid front (size - front.length) <$> attr) >>= f) = attr >>= g := by
  cases attr with
  | err e => rfl
  | panic => rfl
  | ok bytes =>
    rw [Outcome.map_ok, Outcome.ok_bind, Outcome.ok_bind, laid_eq]
    exact hnext bytes rfl (by rw [List.length_append]; exact hfit bytes rfl)

/-- The header, with the two zeros behind the update sequence array that have been there before. -/
theorem written_recordFields (recordNumber : Nat) {size : Nat} (h : 56 ≤ size) :
    written (recordFields (recordNumber % 2 ^ 16) size).flatten (size - 54) =
      written (recordHeader recordNumber size 0) (size - 56) := by
  rw [← recordFields_flatten, written_append_zeros]
  congr 1
  omega

/-- The end marker behind the attributes, and the used size. -/
theorem finishRecord_eq (recordNumber : Nat) {size usedSize : Nat} {body : List UInt8}
    (h : (recordHeader recordNumber size 0 ++ body).length ≤ size) :
    ((putAt (written (recordHeader recordNumber size 0 ++ body)
        (size - (recordHeader recordNumber size 0 ++ body).length))
        (recordHeader recordNumber size 0 ++ body).length (leBytes 4 0xFFFFFFFF) :
          Outcome NtfsError (List UInt8)) >>=
      fun record ↦ putAt record 0x18 (leBytes 4 usedSize)) =
    Outcome.assert ((recordHeader recordNumber size 0 ++ body).length + 4 ≤ size) >>= fun _ ↦
      pure (recordHeader recordNumber size usedSize ++ (body ++ (leBytes 4 0xFFFFFFFF ++
        List.replicate (size - ((recordHeader recordNumber size 0 ++ body).length + 4)) 0))) := by
  by_cases hmarker : (recordHeader recordNumber size 0 ++ body).length + 4 ≤ size
  · rw [Outcome.assert_of hmarker, Outcome.ok_bind,
      putAt_written (by rw [length_leBytes]; omega), Outcome.ok_bind, written, List.append_assoc,
      List.append_assoc, putAt_of, splice_usedSize, length_leBytes, Nat.sub_sub]
    · rfl
    · rw [List.length_append, length_recordHeader, length_leBytes]
      omega
  · rw [Outcome.assert_not hmarker, putAt, Outcome.assert, if_neg]
    · rfl
    · rw [length_written, length_leBytes]
      omega

theorem buildMftRecord_eq (driver : NtfsDriver) (recordNumber : Nat) (name : List Char)
    (parentRecord : Nat) (isDirectory : Bool) (data : List UInt8) :
    buildMftRecord driver recordNumber name parentRecord isDirectory data =
      Ntfs.buildMftRecord driver recordNumber name parentRecord isDirectory data := by
  unfold buildMftRecord Ntfs.buildMftRecord
  dsimp only
  generalize driver.mftRecordSize = size
  have hfields : (recordFields (recordNumber % 2 ^ 16) size).flatten.length = 54 := by
    simp [recordFields]
    rfl
  by_cases hhead : 54 ≤ size
  swap
  · rw [putFields_panic (Nat.zero_le _) (by rw [hfields, List.length_replicate]; omega),
      Outcome.assert_not hhead]
    rfl
  rw [Outcome.assert_of hhead, Outcome.ok_bind, putFields_zeros (by rw [hfields]; exact hhead),
    Outcome.ok_bind, hfields]
  by_cases hinfo : 152 ≤ size
  swap
  · have hlen : (written (recordFields (recordNumber % 2 ^ 16) size).flatten (size - 54)).length =
        size := by
      rw [length_written, hfields]
      omega
    rw [writeStandardInfoAttr, hlen, Ntfs.writeStandardInfoAttr, Outcome.ensure_not hinfo]
    rfl
  rw [written_recordFields recordNumber (by omega), ← length_recordHeader recordNumber size 0,
    writeStandardInfoAttr_eq, Nat.add_sub_of_le (by rw [length_recordHeader]; omega)]
  refine laid_bind (fun _ ↦ fits_writeStandardInfoAttr) fun info _ hfit ↦ ?_
  rw [← List.length_append, writeFilenameAttr_eq, Nat.add_sub_of_le hfit]
  refine laid_bind (fun _ ↦ fits_writeFilenameAttr) fun filename _ hfit ↦ ?_
  rw [← List.length_append, writeContent_eq, Nat.add_sub_of_le hfit]
  refine laid_bind (fun _ ↦ fits_writeContent) fun content _ hfit ↦ ?_
  rw [List.append_assoc, List.append_assoc] at hfit ⊢
  rw [finishRecord_eq recordNumber hfit]
  simp only [List.length_append, List.append_assoc, Nat.add_assoc]

end InPlace

/-! ### The root of a new directory -/

/-- Where the value of an attribute ends. -/
def valueEnd (record : List UInt8) (attr : Nat) : Nat :=
  attr + leAt record (attr + 20) 2 + leAt record (attr + 16) 4

/-- The first entry of a root, counted from its header. -/
def rootFirst (record : List UInt8) (attr : Nat) : Nat := leAt record (rootHeader record attr) 4

/-- What the readers and the inserter take for the index is its end marker alone, and lies with
the room for more entries in the attribute's value. -/
structure FreshIndex (record : List UInt8) (attr : Nat) : Prop where
  inside : rootHeader record attr + rootTotal record attr ≤ valueEnd record attr
  room : rootHeader record attr + leAt record (rootHeader record attr + 8) 4 ≤ valueEnd record attr
  one_entry : rootFirst record attr + 16 = rootTotal record attr
  end_length : leAt record (rootHeader record attr + rootFirst record attr + 8) 2 = 16
  end_flag : (leAt record (rootHeader record attr + rootFirst record attr + 12) 2).testBit 1 = true

/-- The fields that the writer leaves, from the attribute's header to the end marker. -/
def rootFields (mftRecordSize : Nat) : List (List UInt8) :=
  InPlace.headerFields 0x90 72 48 ++ [List.replicate 2 0] ++
    [leBytes 4 0x30, leBytes 4 0, leBytes 4 mftRecordSize, [1], List.replicate 3 0] ++
    [leBytes 4 32, leBytes 4 48, leBytes 4 48, List.replicate 4 0] ++
    [leBytes 8 0, leBytes 2 16, leBytes 2 0, leBytes 2 0x0002, List.replicate 2 0]

theorem length_rootFields (mftRecordSize : Nat) :
    (rootFields mftRecordSize).flatten.length = 72 := by
  simp [rootFields, InPlace.headerFields]

/-- The writer lays these fields wherever they fit. -/
theorem InPlace.writeIndexRootAttr_eq_ok {record r : List UInt8}
    {offset offset' mftRecordSize : Nat} :
    InPlace.writeIndexRootAttr record offset mftRecordSize = .ok (r, offset') ↔
      offset + 72 ≤ record.length ∧ splice record offset (rootFields mftRecordSize).flatten = r ∧
        offset + 72 = offset' := by
  have hlen := length_rootFields mftRecordSize
  unfold InPlace.writeIndexRootAttr
  dsimp only
  by_cases hfit : offset + 72 ≤ record.length
  · rw [Outcome.ensure_of hfit, Outcome.ok_bind, ← bind_assoc,
      putFields_bind (by simp [InPlace.headerFields]), ← bind_assoc,
      putFields_bind (by simp [InPlace.headerFields]), ← bind_assoc,
      putFields_bind (by simp [InPlace.headerFields])]
    change putFields record offset (rootFields mftRecordSize) >>= _ = _ ↔ _
    rw [putFields_of (by omega), Outcome.ok_bind, Outcome.pure_eq_ok, Outcome.ok.injEq,
      Prod.mk.injEq]
    exact ⟨fun h ↦ ⟨hfit, h⟩, fun h ↦ h.2⟩
  · rw [Outcome.ensure_not hfit]
    constructor
    · intro h
      cases h
    · intro h
      exact absurd h.1 hfit

theorem hasFields_writeIndexRootAttr {record r : List UInt8} {offset offset' mftRecordSize : Nat}
    (h : InPlace.writeIndexRootAttr record offset mftRecordSize = .ok (r, offset')) :
    HasFields r offset (rootFields mftRecordSize) := by
  obtain ⟨hfit, rfl, -⟩ := InPlace.writeIndexRootAttr_eq_ok.mp h
  exact HasFields.of_splice (by rwa [length_rootFields])

/-- Both offsets of the new root count from its value, sixteen bytes in front of its header. -/
theorem writeIndexRootAttr_region {record r : List UInt8} {offset offset' mftRecordSize : Nat}
    (h : InPlace.writeIndexRootAttr record offset mftRecordSize = .ok (r, offset')) :
    rootHeader r offset + rootFirst r offset = valueEnd r offset ∧
      rootHeader r offset + rootTotal r offset = valueEnd r offset + 16 := by
  have hf := hasFields_writeIndexRootAttr h
  have hvalue : leAt r (offset + 20) 2 = 24 :=
    hf.word (i := 7) rfl (by simp [rootFields, InPlace.headerFields]) (by decide)
  have hlen : leAt r (offset + 16) 4 = 48 :=
    hf.word (i := 6) rfl (by simp [rootFields, InPlace.headerFields]) (by decide)
  have hheader : rootHeader r offset = offset + 40 := by rw [rootHeader, hvalue]
  have hfirst : leAt r (offset + 40) 4 = 32 :=
    hf.word (i := 14) rfl (by simp [rootFields, InPlace.headerFields]) (by decide)
  have htotal : leAt r (offset + 44) 4 = 48 :=
    hf.word (i := 15) rfl (by simp [rootFields, InPlace.headerFields]) (by decide)
  rw [rootFirst, rootTotal, valueEnd, hheader, hvalue, hlen, hfirst,
    show offset + 40 + 4 = offset + 44 from rfl, htotal]
  omega

/-- No new root is well formed for its readers and its inserter. -/
theorem not_freshIndex {record r : List UInt8} {offset offset' mftRecordSize : Nat}
    (h : InPlace.writeIndexRootAttr record offset mftRecordSize = .ok (r, offset')) :
    ¬ FreshIndex r offset := by
  intro hfresh
  have hinside := hfresh.inside
  rw [(writeIndexRootAttr_region h).2] at hinside
  omega

/-- The root of a directory behind the first 56 bytes of a record. -/
theorem not_freshIndex_zeros : ∃ r, InPlace.writeIndexRootAttr (List.replicate 128 0) 56 1024 =
    .ok (r, 128) ∧ ¬ FreshIndex r 56 := by
  have h : InPlace.writeIndexRootAttr (List.replicate 128 0) 56 1024 = .ok (_, 128) :=
    InPlace.writeIndexRootAttr_eq_ok.mpr ⟨by simp, rfl, rfl⟩
  exact ⟨_, h, not_freshIndex h⟩

/-- The index of a new directory ends behind its value. -/
theorem freshIndex_fails : ¬ ∀ (record r : List UInt8) (offset offset' mftRecordSize : Nat),
    InPlace.writeIndexRootAttr record offset mftRecordSize = .ok (r, offset') →
      FreshIndex r offset := by
  intro hall
  have h : InPlace.writeIndexRootAttr (List.replicate 72 0) 0 1024 = .ok (_, 72) :=
    InPlace.writeIndexRootAttr_eq_ok.mpr ⟨by simp, rfl, rfl⟩
  have hinside := (hall _ _ _ _ _ h).inside
  rw [(writeIndexRootAttr_region h).2] at hinside
  omega

end SmallOs.Ntfs
