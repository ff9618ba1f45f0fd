import SmallOs.Ntfs.Attr
import SmallOs.Ntfs.Fixups

/-!
# Directory indexes

`lib/vfs/src/fs/ntfs/index.rs`: the scan of a resident index, and the bytes of an entry that
is inserted into a resident root or into an external index block.
-/

namespace SmallOs.Ntfs

open SmallOs.Base

/-! ### Scanning -/

/-- An entry that the scan of an index passes, with the name of its key when it parses. -/
structure IndexEntry where
  fileRef : Nat
  name : Option (List Char)
  deriving DecidableEq, Repr

/-- The entry at an offset; `lib/vfs/src/fs/ntfs/index.rs:382–394,425–437`. -/
def indexEntryAt (indexData : List UInt8) (offset : Nat) : IndexEntry where
  fileRef := leAt indexData offset 8
  name :=
    let keyLen := leAt indexData (offset + 10) 2
    if 0 < keyLen ∧ offset + 16 + keyLen ≤ indexData.length then
      (parseFilenameFromKey (slice indexData (offset + 16) keyLen)).map Prod.fst
    else none

/-- The loop shared by both scans; `lib/vfs/src/fs/ntfs/index.rs:381–402,424–448`. It ends at
the end marker, behind an entry of length zero and where the index ends. -/
def entriesFrom (indexData : List UInt8) (fin : Nat) (offset : Nat) : List IndexEntry :=
  if _hle : offset + 16 ≤ min fin indexData.length then
    if (leAt indexData (offset + 12) 2).testBit 1 then []
    else if _hlen : leAt indexData (offset + 8) 2 = 0 then [indexEntryAt indexData offset]
    else indexEntryAt indexData offset ::
      entriesFrom indexData fin (offset + leAt indexData (offset + 8) 2)
  else []
termination_by indexData.length - offset
decreasing_by omega

/-- The entries of an index, header fields included; `lib/vfs/src/fs/ntfs/index.rs:362–379`. -/
def indexEntries (indexData : List UInt8) : List IndexEntry :=
  if indexData.length < 32 then []
  else entriesFrom indexData (16 + leAt indexData 20 4) (16 + leAt indexData 16 4)

/-- `lib/vfs/src/fs/ntfs/index.rs:359–405`. -/
def listEntries (indexData : List UInt8) : List (List Char) :=
  (indexEntries indexData).filterMap (·.name)

/-- `str::eq_ignore_ascii_case`: only the letters of ASCII have a case. -/
def eqIgnoreAsciiCase (a b : List Char) : Bool := a.map Char.toLower = b.map Char.toLower

/-- `lib/vfs/src/fs/ntfs/index.rs:408–451`. -/
def findEntry (indexData : List UInt8) (name : List Char) : Outcome NtfsError Nat :=
  match (indexEntries indexData).find? fun e ↦ e.name.any (eqIgnoreAsciiCase · name) with
  | some e => .ok (e.fileRef % 2 ^ 48)
  | none => .err .fileNotFound

/-! ### Attributes by type code -/

/-- The loop of `find_attribute_offset`; `lib/vfs/src/fs/ntfs/index.rs:326–353`. -/
def findAttributeFrom (record : List UInt8) (attrType : Nat) (offset : Nat) :
    Outcome NtfsError Nat :=
  if _hle : offset + 8 ≤ record.length then
    if leAt record offset 4 = 0xFFFFFFFF then .err .invalidAttribute
    else if leAt record offset 4 = attrType then .ok offset
    else if _hlen : leAt record (offset + 4) 4 = 0 ∨
        record.length < offset + leAt record (offset + 4) 4 then .err .invalidAttribute
    else findAttributeFrom record attrType (offset + leAt record (offset + 4) 4)
  else .err .invalidAttribute
termination_by record.length - offset
decreasing_by omega

/-- `lib/vfs/src/fs/ntfs/index.rs:318–356`. -/
def findAttributeOffset (record : List UInt8) (attrType : Nat) : Outcome NtfsError Nat := do
  Outcome.ensure (22 ≤ record.length) .invalidMftRecord
  findAttributeFrom record attrType (leAt record 20 2)

/-! ### The bytes of an entry -/

/-- `char::encode_utf16`. -/
def encodeUtf16 (c : Char) : List Nat :=
  if c.toNat < 0x10000 then [c.toNat]
  else [0xD800 + (c.toNat - 0x10000) / 0x400, 0xDC00 + (c.toNat - 0x10000) % 0x400]

/-- `str::encode_utf16`. -/
def nameUtf16 (name : List Char) : List Nat := name.flatMap encodeUtf16

/-- The length of a key: its fixed part and the name. -/
def keyLen (name : List Char) : Nat := 66 + (nameUtf16 name).length * 2

/-- The length of an entry, rounded up to eight bytes. -/
def entryLenAligned (name : List Char) : Nat := (16 + keyLen name + 7) / 8 * 8

/-- A key in the form of a `$FILE_NAME`; `lib/vfs/src/fs/ntfs/index.rs:122–133,290–300`. -/
def entryKey (parent : Nat) (name : List Char) : List UInt8 :=
  leBytes 8 parent ++ (List.replicate 48 0 ++ (leBytes 4 0x10 ++ (List.replicate 4 0 ++
    (leBytes 1 (nameUtf16 name).length ++ (leBytes 1 1 ++
      (nameUtf16 name).flatMap (leBytes 2))))))

/-- The entry that both inserters write; `lib/vfs/src/fs/ntfs/index.rs:109–133,284–300`. -/
def newEntry (parent child : Nat) (name : List Char) : List UInt8 :=
  leBytes 8 child ++ (leBytes 2 (entryLenAligned name) ++ (leBytes 2 (keyLen name) ++
    (leBytes 2 0 ++ (leBytes 2 0 ++ (entryKey parent name ++
      List.replicate (entryLenAligned name - (16 + keyLen name)) 0)))))

/-! ### Insertion -/

/-- The record with an entry in its resident root, before the fixups;
`lib/vfs/src/fs/ntfs/index.rs:49–142`. The entry takes the place of the last sixteen bytes,
which move behind it. -/
def insertResident (record : List UInt8) (parent child : Nat) (name : List Char) :
    Outcome NtfsError (List UInt8) := do
  let attr ← (findAttributeOffset record 0x90).mapErr fun _ ↦ .invalidAttribute
  Outcome.ensure (attr + 8 < record.length ∧ leAt record (attr + 8) 1 = 0) .notSupported
  Outcome.ensure (attr + 22 < record.length) .corruptedFilesystem
  let header := attr + leAt record (attr + 20) 2 + 16
  Outcome.ensure (header + 12 ≤ record.length) .corruptedFilesystem
  let totalSize := leAt record (header + 4) 4
  let allocatedSize := leAt record (header + 8) 4
  let entriesEnd := header + totalSize
  Outcome.ensure (16 ≤ entriesEnd ∧ entriesEnd ≤ record.length) .corruptedFilesystem
  let endMarker := entriesEnd - 16
  let newTotalSize := totalSize + entryLenAligned name
  Outcome.ensure (newTotalSize ≤ allocatedSize) .noSpace
  Outcome.ensure (endMarker + entryLenAligned name + 16 ≤ record.length) .noSpace
  let record := splice record (endMarker + entryLenAligned name) (slice record endMarker 16)
  let record := splice record endMarker (newEntry parent child name)
  let record := splice record (header + 4) (leBytes 4 newTotalSize)
  let newUsed ← Outcome.addAt 32 (leAt record 24 4) (entryLenAligned name)
  return splice record 24 (leBytes 4 newUsed)

/-- Where the external index block of a directory is and how long it is, from the record
alone; `lib/vfs/src/fs/ntfs/index.rs:161–220`. -/
def locateExternal (boot : BootSector) (parentRecord : List UInt8) :
    Outcome NtfsError (Nat × Nat) := do
  let root ← findAttributeOffset parentRecord 0x90
  Outcome.ensure (root + 22 ≤ parentRecord.length) .corruptedFilesystem
  let rootVal := root + leAt parentRecord (root + 20) 2
  Outcome.ensure (rootVal + 12 ≤ parentRecord.length) .corruptedFilesystem
  let idxRecordSize := leAt parentRecord (rootVal + 8) 4
  let alloc ← findAttributeOffset parentRecord 0xA0
  Outcome.ensure (alloc + 48 ≤ parentRecord.length) .corruptedFilesystem
  Outcome.ensure (leAt parentRecord (alloc + 8) 1 = 1) .notSupported
  Outcome.ensure (leAt parentRecord (alloc + 40) 8 ≠ 0) .noSpace
  match ← parseDataRuns (parentRecord.drop alloc) with
  | [] => .err .noSpace
  | (startCluster, _) :: _ =>
    let partitionSize ← Outcome.mulAt 64 boot.totalSectors.toNat boot.bytesPerSector.toNat
    Outcome.assert (0 < boot.bytesPerCluster)
    Outcome.ensure (startCluster ≤ partitionSize / boot.bytesPerCluster) .corruptedFilesystem
    let idxOffset ← Outcome.mulAt 64 startCluster boot.bytesPerCluster
    return (idxOffset, idxRecordSize)

/-- The index block with an entry, fixups included; `lib/vfs/src/fs/ntfs/index.rs:226–311`.
The sectors that are marked again were in bounds when they were restored. -/
def insertExternal (idxBuf : List UInt8) (parent child : Nat) (name : List Char) :
    Outcome NtfsError (List UInt8) := do
  let signature ← sliceAt idxBuf 0 4
  Outcome.ensure (signature = [0x49, 0x4E, 0x44, 0x58]) .corruptedFilesystem
  let uso ← uintAt idxBuf 4 2
  let usc ← uintAt idxBuf 6 2
  Outcome.ensure (24 ≤ uso ∧ usc ≠ 0 ∧ uso + 2 * usc ≤ idxBuf.length) .corruptedFilesystem
  let seq := slice idxBuf uso 2
  let idxBuf ← (List.range' 1 (usc - 1)).foldlM (applyFixup uso (leNat seq) 512) idxBuf
  Outcome.ensure (30 ≤ idxBuf.length) .corruptedFilesystem
  let entriesOffset := leAt idxBuf 24 2
  let totalSize := leAt idxBuf 26 2
  let allocatedSize := leAt idxBuf 28 2
  let entriesEnd := 24 + entriesOffset + totalSize
  Outcome.ensure (16 ≤ entriesEnd ∧ entriesEnd ≤ idxBuf.length) .corruptedFilesystem
  let endMarker := entriesEnd - 16
  let newTotal := totalSize + entryLenAligned name
  Outcome.ensure (newTotal ≤ allocatedSize) .noSpace
  Outcome.assert (endMarker + entryLenAligned name + 16 ≤ idxBuf.length)
  let idxBuf := splice idxBuf (endMarker + entryLenAligned name) (slice idxBuf endMarker 16)
  let idxBuf := splice idxBuf endMarker (newEntry parent child name)
  let idxBuf := splice idxBuf 26 (leBytes 2 newTotal)
  (List.range' 1 (usc - 1)).foldlM (reapplyFixup uso seq 512) idxBuf

/-! ### What the inserters require and change -/

/-- A found attribute has the code it was looked for by. -/
theorem findAttributeFrom_eq_ok {record : List UInt8} {attrType offset attr : Nat}
    (h : findAttributeFrom record attrType offset = .ok attr) :
    offset ≤ attr ∧ attr + 8 ≤ record.length ∧ leAt record attr 4 = attrType := by
  induction offset using findAttributeFrom.induct record attrType with
  | case1 offset hle hend => simp [findAttributeFrom, hle, hend] at h
  | case2 offset hle hend hcode =>
    rw [findAttributeFrom, dif_pos hle, if_neg hend, if_pos hcode] at h
    cases h
    exact ⟨Nat.le_refl _, hle, hcode⟩
  | case3 offset hle hend hcode hlen => simp [findAttributeFrom, hle, hend, hcode, hlen] at h
  | case4 offset hle hend hcode hlen ih =>
    rw [findAttributeFrom, dif_pos hle, if_neg hend, if_neg hcode, dif_neg hlen] at h
    obtain ⟨h₁, h₂, h₃⟩ := ih h
    exact ⟨by omega, h₂, h₃⟩
  | case5 offset hle => simp [findAttributeFrom, hle] at h

/-- The search by type code starts at the first attribute. -/
theorem findAttributeOffset_iff {record : List UInt8} {attrType attr : Nat} :
    findAttributeOffset record attrType = .ok attr ↔
      22 ≤ record.length ∧ findAttributeFrom record attrType (leAt record 20 2) = .ok attr := by
  rw [findAttributeOffset, Outcome.bind_eq_ok]
  constructor
  · rintro ⟨_, hlong, h⟩
    exact ⟨Outcome.ensure_eq_ok.mp hlong, h⟩
  · rintro ⟨hlong, h⟩
    exact ⟨(), Outcome.ensure_eq_ok.mpr hlong, h⟩

/-- The first attribute is found by its code. -/
theorem findAttributeOffset_first {record : List UInt8} {attrType first : Nat}
    (hlong : 22 ≤ record.length) (hfirst : leAt record 20 2 = first)
    (hin : first + 8 ≤ record.length) (hcode : leAt record first 4 = attrType)
    (hend : attrType ≠ 0xFFFFFFFF) : findAttributeOffset record attrType = .ok first := by
  rw [findAttributeOffset_iff, hfirst, findAttributeFrom, dif_pos hin, hcode, if_neg hend,
    if_pos rfl]
  exact ⟨hlong, rfl⟩

theorem findAttributeOffset_eq_ok {record : List UInt8} {attrType attr : Nat}
    (h : findAttributeOffset record attrType = .ok attr) :
    leAt record 20 2 ≤ attr ∧ attr + 8 ≤ record.length ∧ leAt record attr 4 = attrType :=
  findAttributeFrom_eq_ok (findAttributeOffset_iff.mp h).2

theorem length_entryKey (parent : Nat) (name : List Char) :
    (entryKey parent name).length = keyLen name := by
  have hn := length_flatMap_const (leBytes 2) 2 (fun _ ↦ length_leBytes _ _) (nameUtf16 name)
  simp only [entryKey, List.length_append, length_leBytes, List.length_replicate, hn, keyLen]
  omega

theorem length_newEntry (parent child : Nat) (name : List Char) :
    (newEntry parent child name).length = entryLenAligned name := by
  simp only [newEntry, List.length_append, length_leBytes, List.length_replicate, length_entryKey]
  simp only [entryLenAligned]
  omega

/-- Offset of the index header in the value of a resident root. -/
def rootHeader (record : List UInt8) (attr : Nat) : Nat := attr + leAt record (attr + 20) 2 + 16

/-- The used size of the index, counted from its header. -/
def rootTotal (record : List UInt8) (attr : Nat) : Nat := leAt record (rootHeader record attr + 4) 4

/-- Offset of the sixteen bytes that end the index. -/
def rootEnd (record : List UInt8) (attr : Nat) : Nat :=
  rootHeader record attr + rootTotal record attr - 16

/-- The checks that a resident root passes when it takes an entry. -/
structure TakesEntry (record : List UInt8) (attr : Nat) (name : List Char) : Prop where
  resident : leAt record (attr + 8) 1 = 0
  attr_lt : attr + 22 < record.length
  header_le : rootHeader record attr + 12 ≤ record.length
  entries_le : rootHeader record attr + rootTotal record attr ≤ record.length
  room : rootTotal record attr + entryLenAligned name ≤ leAt record (rootHeader record attr + 8) 4
  fits : rootEnd record attr + entryLenAligned name + 16 ≤ record.length

/-- The record with the end moved, the entry in its place and the new used size. -/
def entered (record : List UInt8) (attr parent child : Nat) (name : List Char) : List UInt8 :=
  splice (splice (splice record (rootEnd record attr + entryLenAligned name)
    (slice record (rootEnd record attr) 16)) (rootEnd record attr) (newEntry parent child name))
    (rootHeader record attr + 4) (leBytes 4 (rootTotal record attr + entryLenAligned name))

/-- The resident inserter returns exactly when the root takes the entry. -/
theorem insertResident_eq_ok {record r : List UInt8} {parent child : Nat} {name : List Char} :
    insertResident record parent child name = .ok r ↔
      ∃ attr, findAttributeOffset record 0x90 = .ok attr ∧ TakesEntry record attr name ∧
        leAt (entered record attr parent child name) 24 4 + entryLenAligned name < 2 ^ 32 ∧
        splice (entered record attr parent child name) 24 (leBytes 4
          (leAt (entered record attr parent child name) 24 4 + entryLenAligned name)) = r := by
  simp only [insertResident, Outcome.bind_eq_ok, Outcome.mapErr_eq_ok, Outcome.ensure_eq_ok,
    Outcome.addAt_eq_ok, Outcome.pure_eq_ok, Outcome.ok.injEq]
  constructor
  · rintro ⟨attr, ha, -, h₁, -, h₂, -, h₃, -, h₄, -, h₅, -, h₆, used, ⟨h₇, rfl⟩, h₈⟩
    exact ⟨attr, ha, ⟨h₁.2, h₂, h₃, h₄.2, h₅, h₆⟩, h₇, h₈⟩
  · rintro ⟨attr, ha, ⟨h₁, h₂, h₃, h₄, h₅, h₆⟩, h₇, h₈⟩
    exact ⟨attr, ha, (), ⟨by omega, h₁⟩, (), h₂, (), h₃, (),
      ⟨Nat.le_trans (Nat.le_add_left _ _) (Nat.le_add_right _ _), h₄⟩, (), h₅, (), h₆, _,
      ⟨h₇, rfl⟩, h₈⟩

section Entered

variable {record : List UInt8} {attr parent child : Nat} {name : List Char}

/-- The end of the index lies behind the start of its attribute's value. -/
theorem le_rootEnd (record : List UInt8) (attr : Nat) :
    attr + leAt record (attr + 20) 2 ≤ rootEnd record attr := by
  simp only [rootEnd, rootHeader]
  omega

private theorem length_moved (h : TakesEntry record attr name) :
    (splice record (rootEnd record attr + entryLenAligned name)
      (slice record (rootEnd record attr) 16)).length = record.length := by
  have hf := h.fits
  have hl := length_slice_le record (rootEnd record attr) 16
  exact length_splice _ _ _ (by omega)

private theorem length_placed (h : TakesEntry record attr name) :
    (splice (splice record (rootEnd record attr + entryLenAligned name)
      (slice record (rootEnd record attr) 16)) (rootEnd record attr)
      (newEntry parent child name)).length = record.length := by
  have hf := h.fits
  rw [length_splice _ _ _ (by rw [length_moved h, length_newEntry]; omega), length_moved h]

theorem length_entered (h : TakesEntry record attr name) :
    (entered record attr parent child name).length = record.length := by
  have hh := h.header_le
  rw [entered, length_splice _ _ _ (by rw [length_placed h, length_leBytes]; omega),
    length_placed h]

/-- Where the bytes of the changed record come from. -/
theorem getElem?_entered (h : TakesEntry record attr name) (p : Nat) :
    (entered record attr parent child name)[p]? =
      if rootHeader record attr + 4 ≤ p ∧ p < rootHeader record attr + 8 then
        (leBytes 4 (rootTotal record attr + entryLenAligned name))[p -
          (rootHeader record attr + 4)]?
      else if rootEnd record attr ≤ p ∧ p < rootEnd record attr + entryLenAligned name then
        (newEntry parent child name)[p - rootEnd record attr]?
      else if rootEnd record attr + entryLenAligned name ≤ p ∧
          p < rootEnd record attr + entryLenAligned name + 16 then
        record[p - entryLenAligned name]?
      else record[p]? := by
  have hh := h.header_le
  have hf := h.fits
  have he := h.entries_le
  have hl : (slice record (rootEnd record attr) 16).length = 16 := by
    apply length_slice
    omega
  rw [entered, getElem?_splice _ _ _ _ (by rw [length_placed h, length_leBytes]; omega),
    length_leBytes]
  by_cases h₁ : rootHeader record attr + 4 ≤ p ∧ p < rootHeader record attr + 8
  · rw [if_pos (by omega), if_pos h₁]
  rw [if_neg (by omega), if_neg h₁,
    getElem?_splice _ _ _ _ (by rw [length_moved h, length_newEntry]; omega), length_newEntry]
  by_cases h₂ : rootEnd record attr ≤ p ∧ p < rootEnd record attr + entryLenAligned name
  · rw [if_pos h₂, if_pos h₂]
  rw [if_neg h₂, if_neg h₂, getElem?_splice _ _ _ _ (by omega), hl]
  by_cases h₃ : rootEnd record attr + entryLenAligned name ≤ p ∧
      p < rootEnd record attr + entryLenAligned name + 16
  · rw [if_pos h₃, if_pos h₃, getElem?_slice, if_pos (by omega)]
    congr 1
    omega
  · rw [if_neg h₃, if_neg h₃]

end Entered

/-- An insertion keeps the record's length and the bytes in front of the attribute, the used
size in the record's header apart. -/
theorem insertResident_keeps {record r : List UInt8} {parent child : Nat} {name : List Char}
    (h : insertResident record parent child name = .ok r) :
    r.length = record.length ∧ ∃ attr, findAttributeOffset record 0x90 = .ok attr ∧
      ∀ p, p < attr → p < 24 → r[p]? = record[p]? := by
  obtain ⟨attr, ha, ht, -, rfl⟩ := insertResident_eq_ok.mp h
  have hh := ht.header_le
  have hl : (entered record attr parent child name).length = record.length := length_entered ht
  have hlow := le_rootEnd record attr
  simp only [rootHeader] at hh
  constructor
  · rw [length_splice _ _ _ (by rw [hl, length_leBytes]; omega), hl]
  · refine ⟨attr, ha, ?_⟩
    intro p hp hp'
    rw [getElem?_splice _ _ _ _ (by rw [hl, length_leBytes]; omega), if_neg (by omega),
      getElem?_entered ht, if_neg (by rw [rootHeader]; omega), if_neg (by omega),
      if_neg (by omega)]

/-- An insertion keeps the length of the index block. -/
theorem length_insertExternal {idxBuf r : List UInt8} {parent child : Nat} {name : List Char}
    (h : insertExternal idxBuf parent child name = .ok r) : r.length = idxBuf.length := by
  simp only [insertExternal, Outcome.bind_eq_ok, sliceAt_eq_ok, uintAt_eq_ok,
    Outcome.ensure_eq_ok, Outcome.assert_eq_ok] at h
  obtain ⟨_, ⟨hsig, -⟩, -, -, uso, ⟨-, rfl⟩, usc, ⟨-, rfl⟩, -, ⟨-, husc, hfit⟩, restored, hrestore,
    -, hlong, -, hend, -, -, -, hroom, hmark⟩ := h
  have hl := length_foldlM_applyFixup hfit hrestore
  have hseq : (slice idxBuf (leAt idxBuf 4 2) 2).length = 2 := length_slice _ _ _ (by omega)
  generalize leAt restored 26 2 = total at *
  generalize 24 + leAt restored 24 2 + total = entriesEnd at *
  have hmoved : (splice restored (entriesEnd - 16 + entryLenAligned name)
      (slice restored (entriesEnd - 16) 16)).length = restored.length := by
    have := length_slice_le restored (entriesEnd - 16) 16
    exact length_splice _ _ _ (by omega)
  have hplaced : (splice (splice restored (entriesEnd - 16 + entryLenAligned name)
      (slice restored (entriesEnd - 16) 16)) (entriesEnd - 16)
      (newEntry parent child name)).length = restored.length := by
    rw [length_splice _ _ _ (by rw [hmoved, length_newEntry]; omega), hmoved]
  have hcounted : (splice (splice (splice restored (entriesEnd - 16 + entryLenAligned name)
      (slice restored (entriesEnd - 16) 16)) (entriesEnd - 16)
      (newEntry parent child name)) 26 (leBytes 2 (total + entryLenAligned name))).length =
      restored.length := by
    rw [length_splice _ _ _ (by rw [hplaced, length_leBytes]; omega), hplaced]
  rw [length_foldlM_reapplyFixup hseq (by omega) hmark, hcounted, hl]

end SmallOs.Ntfs
