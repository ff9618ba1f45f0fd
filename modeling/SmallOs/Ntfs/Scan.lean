import SmallOs.Ntfs.Index

/-!
# The two scans of a directory index

`list_directory` and `find_in_directory` of `lib/vfs/src/fs/ntfs/index.rs` are two loops of their
own over one buffer, with every index into it checked. On every buffer they pass the same entries,
those of `indexEntries`, and neither leaves the buffer.
-/

namespace SmallOs.Ntfs

open SmallOs.Base

namespace Scan

/-! ### The name of a key -/

/-- The loop over the units of a name; `lib/vfs/src/fs/ntfs/attr.rs:395–401`. -/
def nameFrom (raw : List UInt8) (i : Nat) : Nat → Outcome NtfsError (List Char)
  | 0 => pure []
  | n + 1 => do
    let c ← uintAt raw (i * 2) 2
    if c = 0 then return []
    let name ← nameFrom raw (i + 1) n
    return decodeUnit c :: name

/-- `lib/vfs/src/fs/ntfs/attr.rs:384–405`. -/
def nameAndParent (data : List UInt8) (nameOffset : Nat) :
    Outcome NtfsError (Option (List Char × Nat)) := do
  if data.length < nameOffset + 2 then return none
  let parent ← uintAt data 0 8
  let nameLen ← uintAt data 0x40 1
  let raw ← sliceAt data nameOffset (data.length - nameOffset)
  if raw.length < nameLen * 2 then return none
  let name ← nameFrom raw 0 nameLen
  return some (name, parent)

/-- The name of the entry at an offset, when its key parses;
`lib/vfs/src/fs/ntfs/index.rs:391–394,434–435`. -/
def entryName (indexData : List UInt8) (offset keyLen : Nat) :
    Outcome NtfsError (Option (List Char)) :=
  if 0 < keyLen ∧ offset + 16 + keyLen ≤ indexData.length then do
    let key ← sliceAt indexData (offset + 16) keyLen
    let parsed ← nameAndParent key 0x42
    return parsed.map Prod.fst
  else pure none

/-! ### The loops -/

/-- The loop of `list_directory`; `lib/vfs/src/fs/ntfs/index.rs:381–402`. -/
def listFrom (indexData : List UInt8) (fin offset : Nat) : Outcome NtfsError (List (List Char)) :=
  if _hle : offset + 16 ≤ min fin indexData.length then do
    let entryLen ← uintAt indexData (offset + 8) 2
    let keyLen ← uintAt indexData (offset + 10) 2
    let flags ← uintAt indexData (offset + 12) 2
    if flags.testBit 1 then return []
    let name ← entryName indexData offset keyLen
    if _hlen : entryLen = 0 then return name.toList
    else
      let names ← listFrom indexData fin (offset + entryLen)
      return name.toList ++ names
  else pure []
termination_by indexData.length - offset

/-- `lib/vfs/src/fs/ntfs/index.rs:359–405`. -/
def listDirectory (indexData : List UInt8) : Outcome NtfsError (List (List Char)) := do
  if indexData.length < 32 then return []
  if indexData.length < 16 + 8 then return []
  let firstEntryRel ← uintAt indexData 16 4
  let totalSize ← uintAt indexData 20 4
  listFrom indexData (16 + totalSize) (16 + firstEntryRel)

/-- The loop of `find_in_directory`; `lib/vfs/src/fs/ntfs/index.rs:424–448`. -/
def findFrom (indexData : List UInt8) (name : List Char) (fin offset : Nat) :
    Outcome NtfsError Nat :=
  if _hle : offset + 16 ≤ min fin indexData.length then do
    let fileRef ← uintAt indexData offset 8
    let entryLen ← uintAt indexData (offset + 8) 2
    let keyLen ← uintAt indexData (offset + 10) 2
    let flags ← uintAt indexData (offset + 12) 2
    if flags.testBit 1 then .err .fileNotFound
    else
      let entryName ← entryName indexData offset keyLen
      if entryName.any (eqIgnoreAsciiCase · name) then return fileRef % 2 ^ 48
      if _hlen : entryLen = 0 then .err .fileNotFound
      else findFrom indexData name fin (offset + entryLen)
  else .err .fileNotFound
termination_by indexData.length - offset

/-- `lib/vfs/src/fs/ntfs/index.rs:408–451`. -/
def findInDirectory (indexData : List UInt8) (name : List Char) : Outcome NtfsError Nat := do
  Outcome.ensure (32 ≤ indexData.length) .fileNotFound
  let firstEntryRel ← uintAt indexData 16 4
  let totalSize ← uintAt indexData 20 4
  findFrom indexData name (16 + totalSize) (16 + firstEntryRel)

/-! ### Names stay inside of their keys -/

theorem nameFrom_eq {raw : List UInt8} {n i : Nat} (h : (i + n) * 2 ≤ raw.length) :
    nameFrom raw i n = .ok ((((List.range' i n).map fun j ↦ leAt raw (j * 2) 2).takeWhile
      (· ≠ 0)).map decodeUnit) := by
  induction n generalizing i with
  | zero => rfl
  | succ n ih =>
    rw [nameFrom, uintAt_of (by omega), Outcome.ok_bind, List.range'_succ, List.map_cons]
    by_cases hzero : leAt raw (i * 2) 2 = 0
    · rw [if_pos hzero, List.takeWhile_cons_of_neg (by simpa using hzero)]
      rfl
    · rw [if_neg hzero, List.takeWhile_cons_of_pos (by simpa using hzero), ih (by omega)]
      rfl

theorem nameAndParent_eq (data : List UInt8) :
    nameAndParent data 0x42 = .ok (parseNameAndParent data 0x42) := by
  unfold nameAndParent parseNameAndParent
  by_cases hshort : data.length < 0x42 + 2
  · rw [if_pos hshort, if_pos hshort]
    rfl
  rw [if_neg hshort, if_neg hshort, uintAt_of (by omega), Outcome.ok_bind, uintAt_of (by omega),
    Outcome.ok_bind, sliceAt_of (by omega), Outcome.ok_bind, length_slice _ _ _ (by omega)]
  have hcount : leAt data 0x40 1 = (data.getD 0x40 0).toNat := by
    have hbyte := getElem?_of_leAt data 0x40 1 (by decide) (by omega)
    have hlt := leAt_lt data 0x40 1
    rw [List.getD_eq_getElem?_getD, hbyte, Option.getD_some, UInt8.toNat_ofNat']
    omega
  rw [hcount]
  by_cases hfit : data.length - 0x42 < (data.getD 0x40 0).toNat * 2
  · rw [if_pos hfit, if_pos hfit]
    rfl
  rw [if_neg hfit, if_neg hfit, nameFrom_eq (by rw [length_slice _ _ _ (by omega)]; omega),
    Outcome.ok_bind, ← List.range_eq_range']
  have hunits : ((List.range (data.getD 0x40 0).toNat).map fun j ↦
      leAt (slice data 0x42 (data.length - 0x42)) (j * 2) 2) =
      (List.range (data.getD 0x40 0).toNat).map fun j ↦ leAt data (0x42 + j * 2) 2 := by
    apply List.map_congr_left
    intro j hj
    have hlt := List.mem_range.mp hj
    rw [leAt, slice_slice _ _ _ _ _ (by omega)]
    rfl
  rw [hunits]
  rfl

/-- The name that both loops read is that of the entry. -/
theorem entryName_eq (indexData : List UInt8) (offset : Nat) :
    entryName indexData offset (leAt indexData (offset + 10) 2) =
      .ok (indexEntryAt indexData offset).name := by
  unfold entryName indexEntryAt
  dsimp only
  by_cases hkey : 0 < leAt indexData (offset + 10) 2 ∧
      offset + 16 + leAt indexData (offset + 10) 2 ≤ indexData.length
  · rw [if_pos hkey, if_pos hkey, sliceAt_of hkey.2, Outcome.ok_bind, nameAndParent_eq]
    rfl
  · rw [if_neg hkey, if_neg hkey]
    rfl

/-! ### Both loops pass the same entries -/

theorem listFrom_eq (indexData : List UInt8) (fin offset : Nat) :
    listFrom indexData fin offset =
      .ok ((entriesFrom indexData fin offset).filterMap (·.name)) := by
  induction offset using entriesFrom.induct indexData fin with
  | case1 offset hle hend =>
    rw [listFrom, entriesFrom, dif_pos hle, dif_pos hle, uintAt_of (by omega), Outcome.ok_bind,
      uintAt_of (by omega), Outcome.ok_bind, uintAt_of (by omega), Outcome.ok_bind, if_pos hend,
      if_pos hend]
    rfl
  | case2 offset hle hend hlen =>
    rw [listFrom, entriesFrom, dif_pos hle, dif_pos hle, uintAt_of (by omega), Outcome.ok_bind,
      uintAt_of (by omega), Outcome.ok_bind, uintAt_of (by omega), Outcome.ok_bind, if_neg hend,
      if_neg hend, entryName_eq, Outcome.ok_bind, dif_pos hlen, dif_pos hlen]
    cases h : (indexEntryAt indexData offset).name <;> simp [h]
  | case3 offset hle hend hlen ih =>
    rw [listFrom, entriesFrom, dif_pos hle, dif_pos hle, uintAt_of (by omega), Outcome.ok_bind,
      uintAt_of (by omega), Outcome.ok_bind, uintAt_of (by omega), Outcome.ok_bind, if_neg hend,
      if_neg hend, entryName_eq, Outcome.ok_bind, dif_neg hlen, dif_neg hlen, ih, Outcome.ok_bind]
    cases h : (indexEntryAt indexData offset).name <;> simp [h]
  | case4 offset hle =>
    rw [listFrom, entriesFrom, dif_neg hle, dif_neg hle]
    rfl

/-- What the lookup makes of the first entry that matches. -/
def lookedUp : Option IndexEntry → Outcome NtfsError Nat
  | some e => .ok (e.fileRef % 2 ^ 48)
  | none => .err .fileNotFound

theorem find?_entry (p : List Char → Bool) (e : IndexEntry) (entries : List IndexEntry) :
    (e :: entries).find? (fun e ↦ e.name.any p) =
      if e.name.any p then some e else entries.find? fun e ↦ e.name.any p := by
  rw [List.find?_cons]
  cases e.name.any p <;> rfl

theorem findFrom_eq (indexData : List UInt8) (name : List Char) (fin offset : Nat) :
    findFrom indexData name fin offset = lookedUp ((entriesFrom indexData fin offset).find?
      fun e ↦ e.name.any (eqIgnoreAsciiCase · name)) := by
  induction offset using entriesFrom.induct indexData fin with
  | case1 offset hle hend =>
    rw [findFrom, entriesFrom, dif_pos hle, dif_pos hle, uintAt_of (by omega), Outcome.ok_bind,
      uintAt_of (by omega), Outcome.ok_bind, uintAt_of (by omega), Outcome.ok_bind,
      uintAt_of (by omega), Outcome.ok_bind, if_pos hend, if_pos hend]
    rfl
  | case2 offset hle hend hlen =>
    rw [findFrom, entriesFrom, dif_pos hle, dif_pos hle, uintAt_of (by omega), Outcome.ok_bind,
      uintAt_of (by omega), Outcome.ok_bind, uintAt_of (by omega), Outcome.ok_bind,
      uintAt_of (by omega), Outcome.ok_bind, if_neg hend, if_neg hend, entryName_eq,
      Outcome.ok_bind, dif_pos hlen, dif_pos hlen, find?_entry]
    split
    · rfl
    · rfl
  | case3 offset hle hend hlen ih =>
    rw [findFrom, entriesFrom, dif_pos hle, dif_pos hle, uintAt_of (by omega), Outcome.ok_bind,
      uintAt_of (by omega), Outcome.ok_bind, uintAt_of (by omega), Outcome.ok_bind,
      uintAt_of (by omega), Outcome.ok_bind, if_neg hend, if_neg hend, entryName_eq,
      Outcome.ok_bind, dif_neg hlen, dif_neg hlen, find?_entry]
    split
    · rfl
    · exact ih
  | case4 offset hle =>
    rw [findFrom, entriesFrom, dif_neg hle, dif_neg hle]
    rfl

/-- The listing never fails, and shows the names of the entries. -/
theorem listDirectory_eq (indexData : List UInt8) :
    listDirectory indexData = .ok (listEntries indexData) := by
  unfold listDirectory listEntries indexEntries
  by_cases hshort : indexData.length < 32
  · rw [if_pos hshort, if_pos hshort]
    rfl
  · rw [if_neg hshort, if_neg hshort, if_neg (by omega), uintAt_of (by omega), Outcome.ok_bind,
      uintAt_of (by omega), Outcome.ok_bind, listFrom_eq]

/-- The lookup ends with the first entry that matches, or without one. -/
theorem findInDirectory_eq (indexData : List UInt8) (name : List Char) :
    findInDirectory indexData name = findEntry indexData name := by
  have hentry : findEntry indexData name = lookedUp ((indexEntries indexData).find?
      fun e ↦ e.name.any (eqIgnoreAsciiCase · name)) := by
    unfold findEntry lookedUp
    split <;> simp [*]
  rw [hentry]
  unfold findInDirectory indexEntries
  by_cases hshort : indexData.length < 32
  · rw [Outcome.ensure_not (by omega), if_pos hshort]
    rfl
  · rw [Outcome.ensure_of (by omega), Outcome.ok_bind, uintAt_of (by omega), Outcome.ok_bind,
      uintAt_of (by omega), Outcome.ok_bind, if_neg hshort, findFrom_eq]

end Scan

/-! ### Agreement -/

/-- The entries whose names parse, each with its file reference. -/
def namedEntries (indexData : List UInt8) : List (Nat × List Char) :=
  (indexEntries indexData).filterMap fun e ↦ e.name.map (e.fileRef, ·)

theorem listEntries_eq (indexData : List UInt8) :
    listEntries indexData = (namedEntries indexData).map Prod.snd := by
  rw [listEntries, namedEntries, List.map_filterMap]
  congr 1
  funext e
  cases e.name <;> rfl

/-- An entry that matches is the first named one with such a name. -/
theorem find?_namedEntries (p : List Char → Bool) (entries : List IndexEntry) :
    (entries.filterMap fun e ↦ e.name.map (e.fileRef, ·)).find? (fun e ↦ p e.2) =
      (entries.find? fun e ↦ e.name.any p).bind fun e ↦ e.name.map (e.fileRef, ·) := by
  induction entries with
  | nil => rfl
  | cons e entries ih =>
    cases hname : e.name with
    | none => simp [hname, ih]
    | some name => by_cases hp : p name = true <;> simp [hname, hp, ih]

/-- The lookup returns the low 48 bits of the reference of the first named entry that matches. -/
theorem findEntry_eq_ok {indexData : List UInt8} {name : List Char} {r : Nat} :
    findEntry indexData name = .ok r ↔
      ∃ e, (namedEntries indexData).find? (fun e ↦ eqIgnoreAsciiCase e.2 name) = some e ∧
        r = e.1 % 2 ^ 48 := by
  have hfirst := find?_namedEntries (eqIgnoreAsciiCase · name) (indexEntries indexData)
  rw [findEntry, namedEntries, hfirst]
  cases hfind : (indexEntries indexData).find? fun e ↦ e.name.any (eqIgnoreAsciiCase · name) with
  | none => simp
  | some e =>
    have hany : e.name.any (eqIgnoreAsciiCase · name) = true :=
      List.find?_some (p := fun e : IndexEntry ↦ e.name.any (eqIgnoreAsciiCase · name)) hfind
    obtain ⟨shown, hshown, -⟩ := (Option.any_eq_true _ _).mp hany
    simp [hshown, eq_comm]

/-- On every buffer both scans end without leaving it. The lookup finds a name exactly when the
listing shows it, the case of ASCII letters apart, and then returns the low 48 bits of the file
reference of the first such entry. -/
theorem listDirectory_findInDirectory_agree (indexData : List UInt8) (name : List Char) :
    Scan.listDirectory indexData = .ok ((namedEntries indexData).map Prod.snd) ∧
      Scan.findInDirectory indexData name ≠ .panic ∧
      ((∃ r, Scan.findInDirectory indexData name = .ok r) ↔
        ∃ names, Scan.listDirectory indexData = .ok names ∧
          ∃ shown ∈ names, eqIgnoreAsciiCase shown name) ∧
      ∀ r, Scan.findInDirectory indexData name = .ok r ↔
        ∃ e, (namedEntries indexData).find? (fun e ↦ eqIgnoreAsciiCase e.2 name) = some e ∧
          r = e.1 % 2 ^ 48 := by
  have hnamed : ∀ r, Scan.findInDirectory indexData name = .ok r ↔
      ∃ e, (namedEntries indexData).find? (fun e ↦ eqIgnoreAsciiCase e.2 name) = some e ∧
        r = e.1 % 2 ^ 48 := by
    intro r
    rw [Scan.findInDirectory_eq, findEntry_eq_ok]
  refine ⟨by rw [Scan.listDirectory_eq, listEntries_eq], ?_, ?_, hnamed⟩
  · rw [Scan.findInDirectory_eq, findEntry]
    split
    · exact nofun
    · exact nofun
  · rw [Scan.listDirectory_eq, listEntries_eq]
    constructor
    · rintro ⟨r, hr⟩
      obtain ⟨e, he, -⟩ := (hnamed r).mp hr
      have hmatch : eqIgnoreAsciiCase e.2 name = true :=
        List.find?_some (p := fun e : Nat × List Char ↦ eqIgnoreAsciiCase e.2 name) he
      exact ⟨_, rfl, e.2, List.mem_map_of_mem (List.mem_of_find?_eq_some he), hmatch⟩
    · rintro ⟨names, hnames, shown, hshown, hmatch⟩
      cases hnames
      obtain ⟨e, he, rfl⟩ := List.mem_map.mp hshown
      have hsome : ((namedEntries indexData).find?
          fun e ↦ eqIgnoreAsciiCase e.2 name).isSome = true := List.find?_isSome.mpr ⟨e, he, hmatch⟩
      obtain ⟨first, hfirst⟩ := Option.isSome_iff_exists.mp hsome
      exact ⟨_, (hnamed _).mpr ⟨first, hfirst, rfl⟩⟩

end SmallOs.Ntfs
