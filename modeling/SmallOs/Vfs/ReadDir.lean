import SmallOs.Base.Lists
import SmallOs.Ntfs.Scan
import SmallOs.Ntfs.Slots
import SmallOs.Vfs.File

/-!
# The entries of a directory

`readdir` of the NTFS inode takes the names of the index, which no longer know their file
references, and looks every name up in the index again. The lookup ignores the case of ASCII letters
and ends at the first entry that matches.
-/

namespace SmallOs.Vfs

open SmallOs.Base SmallOs.Hal SmallOs.Ntfs

/-- `lib/vfs/src/inode.rs:50–55`. -/
structure DirectoryEntry where
  name : List Char
  inodeNum : Nat
  typ : InodeType
  deriving DecidableEq, Repr

section Device

variable {D : Type} [BlockDevice D] (driver : NtfsDriver) (ino : Nat)

/-- One round of the loop of `readdir`; `lib/vfs/src/fs/ntfs/vfs_adapter.rs:149–156`. A name that is
not found again is passed over, and metadata that cannot be read is that of an empty file. -/
def ntfsDirectoryEntry (name : List Char) : Prog D FsError (Option DirectoryEntry) := do
  match ← ntfsIo (Prog.attempt (findInDirectory driver (toNtfsFile ino) name)) with
  | .error _ => return none
  | .ok child =>
    let found ← ntfsIo (Prog.attempt (stat driver (toNtfsFile child)))
    let st := found.toOption.getD {}
    return some { name, inodeNum := child, typ := if st.isDirectory then .directory else .file }

/-- The loop of `readdir`. -/
def ntfsDirectoryEntries : List (List Char) → Prog D FsError (List DirectoryEntry)
  | [] => pure []
  | name :: names => do
    let entry ← ntfsDirectoryEntry driver ino name
    let entries ← ntfsDirectoryEntries names
    return entry.toList ++ entries

/-- `lib/vfs/src/fs/ntfs/vfs_adapter.rs:140–160`. -/
def ntfsReaddir : Prog D FsError (List DirectoryEntry) := do
  let names ← ntfsIo (listDirectory driver (toNtfsFile ino))
  ntfsDirectoryEntries driver ino names

end Device

/-! ### On a readable directory -/

/-- Every name that `list_directory` shows has an entry, in the same order, with the record number
of the index entry that the name comes from. -/
def PairsNames (driver : NtfsDriver) (ino : Nat) (d : ByteStore) (indexData : List UInt8) : Prop :=
  ∃ entries, ntfsReaddir driver ino d = (.ok entries, d) ∧
    listDirectory driver (toNtfsFile ino) d = (.ok (entries.map (·.name)), d) ∧
    entries.map (·.inodeNum) = (namedEntries indexData).map fun e ↦ e.1 % 2 ^ 48

/-- The record number that the lookup returns for a name. -/
def lookupNumber (indexData : List UInt8) (name : List Char) : Nat :=
  match findEntry indexData name with
  | .ok r => r
  | _ => 0

/-- Entries whose names are equal up to the case of ASCII letters name one record. -/
def NamesDistinguish (indexData : List UInt8) : Prop :=
  ∀ e ∈ namedEntries indexData, ∀ e' ∈ namedEntries indexData,
    eqIgnoreAsciiCase e.2 e'.2 = true → e.1 % 2 ^ 48 = e'.1 % 2 ^ 48

section Readable

variable {driver : NtfsDriver} {ino : Nat} {d : ByteStore} {indexData : List UInt8}

/-- A name of the index is found again. -/
theorem findEntry_lookupNumber {e : Nat × List Char} (he : e ∈ namedEntries indexData) :
    findEntry indexData e.2 = .ok (lookupNumber indexData e.2) ∧
      ((namedEntries indexData).find? fun e' ↦ eqIgnoreAsciiCase e'.2 e.2).map
        (fun e ↦ e.1 % 2 ^ 48) = some (lookupNumber indexData e.2) := by
  have hsome : ((namedEntries indexData).find? fun e' ↦ eqIgnoreAsciiCase e'.2 e.2).isSome = true :=
    List.find?_isSome.mpr ⟨e, he, decide_eq_true rfl⟩
  obtain ⟨first, hfirst⟩ := Option.isSome_iff_exists.mp hsome
  have hfind : findEntry indexData e.2 = .ok (first.1 % 2 ^ 48) :=
    findEntry_eq_ok.mpr ⟨first, hfirst, rfl⟩
  have hnumber : lookupNumber indexData e.2 = first.1 % 2 ^ 48 := by rw [lookupNumber, hfind]
  rw [hnumber, hfirst]
  exact ⟨hfind, rfl⟩

/-- The lookup returns the record number of the very entry, for every entry, exactly when the names
distinguish the records. -/
theorem lookupNumber_iff :
    (∀ e ∈ namedEntries indexData, lookupNumber indexData e.2 = e.1 % 2 ^ 48) ↔
      NamesDistinguish indexData := by
  have hkeys : (∀ e ∈ namedEntries indexData, ((namedEntries indexData).find?
      fun e' ↦ eqIgnoreAsciiCase e'.2 e.2).map (fun e ↦ e.1 % 2 ^ 48) = some (e.1 % 2 ^ 48)) ↔
      ∀ e ∈ namedEntries indexData, ∀ e' ∈ namedEntries indexData,
        e.2.map Char.toLower = e'.2.map Char.toLower → e.1 % 2 ^ 48 = e'.1 % 2 ^ 48 :=
    find?_key_iff
  have hfolded : NamesDistinguish indexData ↔ ∀ e ∈ namedEntries indexData,
      ∀ e' ∈ namedEntries indexData, e.2.map Char.toLower = e'.2.map Char.toLower →
        e.1 % 2 ^ 48 = e'.1 % 2 ^ 48 := by
    simp only [NamesDistinguish, eqIgnoreAsciiCase, decide_eq_true_eq]
  rw [hfolded, ← hkeys]
  refine forall₂_congr fun e he ↦ ?_
  rw [(findEntry_lookupNumber he).2, Option.some.injEq]

/-- The type that an entry shows. -/
def entryType : Outcome NtfsError NtfsStat → InodeType
  | .ok st => if st.isDirectory then .directory else .file
  | _ => .file

/-- The entry of a name that is found again; metadata that panics ends the round. -/
theorem ntfsDirectoryEntry_byteStore (hindex : indexAt driver d ino = .ok indexData)
    {name : List Char} {child : Nat} (hfind : findEntry indexData name = .ok child) :
    ntfsDirectoryEntry driver ino name d =
      if statAt driver d child = .panic then (.panic, d)
      else (.ok (some ⟨name, child, entryType (statAt driver d child)⟩), d) := by
  have hfound : ntfsIo (Prog.attempt (findInDirectory driver (toNtfsFile ino) name)) d =
      (.ok (.ok child), d) := by
    have hcall : findInDirectory driver (toNtfsFile ino) name d = (.ok child, d) := by
      rw [findInDirectory_byteStore]
      change (indexAt driver d ino >>= _, d) = _
      rw [hindex, Outcome.ok_bind, hfind]
    rw [ntfsIo, Prog.mapErr, Prog.attempt_apply, hcall]
    rfl
  have hstat : ntfsIo (Prog.attempt (stat driver (toNtfsFile child))) d =
      ((statAt driver d child).attempt.mapErr fun _ ↦ FsError.ioError, d) := by
    rw [ntfsIo, Prog.mapErr, Prog.attempt_apply, stat_byteStore]
    rfl
  refine (Prog.bind_of_ok hfound).trans ?_
  dsimp only
  rw [Prog.bind_apply, hstat]
  cases statAt driver d child with
  | ok st => rfl
  | err e => rfl
  | panic => rfl

/-- The loop gives every name an entry, unless metadata that it reads panics. -/
theorem ntfsDirectoryEntries_byteStore (hindex : indexAt driver d ino = .ok indexData)
    {names : List (List Char)}
    (hfind : ∀ name ∈ names, findEntry indexData name = .ok (lookupNumber indexData name)) :
    ntfsDirectoryEntries driver ino names d =
      if ∃ name ∈ names, statAt driver d (lookupNumber indexData name) = .panic then (.panic, d)
      else (.ok (names.map fun name ↦ ⟨name, lookupNumber indexData name,
        entryType (statAt driver d (lookupNumber indexData name))⟩), d) := by
  induction names with
  | nil =>
    rw [if_neg (by rintro ⟨name, hmem, -⟩; exact absurd hmem List.not_mem_nil)]
    rfl
  | cons name names ih =>
    obtain ⟨hname, hnames⟩ := List.forall_mem_cons.mp hfind
    have hentry := ntfsDirectoryEntry_byteStore hindex hname
    rw [ntfsDirectoryEntries, Prog.bind_apply, hentry]
    by_cases hstat : statAt driver d (lookupNumber indexData name) = .panic
    · rw [if_pos hstat, if_pos ⟨name, List.mem_cons_self, hstat⟩]
    · rw [if_neg hstat]
      dsimp only
      rw [Prog.bind_apply, ih hnames]
      by_cases hrest : ∃ name ∈ names, statAt driver d (lookupNumber indexData name) = .panic
      · obtain ⟨other, hmem, hother⟩ := hrest
        rw [if_pos ⟨other, hmem, hother⟩, if_pos ⟨other, List.mem_cons_of_mem _ hmem, hother⟩]
      · rw [if_neg hrest, if_neg]
        · rfl
        · rintro ⟨other, hmem, hother⟩
          rcases List.mem_cons.mp hmem with rfl | hmem
          · exact hstat hother
          · exact hrest ⟨other, hmem, hother⟩

/-- The names of a readable directory. -/
theorem listDirectory_readable (hindex : indexAt driver d ino = .ok indexData) :
    listDirectory driver (toNtfsFile ino) d = (.ok (listEntries indexData), d) := by
  rw [listDirectory_byteStore]
  change (listEntries <$> indexAt driver d ino, d) = _
  rw [hindex]
  rfl

/-- What `readdir` returns for a readable directory. -/
theorem ntfsReaddir_byteStore (hindex : indexAt driver d ino = .ok indexData) :
    ntfsReaddir driver ino d =
      if ∃ name ∈ listEntries indexData, statAt driver d (lookupNumber indexData name) = .panic
      then (.panic, d)
      else (.ok ((listEntries indexData).map fun name ↦ ⟨name, lookupNumber indexData name,
        entryType (statAt driver d (lookupNumber indexData name))⟩), d) := by
  have hnames : ntfsIo (listDirectory driver (toNtfsFile ino)) d =
      (.ok (listEntries indexData), d) := by
    rw [ntfsIo, Prog.mapErr, listDirectory_readable hindex]
    rfl
  refine (Prog.bind_of_ok hnames).trans ?_
  apply ntfsDirectoryEntries_byteStore hindex
  intro name hname
  rw [listEntries_eq] at hname
  obtain ⟨e, he, rfl⟩ := List.mem_map.mp hname
  exact (findEntry_lookupNumber he).1

/-- A listing that pairs the names has read no metadata that panics. -/
theorem PairsNames.returns (hindex : indexAt driver d ino = .ok indexData)
    (h : PairsNames driver ino d indexData) : ¬ ∃ name ∈ listEntries indexData,
      statAt driver d (lookupNumber indexData name) = .panic := by
  intro hpanic
  obtain ⟨entries, hentries, -⟩ := h
  rw [ntfsReaddir_byteStore hindex, if_pos hpanic] at hentries
  cases (Prod.mk.inj hentries).1

/-- A listing that returns pairs the names exactly when the names distinguish the records. -/
theorem pairsNames_of_returns (hindex : indexAt driver d ino = .ok indexData)
    (hreturns : ¬ ∃ name ∈ listEntries indexData,
      statAt driver d (lookupNumber indexData name) = .panic) :
    PairsNames driver ino d indexData ↔ NamesDistinguish indexData := by
  have hread := ntfsReaddir_byteStore hindex
  rw [if_neg hreturns] at hread
  have hnumbers : (listEntries indexData).map (lookupNumber indexData) =
      ((namedEntries indexData).map fun e ↦ e.1 % 2 ^ 48) ↔ NamesDistinguish indexData := by
    rw [listEntries_eq, List.map_map, List.map_inj_left]
    exact lookupNumber_iff
  rw [← hnumbers]
  constructor
  · rintro ⟨entries, hentries, -, hpaired⟩
    rw [hread, Prod.mk.injEq, Outcome.ok.injEq] at hentries
    rw [← hpaired, ← hentries.1, List.map_map]
    rfl
  · intro hpaired
    refine ⟨_, hread, ?_, ?_⟩
    · rw [listDirectory_readable hindex, List.map_map]
      congr 2
      exact (List.map_id' _).symm
    · rw [← hpaired, List.map_map]
      rfl

end Readable

/-- `readdir` pairs every name with the record number of its own index entry exactly when no two
entries for different records have names that are equal up to the case of ASCII letters, and the
metadata of no entry's record panics. -/
theorem pairsNames_iff {driver : NtfsDriver} {ino : Nat} {d : ByteStore} {indexData : List UInt8}
    (hindex : indexAt driver d ino = .ok indexData) :
    PairsNames driver ino d indexData ↔ NamesDistinguish indexData ∧
      ∀ e ∈ namedEntries indexData, statAt driver d (e.1 % 2 ^ 48) ≠ .panic := by
  by_cases hpanic : ∃ name ∈ listEntries indexData,
      statAt driver d (lookupNumber indexData name) = .panic
  · refine iff_of_false (fun hpaired ↦ hpaired.returns hindex hpanic) ?_
    rintro ⟨hdistinguish, hstats⟩
    obtain ⟨name, hname, hstat⟩ := hpanic
    rw [listEntries_eq] at hname
    obtain ⟨e, he, rfl⟩ := List.mem_map.mp hname
    rw [lookupNumber_iff.mpr hdistinguish e he] at hstat
    exact hstats e he hstat
  · rw [pairsNames_of_returns hindex hpanic]
    refine (and_iff_left_of_imp fun hdistinguish e he hstat ↦ hpanic ?_).symm
    refine ⟨e.2, ?_, ?_⟩
    · rw [listEntries_eq]
      exact List.mem_map_of_mem he
    · rw [lookupNumber_iff.mpr hdistinguish e he, hstat]

/-! ### Two files of one directory -/

/-- An index root with two names. -/
def twoNames (second : List Char) : List UInt8 :=
  leBytes 4 0x30 ++ (leBytes 4 0 ++ (leBytes 4 1024 ++ (leBytes 4 1 ++ (leBytes 4 16 ++
    (leBytes 4 208 ++ (leBytes 4 208 ++ (leBytes 4 0 ++ (newEntry 5 6 ['a'] ++
      (newEntry 5 7 second ++ (leBytes 8 0 ++ (leBytes 2 16 ++ (leBytes 2 0 ++ (leBytes 2 2 ++
        leBytes 2 0)))))))))))))

/-- A directory with that root. -/
def twoNamesRecord (second : List Char) : List UInt8 :=
  recordHeader 0 1024 312 ++ (residentHeader 0x90 248 224 0 ++ (twoNames second ++
    (leBytes 4 0xFFFFFFFF ++ List.replicate 716 0)))

theorem length_twoNamesRecord {second : List Char} (h : second = ['b'] ∨ second = ['A']) :
    (twoNamesRecord second).length = 1024 := by
  have hfirst : entryLenAligned ['a'] = 88 := by decide
  have hsecond : entryLenAligned second = 88 := by rcases h with rfl | rfl <;> decide
  simp only [twoNamesRecord, twoNames, List.length_append, length_recordHeader,
    length_residentHeader, length_newEntry, length_leBytes, List.length_replicate, hfirst, hsecond]

/-- The root of the record and the names in it. -/
theorem recordIndex_twoNamesRecord {second : List Char} (h : second = ['b'] ∨ second = ['A']) :
    recordIndex smallDriver (twoNamesRecord second) = .ok (twoNames second) ∧
      namedEntries (twoNames second) = [(6, ['a']), (7, second)] := by
  rcases h with rfl | rfl <;> decide +kernel

theorem indexAt_twoNamesRecord {second : List Char} (h : second = ['b'] ∨ second = ['A']) :
    indexAt smallDriver (smallVolume (twoNamesRecord second)) 5 = .ok (twoNames second) := by
  have hl := length_twoNamesRecord h
  have hzeros : List.replicate 716 0 <:+ twoNamesRecord second := List.suffix_append_of_suffix
    (List.suffix_append_of_suffix (List.suffix_append_of_suffix (List.suffix_append _ _)))
  have hopen : openRecord smallDriver (twoNamesRecord second) = .ok (twoNamesRecord second) :=
    openRecord_recordHeader rfl hl hzeros (by decide)
  rw [indexAt, recordAt_smallVolume hl, hopen, Outcome.ok_bind]
  exact (recordIndex_twoNamesRecord h).1

/-- The records of the two files hold nothing that is read. -/
theorem statAt_twoNamesRecord {second : List Char} (h : second = ['b'] ∨ second = ['A']) {n : Nat}
    (hn : n < 18) (hne : n ≠ 5) :
    statAt smallDriver (smallVolume (twoNamesRecord second)) n ≠ .panic := by
  have hopen : openRecord smallDriver (List.replicate 1024 0) = .err .invalidMftRecord := by
    rw [openRecord, sliceAt, Outcome.assert_of (by rw [List.length_replicate]; decide)]
    rfl
  rw [statAt, recordAt, slot_smallVolume_other (length_twoNamesRecord h) hn hne, Outcome.ok_bind,
    hopen]
  intro hpanic
  cases hpanic

/-- Two names that differ are paired with their own records. -/
theorem pairsNames_two :
    PairsNames smallDriver 5 (smallVolume (twoNamesRecord ['b'])) (twoNames ['b']) := by
  have h : ['b'] = ['b'] ∨ ['b'] = ['A'] := .inl rfl
  apply (pairsNames_iff (indexAt_twoNamesRecord h)).mpr
  rw [NamesDistinguish, (recordIndex_twoNamesRecord h).2]
  refine ⟨by decide, ?_⟩
  refine List.forall_mem_cons.mpr ⟨?_, List.forall_mem_singleton.mpr ?_⟩
  · exact statAt_twoNamesRecord h (n := 6) (by decide) (by decide)
  · exact statAt_twoNamesRecord h (n := 7) (by decide) (by decide)

/-- Of two names that differ in case the second is paired with the record of the first. -/
theorem pairsNames_case :
    indexAt smallDriver (smallVolume (twoNamesRecord ['A'])) 5 = .ok (twoNames ['A']) ∧
      ¬ PairsNames smallDriver 5 (smallVolume (twoNamesRecord ['A'])) (twoNames ['A']) := by
  have h : ['A'] = ['b'] ∨ ['A'] = ['A'] := .inr rfl
  have hindex := indexAt_twoNamesRecord h
  refine ⟨hindex, ?_⟩
  intro hpaired
  have hdistinguish := (pairsNames_of_returns hindex (hpaired.returns hindex)).mp hpaired
  rw [NamesDistinguish, (recordIndex_twoNamesRecord h).2] at hdistinguish
  revert hdistinguish
  decide

end SmallOs.Vfs
