import SmallOs.Gpt.Manager
import SmallOs.Gpt.RoundTrip

/-!
# Reports on a foreign table

`read_disk` and the two lookups work on whatever table the disk holds. Reading it never panics.
The report on it does: the checksum says nothing about the range of an entry, and neither the
size of the range nor the offset of its start is checked.
-/

namespace SmallOs.Gpt

open SmallOs.Base SmallOs.Hal

/-! ### The table of a disk -/

/-- The header in the last block; `lib/vfs/src/partition/gpt/read.rs:27–31`. -/
def lastHeader (d : ByteStore) : Outcome GptError (List UInt8 × GptHeader) := do
  Outcome.ensure (0 < d.blockCount.toNat) .invalidSignature
  let raw ← Outcome.ofOption .invalidSignature
    (rawHeader d (d.blockCount.toNat - 1) d.blockSize)
  parseAndVerifyHeader raw

/-- What `read_gpt` makes of a disk. -/
def diskTable (d : ByteStore) : Outcome GptError (GptHeader × List GptEntry) :=
  match headerAt d 1 d.blockSize with
  | some (_, header) => tableOf d d.blockSize header
  | none => do
    let (_, header) ← lastHeader d
    tableOf d d.blockSize header

/-- A header in the last block is the one of the bytes that come with it. -/
theorem lastHeader_verified {d : ByteStore} {raw : List UInt8} {header : GptHeader}
    (h : lastHeader d = .ok (raw, header)) : parseAndVerifyHeader raw = .ok (raw, header) := by
  simp only [lastHeader, Outcome.bind_eq_ok] at h
  obtain ⟨-, -, block, -, hv⟩ := h
  obtain ⟨rfl, -, -⟩ := parseAndVerifyHeader_eq_ok hv
  exact hv

theorem backupHeader_byteStore (s : State ByteStore) :
    backupHeader s.device.blockSize s = (Prod.fst <$> lastHeader s.device, s) := by
  have hmap : Prod.fst <$> lastHeader s.device = (do
      Outcome.ensure (0 < s.device.blockCount.toNat) .invalidSignature
      let raw ← Outcome.ofOption .invalidSignature
        (rawHeader s.device (s.device.blockCount.toNat - 1) s.device.blockSize)
      Prod.fst <$> parseAndVerifyHeader raw) := by
    simp only [lastHeader, map_bind]
  rw [hmap, backupHeader, Prog.bind_of_ok (Prog.get_apply s)]
  apply Prog.bind_of_const (Prog.lift_apply _ s)
  intro _
  rw [Prog.bind_of_ok (readHeaderRaw_byteStore _ _ s)]
  cases rawHeader s.device (s.device.blockCount.toNat - 1) s.device.blockSize with
  | none => rfl
  | some raw => rfl

/-- On a byte store `read_gpt` is a function of the disk's bytes. -/
theorem readGpt_byteStore (s : State ByteStore) : readGpt s = (diskTable s.device, s) := by
  rw [diskTable]
  cases hp : headerAt s.device 1 s.device.blockSize with
  | some r => exact readGpt_of_primary hp
  | none =>
    have hn := checkedHeader_byteStore 1 s.device.blockSize s
    rw [hp] at hn
    rw [readGpt, Prog.bind_of_ok (Prog.get_apply s)]
    refine (Prog.bind_of_ok hn).trans ?_
    cases hl : lastHeader s.device with
    | ok r =>
      obtain ⟨raw, header⟩ := r
      have hb := backupHeader_byteStore s
      rw [hl] at hb
      exact (Prog.bind_of_ok hb).trans (readGpt_tail _ _ _ _ _ (lastHeader_verified hl))
    | err e =>
      have hb := backupHeader_byteStore s
      rw [hl] at hb
      exact Prog.bind_of_err hb
    | panic =>
      have hb := backupHeader_byteStore s
      rw [hl] at hb
      exact Prog.bind_of_panic hb

/-- A table that was written is the table of the disk. -/
theorem diskTable_writeGpt {entries : List GptEntry} {s s' : State ByteStore}
    (hs : s.device.blockSize ≤ 4096) (hw : writeGpt entries s = (.ok (), s')) :
    diskTable s'.device = .ok ((primaryFields (s.device.blockCount.toNat - 1)
      (guidOf s.guidCounter) entries).decoded, entries) := by
  obtain ⟨hf, ht, -⟩ := writeGpt_eq_ok.mp hw
  obtain ⟨hh, htable⟩ := (holdsCopy_of_writeGpt hw).1.primary hf hs
  have hsize : s'.device.blockSize = s.device.blockSize := ht.geometry.1
  rw [diskTable, hsize]
  have hh : headerAt s'.device 1 s.device.blockSize = some _ := hh
  rw [hh]
  exact htable

/-! ### Reading never panics -/

theorem parseGptEntry_ne_panic (e : List UInt8) : parseGptEntry e ≠ .panic := by
  unfold parseGptEntry Outcome.ensure
  split <;> simp

theorem tableOf_ne_panic (d : ByteStore) (sector : Nat) (header : GptHeader) :
    tableOf d sector header ≠ .panic := by
  have hentries : entriesAt d sector header ≠ .panic := by
    unfold entriesAt Outcome.ensure
    split
    · split
      · simp only [Outcome.ok_bind]
        split
        · rw [Outcome.ok_bind]
          cases d.read (header.partitionEntryLba.toNat * sector)
              (header.numPartitionEntries.toNat * header.partitionEntrySize.toNat) with
          | none => simp [Outcome.ofOption]
          | some buf =>
            exact Outcome.mapM_ne_panic fun e _ ↦ parseGptEntry_ne_panic e
        · simp
      · simp
    · simp
  rw [tableOf]
  cases h : entriesAt d sector header with
  | panic => exact absurd h hentries
  | err e => simp
  | ok entries =>
    simp only [Outcome.ok_bind, verifyEntriesCrc, Outcome.ensure]
    split <;> simp

theorem lastHeader_ne_panic (d : ByteStore) : lastHeader d ≠ .panic := by
  unfold lastHeader Outcome.ensure
  split
  · rw [Outcome.ok_bind]
    cases rawHeader d (d.blockCount.toNat - 1) d.blockSize with
    | none => simp [Outcome.ofOption]
    | some raw => exact parseAndVerifyHeader_ne_panic raw
  · simp

/-- Whatever the disk holds, its table is read or refused. -/
theorem diskTable_ne_panic (d : ByteStore) : diskTable d ≠ .panic := by
  rw [diskTable]
  cases headerAt d 1 d.blockSize with
  | some r => exact tableOf_ne_panic d _ r.2
  | none =>
    cases h : lastHeader d with
    | panic => exact absurd h (lastHeader_ne_panic d)
    | err e => simp
    | ok r => exact tableOf_ne_panic d _ r.2

/-! ### The size of a range -/

/-- The range of the entry starts where it ends or before, and its size fits 64 bits, in sectors
and in bytes. -/
def RangeFits (sectorSize : Nat) (entry : GptEntry) : Prop :=
  entry.startLba.toNat ≤ entry.endLba.toNat ∧
    entry.endLba.toNat - entry.startLba.toNat + 1 < 2 ^ 64 ∧
    (entry.endLba.toNat - entry.startLba.toNat + 1) * sectorSize < 2 ^ 64

theorem sizeBytes_eq_ok {entry : GptEntry} {sectorSize n : Nat} :
    sizeBytes entry sectorSize = .ok n ↔ RangeFits sectorSize entry ∧
      (entry.endLba.toNat - entry.startLba.toNat + 1) * sectorSize = n := by
  simp only [sizeBytes, Outcome.bind_eq_ok, Outcome.sub_eq_ok, Outcome.addAt_eq_ok,
    Outcome.mulAt_eq_ok, RangeFits]
  constructor
  · rintro ⟨_, ⟨hle, rfl⟩, _, ⟨hadd, rfl⟩, hmul, rfl⟩
    exact ⟨⟨hle, hadd, hmul⟩, rfl⟩
  · rintro ⟨⟨hle, hadd, hmul⟩, rfl⟩
    exact ⟨_, ⟨hle, rfl⟩, _, ⟨hadd, rfl⟩, hmul, rfl⟩

theorem sizeBytes_ne_err (entry : GptEntry) (sectorSize : Nat) (e : GptError) :
    sizeBytes entry sectorSize ≠ .err e := by
  simp [sizeBytes, Outcome.bind_eq_err]

/-- The line of the report on an entry whose range fits. -/
def entryInfo (sectorSize : Nat) (entry : GptEntry) : PartitionInfo where
  kind := partitionKind entry.typeGuid
  typeGuid := formatGuid entry.typeGuid
  uniqueGuid := formatGuid entry.uniqueGuid
  startLba := entry.startLba
  endLba := entry.endLba
  sizeBytes := UInt64.ofNat ((entry.endLba.toNat - entry.startLba.toNat + 1) * sectorSize)
  attributes := entry.attributes
  name := utf16leToStr entry.name

theorem partitionInfo_eq_ok {entry : GptEntry} {sectorSize : Nat} {info : PartitionInfo} :
    partitionInfo sectorSize entry = .ok info ↔
      RangeFits sectorSize entry ∧ entryInfo sectorSize entry = info := by
  simp only [partitionInfo, Outcome.bind_eq_ok, sizeBytes_eq_ok, Outcome.pure_eq_ok,
    Outcome.ok.injEq]
  constructor
  · rintro ⟨_, ⟨hfit, rfl⟩, rfl⟩
    exact ⟨hfit, rfl⟩
  · rintro ⟨hfit, rfl⟩
    exact ⟨_, ⟨hfit, rfl⟩, rfl⟩

theorem partitionInfo_ne_err (sectorSize : Nat) (entry : GptEntry) (e : GptError) :
    partitionInfo sectorSize entry ≠ .err e := by
  simp [partitionInfo, Outcome.bind_eq_err, sizeBytes_ne_err]

/-- A line of the report on an entry panics exactly when its range does not fit. -/
theorem partitionInfo_eq_panic {sectorSize : Nat} {entry : GptEntry} :
    partitionInfo sectorSize entry = .panic ↔ ¬RangeFits sectorSize entry := by
  cases h : partitionInfo sectorSize entry with
  | ok info => simp [(partitionInfo_eq_ok.mp h).1]
  | err e => exact absurd h (partitionInfo_ne_err sectorSize entry e)
  | panic =>
    simp only [true_iff]
    intro hfit
    rw [partitionInfo_eq_ok.mpr ⟨hfit, rfl⟩] at h
    cases h

/-- When every range fits, the report has a line for each entry. -/
theorem mapM_partitionInfo {sectorSize : Nat} {entries : List GptEntry}
    (h : ∀ entry ∈ entries, RangeFits sectorSize entry) :
    entries.mapM (partitionInfo sectorSize) = .ok (entries.map (entryInfo sectorSize)) := by
  rw [Outcome.mapM_eq_ok_iff]
  induction entries with
  | nil => exact .nil
  | cons entry entries ih =>
    have ih := ih fun e he ↦ h e (List.mem_cons_of_mem _ he)
    exact .cons (partitionInfo_eq_ok.mpr ⟨h entry List.mem_cons_self, rfl⟩) ih

/-- Otherwise it panics. -/
theorem mapM_partitionInfo_panic {sectorSize : Nat} {entries : List GptEntry}
    (h : ¬∀ entry ∈ entries, RangeFits sectorSize entry) :
    entries.mapM (partitionInfo sectorSize) = .panic := by
  simp only [not_forall] at h
  obtain ⟨entry, hmem, hfit⟩ := h
  exact (Outcome.mapM_eq_panic_iff (partitionInfo_ne_err sectorSize)).mpr
    ⟨entry, hmem, partitionInfo_eq_panic.mpr hfit⟩

/-- The line gives the size of the range in bytes. -/
theorem entryInfo_sizeBytes {sectorSize : Nat} {entry : GptEntry} (h : RangeFits sectorSize entry) :
    (entryInfo sectorSize entry).sizeBytes.toNat =
      (entry.endLba.toNat - entry.startLba.toNat + 1) * sectorSize :=
  UInt64.toNat_ofNat_of_lt' h.2.2

/-! ### Reports and lookups -/

/-- `read_disk` on a disk with a table. -/
theorem readDisk_of_table {s : State ByteStore} {header : GptHeader} {entries : List GptEntry}
    (h : diskTable s.device = .ok (header, entries)) :
    readDisk s = ((usedEntries entries).mapM (partitionInfo s.device.blockSize) >>= fun partitions ↦
      .ok { diskGuid := formatGuid header.diskGuid
            sectorSize := s.device.blockSize
            totalSectors := s.device.blockCount
            firstUsableLba := header.firstUsableLba
            lastUsableLba := header.lastUsableLba
            partitions := partitions }, s) := by
  have hread := readGpt_byteStore s
  rw [h] at hread
  refine (Prog.bind_of_ok hread).trans ((Prog.bind_of_ok (Prog.get_apply s)).trans ?_)
  apply Prog.bind_of_const (Prog.lift_apply _ s)
  intro partitions
  rfl

/-- A lookup on a disk with a table. -/
theorem findOffset_of_table {s : State ByteStore} {header : GptHeader} {entries : List GptEntry}
    (h : diskTable s.device = .ok (header, entries)) (guid : Vector UInt8 16) :
    findOffset guid s = (match entries.find? fun entry ↦ entry.typeGuid = guid with
      | some entry => Outcome.mulAt 64 entry.startLba.toNat s.device.blockSize
      | none => .err .notFound, s) := by
  have hread := readGpt_byteStore s
  rw [h] at hread
  refine (Prog.bind_of_ok hread).trans ((Prog.bind_of_ok (Prog.get_apply s)).trans ?_)
  cases entries.find? fun entry ↦ entry.typeGuid = guid with
  | none => rfl
  | some entry => rfl

/-- Without a table the report and the lookups are refused as the reading is. -/
theorem refused_of_no_table {s : State ByteStore} {e : GptError}
    (h : diskTable s.device = .err e) :
    readDisk s = (.err e, s) ∧ ∀ guid, findOffset guid s = (.err e, s) := by
  have hread := readGpt_byteStore s
  rw [h] at hread
  exact ⟨Prog.bind_of_err hread, fun guid ↦ Prog.bind_of_err hread⟩

/-- The offset of the first entry of a type fits 64 bits. -/
def OffsetFits (sectorSize : Nat) (entries : List GptEntry) (guid : Vector UInt8 16) : Prop :=
  ∀ entry, entries.find? (fun entry ↦ entry.typeGuid = guid) = some entry →
    entry.startLba.toNat * sectorSize < 2 ^ 64

theorem findOffset_ne_panic_iff {s : State ByteStore} {header : GptHeader}
    {entries : List GptEntry} (h : diskTable s.device = .ok (header, entries))
    (guid : Vector UInt8 16) :
    (findOffset guid s).1 ≠ .panic ↔ OffsetFits s.device.blockSize entries guid := by
  rw [findOffset_of_table h, OffsetFits]
  cases entries.find? fun entry ↦ entry.typeGuid = guid with
  | none => simp
  | some entry =>
    simp only [Option.some.injEq, forall_eq']
    by_cases hfit : entry.startLba.toNat * s.device.blockSize < 2 ^ 64
    · simpa [Outcome.mulAt_of hfit] using hfit
    · rw [Outcome.mulAt, Outcome.assert_not hfit]
      simpa using hfit

/-- What the report and the lookups need of a table: the ranges of the used entries fit, and
the offsets of the two partitions that are looked up. -/
structure WellSized (sectorSize : Nat) (entries : List GptEntry) : Prop where
  ranges : ∀ entry ∈ usedEntries entries, RangeFits sectorSize entry
  esp : OffsetFits sectorSize entries espGuid
  ntfs : OffsetFits sectorSize entries ntfsGuid

/-- The report and the two lookups return or refuse, and the report gives every partition its
size in bytes. -/
structure ReadsSafely (s : State ByteStore) : Prop where
  report : (readDisk s).1 ≠ .panic
  esp : (findEspOffset s).1 ≠ .panic
  ntfs : (findNtfsOffset s).1 ≠ .panic
  sizes : ∀ info s', readDisk s = (.ok info, s') → ∀ p ∈ info.partitions,
    p.startLba ≤ p.endLba ∧
      p.sizeBytes.toNat = (p.endLba.toNat - p.startLba.toNat + 1) * info.sectorSize

/-- `read_disk` on a disk whose table has ranges that fit. -/
theorem readDisk_of_ranges {s : State ByteStore} {header : GptHeader} {entries : List GptEntry}
    (h : diskTable s.device = .ok (header, entries))
    (hfit : ∀ entry ∈ usedEntries entries, RangeFits s.device.blockSize entry) :
    readDisk s = (.ok {
      diskGuid := formatGuid header.diskGuid
      sectorSize := s.device.blockSize
      totalSectors := s.device.blockCount
      firstUsableLba := header.firstUsableLba
      lastUsableLba := header.lastUsableLba
      partitions := (usedEntries entries).map (entryInfo s.device.blockSize) }, s) := by
  rw [readDisk_of_table h, mapM_partitionInfo hfit]
  rfl

/-- The report and the lookups are safe on a disk exactly when the table that they read, if any,
is well sized. -/
theorem readsSafely_iff (s : State ByteStore) : ReadsSafely s ↔
    ∀ header entries, diskTable s.device = .ok (header, entries) →
      WellSized s.device.blockSize entries := by
  constructor
  · intro hsafe header entries h
    constructor
    · by_contra hfit
      apply hsafe.report
      rw [readDisk_of_table h, mapM_partitionInfo_panic hfit]
      rfl
    · exact (findOffset_ne_panic_iff h espGuid).mp hsafe.esp
    · exact (findOffset_ne_panic_iff h ntfsGuid).mp hsafe.ntfs
  · intro hsized
    cases h : diskTable s.device with
    | panic => exact absurd h (diskTable_ne_panic s.device)
    | err e =>
      obtain ⟨hread, hfind⟩ := refused_of_no_table h
      constructor
      · simp [hread]
      · simp [findEspOffset, hfind]
      · simp [findNtfsOffset, hfind]
      · intro info s' hr
        rw [hread] at hr
        cases hr
    | ok table =>
      obtain ⟨header, entries⟩ := table
      have hwell := hsized header entries h
      have hread := readDisk_of_ranges h hwell.ranges
      constructor
      · simp [hread]
      · exact (findOffset_ne_panic_iff h espGuid).mpr hwell.esp
      · exact (findOffset_ne_panic_iff h ntfsGuid).mpr hwell.ntfs
      · intro info s' hr p hp
        rw [hread] at hr
        cases hr
        obtain ⟨entry, hmem, rfl⟩ := List.mem_map.mp hp
        have hfit := hwell.ranges entry hmem
        exact ⟨UInt64.le_iff_toNat_le.mpr hfit.1, entryInfo_sizeBytes hfit⟩

/-- An ESP that ends in front of its start, at an LBA whose offset is beyond 64 bits. -/
def reversedEntry : GptEntry where
  typeGuid := espGuid
  uniqueGuid := espGuid
  startLba := 0x8000000000000000
  endLba := 0
  attributes := 0
  name := strToUtf16le "EFI System"

/-- On a disk whose table has that entry the report and the lookup panic. -/
theorem readDisk_reversedEntry : ∃ s' : State ByteStore,
    writeGpt [reversedEntry] ⟨ByteStore.blank 512 40, 0⟩ = (.ok (), s') ∧
      (readDisk s').1 = .panic ∧ (findEspOffset s').1 = .panic := by
  obtain ⟨s', hw⟩ := writeGpt_of_fits [reversedEntry] ⟨ByteStore.blank 512 40, 0⟩
    (by constructor <;> decide)
  have htable := diskTable_writeGpt (by decide) hw
  have hsize : s'.device.blockSize = 512 := (writeGpt_eq_ok.mp hw).2.1.geometry.1
  refine ⟨s', hw, ?_, ?_⟩
  · have hfit : ¬∀ entry ∈ usedEntries [reversedEntry], RangeFits s'.device.blockSize entry := by
      intro h
      exact absurd (h reversedEntry (by decide)).1 (by decide)
    rw [readDisk_of_table htable, mapM_partitionInfo_panic hfit]
    rfl
  · by_contra hne
    have hfit := (findOffset_ne_panic_iff htable espGuid).mp hne reversedEntry (by decide)
    rw [hsize] at hfit
    exact absurd hfit (by decide)

end SmallOs.Gpt
