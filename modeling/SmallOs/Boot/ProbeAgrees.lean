import SmallOs.Boot.DiskProbe
import SmallOs.Gpt.Manager
import SmallOs.Gpt.RoundTrip

/-!
# The probe and the GPT writer

The boot loader walks the entry array sector by sector; what it finds on a disk that `write_gpt`
has partitioned is the first entry of the written list that is Basic Data and starts with an
NTFS boot sector.
-/

namespace SmallOs.Boot

open SmallOs.Base SmallOs.Hal SmallOs.Gpt

/-- Copies a sector of the disk into the buffer; there is nothing to copy behind its end. -/
def readSector (disk : ByteStore) : ReadSectorFn := fun lba buf ↦
  (disk.read (lba * 512) 512).getD buf

/-- The two disks agree up to the end of the primary entry array of `n` entries; the content of
the partitions is not looked at. -/
structure SameTable (d disk : ByteStore) (n : Nat) : Prop where
  blockSize : disk.blockSize = d.blockSize
  blockCount : disk.blockCount = d.blockCount
  bytes : ∀ i, i < 2 * d.blockSize + n * gptEntrySize → disk.bytes[i]? = d.bytes[i]?

/-- The first sector of the partition is on the disk and carries the signature. -/
def carriesNtfs (disk : ByteStore) (entry : GptEntry) : Bool :=
  match disk.read (entry.startLba.toNat * 512) 512 with
  | some boot => slice boot 3 8 = ntfsSig
  | none => false

theorem carriesNtfs_of_read {disk : ByteStore} {entry : GptEntry} {boot : List UInt8} {lba : Nat}
    (hl : entry.startLba.toNat = lba) (h : disk.read (lba * 512) 512 = some boot) :
    carriesNtfs disk entry = decide (slice boot 3 8 = ntfsSig) := by
  rw [carriesNtfs, hl, h]

/-- The partition that the probe is to find. -/
def isNtfsPartition (disk : ByteStore) (entry : GptEntry) : Bool :=
  entry.typeGuid = ntfsGuid && carriesNtfs disk entry

theorem SameTable.read {d disk : ByteStore} {n : Nat} (h : SameTable d disk n) {off len : Nat}
    (hle : off + len ≤ 2 * d.blockSize + n * gptEntrySize) :
    disk.read off len = d.read off len := by
  have hsize : disk.size = d.size := by
    rw [ByteStore.size, ByteStore.size, h.blockSize, h.blockCount]
  have hslice : slice disk.bytes off len = slice d.bytes off len := by
    apply slice_congr
    intro i _ hi
    exact h.bytes i (by omega)
  rw [ByteStore.read, ByteStore.read, hsize, hslice]

/-! ### What the probe sees of an entry -/

/-- The fields of an entry that the probe looks at. -/
theorem fields_serializeEntry (e : GptEntry) :
    slice (serializeEntry e) 0 16 = e.typeGuid.toList ∧
      leAt (serializeEntry e) 32 8 = e.startLba.toNat := by
  have hlen : (serializeEntry e).length = 128 := length_serializeEntry e
  have hparse := parseGptEntry_serializeEntry e
  rw [parseGptEntry, Outcome.ensure_of (Nat.le_of_eq (length_serializeEntry e).symm),
    Outcome.ok_bind] at hparse
  have he := Outcome.ok.inj hparse
  have htype := congrArg GptEntry.typeGuid he
  have hstart := congrArg GptEntry.startLba he
  dsimp only at htype hstart
  constructor
  · exact slice_of_bytesArray (by omega) htype
  · rw [← hstart]
    exact (UInt64.toNat_ofNat_of_lt' (leAt_lt _ 32 8)).symm

section Scan

variable {disk : ByteStore} {entries : List GptEntry}

private theorem sector_le {n arrayEnd size i : Nat} (h₁ : 1024 + n * 128 ≤ arrayEnd)
    (h₂ : arrayEnd + 16896 ≤ size) (hi : i < n) : (2 + i / 4) * 512 + 512 ≤ size := by
  omega

/-- The primary entry array lies on the disk with blocks to spare. -/
theorem array_sector_le (hf : Fits 512 disk.blockCount.toNat entries.length)
    (hs : disk.blockSize = 512) {i : Nat} (hi : i < entries.length) :
    (2 + i / 4) * 512 + 512 ≤ disk.bytes.length := by
  have hlast := ByteStore.length_last hf.blocks_pos
  rw [hs, ← hf.backup_le, Nat.add_assoc] at hlast
  have hend := Nat.add_le_add_right hf.primary_le 16896
  exact sector_le hf.array_le (Nat.le_trans hend (Nat.le_of_eq hlast.symm)) hi

/-- The sector with the entry of an index, and the entry in it. -/
theorem readSector_entry (hf : Fits 512 disk.blockCount.toNat entries.length)
    (hs : disk.blockSize = 512)
    (harray : disk.read (2 * 512) (entries.length * gptEntrySize) = some (serializeEntries entries))
    {i : Nat} (hi : i < entries.length) (buf : List UInt8) :
    (readSector disk (2 + i / 4) buf).length = 512 ∧
      slice (readSector disk (2 + i / 4) buf) (i % 4 * 128) 128 = serializeEntry entries[i] := by
  obtain ⟨-, hslice⟩ := ByteStore.read_eq_some.mp harray
  have hle := array_sector_le hf hs hi
  have hread : disk.read ((2 + i / 4) * 512) 512 =
      some (slice disk.bytes ((2 + i / 4) * 512) 512) :=
    ByteStore.read_eq_some.mpr ⟨hle, rfl⟩
  rw [readSector, hread, Option.getD_some]
  refine ⟨length_slice _ _ _ hle, ?_⟩
  have hm : i % 4 * 128 + 128 ≤ 512 := by omega
  have hoff : (2 + i / 4) * 512 + i % 4 * 128 = 2 * 512 + i * 128 := by omega
  have hend : i * 128 + 128 ≤ entries.length * 128 := by omega
  have harrays : slice disk.bytes (2 * 512) (entries.length * 128) = serializeEntries entries :=
    hslice
  calc slice (slice disk.bytes ((2 + i / 4) * 512) 512) (i % 4 * 128) 128
    _ = slice disk.bytes (2 * 512 + i * 128) 128 := by rw [slice_slice _ _ _ _ _ hm, hoff]
    _ = slice (serializeEntries entries) (i * 128) 128 := by
      rw [← slice_slice _ _ _ _ _ hend, harrays]
    _ = serializeEntry entries[i] :=
      slice_flatMap serializeEntry gptEntrySize length_serializeEntry entries i hi

/-- The result names the partition that is to be found. -/
def Finds (disk : ByteStore) (entries : List GptEntry) (r : DiskProbe) : Prop :=
  match entries.find? (isNtfsPartition disk) with
  | some entry => r.ntfsLba = entry.startLba.toNat ∧ (r.result = .found ∨ r.result = .noKernel)
  | none => r = ⟨.noNtfs, 0⟩

theorem finds_cons_of_not {entry : GptEntry} {rest : List GptEntry} {r : DiskProbe}
    (h : isNtfsPartition disk entry = false) (hr : Finds disk rest r) :
    Finds disk (entry :: rest) r := by
  rw [Finds, List.find?_cons_of_neg (by rw [h]; decide)]
  exact hr

/-- The signature check agrees with the disk; a buffer without a signature stays one. -/
theorem isNtfsBoot_readSector (entry : GptEntry) {gSector : List UInt8}
    (hg : slice gSector 3 8 ≠ ntfsSig) :
    (isNtfsBoot (readSector disk) entry.startLba.toNat gSector).1 = carriesNtfs disk entry ∧
      (carriesNtfs disk entry = false →
        slice (isNtfsBoot (readSector disk) entry.startLba.toNat gSector).2 3 8 ≠ ntfsSig) := by
  rw [isNtfsBoot, readSector, carriesNtfs]
  cases disk.read (entry.startLba.toNat * 512) 512 with
  | none => exact ⟨decide_eq_false hg, fun _ ↦ hg⟩
  | some boot => exact ⟨rfl, of_decide_eq_false⟩

/-- The GUID constants of the two implementations are the same. -/
theorem basicDataGuid_eq : basicDataGuid = ntfsGuid.toList := rfl

/-- One step of the loop, in terms of the entry that was written. -/
theorem scanGpt_cons (hf : Fits 512 disk.blockCount.toNat entries.length)
    (hs : disk.blockSize = 512)
    (harray : disk.read (2 * 512) (entries.length * gptEntrySize) = some (serializeEntries entries))
    {i : Nat} (hi : i < entries.length) (indexes : List Nat) (entryBuf gSector : List UInt8) :
    ∃ buf, scanGpt (readSector disk) 2 128 4 (i :: indexes) entryBuf gSector =
      if entries[i].typeGuid = ntfsGuid then
        if (isNtfsBoot (readSector disk) entries[i].startLba.toNat gSector).1 then
          .ok (probePartition (readSector disk) entries[i].startLba.toNat
            (isNtfsBoot (readSector disk) entries[i].startLba.toNat gSector).2)
        else scanGpt (readSector disk) 2 128 4 indexes buf
          (isNtfsBoot (readSector disk) entries[i].startLba.toNat gSector).2
      else scanGpt (readSector disk) 2 128 4 indexes buf gSector := by
  have hn := hf.entries_le
  obtain ⟨hlen, hentry⟩ := readSector_entry hf hs harray hi entryBuf
  obtain ⟨hguid, hstart⟩ := fields_serializeEntry entries[i]
  have hwrap : (2 + i / 4) % 2 ^ 64 = 2 + i / 4 := by
    rw [gptMaxEntries] at hn
    exact Nat.mod_eq_of_lt (by omega)
  refine ⟨readSector disk (2 + i / 4) entryBuf, ?_⟩
  rw [scanGpt, Outcome.assert_of (by decide), Outcome.ok_bind]
  dsimp only
  rw [hwrap]
  generalize readSector disk (2 + i / 4) entryBuf = sector at hlen hentry ⊢
  have hguid' : slice sector (i % 4 * 128) 16 = entries[i].typeGuid.toList := by
    rw [← hguid, ← hentry, slice_slice _ _ _ _ _ (by decide), Nat.add_zero]
  have hstart' : leAt sector (i % 4 * 128 + 32) 8 = entries[i].startLba.toNat := by
    rw [← hstart, ← hentry, leAt, leAt, slice_slice _ _ _ _ _ (by decide)]
  have hzeros : matchBytes (List.replicate 16 0) sector (i % 4 * 128) =
      .ok (decide (entries[i].typeGuid.toList = List.replicate 16 0)) := by
    rw [matchBytes_of_le (by rw [List.length_replicate]; omega), List.length_replicate, hguid']
  have hbasic : matchBytes basicDataGuid sector (i % 4 * 128) =
      .ok (decide (entries[i].typeGuid = ntfsGuid)) := by
    have hlength : basicDataGuid.length = 16 := rfl
    rw [matchBytes_of_le (by omega), hlength, hguid', basicDataGuid_eq]
    simp only [Vector.toList_inj]
  rw [hzeros, Outcome.ok_bind, hstart']
  by_cases hz : entries[i].typeGuid.toList = List.replicate 16 0
  · have hne : entries[i].typeGuid ≠ ntfsGuid := by
      intro he
      rw [he] at hz
      exact absurd hz (by decide)
    rw [decide_eq_true hz, if_neg hne]
    rfl
  · rw [decide_eq_false hz, hbasic, Outcome.ok_bind]
    by_cases hguid : entries[i].typeGuid = ntfsGuid
    · rw [decide_eq_true hguid, if_pos hguid, Outcome.assert_of (by omega)]
      rfl
    · rw [decide_eq_false hguid, if_neg hguid]
      rfl

/-- The loop over the entries from an index on finds what is to be found there. -/
theorem scanGpt_finds (hf : Fits 512 disk.blockCount.toNat entries.length)
    (hs : disk.blockSize = 512)
    (harray : disk.read (2 * 512) (entries.length * gptEntrySize) = some (serializeEntries entries))
    (k i : Nat) (hik : i + k = entries.length) (entryBuf : List UInt8) {gSector : List UInt8}
    (hg : slice gSector 3 8 ≠ ntfsSig) :
    ∃ r, scanGpt (readSector disk) 2 128 4 (List.range' i k) entryBuf gSector = .ok r ∧
      Finds disk (entries.drop i) r := by
  induction k generalizing i entryBuf gSector with
  | zero =>
    refine ⟨⟨.noNtfs, 0⟩, rfl, ?_⟩
    rw [List.drop_of_length_le (by omega)]
    rfl
  | succ k ih =>
    have hi : i < entries.length := by omega
    obtain ⟨buf, hstep⟩ :=
      scanGpt_cons hf hs harray hi (List.range' (i + 1) k) entryBuf gSector
    rw [List.range'_succ, List.drop_eq_getElem_cons hi, hstep]
    by_cases hguid : entries[i].typeGuid = ntfsGuid
    · obtain ⟨hsig, hkeep⟩ := isNtfsBoot_readSector entries[i] hg
      rw [if_pos hguid, hsig]
      by_cases hcarries : carriesNtfs disk entries[i]
      · refine ⟨_, if_pos hcarries, ?_⟩
        have hfound : isNtfsPartition disk entries[i] := by
          rw [isNtfsPartition, hcarries, Bool.and_true]
          exact decide_eq_true hguid
        rw [Finds, List.find?_cons_of_pos hfound]
        exact ⟨rfl, probePartition_result _ _ _⟩
      · have hfalse := Bool.eq_false_iff.mpr hcarries
        obtain ⟨r, hr, hfinds⟩ := ih (i + 1) (by omega) buf (hkeep hfalse)
        refine ⟨r, (if_neg hcarries).trans hr, finds_cons_of_not ?_ hfinds⟩
        rw [isNtfsPartition, hfalse, Bool.and_false]
    · obtain ⟨r, hr, hfinds⟩ := ih (i + 1) (by omega) buf hg
      refine ⟨r, (if_neg hguid).trans hr, finds_cons_of_not ?_ hfinds⟩
      rw [isNtfsPartition, decide_eq_false hguid, Bool.false_and]

end Scan

/-! ### What the probe sees of the blocks in front -/

/-- The fields of the primary header that the probe looks at. -/
theorem fields_sealedBlock {f : HeaderFields} (hf : f.InRange) :
    leAt (f.sealedBlock 512) 0 8 = 0x5452415020494645 ∧
      leAt (f.sealedBlock 512) 72 8 = f.partitionEntryLba ∧
      leAt (f.sealedBlock 512) 80 4 = f.numEntries ∧ leAt (f.sealedBlock 512) 84 4 = 128 := by
  have hparse := f.parseHeader_sealedBlock 512 hf (by decide)
  rw [parseHeader, Outcome.ensure_of (Nat.le_trans (by decide)
    (Nat.le_of_eq (f.length_sealedBlock 512 (by decide)).symm)), Outcome.ok_bind] at hparse
  have hh := Outcome.ok.inj hparse
  refine ⟨?_, ?_, ?_, ?_⟩
  · rw [leAt, f.slice_signature 512]
    decide
  · have he := congrArg (fun h ↦ h.partitionEntryLba.toNat) hh
    have hl := UInt64.toNat_ofNat_of_lt' (leAt_lt (f.sealedBlock 512) 72 8)
    exact hl.symm.trans (he.trans (UInt64.toNat_ofNat_of_lt' hf.partitionEntryLba))
  · have he := congrArg (fun h ↦ h.numPartitionEntries.toNat) hh
    have hl := UInt32.toNat_ofNat_of_lt' (leAt_lt (f.sealedBlock 512) 80 4)
    exact hl.symm.trans (he.trans (UInt32.toNat_ofNat_of_lt' hf.numEntries))
  · have he := congrArg (fun h ↦ h.partitionEntrySize.toNat) hh
    exact (UInt32.toNat_ofNat_of_lt' (leAt_lt (f.sealedBlock 512) 84 4)).symm.trans he

/-- The bytes of the protective MBR that the probe looks at. -/
theorem fields_protectiveMbr (lastLba : Nat) :
    slice (protectiveMbr 512 lastLba) 3 8 = List.replicate 8 0 ∧
      leAt (protectiveMbr 512 lastLba) 450 1 = 0xEE ∧
      leAt (protectiveMbr 512 lastLba) 510 2 = 0xAA55 := by
  refine ⟨?_, ?_, ?_⟩
  · rw [protectiveMbr, slice_append_left _ _ _ _ (by rw [List.length_replicate]; decide)]
    decide
  · rw [protectiveMbr, leAt, slice_append_right _ _ _ _ (by rw [List.length_replicate]; decide),
      slice_append_left _ _ _ _ (by rw [List.length_replicate]; decide), List.length_replicate]
    decide
  · have hfront : (List.replicate 446 0 ++ ([0x00, 0x00, 0x02, 0x00, 0xEE, 0xFF, 0xFF, 0xFF] ++
        (leBytes 4 1 ++ (leBytes 4 (min lastLba 0xFFFFFFFF) ++ List.replicate 48 0)))).length
        = 510 := by
      simp only [List.length_append, List.length_replicate, length_leBytes, List.length_cons,
        List.length_nil]
    have hmbr : protectiveMbr 512 lastLba = (List.replicate 446 0 ++
        ([0x00, 0x00, 0x02, 0x00, 0xEE, 0xFF, 0xFF, 0xFF] ++ (leBytes 4 1 ++
          (leBytes 4 (min lastLba 0xFFFFFFFF) ++ List.replicate 48 0)))) ++
        ([0x55, 0xAA] ++ List.replicate (512 - 512) 0) := by
      simp only [protectiveMbr, List.append_assoc]
    rw [leAt, hmbr, slice_append_right _ _ _ _ (Nat.le_of_eq hfront), hfront]
    decide

/-! ### The agreement -/

/-- The blocks in front of the partitions, as they are found after a successful write. -/
theorem SameTable.front {entries : List GptEntry} {s s' : State ByteStore} {disk : ByteStore}
    {u : Unit} (ht : SameTable s'.device disk entries.length) (hb : s.device.blockSize = 512)
    (hw : writeGpt entries s = (.ok u, s')) :
    Fits 512 disk.blockCount.toNat entries.length ∧ disk.blockSize = 512 ∧
      disk.read (0 * 512) 512 = some (protectiveMbr 512 (disk.blockCount.toNat - 1)) ∧
      HoldsCopy disk 512
        (primaryFields (disk.blockCount.toNat - 1) (guidOf s.guidCounter) entries) entries := by
  obtain ⟨hf, hthrough, -⟩ := writeGpt_eq_ok.mp hw
  obtain ⟨hcopy, -⟩ := holdsCopy_of_writeGpt hw
  obtain ⟨hsize, hcount⟩ := hthrough.geometry
  have hsize' : s'.device.blockSize = 512 := hsize.trans hb
  have hblocks : disk.blockCount = s.device.blockCount := ht.blockCount.trans hcount
  have hfit : Fits 512 disk.blockCount.toNat entries.length := by
    rw [hblocks, ← hb]
    exact hf
  have hback := hthrough.read_back (pairwise_tableWrites hf)
    (List.mem_cons_self (a :=
      (0, protectiveMbr s.device.blockSize (s.device.blockCount.toNat - 1))))
  rw [← hblocks, hb] at hcopy
  have hread : ∀ off len, off + len ≤ 2 * 512 + entries.length * gptEntrySize →
      disk.read off len = s'.device.read off len := by
    intro off len hle
    apply ht.read
    rw [hsize']
    exact hle
  refine ⟨hfit, ht.blockSize.trans hsize', ?_, ?_, ?_⟩
  · rw [hread _ _ (by omega)]
    have hlen := hfit.length_mbr (disk.blockCount.toNat - 1)
    rw [← hblocks, hb] at hback
    change s'.device.read 0 (protectiveMbr 512 (disk.blockCount.toNat - 1)).length = _ at hback
    rw [hlen] at hback
    exact hback
  · rw [hread _ _ (by simp only [primaryFields]; omega)]
    exact hcopy.header
  · exact (hread _ _ (Nat.le_refl _)).trans hcopy.array

/-- The first entry of the type is the partition that is to be found, when it carries the
signature. -/
theorem find?_isNtfsPartition {disk : ByteStore} {entries : List GptEntry} {entry : GptEntry}
    (h : entries.find? (fun e ↦ e.typeGuid = ntfsGuid) = some entry)
    (hc : carriesNtfs disk entry = true) :
    entries.find? (isNtfsPartition disk) = some entry := by
  induction entries with
  | nil => cases h
  | cons e entries ih =>
    by_cases he : e.typeGuid = ntfsGuid
    · have hfirst := List.find?_cons_of_pos (l := entries)
        (p := fun e : GptEntry ↦ decide (e.typeGuid = ntfsGuid)) (decide_eq_true he)
      obtain rfl := Option.some.inj (hfirst.symm.trans h)
      apply List.find?_cons_of_pos
      rw [isNtfsPartition, hc, decide_eq_true he]
      rfl
    · have hnext := List.find?_cons_of_neg (l := entries)
        (p := fun e : GptEntry ↦ decide (e.typeGuid = ntfsGuid))
        (by rwa [decide_eq_true_eq])
      rw [List.find?_cons_of_neg, ih (hnext.symm.trans h)]
      rw [isNtfsPartition, decide_eq_false he, Bool.false_and]
      exact Bool.false_ne_true

/-- The partition manager names the first entry of the type, on a disk that holds the table. -/
theorem findNtfsOffset_of_holdsCopy {entries : List GptEntry} {disk : ByteStore}
    {guid : Vector UInt8 16} (hf : Fits 512 disk.blockCount.toNat entries.length)
    (hs : disk.blockSize = 512)
    (hcopy : HoldsCopy disk 512 (primaryFields (disk.blockCount.toNat - 1) guid entries) entries)
    {entry : GptEntry} (h : entries.find? (fun e ↦ e.typeGuid = ntfsGuid) = some entry)
    (hc : carriesNtfs disk entry = true) (guidCounter : UInt64) :
    findNtfsOffset ⟨disk, guidCounter⟩ =
      (.ok (entry.startLba.toNat * 512), ⟨disk, guidCounter⟩) := by
  obtain ⟨hheader, htable⟩ := hcopy.primary hf (by decide)
  rw [← hs] at hheader htable
  have hread := (readGpt_of_primary (s := ⟨disk, guidCounter⟩) hheader).trans
    (congrArg (·, (⟨disk, guidCounter⟩ : State ByteStore)) htable)
  -- The first sector is on the disk, so its offset is below `2^64`.
  have hlt : entry.startLba.toNat * 512 < 2 ^ 64 := by
    have hlast := hf.last_lt
    have hlen := ByteStore.length_last hf.blocks_pos
    rw [hs] at hlen
    cases hboot : disk.read (entry.startLba.toNat * 512) 512 with
    | none => simp only [carriesNtfs, hboot, Bool.false_eq_true] at hc
    | some boot =>
      have hle := (ByteStore.read_eq_some.mp hboot).1
      rw [hlen] at hle
      exact Nat.lt_of_le_of_lt (Nat.le_of_add_le_add_right hle) hlast
  refine (Prog.bind_of_ok hread).trans ((Prog.bind_of_ok (Prog.get_apply _)).trans ?_)
  rw [h]
  refine Prog.lift_eq_ok.mpr ⟨Outcome.mulAt_eq_ok.mpr ⟨?_, ?_⟩, rfl⟩
  · change entry.startLba.toNat * disk.blockSize < 2 ^ 64
    rw [hs]
    exact hlt
  · exact congrArg _ hs

/-- On a disk that was partitioned by `write_gpt`, whatever its partitions hold, the probe takes
the GPT path and finds the first NTFS partition of the table; when that is the first one of its
type, the partition manager agrees. -/
theorem diskProbe_writeGpt {entries : List GptEntry} {s s' : State ByteStore} {disk : ByteStore}
    (hb : s.device.blockSize = 512) (hw : writeGpt entries s = (.ok (), s'))
    (ht : SameTable s'.device disk entries.length) (buffers : Buffers) (guidCounter : UInt64) :
    ∃ r, diskProbe (readSector disk) buffers =
        probeGpt (readSector disk) buffers (readSector disk 0 buffers.gSector) ∧
      diskProbe (readSector disk) buffers = .ok r ∧ Finds disk entries r ∧
      ∀ entry, entries.find? (fun e ↦ e.typeGuid = ntfsGuid) = some entry →
        carriesNtfs disk entry = true →
        findNtfsOffset ⟨disk, guidCounter⟩ = (.ok (r.ntfsLba * 512), ⟨disk, guidCounter⟩) := by
  obtain ⟨hf, hs, hmbr, hcopy⟩ := ht.front hb hw
  have hpath : diskProbe (readSector disk) buffers =
      probeGpt (readSector disk) buffers (readSector disk 0 buffers.gSector) := by
    obtain ⟨-, htype, hmark⟩ := fields_protectiveMbr (disk.blockCount.toNat - 1)
    have hsector : readSector disk 0 buffers.gSector =
        protectiveMbr 512 (disk.blockCount.toNat - 1) := by
      rw [readSector, hmbr, Option.getD_some]
    have hzero : ¬ (protectiveMbr 512 (disk.blockCount.toNat - 1)).all (· = 0) = true := by
      intro hall
      have hmem : (0xEE : UInt8) ∈ protectiveMbr 512 (disk.blockCount.toNat - 1) := by
        simp only [protectiveMbr, List.mem_append, List.mem_cons, true_or, or_true]
      exact absurd (List.all_eq_true.mp hall _ hmem) (by decide)
    simp only [diskProbe, hsector, if_neg hzero, hmark, htype, ne_eq, not_true_eq_false, if_false,
      if_true]
  obtain ⟨hsig, hlba, hnum, hsize⟩ := fields_sealedBlock
    (primaryFields_inRange (guidOf s.guidCounter) hf)
  have hheader : readSector disk 1 buffers.gGptSector =
      (primaryFields (disk.blockCount.toNat - 1) (guidOf s.guidCounter) entries).sealedBlock
      512 := by
    have hread := hcopy.header
    change disk.read (1 * 512) 512 = _ at hread
    rw [readSector, hread, Option.getD_some]
  have hclean : slice (readSector disk 0 buffers.gSector) 3 8 ≠ ntfsSig := by
    rw [readSector, hmbr, Option.getD_some, (fields_protectiveMbr _).1]
    decide
  obtain ⟨r, hr, hfinds⟩ := scanGpt_finds hf hs hcopy.array entries.length 0 (Nat.zero_add _)
    buffers.entryBuf hclean
  refine ⟨r, hpath, ?_, hfinds, ?_⟩
  · have hcount : min entries.length 128 = entries.length := Nat.min_eq_left hf.entries_le
    rw [hpath, probeGpt, hheader, hsig, hlba, hnum, hsize, if_neg (not_not_intro rfl)]
    change scanGpt (readSector disk) 2 128 4 (List.range (min entries.length 128)) buffers.entryBuf
      (readSector disk 0 buffers.gSector) = .ok r
    rw [hcount, List.range_eq_range']
    exact hr
  · intro entry hfirst hc
    have hfound := find?_isNtfsPartition hfirst hc
    have hlba : r.ntfsLba = entry.startLba.toNat := by
      rw [List.drop_zero, Finds, hfound] at hfinds
      exact hfinds.1
    rw [hlba]
    exact findNtfsOffset_of_holdsCopy hf hs hcopy hfirst hc guidCounter

/-- A boot sector with the signature and nothing else. -/
def bareBoot : List UInt8 := List.replicate 3 0 ++ ntfsSig ++ List.replicate 501 0

/-- A partition of the type at sector 5, which carries the signature. -/
theorem diskProbe_writeGpt_five : ∃ (s' : State ByteStore) (disk : ByteStore) (r : DiskProbe),
    writeGpt [{ (default : GptEntry) with typeGuid := ntfsGuid, startLba := 5 }]
        ⟨ByteStore.blank 512 40, 0⟩ = (.ok (), s') ∧
      s'.device.write (5 * 512) bareBoot = some disk ∧
      diskProbe (readSector disk) ⟨[], [], []⟩ = .ok r ∧ r.ntfsLba = 5 ∧
      findNtfsOffset ⟨disk, 0⟩ = (.ok (5 * 512), ⟨disk, 0⟩) := by
  obtain ⟨s', hw⟩ := writeGpt_of_fits
    [{ (default : GptEntry) with typeGuid := ntfsGuid, startLba := 5 }]
    ⟨ByteStore.blank 512 40, 0⟩ (by constructor <;> decide)
  obtain ⟨-, hthrough, -⟩ := writeGpt_eq_ok.mp hw
  obtain ⟨hsize, hcount⟩ := hthrough.geometry
  have hlen : s'.device.bytes.length = 512 * 40 := by
    rw [s'.device.length_bytes, hsize, hcount]
    rfl
  have hbare : bareBoot.length = 512 := by
    simp only [bareBoot, List.length_append, List.length_replicate]
    rfl
  obtain ⟨disk, hdisk, -, hb, hc⟩ := s'.device.write_of_le (5 * 512) bareBoot (by
    rw [hlen, hbare]
    decide)
  have htable : SameTable s'.device disk 1 := by
    refine ⟨hb, hc, fun i hi ↦ ByteStore.getElem?_write hdisk (Or.inl ?_)⟩
    have hfive : 2 * 512 + 1 * gptEntrySize ≤ 5 * 512 := by decide
    rw [show s'.device.blockSize = 512 from hsize] at hi
    exact Nat.lt_of_lt_of_le hi hfive
  obtain ⟨r, -, hr, hfinds, hoffset⟩ := diskProbe_writeGpt (s := ⟨ByteStore.blank 512 40, 0⟩)
    rfl hw htable ⟨[], [], []⟩ 0
  have hsig : slice bareBoot 3 8 = ntfsSig := by
    rw [bareBoot, slice_append_left _ _ _ _ (by decide)]
    decide
  have hread := ByteStore.read_write_same hdisk
  rw [hbare] at hread
  have hcarries : carriesNtfs disk
      { (default : GptEntry) with typeGuid := ntfsGuid, startLba := 5 } = true :=
    (carriesNtfs_of_read (show (5 : UInt64).toNat = 5 by decide) hread).trans (decide_eq_true hsig)
  have hlba : r.ntfsLba = 5 := by
    rw [Finds, find?_isNtfsPartition (List.find?_cons_of_pos rfl) hcarries] at hfinds
    exact hfinds.1
  exact ⟨s', disk, r, hw, hdisk, hr, hlba, hlba ▸ hoffset _ (List.find?_cons_of_pos rfl) hcarries⟩

end SmallOs.Boot
