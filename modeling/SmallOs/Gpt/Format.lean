import SmallOs.Gpt.Refused
import SmallOs.Gpt.Report

/-!
# A freshly formatted disk

`format_disk` takes the last usable LBA for the end of the NTFS partition, which its entry
then stops in front of: the remainder of a disk is one block short, and a request for
exactly the remainder is cut down by that block.
-/

namespace SmallOs.Gpt

open SmallOs.Base SmallOs.Hal

/-- The partition has these blocks; its last LBA belongs to it. -/
structure Occupies (p : PartitionInfo) (sectorSize start size : Nat) : Prop where
  startLba : p.startLba.toNat = start
  endLba : p.endLba.toNat + 1 = start + size
  sizeBytes : p.sizeBytes.toNat = size * sectorSize

/-- The report shows an ESP and an NTFS partition where `format_disk` said, with blocks of their
own inside the usable range. -/
structure ReportsBoth (f : Formatted) (info : GptInfo) : Prop where
  partitions : ∃ esp ntfs, info.partitions = [esp, ntfs] ∧ esp.kind = .esp ∧ ntfs.kind = .ntfs ∧
    Occupies esp info.sectorSize f.espStart f.espSize ∧
      Occupies ntfs info.sectorSize f.ntfsStart f.ntfsSize
  espSize_pos : 0 < f.espSize
  ntfsSize_pos : 0 < f.ntfsSize
  disjoint : f.espStart + f.espSize ≤ f.ntfsStart
  first_le : info.firstUsableLba.toNat ≤ f.espStart
  le_last : f.ntfsStart + f.ntfsSize ≤ info.lastUsableLba.toNat + 1

/-- The usable space of the disk is partitioned exactly: the reader reports both partitions, a
size that fits is granted, and the remainder leaves no usable block over. -/
structure PartitionsExactly (request : UInt64) (f : Formatted) (s : State ByteStore) : Prop where
  reported : ∃ info t, readDisk s = (.ok info, t) ∧ ReportsBoth f info
  granted : request ≠ 0 →
    f.ntfsStart + request.toNat ≤ lastUsableLba s.device.blockCount.toNat + 1 →
      f.ntfsSize = request.toNat
  covered : request = 0 → ∀ lba, gptFirstUsableLba ≤ lba →
    lba ≤ lastUsableLba s.device.blockCount.toNat →
      f.espStart ≤ lba ∧ lba < f.espStart + f.espSize ∨
        f.ntfsStart ≤ lba ∧ lba < f.ntfsStart + f.ntfsSize

/-- What `format_disk` returns on a disk of this size. -/
def formatted (totalSectors request : Nat) : Formatted where
  espStart := gptFirstUsableLba
  espSize := espSizeSectors
  ntfsStart := formatNtfsStart
  ntfsSize := ntfsSectors totalSectors request

section Sizes

variable {totalSectors : Nat}

theorem formatNtfsStart_eq : formatNtfsStart = gptFirstUsableLba + espSizeSectors := rfl

/-- The two formulas for the last usable LBA agree. -/
theorem formatLastUsable_eq : formatLastUsable totalSectors = lastUsableLba totalSectors := by
  rw [formatLastUsable, lastUsableLba, Nat.add_comm, Nat.sub_sub]

/-- The ESP leaves usable blocks on every disk that is accepted. -/
theorem formatNtfsStart_lt (hc : espSizeSectors + 128 ≤ totalSectors) :
    formatNtfsStart < lastUsableLba totalSectors := by
  rw [formatNtfsStart_eq, lastUsableLba, gptFirstUsableLba, gptReservedLbas]
  omega

/-- The NTFS partition ends in front of the last usable LBA, or has the size that was asked for. -/
theorem ntfsSectors_cases (request : Nat) (hc : espSizeSectors + 128 ≤ totalSectors) :
    formatNtfsStart + ntfsSectors totalSectors request = lastUsableLba totalSectors ∧
        (request = 0 ∨ lastUsableLba totalSectors < formatNtfsStart + request) ∨
      ntfsSectors totalSectors request = request ∧ 0 < request ∧
        formatNtfsStart + request ≤ lastUsableLba totalSectors := by
  have hroom := formatNtfsStart_lt hc
  rw [ntfsSectors, grantedSize, formatLastUsable_eq]
  split <;> omega

theorem ntfsSectors_pos (request : Nat) (hc : espSizeSectors + 128 ≤ totalSectors) :
    0 < ntfsSectors totalSectors request ∧
      formatNtfsStart + ntfsSectors totalSectors request ≤ lastUsableLba totalSectors := by
  have hroom := formatNtfsStart_lt hc
  obtain ⟨h, -⟩ | ⟨h, hpos, hle⟩ := ntfsSectors_cases request hc <;> omega

end Sizes

section Run

variable {request : UInt64} {s s' : State ByteStore} {f : Formatted}

/-- A disk that was formatted had room, and holds the table of its entries. -/
theorem formatDisk_eq_ok (h : formatDisk request s = (.ok f, s')) :
    espSizeSectors + 128 ≤ s.device.blockCount.toNat ∧
      f = formatted s.device.blockCount.toNat request.toNat ∧
      writeGpt (formatEntries s.device.blockCount.toNat request.toNat s.guidCounter)
        ⟨s.device, s.guidCounter + 1 + 1⟩ = (.ok (), s') := by
  by_cases hc : espSizeSectors + 128 ≤ s.device.blockCount.toNat
  · rw [formatDisk_eq hc] at h
    obtain ⟨_, t, hw, hr⟩ := Prog.bind_eq_ok.mp h
    cases hr
    exact ⟨hc, rfl, hw⟩
  · rw [formatDisk_small (Nat.lt_of_not_le hc)] at h
    cases h

/-- A disk with room whose byte addresses fit 64 bits is formatted. -/
theorem formatDisk_of_room (request : UInt64) (hs : 512 ≤ s.device.blockSize)
    (hc : espSizeSectors + 128 ≤ s.device.blockCount.toNat)
    (hround : RoundingFits s.device 2)
    (hlast : (s.device.blockCount.toNat - 1) * s.device.blockSize < 2 ^ 64) :
    ∃ s', formatDisk request s =
      (.ok (formatted s.device.blockCount.toNat request.toNat), s') := by
  obtain ⟨s', hw⟩ := writeGpt_of_fits
    (formatEntries s.device.blockCount.toNat request.toNat s.guidCounter)
    ⟨s.device, s.guidCounter + 1 + 1⟩
    ⟨(by decide : 2 ≤ gptMaxEntries), Nat.lt_of_lt_of_le (by decide) hc, hs, hround,
      tableFits_format hs hc, hlast⟩
  refine ⟨s', ?_⟩
  rw [formatDisk_eq hc]
  exact Prog.bind_of_ok hw

/-- The line of the report on an entry with these blocks. -/
theorem occupies_entryInfo {entry : GptEntry} {start size : Nat} (sectorSize : Nat)
    (hstart : entry.startLba.toNat = start) (hstop : entry.endLba.toNat + 1 = start + size)
    (hpos : 0 < size) (hsize : size < 2 ^ 64) (hbytes : size * sectorSize < 2 ^ 64) :
    RangeFits sectorSize entry ∧ Occupies (entryInfo sectorSize entry) sectorSize start size := by
  have hlen : entry.endLba.toNat - entry.startLba.toNat + 1 = size := by omega
  have hfit : RangeFits sectorSize entry := ⟨by omega, by omega, by rwa [hlen]⟩
  exact ⟨hfit, hstart, hstop, by rw [entryInfo_sizeBytes hfit, hlen]⟩

/-- The two fresh entries: an ESP behind the primary array, and the range given for NTFS. -/
theorem freshEntries_eq (espUnique ntfsUnique : Vector UInt8 16) (start stop : Nat) :
    ∃ esp ntfs, freshEntries espUnique ntfsUnique start stop = [esp, ntfs] ∧
      (esp.typeGuid = espGuid ∧ esp.startLba.toNat = gptFirstUsableLba ∧
        esp.endLba.toNat + 1 = gptFirstUsableLba + espSizeSectors) ∧
      ntfs.typeGuid = ntfsGuid ∧ ntfs.startLba = UInt64.ofNat start ∧
        ntfs.endLba = UInt64.ofNat stop := by
  have hend : (UInt64.ofNat (gptFirstUsableLba + espSizeSectors - 1)).toNat + 1 =
      gptFirstUsableLba + espSizeSectors := by decide
  exact ⟨_, _, rfl, ⟨rfl, rfl, hend⟩, rfl, rfl, rfl⟩

theorem usedEntries_of_types {esp ntfs : GptEntry} (hesp : esp.typeGuid = espGuid)
    (hntfs : ntfs.typeGuid = ntfsGuid) : usedEntries [esp, ntfs] = [esp, ntfs] := by
  have hesp' : isZeroGuid espGuid = false := by decide
  have hntfs' : isZeroGuid ntfsGuid = false := by decide
  simp [usedEntries, hesp, hntfs, hesp', hntfs']

theorem entryInfo_kind {esp ntfs : GptEntry} (hesp : esp.typeGuid = espGuid)
    (hntfs : ntfs.typeGuid = ntfsGuid) (sectorSize : Nat) :
    (entryInfo sectorSize esp).kind = .esp ∧ (entryInfo sectorSize ntfs).kind = .ntfs := by
  have hne : ntfsGuid ≠ espGuid := by decide
  constructor
  · simp [entryInfo, partitionKind, hesp]
  · simp [entryInfo, partitionKind, hntfs, hne]

/-- A table of `format_disk` that was written is reported as it was planned. -/
theorem reportsBoth_of_write {totalSectors : Nat} {counter : UInt64} {t t' : State ByteStore}
    (htotal : t.device.blockCount.toNat = totalSectors)
    (hc : espSizeSectors + 128 ≤ totalSectors) (hs : t.device.blockSize ≤ 4096)
    (hw : writeGpt (formatEntries totalSectors request.toNat counter) t = (.ok (), t')) :
    ∃ info, readDisk t' = (.ok info, t') ∧
      ReportsBoth (formatted totalSectors request.toNat) info := by
  obtain ⟨hfits, ht, -⟩ := writeGpt_eq_ok.mp hw
  obtain ⟨hsize, -⟩ := ht.geometry
  have hlast : (t.device.blockCount.toNat - 1) * t.device.blockSize < 2 ^ 64 := hfits.last_lt
  have hword : t.device.blockCount.toNat - 1 < 2 ^ 64 := hfits.lastLba_lt
  obtain ⟨hpos, hle⟩ := ntfsSectors_pos request.toNat hc
  rw [htotal] at hlast hword
  have hblocks : lastUsableLba totalSectors ≤ totalSectors - 1 := Nat.sub_le _ _
  have hbytes {size : Nat} (h : size ≤ totalSectors - 1) : size * t'.device.blockSize < 2 ^ 64 := by
    rw [hsize]
    exact Nat.lt_of_le_of_lt (Nat.mul_le_mul_right _ h) hlast
  have hnat {n : Nat} (h : n ≤ totalSectors - 1) : (UInt64.ofNat n).toNat = n :=
    UInt64.toNat_ofNat_of_lt' (Nat.lt_of_le_of_lt h hword)
  have htable := diskTable_writeGpt hs hw
  obtain ⟨esp, ntfs, hentries, ⟨hesp, hespStart, hespEnd⟩, hntfs, hntfsStart, hntfsEnd⟩ :=
    freshEntries_eq (guidOf counter) (guidOf (counter + 1)) formatNtfsStart
      (formatNtfsStart + ntfsSectors totalSectors request.toNat - 1)
  rw [formatEntries, hentries, htotal] at htable
  have hfirst : ntfs.startLba.toNat = formatNtfsStart := by rw [hntfsStart, hnat (by omega)]
  have hstop : ntfs.endLba.toNat + 1 =
      formatNtfsStart + ntfsSectors totalSectors request.toNat := by
    rw [hntfsEnd, hnat (by omega)]
    omega
  obtain ⟨hespFit, hespOcc⟩ := occupies_entryInfo t'.device.blockSize hespStart hespEnd
    (by decide) (by decide) (hbytes (by omega))
  obtain ⟨hntfsFit, hntfsOcc⟩ := occupies_entryInfo t'.device.blockSize hfirst hstop hpos
    (by omega) (hbytes (by omega))
  have hranges : ∀ entry ∈ usedEntries [esp, ntfs], RangeFits t'.device.blockSize entry := by
    rw [usedEntries_of_types hesp hntfs]
    simp [hespFit, hntfsFit]
  have hread := readDisk_of_ranges htable hranges
  rw [usedEntries_of_types hesp hntfs] at hread
  obtain ⟨hespKind, hntfsKind⟩ := entryInfo_kind hesp hntfs t'.device.blockSize
  refine ⟨_, hread, ⟨_, _, rfl, hespKind, hntfsKind, hespOcc, hntfsOcc⟩, ?_, hpos, ?_, ?_, ?_⟩
  · exact (by decide : 0 < espSizeSectors)
  · exact Nat.le_of_eq formatNtfsStart_eq.symm
  · exact Nat.le_refl _
  · have hrecorded : (UInt64.ofNat (totalSectors - 1 - gptReservedLbas)).toNat =
        lastUsableLba totalSectors := hnat hblocks
    exact Nat.le_trans hle (Nat.le_trans (Nat.le_of_eq hrecorded.symm) (Nat.le_succ _))

/-- With the remainder for NTFS the last usable LBA belongs to no partition. -/
theorem last_uncovered (totalSectors : Nat) (hc : espSizeSectors + 128 ≤ totalSectors)
    (hcovered : gptFirstUsableLba ≤ lastUsableLba totalSectors →
      (formatted totalSectors 0).espStart ≤ lastUsableLba totalSectors ∧
          lastUsableLba totalSectors < (formatted totalSectors 0).espStart +
            (formatted totalSectors 0).espSize ∨
        (formatted totalSectors 0).ntfsStart ≤ lastUsableLba totalSectors ∧
          lastUsableLba totalSectors < (formatted totalSectors 0).ntfsStart +
            (formatted totalSectors 0).ntfsSize) : False := by
  have hstart := formatNtfsStart_lt hc
  have hesp := formatNtfsStart_eq
  obtain ⟨hend, -⟩ | ⟨-, hpos, -⟩ := ntfsSectors_cases 0 hc
  · simp only [formatted] at hcovered
    omega
  · omega

/-- The usable space of a formatted disk is partitioned exactly when the reader takes its block
size and the request is neither the remainder nor as large as all blocks behind the ESP. -/
theorem partitionsExactly_iff (h : formatDisk request s = (.ok f, s')) :
    PartitionsExactly request f s' ↔ s.device.blockSize ≤ 4096 ∧ request ≠ 0 ∧
      formatNtfsStart + request.toNat ≠ lastUsableLba s.device.blockCount.toNat + 1 := by
  obtain ⟨hc, rfl, hw⟩ := formatDisk_eq_ok h
  obtain ⟨hsize, hcount⟩ := (writeGpt_eq_ok.mp hw).2.1.geometry
  have hsize : s'.device.blockSize = s.device.blockSize := hsize
  have hcount : s'.device.blockCount = s.device.blockCount := hcount
  have hstart := formatNtfsStart_lt hc
  have hzero : request = 0 ↔ request.toNat = 0 := UInt64.toNat_inj.symm
  constructor
  · intro hp
    refine ⟨?_, ?_, ?_⟩
    · by_contra hlarge
      obtain ⟨info, t, hread, -⟩ := hp.reported
      have hrefused := readGpt_of_large (s := s') (by omega)
      rw [readDisk, Prog.bind_of_err hrefused] at hread
      cases hread
    · intro hreq
      have hcovered := hp.covered hreq (lastUsableLba s.device.blockCount.toNat)
      rw [hcount, hzero.mp hreq] at hcovered
      exact last_uncovered _ hc fun hfirst ↦ hcovered hfirst (Nat.le_refl _)
    · intro hreq
      have hne : request ≠ 0 := by
        rw [Ne, hzero]
        omega
      have hgranted := hp.granted hne
      rw [hcount] at hgranted
      have hgranted : ntfsSectors s.device.blockCount.toNat request.toNat = request.toNat :=
        hgranted (Nat.le_of_eq hreq)
      obtain ⟨hend, -⟩ | ⟨-, -, hle⟩ := ntfsSectors_cases request.toNat hc <;> omega
  · rintro ⟨hs, hne, hexact⟩
    rw [Ne, hzero] at hne
    constructor
    · obtain ⟨info, hread, hreports⟩ := reportsBoth_of_write
        (t := ⟨s.device, s.guidCounter + 1 + 1⟩) rfl hc hs hw
      exact ⟨info, s', hread, hreports⟩
    · intro _ hle
      rw [hcount] at hle
      have hle : formatNtfsStart + request.toNat ≤ lastUsableLba s.device.blockCount.toNat + 1 :=
        hle
      obtain ⟨-, hzero' | hlt⟩ | ⟨heq, -⟩ := ntfsSectors_cases request.toNat hc
      · exact absurd hzero' hne
      · omega
      · exact heq
    · intro hreq
      exact absurd (hzero.mp hreq) hne

end Run

/-- A disk of a gibibyte whose NTFS partition gets the mebibyte that was asked for. -/
theorem partitionsExactly_gibibyte : ∃ f s', formatDisk 2048 ⟨ByteStore.blank 512 2097152, 1⟩ =
    (.ok f, s') ∧ (PartitionsExactly 2048 f s' ↔ 512 ≤ 4096 ∧ (2048 : UInt64) ≠ 0 ∧
      formatNtfsStart + 2048 ≠ lastUsableLba 2097152 + 1) := by
  obtain ⟨s', h⟩ := formatDisk_of_room (s := ⟨ByteStore.blank 512 2097152, 1⟩) 2048 (by decide)
    (by decide) (by unfold RoundingFits; decide) (by decide)
  exact ⟨_, s', h, partitionsExactly_iff h⟩

/-- With the remainder of that disk for NTFS its last usable LBA is left over. -/
theorem not_partitionsExactly_gibibyte : ∃ f s',
    formatDisk 0 ⟨ByteStore.blank 512 2097152, 1⟩ = (.ok f, s') ∧ ¬PartitionsExactly 0 f s' := by
  obtain ⟨s', h⟩ := formatDisk_of_room (s := ⟨ByteStore.blank 512 2097152, 1⟩) 0 (by decide)
    (by decide) (by unfold RoundingFits; decide) (by decide)
  refine ⟨_, s', h, ?_⟩
  intro hp
  have hcount : s'.device.blockCount = 2097152 :=
    (writeGpt_eq_ok.mp (formatDisk_eq_ok h).2.2).2.1.geometry.2
  have hcovered := hp.covered rfl (lastUsableLba 2097152)
  rw [hcount] at hcovered
  exact last_uncovered 2097152 (by decide) fun hfirst ↦ hcovered hfirst (Nat.le_refl _)

end SmallOs.Gpt
