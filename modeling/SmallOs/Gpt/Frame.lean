import SmallOs.Gpt.Manager
import SmallOs.Gpt.RoundTrip

/-!
# What a write of a table leaves alone

However `write_gpt` ends, the blocks between the two entry arrays keep their bytes: a full
array on 512-byte sectors ends exactly where they start, and the backup array starts exactly
behind them.
-/

namespace SmallOs.Gpt

open SmallOs.Base SmallOs.Hal

/-- The last usable LBA that both headers record;
`lib/vfs/src/partition/gpt/write.rs:111`. -/
def lastUsableLba (blockCount : Nat) : Nat := blockCount - 1 - gptReservedLbas

/-- The bytes from the first to the last usable block. -/
def usableBytes (d : ByteStore) : List UInt8 :=
  slice d.bytes (gptFirstUsableLba * d.blockSize)
    ((lastUsableLba d.blockCount.toNat + 1 - gptFirstUsableLba) * d.blockSize)

/-- The device has this geometry. -/
def HasGeometry (sector blockCount : Nat) (s : State ByteStore) : Prop :=
  s.device.blockSize = sector ∧ s.device.blockCount.toNat = blockCount

/-- A device of this geometry keeps it together with its usable bytes. -/
def KeepsUsable (sector blockCount : Nat) (s t : State ByteStore) : Prop :=
  HasGeometry sector blockCount s →
    HasGeometry sector blockCount t ∧ usableBytes t.device = usableBytes s.device

section Windows

variable {sector blockCount : Nat}

theorem keepsUsable_refl (s : State ByteStore) : KeepsUsable sector blockCount s s :=
  fun h ↦ ⟨h, rfl⟩

theorem keepsUsable_trans (s t u : State ByteStore) (hst : KeepsUsable sector blockCount s t)
    (htu : KeepsUsable sector blockCount t u) : KeepsUsable sector blockCount s u := by
  intro hs
  obtain ⟨ht, hb⟩ := hst hs
  obtain ⟨hu, hb'⟩ := htu ht
  exact ⟨hu, hb'.trans hb⟩

/-- The window lies on the device and apart from its usable blocks. -/
structure Metadata (sector blockCount off len : Nat) : Prop where
  inside : off + len ≤ sector * blockCount
  apart : off + len ≤ gptFirstUsableLba * sector ∨
    (lastUsableLba blockCount + 1) * sector ≤ off

theorem writeBlocks_byteStore {off : Nat} {data : List UInt8} {s : State ByteStore}
    (h : off + data.length ≤ s.device.bytes.length) :
    ∃ d, s.device.write off data = some d ∧
      writeBlocks off data s = (.ok (), ⟨d, s.guidCounter⟩) := by
  obtain ⟨d, hw, -⟩ := ByteStore.write_of_le s.device off data h
  exact ⟨d, hw, writeBlocks_eq_ok.mpr ⟨byteStore_writeBlocks_eq_ok.mpr hw, rfl⟩⟩

/-- A write apart from the usable blocks keeps them. -/
theorem usableBytes_write {d d' : ByteStore} {off : Nat} {data : List UInt8}
    (hw : d.write off data = some d')
    (hm : Metadata d.blockSize d.blockCount.toNat off data.length) :
    usableBytes d' = usableBytes d := by
  obtain ⟨hl, hb, hs, hc⟩ := ByteStore.write_eq_some.mp hw
  rw [usableBytes, usableBytes, hs, hc, hb]
  by_cases hempty : lastUsableLba d.blockCount.toNat + 1 ≤ gptFirstUsableLba
  · rw [Nat.sub_eq_zero_of_le hempty, Nat.zero_mul, slice_nil_of_zero, slice_nil_of_zero]
  · apply slice_splice_disjoint _ _ _ _ _ hl
    have hend : gptFirstUsableLba * d.blockSize +
        (lastUsableLba d.blockCount.toNat + 1 - gptFirstUsableLba) * d.blockSize =
          (lastUsableLba d.blockCount.toNat + 1) * d.blockSize := by
      rw [← Nat.add_mul, Nat.add_sub_cancel' (by omega)]
    rw [hend]
    exact hm.apart.symm

theorem follows_writeBlocks {off : Nat} {data : List UInt8}
    (hm : Metadata sector blockCount off data.length) :
    Prog.Follows (KeepsUsable sector blockCount) (writeBlocks off data) := by
  intro s ⟨hs, hc⟩
  subst hs hc
  have hinside : off + data.length ≤ s.device.bytes.length := by
    rw [s.device.length_bytes]
    exact hm.inside
  obtain ⟨d, hw, hrun⟩ := writeBlocks_byteStore hinside
  obtain ⟨-, -, hs, hc⟩ := ByteStore.write_eq_some.mp hw
  rw [hrun]
  exact ⟨⟨hs, congrArg UInt64.toNat hc⟩, usableBytes_write hw hm⟩

theorem neverErrs_writeBlocks {off : Nat} {data : List UInt8}
    (hm : Metadata sector blockCount off data.length) :
    Prog.NeverErrs (HasGeometry sector blockCount) (writeBlocks off data) := by
  intro s hs
  have hinside : off + data.length ≤ s.device.bytes.length := by
    rw [s.device.length_bytes, hs.1, hs.2]
    exact hm.inside
  obtain ⟨d, -, hrun⟩ := writeBlocks_byteStore hinside
  have hkeep := follows_writeBlocks hm s hs
  rw [hrun] at hkeep ⊢
  refine ⟨?_, hkeep.1⟩
  intro e he
  cases he

/-! ### The windows of a table -/

variable {n : Nat}

/-- The protective MBR is block 0. -/
theorem metadata_mbr (hc : 0 < blockCount) : Metadata sector blockCount 0 sector where
  inside := by
    rw [Nat.zero_add]
    exact Nat.le_mul_of_pos_right _ hc
  apart := by
    left
    simp only [gptFirstUsableLba]
    omega

variable (hn : n ≤ gptMaxEntries) (hs : 512 ≤ sector)
  (hend : entriesEndLba n sector < blockCount - 1 - gptReservedLbas)

include hend in
/-- A table that fits leaves at least three usable blocks behind the reserved ones. -/
theorem blocks_of_fits : 37 ≤ blockCount := by
  have htwo : 2 ≤ entriesEndLba n sector := Nat.le_add_right _ _
  simp only [gptReservedLbas] at hend
  omega

include hn hs hend

/-- A full array on 512-byte sectors ends exactly at the first usable block. -/
theorem metadata_primary : Metadata sector blockCount (2 * sector) (n * gptEntrySize) := by
  have hc := blocks_of_fits hend
  have hfront : 2 * sector + n * gptEntrySize ≤ gptFirstUsableLba * sector := by
    simp only [gptMaxEntries, gptEntrySize, gptFirstUsableLba] at *
    omega
  have hblocks : gptFirstUsableLba * sector ≤ sector * blockCount := by
    rw [Nat.mul_comm]
    apply Nat.mul_le_mul_left
    simp only [gptFirstUsableLba]
    omega
  exact ⟨Nat.le_trans hfront hblocks, .inl hfront⟩

/-- The backup array starts exactly behind the last usable block. -/
theorem metadata_backup :
    Metadata sector blockCount (backupEntriesLba (blockCount - 1) * sector) (n * gptEntrySize) := by
  have hc := blocks_of_fits hend
  have harray : n * gptEntrySize ≤ 33 * sector := by
    simp only [gptMaxEntries, gptEntrySize] at *
    omega
  have hblocks : backupEntriesLba (blockCount - 1) * sector + 33 * sector =
      sector * blockCount := by
    rw [← Nat.add_mul, Nat.mul_comm]
    congr 1
    simp only [backupEntriesLba, gptReservedLbas]
    omega
  refine ⟨by omega, .inr ?_⟩
  apply Nat.mul_le_mul_right
  simp only [lastUsableLba, backupEntriesLba, Nat.le_refl]

omit hn in
/-- The headers are the blocks 1 and last. -/
theorem metadata_headers : Metadata sector blockCount (1 * sector) sector ∧
    Metadata sector blockCount ((blockCount - 1) * sector) sector := by
  have hc := blocks_of_fits hend
  have hlast : (blockCount - 1) * sector + sector = sector * blockCount := by
    rw [Nat.mul_comm sector, ← Nat.succ_mul, Nat.succ_eq_add_one, Nat.sub_add_cancel (by omega)]
  have htwo : 2 * sector ≤ sector * blockCount := by
    rw [Nat.mul_comm]
    apply Nat.mul_le_mul_left
    omega
  refine ⟨⟨by omega, .inl ?_⟩, ⟨by omega, .inr ?_⟩⟩
  · simp only [gptFirstUsableLba]
    omega
  · apply Nat.mul_le_mul_right
    simp only [lastUsableLba, gptReservedLbas]
    omega

end Windows

/-! ### The whole write -/

section Write

variable {sector blockCount : Nat} {entries : List GptEntry}

theorem follows_generateGuid :
    Prog.Follows (KeepsUsable sector blockCount) (generateGuid (D := ByteStore)) :=
  fun _ h ↦ ⟨h, rfl⟩

theorem neverErrs_generateGuid :
    Prog.NeverErrs (HasGeometry sector blockCount) (generateGuid (D := ByteStore)) := by
  intro s hs
  refine ⟨?_, hs⟩
  intro e he
  cases he

/-- A finished header is as long as a block. -/
theorem length_finalizeHeaderCrc {myLba alternateLba partitionEntryLba last n : Nat} {crc : UInt32}
    {guid : Vector UInt8 16} {header : List UInt8}
    (h : buildHeader myLba alternateLba partitionEntryLba crc last sector guid n = .ok header) :
    (finalizeHeaderCrc header).length = sector := by
  obtain ⟨hs, rfl⟩ := (HeaderFields.buildHeader_eq_ok
    (f := ⟨myLba, alternateLba, partitionEntryLba, crc, last, guid, n⟩)).mp h
  rw [HeaderFields.finalizeHeaderCrc_block, HeaderFields.length_sealedBlock _ _ hs]

/-- The windows of the four writes behind the check lie apart from the usable blocks. -/
structure TableWindows (sector blockCount : Nat) (array primary backup : List UInt8) : Prop where
  front : Metadata sector blockCount (2 * sector) array.length
  back : Metadata sector blockCount (backupEntriesLba (blockCount - 1) * sector) array.length
  primary : Metadata sector blockCount (1 * sector) primary.length
  backup : Metadata sector blockCount ((blockCount - 1) * sector) backup.length

theorem tableWindows_of (hn : entries.length ≤ gptMaxEntries) (hs : 512 ≤ sector)
    (hend : entriesEndLba entries.length sector < blockCount - 1 - gptReservedLbas)
    {primary backup : List UInt8} (hp : primary.length = sector) (hb : backup.length = sector) :
    TableWindows sector blockCount (serializeEntries entries) primary backup where
  front := by
    rw [length_serializeEntries]
    exact metadata_primary hn hs hend
  back := by
    rw [length_serializeEntries]
    exact metadata_backup hn hs hend
  primary := by
    rw [hp]
    exact (metadata_headers hs hend).1
  backup := by
    rw [hb]
    exact (metadata_headers hs hend).2

/-- A window at an address in blocks, and what comes behind its write. -/
theorem follows_writeAt {lba : Nat} {data : List UInt8}
    {rest : Unit → Prog (State ByteStore) GptError Unit}
    (hm : Metadata sector blockCount (lba * sector) data.length)
    (hrest : ∀ u, Prog.Follows (KeepsUsable sector blockCount) (rest u)) :
    Prog.Follows (KeepsUsable sector blockCount)
      (Prog.lift (Outcome.mulAt 64 lba sector) >>= fun off ↦ writeBlocks off data >>= rest) := by
  apply Prog.follows_lift_bind keepsUsable_refl
  intro off hoff
  obtain ⟨-, rfl⟩ := Outcome.mulAt_eq_ok.mp hoff
  exact Prog.follows_bind keepsUsable_trans (follows_writeBlocks hm) hrest

theorem neverErrs_writeAt {lba : Nat} {data : List UInt8}
    {rest : Unit → Prog (State ByteStore) GptError Unit}
    (hm : Metadata sector blockCount (lba * sector) data.length)
    (hrest : ∀ u, Prog.NeverErrs (HasGeometry sector blockCount) (rest u)) :
    Prog.NeverErrs (HasGeometry sector blockCount)
      (Prog.lift (Outcome.mulAt 64 lba sector) >>= fun off ↦ writeBlocks off data >>= rest) := by
  apply Prog.neverErrs_lift_bind (fun e ↦ Outcome.mulAt_ne_err)
  intro off hoff
  obtain ⟨-, rfl⟩ := Outcome.mulAt_eq_ok.mp hoff
  exact Prog.neverErrs_bind (neverErrs_writeBlocks hm) hrest

theorem follows_writeTables {array primary backup : List UInt8}
    (hw : TableWindows sector blockCount array primary backup) :
    Prog.Follows (KeepsUsable sector blockCount)
      (writeTables sector (blockCount - 1) array primary backup) := by
  unfold writeTables
  apply follows_writeAt hw.front
  intro _
  apply follows_writeAt hw.back
  intro _
  apply follows_writeAt hw.primary
  intro _
  apply Prog.follows_lift_bind keepsUsable_refl
  intro off hoff
  obtain ⟨-, rfl⟩ := Outcome.mulAt_eq_ok.mp hoff
  exact follows_writeBlocks hw.backup

theorem neverErrs_writeTables {array primary backup : List UInt8}
    (hw : TableWindows sector blockCount array primary backup) :
    Prog.NeverErrs (HasGeometry sector blockCount)
      (writeTables sector (blockCount - 1) array primary backup) := by
  unfold writeTables
  apply neverErrs_writeAt hw.front
  intro _
  apply neverErrs_writeAt hw.back
  intro _
  apply neverErrs_writeAt hw.primary
  intro _
  apply Prog.neverErrs_lift_bind (fun e ↦ Outcome.mulAt_ne_err)
  intro off hoff
  obtain ⟨-, rfl⟩ := Outcome.mulAt_eq_ok.mp hoff
  exact neverErrs_writeBlocks hw.backup

theorem follows_writeBehindMbr (hn : entries.length ≤ gptMaxEntries) (hs : 512 ≤ sector) :
    Prog.Follows (KeepsUsable sector blockCount)
      (writeBehindMbr entries sector (blockCount - 1)) := by
  unfold writeBehindMbr
  apply Prog.follows_lift_bind keepsUsable_refl
  intro _ _
  apply Prog.follows_lift_bind keepsUsable_refl
  intro _ hfit
  have hend := Outcome.ensure_eq_ok.mp hfit
  apply Prog.follows_bind keepsUsable_trans follows_generateGuid
  intro guid
  apply Prog.follows_lift_bind keepsUsable_refl
  intro primary hp
  apply Prog.follows_lift_bind keepsUsable_refl
  intro backup hb
  exact follows_writeTables
    (tableWindows_of hn hs hend (length_finalizeHeaderCrc hp) (length_finalizeHeaderCrc hb))

/-- Behind the check that the table fits nothing is refused. -/
theorem neverErrs_writeBehindMbr (hn : entries.length ≤ gptMaxEntries) (hs : 512 ≤ sector)
    (hend : entriesEndLba entries.length sector < blockCount - 1 - gptReservedLbas) :
    Prog.NeverErrs (HasGeometry sector blockCount)
      (writeBehindMbr entries sector (blockCount - 1)) := by
  have hheader {myLba alternateLba partitionEntryLba : Nat} {guid : Vector UInt8 16}
      (e : GptError) :
      buildHeader myLba alternateLba partitionEntryLba (crc32 (serializeEntries entries))
        (blockCount - 1) sector guid entries.length ≠ .err e := by
    rw [buildHeader, Outcome.ensure_of (Nat.le_trans (by decide) hs)]
    simp
  unfold writeBehindMbr
  apply Prog.neverErrs_lift_bind (fun e ↦ Outcome.addAt_ne_err)
  intro _ _
  rw [Outcome.ensure_of hend]
  apply Prog.neverErrs_lift_bind (fun e ↦ by simp)
  intro _ _
  apply Prog.neverErrs_bind neverErrs_generateGuid
  intro guid
  apply Prog.neverErrs_lift_bind hheader
  intro primary hp
  apply Prog.neverErrs_lift_bind hheader
  intro backup hb
  exact neverErrs_writeTables
    (tableWindows_of hn hs hend (length_finalizeHeaderCrc hp) (length_finalizeHeaderCrc hb))

/-- However a write of a table ends, the bytes between the first and the last usable block are
those from before. -/
theorem usableBytes_writeGpt (entries : List GptEntry) (s : State ByteStore) :
    usableBytes (writeGpt entries s).2.device = usableBytes s.device := by
  by_cases hearly : gptMaxEntries < entries.length ∨ s.device.blockCount.toNat = 0
  · rw [writeGpt_refused hearly]
  · obtain ⟨hn, hc⟩ := not_or.mp hearly
    have hn : entries.length ≤ gptMaxEntries := Nat.le_of_not_lt hn
    have hc : 0 < s.device.blockCount.toNat := Nat.pos_of_ne_zero hc
    by_cases hs : 512 ≤ s.device.blockSize
    · have hmbr : Metadata s.device.blockSize s.device.blockCount.toNat 0
          (protectiveMbr s.device.blockSize (s.device.blockCount.toNat - 1)).length := by
        rw [length_protectiveMbr _ hs]
        exact metadata_mbr hc
      have hrun := Prog.follows_bind keepsUsable_trans (follows_writeBlocks hmbr)
        (fun _ ↦ follows_writeBehindMbr hn hs)
      rw [writeGpt_eq hn hc hs rfl rfl]
      exact (hrun s ⟨rfl, rfl⟩).2
    · rw [writeGpt_small hn hc (Nat.lt_of_not_le hs)]

end Write

end SmallOs.Gpt
