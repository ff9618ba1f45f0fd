import SmallOs.Gpt.Frame

/-!
# Refused writes

The number of entries and an empty disk are checked in front of the first write. That the table
fits is checked behind it: a disk that is too small loses its block 0 to the protective MBR and
then gets `NoSpace`.
-/

namespace SmallOs.Gpt

open SmallOs.Base SmallOs.Hal

/-- The table ends in front of the last usable block, so that no check refuses it. -/
def TableFits (d : ByteStore) (n : Nat) : Prop :=
  entriesEndLba n d.blockSize < d.blockCount.toNat - 1 - gptReservedLbas

/-- Block 0 holds the protective MBR of this disk. -/
def HoldsMbr (d : ByteStore) : Prop :=
  slice d.bytes 0 d.blockSize = protectiveMbr d.blockSize (d.blockCount.toNat - 1)

/-- Refused in front of the first write. -/
def RefusedAtOnce (d : ByteStore) (n : Nat) : Prop :=
  gptMaxEntries < n ∨ d.blockCount.toNat = 0

/-- The sum for the rounding of the array to whole blocks fits 64 bits. -/
def RoundingFits (d : ByteStore) (n : Nat) : Prop := n * gptEntrySize + d.blockSize < 2 ^ 64

section Errors

variable {entries : List GptEntry} {s s' : State ByteStore} {e : GptError}

/-- The protective MBR takes the place of block 0. -/
theorem write_mbr (hc : 0 < s.device.blockCount.toNat) (hs : 512 ≤ s.device.blockSize) :
    ∃ d, s.device.write 0 (protectiveMbr s.device.blockSize (s.device.blockCount.toNat - 1)) =
        some d ∧
      writeBlocks 0 (protectiveMbr s.device.blockSize (s.device.blockCount.toNat - 1)) s =
        (.ok (), ⟨d, s.guidCounter⟩) := by
  apply writeBlocks_byteStore
  rw [length_protectiveMbr _ hs, s.device.length_bytes, Nat.zero_add]
  exact Nat.le_mul_of_pos_right _ hc

/-- Replacing block 0 changes nothing exactly when it held the protective MBR. -/
theorem write_mbr_eq_iff {d : ByteStore} (hc : 0 < s.device.blockCount.toNat)
    (hs : 512 ≤ s.device.blockSize)
    (hw : s.device.write 0 (protectiveMbr s.device.blockSize (s.device.blockCount.toNat - 1)) =
      some d) : d = s.device ↔ HoldsMbr s.device := by
  have hlen := length_protectiveMbr (s.device.blockCount.toNat - 1) hs
  have hle : 0 + s.device.blockSize ≤ s.device.bytes.length := by
    rw [s.device.length_bytes, Nat.zero_add]
    exact Nat.le_mul_of_pos_right _ hc
  obtain ⟨-, hb, hsize, hcount⟩ := ByteStore.write_eq_some.mp hw
  constructor
  · intro h
    have hread := ByteStore.read_write_same hw
    rw [h, hlen] at hread
    exact (ByteStore.read_eq_some.mp hread).2
  · intro h
    apply ByteStore.ext _ hsize hcount
    rw [hb, ← h, splice_slice _ _ _ hle]

/-- `write_gpt` refuses at once, or behind the protective MBR for want of room. -/
theorem writeGpt_eq_err (hs : 512 ≤ s.device.blockSize) :
    writeGpt entries s = (.err e, s') ↔ e = .noSpace ∧
      (RefusedAtOnce s.device entries.length ∧ s' = s ∨
        ¬RefusedAtOnce s.device entries.length ∧ RoundingFits s.device entries.length ∧
        ¬TableFits s.device entries.length ∧ s'.guidCounter = s.guidCounter ∧
        s.device.write 0 (protectiveMbr s.device.blockSize (s.device.blockCount.toNat - 1)) =
          some s'.device) := by
  by_cases hearly : RefusedAtOnce s.device entries.length
  · have hrun : writeGpt entries s = (.err .noSpace, s) := writeGpt_refused hearly
    rw [hrun]
    simp [hearly, eq_comm]
  · obtain ⟨hn, hc⟩ := not_or.mp hearly
    have hn : entries.length ≤ gptMaxEntries := Nat.le_of_not_lt hn
    have hc : 0 < s.device.blockCount.toNat := Nat.pos_of_ne_zero hc
    obtain ⟨d, hw, hmbr⟩ := write_mbr hc hs
    obtain ⟨-, -, hsize, hcount⟩ := ByteStore.write_eq_some.mp hw
    have hrun : writeGpt entries s = writeBehindMbr entries s.device.blockSize
        (s.device.blockCount.toNat - 1) ⟨d, s.guidCounter⟩ :=
      (writeGpt_eq hn hc hs rfl rfl).trans (Prog.bind_of_ok hmbr)
    rw [hrun]
    by_cases hfit : TableFits s.device entries.length
    · have hnever := neverErrs_writeBehindMbr hn hs hfit ⟨d, s.guidCounter⟩
        ⟨hsize, congrArg UInt64.toNat hcount⟩
      constructor
      · intro h
        exact absurd (congrArg Prod.fst h) (hnever.1 e)
      · simp [hearly, hfit]
    · by_cases hround : RoundingFits s.device entries.length
      · rw [writeBehindMbr_refused (Nat.le_of_not_lt hfit) hround]
        simp only [hearly, hfit, hround, hw, not_false_eq_true, true_and, false_and, false_or,
          Prod.mk.injEq, Outcome.err.injEq, Option.some.injEq]
        constructor
        · rintro ⟨rfl, rfl⟩
          exact ⟨rfl, rfl, rfl⟩
        · rintro ⟨rfl, hg, rfl⟩
          exact ⟨rfl, by rw [← hg]⟩
      · have hpanic : writeBehindMbr entries s.device.blockSize (s.device.blockCount.toNat - 1)
            ⟨d, s.guidCounter⟩ = (.panic, ⟨d, s.guidCounter⟩) := by
          have hsum : Outcome.addAt (ε := GptError) 64 (entries.length * gptEntrySize)
              s.device.blockSize = .panic := by
            rw [RoundingFits] at hround
            rw [Outcome.addAt, Outcome.assert_not hround]
            rfl
          apply Prog.bind_of_panic
          rw [Prog.lift_apply, hsum]
        rw [hpanic]
        simp [hearly, hround]

end Errors

/-! ### Formatting -/

section Format

variable {request : UInt64} {s s' : State ByteStore} {e : GptError}

/-- The size that `format_disk` gives to the NTFS partition of a disk. -/
def ntfsSectors (totalSectors request : Nat) : Nat :=
  grantedSize (formatLastUsable totalSectors - formatNtfsStart) request

/-- The entries that `format_disk` writes when it finds this counter. -/
def formatEntries (totalSectors request : Nat) (counter : UInt64) : List GptEntry :=
  freshEntries (guidOf counter) (guidOf (counter + 1)) formatNtfsStart
    (formatNtfsStart + ntfsSectors totalSectors request - 1)

/-- A disk with room for the ESP and 128 more blocks gets a table of two entries. -/
theorem formatDisk_eq (hc : espSizeSectors + 128 ≤ s.device.blockCount.toNat) :
    formatDisk request s =
      (do
        writeGpt (formatEntries s.device.blockCount.toNat request.toNat s.guidCounter)
        return ⟨gptFirstUsableLba, espSizeSectors, formatNtfsStart,
          ntfsSectors s.device.blockCount.toNat request.toNat⟩ :
        Prog (State ByteStore) GptError Formatted) ⟨s.device, s.guidCounter + 1 + 1⟩ := by
  have husable : espSizeSectors + 1 ≤
      formatLastUsable s.device.blockCount.toNat - gptFirstUsableLba := by
    simp only [espSizeSectors, formatLastUsable, gptReservedLbas, gptFirstUsableLba] at *
    omega
  rw [formatDisk, Prog.bind_of_ok (Prog.get_apply s)]
  simp only [BlockDevice.blockCount]
  rw [Prog.bind_of_ok (Prog.lift_eq_ok.mpr ⟨Outcome.ensure_of hc, rfl⟩),
    Prog.bind_of_ok (Prog.lift_eq_ok.mpr ⟨Outcome.ensure_of husable, rfl⟩)]
  rfl

theorem formatDisk_small (hc : s.device.blockCount.toNat < espSizeSectors + 128) :
    formatDisk request s = (.err .noSpace, s) := by
  rw [formatDisk, Prog.bind_of_ok (Prog.get_apply s)]
  apply Prog.bind_of_err
  rw [Prog.lift_apply, Outcome.ensure_not]
  exact Nat.not_le.mpr hc

/-- The table of `format_disk` fits every disk that it accepts. -/
theorem tableFits_format {d : ByteStore} (hs : 512 ≤ d.blockSize)
    (hc : espSizeSectors + 128 ≤ d.blockCount.toNat) : TableFits d 2 := by
  have hround : (2 * gptEntrySize + d.blockSize - 1) / d.blockSize ≤ 1 := by
    have hlt : (2 * gptEntrySize + d.blockSize - 1) / d.blockSize < 2 := by
      apply Nat.div_lt_of_lt_mul
      simp only [gptEntrySize]
      omega
    omega
  simp only [TableFits, entriesEndLba, espSizeSectors, gptReservedLbas] at *
  omega

/-- So `format_disk` refuses only disks that are too small, and these at once. -/
theorem formatDisk_eq_err (hs : 512 ≤ s.device.blockSize) :
    formatDisk request s = (.err e, s') ↔
      e = .noSpace ∧ s' = s ∧ s.device.blockCount.toNat < espSizeSectors + 128 := by
  by_cases hc : espSizeSectors + 128 ≤ s.device.blockCount.toNat
  · constructor
    · intro h
      rw [formatDisk_eq hc] at h
      obtain hw | ⟨_, _, -, hr⟩ := Prog.bind_eq_err.mp h
      · obtain ⟨-, ⟨hearly, -⟩ | ⟨-, -, hfit, -⟩⟩ := (writeGpt_eq_err
          (s := ⟨s.device, s.guidCounter + 1 + 1⟩) hs).mp hw
        · obtain hlong | hempty := hearly
          · exact absurd hlong (by simp [formatEntries, freshEntries, gptMaxEntries])
          · simp only at hempty
            rw [hempty] at hc
            exact absurd hc (by decide)
        · exact absurd (tableFits_format hs hc) hfit
      · cases hr
    · rintro ⟨-, -, hlt⟩
      exact absurd hc (Nat.not_le.mpr hlt)
  · have hlt := Nat.lt_of_not_le hc
    rw [formatDisk_small hlt]
    simp [hlt, eq_comm]

end Format

/-- The errors of `write_gpt` and `format_disk` leave the device as it was. -/
def ErrorsKeepDevice (entries : List GptEntry) (s : State ByteStore) : Prop :=
  (∀ e s', writeGpt entries s = (.err e, s') → s'.device = s.device) ∧
    ∀ request e s', formatDisk request s = (.err e, s') → s'.device = s.device

/-- With a block size of at least 512 they do so exactly when the table is refused at once, fits,
or is refused on a disk whose block 0 is already the protective MBR. -/
theorem errorsKeepDevice_iff (entries : List GptEntry) {s : State ByteStore}
    (hs : 512 ≤ s.device.blockSize) :
    ErrorsKeepDevice entries s ↔ RefusedAtOnce s.device entries.length ∨
      ¬RoundingFits s.device entries.length ∨ TableFits s.device entries.length ∨
        HoldsMbr s.device := by
  constructor
  · rintro ⟨hw, -⟩
    by_contra h
    simp only [not_or, not_not] at h
    obtain ⟨hearly, hround, hfit, hmbr⟩ := h
    have hc : 0 < s.device.blockCount.toNat := Nat.pos_of_ne_zero (not_or.mp hearly).2
    obtain ⟨d, hwrite, -⟩ := write_mbr hc hs
    have hrun : writeGpt entries s = (.err .noSpace, ⟨d, s.guidCounter⟩) :=
      (writeGpt_eq_err hs).mpr ⟨rfl, .inr ⟨hearly, hround, hfit, rfl, hwrite⟩⟩
    exact hmbr ((write_mbr_eq_iff hc hs hwrite).mp (hw _ _ hrun))
  · intro h
    constructor
    · intro e s' hrun
      obtain ⟨-, ⟨-, rfl⟩ | ⟨hearly, hround, hfit, -, hwrite⟩⟩ := (writeGpt_eq_err hs).mp hrun
      · rfl
      · have hc : 0 < s.device.blockCount.toNat := Nat.pos_of_ne_zero (not_or.mp hearly).2
        have hmbr : HoldsMbr s.device :=
          ((h.resolve_left hearly).resolve_left (not_not.mpr hround)).resolve_left hfit
        exact (write_mbr_eq_iff hc hs hwrite).mpr hmbr
    · intro request e s' hrun
      obtain ⟨-, rfl, -⟩ := (formatDisk_eq_err hs).mp hrun
      rfl

/-- A list of no entries on a disk without blocks. -/
theorem errorsKeepDevice_iff_empty : ErrorsKeepDevice [] ⟨ByteStore.blank 512 0, 1⟩ ↔
    RefusedAtOnce (ByteStore.blank 512 0) 0 ∨ ¬RoundingFits (ByteStore.blank 512 0) 0 ∨
      TableFits (ByteStore.blank 512 0) 0 ∨ HoldsMbr (ByteStore.blank 512 0) :=
  errorsKeepDevice_iff [] (s := ⟨ByteStore.blank 512 0, 1⟩) (by decide)

/-- The empty table is refused on a blank disk of 36 blocks, which then starts with a protective
MBR. -/
theorem writeGpt_thirtySix : ∃ s' : State ByteStore,
    writeGpt [] ⟨ByteStore.blank 512 36, 1⟩ = (.err .noSpace, s') ∧
      s'.device ≠ ByteStore.blank 512 36 := by
  have hearly : ¬RefusedAtOnce (ByteStore.blank 512 36) 0 := by
    unfold RefusedAtOnce
    decide
  have hround : RoundingFits (ByteStore.blank 512 36) 0 := by
    unfold RoundingFits
    decide
  have hfit : ¬TableFits (ByteStore.blank 512 36) 0 := by
    unfold TableFits
    decide
  have hmbr : ¬HoldsMbr (ByteStore.blank 512 36) := by
    unfold HoldsMbr
    decide +kernel
  obtain ⟨d, hw, -⟩ := write_mbr (s := ⟨ByteStore.blank 512 36, 1⟩) (by decide) (by decide)
  refine ⟨⟨d, 1⟩, (writeGpt_eq_err (by decide)).mpr ⟨rfl, .inr ⟨hearly, hround, hfit, rfl, hw⟩⟩, ?_⟩
  intro h
  exact hmbr ((write_mbr_eq_iff (s := ⟨ByteStore.blank 512 36, 1⟩) (by decide) (by decide) hw).mp h)

end SmallOs.Gpt
