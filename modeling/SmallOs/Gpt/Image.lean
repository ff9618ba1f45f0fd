import SmallOs.Gpt.Codec

/-!
# The disk image that a successful write leaves

`write_gpt` returns `Ok` exactly when the table fits the device and its five writes go
through, in the order of `tableWrites`. The five windows are pairwise disjoint, so each
of them still holds what was written to it in the resulting image.
-/

namespace SmallOs.Gpt

open SmallOs.Base SmallOs.Hal

/-! ### Sequences of writes -/

/-- A write: the first argument of the call and its data. -/
abbrev Write := Nat × List UInt8

/-- The two windows have no byte in common. -/
def Write.Disjoint (v w : Write) : Prop := v.1 + v.2.length ≤ w.1 ∨ w.1 + w.2.length ≤ v.1

section Device

variable {D : Type} [BlockDevice D]

/-- The writes go through one after the other, from the first device to the last. -/
def WritesThrough : List Write → D → D → Prop
  | [], d, d' => d = d'
  | w :: ws, d, d' => ∃ d₁, BlockDevice.writeBlocks d w.1 w.2 = (.ok (), d₁) ∧
      WritesThrough ws d₁ d'

theorem writeBlocks_eq_ok {off : Nat} {data : List UInt8} {s s' : State D} {u : Unit} :
    writeBlocks off data s = (.ok u, s') ↔
      BlockDevice.writeBlocks s.device off data = (.ok (), s'.device) ∧
        s'.guidCounter = s.guidCounter := by
  unfold writeBlocks
  rcases h : BlockDevice.writeBlocks s.device off data with ⟨_ | _, d⟩
  · simp
  · constructor
    · intro he
      cases he
      exact ⟨rfl, rfl⟩
    · rintro ⟨he, hg⟩
      obtain ⟨d', g⟩ := s'
      cases hg
      cases he
      rfl

/-- Every prefix of writes that go through goes through. -/
theorem WritesThrough.take {ws : List Write} {d d' : D} (h : WritesThrough ws d d') (k : Nat) :
    ∃ d₁, WritesThrough (ws.take k) d d₁ := by
  induction ws generalizing d k with
  | nil => exact ⟨d, by rw [List.take_nil]; rfl⟩
  | cons w ws ih =>
    cases k with
    | zero => exact ⟨d, rfl⟩
    | succ k =>
      obtain ⟨d₂, hw, hr⟩ := h
      obtain ⟨d₁, ht⟩ := ih hr k
      exact ⟨d₁, d₂, hw, ht⟩

end Device

theorem byteStore_writeBlocks_eq_ok {d d' : ByteStore} {off : Nat} {data : List UInt8} :
    BlockDevice.writeBlocks d off data = (Except.ok (), d') ↔ d.write off data = some d' := by
  simp only [BlockDevice.writeBlocks]
  cases d.write off data <;> simp

/-- Writes that go through leave the geometry of a byte store alone. -/
theorem WritesThrough.geometry {ws : List Write} {d d' : ByteStore} (h : WritesThrough ws d d') :
    d'.blockSize = d.blockSize ∧ d'.blockCount = d.blockCount := by
  induction ws generalizing d with
  | nil =>
    cases h
    exact ⟨rfl, rfl⟩
  | cons w ws ih =>
    obtain ⟨d₁, hw, hr⟩ := h
    obtain ⟨-, -, hs, hc⟩ := ByteStore.write_eq_some.mp (byteStore_writeBlocks_eq_ok.mp hw)
    rw [← hs, ← hc]
    exact ih hr

/-- A window apart from every write reads as before. -/
theorem WritesThrough.read_other {ws : List Write} {d d' : ByteStore} (h : WritesThrough ws d d')
    {off len : Nat} (hd : ∀ w ∈ ws, off + len ≤ w.1 ∨ w.1 + w.2.length ≤ off) :
    d'.read off len = d.read off len := by
  induction ws generalizing d with
  | nil => rw [show d = d' from h]
  | cons w ws ih =>
    obtain ⟨d₁, hw, hr⟩ := h
    rw [ih hr fun v hv ↦ hd v (List.mem_cons_of_mem _ hv)]
    exact ByteStore.read_write_disjoint (byteStore_writeBlocks_eq_ok.mp hw)
      (hd w List.mem_cons_self)

/-- After disjoint writes each window holds its own data. -/
theorem WritesThrough.read_back {ws : List Write} {d d' : ByteStore} (h : WritesThrough ws d d')
    (hp : ws.Pairwise Write.Disjoint) {w : Write} (hw : w ∈ ws) :
    d'.read w.1 w.2.length = some w.2 := by
  induction ws generalizing d with
  | nil => cases hw
  | cons v ws ih =>
    obtain ⟨d₁, hv, hr⟩ := h
    obtain ⟨hfirst, hrest⟩ := List.pairwise_cons.mp hp
    rcases List.mem_cons.mp hw with rfl | hw
    · rw [hr.read_other hfirst]
      exact ByteStore.read_write_same (byteStore_writeBlocks_eq_ok.mp hv)
    · exact ih hr hrest hw

/-! ### The five writes of a table -/

/-- The primary header of a table. -/
def primaryFields (lastLba : Nat) (guid : Vector UInt8 16) (entries : List GptEntry) :
    HeaderFields where
  myLba := 1
  alternateLba := lastLba
  partitionEntryLba := 2
  entryArrayCrc := crc32 (serializeEntries entries)
  lastLba := lastLba
  diskGuid := guid
  numEntries := entries.length

/-- The backup header of a table. -/
def backupFields (lastLba : Nat) (guid : Vector UInt8 16) (entries : List GptEntry) :
    HeaderFields where
  myLba := lastLba
  alternateLba := 1
  partitionEntryLba := backupEntriesLba lastLba
  entryArrayCrc := crc32 (serializeEntries entries)
  lastLba := lastLba
  diskGuid := guid
  numEntries := entries.length

theorem length_protectiveMbr {sector : Nat} (lastLba : Nat) (hs : 512 ≤ sector) :
    (protectiveMbr sector lastLba).length = sector := by
  simp only [protectiveMbr, List.length_append, List.length_replicate, length_leBytes,
    List.length_cons, List.length_nil]
  omega

/-- The writes of `write_gpt` in their order. -/
def tableWrites (sector lastLba : Nat) (guid : Vector UInt8 16) (entries : List GptEntry) :
    List Write :=
  [(0, protectiveMbr sector lastLba),
    (2 * sector, serializeEntries entries),
    (backupEntriesLba lastLba * sector, serializeEntries entries),
    (1 * sector, (primaryFields lastLba guid entries).sealedBlock sector),
    (lastLba * sector, (backupFields lastLba guid entries).sealedBlock sector)]

/-- A table of `n` entries passes every check of `write_gpt` on this geometry, and no
address of a write overflows. -/
structure Fits (sector blockCount n : Nat) : Prop where
  entries_le : n ≤ gptMaxEntries
  blocks_pos : 0 < blockCount
  sector_ge : 512 ≤ sector
  rounded_lt : n * gptEntrySize + sector < 2 ^ 64
  end_lt : entriesEndLba n sector < blockCount - 1 - gptReservedLbas
  last_lt : (blockCount - 1) * sector < 2 ^ 64

namespace Fits

variable {sector blockCount n : Nat}

/-- The whole blocks behind LBA 2 cover the entry array. -/
theorem array_le (h : Fits sector blockCount n) :
    2 * sector + n * gptEntrySize ≤ entriesEndLba n sector * sector := by
  have hs := h.sector_ge
  have hd := Nat.div_add_mod (n * gptEntrySize + sector - 1) sector
  have hm := Nat.mod_lt (n * gptEntrySize + sector - 1) (show sector > 0 by omega)
  rw [entriesEndLba, Nat.add_mul, Nat.mul_comm (_ / sector)]
  omega

/-- The entry array is at most 32 blocks long. -/
theorem array_blocks (h : Fits sector blockCount n) : n * gptEntrySize ≤ 32 * sector := by
  have hn := h.entries_le
  have hs := h.sector_ge
  simp only [gptMaxEntries, gptEntrySize] at *
  omega

/-- The backup array ends where the last block starts at the latest. -/
theorem backup_le (h : Fits sector blockCount n) :
    backupEntriesLba (blockCount - 1) * sector + 32 * sector = (blockCount - 1) * sector := by
  have hs := h.end_lt
  rw [← Nat.add_mul]
  congr 1
  simp only [backupEntriesLba, gptReservedLbas] at *
  omega

/-- The primary array ends in front of the backup array. -/
theorem primary_le (h : Fits sector blockCount n) :
    entriesEndLba n sector * sector ≤ backupEntriesLba (blockCount - 1) * sector := by
  have hs := h.end_lt
  apply Nat.mul_le_mul_right
  simp only [backupEntriesLba, gptReservedLbas] at *
  omega

/-- The entry arrays start behind the first two blocks. -/
theorem two_le (sector n : Nat) : 2 * sector ≤ entriesEndLba n sector * sector :=
  Nat.mul_le_mul_right _ (Nat.le_add_right _ _)

theorem length_mbr (h : Fits sector blockCount n) (lastLba : Nat) :
    (protectiveMbr sector lastLba).length = sector := length_protectiveMbr lastLba h.sector_ge

/-- Every header of a table that fits is within the range of its fields. -/
theorem lastLba_lt (h : Fits sector blockCount n) : blockCount - 1 < 2 ^ 64 := by
  have hs := h.sector_ge
  have ha := h.last_lt
  have := Nat.le_mul_of_pos_right (blockCount - 1) (show 0 < sector by omega)
  omega

/-- No address of a write overflows. -/
theorem addresses (h : Fits sector blockCount n) :
    2 * sector < 2 ^ 64 ∧ backupEntriesLba (blockCount - 1) * sector < 2 ^ 64 ∧
      1 * sector < 2 ^ 64 ∧ (blockCount - 1) * sector < 2 ^ 64 := by
  have h₁ := h.last_lt
  have h₂ := h.backup_le
  have h₃ := h.primary_le
  have h₄ := Fits.two_le sector n
  omega

end Fits

variable {entries : List GptEntry} {guid : Vector UInt8 16} {sector blockCount : Nat}

theorem primaryFields_inRange (guid : Vector UInt8 16) (h : Fits sector blockCount entries.length) :
    (primaryFields (blockCount - 1) guid entries).InRange := by
  have hl := h.lastLba_lt
  have hn := h.entries_le
  simp only [gptMaxEntries] at hn
  constructor <;> simp only [primaryFields] <;> omega

theorem backupFields_inRange (guid : Vector UInt8 16) (h : Fits sector blockCount entries.length) :
    (backupFields (blockCount - 1) guid entries).InRange := by
  have hl := h.lastLba_lt
  have hn := h.entries_le
  have hs := h.end_lt
  simp only [gptMaxEntries] at hn
  constructor <;> simp only [backupFields, backupEntriesLba, gptReservedLbas] at * <;> omega

/-- No two of the five windows overlap. -/
theorem pairwise_tableWrites (h : Fits sector blockCount entries.length) :
    (tableWrites sector (blockCount - 1) guid entries).Pairwise Write.Disjoint := by
  have hs := h.sector_ge
  have hh : gptHeaderSize ≤ sector := Nat.le_trans (by decide) hs
  have h₁ := h.array_le
  have h₂ := h.array_blocks
  have h₃ := h.backup_le
  have h₄ := h.primary_le
  have h₅ := Fits.two_le sector entries.length
  simp only [tableWrites, List.pairwise_cons, List.mem_cons, List.not_mem_nil, Write.Disjoint,
    forall_eq_or_imp, h.length_mbr, length_serializeEntries,
    HeaderFields.length_sealedBlock _ _ hh]
  refine ⟨⟨?_, ?_, ?_, ?_, ?_⟩, ⟨?_, ?_, ?_, ?_⟩, ⟨?_, ?_, ?_⟩, ⟨?_, ?_⟩, ?_, .nil⟩ <;>
    first | omega | simp

/-! ### Successful writes -/

section Device

variable {D : Type} [BlockDevice D]

private theorem writeProtectiveMbr_eq_ok {lastLba : Nat} {s s' : State D} {u : Unit} :
    writeProtectiveMbr lastLba s = (.ok u, s') ↔
      512 ≤ BlockDevice.blockSize s.device ∧
      writeBlocks 0 (protectiveMbr (BlockDevice.blockSize s.device) lastLba) s = (.ok (), s') := by
  simp only [writeProtectiveMbr, Prog.bind_eq_ok, Prog.get_apply, Prog.lift_eq_ok,
    Outcome.assert_eq_ok, Prod.mk.injEq, Outcome.ok.injEq]
  constructor
  · rintro ⟨_, _, ⟨rfl, rfl⟩, _, _, ⟨h, rfl⟩, hw⟩
    exact ⟨h, hw⟩
  · rintro ⟨h, hw⟩
    exact ⟨_, _, ⟨rfl, rfl⟩, (), _, ⟨h, rfl⟩, hw⟩

private theorem lastLba_eq_ok {blockCount : UInt64} {l : Nat} :
    lastLba blockCount = .ok l ↔ 0 < blockCount.toNat ∧ blockCount.toNat - 1 = l := by
  simp [lastLba, Outcome.bind_eq_ok]

private theorem writeTables_eq_ok {sector last : Nat} {arr p b : List UInt8} {s s' : State D}
    {u : Unit} :
    writeTables sector last arr p b s = (.ok u, s') ↔
      (2 * sector < 2 ^ 64 ∧ backupEntriesLba last * sector < 2 ^ 64 ∧ 1 * sector < 2 ^ 64 ∧
        last * sector < 2 ^ 64) ∧
      WritesThrough [(2 * sector, arr), (backupEntriesLba last * sector, arr), (1 * sector, p),
        (last * sector, b)] s.device s'.device ∧ s'.guidCounter = s.guidCounter := by
  simp only [writeTables, Prog.bind_eq_ok, Prog.lift_eq_ok, Outcome.mulAt_eq_ok,
    writeBlocks_eq_ok, WritesThrough]
  constructor
  · rintro ⟨_, _, ⟨⟨h₁, rfl⟩, rfl⟩, _, s₁, ⟨w₁, g₁⟩, _, _, ⟨⟨h₂, rfl⟩, rfl⟩, _, s₂, ⟨w₂, g₂⟩, _, _,
      ⟨⟨h₃, rfl⟩, rfl⟩, _, s₃, ⟨w₃, g₃⟩, _, _, ⟨⟨h₄, rfl⟩, rfl⟩, w₄, g₄⟩
    exact ⟨⟨h₁, h₂, h₃, h₄⟩, ⟨_, w₁, _, w₂, _, w₃, _, w₄, rfl⟩, by rw [g₄, g₃, g₂, g₁]⟩
  · rintro ⟨⟨h₁, h₂, h₃, h₄⟩, ⟨d₁, w₁, d₂, w₂, d₃, w₃, d₄, w₄, rfl⟩, hg⟩
    exact ⟨_, _, ⟨⟨h₁, rfl⟩, rfl⟩, (), ⟨d₁, s.guidCounter⟩, ⟨w₁, rfl⟩, _, _, ⟨⟨h₂, rfl⟩, rfl⟩, (),
      ⟨d₂, s.guidCounter⟩, ⟨w₂, rfl⟩, _, _, ⟨⟨h₃, rfl⟩, rfl⟩, (), ⟨d₃, s.guidCounter⟩, ⟨w₃, rfl⟩,
      _, _, ⟨⟨h₄, rfl⟩, rfl⟩, w₄, hg⟩

/-! ### Writes that stop early -/

/-- `write_gpt` behind the protective MBR; `lib/vfs/src/partition/gpt/write.rs:36–94`. -/
def writeBehindMbr (entries : List GptEntry) (sector last : Nat) :
    Prog (State D) GptError Unit := do
  let _ ← Prog.lift (Outcome.addAt 64 (entries.length * gptEntrySize) sector)
  Prog.lift (Outcome.ensure (entriesEndLba entries.length sector < last - gptReservedLbas) .noSpace)
  let entryArray := serializeEntries entries
  let entryArrayCrc := crc32 entryArray
  let diskGuid ← generateGuid
  let primary ← Prog.lift (buildHeader 1 last 2 entryArrayCrc last sector diskGuid entries.length)
  let backup ← Prog.lift (buildHeader last 1 (backupEntriesLba last) entryArrayCrc last sector
    diskGuid entries.length)
  writeTables sector last entryArray (finalizeHeaderCrc primary) (finalizeHeaderCrc backup)

variable {entries : List GptEntry} {s : State D}

/-- A list too long or an empty disk is refused before the first write. -/
theorem writeGpt_refused
    (h : gptMaxEntries < entries.length ∨ (BlockDevice.blockCount s.device).toNat = 0) :
    writeGpt entries s = (.err .noSpace, s) := by
  by_cases hn : entries.length ≤ gptMaxEntries
  · have hc : (BlockDevice.blockCount s.device).toNat = 0 := by omega
    rw [writeGpt, Prog.bind_of_ok (Prog.lift_eq_ok.mpr ⟨Outcome.ensure_of hn, rfl⟩),
      Prog.bind_of_ok (Prog.get_apply s)]
    apply Prog.bind_of_err
    rw [Prog.lift_apply, lastLba, Outcome.ensure, if_neg]
    · rfl
    · exact Nat.not_lt.mpr (Nat.le_of_eq hc)
  · rw [writeGpt]
    apply Prog.bind_of_err
    rw [Prog.lift_apply, Outcome.ensure_not hn]

/-- Otherwise, with room for the boot signature in a block, the protective MBR is the first
write. -/
theorem writeGpt_eq {sector last : Nat} (hn : entries.length ≤ gptMaxEntries)
    (hc : 0 < (BlockDevice.blockCount s.device).toNat) (hs : 512 ≤ sector)
    (hsector : BlockDevice.blockSize s.device = sector)
    (hlast : (BlockDevice.blockCount s.device).toNat - 1 = last) :
    writeGpt entries s = (writeBlocks 0 (protectiveMbr sector last) >>= fun _ ↦
      writeBehindMbr entries sector last) s := by
  subst hsector
  have hmbr : writeProtectiveMbr last s =
      writeBlocks 0 (protectiveMbr (BlockDevice.blockSize s.device) last) s := by
    rw [writeProtectiveMbr, Prog.bind_of_ok (Prog.get_apply s),
      Prog.bind_of_ok (Prog.lift_eq_ok.mpr ⟨Outcome.assert_of hs, rfl⟩)]
  rw [writeGpt, Prog.bind_of_ok (Prog.lift_eq_ok.mpr ⟨Outcome.ensure_of hn, rfl⟩),
    Prog.bind_of_ok (Prog.get_apply s),
    Prog.bind_of_ok (Prog.lift_eq_ok.mpr ⟨lastLba_eq_ok.mpr ⟨hc, hlast⟩, rfl⟩),
    Prog.bind_apply, hmbr]
  rfl

/-- In a smaller block the signature has no place, and the write panics. -/
theorem writeGpt_small (hn : entries.length ≤ gptMaxEntries)
    (hc : 0 < (BlockDevice.blockCount s.device).toNat)
    (hs : BlockDevice.blockSize s.device < 512) : writeGpt entries s = (.panic, s) := by
  rw [writeGpt, Prog.bind_of_ok (Prog.lift_eq_ok.mpr ⟨Outcome.ensure_of hn, rfl⟩),
    Prog.bind_of_ok (Prog.get_apply s),
    Prog.bind_of_ok (Prog.lift_eq_ok.mpr ⟨lastLba_eq_ok.mpr ⟨hc, rfl⟩, rfl⟩)]
  apply Prog.bind_of_panic
  rw [writeProtectiveMbr, Prog.bind_of_ok (Prog.get_apply s)]
  apply Prog.bind_of_panic
  rw [Prog.lift_apply, Outcome.assert_not (Nat.not_le.mpr hs)]

theorem rounded_lt {n sector : Nat} (hn : n ≤ gptMaxEntries) (hs : sector ≤ 4096) :
    n * gptEntrySize + sector < 2 ^ 64 := by
  simp only [gptMaxEntries, gptEntrySize] at *
  omega

/-- A table that does not fit is refused behind the protective MBR. -/
theorem writeBehindMbr_refused {sector last : Nat}
    (h : last - gptReservedLbas ≤ entriesEndLba entries.length sector)
    (hr : entries.length * gptEntrySize + sector < 2 ^ 64) :
    writeBehindMbr entries sector last s = (.err .noSpace, s) := by
  rw [writeBehindMbr, Prog.bind_of_ok
    (Prog.lift_eq_ok.mpr ⟨Outcome.addAt_of hr, rfl⟩)]
  apply Prog.bind_of_err
  rw [Prog.lift_apply, Outcome.ensure_not (Nat.not_lt.mpr h)]

/-! ### Writes that go through -/

/-- `write_gpt` returns `Ok` exactly when the table fits and its five writes go through. -/
theorem writeGpt_eq_ok {entries : List GptEntry} {s s' : State D} {u : Unit} :
    writeGpt entries s = (.ok u, s') ↔
      Fits (BlockDevice.blockSize s.device) (BlockDevice.blockCount s.device).toNat
        entries.length ∧
      WritesThrough (tableWrites (BlockDevice.blockSize s.device)
        ((BlockDevice.blockCount s.device).toNat - 1) (guidOf s.guidCounter) entries)
        s.device s'.device ∧ s'.guidCounter = s.guidCounter + 1 := by
  have hg : ∀ (t t' : State D) (g : Vector UInt8 16), generateGuid t = (.ok g, t') ↔
      guidOf t.guidCounter = g ∧ { t with guidCounter := t.guidCounter + 1 } = t' := by
    intro t t' g
    simp [generateGuid]
  have hpb : ∀ (last sector : Nat) (guid : Vector UInt8 16) (h : List UInt8),
      buildHeader 1 last 2 (crc32 (serializeEntries entries)) last sector guid entries.length =
        .ok h ↔ gptHeaderSize ≤ sector ∧
          (primaryFields last guid entries).block (leBytes 4 0) sector = h :=
    fun last sector guid h ↦ HeaderFields.buildHeader_eq_ok (f := primaryFields last guid entries)
  have hbb : ∀ (last sector : Nat) (guid : Vector UInt8 16) (h : List UInt8),
      buildHeader last 1 (backupEntriesLba last) (crc32 (serializeEntries entries)) last sector
        guid entries.length = .ok h ↔ gptHeaderSize ≤ sector ∧
          (backupFields last guid entries).block (leBytes 4 0) sector = h :=
    fun last sector guid h ↦ HeaderFields.buildHeader_eq_ok (f := backupFields last guid entries)
  simp only [writeGpt, Prog.bind_eq_ok, Prog.get_apply, Prog.lift_eq_ok, Outcome.ensure_eq_ok,
    lastLba_eq_ok, writeProtectiveMbr_eq_ok, Outcome.addAt_eq_ok, hg, hpb, hbb, writeTables_eq_ok,
    Prod.mk.injEq, Outcome.ok.injEq, writeBlocks_eq_ok]
  constructor
  · rintro ⟨_, _, ⟨hn, rfl⟩, _, _, ⟨rfl, rfl⟩, _, _, ⟨⟨hc, rfl⟩, rfl⟩, _, s₁, ⟨hs, w₀, g₀⟩, _, _,
      ⟨⟨hr, rfl⟩, rfl⟩, _, _, ⟨he, rfl⟩, guid, s₂, ⟨hguid, hs₂⟩, h⟩
    obtain ⟨block, _, ⟨⟨hh, hblock⟩, rfl⟩, h⟩ := h
    obtain ⟨backup, _, ⟨⟨-, hbackup⟩, rfl⟩, ⟨h₁, h₂, h₃, h₄⟩, hw, hg'⟩ := h
    subst hs₂ hguid hblock hbackup
    simp only [HeaderFields.finalizeHeaderCrc_block] at hw
    refine ⟨⟨hn, hc, hs, hr, he, h₄⟩, ⟨_, w₀, ?_⟩, ?_⟩
    · rw [← g₀]; exact hw
    · rw [hg', g₀]
  · rintro ⟨hf, ⟨d₁, w₀, hw⟩, hg'⟩
    have hh : gptHeaderSize ≤ BlockDevice.blockSize s.device :=
      Nat.le_trans (by decide) hf.sector_ge
    refine ⟨(), s, ⟨hf.entries_le, rfl⟩, s, s, ⟨rfl, rfl⟩, _, s, ⟨⟨hf.blocks_pos, rfl⟩, rfl⟩, (),
      ⟨d₁, s.guidCounter⟩, ⟨hf.sector_ge, w₀, rfl⟩, _, _, ⟨⟨hf.rounded_lt, rfl⟩, rfl⟩, (), _,
      ⟨hf.end_lt, rfl⟩, _, _, ⟨rfl, rfl⟩, _, _, ⟨⟨hh, rfl⟩, rfl⟩, _, _, ⟨⟨hh, rfl⟩, rfl⟩,
      hf.addresses, ?_, hg'⟩
    simp only [HeaderFields.finalizeHeaderCrc_block]
    exact hw
end Device

end SmallOs.Gpt
