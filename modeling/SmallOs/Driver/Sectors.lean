import SmallOs.Driver.Block
import SmallOs.Gpt.Image
import SmallOs.Ntfs.Driver

/-!
# Byte offsets and sector numbers

The filesystem layer hands the trait byte offsets, the drivers take them for sector numbers. A
watched device keeps, for each call, the offset it was given and the requests that left the
driver for it.
-/

namespace SmallOs.Driver

open SmallOs.Base SmallOs.Hal

variable {H : Type} [Controller H]

/-! ### Watching a device -/

/-- A call of the filesystem layer: the byte offset it is for, and the requests it became. -/
structure Call where
  offset : Nat
  requests : List Request

/-- A device with the calls made so far, oldest first. -/
structure Watched (H : Type) where
  device : BlockDeviceEnum (Issued H)
  calls : List Call

instance : BlockDevice (Watched H) where
  readBlocks w off buf :=
    let (r, d) := BlockDevice.readBlocks w.device off buf
    (r, ⟨d, w.calls ++ [⟨off, d.issued.drop w.device.issued.length⟩]⟩)
  writeBlocks w off buf :=
    let (r, d) := BlockDevice.writeBlocks w.device off buf
    (r, ⟨d, w.calls ++ [⟨off, d.issued.drop w.device.issued.length⟩]⟩)
  blockSize w := BlockDevice.blockSize w.device
  blockCount w := BlockDevice.blockCount w.device

/-- Every request of the call starts at the sector of the call's offset, on the disk. -/
def Call.Reaches (c : Call) (blockCount : UInt64) : Prop :=
  ∀ r ∈ c.requests, r.sector = c.offset / 512 ∧ r.sector < blockCount.toNat

theorem calls_readBlocks (w : Watched H) (off : Nat) (buf : List UInt8) :
    (BlockDevice.readBlocks w off buf).2.calls =
      w.calls ++ [⟨off, w.device.requestsFor false off buf.length⟩] := by
  change w.calls ++ [⟨off, (BlockDevice.readBlocks w.device off buf).2.issued.drop _⟩] = _
  rw [BlockDeviceEnum.issued_readBlocks, List.drop_left]

theorem calls_writeBlocks (w : Watched H) (off : Nat) (buf : List UInt8) :
    (BlockDevice.writeBlocks w off buf).2.calls =
      w.calls ++ [⟨off, w.device.requestsFor true off buf.length⟩] := by
  change w.calls ++ [⟨off, (BlockDevice.writeBlocks w.device off buf).2.issued.drop _⟩] = _
  rw [BlockDeviceEnum.issued_writeBlocks, List.drop_left]

/-! ### One call -/

/-- The offset and the sector number that the driver makes of it name the same place: the start
of the disk, or an offset beyond the 48 bits of a FIS that comes out right by wrapping. -/
def SamePlace (d : BlockDeviceEnum H) (off : Nat) : Prop :=
  (off = 0 ∨ 2 ^ 48 ≤ off ∧ d.sectorOf off = off / 512) ∧
    off / 512 < (BlockDevice.blockCount d).toNat

omit [Controller H] in
theorem sectorOf_eq_div_iff (d : BlockDeviceEnum H) (off : Nat) :
    d.sectorOf off = off / 512 ↔ off = 0 ∨ 2 ^ 48 ≤ off ∧ d.sectorOf off = off / 512 := by
  cases d with
  | virtio v =>
    simp only [BlockDeviceEnum.sectorOf]
    omega
  | ahci a =>
    simp only [BlockDeviceEnum.sectorOf, fisSector_eq]
    by_cases h : off < 2 ^ 48
    · rw [Nat.mod_eq_of_lt h]
      omega
    · constructor
      · intro heq
        exact .inr ⟨by omega, heq⟩
      · rintro (h0 | ⟨-, heq⟩)
        · exact absurd h (by omega)
        · exact heq

theorem reaches_requestsFor (d : BlockDeviceEnum H) (isWrite : Bool) (off len : Nat) :
    (Call.mk off (d.requestsFor isWrite off len)).Reaches (BlockDevice.blockCount d) ↔
      (d.accepts len → SamePlace d off) := by
  simp only [Call.Reaches, BlockDeviceEnum.requestsFor, SamePlace, ← sectorOf_eq_div_iff]
  by_cases h : d.accepts len = true
  · simp only [h, if_true, List.mem_singleton, forall_eq]
    constructor
    · rintro ⟨h₁, h₂⟩ -
      exact ⟨h₁, h₁ ▸ h₂⟩
    · intro hplace
      obtain ⟨h₁, h₂⟩ := hplace trivial
      exact ⟨h₁, h₁ ▸ h₂⟩
  · simp [h]

/-! ### The filesystem layer's operations -/

/-- What the filesystem layer does to a device: the GPT functions, and the accesses of the NTFS
driver to the boot sector and to records of the MFT. -/
inductive FsOp where
  | writeGpt (entries : List Gpt.GptEntry)
  | readGpt
  | mount (partitionByteOffset : UInt64)
  | readRecord (driver : Ntfs.NtfsDriver) (recordNumber : Nat)
  | writeRecord (driver : Ntfs.NtfsDriver) (recordNumber : Nat) (record : List UInt8)

/-- The write of an MFT record that ends each of `create_file`, `add_to_resident_index` and
`write_file`. -/
def writeRecord {D : Type} [BlockDevice D] (driver : Ntfs.NtfsDriver) (recordNumber : Nat)
    (record : List UInt8) : Prog D Ntfs.NtfsError Unit := do
  let off ← Prog.lift (driver.recordOffset recordNumber)
  Ntfs.writeBlocks off record

/-- The calls that an operation makes. -/
def FsOp.calls (d : BlockDeviceEnum (Issued H)) (counter : UInt64) : FsOp → List Call
  | writeGpt entries => (Gpt.writeGpt entries ⟨(⟨d, []⟩ : Watched H), counter⟩).2.device.calls
  | readGpt => (Gpt.readGpt ⟨(⟨d, []⟩ : Watched H), counter⟩).2.device.calls
  | mount p => (Ntfs.mount p (⟨d, []⟩ : Watched H)).2.calls
  | readRecord driver n => (Ntfs.readMftRecord driver n (⟨d, []⟩ : Watched H)).2.calls
  | writeRecord driver n record =>
      (Driver.writeRecord driver n record (⟨d, []⟩ : Watched H)).2.calls

/-- After `write_gpt` the sector that the driver reads as LBA 1 holds the primary header. -/
def PrimaryAtLbaOne (d : BlockDeviceEnum (Issued H)) (counter : UInt64)
    (entries : List Gpt.GptEntry) : Prop :=
  ∀ s, Gpt.writeGpt entries ⟨(⟨d, []⟩ : Watched H), counter⟩ = (.ok (), s) →
    ∃ guid header, Gpt.buildHeader 1 ((BlockDevice.blockCount d).toNat - 1) 2
        (Gpt.crc32 (Gpt.serializeEntries entries)) ((BlockDevice.blockCount d).toNat - 1) 512 guid
        entries.length = .ok header ∧
      (BlockDevice.readBlocks s.device 1 (List.replicate 512 0)).1 =
        .ok (Gpt.finalizeHeaderCrc header)

/-- The two layers agree on an operation: each access reaches the sector of its byte offset, on
the disk. -/
def FsOp.Agrees (d : BlockDeviceEnum (Issued H)) (counter : UInt64) (op : FsOp) : Prop :=
  (∀ c ∈ op.calls d counter, c.Reaches (BlockDevice.blockCount d)) ∧
    ∀ entries, op = .writeGpt entries → PrimaryAtLbaOne d counter entries

/-- `write_gpt` ends before anything behind the protective MBR leaves the driver. -/
def StopsAtMbr (d : BlockDeviceEnum H) (entries : List Gpt.GptEntry) : Prop :=
  Gpt.gptMaxEntries < entries.length ∨ (BlockDevice.blockCount d).toNat = 0 ∨
    (BlockDevice.blockCount d).toNat - 1 - Gpt.gptReservedLbas ≤
      Gpt.entriesEndLba entries.length 512 ∨
    ∀ d', BlockDevice.writeBlocks d 0
        (Gpt.protectiveMbr 512 ((BlockDevice.blockCount d).toNat - 1)) = (.ok (), d') →
      d'.accepts (entries.length * Gpt.gptEntrySize) = false

/-- The condition on an operation. -/
def FsOp.Harmless (d : BlockDeviceEnum (Issued H)) : FsOp → Prop
  | writeGpt entries => StopsAtMbr d entries
  | readGpt => d.accepts 512 = false
  | mount p => d.accepts 512 → SamePlace d p.toNat
  | readRecord driver n => ∀ off, driver.recordOffset n = .ok off →
      d.accepts driver.mftRecordSize → SamePlace d off
  | writeRecord driver n record => ∀ off, driver.recordOffset n = .ok off →
      d.accepts record.length → SamePlace d off

/-! ### Operations of one call -/

theorem ntfs_readBlocks_snd {D : Type} [BlockDevice D] (off len : Nat) (d : D) :
    (Ntfs.readBlocks off len d).2 = (BlockDevice.readBlocks d off (List.replicate len 0)).2 := by
  unfold Ntfs.readBlocks
  rcases BlockDevice.readBlocks d off (List.replicate len 0) with ⟨e | w, d'⟩
  · rfl
  · rfl

theorem ntfs_writeBlocks_snd {D : Type} [BlockDevice D] (off : Nat) (buf : List UInt8) (d : D) :
    (Ntfs.writeBlocks off buf d).2 = (BlockDevice.writeBlocks d off buf).2 := by
  unfold Ntfs.writeBlocks
  rcases BlockDevice.writeBlocks d off buf with ⟨e | w, d'⟩
  · rfl
  · rfl

section OneCall

variable (d : BlockDeviceEnum (Issued H))

theorem calls_mount (p : UInt64) : (Ntfs.mount p (⟨d, []⟩ : Watched H)).2.calls =
    [⟨p.toNat, d.requestsFor false p.toNat 512⟩] := by
  rw [Ntfs.mount, Prog.bind_snd, ntfs_readBlocks_snd, calls_readBlocks, List.length_replicate]
  · rfl
  · intro buf w
    rw [Prog.bind_snd, Prog.lift_apply]
    intro boot w
    rw [Prog.bind_snd, Prog.lift_apply]
    exact fun _ _ ↦ rfl

theorem calls_readMftRecord {driver : Ntfs.NtfsDriver} {n off : Nat}
    (h : driver.recordOffset n = .ok off) :
    (Ntfs.readMftRecord driver n (⟨d, []⟩ : Watched H)).2.calls =
      [⟨off, d.requestsFor false off driver.mftRecordSize⟩] := by
  rw [Ntfs.readMftRecord, Prog.bind_of_ok (Prog.lift_eq_ok.mpr ⟨h, rfl⟩), Prog.bind_snd,
    ntfs_readBlocks_snd, calls_readBlocks, List.length_replicate]
  · rfl
  · exact fun _ _ ↦ rfl

theorem calls_writeRecord {driver : Ntfs.NtfsDriver} {n off : Nat} {record : List UInt8}
    (h : driver.recordOffset n = .ok off) :
    (writeRecord driver n record (⟨d, []⟩ : Watched H)).2.calls =
      [⟨off, d.requestsFor true off record.length⟩] := by
  rw [writeRecord, Prog.bind_of_ok (Prog.lift_eq_ok.mpr ⟨h, rfl⟩), ntfs_writeBlocks_snd,
    calls_writeBlocks]
  rfl

/-- An offset that cannot be computed causes no call. -/
theorem calls_of_not_ok {driver : Ntfs.NtfsDriver} {n : Nat}
    (h : ∀ off, driver.recordOffset n ≠ .ok off) (record : List UInt8) :
    (Ntfs.readMftRecord driver n (⟨d, []⟩ : Watched H)).2.calls = [] ∧
      (writeRecord driver n record (⟨d, []⟩ : Watched H)).2.calls = [] := by
  simp only [Ntfs.readMftRecord, writeRecord, Prog.bind_apply, Prog.lift_apply]
  cases hoff : driver.recordOffset n with
  | ok off => exact absurd hoff (h off)
  | err e => exact ⟨rfl, rfl⟩
  | panic => exact ⟨rfl, rfl⟩

end OneCall

/-! ### Reading a GPT -/

theorem gpt_readBlocks_eq {D : Type} [BlockDevice D] (off : Nat) (buf : List UInt8)
    (s : Gpt.State D) : (Gpt.readBlocks off buf s).2 =
      { s with device := (BlockDevice.readBlocks s.device off buf).2 } := by
  unfold Gpt.readBlocks
  rcases BlockDevice.readBlocks s.device off buf with ⟨e | w, d'⟩
  · rfl
  · rfl

theorem gpt_writeBlocks_eq {D : Type} [BlockDevice D] (off : Nat) (buf : List UInt8)
    (s : Gpt.State D) : (Gpt.writeBlocks off buf s).2 =
      { s with device := (BlockDevice.writeBlocks s.device off buf).2 } := by
  unfold Gpt.writeBlocks
  rcases BlockDevice.writeBlocks s.device off buf with ⟨e | w, d'⟩
  · rfl
  · rfl

/-- Nothing leaves the driver: a busy port. -/
def Refusing (w : Watched H) : Prop := ∀ len, w.device.accepts len = false

/-- Calls are only ever added, and a device that refuses all of them stays as it is. -/
def Onward (s t : Gpt.State (Watched H)) : Prop :=
  s.device.calls <+: t.device.calls ∧ (Refusing s.device → t.device.device = s.device.device ∧
    ∀ c ∈ t.device.calls, c ∈ s.device.calls ∨ c.requests = [])

theorem Onward.refl (s : Gpt.State (Watched H)) : Onward s s :=
  ⟨List.prefix_refl _, fun _ ↦ ⟨rfl, fun _ ↦ .inl⟩⟩

theorem Onward.trans (s t u : Gpt.State (Watched H)) (h₁ : Onward s t) (h₂ : Onward t u) :
    Onward s u := by
  refine ⟨List.IsPrefix.trans h₁.1 h₂.1, ?_⟩
  intro hs
  obtain ⟨hd, hc⟩ := h₁.2 hs
  obtain ⟨hd', hc'⟩ := h₂.2 (by rw [Refusing, hd]; exact hs)
  refine ⟨hd'.trans hd, ?_⟩
  intro c hmem
  obtain hmem | hmem := hc' c hmem
  · exact hc c hmem
  · exact .inr hmem

private theorem requestsFor_refused {d : BlockDeviceEnum H} {isWrite : Bool} {off len : Nat}
    (h : d.accepts len = false) : d.requestsFor isWrite off len = [] := by
  rw [BlockDeviceEnum.requestsFor, h]
  rfl

theorem follows_gpt_readBlocks (off : Nat) (buf : List UInt8) :
    Prog.Follows Onward (Gpt.readBlocks off buf : Prog (Gpt.State (Watched H)) _ _) := by
  intro s
  rw [Onward, gpt_readBlocks_eq, calls_readBlocks]
  refine ⟨List.prefix_append _ _, ?_⟩
  intro hs
  constructor
  · exact congrArg Prod.snd (BlockDeviceEnum.readBlocks_refused (hs buf.length))
  · intro c hc
    rw [List.mem_append, List.mem_singleton, requestsFor_refused (hs buf.length)] at hc
    obtain hc | rfl := hc
    · exact .inl hc
    · exact .inr rfl

theorem follows_gpt_writeBlocks (off : Nat) (buf : List UInt8) :
    Prog.Follows Onward (Gpt.writeBlocks off buf : Prog (Gpt.State (Watched H)) _ _) := by
  intro s
  rw [Onward, gpt_writeBlocks_eq, calls_writeBlocks]
  refine ⟨List.prefix_append _ _, ?_⟩
  intro hs
  constructor
  · exact congrArg Prod.snd (BlockDeviceEnum.writeBlocks_refused (hs buf.length))
  · intro c hc
    rw [List.mem_append, List.mem_singleton, requestsFor_refused (hs buf.length)] at hc
    obtain hc | rfl := hc
    · exact .inl hc
    · exact .inr rfl

theorem follows_readHeaderRaw (lba sector : Nat) :
    Prog.Follows Onward (Gpt.readHeaderRaw lba sector : Prog (Gpt.State (Watched H)) _ _) := by
  unfold Gpt.readHeaderRaw
  split
  · exact Prog.follows_pure Onward.refl _
  split
  · exact Prog.follows_pure Onward.refl _
  apply Prog.follows_bind Onward.trans (Prog.follows_attempt (follows_gpt_readBlocks _ _))
  rintro (e | buf)
  · exact Prog.follows_pure Onward.refl _
  · exact Prog.follows_pure Onward.refl _

theorem follows_backupHeader (sector : Nat) :
    Prog.Follows Onward (Gpt.backupHeader sector : Prog (Gpt.State (Watched H)) _ _) := by
  apply Prog.follows_bind Onward.trans (Prog.follows_get Onward.refl)
  intro s
  apply Prog.follows_lift_bind Onward.refl
  intro _ _
  apply Prog.follows_bind Onward.trans (follows_readHeaderRaw _ _)
  rintro (_ | raw)
  · exact Prog.follows_fail Onward.refl _
  · exact Prog.follows_lift Onward.refl _

theorem follows_readEntries (sector : Nat) (h : Gpt.GptHeader) :
    Prog.Follows Onward (Gpt.readEntries sector h : Prog (Gpt.State (Watched H)) _ _) := by
  apply Prog.follows_lift_bind Onward.refl
  intro _ _
  apply Prog.follows_lift_bind Onward.refl
  intro _ _
  apply Prog.follows_lift_bind Onward.refl
  intro _ _
  apply Prog.follows_bind Onward.trans (follows_gpt_readBlocks _ _)
  intro buf
  exact Prog.follows_lift Onward.refl _

/-- The calls of a read go on from its first one, for the header at LBA 1. -/
theorem follows_readGpt (s : Gpt.State (Watched H)) :
    Onward (Gpt.readHeaderRaw 1 512 s).2 (Gpt.readGpt s).2 := by
  have hrest : ∀ raw : List UInt8, Prog.Follows Onward (do
      let header ← Prog.lift (Gpt.parseHeader raw)
      Prog.lift (Gpt.validateHeader header)
      let entries ← Gpt.readEntries 512 header
      Prog.lift (Gpt.verifyEntriesCrc entries header.partitionArrayCrc32)
      return (header, entries) : Prog (Gpt.State (Watched H)) Gpt.GptError _) := by
    intro raw
    apply Prog.follows_lift_bind Onward.refl
    intro header _
    apply Prog.follows_lift_bind Onward.refl
    intro _ _
    apply Prog.follows_bind Onward.trans (follows_readEntries _ _)
    intro entries
    apply Prog.follows_lift_bind Onward.refl
    intro _ _
    exact Prog.follows_pure Onward.refl _
  rw [Gpt.readGpt, Prog.bind_of_ok (Prog.get_apply s)]
  apply Onward.trans _ (Gpt.checkedHeader 1 512 s).2
  · rw [Gpt.checkedHeader]
    apply Prog.follows_rest Onward.refl
    rintro (_ | raw)
    · exact Prog.follows_pure Onward.refl _
    · apply Prog.follows_lift_bind Onward.refl
      rintro (e | r) _
      · exact Prog.follows_pure Onward.refl _
      · exact Prog.follows_pure Onward.refl _
  · apply Prog.follows_rest Onward.refl
    rintro (_ | ⟨raw, h⟩)
    · apply Prog.follows_bind Onward.trans (follows_backupHeader 512)
      exact hrest
    · exact hrest raw

theorem calls_readHeaderRaw (s : Gpt.State (Watched H)) :
    (Gpt.readHeaderRaw 1 512 s).2.device.calls =
      s.device.calls ++ [⟨512, s.device.device.requestsFor false 512 512⟩] := by
  rw [Gpt.readHeaderRaw, if_neg (by decide), if_neg (by decide), Prog.bind_snd,
    Prog.attempt_apply, gpt_readBlocks_eq, calls_readBlocks, List.length_replicate]
  rintro (e | buf) t
  · rfl
  · rfl

private theorem refusing_of_whole_sector {w : Watched H} (h : w.device.accepts 512 = false) :
    Refusing w := by
  intro len
  obtain ⟨d, calls⟩ := w
  cases d with
  | virtio v => cases h
  | ahci a =>
    have hready : Controller.ready a.state.controller = false := h
    simp only [BlockDeviceEnum.accepts, hready, Bool.and_false]

theorem not_samePlace_512 (d : BlockDeviceEnum H) : ¬SamePlace d 512 := by
  rintro ⟨h | ⟨h, -⟩, -⟩
  · cases h
  · exact absurd h (by decide)

/-- A read of a GPT agrees exactly when nothing leaves the driver. -/
theorem readGpt_reaches_iff (d : BlockDeviceEnum (Issued H)) (counter : UInt64) :
    (∀ c ∈ FsOp.readGpt.calls d counter, c.Reaches (BlockDevice.blockCount d)) ↔
      d.accepts 512 = false := by
  have honward := follows_readGpt (⟨⟨d, []⟩, counter⟩ : Gpt.State (Watched H))
  have hfirst := calls_readHeaderRaw (⟨⟨d, []⟩, counter⟩ : Gpt.State (Watched H))
  constructor
  · intro h
    have hmem : (⟨512, d.requestsFor false 512 512⟩ : Call) ∈
        (Gpt.readGpt (⟨⟨d, []⟩, counter⟩ : Gpt.State (Watched H))).2.device.calls := by
      apply honward.1.subset
      rw [hfirst]
      exact List.mem_singleton_self _
    have hreach := (reaches_requestsFor d false 512 512).mp (h _ hmem)
    cases hacc : d.accepts 512 with
    | false => rfl
    | true => exact absurd (hreach hacc) (not_samePlace_512 d)
  · intro h c hc r hr
    have hall := Onward.trans _ _ _ (follows_readHeaderRaw 1 512 _) honward
    obtain hc | hc := (hall.2 (refusing_of_whole_sector h)).2 c hc
    · cases hc
    · rw [hc] at hr
      cases hr

/-! ### Writing a GPT -/

section WriteGpt

variable {entries : List Gpt.GptEntry} {s s₁ : Gpt.State (Watched H)}

/-- A table that fits goes on with its primary entry array, at byte 1024. -/
private theorem behindMbr_eq {last : Nat} (h : Gpt.entriesEndLba entries.length 512 <
    last - Gpt.gptReservedLbas) (hn : entries.length ≤ Gpt.gptMaxEntries) :
    ∃ f : Unit → Prog (Gpt.State (Watched H)) Gpt.GptError Unit,
      Gpt.writeBehindMbr entries 512 last s =
        (Gpt.writeBlocks 1024 (Gpt.serializeEntries entries) >>= f)
          { s with guidCounter := s.guidCounter + 1 } ∧ ∀ u, Prog.Follows Onward (f u) := by
  have hadd : (Outcome.addAt 64 (entries.length * Gpt.gptEntrySize) 512 :
      Outcome Gpt.GptError Nat) = .ok (entries.length * Gpt.gptEntrySize + 512) := by
    simp only [Gpt.gptMaxEntries, Gpt.gptEntrySize] at *
    exact Outcome.addAt_of (by omega)
  rw [Gpt.writeBehindMbr, Prog.bind_of_ok (Prog.lift_eq_ok.mpr ⟨hadd, rfl⟩),
    Prog.bind_of_ok (Prog.lift_eq_ok.mpr ⟨Outcome.ensure_of h, rfl⟩)]
  refine ⟨_, rfl, ?_⟩
  intro u
  apply Prog.follows_lift_bind Onward.refl
  intro _ _
  apply Prog.follows_bind Onward.trans (follows_gpt_writeBlocks _ _)
  intro _
  apply Prog.follows_lift_bind Onward.refl
  intro _ _
  apply Prog.follows_bind Onward.trans (follows_gpt_writeBlocks _ _)
  intro _
  apply Prog.follows_lift_bind Onward.refl
  intro _ _
  exact follows_gpt_writeBlocks _ _

theorem gpt_writeBlocks_eq_ok {D : Type} [BlockDevice D] {off : Nat} {buf : List UInt8}
    {s : Gpt.State D} {d : D} (h : BlockDevice.writeBlocks s.device off buf = (.ok (), d)) :
    Gpt.writeBlocks off buf s = (.ok (), { s with device := d }) := by
  rw [Gpt.writeBlocks, h]

theorem gpt_writeBlocks_eq_err {D : Type} [BlockDevice D] {off : Nat} {buf : List UInt8}
    {s : Gpt.State D} {e : BlockError} {d : D}
    (h : BlockDevice.writeBlocks s.device off buf = (.error e, d)) :
    Gpt.writeBlocks off buf s = (.err .ioError, { s with device := d }) := by
  rw [Gpt.writeBlocks, h]

/-- The call on a watched device is the one on the device. -/
private theorem writeBlocks_watched (w : Watched H) (off : Nat) (buf : List UInt8) :
    BlockDevice.writeBlocks w off buf = ((BlockDevice.writeBlocks w.device off buf).1,
      ⟨(BlockDevice.writeBlocks w.device off buf).2,
        w.calls ++ [⟨off, w.device.requestsFor true off buf.length⟩]⟩) := by
  have h := calls_writeBlocks w off buf
  exact Prod.ext rfl (congrArg (Watched.mk _) h)

variable {d : BlockDeviceEnum (Issued H)}

/-- The call of the protective MBR. -/
private theorem writeBlocks_mbr (d : BlockDeviceEnum (Issued H)) (last : Nat) :
    BlockDevice.writeBlocks (⟨d, []⟩ : Watched H) 0 (Gpt.protectiveMbr 512 last) =
      ((BlockDevice.writeBlocks d 0 (Gpt.protectiveMbr 512 last)).1,
        ⟨(BlockDevice.writeBlocks d 0 (Gpt.protectiveMbr 512 last)).2,
          [⟨0, d.requestsFor true 0 512⟩]⟩) := by
  rw [writeBlocks_watched, Gpt.length_protectiveMbr last (Nat.le_refl 512)]
  rfl

/-- What is known of the calls of a table that stops at the MBR. -/
private def OnlyMbr (d : BlockDeviceEnum (Issued H)) (c : Call) : Prop :=
  c.requests = [] ∨ c = ⟨0, d.requestsFor true 0 512⟩ ∧ 0 < (BlockDevice.blockCount d).toNat

/-- A table that stops at the MBR is refused, and only the MBR may leave the driver. -/
private theorem writeGpt_stops (counter : UInt64) (h : StopsAtMbr d entries) :
    ∃ r s', Gpt.writeGpt entries ⟨(⟨d, []⟩ : Watched H), counter⟩ = (r, s') ∧ r ≠ .ok () ∧
      ∀ c ∈ s'.device.calls, OnlyMbr d c := by
  by_cases hpre : Gpt.gptMaxEntries < entries.length ∨ (BlockDevice.blockCount d).toNat = 0
  · exact ⟨_, _, Gpt.writeGpt_refused hpre, nofun, nofun⟩
  have hn : entries.length ≤ Gpt.gptMaxEntries := by omega
  have hc : 0 < (BlockDevice.blockCount d).toNat := by omega
  have hmbr := writeBlocks_mbr d ((BlockDevice.blockCount d).toNat - 1)
  rw [Gpt.writeGpt_eq hn hc (show 512 ≤ 512 by decide) rfl rfl]
  rcases hw : BlockDevice.writeBlocks d 0
    (Gpt.protectiveMbr 512 ((BlockDevice.blockCount d).toNat - 1)) with ⟨e | u, d'⟩
  · rw [hw] at hmbr
    refine ⟨_, _, Prog.bind_of_err (gpt_writeBlocks_eq_err hmbr), nofun, ?_⟩
    intro c hmem
    rw [List.mem_singleton] at hmem
    exact .inr ⟨hmem, hc⟩
  · rw [hw] at hmbr
    by_cases hfit : (BlockDevice.blockCount d).toNat - 1 - Gpt.gptReservedLbas ≤
        Gpt.entriesEndLba entries.length 512
    · refine ⟨_, _, (Prog.bind_of_ok (gpt_writeBlocks_eq_ok hmbr)).trans
        (Gpt.writeBehindMbr_refused hfit (Gpt.rounded_lt hn (by decide))), nofun, ?_⟩
      intro c hmem
      rw [List.mem_singleton] at hmem
      exact .inr ⟨hmem, hc⟩
    · obtain h | h | h | h := h
      · exact absurd (.inl h) hpre
      · exact absurd (.inr h) hpre
      · exact absurd h hfit
      have hacc := h d' hw
      obtain ⟨f, hf, -⟩ := behindMbr_eq
        (s := ⟨⟨d', [⟨0, d.requestsFor true 0 512⟩]⟩, counter⟩) (Nat.not_le.mp hfit) hn
      rw [← Gpt.length_serializeEntries] at hacc
      have harr : BlockDevice.writeBlocks (⟨d', [⟨0, d.requestsFor true 0 512⟩]⟩ : Watched H) 1024
          (Gpt.serializeEntries entries) = (.error .writeError, ⟨d',
            [⟨0, d.requestsFor true 0 512⟩, ⟨1024, []⟩]⟩) := by
        rw [writeBlocks_watched, BlockDeviceEnum.writeBlocks_refused hacc, requestsFor_refused hacc]
        rfl
      refine ⟨_, _, (Prog.bind_of_ok (gpt_writeBlocks_eq_ok hmbr)).trans
        (hf.trans (Prog.bind_of_err (gpt_writeBlocks_eq_err harr))), nofun, ?_⟩
      intro c hmem
      rw [List.mem_cons, List.mem_singleton] at hmem
      obtain rfl | rfl := hmem
      · exact .inr ⟨rfl, hc⟩
      · exact .inl rfl

/-- Otherwise the first write behind the MBR leaves the driver with byte offset 1024. -/
private theorem writeGpt_goes_on (counter : UInt64) (h : ¬StopsAtMbr d entries) :
    ∃ d' : BlockDeviceEnum (Issued H), d'.accepts (entries.length * Gpt.gptEntrySize) = true ∧
      ⟨1024, d'.requestsFor true 1024 (entries.length * Gpt.gptEntrySize)⟩ ∈
        (FsOp.writeGpt entries).calls d counter := by
  simp only [StopsAtMbr, not_or, Classical.not_forall, Nat.not_lt, Nat.not_le] at h
  obtain ⟨hn, hc, hfit, d', hw, hacc⟩ := h
  refine ⟨d', by simpa using hacc, ?_⟩
  have hmbr := writeBlocks_mbr d ((BlockDevice.blockCount d).toNat - 1)
  rw [hw] at hmbr
  obtain ⟨f, hf, hgrow⟩ := behindMbr_eq
    (s := ⟨⟨d', [⟨0, d.requestsFor true 0 512⟩]⟩, counter⟩) hfit hn
  have hrest := (Prog.follows_rest Onward.refl hgrow
    (Gpt.writeBlocks 1024 (Gpt.serializeEntries entries))
    ⟨⟨d', [⟨0, d.requestsFor true 0 512⟩]⟩, counter + 1⟩).1
  have hrun : Gpt.writeGpt entries ⟨(⟨d, []⟩ : Watched H), counter⟩ =
      (Gpt.writeBlocks 1024 (Gpt.serializeEntries entries) >>= f)
        ⟨⟨d', [⟨0, d.requestsFor true 0 512⟩]⟩, counter + 1⟩ :=
    (Gpt.writeGpt_eq hn (Nat.pos_of_ne_zero hc) (show 512 ≤ 512 by decide) rfl rfl).trans
      ((Prog.bind_of_ok (gpt_writeBlocks_eq_ok hmbr)).trans hf)
  rw [FsOp.calls, hrun]
  apply hrest.subset
  rw [gpt_writeBlocks_eq, calls_writeBlocks, Gpt.length_serializeEntries]
  exact List.mem_append_right _ (List.mem_singleton_self _)

end WriteGpt

/-! ### Agreement -/

/-- A write of a GPT agrees exactly when it stops at the MBR. -/
theorem writeGpt_agrees_iff (d : BlockDeviceEnum (Issued H)) (counter : UInt64)
    (entries : List Gpt.GptEntry) :
    (FsOp.writeGpt entries).Agrees d counter ↔ StopsAtMbr d entries := by
  constructor
  · rintro ⟨h, -⟩
    apply Classical.byContradiction
    intro hgo
    obtain ⟨d', hacc, hmem⟩ := writeGpt_goes_on counter hgo
    have hreach := h _ hmem ⟨true, d'.sectorOf 1024, _⟩ (by
      rw [BlockDeviceEnum.requestsFor, if_pos hacc]
      exact List.mem_singleton_self _)
    obtain h0 | ⟨h0, -⟩ := (sectorOf_eq_div_iff d' 1024).mp hreach.1
    · cases h0
    · exact absurd h0 (by decide)
  · intro h
    obtain ⟨r, s', hrun, hne, hcalls⟩ := writeGpt_stops counter h
    constructor
    · intro c hc
      rw [FsOp.calls, hrun] at hc
      obtain hnil | ⟨rfl, hpos⟩ := hcalls c hc
      · intro r hr
        rw [hnil] at hr
        cases hr
      · exact (reaches_requestsFor d true 0 512).mpr fun _ ↦ ⟨.inl rfl, hpos⟩
    · intro entries' heq s hok
      cases heq
      rw [hrun] at hok
      exact absurd (congrArg Prod.fst hok) hne

/-- Each operation of the filesystem layer agrees with the drivers exactly on its condition. -/
theorem agrees_iff_harmless (d : BlockDeviceEnum (Issued H)) (counter : UInt64) (op : FsOp) :
    op.Agrees d counter ↔ op.Harmless d := by
  have hone : ∀ {c : Call}, (∀ c' ∈ [c], c'.Reaches (BlockDevice.blockCount d)) ↔
      c.Reaches (BlockDevice.blockCount d) := by
    intro c
    simp only [List.mem_singleton, forall_eq]
  cases op with
  | writeGpt entries => exact writeGpt_agrees_iff d counter entries
  | readGpt =>
    rw [FsOp.Agrees, FsOp.Harmless, readGpt_reaches_iff]
    exact and_iff_left nofun
  | mount p =>
    rw [FsOp.Agrees, FsOp.Harmless, FsOp.calls, calls_mount, hone, reaches_requestsFor]
    exact and_iff_left nofun
  | readRecord driver n =>
    rw [FsOp.Agrees, FsOp.Harmless, FsOp.calls, and_iff_left nofun]
    by_cases hoff : ∃ off, driver.recordOffset n = .ok off
    · obtain ⟨off, hoff⟩ := hoff
      rw [calls_readMftRecord d hoff, hone, reaches_requestsFor, hoff]
      simp only [Outcome.ok.injEq, forall_eq']
    · rw [(calls_of_not_ok d (fun off h ↦ hoff ⟨off, h⟩) []).1]
      exact iff_of_true nofun fun off h ↦ absurd ⟨off, h⟩ hoff
  | writeRecord driver n record =>
    rw [FsOp.Agrees, FsOp.Harmless, FsOp.calls, and_iff_left nofun]
    by_cases hoff : ∃ off, driver.recordOffset n = .ok off
    · obtain ⟨off, hoff⟩ := hoff
      rw [calls_writeRecord d hoff, hone, reaches_requestsFor, hoff]
      simp only [Outcome.ok.injEq, forall_eq']
    · rw [(calls_of_not_ok d (fun off h ↦ hoff ⟨off, h⟩) record).2]
      exact iff_of_true nofun fun off h ↦ absurd ⟨off, h⟩ hoff

/-- A controller of a disk that keeps nothing and answers every read with zeros. -/
instance : Controller Unit where
  ready _ := true
  transfer h _ _ := ((true, fun _ ↦ 0), h)

/-- On a virtio disk of a hundred sectors an empty table sends its primary entry array to
sector 1024, not to LBA 2. -/
theorem not_agrees_writeGpt_empty :
    ¬(FsOp.writeGpt []).Agrees (.virtio ⟨(⟨(), []⟩ : Issued Unit), 100⟩) 0 := by
  rw [writeGpt_agrees_iff]
  rintro (h | h | h | h)
  · exact absurd h (by decide)
  · exact absurd h (by decide)
  · exact absurd h (by decide)
  · exact absurd (h _ rfl) nofun

end SmallOs.Driver
