import SmallOs.Gpt.Backup

/-!
# Crashes during an update

`write_gpt` replaces the entry arrays of both copies before it replaces a header. A recorded
store keeps the image after each write, so every prefix of the writes has its image in the record.
-/

namespace SmallOs.Gpt

open SmallOs.Base SmallOs.Hal

/-! ### Images -/

/-- A store with the images that a crash can leave, oldest first. -/
structure Recorded where
  store : ByteStore
  images : List ByteStore

instance : BlockDevice Recorded where
  readBlocks t off buf :=
    let (r, d) := BlockDevice.readBlocks t.store off buf
    (r, ⟨d, t.images⟩)
  writeBlocks t off data :=
    let (r, d) := BlockDevice.writeBlocks t.store off data
    (r, ⟨d, t.images ++ [d]⟩)
  blockSize t := t.store.blockSize
  blockCount t := t.store.blockCount

/-- The images that a crash of `write_gpt` can leave: the one in front of the first write and
the one behind each. -/
def crashImages (d : ByteStore) (counter : UInt64) (entries : List GptEntry) : List ByteStore :=
  (writeGpt entries ⟨(⟨d, [d]⟩ : Recorded), counter⟩).2.device.images

theorem writeBlocks_recorded {d d₁ : ByteStore} {off : Nat} {data : List UInt8}
    (h : BlockDevice.writeBlocks d off data = (.ok (), d₁)) (log : List ByteStore) :
    BlockDevice.writeBlocks (⟨d, log⟩ : Recorded) off data = (.ok (), ⟨d₁, log ++ [d₁]⟩) := by
  change ((BlockDevice.writeBlocks d off data).1, (⟨(BlockDevice.writeBlocks d off data).2,
    log ++ [(BlockDevice.writeBlocks d off data).2]⟩ : Recorded)) = _
  rw [h]

/-- Recorded writes leave the image behind each prefix of them. -/
theorem writesThrough_recorded {ws : List Write} {d d' : ByteStore} (h : WritesThrough ws d d')
    (log : List ByteStore) :
    ∃ images, WritesThrough ws (⟨d, log⟩ : Recorded) ⟨d', log ++ images⟩ ∧
      ∀ i, i ∈ d :: images ↔ ∃ k, WritesThrough (ws.take k) d i := by
  induction ws generalizing d log with
  | nil =>
    refine ⟨[], ?_, ?_⟩
    · rw [show d = d' from h, List.append_nil]
      rfl
    · intro i
      rw [List.mem_singleton]
      constructor
      · rintro rfl
        exact ⟨0, rfl⟩
      · rintro ⟨k, hk⟩
        rw [List.take_nil] at hk
        exact (show d = i from hk).symm
  | cons w ws ih =>
    obtain ⟨d₁, hw, hr⟩ := h
    obtain ⟨images, hrest, hmem⟩ := ih hr (log ++ [d₁])
    refine ⟨d₁ :: images, ⟨⟨d₁, log ++ [d₁]⟩, writeBlocks_recorded hw log, ?_⟩, ?_⟩
    · rwa [List.append_assoc] at hrest
    · intro i
      rw [List.mem_cons, hmem]
      constructor
      · rintro (rfl | ⟨k, hk⟩)
        · exact ⟨0, rfl⟩
        · exact ⟨k + 1, d₁, hw, hk⟩
      · rintro ⟨k, hk⟩
        cases k with
        | zero => exact .inl (show d = i from hk).symm
        | succ k =>
          obtain ⟨d₂, hw₂, hk⟩ := hk
          obtain rfl : d₁ = d₂ := congrArg Prod.snd (hw.symm.trans hw₂)
          exact .inr ⟨k, hk⟩

/-! ### Copies -/

/-- The table that the copy with its header at `lba` describes, when header and array pass
their checksums. -/
def copyAt (d : ByteStore) (lba : Nat) : Option (List GptEntry) :=
  (headerAt d lba d.blockSize).bind fun r ↦
    match tableOf d d.blockSize r.2 with
    | .ok (_, entries) => some entries
    | _ => none

/-- Both copies are valid and describe the table. -/
structure ValidGpt (d : ByteStore) (entries : List GptEntry) : Prop where
  primary : copyAt d 1 = some entries
  backup : copyAt d (d.blockCount.toNat - 1) = some entries

/-- One of the two copies is valid and describes one of the two tables. -/
def Usable (d : ByteStore) (old new : List GptEntry) : Prop :=
  ∃ lba, (lba = 1 ∨ lba = d.blockCount.toNat - 1) ∧
    (copyAt d lba = some old ∨ copyAt d lba = some new)

/-- Every crash of the update leaves a usable copy. -/
def SurvivesCrash (d : ByteStore) (counter : UInt64) (old new : List GptEntry) : Prop :=
  ∀ image ∈ crashImages d counter new, Usable image old new

theorem copyAt_eq_some {d : ByteStore} {lba : Nat} {entries : List GptEntry} :
    copyAt d lba = some entries ↔ ∃ raw h, headerAt d lba d.blockSize = some (raw, h) ∧
      tableOf d d.blockSize h = .ok (h, entries) := by
  rw [copyAt, Option.bind_eq_some_iff]
  constructor
  · rintro ⟨⟨raw, h⟩, hh, ht⟩
    refine ⟨raw, h, hh, ?_⟩
    cases htab : tableOf d d.blockSize h with
    | ok r =>
      obtain ⟨header, es⟩ := r
      rw [htab] at ht
      cases ht
      rw [header_of_tableOf htab]
    | err e =>
      rw [htab] at ht
      cases ht
    | panic =>
      rw [htab] at ht
      cases ht
  · rintro ⟨raw, h, hh, ht⟩
    exact ⟨(raw, h), hh, by rw [ht]⟩

/-- Where a header says that its entries are. -/
def arrayOffset (d : ByteStore) (h : GptHeader) : Nat := h.partitionEntryLba.toNat * d.blockSize

/-- How long it says that they are. -/
def arrayLength (h : GptHeader) : Nat := h.numPartitionEntries.toNat * gptEntrySize

/-- The table of a header is the content of its array, with the checksum of the header. -/
theorem tableOf_eq_ok {d : ByteStore} {h : GptHeader} {entries : List GptEntry} :
    tableOf d d.blockSize h = .ok (h, entries) ↔
      h.partitionEntrySize.toNat = gptEntrySize ∧
      h.numPartitionEntries.toNat ≤ gptMaxEntries * 4 ∧ arrayOffset d h < 2 ^ 64 ∧
      d.read (arrayOffset d h) (arrayLength h) = some (serializeEntries entries) ∧
      crc32 (serializeEntries entries) = h.partitionArrayCrc32 := by
  simp only [tableOf, entriesAt, verifyEntriesCrc, Outcome.bind_eq_ok, Outcome.ensure_eq_ok,
    Outcome.ofOption_eq_ok, Outcome.pure_eq_ok, Outcome.ok.injEq, Prod.mk.injEq, true_and,
    arrayOffset, arrayLength]
  constructor
  · rintro ⟨es, ⟨-, hsize, -, hcount, -, hoff, buf, hread, hparse⟩, -, hcrc, rfl⟩
    rw [hsize] at hread
    have hl : buf.length = h.numPartitionEntries.toNat * gptEntrySize := by
      obtain ⟨hle, rfl⟩ := ByteStore.read_eq_some.mp hread
      exact length_slice _ _ _ hle
    rw [serializeEntries_of_parse hl hparse]
    refine ⟨hsize, hcount, hoff, hread, ?_⟩
    rwa [serializeEntries_of_parse hl hparse] at hcrc
  · rintro ⟨hsize, hcount, hoff, hread, hcrc⟩
    rw [hsize]
    exact ⟨entries, ⟨(), rfl, (), hcount, (), hoff, _, hread,
      mapM_parseGptEntry_serializeEntries entries⟩, (), hcrc, rfl⟩

/-! ### The planned writes -/

/-- The writes of `write_gpt` as far as it gets on a store with a last block. -/
def plannedWrites (d : ByteStore) (counter : UInt64) (entries : List GptEntry) : List Write :=
  if gptMaxEntries < entries.length ∨ d.blockSize < 512 then []
  else if entriesEndLba entries.length d.blockSize < d.blockCount.toNat - 1 - gptReservedLbas then
    tableWrites d.blockSize (d.blockCount.toNat - 1) (guidOf counter) entries
  else [(0, protectiveMbr d.blockSize (d.blockCount.toNat - 1))]

/-- What a store with two valid copies looks like. -/
structure Geometry (d : ByteStore) : Prop where
  header_le : gptHeaderSize ≤ d.blockSize
  size_le : d.blockSize ≤ 4096
  two_le : 2 ≤ d.blockCount.toNat
  last_lt : (d.blockCount.toNat - 1) * d.blockSize < 2 ^ 64

theorem ValidGpt.geometry {d : ByteStore} {entries : List GptEntry} (h : ValidGpt d entries) :
    Geometry d := by
  obtain ⟨raw, header, hh, -⟩ := copyAt_eq_some.mp h.primary
  obtain ⟨raw', header', hh', -⟩ := copyAt_eq_some.mp h.backup
  obtain ⟨block, hraw, hv⟩ := headerAt_eq_some.mp hh
  obtain ⟨block', hraw', -⟩ := headerAt_eq_some.mp hh'
  have hlim : ∀ {lba : Nat} {b : List UInt8}, rawHeader d lba d.blockSize = some b →
      d.blockSize ≤ 4096 ∧ lba * d.blockSize < 2 ^ 64 := by
    intro lba b hb
    unfold rawHeader at hb
    split at hb
    · cases hb
    · omega
  have hread := read_of_rawHeader hraw
  obtain ⟨hle, hslice⟩ := ByteStore.read_eq_some.mp hread
  have hlen : block.length = d.blockSize := by
    rw [← hslice]
    exact length_slice _ _ _ hle
  have hsize : gptHeaderSize ≤ d.blockSize := by
    simp only [parseAndVerifyHeader, Outcome.bind_eq_ok, Outcome.ensure_eq_ok] at hv
    obtain ⟨-, hl, -⟩ := hv
    rwa [hlen] at hl
  refine ⟨hsize, (hlim hraw).1, ?_, (hlim hraw').2⟩
  rw [d.length_bytes, Nat.one_mul, ← Nat.mul_two] at hle
  exact Nat.le_of_mul_le_mul_left hle (Nat.lt_of_lt_of_le (by decide) hsize)

theorem Geometry.fits {d : ByteStore} {entries : List GptEntry} (h : Geometry d)
    (hn : entries.length ≤ gptMaxEntries) (hs : 512 ≤ d.blockSize)
    (hfit : entriesEndLba entries.length d.blockSize <
      d.blockCount.toNat - 1 - gptReservedLbas) :
    Fits d.blockSize d.blockCount.toNat entries.length :=
  ⟨hn, Nat.lt_of_lt_of_le (by decide) h.two_le, hs, rounded_lt hn h.size_le, hfit, h.last_lt⟩

/-- The planned writes are issued, and the images are those behind each prefix of them. -/
theorem mem_crashImages {d : ByteStore} (hg : Geometry d) (counter : UInt64)
    (entries : List GptEntry) (image : ByteStore) :
    image ∈ crashImages d counter entries ↔
      ∃ k, WritesThrough ((plannedWrites d counter entries).take k) d image := by
  have hpos : 0 < d.blockCount.toNat := Nat.lt_of_lt_of_le (by decide) hg.two_le
  have hlast := ByteStore.length_last hpos
  have hnone : image ∈ [d] ↔ ∃ k, WritesThrough (([] : List Write).take k) d image := by
    simp only [List.mem_singleton, List.take_nil, exists_const]
    exact eq_comm
  unfold crashImages plannedWrites
  by_cases hn : entries.length ≤ gptMaxEntries
  case neg =>
    rw [if_pos (by omega), writeGpt_refused (.inl (Nat.not_le.mp hn))]
    exact hnone
  by_cases hs : 512 ≤ d.blockSize
  case neg =>
    rw [if_pos (by omega), writeGpt_small hn hpos (Nat.not_le.mp hs)]
    exact hnone
  rw [if_neg (by omega)]
  have hmbr := length_protectiveMbr (d.blockCount.toNat - 1) hs
  by_cases hfit : entriesEndLba entries.length d.blockSize <
      d.blockCount.toNat - 1 - gptReservedLbas
  · rw [if_pos hfit]
    have hf := hg.fits hn hs hfit
    obtain ⟨s', hrun⟩ := writeGpt_of_fits entries ⟨d, counter⟩ hf
    obtain ⟨-, ht, hc⟩ := writeGpt_eq_ok.mp hrun
    obtain ⟨images, hrec, hmem⟩ := writesThrough_recorded ht [d]
    have hrun' : writeGpt entries ⟨(⟨d, [d]⟩ : Recorded), counter⟩ =
        (.ok (), ⟨⟨s'.device, [d] ++ images⟩, s'.guidCounter⟩) :=
      writeGpt_eq_ok.mpr ⟨hf, hrec, hc⟩
    rw [hrun']
    exact hmem image
  · rw [if_neg hfit]
    obtain ⟨d₁, hw, -⟩ := ByteStore.write_of_le d 0
      (protectiveMbr d.blockSize (d.blockCount.toNat - 1)) (by omega)
    have ht : WritesThrough [(0, protectiveMbr d.blockSize (d.blockCount.toNat - 1))] d d₁ :=
      ⟨d₁, byteStore_writeBlocks_eq_ok.mpr hw, rfl⟩
    obtain ⟨images, ⟨t, hrec, hend⟩, hmem⟩ := writesThrough_recorded ht [d]
    obtain rfl : t = ⟨d₁, [d] ++ images⟩ := hend
    have hfirst : writeBlocks 0 (protectiveMbr d.blockSize (d.blockCount.toNat - 1))
        (⟨⟨d, [d]⟩, counter⟩ : State Recorded) = (.ok (), ⟨⟨d₁, [d] ++ images⟩, counter⟩) :=
      writeBlocks_eq_ok.mpr ⟨hrec, rfl⟩
    have hrun : writeGpt entries (⟨⟨d, [d]⟩, counter⟩ : State Recorded) =
        (.err .noSpace, ⟨⟨d₁, [d] ++ images⟩, counter⟩) :=
      (writeGpt_eq hn hpos hs rfl rfl).trans ((Prog.bind_of_ok hfirst).trans
        (writeBehindMbr_refused (Nat.not_lt.mp hfit) (rounded_lt hn hg.size_le)))
    rw [hrun]
    exact hmem image

/-! ### Copies through the writes -/

/-- The first three planned writes leave the blocks of both headers alone. -/
theorem read_header_early {d d₁ : ByteStore} (hg : Geometry d) {counter : UInt64}
    {entries : List GptEntry} {k : Nat} (hk : k ≤ 3)
    (ht : WritesThrough ((plannedWrites d counter entries).take k) d d₁) {lba : Nat}
    (hlba : lba = 1 ∨ lba = d.blockCount.toNat - 1) :
    d₁.read (lba * d.blockSize) d.blockSize = d.read (lba * d.blockSize) d.blockSize := by
  have hbehind : d.blockSize ≤ lba * d.blockSize := by
    apply Nat.le_mul_of_pos_left
    have := hg.two_le
    omega
  unfold plannedWrites at ht
  by_cases hstop : gptMaxEntries < entries.length ∨ d.blockSize < 512
  · rw [if_pos hstop, List.take_nil] at ht
    rw [show d = d₁ from ht]
  rw [if_neg hstop] at ht
  have hmbr := length_protectiveMbr (d.blockCount.toNat - 1) (show 512 ≤ d.blockSize by omega)
  by_cases hfit : entriesEndLba entries.length d.blockSize <
      d.blockCount.toNat - 1 - gptReservedLbas
  · rw [if_pos hfit] at ht
    have hf := hg.fits (by omega) (by omega) hfit
    have h₁ := hf.array_le
    have h₂ := hf.array_blocks
    have h₃ := hf.backup_le
    have h₄ := hf.primary_le
    have h₅ := Fits.two_le d.blockSize entries.length
    have hplace : lba * d.blockSize = d.blockSize ∨
        lba * d.blockSize = (d.blockCount.toNat - 1) * d.blockSize := by
      obtain rfl | rfl := hlba
      · exact .inl (Nat.one_mul _)
      · exact .inr rfl
    apply ht.read_other
    intro w hw
    rw [← Nat.min_eq_left hk, ← List.take_take] at hw
    have hw := List.mem_of_mem_take hw
    simp only [tableWrites, List.take_succ_cons, List.take_zero, List.mem_cons, List.not_mem_nil,
      or_false] at hw
    obtain rfl | rfl | rfl := hw
    · exact .inr (by simp only [hmbr]; omega)
    · simp only [length_serializeEntries]
      omega
    · simp only [length_serializeEntries]
      omega
  · rw [if_neg hfit] at ht
    apply ht.read_other
    intro w hw
    rw [List.mem_singleton.mp (List.mem_of_mem_take hw)]
    exact .inr (by simp only [hmbr]; omega)

theorem headerAt_congr {d d₁ : ByteStore} {lba sector : Nat}
    (h : d₁.read (lba * sector) sector = d.read (lba * sector) sector) :
    headerAt d₁ lba sector = headerAt d lba sector := by
  rw [headerAt, headerAt, rawHeader, rawHeader, h]

/-- The array of one of the two old copies holds the old entries, or new ones that its header
accepts. -/
def KeepsArray (d d₁ : ByteStore) (old new : List GptEntry) : Prop :=
  ∃ lba raw h, (lba = 1 ∨ lba = d.blockCount.toNat - 1) ∧
    headerAt d lba d.blockSize = some (raw, h) ∧
    (d₁.read (arrayOffset d h) (arrayLength h) = some (serializeEntries old) ∨
      (d₁.read (arrayOffset d h) (arrayLength h) = some (serializeEntries new) ∧
        crc32 (serializeEntries new) = h.partitionArrayCrc32))

/-- With both old headers in place, a copy is usable exactly when its array is kept. -/
theorem usable_iff_keepsArray {d d₁ : ByteStore} {old new : List GptEntry} (hv : ValidGpt d old)
    (hs : d₁.blockSize = d.blockSize) (hc : d₁.blockCount = d.blockCount)
    (hh : ∀ lba, (lba = 1 ∨ lba = d.blockCount.toNat - 1) →
      headerAt d₁ lba d.blockSize = headerAt d lba d.blockSize) :
    Usable d₁ old new ↔ KeepsArray d d₁ old new := by
  have hold : ∀ lba raw h, (lba = 1 ∨ lba = d.blockCount.toNat - 1) →
      headerAt d lba d.blockSize = some (raw, h) → tableOf d d.blockSize h = .ok (h, old) := by
    intro lba raw h hlba hat
    have hcopy : copyAt d lba = some old := by
      obtain rfl | rfl := hlba
      · exact hv.primary
      · exact hv.backup
    obtain ⟨raw', h', hat', ht⟩ := copyAt_eq_some.mp hcopy
    rw [hat] at hat'
    cases hat'
    exact ht
  have hoff : ∀ h, arrayOffset d₁ h = arrayOffset d h := by
    intro h
    rw [arrayOffset, arrayOffset, hs]
  simp only [Usable, copyAt_eq_some, hs, hc, KeepsArray]
  constructor
  · rintro ⟨lba, hlba, ⟨raw, h, hat, ht⟩ | ⟨raw, h, hat, ht⟩⟩
    · rw [hh lba hlba] at hat
      rw [← hs, tableOf_eq_ok, hoff] at ht
      exact ⟨lba, raw, h, hlba, hat, .inl ht.2.2.2.1⟩
    · rw [hh lba hlba] at hat
      rw [← hs, tableOf_eq_ok, hoff] at ht
      exact ⟨lba, raw, h, hlba, hat, .inr ht.2.2.2⟩
  · rintro ⟨lba, raw, h, hlba, hat, hread⟩
    obtain ⟨hsize, hcount, hlt, -, hcrc⟩ := tableOf_eq_ok.mp (hold lba raw h hlba hat)
    refine ⟨lba, hlba, ?_⟩
    rw [hh lba hlba]
    obtain hread | ⟨hread, hnew⟩ := hread
    · refine .inl ⟨raw, h, hat, ?_⟩
      rw [← hs, tableOf_eq_ok, hoff]
      exact ⟨hsize, hcount, hlt, hread, hcrc⟩
    · refine .inr ⟨raw, h, hat, ?_⟩
      rw [← hs, tableOf_eq_ok, hoff]
      exact ⟨hsize, hcount, hlt, hread, hnew⟩

/-- From its fourth write on, the new primary copy is complete. -/
theorem usable_late {d d₁ : ByteStore} (hg : Geometry d) {counter : UInt64}
    {old new : List GptEntry} {k : Nat} (hk : 4 ≤ k)
    (hlen : 4 ≤ (plannedWrites d counter new).length)
    (ht : WritesThrough ((plannedWrites d counter new).take k) d d₁) : Usable d₁ old new := by
  obtain ⟨hs, hc⟩ := ht.geometry
  unfold plannedWrites at hlen ht
  by_cases hstop : gptMaxEntries < new.length ∨ d.blockSize < 512
  · rw [if_pos hstop] at hlen
    exact absurd hlen (by decide)
  rw [if_neg hstop] at hlen ht
  by_cases hfit : entriesEndLba new.length d.blockSize < d.blockCount.toNat - 1 - gptReservedLbas
  case neg =>
    rw [if_neg hfit] at hlen
    exact absurd hlen (show ¬4 ≤ 1 by decide)
  rw [if_pos hfit] at ht
  have hf := hg.fits (by omega) (by omega) hfit
  have hpair : ((tableWrites d.blockSize (d.blockCount.toNat - 1) (guidOf counter) new).take
      k).Pairwise Write.Disjoint := (pairwise_tableWrites hf).sublist (List.take_sublist k _)
  have hback : ∀ w ∈ (tableWrites d.blockSize (d.blockCount.toNat - 1) (guidOf counter) new).take 4,
      d₁.read w.1 w.2.length = some w.2 := by
    intro w hw
    apply ht.read_back hpair
    rw [← Nat.min_eq_left hk, ← List.take_take] at hw
    exact List.mem_of_mem_take hw
  have hcopy : HoldsCopy d₁ d.blockSize
      (primaryFields (d.blockCount.toNat - 1) (guidOf counter) new) new := by
    have hheader := hback (1 * d.blockSize, (primaryFields (d.blockCount.toNat - 1)
      (guidOf counter) new).sealedBlock d.blockSize) (by simp [tableWrites])
    have harray := hback (2 * d.blockSize, serializeEntries new) (by simp [tableWrites])
    rw [HeaderFields.length_sealedBlock _ _ hg.header_le] at hheader
    rw [length_serializeEntries] at harray
    exact ⟨hheader, harray⟩
  obtain ⟨hat, htab⟩ := hcopy.primary hf hg.size_le
  refine ⟨1, .inl rfl, .inr (copyAt_eq_some.mpr ?_)⟩
  rw [hs]
  exact ⟨_, _, hat, htab⟩

/-- One of the two old arrays is kept through the first three writes. -/
def KeepsArrays (d : ByteStore) (counter : UInt64) (old new : List GptEntry) : Prop :=
  ∀ k d₁, k ≤ 3 → WritesThrough ((plannedWrites d counter new).take k) d d₁ →
    KeepsArray d d₁ old new

/-- Up to the third write a copy is usable exactly when its array is kept. -/
theorem usable_early_iff {d d₁ : ByteStore} {old new : List GptEntry} (hv : ValidGpt d old)
    {counter : UInt64} {k : Nat} (hk : k ≤ 3)
    (ht : WritesThrough ((plannedWrites d counter new).take k) d d₁) :
    Usable d₁ old new ↔ KeepsArray d d₁ old new := by
  obtain ⟨hs, hc⟩ := ht.geometry
  apply usable_iff_keepsArray hv hs hc
  intro lba hlba
  exact headerAt_congr (read_header_early hv.geometry hk ht hlba)

theorem keepsArrays_of_survives {d : ByteStore} {old new : List GptEntry} (hv : ValidGpt d old)
    {counter : UInt64} (h : SurvivesCrash d counter old new) : KeepsArrays d counter old new := by
  intro k d₁ hk ht
  exact (usable_early_iff hv hk ht).mp
    (h d₁ ((mem_crashImages hv.geometry counter new d₁).mpr ⟨k, ht⟩))

theorem survives_of_keepsArrays {d : ByteStore} {old new : List GptEntry} (hv : ValidGpt d old)
    {counter : UInt64} (h : KeepsArrays d counter old new) : SurvivesCrash d counter old new := by
  intro image himage
  obtain ⟨k, ht⟩ := (mem_crashImages hv.geometry counter new image).mp himage
  by_cases hk : k ≤ 3
  · exact (usable_early_iff hv hk ht).mpr (h k image hk ht)
  by_cases hlen : 4 ≤ (plannedWrites d counter new).length
  · exact usable_late hv.geometry (by omega) hlen ht
  · -- The prefix is the whole of a shorter list.
    rw [List.take_of_length_le (by omega),
      ← List.take_of_length_le (show (plannedWrites d counter new).length ≤ 3 by omega)] at ht
    exact (usable_early_iff hv (Nat.le_refl 3) ht).mpr (h 3 image (Nat.le_refl 3) ht)

/-! ### Tables that `write_gpt` has written -/

/-- The store holds both copies of a table where `write_gpt` places them. -/
structure WrittenTable (d : ByteStore) (entries : List GptEntry) : Prop where
  size_le : d.blockSize ≤ 4096
  fits : Fits d.blockSize d.blockCount.toNat entries.length
  copies : ∃ guid, HoldsCopy d d.blockSize (primaryFields (d.blockCount.toNat - 1) guid entries)
      entries ∧
    HoldsCopy d d.blockSize (backupFields (d.blockCount.toNat - 1) guid entries) entries

theorem writtenTable_of_writeGpt {entries : List GptEntry} {s s' : State ByteStore}
    (hs : s.device.blockSize ≤ 4096) (hw : writeGpt entries s = (.ok (), s')) :
    WrittenTable s'.device entries := by
  obtain ⟨hf, ht, -⟩ := writeGpt_eq_ok.mp hw
  obtain ⟨hb, hc⟩ := ht.geometry
  have hcopies := holdsCopy_of_writeGpt hw
  refine ⟨hb ▸ hs, ?_, guidOf s.guidCounter, ?_⟩
  · rw [hb, hc]
    exact hf
  · rw [hb, hc]
    exact hcopies

/-- The entries in an array of `old` ones after `new` ones were written over them. -/
def overlay (old new : List GptEntry) : List GptEntry :=
  (new ++ old.drop new.length).take old.length

theorem length_overlay (old new : List GptEntry) : (overlay old new).length = old.length := by
  rw [overlay, List.length_take, List.length_append, List.length_drop]
  omega

theorem overlay_eq_old_iff (old new : List GptEntry) :
    overlay old new = old ↔ old <+: new ∨ new <+: old := by
  constructor
  · intro h
    by_cases hle : new.length ≤ old.length
    · right
      rw [overlay, List.take_of_length_le (by simp; omega)] at h
      exact ⟨_, h⟩
    · left
      rw [overlay, List.take_append_of_le_length (by omega)] at h
      rw [← h]
      exact List.take_prefix _ _
  · rintro (⟨t, rfl⟩ | ⟨t, rfl⟩)
    · rw [overlay, List.append_assoc, List.take_left]
    · rw [overlay, List.drop_left, List.take_length]

theorem overlay_eq_new_iff (old new : List GptEntry) :
    overlay old new = new ↔ new.length = old.length := by
  constructor
  · intro h
    rw [← length_overlay old new, h]
  · intro h
    rw [overlay, ← h, List.take_left]

theorem serializeEntries_append (es fs : List GptEntry) :
    serializeEntries (es ++ fs) = serializeEntries es ++ serializeEntries fs :=
  List.flatMap_append

theorem serializeEntries_take (es : List GptEntry) (k : Nat) :
    serializeEntries (es.take k) = (serializeEntries es).take (k * gptEntrySize) := by
  by_cases hk : k ≤ es.length
  · have h := serializeEntries_append (es.take k) (es.drop k)
    rw [List.take_append_drop] at h
    rw [h, List.take_left']
    rw [length_serializeEntries, List.length_take, Nat.min_eq_left hk]
  · rw [List.take_of_length_le (by omega), List.take_of_length_le]
    rw [length_serializeEntries]
    exact Nat.mul_le_mul_right _ (by omega)

theorem serializeEntries_drop (es : List GptEntry) (k : Nat) :
    serializeEntries (es.drop k) = (serializeEntries es).drop (k * gptEntrySize) := by
  have h := serializeEntries_append (es.take k) (es.drop k)
  rw [List.take_append_drop] at h
  by_cases hk : k ≤ es.length
  · rw [h, List.drop_left']
    rw [length_serializeEntries, List.length_take, Nat.min_eq_left hk]
  · rw [List.drop_of_length_le (by omega), List.drop_of_length_le]
    · rfl
    · rw [length_serializeEntries]
      exact Nat.mul_le_mul_right _ (by omega)

/-- Writing entries over an array changes it to their overlay. -/
theorem read_overlay {d d₁ : ByteStore} {off : Nat} {old new : List GptEntry}
    (hr : d.read off (old.length * gptEntrySize) = some (serializeEntries old))
    (hw : d.write off (serializeEntries new) = some d₁) :
    d₁.read off (old.length * gptEntrySize) = some (serializeEntries (overlay old new)) := by
  obtain ⟨hle, hold⟩ := ByteStore.read_eq_some.mp hr
  obtain ⟨hle', hb, -, -⟩ := ByteStore.write_eq_some.mp hw
  have hlen := length_serializeEntries new
  by_cases hn : new.length ≤ old.length
  · have hmul := Nat.mul_le_mul_right gptEntrySize hn
    apply ByteStore.read_eq_some.mpr
    refine ⟨by rwa [ByteStore.length_write hw], ?_⟩
    rw [hb, slice_splice_outer _ _ _ _ _ hle (Nat.le_refl _) (by omega), hold, Nat.sub_self,
      overlay, List.take_of_length_le (by simp; omega), serializeEntries_append,
      serializeEntries_drop, splice, hlen, List.take_zero, List.nil_append, Nat.zero_add]
  · have hmul := Nat.mul_le_mul_right gptEntrySize (Nat.le_of_not_le hn)
    rw [ByteStore.read_write_inner hw (Nat.le_refl _) (by omega), Nat.sub_self, overlay,
      List.take_append_of_le_length (by omega), serializeEntries_take]
    rfl

/-- The tables between which an update is safe: one extends the other, or both arrays have the
same length and checksum. -/
def Compatible (old new : List GptEntry) : Prop :=
  old <+: new ∨ new <+: old ∨ (new.length = old.length ∧
    crc32 (serializeEntries new) = crc32 (serializeEntries old))

/-- The new table is refused in front of its entry arrays. -/
def RefusedEarly (d : ByteStore) (new : List GptEntry) : Prop :=
  gptMaxEntries < new.length ∨
    d.blockCount.toNat - 1 - gptReservedLbas ≤ entriesEndLba new.length d.blockSize

namespace WrittenTable

variable {d : ByteStore} {old : List GptEntry}

theorem validGpt (h : WrittenTable d old) : ValidGpt d old := by
  obtain ⟨guid, hp, hb⟩ := h.copies
  obtain ⟨hph, hpt⟩ := hp.primary h.fits h.size_le
  obtain ⟨hbh, hbt⟩ := hb.backup h.fits h.size_le
  exact ⟨copyAt_eq_some.mpr ⟨_, _, hph, hpt⟩, copyAt_eq_some.mpr ⟨_, _, hbh, hbt⟩⟩

/-- The fields of the two headers that name an array. -/
theorem arrays (h : WrittenTable d old) :
    (∃ raw header, headerAt d 1 d.blockSize = some (raw, header) ∧
      arrayOffset d header = 2 * d.blockSize ∧
      arrayLength header = old.length * gptEntrySize ∧
      header.partitionArrayCrc32 = crc32 (serializeEntries old)) ∧
    ∃ raw header, headerAt d (d.blockCount.toNat - 1) d.blockSize = some (raw, header) ∧
      arrayOffset d header = backupEntriesLba (d.blockCount.toNat - 1) * d.blockSize ∧
      arrayLength header = old.length * gptEntrySize ∧
      header.partitionArrayCrc32 = crc32 (serializeEntries old) := by
  obtain ⟨guid, hp, hb⟩ := h.copies
  have hpr := primaryFields_inRange guid h.fits
  have hbr := backupFields_inRange guid h.fits
  refine ⟨⟨_, _, (hp.primary h.fits h.size_le).1, ?_, ?_, rfl⟩, _, _,
    (hb.backup h.fits h.size_le).1, ?_, ?_, rfl⟩
  · exact congrArg (· * d.blockSize) (UInt64.toNat_ofNat_of_lt' hpr.partitionEntryLba)
  · exact congrArg (· * gptEntrySize) (UInt32.toNat_ofNat_of_lt' hpr.numEntries)
  · exact congrArg (· * d.blockSize) (UInt64.toNat_ofNat_of_lt' hbr.partitionEntryLba)
  · exact congrArg (· * gptEntrySize) (UInt32.toNat_ofNat_of_lt' hbr.numEntries)

/-- Both arrays hold the old entries. -/
theorem read_arrays (h : WrittenTable d old) :
    d.read (2 * d.blockSize) (old.length * gptEntrySize) = some (serializeEntries old) ∧
      d.read (backupEntriesLba (d.blockCount.toNat - 1) * d.blockSize)
        (old.length * gptEntrySize) = some (serializeEntries old) := by
  obtain ⟨guid, hp, hb⟩ := h.copies
  exact ⟨hp.array, hb.array⟩

/-- Writes in front of the backup array keep it. -/
theorem keepsArray_of_front (h : WrittenTable d old) {new : List GptEntry} {d₁ : ByteStore}
    {ws : List Write} (ht : WritesThrough ws d d₁)
    (hw : ∀ w ∈ ws, w.1 + w.2.length ≤ backupEntriesLba (d.blockCount.toNat - 1) * d.blockSize) :
    KeepsArray d d₁ old new := by
  obtain ⟨-, raw, header, hat, hoff, hlen, -⟩ := h.arrays
  refine ⟨_, raw, header, .inr rfl, hat, .inl ?_⟩
  rw [hoff, hlen, ht.read_other fun w hmem ↦ .inr (hw w hmem)]
  exact h.read_arrays.2

/-- The protective MBR lies in front of the backup array. -/
theorem mbr_front (h : WrittenTable d old) :
    (protectiveMbr d.blockSize (d.blockCount.toNat - 1)).length ≤
      backupEntriesLba (d.blockCount.toNat - 1) * d.blockSize := by
  have hf := h.fits
  have h₁ := hf.primary_le
  have h₂ := Fits.two_le d.blockSize old.length
  rw [hf.length_mbr]
  omega

/-- After its three early writes an update has changed both arrays to the overlay. -/
theorem read_overlays (h : WrittenTable d old) {counter : UInt64} {new : List GptEntry}
    {d₁ : ByteStore} (hf : Fits d.blockSize d.blockCount.toNat new.length)
    (ht : WritesThrough ((tableWrites d.blockSize (d.blockCount.toNat - 1) (guidOf counter)
      new).take 3) d d₁) :
    d₁.read (2 * d.blockSize) (old.length * gptEntrySize) =
        some (serializeEntries (overlay old new)) ∧
      d₁.read (backupEntriesLba (d.blockCount.toNat - 1) * d.blockSize)
        (old.length * gptEntrySize) = some (serializeEntries (overlay old new)) := by
  obtain ⟨hp, hb⟩ := h.read_arrays
  obtain ⟨d₂, hmbr, d₃, hprimary, d₄, hbackup, hend⟩ := ht
  obtain rfl : d₄ = d₁ := hend
  rw [byteStore_writeBlocks_eq_ok] at hmbr hprimary hbackup
  have hold₁ := h.fits.array_le
  have hold₂ := h.fits.primary_le
  have hnew₁ := hf.array_le
  have hnew₂ := hf.primary_le
  have hmbrlen := hf.length_mbr (d.blockCount.toNat - 1)
  have hlen := length_serializeEntries new
  constructor
  · rw [ByteStore.read_write_disjoint hbackup (.inl (by omega))]
    apply read_overlay _ hprimary
    rw [ByteStore.read_write_disjoint hmbr (.inr (by simp only [hmbrlen]; omega))]
    exact hp
  · apply read_overlay _ hbackup
    rw [ByteStore.read_write_disjoint hprimary (.inr (by simp only [hlen]; omega)),
      ByteStore.read_write_disjoint hmbr (.inr (by simp only [hmbrlen]; omega))]
    exact hb

/-- A table that is refused early has at most the protective MBR written. -/
theorem keepsArrays_of_refused (h : WrittenTable d old) (counter : UInt64) {new : List GptEntry}
    (hrefused : RefusedEarly d new) : KeepsArrays d counter old new := by
  intro k d₁ _ ht
  apply h.keepsArray_of_front ht
  intro w hw
  have hw := List.mem_of_mem_take hw
  unfold plannedWrites at hw
  by_cases hn : gptMaxEntries < new.length
  · rw [if_pos (.inl hn)] at hw
    cases hw
  · have hfit := hrefused.resolve_left hn
    have hs := h.fits.sector_ge
    rw [if_neg (by omega), if_neg (Nat.not_lt.mpr hfit), List.mem_singleton] at hw
    rw [hw]
    simpa using h.mbr_front

/-- A table that is not refused early fits, and all its writes are planned. -/
theorem plannedWrites_of_not_refused (h : WrittenTable d old) (counter : UInt64)
    {new : List GptEntry} (hrefused : ¬ RefusedEarly d new) :
    Fits d.blockSize d.blockCount.toNat new.length ∧ plannedWrites d counter new =
      tableWrites d.blockSize (d.blockCount.toNat - 1) (guidOf counter) new := by
  have hs := h.fits.sector_ge
  obtain ⟨hn, hfit⟩ := not_or.mp hrefused
  refine ⟨h.validGpt.geometry.fits (Nat.le_of_not_lt hn) hs (Nat.lt_of_not_le hfit), ?_⟩
  rw [plannedWrites, if_neg (by omega), if_pos (Nat.lt_of_not_le hfit)]

/-- Behind the three early writes an old header names the overlay. -/
theorem overlay_of_keepsArray (h : WrittenTable d old) {counter : UInt64} {new : List GptEntry}
    {d₁ : ByteStore} (hf : Fits d.blockSize d.blockCount.toNat new.length)
    (ht : WritesThrough ((tableWrites d.blockSize (d.blockCount.toNat - 1) (guidOf counter)
      new).take 3) d d₁) (hkeeps : KeepsArray d d₁ old new) :
    overlay old new = old ∨ overlay old new = new ∧
      crc32 (serializeEntries new) = crc32 (serializeEntries old) := by
  obtain ⟨⟨raw, header, hat, hoff, hlen, hcrc⟩, raw', header', hat', hoff', hlen', hcrc'⟩ :=
    h.arrays
  obtain ⟨hp, hb⟩ := h.read_overlays hf ht
  obtain ⟨lba, raw₁, header₁, hlba, hat₁, hread⟩ := hkeeps
  have hcases : d₁.read (arrayOffset d header₁) (arrayLength header₁) =
      some (serializeEntries (overlay old new)) ∧
        header₁.partitionArrayCrc32 = crc32 (serializeEntries old) := by
    obtain rfl | rfl := hlba
    · rw [hat] at hat₁
      cases hat₁
      rw [hoff, hlen]
      exact ⟨hp, hcrc⟩
    · rw [hat'] at hat₁
      cases hat₁
      rw [hoff', hlen']
      exact ⟨hb, hcrc'⟩
  rw [hcases.1, hcases.2] at hread
  obtain hold | ⟨hnew, heq⟩ := hread
  · exact .inl (serializeEntries_inj (Option.some.inj hold))
  · exact .inr ⟨serializeEntries_inj (Option.some.inj hnew), heq⟩

/-- Until the first new header is written one array of a compatible update holds the old table or
the new one: the backup array up to the second write, the primary array behind the third. -/
theorem keepsArrays_of_compatible (h : WrittenTable d old) {counter : UInt64} {new : List GptEntry}
    (hf : Fits d.blockSize d.blockCount.toNat new.length)
    (hplan : plannedWrites d counter new =
      tableWrites d.blockSize (d.blockCount.toNat - 1) (guidOf counter) new)
    (hcompat : Compatible old new) : KeepsArrays d counter old new := by
  rw [KeepsArrays, hplan]
  intro k d₁ hk ht
  by_cases hk2 : k ≤ 2
  · apply h.keepsArray_of_front ht
    intro w hw
    rw [← Nat.min_eq_left hk2, ← List.take_take] at hw
    have hw := List.mem_of_mem_take hw
    simp only [tableWrites, List.take_succ_cons, List.take_zero, List.mem_cons,
      List.not_mem_nil, or_false] at hw
    obtain rfl | rfl := hw
    · simpa using h.mbr_front
    · have h₁ := hf.array_le
      have h₂ := hf.primary_le
      simp only [length_serializeEntries]
      omega
  · obtain rfl : k = 3 := by omega
    obtain ⟨⟨raw, header, hat, hoff, hlen, hcrc⟩, -⟩ := h.arrays
    obtain ⟨hp, -⟩ := h.read_overlays hf ht
    refine ⟨1, raw, header, .inl rfl, hat, ?_⟩
    rw [hoff, hlen, hp, hcrc]
    obtain hpre | hpre | ⟨hsame, heq⟩ := hcompat
    · exact .inl (by rw [(overlay_eq_old_iff old new).mpr (.inl hpre)])
    · exact .inl (by rw [(overlay_eq_old_iff old new).mpr (.inr hpre)])
    · exact .inr ⟨by rw [(overlay_eq_new_iff old new).mpr hsame], heq⟩

/-- An update of a written table keeps an array exactly when it is refused early or the tables
are compatible. -/
theorem keepsArrays_iff (h : WrittenTable d old) (counter : UInt64) (new : List GptEntry) :
    KeepsArrays d counter old new ↔ RefusedEarly d new ∨ Compatible old new := by
  by_cases hrefused : RefusedEarly d new
  · exact iff_of_true (h.keepsArrays_of_refused counter hrefused) (.inl hrefused)
  · obtain ⟨hf, hplan⟩ := h.plannedWrites_of_not_refused counter hrefused
    rw [or_iff_right hrefused]
    constructor
    · intro hkeeps
      rw [KeepsArrays, hplan] at hkeeps
      obtain ⟨s', hrun⟩ := writeGpt_of_fits new ⟨d, counter⟩ hf
      obtain ⟨d₁, ht⟩ := (writeGpt_eq_ok.mp hrun).2.1.take 3
      obtain hold | ⟨hnew, heq⟩ := h.overlay_of_keepsArray hf ht (hkeeps 3 d₁ (Nat.le_refl 3) ht)
      · obtain hpre | hpre := (overlay_eq_old_iff old new).mp hold
        · exact .inl hpre
        · exact .inr (.inl hpre)
      · exact .inr (.inr ⟨(overlay_eq_new_iff old new).mp hnew, heq⟩)
    · exact h.keepsArrays_of_compatible hf hplan

end WrittenTable

/-- An update of a valid table survives a crash at every write exactly when one of the old
arrays is kept until the first new header is written; where `write_gpt` has written the old
table, exactly when the new one is refused early or compatible with it. -/
theorem survivesCrash_iff {d : ByteStore} {old : List GptEntry} (hv : ValidGpt d old)
    (counter : UInt64) (new : List GptEntry) :
    (SurvivesCrash d counter old new ↔ KeepsArrays d counter old new) ∧
      (WrittenTable d old →
        (SurvivesCrash d counter old new ↔ RefusedEarly d new ∨ Compatible old new)) := by
  have hiff : SurvivesCrash d counter old new ↔ KeepsArrays d counter old new :=
    ⟨keepsArrays_of_survives hv, survives_of_keepsArrays hv⟩
  refine ⟨hiff, ?_⟩
  intro hw
  rw [hiff]
  exact hw.keepsArrays_iff counter new

/-- An empty table that follows a table of one entry on a disk of a hundred blocks. -/
theorem survivesCrash_iff_hundred : ∃ d : ByteStore, ValidGpt d [default] ∧
    (SurvivesCrash d 1 [default] [] ↔ KeepsArrays d 1 [default] []) := by
  obtain ⟨s', hw⟩ := writeGpt_of_fits [default] ⟨ByteStore.blank 512 100, 0⟩
    (by constructor <;> decide)
  have hv := (writtenTable_of_writeGpt (by decide) hw).validGpt
  exact ⟨s'.device, hv, (survivesCrash_iff hv 1 []).1⟩

/-- Another entry in place of the only one of a written table: behind the second array neither
old header has its entries, and neither new header is there. -/
theorem not_survivesCrash_hundred : ∃ s' : State ByteStore,
    writeGpt [default] ⟨ByteStore.blank 512 100, 0⟩ = (.ok (), s') ∧
      ValidGpt s'.device [default] ∧ ¬SurvivesCrash s'.device 1 [default] [damagedEntry] := by
  obtain ⟨s', hw⟩ := writeGpt_of_fits [default] ⟨ByteStore.blank 512 100, 0⟩
    (by constructor <;> decide)
  have hwritten := writtenTable_of_writeGpt (by decide) hw
  obtain ⟨hb, hc⟩ := (writeGpt_eq_ok.mp hw).2.1.geometry
  refine ⟨s', hw, hwritten.validGpt, ?_⟩
  intro h
  obtain hrefused | hcompat :=
    (hwritten.keepsArrays_iff 1 _).mp (keepsArrays_of_survives hwritten.validGpt h)
  · rw [RefusedEarly, hb, hc] at hrefused
    exact absurd hrefused (by decide)
  · obtain hpre | hpre | ⟨-, hcrc⟩ := hcompat
    · exact absurd hpre (by decide)
    · exact absurd hpre (by decide)
    · exact crc32_damagedEntry hcrc

end SmallOs.Gpt
