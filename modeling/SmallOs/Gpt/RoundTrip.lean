import SmallOs.Gpt.Image

/-!
# Reading back a written table

On a byte store the reader's choice of a header is a function of the image. After a
successful write both copies pass every check, and the five written windows are disjoint.
-/

namespace SmallOs.Gpt

open SmallOs.Base SmallOs.Hal

/-! ### The reader on a byte store -/

/-- The block at `lba`, when it can be read and carries the signature. -/
def rawHeader (d : ByteStore) (lba sector : Nat) : Option (List UInt8) :=
  if 4096 < sector ∨ 2 ^ 64 ≤ lba * sector then none
  else (d.read (lba * sector) sector).filter fun buf ↦
    8 ≤ buf.length ∧ slice buf 0 8 = gptSignature.toList

/-- The header at `lba`, when it passes the header checks: signature, size fields, checksum. -/
def headerAt (d : ByteStore) (lba sector : Nat) : Option (List UInt8 × GptHeader) :=
  (rawHeader d lba sector).bind fun raw ↦
    match parseAndVerifyHeader raw with
    | .ok r => some r
    | _ => none

/-- The entry array that a header names, when it can be read. -/
def entriesAt (d : ByteStore) (sector : Nat) (h : GptHeader) :
    Outcome GptError (List GptEntry) := do
  Outcome.ensure (h.partitionEntrySize.toNat = gptEntrySize) .invalidEntrySize
  Outcome.ensure (h.numPartitionEntries.toNat ≤ gptMaxEntries * 4) .invalidHeaderSize
  let offset := h.partitionEntryLba.toNat * sector
  Outcome.ensure (offset < 2 ^ 64) .overflow
  let buf ← Outcome.ofOption .ioError
    (d.read offset (h.numPartitionEntries.toNat * h.partitionEntrySize.toNat))
  (chunksExact gptEntrySize buf).mapM parseGptEntry

/-- The table that a header describes, when its entry array matches the header's checksum. -/
def tableOf (d : ByteStore) (sector : Nat) (h : GptHeader) :
    Outcome GptError (GptHeader × List GptEntry) := do
  let entries ← entriesAt d sector h
  verifyEntriesCrc entries h.partitionArrayCrc32
  return (h, entries)

theorem readBlocks_byteStore (off : Nat) (buf : List UInt8) (s : State ByteStore) :
    readBlocks off buf s = (Outcome.ofOption .ioError (s.device.read off buf.length), s) := by
  simp only [readBlocks, BlockDevice.readBlocks]
  cases s.device.read off buf.length <;> rfl

theorem readHeaderRaw_byteStore (lba sector : Nat) (s : State ByteStore) :
    readHeaderRaw lba sector s = (.ok (rawHeader s.device lba sector), s) := by
  unfold readHeaderRaw rawHeader
  by_cases h₁ : 4096 < sector
  · simp only [h₁, if_true, true_or]
    rfl
  by_cases h₂ : 2 ^ 64 ≤ lba * sector
  · simp only [h₁, h₂, if_false, if_true, or_true]
    rfl
  simp only [h₁, h₂, if_false, or_self]
  rw [Prog.bind_apply, Prog.attempt_apply, readBlocks_byteStore, List.length_replicate]
  cases hr : s.device.read (lba * sector) sector with
  | none => rfl
  | some buf =>
    simp only [Outcome.ofOption, Outcome.attempt, Prog.pure_apply, Option.filter]
    split <;> simp_all

/-- Header checks return or refuse: the checksummed window always lies inside the block. -/
theorem parseAndVerifyHeader_ne_panic (raw : List UInt8) : parseAndVerifyHeader raw ≠ .panic := by
  by_cases hl : gptHeaderSize ≤ raw.length
  · obtain ⟨header, hh⟩ : ∃ header, parseHeader raw = .ok header := by
      rw [parseHeader, Outcome.ensure_of hl]
      exact ⟨_, rfl⟩
    rw [parseAndVerifyHeader, Outcome.ensure_of hl, Outcome.ok_bind, hh, Outcome.ok_bind]
    cases hv : validateHeader header with
    | err e => simp
    | panic =>
      simp only [validateHeader, Outcome.ensure] at hv
      split at hv <;> try split at hv
      all_goals try split at hv
      all_goals simp at hv
    | ok u =>
      have hs : header.headerSize.toNat = gptHeaderSize := by
        simp only [validateHeader, Outcome.bind_eq_ok, Outcome.ensure_eq_ok] at hv
        obtain ⟨-, -, -, hs, -⟩ := hv
        exact hs
      have hw : (slice raw 0 gptHeaderSize).length = gptHeaderSize :=
        length_slice _ _ _ (by omega)
      rw [Outcome.ok_bind, hs, sliceAt_of (by omega), Outcome.ok_bind,
        putAt_of (by rw [hw]; decide), Outcome.ok_bind, Outcome.ensure]
      split <;> simp
  · simp [parseAndVerifyHeader, Outcome.ensure, hl]

theorem checkedHeader_byteStore (lba sector : Nat) (s : State ByteStore) :
    checkedHeader lba sector s = (.ok (headerAt s.device lba sector), s) := by
  rw [checkedHeader, Prog.bind_of_ok (readHeaderRaw_byteStore lba sector s), headerAt]
  cases rawHeader s.device lba sector with
  | none => rfl
  | some raw =>
    have hp := parseAndVerifyHeader_ne_panic raw
    simp only [Prog.bind_apply, Prog.lift_apply, Option.bind_some]
    cases hv : parseAndVerifyHeader raw with
    | ok r => rfl
    | err e => rfl
    | panic => exact absurd hv hp

/-- A header that passed its checks parses to the header they were made on. -/
theorem parseAndVerifyHeader_eq_ok {raw raw' : List UInt8} {h : GptHeader}
    (hv : parseAndVerifyHeader raw = .ok (raw', h)) :
    raw' = raw ∧ parseHeader raw = .ok h ∧ validateHeader h = .ok () := by
  simp only [parseAndVerifyHeader, Outcome.bind_eq_ok] at hv
  obtain ⟨-, -, h', hp, ⟨⟩, hh, -, -, -, -, -, -, he⟩ := hv
  cases he
  exact ⟨rfl, hp, hh⟩

theorem headerAt_eq_some {d : ByteStore} {lba sector : Nat} {r : List UInt8 × GptHeader} :
    headerAt d lba sector = some r ↔
      ∃ raw, rawHeader d lba sector = some raw ∧ parseAndVerifyHeader raw = .ok r := by
  unfold headerAt
  rw [Option.bind_eq_some_iff]
  refine exists_congr fun raw ↦ and_congr_right fun _ ↦ ?_
  cases parseAndVerifyHeader raw <;> simp

theorem readEntries_byteStore (sector : Nat) (h : GptHeader) (s : State ByteStore) :
    readEntries sector h s = (entriesAt s.device sector h, s) := by
  apply Prog.bind_of_const (Prog.lift_apply _ s)
  intro _
  apply Prog.bind_of_const (Prog.lift_apply _ s)
  intro _
  apply Prog.bind_of_const (Prog.lift_apply _ s)
  intro _
  apply Prog.bind_of_const
  · rw [readBlocks_byteStore, List.length_replicate]
  · intro buf
    exact Prog.lift_apply _ s

/-- Once a header is chosen, the table it describes is the result. -/
theorem readGpt_tail (raw raw' : List UInt8) (h : GptHeader) (sector : Nat) (s : State ByteStore)
    (hv : parseAndVerifyHeader raw = .ok (raw', h)) :
    (do
      let header ← Prog.lift (parseHeader raw)
      Prog.lift (validateHeader header)
      let entries ← readEntries sector header
      Prog.lift (verifyEntriesCrc entries header.partitionArrayCrc32)
      return (header, entries) : Prog (State ByteStore) GptError (GptHeader × List GptEntry)) s =
      (tableOf s.device sector h, s) := by
  obtain ⟨-, hp, hh⟩ := parseAndVerifyHeader_eq_ok hv
  rw [hp, Prog.bind_of_ok (Prog.lift_apply _ s), hh, Prog.bind_of_ok (Prog.lift_apply _ s)]
  apply Prog.bind_of_const (readEntries_byteStore sector h s)
  intro entries
  apply Prog.bind_of_const (Prog.lift_apply _ s)
  intro _
  rfl

/-- A primary header that passes its checks is the one whose table is returned. -/
theorem readGpt_of_primary {s : State ByteStore} {raw : List UInt8} {h : GptHeader}
    (hp : headerAt s.device 1 s.device.blockSize = some (raw, h)) :
    readGpt s = (tableOf s.device s.device.blockSize h, s) := by
  obtain ⟨block, -, hv⟩ := headerAt_eq_some.mp hp
  obtain ⟨rfl, -, -⟩ := parseAndVerifyHeader_eq_ok hv
  have hc := checkedHeader_byteStore 1 s.device.blockSize s
  rw [hp] at hc
  rw [readGpt, Prog.bind_of_ok (Prog.get_apply s)]
  exact (Prog.bind_of_ok hc).trans (readGpt_tail _ _ _ _ _ hv)

/-- When the primary header is refused, the header in the last block decides. -/
theorem readGpt_of_backup {s : State ByteStore} {raw : List UInt8} {h : GptHeader}
    (hp : headerAt s.device 1 s.device.blockSize = none)
    (hc : 0 < s.device.blockCount.toNat)
    (hb : headerAt s.device (s.device.blockCount.toNat - 1) s.device.blockSize = some (raw, h)) :
    readGpt s = (tableOf s.device s.device.blockSize h, s) := by
  obtain ⟨block, hr, hv⟩ := headerAt_eq_some.mp hb
  obtain ⟨rfl, -, -⟩ := parseAndVerifyHeader_eq_ok hv
  have hn := checkedHeader_byteStore 1 s.device.blockSize s
  rw [hp] at hn
  have hl := readHeaderRaw_byteStore (s.device.blockCount.toNat - 1) s.device.blockSize s
  rw [hr] at hl
  have hbackup : backupHeader s.device.blockSize s = (.ok raw, s) := by
    rw [backupHeader, Prog.bind_of_ok (Prog.get_apply s)]
    simp only [BlockDevice.blockCount]
    rw [Prog.bind_of_ok (Prog.lift_eq_ok.mpr ⟨Outcome.ensure_of hc, rfl⟩), Prog.bind_of_ok hl]
    change (Prod.fst <$> parseAndVerifyHeader raw, s) = _
    rw [hv]
    rfl
  rw [readGpt, Prog.bind_of_ok (Prog.get_apply s)]
  exact ((Prog.bind_of_ok hn).trans (Prog.bind_of_ok hbackup)).trans (readGpt_tail _ _ _ _ _ hv)

/-- Blocks larger than the reader's buffer are refused at every address. -/
theorem headerAt_of_large {d : ByteStore} {lba sector : Nat} (hs : 4096 < sector) :
    headerAt d lba sector = none := by
  rw [headerAt, rawHeader, if_pos (Or.inl hs)]
  rfl

/-- Without an acceptable block at either end the read is refused. -/
theorem readGpt_of_large {s : State ByteStore} (hs : 4096 < s.device.blockSize) :
    readGpt s = (.err .invalidSignature, s) := by
  have hn := checkedHeader_byteStore 1 s.device.blockSize s
  rw [headerAt_of_large hs] at hn
  have hbackup : backupHeader s.device.blockSize s = (.err .invalidSignature, s) := by
    rw [backupHeader, Prog.bind_of_ok (Prog.get_apply s), readHeaderRaw, if_pos hs]
    by_cases hc : 0 < s.device.blockCount.toNat
    · simp only [BlockDevice.blockCount, Outcome.ensure_of hc]
      rfl
    · simp only [BlockDevice.blockCount, Outcome.ensure_not hc]
      rfl
  rw [readGpt, Prog.bind_of_ok (Prog.get_apply s)]
  exact (Prog.bind_of_ok hn).trans (Prog.bind_of_err hbackup)

/-! ### The image of a written table -/

/-- Writes inside the store always go through. -/
theorem writesThrough_of_le (ws : List Write) (d : ByteStore)
    (h : ∀ w ∈ ws, w.1 + w.2.length ≤ d.bytes.length) : ∃ d', WritesThrough ws d d' := by
  induction ws generalizing d with
  | nil => exact ⟨d, rfl⟩
  | cons w ws ih =>
    obtain ⟨d₁, hw, -⟩ := ByteStore.write_of_le d w.1 w.2 (h w List.mem_cons_self)
    have hl := ByteStore.length_write hw
    obtain ⟨d', hd⟩ := ih d₁ fun v hv ↦ hl ▸ h v (List.mem_cons_of_mem _ hv)
    exact ⟨d', d₁, byteStore_writeBlocks_eq_ok.mpr hw, hd⟩

/-- A header block that reads back is accepted. -/
theorem headerAt_of_sealedBlock {d : ByteStore} {lba sector : Nat} {f : HeaderFields}
    (hf : f.InRange) (hs : gptHeaderSize ≤ sector) (hs' : sector ≤ 4096)
    (ho : lba * sector < 2 ^ 64)
    (hr : d.read (lba * sector) sector = some (f.sealedBlock sector)) :
    headerAt d lba sector = some (f.sealedBlock sector, f.decoded) := by
  have hl := f.length_sealedBlock sector hs
  apply headerAt_eq_some.mpr
  refine ⟨_, ?_, f.parseAndVerifyHeader_sealedBlock sector hf hs⟩
  rw [rawHeader, if_neg (by omega), hr, Option.filter_some, if_pos]
  simp only [hl, f.slice_signature, and_true, decide_eq_true_eq]
  exact Nat.le_trans (by decide) hs

/-- A serialized array that reads back where the header says is what the reader decodes. -/
theorem entriesAt_decoded {d : ByteStore} {sector : Nat} {f : HeaderFields}
    (entries : List GptEntry) (hf : f.InRange) (hn : f.numEntries = entries.length)
    (he : entries.length ≤ gptMaxEntries) (ho : f.partitionEntryLba * sector < 2 ^ 64)
    (hr : d.read (f.partitionEntryLba * sector) (entries.length * gptEntrySize) =
      some (serializeEntries entries)) :
    entriesAt d sector f.decoded = .ok entries := by
  have hsize : f.decoded.partitionEntrySize.toNat = gptEntrySize := by
    change (UInt32.ofNat gptEntrySize).toNat = gptEntrySize
    decide
  have hcount : f.decoded.numPartitionEntries.toNat = entries.length := by
    rw [← hn]
    exact UInt32.toNat_ofNat_of_lt' hf.numEntries
  have hlba : f.decoded.partitionEntryLba.toNat = f.partitionEntryLba :=
    UInt64.toNat_ofNat_of_lt' hf.partitionEntryLba
  have hle : entries.length ≤ gptMaxEntries * 4 :=
    Nat.le_trans he (Nat.le_mul_of_pos_right _ (by decide))
  rw [entriesAt, hsize, hcount, hlba, Outcome.ensure_of rfl, Outcome.ok_bind,
    Outcome.ensure_of hle, Outcome.ok_bind]
  dsimp only
  rw [Outcome.ensure_of ho, Outcome.ok_bind, hr, Outcome.ofOption, Outcome.ok_bind,
    mapM_parseGptEntry_serializeEntries]

/-- The table is returned exactly when the decoded array has the checksum of the header. -/
theorem tableOf_of_entriesAt {d : ByteStore} {sector : Nat} {h : GptHeader}
    {entries : List GptEntry} (he : entriesAt d sector h = .ok entries) :
    tableOf d sector h = if crc32 (serializeEntries entries) = h.partitionArrayCrc32 then
      .ok (h, entries) else .err .invalidEntriesCrc := by
  rw [tableOf, he, Outcome.ok_bind, verifyEntriesCrc, Outcome.ensure]
  split <;> rfl

/-- The store holds a header and, where that header says, its entry array. -/
structure HoldsCopy (d : ByteStore) (sector : Nat) (f : HeaderFields) (entries : List GptEntry) :
    Prop where
  header : d.read (f.myLba * sector) sector = some (f.sealedBlock sector)
  array : d.read (f.partitionEntryLba * sector) (entries.length * gptEntrySize) =
    some (serializeEntries entries)

/-- After a successful write the store holds both copies. -/
theorem holdsCopy_of_writeGpt {entries : List GptEntry} {s s' : State ByteStore} {u : Unit}
    (hw : writeGpt entries s = (.ok u, s')) :
    HoldsCopy s'.device s.device.blockSize
        (primaryFields (s.device.blockCount.toNat - 1) (guidOf s.guidCounter) entries) entries ∧
      HoldsCopy s'.device s.device.blockSize
        (backupFields (s.device.blockCount.toNat - 1) (guidOf s.guidCounter) entries) entries := by
  obtain ⟨hf, ht, -⟩ := writeGpt_eq_ok.mp hw
  have hh : gptHeaderSize ≤ s.device.blockSize := Nat.le_trans (by decide) hf.sector_ge
  have back : ∀ off data len, data.length = len → (off, data) ∈ tableWrites s.device.blockSize
      (s.device.blockCount.toNat - 1) (guidOf s.guidCounter) entries →
      s'.device.read off len = some data := by
    intro off data len hl hm
    rw [← hl]
    exact ht.read_back (pairwise_tableWrites hf) hm
  constructor
  · constructor
    · exact back _ _ _ (HeaderFields.length_sealedBlock _ _ hh)
        (by simp [tableWrites, primaryFields])
    · exact back _ _ _ (length_serializeEntries _) (by simp [tableWrites, primaryFields])
  · constructor
    · exact back _ _ _ (HeaderFields.length_sealedBlock _ _ hh)
        (by simp [tableWrites, backupFields])
    · exact back _ _ _ (length_serializeEntries _) (by simp [tableWrites, backupFields])

variable {entries : List GptEntry} {guid : Vector UInt8 16} {d : ByteStore}

/-- A primary copy in place is accepted and describes the table. -/
theorem HoldsCopy.primary {sector blockCount : Nat} (hf : Fits sector blockCount entries.length)
    (hs : sector ≤ 4096)
    (hc : HoldsCopy d sector (primaryFields (blockCount - 1) guid entries) entries) :
    headerAt d 1 sector = some ((primaryFields (blockCount - 1) guid entries).sealedBlock sector,
        (primaryFields (blockCount - 1) guid entries).decoded) ∧
      tableOf d sector (primaryFields (blockCount - 1) guid entries).decoded =
        .ok ((primaryFields (blockCount - 1) guid entries).decoded, entries) := by
  have hr := primaryFields_inRange guid hf
  obtain ⟨h₁, -, h₂, -⟩ := hf.addresses
  constructor
  · exact headerAt_of_sealedBlock hr (Nat.le_trans (by decide) hf.sector_ge) hs h₂ hc.header
  · exact (tableOf_of_entriesAt (entriesAt_decoded entries hr rfl hf.entries_le h₁ hc.array)).trans
      (if_pos rfl)

/-- A backup copy in place is accepted and describes the table. -/
theorem HoldsCopy.backup {sector blockCount : Nat} (hf : Fits sector blockCount entries.length)
    (hs : sector ≤ 4096)
    (hc : HoldsCopy d sector (backupFields (blockCount - 1) guid entries) entries) :
    headerAt d (blockCount - 1) sector =
        some ((backupFields (blockCount - 1) guid entries).sealedBlock sector,
        (backupFields (blockCount - 1) guid entries).decoded) ∧
      tableOf d sector (backupFields (blockCount - 1) guid entries).decoded =
        .ok ((backupFields (blockCount - 1) guid entries).decoded, entries) := by
  have hr := backupFields_inRange guid hf
  obtain ⟨-, h₁, -, h₂⟩ := hf.addresses
  constructor
  · exact headerAt_of_sealedBlock hr (Nat.le_trans (by decide) hf.sector_ge) hs h₂ hc.header
  · exact (tableOf_of_entriesAt (entriesAt_decoded entries hr rfl hf.entries_le h₁ hc.array)).trans
      (if_pos rfl)

/-- On a byte store every table that fits is written. -/
theorem writeGpt_of_fits (entries : List GptEntry) (s : State ByteStore)
    (hf : Fits s.device.blockSize s.device.blockCount.toNat entries.length) :
    ∃ s', writeGpt entries s = (.ok (), s') := by
  have hh : gptHeaderSize ≤ s.device.blockSize := Nat.le_trans (by decide) hf.sector_ge
  have hlen := ByteStore.length_last hf.blocks_pos
  have h₁ := hf.array_le
  have h₂ := hf.array_blocks
  have h₃ := hf.backup_le
  have h₄ := hf.primary_le
  have h₅ := Fits.two_le s.device.blockSize entries.length
  obtain ⟨d', hd⟩ := writesThrough_of_le (tableWrites s.device.blockSize
    (s.device.blockCount.toNat - 1) (guidOf s.guidCounter) entries) s.device (by
      simp only [tableWrites, List.mem_cons, List.not_mem_nil, or_false, forall_eq_or_imp,
        forall_eq, hf.length_mbr, length_serializeEntries, HeaderFields.length_sealedBlock _ _ hh,
        hlen]
      omega)
  exact ⟨⟨d', s.guidCounter + 1⟩, writeGpt_eq_ok.mpr ⟨hf, hd, rfl⟩⟩

/-! ### The round trip -/

/-- Tracing a device records the writes that go through it and changes nothing else. -/
theorem writesThrough_traced {D : Type} [BlockDevice D] {ws : List Write} {d d' : D}
    (h : WritesThrough ws d d') (log : List Access) :
    WritesThrough ws (⟨d, log⟩ : Traced D)
      ⟨d', log ++ ws.map fun w ↦ .write w.1 w.2.length⟩ := by
  induction ws generalizing d log with
  | nil =>
    rw [show d = d' from h, List.map_nil, List.append_nil]
    rfl
  | cons w ws ih =>
    obtain ⟨d₁, hw, hr⟩ := h
    refine ⟨⟨d₁, log ++ [.write w.1 w.2.length]⟩, ?_, ?_⟩
    · simp only [BlockDevice.writeBlocks, hw]
    · have hi := ih hr (log ++ [.write w.1 w.2.length])
      rwa [List.append_assoc] at hi

/-- A table that was written reads back entry for entry, behind a header of its place and
the device's size, and its five windows are disjoint. -/
theorem readGpt_writeGpt {entries : List GptEntry} {s s' : State ByteStore}
    (hs : s.device.blockSize ≤ 4096) (hw : writeGpt entries s = (.ok (), s')) :
    (∃ header, readGpt s' = (.ok (header, entries), s') ∧ header.myLba.toNat = 1 ∧
      header.alternateLba.toNat + 1 = s.device.blockCount.toNat ∧
      header.firstUsableLba.toNat = 34 ∧
      header.lastUsableLba.toNat + 34 = s.device.blockCount.toNat) ∧
    ∃ t : State (Traced ByteStore),
      writeGpt entries ⟨⟨s.device, []⟩, s.guidCounter⟩ = (.ok (), t) ∧
      t.device.device = s'.device ∧
      t.device.log = [
        .write 0 s.device.blockSize,
        .write (2 * s.device.blockSize) (entries.length * gptEntrySize),
        .write ((s.device.blockCount.toNat - 33) * s.device.blockSize)
          (entries.length * gptEntrySize),
        .write (1 * s.device.blockSize) s.device.blockSize,
        .write ((s.device.blockCount.toNat - 1) * s.device.blockSize) s.device.blockSize] ∧
      t.device.log.Pairwise Access.Disjoint := by
  obtain ⟨hf, ht, hg⟩ := writeGpt_eq_ok.mp hw
  obtain ⟨hp, -⟩ := holdsCopy_of_writeGpt hw
  obtain ⟨hb, -⟩ := ht.geometry
  have hfit : Fits s.device.blockSize s.device.blockCount.toNat entries.length := hf
  have hend : entriesEndLba entries.length s.device.blockSize <
      s.device.blockCount.toNat - 1 - gptReservedLbas := hf.end_lt
  have hlast : s.device.blockCount.toNat - 1 < 2 ^ 64 := hf.lastLba_lt
  simp only [gptReservedLbas] at hend
  constructor
  · obtain ⟨hh, htab⟩ := hp.primary hfit hs
    refine ⟨(primaryFields (s.device.blockCount.toNat - 1) (guidOf s.guidCounter)
      entries).decoded, ?_, rfl, ?_, rfl, ?_⟩
    · rw [← hb] at hh htab
      exact (readGpt_of_primary hh).trans (congrArg (·, s') htab)
    · change (UInt64.ofNat (s.device.blockCount.toNat - 1)).toNat + 1 = _
      rw [UInt64.toNat_ofNat_of_lt' hlast]
      omega
    · change (UInt64.ofNat (s.device.blockCount.toNat - 1 - gptReservedLbas)).toNat + 34 = _
      rw [UInt64.toNat_ofNat_of_lt' (Nat.lt_of_le_of_lt (Nat.sub_le _ _) hlast), gptReservedLbas]
      omega
  · have hh : gptHeaderSize ≤ s.device.blockSize := Nat.le_trans (by decide) hf.sector_ge
    have hmbr : (protectiveMbr s.device.blockSize (s.device.blockCount.toNat - 1)).length =
        s.device.blockSize := hf.length_mbr _
    have hbackup : backupEntriesLba (s.device.blockCount.toNat - 1) =
        s.device.blockCount.toNat - 33 := by
      simp only [backupEntriesLba, gptReservedLbas]
      omega
    have htrace := writesThrough_traced ht []
    refine ⟨⟨⟨s'.device, _⟩, s'.guidCounter⟩, writeGpt_eq_ok.mpr ⟨hf, htrace, hg⟩, rfl, ?_, ?_⟩
    · simp only [tableWrites, List.map_cons, List.map_nil, List.nil_append, hmbr,
        length_serializeEntries, BlockDevice.blockSize, BlockDevice.blockCount, hbackup,
        HeaderFields.length_sealedBlock _ _ hh]
    · rw [List.nil_append]
      exact (pairwise_tableWrites hf).map _ fun _ _ hd ↦ hd

/-- A table of one entry on a disk of forty blocks. -/
theorem readGpt_writeGpt_forty : ∃ s' : State ByteStore,
    writeGpt [default] ⟨ByteStore.blank 512 40, 0⟩ = (.ok (), s') ∧
      ∃ header, readGpt s' = (.ok (header, [default]), s') := by
  obtain ⟨s', hw⟩ := writeGpt_of_fits [default] ⟨ByteStore.blank 512 40, 0⟩
    (by constructor <;> decide)
  obtain ⟨⟨header, hr, -⟩, -⟩ := readGpt_writeGpt (s := ⟨ByteStore.blank 512 40, 0⟩) (by decide) hw
  exact ⟨s', hw, header, hr⟩

end SmallOs.Gpt
