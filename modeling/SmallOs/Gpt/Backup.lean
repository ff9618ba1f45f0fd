import SmallOs.Gpt.Checksum
import SmallOs.Gpt.RoundTrip

/-!
# Recovery from a damaged primary copy

The reader turns to the backup header only while it checks the primary header. Damage to
the entry array is found later, after the choice, so it is recovered from exactly when the
primary header is refused as well.
-/

namespace SmallOs.Gpt

open SmallOs.Base SmallOs.Hal

/-- The primary copy passes every check of the reader: its header at LBA 1 and the entry
array that this header names. -/
def PrimaryIntact (d : ByteStore) : Prop :=
  ∃ raw h entries, headerAt d 1 d.blockSize = some (raw, h) ∧
    tableOf d d.blockSize h = .ok (h, entries)

/-- `d'` differs from `d` at most in LBA 1 and in the blocks of the primary array of `n`
entries that starts at LBA 2. -/
structure DamagedPrimary (d d' : ByteStore) (n : Nat) : Prop where
  blockSize : d'.blockSize = d.blockSize
  blockCount : d'.blockCount = d.blockCount
  bytes : ∀ i, i < d.blockSize ∨ entriesEndLba n d.blockSize * d.blockSize ≤ i →
    d'.bytes[i]? = d.bytes[i]?

/-- A window behind the primary copy reads the same after the damage. -/
theorem DamagedPrimary.read_behind {d d' : ByteStore} {n off len : Nat}
    (h : DamagedPrimary d d' n) (ho : entriesEndLba n d.blockSize * d.blockSize ≤ off) :
    d'.read off len = d.read off len := by
  have hl : d'.size = d.size := by
    rw [ByteStore.size, ByteStore.size, h.blockSize, h.blockCount]
  have hs : slice d'.bytes off len = slice d.bytes off len := by
    apply slice_congr
    intro i hi _
    exact h.bytes i (.inr (Nat.le_trans ho hi))
  rw [ByteStore.read, ByteStore.read, hl, hs]

/-- A write inside the primary copy is such damage. -/
theorem damagedPrimary_of_write {d d' : ByteStore} {n off : Nat} {data : List UInt8}
    (hw : d.write off data = some d') (h₁ : d.blockSize ≤ off)
    (h₂ : off + data.length ≤ entriesEndLba n d.blockSize * d.blockSize) :
    DamagedPrimary d d' n := by
  obtain ⟨hl, hb, hs, hc⟩ := ByteStore.write_eq_some.mp hw
  refine ⟨hs, hc, ?_⟩
  intro i hi
  rw [hb, getElem?_splice _ _ _ _ hl, if_neg (by omega)]

/-- An accepted header carries the signature that the raw read asks for. -/
theorem slice_of_parseAndVerifyHeader {raw : List UInt8} {r : List UInt8 × GptHeader}
    (hv : parseAndVerifyHeader raw = .ok r) :
    8 ≤ raw.length ∧ slice raw 0 8 = gptSignature.toList := by
  obtain ⟨raw', h⟩ := r
  obtain ⟨-, hp, hh⟩ := parseAndVerifyHeader_eq_ok hv
  simp only [parseHeader, Outcome.bind_eq_ok, Outcome.ensure_eq_ok, Outcome.pure_eq_ok,
    Outcome.ok.injEq] at hp
  obtain ⟨-, hl, rfl⟩ := hp
  simp only [validateHeader, Outcome.bind_eq_ok, Outcome.ensure_eq_ok] at hh
  obtain ⟨-, hs, -⟩ := hh
  have hl : 8 ≤ raw.length := Nat.le_trans (by decide) hl
  exact ⟨hl, slice_of_bytesArray (by omega) hs⟩

theorem read_of_rawHeader {d : ByteStore} {lba sector : Nat} {raw : List UInt8}
    (hr : rawHeader d lba sector = some raw) : d.read (lba * sector) sector = some raw := by
  unfold rawHeader at hr
  split at hr
  · cases hr
  · exact (Option.filter_eq_some_iff.mp hr).1

/-- The header at an LBA is accepted exactly when its block passes the header checks. -/
theorem headerAt_eq_of_read {d : ByteStore} {lba sector : Nat} {raw : List UInt8}
    {r : List UInt8 × GptHeader} (hs : sector ≤ 4096) (ho : lba * sector < 2 ^ 64)
    (hr : d.read (lba * sector) sector = some raw) :
    headerAt d lba sector = some r ↔ parseAndVerifyHeader raw = .ok r := by
  rw [headerAt_eq_some]
  constructor
  · rintro ⟨raw', hraw, hv⟩
    rw [read_of_rawHeader hraw] at hr
    cases hr
    exact hv
  · intro hv
    refine ⟨raw, ?_, hv⟩
    rw [rawHeader, if_neg (by omega), hr, Option.filter_some, if_pos]
    exact decide_eq_true (slice_of_parseAndVerifyHeader hv)

/-- The block at LBA 1 of a store that fits a table can be read. -/
theorem read_header {d : ByteStore} {n : Nat} (hf : Fits d.blockSize d.blockCount.toNat n) :
    d.read (1 * d.blockSize) d.blockSize = some (slice d.bytes (1 * d.blockSize) d.blockSize) := by
  have hl := ByteStore.length_last hf.blocks_pos
  have h₁ := hf.backup_le
  have h₂ := hf.primary_le
  have h₃ := Fits.two_le d.blockSize n
  apply ByteStore.read_eq_some.mpr
  exact ⟨by omega, rfl⟩

/-- A table is returned behind the header that it was asked for. -/
theorem header_of_tableOf {d : ByteStore} {sector : Nat} {h header : GptHeader}
    {entries : List GptEntry} (ht : tableOf d sector h = .ok (header, entries)) : header = h := by
  simp only [tableOf, Outcome.bind_eq_ok, Outcome.pure_eq_ok, Outcome.ok.injEq, Prod.mk.injEq] at ht
  obtain ⟨-, -, -, -, rfl, -⟩ := ht
  rfl

/-- The backup copy is out of reach of the damage. -/
theorem HoldsCopy.damaged {d d' : ByteStore} {blockCount : Nat} {guid : Vector UInt8 16}
    {entries : List GptEntry} (hf : Fits d.blockSize blockCount entries.length)
    (hd : DamagedPrimary d d' entries.length)
    (hc : HoldsCopy d d.blockSize (backupFields (blockCount - 1) guid entries) entries) :
    HoldsCopy d' d.blockSize (backupFields (blockCount - 1) guid entries) entries := by
  have h₁ := hf.primary_le
  have h₂ := hf.backup_le
  have h₃ : entriesEndLba entries.length d.blockSize * d.blockSize ≤
      (blockCount - 1) * d.blockSize := by omega
  constructor
  · exact (hd.read_behind h₃).trans hc.header
  · exact (hd.read_behind h₁).trans hc.array

/-- After damage to the primary copy that its validation detects, the reader returns the
backup header and the written entries exactly when the block at LBA 1 itself is refused. -/
theorem readGpt_damaged {entries : List GptEntry} {s s' : State ByteStore} {d : ByteStore}
    (hw : writeGpt entries s = (.ok (), s')) (hd : DamagedPrimary s'.device d entries.length)
    (hp : ¬ PrimaryIntact d) (g : UInt64) :
    (∃ header, readGpt ⟨d, g⟩ = (.ok (header, entries), ⟨d, g⟩) ∧
      header.myLba.toNat = d.blockCount.toNat - 1 ∧
      header.partitionEntryLba.toNat = d.blockCount.toNat - 33) ↔
    d.blockSize ≤ 4096 ∧
      ∀ r, parseAndVerifyHeader (slice d.bytes d.blockSize d.blockSize) ≠ .ok r := by
  obtain ⟨hf, ht, -⟩ := writeGpt_eq_ok.mp hw
  obtain ⟨hb, hc⟩ := ht.geometry
  have hsize : d.blockSize = s.device.blockSize := hd.blockSize.trans hb
  have hcount : d.blockCount = s.device.blockCount := hd.blockCount.trans hc
  have hfit : Fits d.blockSize d.blockCount.toNat entries.length := by
    rw [hsize, hcount]
    exact hf
  by_cases hs : d.blockSize ≤ 4096
  · obtain ⟨-, -, h₁, -⟩ := hfit.addresses
    have hnone : headerAt d 1 d.blockSize = none ↔
        ∀ r, parseAndVerifyHeader (slice d.bytes d.blockSize d.blockSize) ≠ .ok r := by
      rw [Option.eq_none_iff_forall_ne_some]
      apply forall_congr'
      intro r
      rw [Ne, headerAt_eq_of_read hs h₁ (read_header hfit), Nat.one_mul]
    rw [← hnone]
    constructor
    · rintro ⟨header, hr, -, -⟩
      refine ⟨hs, ?_⟩
      by_cases hn : headerAt d 1 d.blockSize = none
      · exact hn
      · obtain ⟨⟨raw, h⟩, hh⟩ := Option.ne_none_iff_exists'.mp hn
        rw [readGpt_of_primary (s := ⟨d, g⟩) hh, Prod.mk.injEq] at hr
        have hheader := header_of_tableOf hr.1
        rw [hheader] at hr
        exact absurd ⟨raw, h, entries, hh, hr.1⟩ hp
    · rintro ⟨-, hn⟩
      have hcopy := (holdsCopy_of_writeGpt hw).2
      rw [← hb, ← hc] at hcopy
      have hfit' : Fits s'.device.blockSize s'.device.blockCount.toNat entries.length := by
        rw [hb, hc]
        exact hf
      have hdamaged := hcopy.damaged hfit' hd
      rw [← hd.blockSize, ← hd.blockCount] at hdamaged
      obtain ⟨hh, htab⟩ := hdamaged.backup hfit hs
      have hlba := hfit.lastLba_lt
      have hend := hfit.end_lt
      refine ⟨_, (readGpt_of_backup (s := ⟨d, g⟩) hn hfit.blocks_pos hh).trans
        (congrArg (·, _) htab), ?_, ?_⟩
      · exact UInt64.toNat_ofNat_of_lt' hlba
      · change (UInt64.ofNat (backupEntriesLba (d.blockCount.toNat - 1))).toNat = _
        simp only [gptReservedLbas] at hend
        have hback : backupEntriesLba (d.blockCount.toNat - 1) = d.blockCount.toNat - 33 := by
          rw [backupEntriesLba, gptReservedLbas]
          omega
        have hlt : d.blockCount.toNat - 33 < 2 ^ 64 := by omega
        rw [hback, UInt64.toNat_ofNat_of_lt' hlt]
  · have hl := readGpt_of_large (s := ⟨d, g⟩) (Nat.lt_of_not_le hs)
    rw [hl]
    simp [hs]

/-! ### Two damaged disks -/

/-- A table of one entry goes through on a disk of forty blocks. -/
theorem writeGpt_forty : ∃ s' : State ByteStore,
    writeGpt [default] ⟨ByteStore.blank 512 40, 0⟩ = (.ok (), s') ∧
      s'.device.blockSize = 512 ∧ s'.device.blockCount = 40 ∧ s'.device.bytes.length = 20480 := by
  have hfit : Fits 512 40 ([default] : List GptEntry).length := by constructor <;> decide
  obtain ⟨s', hw⟩ := writeGpt_of_fits _ ⟨ByteStore.blank 512 40, 0⟩ hfit
  obtain ⟨-, ht, -⟩ := writeGpt_eq_ok.mp hw
  obtain ⟨hb, hc⟩ := ht.geometry
  refine ⟨s', hw, hb, hc, ?_⟩
  rw [s'.device.length_bytes, hb, hc]
  rfl

/-- A damaged signature is recovered from. -/
theorem readGpt_damaged_signature : ∃ s' d : State ByteStore,
    writeGpt [default] ⟨ByteStore.blank 512 40, 0⟩ = (.ok (), s') ∧
      d.device.bytes = splice s'.device.bytes 512 [0] ∧
      ∃ header, readGpt d = (.ok (header, [default]), d) := by
  obtain ⟨s', hw, hb, hc, hl⟩ := writeGpt_forty
  obtain ⟨d, hd, hbytes, hs, hcount⟩ := ByteStore.write_of_le s'.device 512 [0]
    (by rw [hl]; decide)
  have hdamaged : DamagedPrimary s'.device d ([default] : List GptEntry).length :=
    damagedPrimary_of_write hd (Nat.le_of_eq hb) (by rw [hb]; decide)
  have hrefused : ∀ r, parseAndVerifyHeader (slice d.bytes 512 512) ≠ .ok r := by
    intro r hv
    obtain ⟨-, hsig⟩ := slice_of_parseAndVerifyHeader hv
    have hfirst := congrArg (fun l ↦ l[0]?) hsig
    simp only [getElem?_slice, hbytes] at hfirst
    rw [if_pos (by decide), if_pos (by decide),
      getElem?_splice _ _ _ _ (by rw [hl]; decide), if_pos (by decide)] at hfirst
    exact absurd hfirst (by decide)
  have hintact : ¬ PrimaryIntact d := by
    rintro ⟨raw, h, -, hh, -⟩
    obtain ⟨block, hr, hv⟩ := headerAt_eq_some.mp hh
    obtain ⟨-, rfl⟩ := ByteStore.read_eq_some.mp (read_of_rawHeader hr)
    rw [hs, hb] at hv
    exact hrefused _ hv
  obtain ⟨header, hr, -⟩ := (readGpt_damaged hw hdamaged hintact 0).mpr
    ⟨by rw [hs, hb]; decide, by rw [hs, hb]; exact hrefused⟩
  exact ⟨s', ⟨d, 0⟩, hw, hbytes, header, hr⟩

/-- One byte of the checksum, the table's bit steps taken where they are used. -/
def crcStep (crc : UInt32) (byte : UInt8) : UInt32 :=
  Nat.repeat crcBit 8 (UInt32.ofNat (crc.toUInt8 ^^^ byte).toNat) ^^^ (crc >>> 8)

private theorem get_ofFn {α : Type} {n : Nat} (f : Fin n → α) (i : Fin n) :
    (Vector.ofFn f).get i = f i := by
  change (Vector.ofFn f)[i.val] = f i
  exact Vector.getElem_ofFn i.isLt

theorem crc32_eq_crcStep (data : List UInt8) : crc32 data = ~~~ data.foldl crcStep (~~~ 0) := by
  unfold crc32 crcStep crc32cTable
  simp only [get_ofFn]

/-- The zero entry with the first byte of its type changed. -/
def damagedEntry : GptEntry :=
  { (default : GptEntry) with typeGuid := Vector.ofFn fun i ↦ if i.val = 0 then 1 else 0 }

theorem serializeEntries_damagedEntry :
    serializeEntries [damagedEntry] = splice (serializeEntries [default]) 0 [1] := by
  decide

theorem crc32_damagedEntry :
    crc32 (serializeEntries [damagedEntry]) ≠ crc32 (serializeEntries [default]) := by
  intro h
  rw [serializeEntries_damagedEntry] at h
  have hfirst : crc32 [1] = crc32 [0] :=
    crc32_append_right (show crc32 ([1] ++ (serializeEntries [default]).drop 1) =
      crc32 ([0] ++ (serializeEntries [default]).drop 1) from h)
  rw [crc32_eq_crcStep, crc32_eq_crcStep] at hfirst
  exact absurd hfirst (by decide)

/-- One changed byte of the entry array behind an intact header: the array's checksum fails
after the primary header was chosen, and the intact backup copy is not used. -/
theorem readGpt_damaged_array : ∃ s' d : State ByteStore,
    writeGpt [default] ⟨ByteStore.blank 512 40, 0⟩ = (.ok (), s') ∧
      d.device.bytes = splice s'.device.bytes 1024 [1] ∧
      DamagedPrimary s'.device d.device 1 ∧ ¬ PrimaryIntact d.device ∧
      readGpt d = (.err .invalidEntriesCrc, d) := by
  have hfit : Fits 512 40 ([default] : List GptEntry).length := by constructor <;> decide
  obtain ⟨s', hw, hb, hc, hl⟩ := writeGpt_forty
  obtain ⟨d, hd, hbytes, hs, hcount⟩ := ByteStore.write_of_le s'.device 1024 [1]
    (by rw [hl]; decide)
  have hcopy : HoldsCopy s'.device 512 (primaryFields 39 (guidOf 0) [default]) [default] :=
    (holdsCopy_of_writeGpt hw).1
  have hinrange := primaryFields_inRange (guidOf 0) hfit
  -- The header block is in front of the changed byte, so it is read and accepted as written.
  have hheader : headerAt d 1 512 = some (_, (primaryFields 39 (guidOf 0) [default]).decoded) :=
    headerAt_of_sealedBlock hinrange (by decide) (by decide) (by decide)
      ((ByteStore.read_write_disjoint hd (.inl (by decide))).trans hcopy.header)
  have harray : d.read 1024 128 = some (serializeEntries [damagedEntry]) := by
    obtain ⟨hle, hold⟩ := ByteStore.read_eq_some.mp hcopy.array
    apply ByteStore.read_eq_some.mpr
    rw [ByteStore.length_write hd, hbytes, serializeEntries_damagedEntry, ← hold]
    exact ⟨hle, slice_splice_outer _ _ _ _ _ (by rw [hl]; decide) (by decide) (by decide)⟩
  have htable : tableOf d 512 (primaryFields 39 (guidOf 0) [default]).decoded =
      .err .invalidEntriesCrc := by
    rw [tableOf_of_entriesAt (entriesAt_decoded [damagedEntry] hinrange rfl (by decide)
      (by decide) harray)]
    exact if_neg crc32_damagedEntry
  rw [← hb, ← hs] at hheader htable
  refine ⟨s', ⟨d, 0⟩, hw, hbytes, ?_, ?_, ?_⟩
  · exact damagedPrimary_of_write hd (by rw [hb]; decide) (by rw [hb]; decide)
  · rintro ⟨raw, h, entries, hh, ht⟩
    change headerAt d 1 d.blockSize = _ at hh
    rw [hheader] at hh
    cases hh
    rw [htable] at ht
    cases ht
  · exact (readGpt_of_primary (s := ⟨d, 0⟩) hheader).trans (congrArg (·, _) htable)

end SmallOs.Gpt
