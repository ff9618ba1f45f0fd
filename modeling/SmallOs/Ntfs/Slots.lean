import SmallOs.Ntfs.Records
import SmallOs.Base.Run

/-!
# Slots of the MFT

The records of the MFT occupy disjoint windows of the image. A call of `create_file` claims
a slot that was not in use and rewrites the slot of the parent directory; it keeps every
other slot that was in use, over whole runs of calls.
-/

namespace SmallOs.Ntfs

open SmallOs.Base SmallOs.Hal

variable {driver : NtfsDriver}

/-! ### Windows -/

theorem recordOffset_eq_ok {n off : Nat} :
    driver.recordOffset n = .ok off ↔ ∃ base, driver.boot.mftByteOffset = .ok base ∧
      n * driver.mftRecordSize < 2 ^ 64 ∧ base + n * driver.mftRecordSize < 2 ^ 64 ∧
      base + n * driver.mftRecordSize = off := by
  simp only [NtfsDriver.recordOffset, Outcome.bind_eq_ok, Outcome.mulAt_eq_ok, Outcome.addAt_eq_ok]
  constructor
  · rintro ⟨base, hb, _, ⟨h₁, rfl⟩, h₂, h₃⟩
    exact ⟨base, hb, h₁, h₂, h₃⟩
  · rintro ⟨base, hb, h₁, h₂, h₃⟩
    exact ⟨base, hb, _, ⟨h₁, rfl⟩, h₂, h₃⟩

/-- Two records have no byte in common. -/
theorem recordOffset_disjoint {n m off off' : Nat} (hn : driver.recordOffset n = .ok off)
    (hm : driver.recordOffset m = .ok off') (hne : n ≠ m) :
    off + driver.mftRecordSize ≤ off' ∨ off' + driver.mftRecordSize ≤ off := by
  obtain ⟨base, hb, -, -, rfl⟩ := recordOffset_eq_ok.mp hn
  obtain ⟨base', hb', -, -, rfl⟩ := recordOffset_eq_ok.mp hm
  rw [hb] at hb'
  cases hb'
  by_cases hlt : n < m
  · have hle := Nat.mul_le_mul_right driver.mftRecordSize (show n + 1 ≤ m by omega)
    rw [Nat.add_mul] at hle
    omega
  · have hle := Nat.mul_le_mul_right driver.mftRecordSize (show m + 1 ≤ n by omega)
    rw [Nat.add_mul] at hle
    omega

theorem slot_eq_ok {d : ByteStore} {n : Nat} {buf : List UInt8} :
    slot driver d n = .ok buf ↔ ∃ off, driver.recordOffset n = .ok off ∧
      d.read off driver.mftRecordSize = some buf := by
  simp only [slot, Outcome.bind_eq_ok, Outcome.ofOption_eq_ok]

theorem length_slot {d : ByteStore} {n : Nat} {buf : List UInt8} (h : slot driver d n = .ok buf) :
    buf.length = driver.mftRecordSize := by
  obtain ⟨off, -, hr⟩ := slot_eq_ok.mp h
  obtain ⟨hle, rfl⟩ := ByteStore.read_eq_some.mp hr
  exact length_slice _ _ _ hle

/-- The bytes of a slot are bytes of the image. -/
theorem getElem?_of_slot {d : ByteStore} {n off i : Nat} {buf : List UInt8}
    (hs : slot driver d n = .ok buf) (ho : driver.recordOffset n = .ok off)
    (hi : i < driver.mftRecordSize) : d.bytes[off + i]? = buf[i]? := by
  obtain ⟨off', ho', hr⟩ := slot_eq_ok.mp hs
  rw [ho] at ho'
  cases ho'
  obtain ⟨-, rfl⟩ := ByteStore.read_eq_some.mp hr
  rw [getElem?_slice, if_pos hi]

/-- A write of a whole record is what the slot then holds. -/
theorem slot_write_same {d d' : ByteStore} {n off : Nat} {bytes : List UInt8}
    (ho : driver.recordOffset n = .ok off) (hl : bytes.length = driver.mftRecordSize)
    (hw : d.write off bytes = some d') : slot driver d' n = .ok bytes := by
  apply slot_eq_ok.mpr
  refine ⟨off, ho, ?_⟩
  rw [← hl]
  exact ByteStore.read_write_same hw

/-- A write of a whole record leaves the other slots alone. -/
theorem slot_write_other {d d' : ByteStore} {n m off : Nat} {bytes : List UInt8}
    (ho : driver.recordOffset n = .ok off) (hl : bytes.length = driver.mftRecordSize)
    (hw : d.write off bytes = some d') (hne : m ≠ n) : slot driver d' m = slot driver d m := by
  unfold slot
  cases hm : driver.recordOffset m with
  | err e => rfl
  | panic => rfl
  | ok off' =>
    have hd := recordOffset_disjoint ho hm (Ne.symm hne)
    rw [Outcome.ok_bind, Outcome.ok_bind, ByteStore.read_write_disjoint hw (by omega)]

theorem openRecord_eq_ok {buf record : List UInt8} :
    openRecord driver buf = .ok record ↔ 4 ≤ buf.length ∧ slice buf 0 4 = fileSignature ∧
      applyFixups buf driver.sectorSize = .ok record := by
  simp only [openRecord, Outcome.bind_eq_ok, sliceAt_eq_ok, Outcome.ensure_eq_ok]
  constructor
  · rintro ⟨_, ⟨h₁, rfl⟩, -, h₂, h₃⟩
    exact ⟨by omega, h₂, h₃⟩
  · rintro ⟨h₁, h₂, h₃⟩
    exact ⟨_, ⟨by omega, rfl⟩, (), h₂, h₃⟩

theorem recordAt_eq_ok {d : ByteStore} {n : Nat} {record : List UInt8} :
    recordAt driver d n = .ok record ↔ ∃ buf, slot driver d n = .ok buf ∧
      openRecord driver buf = .ok record := by
  rw [recordAt, Outcome.bind_eq_ok]

theorem length_recordAt {d : ByteStore} {n : Nat} {record : List UInt8}
    (h : recordAt driver d n = .ok record) : record.length = driver.mftRecordSize := by
  obtain ⟨buf, hs, ho⟩ := recordAt_eq_ok.mp h
  obtain ⟨-, -, hfix⟩ := openRecord_eq_ok.mp ho
  rw [(applyFixups_untouched hfix).1, length_slot hs]

/-! ### Slots in use -/

/-- The slot can be read and carries one of the two signatures. -/
def SlotInUse (driver : NtfsDriver) (d : ByteStore) (n : Nat) : Prop :=
  ∃ buf, slot driver d n = .ok buf ∧ inUse buf

/-- The slot can be read and carries neither signature. -/
def SlotFree (driver : NtfsDriver) (d : ByteStore) (n : Nat) : Prop :=
  ∃ buf, slot driver d n = .ok buf ∧ ¬ inUse buf

theorem SlotFree.not_inUse {d : ByteStore} {n : Nat} (h : SlotFree driver d n) :
    ¬ SlotInUse driver d n := by
  obtain ⟨buf, hs, hf⟩ := h
  rintro ⟨buf', hs', hu⟩
  rw [hs] at hs'
  cases hs'
  exact hf hu

/-- The first free slot of a range. -/
def FirstFree (driver : NtfsDriver) (d : ByteStore) (lo hi n : Nat) : Prop :=
  lo ≤ n ∧ n < hi ∧ SlotFree driver d n ∧ ∀ m, lo ≤ m → m < n → ¬ SlotFree driver d m

/-- A slot that is passed by moves the start of the range. -/
theorem FirstFree.of_succ {d : ByteStore} {lo hi n : Nat} (hno : ¬ SlotFree driver d lo)
    (h : FirstFree driver d (lo + 1) hi n) : FirstFree driver d lo hi n := by
  obtain ⟨h₁, h₂, h₃, h₄⟩ := h
  refine ⟨by omega, h₂, h₃, ?_⟩
  intro m hm hlt
  by_cases he : m = lo
  · exact he ▸ hno
  · exact h₄ m (by omega) hlt

/-- The scan returns the first free slot, or `NoSpace` when the range has none. -/
theorem scanFrom_cases (driver : NtfsDriver) (d : ByteStore) (num count : Nat) :
    (∃ n, scanFrom driver d num count = .ok n ∧ FirstFree driver d num (num + count) n) ∨
      (scanFrom driver d num count = .err .noSpace ∧
        ∀ m, num ≤ m → m < num + count → ¬ SlotFree driver d m) ∨
      scanFrom driver d num count = .panic := by
  induction count generalizing num with
  | zero => exact .inr (.inl ⟨rfl, fun m h₁ h₂ ↦ by omega⟩)
  | succ count ih =>
    have next : ¬ SlotFree driver d num →
        scanFrom driver d num (count + 1) = scanFrom driver d (num + 1) count →
        (∃ n, scanFrom driver d num (count + 1) = .ok n ∧
          FirstFree driver d num (num + (count + 1)) n) ∨
        (scanFrom driver d num (count + 1) = .err .noSpace ∧
          ∀ m, num ≤ m → m < num + (count + 1) → ¬ SlotFree driver d m) ∨
        scanFrom driver d num (count + 1) = .panic := by
      intro hno hscan
      rw [hscan, show num + (count + 1) = num + 1 + count by omega]
      rcases ih (num + 1) with ⟨n, hn, hfirst⟩ | ⟨hn, hall⟩ | hn
      · exact .inl ⟨n, hn, hfirst.of_succ hno⟩
      · refine .inr (.inl ⟨hn, ?_⟩)
        intro m hm hlt
        by_cases he : m = num
        · exact he ▸ hno
        · exact hall m (by omega) hlt
      · exact .inr (.inr hn)
    cases ho : driver.recordOffset num with
    | err e => exact absurd ho recordOffset_ne_err
    | panic =>
      refine .inr (.inr ?_)
      rw [scanFrom, ho]
      rfl
    | ok off =>
      cases hr : d.read off driver.mftRecordSize with
      | none =>
        apply next
        · rintro ⟨buf, hs, -⟩
          rw [slot, ho, Outcome.ok_bind, hr] at hs
          cases hs
        · rw [scanFrom, ho, Outcome.ok_bind, hr]
      | some buf =>
        have hslot : slot driver d num = .ok buf := slot_eq_ok.mpr ⟨off, ho, hr⟩
        by_cases h₄ : 4 ≤ buf.length
        · by_cases hu : inUse buf
          · apply next
            · exact fun hf ↦ hf.not_inUse ⟨buf, hslot, hu⟩
            · rw [scanFrom, ho, Outcome.ok_bind, hr]
              simp only [Outcome.assert_of h₄, Outcome.ok_bind, if_pos hu]
          · refine .inl ⟨num, ?_, Nat.le_refl _, by omega, ⟨buf, hslot, hu⟩, fun m h₁ h₂ ↦ by omega⟩
            rw [scanFrom, ho, Outcome.ok_bind, hr]
            simp only [Outcome.assert_of h₄, Outcome.ok_bind, if_neg hu]
            rfl
        · refine .inr (.inr ?_)
          rw [scanFrom, ho, Outcome.ok_bind, hr]
          simp only [Outcome.assert_not h₄]
          rfl

/-- A free slot that the scan comes to is taken. -/
theorem scanFrom_of_free {d : ByteStore} {num : Nat} (count : Nat) (h : SlotFree driver d num)
    (h₄ : 4 ≤ driver.mftRecordSize) : scanFrom driver d num (count + 1) = .ok num := by
  obtain ⟨buf, hs, hf⟩ := h
  have hl := length_slot hs
  obtain ⟨off, ho, hr⟩ := slot_eq_ok.mp hs
  rw [scanFrom, ho, Outcome.ok_bind, hr]
  simp only [Outcome.assert_of (show 4 ≤ buf.length by omega), Outcome.ok_bind, if_neg hf]
  rfl

/-- A number that the scan returns is the first free slot. -/
theorem scanFrom_ok {d : ByteStore} {num count n : Nat}
    (h : scanFrom driver d num count = .ok n) : FirstFree driver d num (num + count) n := by
  rcases scanFrom_cases driver d num count with ⟨m, hm, hf⟩ | ⟨hm, -⟩ | hm
  · rw [h] at hm
    cases hm
    exact hf
  · rw [h] at hm
    cases hm
  · rw [h] at hm
    cases hm

/-! ### Signatures -/

/-- The buffer starts with `FILE`. -/
def HasSignature (buf : List UInt8) : Prop := slice buf 0 4 = fileSignature

theorem HasSignature.inUse {buf : List UInt8} (h : HasSignature buf) : inUse buf := .inl h

/-- The signature is a matter of the first four bytes. -/
theorem HasSignature.congr {b b' : List UInt8} (h : HasSignature b)
    (hb : ∀ p, p < 4 → b'[p]? = b[p]?) : HasSignature b' := by
  unfold HasSignature at *
  rw [← h]
  apply slice_congr
  intro p _ hp
  exact hb p (by omega)

/-- A record that opens has the signature, in 512-byte sectors also behind its fixups. -/
theorem hasSignature_of_recordAt (h512 : driver.sectorSize = 512) {d : ByteStore} {n : Nat}
    {record : List UInt8} (h : recordAt driver d n = .ok record) : HasSignature record := by
  obtain ⟨buf, -, ho⟩ := recordAt_eq_ok.mp h
  obtain ⟨-, hsig, hfix⟩ := openRecord_eq_ok.mp ho
  apply HasSignature.congr hsig
  intro p hp
  apply (applyFixups_untouched hfix).2
  rintro ⟨i, hi, -, hle, -⟩
  rw [h512] at hle
  omega

theorem hasSignature_of_reapplyFixups {buf r : List UInt8} (h : HasSignature buf)
    (hr : reapplyFixups buf 512 = .ok r) : HasSignature r := by
  apply h.congr
  intro p hp
  exact reapplyFixups_low hr (by omega) (by omega)

/-- An index root does not start inside the signature. -/
theorem four_le_of_leAt {record : List UInt8} {attr : Nat} (h : HasSignature record)
    (hl : attr + 8 ≤ record.length) (hc : leAt record attr 4 = 0x90) : 4 ≤ attr := by
  by_cases hlt : attr < 4
  · have hfirst := getElem?_of_leAt record attr 4 (by decide) (by omega)
    have hsig := congrArg (fun l ↦ l[attr]?) h
    simp only [getElem?_slice, if_pos hlt, Nat.zero_add] at hsig
    rw [hfirst, hc] at hsig
    have hcases : attr = 0 ∨ attr = 1 ∨ attr = 2 ∨ attr = 3 := by omega
    rcases hcases with rfl | rfl | rfl | rfl <;> exact absurd hsig (by decide)
  · omega

theorem hasSignature_of_insertResident {record r : List UInt8} {parent child : Nat}
    {name : List Char} (h : HasSignature record)
    (hi : insertResident record parent child name = .ok r) : HasSignature r := by
  obtain ⟨-, attr, ha, hkeep⟩ := insertResident_keeps hi
  obtain ⟨-, hl, hc⟩ := findAttributeOffset_eq_ok ha
  have hattr := four_le_of_leAt h hl hc
  apply h.congr
  intro p hp
  exact hkeep p (by omega) (by omega)

/-! ### The two records that a call writes -/

/-- A built record is one record long and starts with the header. -/
theorem buildMftRecord_spec {n : Nat} {name : List Char} {parent : Nat} {isDirectory : Bool}
    {data built : List UInt8}
    (h : buildMftRecord driver n name parent isDirectory data = .ok built) :
    built.length = driver.mftRecordSize ∧
      ∃ used rest, built = recordHeader n driver.mftRecordSize used ++ rest := by
  simp only [buildMftRecord, Outcome.bind_eq_ok, Outcome.assert_eq_ok, Outcome.pure_eq_ok,
    Outcome.ok.injEq] at h
  obtain ⟨-, -, info, -, filename, -, content, -, -, hfit, rfl⟩ := h
  refine ⟨?_, _, _, rfl⟩
  simp only [List.length_append, length_recordHeader, length_leBytes, List.length_replicate]
  omega

/-- The header carries the signature and an array of two saved words at offset 48. -/
theorem recordHeader_append (n size used : Nat) (rest : List UInt8) :
    HasSignature (recordHeader n size used ++ rest) ∧
      leAt (recordHeader n size used ++ rest) 4 2 = 48 ∧
      leAt (recordHeader n size used ++ rest) 6 2 = 3 := by
  have hl := length_recordHeader n size used
  refine ⟨?_, ?_, ?_⟩
  · rw [HasSignature, slice_append_left _ _ _ _ (by omega)]
    rfl
  · rw [leAt_append_left _ _ _ _ (by omega)]
    rfl
  · rw [leAt_append_left _ _ _ _ (by omega)]
    rfl

/-- The prepared record fills its slot, and the slot can be written. -/
theorem prepared_placed {d : ByteStore} {parent : NtfsFile} {name : List Char}
    {options : CreateOptions} {n : Nat} {record : List UInt8}
    (h : prepared driver d parent name options = .ok (n, record)) :
    record.length = driver.mftRecordSize ∧
      ∃ off d₁, driver.recordOffset n = .ok off ∧ d.write off record = some d₁ := by
  obtain ⟨-, -, -, hscan, built, hbuilt, hmark⟩ := prepared_eq_ok.mp h
  have hl : record.length = driver.mftRecordSize := by
    rw [(reapplyFixups_untouched hmark).1, (buildMftRecord_spec hbuilt).1]
  obtain ⟨buf, hs, -⟩ := (scanFrom_ok hscan).2.2.1
  obtain ⟨off, hoff, hr⟩ := slot_eq_ok.mp hs
  obtain ⟨hle, -⟩ := ByteStore.read_eq_some.mp hr
  obtain ⟨d₁, hw, -⟩ := ByteStore.write_of_le d off record (by rwa [hl])
  exact ⟨hl, off, d₁, hoff, hw⟩

/-- A built record that has been marked starts with the signature and opens. -/
theorem built_opens (h512 : driver.sectorSize = 512) {n : Nat} {name : List Char} {parent : Nat}
    {isDirectory : Bool} {data built record : List UInt8}
    (hbuilt : buildMftRecord driver n name parent isDirectory data = .ok built)
    (hmark : reapplyFixups built driver.sectorSize = .ok record) :
    HasSignature record ∧ ∃ opened, openRecord driver record = .ok opened := by
  obtain ⟨-, used, rest, rfl⟩ := buildMftRecord_spec hbuilt
  obtain ⟨hsig, huso, husc⟩ := recordHeader_append n driver.mftRecordSize used rest
  rw [h512] at hmark
  have hsig' := hasSignature_of_reapplyFixups hsig hmark
  obtain ⟨opened, hopened, -⟩ := applyFixups_reapplyFixups hmark (by
    intro _ _
    rw [huso, husc]
    decide)
  refine ⟨hsig', opened, openRecord_eq_ok.mpr ⟨?_, hsig', by rwa [h512]⟩⟩
  have hl := (reapplyFixups_untouched hmark).1
  rw [hl, List.length_append, length_recordHeader]
  omega

/-- The prepared record starts with the signature and opens. -/
theorem prepared_opens (h512 : driver.sectorSize = 512) {d : ByteStore} {parent : NtfsFile}
    {name : List Char} {options : CreateOptions} {n : Nat} {record : List UInt8}
    (h : prepared driver d parent name options = .ok (n, record)) :
    HasSignature record ∧ ∃ opened, openRecord driver record = .ok opened := by
  obtain ⟨-, -, -, -, built, hbuilt, hmark⟩ := prepared_eq_ok.mp h
  exact built_opens h512 hbuilt hmark

theorem residentPlan_eq_ok {record : List UInt8} {parent child off : Nat} {name : List Char}
    {bytes : List UInt8} :
    residentPlan driver record parent child name = .ok (off, bytes) ↔
      ∃ entered, insertResident record parent child name = .ok entered ∧
        reapplyFixups entered driver.sectorSize = .ok bytes ∧
        driver.recordOffset parent = .ok off := by
  simp only [residentPlan, Outcome.bind_eq_ok, Outcome.pure_eq_ok, Outcome.ok.injEq, Prod.mk.injEq]
  constructor
  · rintro ⟨entered, h₁, _, h₂, _, h₃, rfl, rfl⟩
    exact ⟨entered, h₁, h₂, h₃⟩
  · rintro ⟨entered, h₁, h₂, h₃⟩
    exact ⟨entered, h₁, bytes, h₂, off, h₃, rfl, rfl⟩

/-- A resident entry is written as a whole record over the parent's. -/
theorem length_residentPlan {record : List UInt8} {parent child off : Nat} {name : List Char}
    {bytes : List UInt8} (h : residentPlan driver record parent child name = .ok (off, bytes)) :
    bytes.length = record.length := by
  obtain ⟨entered, hi, hmark, -⟩ := residentPlan_eq_ok.mp h
  rw [(reapplyFixups_untouched hmark).1, (insertResident_keeps hi).1]

/-- How an entry is planned: from the parent's record, resident first. -/
theorem entryPlan_eq_ok {d : ByteStore} {parent child : Nat} {name : List Char}
    {w : Nat × List UInt8} :
    entryPlan driver d parent child name = .ok w ↔ ∃ record, recordAt driver d parent = .ok record ∧
      (residentPlan driver record parent child name = .ok w ∨
        (residentPlan driver record parent child name = .err .noSpace ∧
          (findAttributeOffset record 0xA0).isOk = true ∧
          externalPlan driver d record parent child name = .ok w)) := by
  rw [entryPlan, Outcome.bind_eq_ok]
  apply exists_congr
  intro record
  apply and_congr_right
  intro _
  by_cases hext : (findAttributeOffset record 0xA0).isOk = true
  · rw [if_pos hext]
    cases hp : residentPlan driver record parent child name with
    | ok w' => simp
    | panic => simp
    | err e => cases e <;> simp [hext]
  · rw [if_neg hext]
    simp [hext]

/-- The block that takes an external entry is written where it was read. -/
theorem externalPlan_eq_ok {d : ByteStore} {record : List UInt8} {parent child : Nat}
    {name : List Char} {off : Nat} {bytes : List UInt8} :
    externalPlan driver d record parent child name = .ok (off, bytes) ↔
      ∃ size idxBuf, locateExternal driver.boot record = .ok (off, size) ∧
        d.read off size = some idxBuf ∧ insertExternal idxBuf parent child name = .ok bytes := by
  simp only [externalPlan, Outcome.bind_eq_ok, Outcome.ofOption_eq_ok, Outcome.pure_eq_ok,
    Outcome.ok.injEq, Prod.mk.injEq]
  constructor
  · rintro ⟨⟨_, size⟩, h₁, idxBuf, h₂, _, h₃, rfl, rfl⟩
    exact ⟨size, idxBuf, h₁, h₂, h₃⟩
  · rintro ⟨size, idxBuf, h₁, h₂, h₃⟩
    exact ⟨(off, size), h₁, idxBuf, h₂, bytes, h₃, rfl, rfl⟩

/-- A planned entry is written where its old bytes were read. -/
theorem entryPlan_writable {d : ByteStore} {parent child : Nat} {name : List Char} {off : Nat}
    {bytes : List UInt8} (h : entryPlan driver d parent child name = .ok (off, bytes)) :
    ∃ d', d.write off bytes = some d' := by
  have hle : off + bytes.length ≤ d.bytes.length := by
    obtain ⟨record, hrec, hres | ⟨-, -, hext⟩⟩ := entryPlan_eq_ok.mp h
    · obtain ⟨buf, hs, -⟩ := recordAt_eq_ok.mp hrec
      obtain ⟨off', hoff', hr⟩ := slot_eq_ok.mp hs
      obtain ⟨_, -, -, hoff⟩ := residentPlan_eq_ok.mp hres
      rw [hoff] at hoff'
      cases hoff'
      rw [length_residentPlan hres, length_recordAt hrec]
      exact (ByteStore.read_eq_some.mp hr).1
    · obtain ⟨size, idxBuf, -, hr, hins⟩ := externalPlan_eq_ok.mp hext
      obtain ⟨hfit, rfl⟩ := ByteStore.read_eq_some.mp hr
      rw [length_insertExternal hins, length_slice _ _ _ hfit]
      exact hfit
  obtain ⟨d', hw, -⟩ := ByteStore.write_of_le d off bytes hle
  exact ⟨d', hw⟩

/-! ### One call -/

/-- How `create_file` ends on a byte store: it writes nothing, or it writes the new record
and stops in front of the index, or it writes both and opens the new record. -/
theorem createFile_cases {d d' : ByteStore} {parent : NtfsFile} {name : List Char}
    {options : CreateOptions} {r : Outcome NtfsError NtfsFile}
    (h : createFile driver parent name options d = (r, d')) :
    (d' = d ∧ ∀ f, r ≠ .ok f) ∨
      ∃ n record off d₁, prepared driver d parent name options = .ok (n, record) ∧
        driver.recordOffset n = .ok off ∧ d.write off record = some d₁ ∧
        ((d' = d₁ ∧ ((∃ e, entryPlan driver d₁ parent.recordNumber n name = .err e ∧ r = .err e) ∨
            entryPlan driver d₁ parent.recordNumber n name = .panic ∧ r = .panic)) ∨
          ∃ off' bytes, entryPlan driver d₁ parent.recordNumber n name = .ok (off', bytes) ∧
            d₁.write off' bytes = some d' ∧ r = (fun _ ↦ ⟨n⟩) <$> recordAt driver d' n) := by
  by_cases hp : ∃ w, prepared driver d parent name options = .ok w
  · obtain ⟨⟨n, record⟩, hprep⟩ := hp
    obtain ⟨-, off, d₁, hoff, hw⟩ := prepared_placed hprep
    refine .inr ⟨n, record, off, d₁, hprep, hoff, hw, ?_⟩
    cases hplan : entryPlan driver d₁ parent.recordNumber n name with
    | err e =>
      rw [createFile_refused hprep hoff hw hplan] at h
      cases h
      exact .inl ⟨rfl, .inl ⟨e, rfl, rfl⟩⟩
    | panic =>
      rw [createFile_placed hprep hoff hw, hplan] at h
      cases h
      exact .inl ⟨rfl, .inr ⟨rfl, rfl⟩⟩
    | ok w =>
      obtain ⟨off', bytes⟩ := w
      obtain ⟨d₂, hw'⟩ := entryPlan_writable hplan
      rw [createFile_taken hprep hoff hw hplan hw'] at h
      cases h
      exact .inr ⟨off', bytes, rfl, hw', rfl⟩
  · have hnone := createFile_unprepared d parent name options fun w hw ↦ hp ⟨w, hw⟩
    rw [h] at hnone
    exact .inl hnone

/-- The arguments of a call of `create_file`. -/
structure CreateInput where
  parent : NtfsFile
  name : List Char
  options : CreateOptions

/-- A call of `create_file` between two images. -/
abbrev CreateCall := Call ByteStore CreateInput (Outcome NtfsError NtfsFile)

/-- The call is what the code does. -/
def IsCreate (driver : NtfsDriver) (x : CreateCall) : Prop :=
  createFile driver x.input.parent x.input.name x.input.options x.before = (x.output, x.after)

/-- The record number that a successful call returns. -/
def created (x : CreateCall) : Option Nat :=
  match x.output with
  | .ok f => some f.recordNumber
  | _ => none

/-- The directory has no `$INDEX_ALLOCATION` attribute. -/
def NoAllocation (driver : NtfsDriver) (d : ByteStore) (dir : NtfsFile) : Prop :=
  (recordAt driver d dir.recordNumber >>= (findAttributeOffset · 0xA0)).isOk = false

instance (driver : NtfsDriver) (d : ByteStore) (dir : NtfsFile) :
    Decidable (NoAllocation driver d dir) := inferInstanceAs (Decidable (_ = false))

/-- A slot of the image after the call: as before, or the parent's with its signature. -/
def SlotKept (driver : NtfsDriver) (x : CreateCall) (n : Nat) : Prop :=
  slot driver x.after n = slot driver x.before n ∨
    (n = x.input.parent.recordNumber ∧
      ∃ buf, slot driver x.after n = .ok buf ∧ HasSignature buf)

/-- The slot that a call claims is free before it, and not the parent's. -/
theorem prepared_claims {d : ByteStore} {parent : NtfsFile} {name : List Char}
    {options : CreateOptions} {n : Nat} {record : List UInt8}
    (h : prepared driver d parent name options = .ok (n, record)) :
    FirstFree driver d 16 100000 n ∧ n ≠ parent.recordNumber := by
  obtain ⟨-, hfind, -, hscan, -⟩ := prepared_eq_ok.mp h
  have hfirst : FirstFree driver d 16 100000 n := scanFrom_ok hscan
  refine ⟨hfirst, ?_⟩
  rintro rfl
  obtain ⟨data, hdata, -⟩ := find_eq_fileNotFound.mp hfind
  obtain ⟨parentRecord, hr⟩ := recordAt_of_indexAt hdata
  obtain ⟨buf, hs, ho⟩ := recordAt_eq_ok.mp hr
  obtain ⟨-, hsig, -⟩ := openRecord_eq_ok.mp ho
  exact hfirst.2.2.1.not_inUse ⟨buf, hs, .inl hsig⟩

/-- A write over another slot than the directory's does not change how it reads. -/
theorem recordAt_write_other {d d' : ByteStore} {n m off : Nat} {bytes : List UInt8}
    (ho : driver.recordOffset n = .ok off) (hl : bytes.length = driver.mftRecordSize)
    (hw : d.write off bytes = some d') (hne : m ≠ n) :
    recordAt driver d' m = recordAt driver d m := by
  rw [recordAt, slot_write_other ho hl hw hne, recordAt]

/-- One call keeps every slot that is in use, the parent's signature included. -/
theorem slotKept_of_isCreate (h512 : driver.sectorSize = 512) {x : CreateCall}
    (hx : IsCreate driver x) (hno : NoAllocation driver x.before x.input.parent) {n : Nat}
    (hu : SlotInUse driver x.before n) : SlotKept driver x n := by
  rcases createFile_cases hx with ⟨hd, -⟩ | ⟨m, record, off, d₁, hprep, hoff, hw, hrest⟩
  · left
    rw [hd]
  obtain ⟨hfree, hparent⟩ := prepared_claims hprep
  have hlen := (prepared_placed hprep).1
  have hnm : n ≠ m := by
    rintro rfl
    exact hfree.2.2.1.not_inUse hu
  have hfirst := slot_write_other hoff hlen hw hnm
  rcases hrest with ⟨hd, -⟩ | ⟨off', bytes, hplan, hw', -⟩
  · left
    rw [hd, hfirst]
  obtain ⟨parentRecord, hrec, hres | ⟨-, hext, -⟩⟩ := entryPlan_eq_ok.mp hplan
  · have hbytes : bytes.length = driver.mftRecordSize := by
      rw [length_residentPlan hres, length_recordAt hrec]
    obtain ⟨entered, hins, hmark, hoff'⟩ := residentPlan_eq_ok.mp hres
    by_cases hn : n = x.input.parent.recordNumber
    · subst hn
      refine .inr ⟨rfl, bytes, slot_write_same hoff' hbytes hw', ?_⟩
      rw [h512] at hmark
      apply hasSignature_of_reapplyFixups _ hmark
      exact hasSignature_of_insertResident (hasSignature_of_recordAt h512 hrec) hins
    · left
      rw [slot_write_other hoff' hbytes hw' hn, hfirst]
  · rw [NoAllocation, ← recordAt_write_other hoff hlen hw (Ne.symm hparent), hrec,
      Outcome.ok_bind, hext] at hno
    cases hno

/-- A successful call claims a slot behind the system files that was not in use, and leaves it
in use. -/
theorem created_spec {x : CreateCall} (hx : IsCreate driver x) {k : Nat}
    (hk : created x = some k) :
    16 ≤ k ∧ ¬ SlotInUse driver x.before k ∧ SlotInUse driver x.after k := by
  unfold created at hk
  split at hk
  · next f hout =>
    cases hk
    rcases createFile_cases hx with ⟨-, hne⟩ | ⟨n, record, off, d₁, hprep, -, -, hrest⟩
    · exact absurd hout (hne f)
    rcases hrest with ⟨-, ⟨e, -, hr⟩ | ⟨-, hr⟩⟩ | ⟨off', bytes, -, -, hr⟩
    · rw [hr] at hout
      cases hout
    · rw [hr] at hout
      cases hout
    obtain ⟨hfree, -⟩ := prepared_claims hprep
    rw [hout] at hr
    cases hopen : recordAt driver x.after n with
    | err e =>
      rw [hopen] at hr
      cases hr
    | panic =>
      rw [hopen] at hr
      cases hr
    | ok opened =>
      rw [hopen] at hr
      cases hr
      obtain ⟨buf, hs, ho⟩ := recordAt_eq_ok.mp hopen
      obtain ⟨-, hsig, -⟩ := openRecord_eq_ok.mp ho
      exact ⟨hfree.1, hfree.2.2.1.not_inUse, buf, hs, .inl hsig⟩
  · cases hk

/-! ### A small volume -/

/-- The driver of the small volume. -/
def smallDriver : NtfsDriver := { boot := smallBoot, mftRecordSize := 1024 }

/-- An image of eighteen records, all of them free but the given one in slot 5. -/
def smallVolume (record : List UInt8) : ByteStore :=
  ((ByteStore.blank 512 36).write 5120 record).getD (ByteStore.blank 512 36)

/-- A directory with an empty resident root that may grow to `allocated` bytes. -/
def emptyDirectory (allocated : Nat) : List UInt8 :=
  recordHeader 0 1024 (104 + allocated) ++
    (residentHeader 0x90 (40 + allocated) (16 + allocated) 0 ++ (leBytes 4 0x30 ++ (leBytes 4 0 ++
      (leBytes 4 1024 ++ (leBytes 4 1 ++ (leBytes 4 16 ++ (leBytes 4 32 ++ (leBytes 4 allocated ++
        (leBytes 4 0 ++ (leBytes 8 0 ++ (leBytes 2 16 ++ (leBytes 2 0 ++ (leBytes 2 2 ++
          (leBytes 2 0 ++ (List.replicate (allocated - 32) 0 ++ (leBytes 4 0xFFFFFFFF ++
            List.replicate (924 - allocated) 0))))))))))))))))

/-- The arguments of creating an empty file in record 5. -/
def smallInput (name : List Char) : CreateInput :=
  { parent := ⟨5⟩, name, options := { isDirectory := false, data := [] } }

theorem smallDriver_recordOffset (n : Nat) (h : n < 100000) :
    smallDriver.recordOffset n = .ok (n * 1024) := by
  apply recordOffset_eq_ok.mpr
  exact ⟨0, by decide, by change n * 1024 < _; omega, by change 0 + n * 1024 < _; omega,
    by change 0 + n * 1024 = _; omega⟩

theorem smallVolume_write {record : List UInt8} (hl : record.length = 1024) :
    (ByteStore.blank 512 36).write 5120 record = some (smallVolume record) := by
  obtain ⟨t, ht, -⟩ := ByteStore.write_of_le (ByteStore.blank 512 36) 5120 record
    (by rw [ByteStore.length_eq_size, hl]; decide)
  rw [smallVolume, ht, Option.getD_some]

theorem slot_smallVolume {record : List UInt8} (hl : record.length = 1024) :
    slot smallDriver (smallVolume record) 5 = .ok record :=
  slot_write_same (smallDriver_recordOffset 5 (by decide)) hl (smallVolume_write hl)

theorem length_smallVolume {record : List UInt8} (hl : record.length = 1024) :
    (smallVolume record).bytes.length = 18432 := by
  rw [ByteStore.length_write (smallVolume_write hl), ByteStore.length_eq_size]
  rfl

/-- The small volume is blank apart from its one record. -/
theorem slice_smallVolume {record : List UInt8} (hl : record.length = 1024) {off len : Nat}
    (hfit : off + len ≤ 18432) (hapart : off + len ≤ 5120 ∨ 6144 ≤ off) :
    slice (smallVolume record).bytes off len = List.replicate len 0 := by
  obtain ⟨hle, hbytes, -⟩ := ByteStore.write_eq_some.mp (smallVolume_write hl)
  rw [hbytes, slice_splice_disjoint _ _ _ _ _ hle (by omega), ByteStore.blank, slice,
    List.drop_replicate, List.take_replicate, Nat.min_eq_left]
  change len ≤ 18432 - off
  omega

/-- Every other slot is blank. -/
theorem slot_smallVolume_other {record : List UInt8} (hl : record.length = 1024) {n : Nat}
    (hn : n < 18) (hne : n ≠ 5) :
    slot smallDriver (smallVolume record) n = .ok (List.replicate 1024 0) := by
  apply slot_eq_ok.mpr
  refine ⟨n * 1024, smallDriver_recordOffset n (by omega), ?_⟩
  apply ByteStore.read_eq_some.mpr
  constructor
  · rw [length_smallVolume hl]
    change n * 1024 + 1024 ≤ 18432
    omega
  · change slice (smallVolume record).bytes (n * 1024) 1024 = _
    exact slice_smallVolume hl (by omega) (by omega)

theorem slot_smallVolume_sixteen {record : List UInt8} (hl : record.length = 1024) :
    slot smallDriver (smallVolume record) 16 = .ok (List.replicate 1024 0) :=
  slot_smallVolume_other hl (by decide) (by decide)

/-- The bytes of the new file's record. -/
def smallRecord (name : List Char) : Outcome NtfsError (List UInt8) :=
  buildMftRecord smallDriver 16 name 5 false [] >>= (reapplyFixups · 512)

/-- The write of the directory that takes the new entry. -/
def smallPlan (record : List UInt8) (name : List Char) : Outcome NtfsError (Nat × List UInt8) :=
  openRecord smallDriver record >>= (residentPlan smallDriver · 5 16 name)

theorem smallPlan_eq {record opened : List UInt8} (hopen : openRecord smallDriver record = .ok opened)
    (name : List Char) : smallPlan record name = residentPlan smallDriver opened 5 16 name := by
  rw [smallPlan, hopen, Outcome.ok_bind]

/-- A new record that is built can also be marked and opened. -/
theorem smallRecord_opens {name : List Char}
    (hbuilt : (buildMftRecord smallDriver 16 name 5 false []).isOk = true) :
    ∃ marked, smallRecord name = .ok marked ∧ HasSignature marked ∧
      ∃ opened, openRecord smallDriver marked = .ok opened := by
  obtain ⟨built, hbuilt⟩ := Outcome.isOk_iff.mp hbuilt
  have hl : built.length = 1024 := (buildMftRecord_spec hbuilt).1
  obtain ⟨huso, husc⟩ : leAt built 4 2 = 48 ∧ leAt built 6 2 = 3 := by
    obtain ⟨-, used, rest, rfl⟩ := buildMftRecord_spec hbuilt
    exact (recordHeader_append 16 smallDriver.mftRecordSize used rest).2
  obtain ⟨marked, hmark⟩ : ∃ marked, reapplyFixups built 512 = .ok marked :=
    reapplyFixups_returns (by omega) (by decide) (by omega) (by omega)
  refine ⟨marked, ?_, built_opens rfl hbuilt hmark⟩
  rw [smallRecord, hbuilt, Outcome.ok_bind, hmark]

/-- A record whose array and both sector ends are zeros opens as it is. -/
theorem openRecord_zeros {record : List UInt8} (hl : record.length = 1024)
    (hsig : HasSignature record) (huso : leAt record 4 2 = 48) (husc : leAt record 6 2 = 3)
    (hwords : slice record 48 2 = [0, 0] ∧ slice record 50 2 = [0, 0] ∧ slice record 52 2 = [0, 0])
    (hfirst : slice record 510 2 = [0, 0]) (hsecond : slice record 1022 2 = [0, 0]) :
    openRecord smallDriver record = .ok record := by
  refine openRecord_eq_ok.mpr ⟨by omega, hsig, ?_⟩
  change applyFixups record 512 = _
  apply applyFixups_same (by omega) (by decide) (by omega) (by omega)
  rw [huso, husc]
  intro i h₁ h₂
  obtain rfl | rfl : i = 1 ∨ i = 2 := by omega
  · exact ⟨by rw [leAt, leAt, hfirst, hwords.1], by rw [hwords.2.1, hfirst]⟩
  · exact ⟨by rw [leAt, leAt, hsecond, hwords.1], by rw [hwords.2.2, hsecond]⟩

/-- A record with a new header and zeros up to both sector ends opens as it is. -/
theorem openRecord_recordHeader {used n : Nat} {rest record : List UInt8}
    (hr : record = recordHeader 0 1024 used ++ rest) (hl : record.length = 1024)
    (hzeros : List.replicate n 0 <:+ record) (hn : 514 ≤ n) :
    openRecord smallDriver record = .ok record := by
  have hfirst : slice record 510 2 = [0, 0] := slice_of_suffix hzeros (by omega) (by omega)
  have hsecond : slice record 1022 2 = [0, 0] := slice_of_suffix hzeros (by omega) (by omega)
  have hhead := length_recordHeader 0 1024 used
  obtain ⟨hsig, huso, husc⟩ : HasSignature record ∧ leAt record 4 2 = 48 ∧ leAt record 6 2 = 3 := by
    rw [hr]
    exact recordHeader_append 0 1024 used rest
  have hwords : slice record 48 2 = [0, 0] ∧ slice record 50 2 = [0, 0] ∧
      slice record 52 2 = [0, 0] := by
    rw [hr, slice_append_left _ _ _ _ (by omega), slice_append_left _ _ _ _ (by omega),
      slice_append_left _ _ _ _ (by omega)]
    exact ⟨rfl, rfl, rfl⟩
  exact openRecord_zeros hl hsig huso husc hwords hfirst hsecond

section SmallVolume

variable {record opened : List UInt8} {name : List Char} (hl : record.length = 1024)
  (hopen : openRecord smallDriver record = .ok opened)
  (hfind : (recordIndex smallDriver opened >>= (findEntry · name)) = .err .fileNotFound)
  (hname : (name.map Char.utf8Size).sum ≤ 255)

include hl in
theorem recordAt_smallVolume : recordAt smallDriver (smallVolume record) 5 =
    openRecord smallDriver record := by
  rw [recordAt, slot_smallVolume hl, Outcome.ok_bind]

include hl hopen hfind hname in
/-- A name that is absent gets the first free record. -/
theorem prepared_smallVolume {marked : List UInt8} (hmark : smallRecord name = .ok marked) :
    prepared smallDriver (smallVolume record) (smallInput name).parent name
      (smallInput name).options = .ok (16, marked) := by
  obtain ⟨built, hbuilt, hfix⟩ := Outcome.bind_eq_ok.mp hmark
  apply prepared_eq_ok.mpr
  refine ⟨rfl, ?_, hname, ?_, built, hbuilt, hfix⟩
  · change (recordAt smallDriver (smallVolume record) 5 >>= recordIndex smallDriver >>= _) = _
    rw [recordAt_smallVolume hl, hopen, Outcome.ok_bind]
    exact hfind
  · apply scanFrom_of_free
    · exact ⟨_, slot_smallVolume_sixteen hl, by decide⟩
    · decide

include hl hopen hfind hname in
/-- Where the new record goes, and that the directory is as before. -/
theorem placed_smallVolume {marked : List UInt8} (hmark : smallRecord name = .ok marked) :
    ∃ d₁, (smallVolume record).write 16384 marked = some d₁ ∧
      slot smallDriver d₁ 16 = .ok marked ∧ recordAt smallDriver d₁ 5 = .ok opened := by
  obtain ⟨hlen, off, d₁, hoff, hw⟩ :=
    prepared_placed (prepared_smallVolume hl hopen hfind hname hmark)
  rw [smallDriver_recordOffset 16 (by decide)] at hoff
  cases hoff
  have hoff := smallDriver_recordOffset 16 (by decide)
  refine ⟨d₁, hw, slot_write_same hoff hlen hw, ?_⟩
  rw [recordAt_write_other hoff hlen hw (by decide), recordAt_smallVolume hl, hopen]

include hl hopen hfind hname in
/-- A directory with room takes the entry. -/
theorem createFile_smallVolume
    (hbuilt : (buildMftRecord smallDriver 16 name 5 false []).isOk = true)
    (hplan : (residentPlan smallDriver opened 5 16 name).isOk = true) :
    ∃ d', createFile smallDriver (smallInput name).parent name (smallInput name).options
        (smallVolume record) = (.ok ⟨16⟩, d') ∧
      slot smallDriver d' 16 = smallRecord name ∧
      slot smallDriver d' 5 = Prod.snd <$> residentPlan smallDriver opened 5 16 name := by
  obtain ⟨marked, hmark, -, new, hnew⟩ := smallRecord_opens hbuilt
  obtain ⟨⟨off', bytes⟩, hres⟩ := Outcome.isOk_iff.mp hplan
  obtain ⟨d₁, hw, hs, hrec⟩ := placed_smallVolume hl hopen hfind hname hmark
  have hprep := prepared_smallVolume hl hopen hfind hname hmark
  have hoff := smallDriver_recordOffset 16 (by decide)
  have hentry : entryPlan smallDriver d₁ (smallInput name).parent.recordNumber 16 name =
      .ok (off', bytes) :=
    entryPlan_eq_ok.mpr ⟨opened, hrec, .inl hres⟩
  obtain ⟨d₂, hw'⟩ := entryPlan_writable hentry
  obtain ⟨_, -, -, hoff'⟩ := residentPlan_eq_ok.mp hres
  have hlen : bytes.length = smallDriver.mftRecordSize := by
    rw [length_residentPlan hres, length_recordAt hrec]
  have hs' : slot smallDriver d₂ 16 = .ok marked := by
    rw [slot_write_other hoff' hlen hw' (by decide), hs]
  refine ⟨d₂, ?_, hs'.trans hmark.symm, ?_⟩
  · rw [createFile_taken hprep hoff hw hentry hw', recordAt, hs', Outcome.ok_bind, hnew]
    rfl
  · rw [hres]
    exact slot_write_same hoff' hlen hw'

include hl hopen hfind hname in
/-- A full directory refuses the entry, and the new record stays. -/
theorem createFile_smallVolume_full
    (hbuilt : (buildMftRecord smallDriver 16 name 5 false []).isOk = true)
    (hext : (findAttributeOffset opened 0xA0).isOk = false)
    (hplan : residentPlan smallDriver opened 5 16 name = .err .noSpace) :
    ∃ d', createFile smallDriver (smallInput name).parent name (smallInput name).options
        (smallVolume record) = (.err .noSpace, d') ∧
      slot smallDriver d' 16 = smallRecord name := by
  obtain ⟨marked, hmark, -⟩ := smallRecord_opens hbuilt
  obtain ⟨d₁, hw, hs, hrec⟩ := placed_smallVolume hl hopen hfind hname hmark
  have hprep := prepared_smallVolume hl hopen hfind hname hmark
  have hoff := smallDriver_recordOffset 16 (by decide)
  refine ⟨d₁, ?_, hs.trans hmark.symm⟩
  apply createFile_refused hprep hoff hw
  change (recordAt smallDriver d₁ 5 >>= _) = _
  rw [hrec, Outcome.ok_bind, if_neg (by rw [hext]; decide)]
  exact hplan

end SmallVolume

theorem length_emptyDirectory_of_le {allocated : Nat} (h₁ : 32 ≤ allocated)
    (h₂ : allocated ≤ 924) : (emptyDirectory allocated).length = 1024 := by
  simp only [emptyDirectory, length_recordHeader, length_residentHeader, List.length_append,
    length_leBytes, List.length_replicate]
  omega

theorem length_emptyDirectory : (emptyDirectory 232).length = 1024 :=
  length_emptyDirectory_of_le (by decide) (by decide)

theorem openRecord_emptyDirectory_of_le {allocated : Nat} (h₁ : 32 ≤ allocated)
    (h₂ : allocated ≤ 410) :
    openRecord smallDriver (emptyDirectory allocated) = .ok (emptyDirectory allocated) := by
  have hzeros : List.replicate (924 - allocated) 0 <:+ emptyDirectory allocated := by
    unfold emptyDirectory
    repeat apply List.suffix_append_of_suffix
    exact List.suffix_rfl
  exact openRecord_recordHeader rfl (length_emptyDirectory_of_le h₁ (by omega)) hzeros (by omega)

theorem openRecord_emptyDirectory :
    openRecord smallDriver (emptyDirectory 232) = .ok (emptyDirectory 232) :=
  openRecord_emptyDirectory_of_le (by decide) (by decide)

/-- The record of a file `a` is built. -/
theorem built_isOk : (buildMftRecord smallDriver 16 ['a'] 5 false []).isOk = true := by
  decide

/-- The directory with room has no external index, and takes the names it does not have. -/
theorem emptyDirectory_takes : (findAttributeOffset (emptyDirectory 232) 0xA0).isOk = false ∧
    ∀ name ∈ [['a'], ['é']],
      (recordIndex smallDriver (emptyDirectory 232) >>= (findEntry · name)) = .err .fileNotFound ∧
      (residentPlan smallDriver (emptyDirectory 232) 5 16 name).isOk = true := by
  decide +kernel

theorem plan_isOk : (residentPlan smallDriver (emptyDirectory 232) 5 16 ['a']).isOk = true :=
  (emptyDirectory_takes.2 _ List.mem_cons_self).2

/-- A file `a` in the directory with room. -/
theorem createFile_emptyDirectory :
    ∃ d', createFile smallDriver (smallInput ['a']).parent ['a'] (smallInput ['a']).options
        (smallVolume (emptyDirectory 232)) = (.ok ⟨16⟩, d') ∧
      slot smallDriver d' 16 = smallRecord ['a'] ∧
      slot smallDriver d' 5 =
        Prod.snd <$> residentPlan smallDriver (emptyDirectory 232) 5 16 ['a'] :=
  createFile_smallVolume length_emptyDirectory openRecord_emptyDirectory
    (emptyDirectory_takes.2 _ List.mem_cons_self).1 (by decide) built_isOk plan_isOk

/-! ### Runs of calls -/

/-- In a run of calls on directories without an external index, each call keeps every slot
that was in use, the parent's with its signature, and no record number is returned twice. -/
theorem run_createFile_slots (h512 : driver.sectorSize = 512) {d d' : ByteStore}
    {t : List CreateCall}
    (hrun : Run (fun x ↦ IsCreate driver x ∧ NoAllocation driver x.before x.input.parent) d t d') :
    (∀ x ∈ t, ∀ n, SlotInUse driver x.before n → SlotKept driver x n) ∧
      (t.filterMap created).Nodup ∧ ∀ n ∈ t.filterMap created, 16 ≤ n := by
  refine ⟨?_, ?_, ?_⟩
  · intro x hx n hu
    obtain ⟨hcall, hno⟩ := hrun.mem hx
    exact slotKept_of_isCreate h512 hcall hno hu
  · apply hrun.nodup_claims (SlotInUse driver)
    · rintro x ⟨hcall, hno⟩ k hk
      obtain ⟨buf, hs, hu⟩ := hk
      rcases slotKept_of_isCreate h512 hcall hno ⟨buf, hs, hu⟩ with hsame | ⟨-, buf', hs', hsig⟩
      · exact ⟨buf, hsame.trans hs, hu⟩
      · exact ⟨buf', hs', hsig.inUse⟩
    · rintro x k ⟨hcall, -⟩ hk
      exact (created_spec hcall hk).2
  · intro n hn
    obtain ⟨x, hx, hk⟩ := List.mem_filterMap.mp hn
    exact (created_spec (hrun.mem hx).1 hk).1

/-- A call that succeeds in the one free slot of a small volume. -/
theorem run_createFile_slots_small :
    ∃ x d', Run (fun x ↦ IsCreate smallDriver x ∧
        NoAllocation smallDriver x.before x.input.parent) (smallVolume (emptyDirectory 232)) [x]
          d' ∧
      created x = some 16 ∧
      (∀ y ∈ [x], ∀ n, SlotInUse smallDriver y.before n → SlotKept smallDriver y n) ∧
      ([x].filterMap created).Nodup ∧ ∀ n ∈ [x].filterMap created, 16 ≤ n := by
  obtain ⟨d', hc, -⟩ := createFile_emptyDirectory
  have hno : NoAllocation smallDriver (smallVolume (emptyDirectory 232))
      (smallInput ['a']).parent := by
    change (recordAt smallDriver (smallVolume (emptyDirectory 232)) 5 >>= _).isOk = false
    rw [recordAt_smallVolume length_emptyDirectory, openRecord_emptyDirectory, Outcome.ok_bind]
    exact emptyDirectory_takes.1
  generalize smallVolume (emptyDirectory 232) = d at *
  have hrun := Run.cons (R := fun x ↦ IsCreate smallDriver x ∧
    NoAllocation smallDriver x.before x.input.parent)
    (x := ⟨d, smallInput ['a'], Outcome.ok ⟨16⟩, d'⟩) ⟨hc, hno⟩ (.nil d')
  exact ⟨_, _, hrun, rfl, run_createFile_slots rfl hrun⟩

end SmallOs.Ntfs
