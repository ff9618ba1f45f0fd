import SmallOs.Ntfs.NewRecord
import SmallOs.Ntfs.Slots

/-!
# The space that a new record needs

Each attribute writer checks that its own attribute fits; `build_mft_record` writes the end marker
behind the last one without a check. A record is built exactly when its attributes and its end
marker fit, and lack of space is reported unless the attributes fill the record to its last byte.
-/

namespace SmallOs.Ntfs

open SmallOs.Base SmallOs.Hal

/-! ### Names -/

theorem length_encodeUtf16_le (c : Char) : (encodeUtf16 c).length ≤ c.utf8Size := by
  have hpos := c.utf8Size_pos
  unfold encodeUtf16
  split
  · exact hpos
  · next h =>
    rw [Char.toNat] at h
    have h1 : ¬ c.val ≤ 0x7F := by
      rw [UInt32.le_iff_toNat_le]
      exact fun hle ↦ h (Nat.lt_of_le_of_lt hle (by decide))
    have h2 : ¬ c.val ≤ 0x7FF := by
      rw [UInt32.le_iff_toNat_le]
      exact fun hle ↦ h (Nat.lt_of_le_of_lt hle (by decide))
    have h3 : ¬ c.val ≤ 0xFFFF := by
      rw [UInt32.le_iff_toNat_le]
      exact fun hle ↦ h (Nat.lt_of_le_of_lt hle (by decide))
    simp [Char.utf8Size, h1, h2, h3]

/-- A name has at most as many UTF-16 units as bytes. -/
theorem length_nameUtf16_le (name : List Char) :
    (nameUtf16 name).length ≤ (name.map Char.utf8Size).sum := by
  induction name with
  | nil => exact Nat.le_refl 0
  | cons c name ih =>
    have hc := length_encodeUtf16_le c
    rw [nameUtf16, List.flatMap_cons, List.length_append, List.map_cons, List.sum_cons]
    exact Nat.add_le_add hc ih

/-! ### When a record is built -/

/-- The third attribute of a new record. -/
def contentAttr (mftRecordSize : Nat) (isDirectory : Bool) (data : List UInt8) : List UInt8 :=
  if isDirectory then residentAttr 0x90 0 (indexRootValue mftRecordSize)
  else residentAttr 0x80 0 data

/-- Where the attributes of a new record end. -/
def attributesEnd (name : List Char) (isDirectory : Bool) (data : List UInt8) : Nat :=
  152 + attrLenAligned (66 + (nameUtf16 name).length * 2) +
    if isDirectory then 72 else attrLenAligned data.length

/-- The bytes of a new record. -/
def builtRecord (recordNumber mftRecordSize : Nat) (name : List Char) (parentRecord : Nat)
    (isDirectory : Bool) (data : List UInt8) : List UInt8 :=
  let fin := attributesEnd name isDirectory data + 4
  recordHeader recordNumber mftRecordSize ((fin + 7) / 8 * 8) ++
    (residentAttr 0x10 0 (standardInfoValue isDirectory) ++
      (residentAttr 0x30 1 (filenameValue name parentRecord) ++
        (contentAttr mftRecordSize isDirectory data ++
          (leBytes 4 0xFFFFFFFF ++ List.replicate (mftRecordSize - fin) 0))))

variable {driver : NtfsDriver} {n : Nat} {name : List Char} {parent : Nat} {isDirectory : Bool}
  {data : List UInt8}

theorem length_contentAttr (mftRecordSize : Nat) (isDirectory : Bool) (data : List UInt8) :
    (contentAttr mftRecordSize isDirectory data).length =
      if isDirectory then 72 else attrLenAligned data.length := by
  cases isDirectory with
  | true =>
    change (residentAttr 0x90 0 (indexRootValue mftRecordSize)).length = 72
    rw [length_residentAttr, length_indexRootValue]
    rfl
  | false => exact length_residentAttr _ _ _

/-- What the third writer returns behind the first two. -/
theorem writeContent_cases (recordLen offset mftRecordSize : Nat) (isDirectory : Bool)
    (data : List UInt8) :
    (if isDirectory then writeIndexRootAttr recordLen offset mftRecordSize
      else writeDataAttr recordLen offset data) =
    if isDirectory = false ∧ 700 < data.length then .err .invalidAttribute
    else if recordLen < offset + (contentAttr mftRecordSize isDirectory data).length then
      .err .noSpace
    else .ok (contentAttr mftRecordSize isDirectory data) := by
  rw [length_contentAttr]
  cases isDirectory with
  | true =>
    change writeIndexRootAttr recordLen offset mftRecordSize =
      if recordLen < offset + 72 then .err .noSpace
      else .ok (residentAttr 0x90 0 (indexRootValue mftRecordSize))
    by_cases hfit : offset + 72 ≤ recordLen
    · rw [if_neg (by omega)]
      exact writeIndexRootAttr_eq_ok.mpr ⟨hfit, rfl⟩
    · rw [if_pos (by omega), writeIndexRootAttr, Outcome.ensure_not hfit]
      rfl
  | false =>
    change writeDataAttr recordLen offset data =
      if false = false ∧ 700 < data.length then .err .invalidAttribute
      else if recordLen < offset + attrLenAligned data.length then .err .noSpace
      else .ok (residentAttr 0x80 0 data)
    by_cases hsmall : data.length ≤ 700
    · rw [if_neg (by omega)]
      by_cases hfit : offset + attrLenAligned data.length ≤ recordLen
      · rw [if_neg (by omega)]
        exact writeDataAttr_eq_ok.mpr ⟨hsmall, hfit, rfl⟩
      · rw [if_pos (by omega), writeDataAttr, Outcome.ensure_of hsmall, Outcome.ok_bind]
        dsimp only
        rw [attrLenAligned] at hfit
        rw [Outcome.ensure_not hfit]
        rfl
    · rw [if_pos ⟨rfl, by omega⟩, writeDataAttr, Outcome.ensure_not hsmall]
      rfl

/-- The attributes of a long name fit in every record in front of the third one. -/
theorem attrLenAligned_name_le {name : List Char} (hname : (nameUtf16 name).length ≤ 255) :
    attrLenAligned (66 + (nameUtf16 name).length * 2) ≤ 600 := by
  rw [attrLenAligned]
  omega

/-- How the building of a record ends. -/
theorem buildMftRecord_cases (hsize : 1024 ≤ driver.mftRecordSize)
    (hname : (nameUtf16 name).length ≤ 255) :
    buildMftRecord driver n name parent isDirectory data =
      if isDirectory = false ∧ 700 < data.length then .err .invalidAttribute
      else if driver.mftRecordSize < attributesEnd name isDirectory data then .err .noSpace
      else if attributesEnd name isDirectory data + 4 ≤ driver.mftRecordSize then
        .ok (builtRecord n driver.mftRecordSize name parent isDirectory data)
      else .panic := by
  have h600 := attrLenAligned_name_le hname
  have hinfo : writeStandardInfoAttr driver.mftRecordSize 56 isDirectory =
      .ok (residentAttr 0x10 0 (standardInfoValue isDirectory)) :=
    writeStandardInfoAttr_eq_ok.mpr ⟨by omega, rfl⟩
  have hinfoLen : (residentAttr 0x10 0 (standardInfoValue isDirectory)).length = 96 := by
    rw [length_residentAttr, length_standardInfoValue]
    rfl
  have hfilename : writeFilenameAttr driver.mftRecordSize 152 name parent =
      .ok (residentAttr 0x30 1 (filenameValue name parent)) :=
    writeFilenameAttr_eq_ok.mpr ⟨hname, by omega, rfl⟩
  have hfilenameLen : (residentAttr 0x30 1 (filenameValue name parent)).length =
      attrLenAligned (66 + (nameUtf16 name).length * 2) := by
    rw [length_residentAttr, length_filenameValue]
  have hend : attributesEnd name isDirectory data =
      152 + attrLenAligned (66 + (nameUtf16 name).length * 2) +
        (contentAttr driver.mftRecordSize isDirectory data).length := by
    rw [length_contentAttr, attributesEnd]
  unfold buildMftRecord
  dsimp only
  rw [Outcome.assert_of (by omega), Outcome.ok_bind, hinfo, Outcome.ok_bind, hinfoLen, hfilename,
    Outcome.ok_bind, hfilenameLen, writeContent_cases, ← hend]
  by_cases hlong : isDirectory = false ∧ 700 < data.length
  · rw [if_pos hlong, if_pos hlong]
    rfl
  rw [if_neg hlong, if_neg hlong]
  by_cases hspace : driver.mftRecordSize < attributesEnd name isDirectory data
  · rw [if_pos hspace, if_pos hspace]
    rfl
  rw [if_neg hspace, if_neg hspace, Outcome.ok_bind, ← hend]
  by_cases hmarker : attributesEnd name isDirectory data + 4 ≤ driver.mftRecordSize
  · rw [if_pos hmarker, Outcome.assert_of hmarker]
    rfl
  · rw [if_neg hmarker, Outcome.assert_not hmarker]
    rfl

/-! ### Lack of space -/

/-- The building of a record reports lack of space, and a built record's used size lies in it. -/
structure ReportsSpace (driver : NtfsDriver) (recordNumber : Nat) (name : List Char)
    (parentRecord : Nat) (isDirectory : Bool) (data : List UInt8) : Prop where
  no_panic : InPlace.buildMftRecord driver recordNumber name parentRecord isDirectory data ≠ .panic
  no_space : driver.mftRecordSize < attributesEnd name isDirectory data + 4 →
    InPlace.buildMftRecord driver recordNumber name parentRecord isDirectory data = .err .noSpace
  used_le : ∀ built,
    InPlace.buildMftRecord driver recordNumber name parentRecord isDirectory data = .ok built →
      leAt built 0x18 4 ≤ driver.mftRecordSize

theorem leAt_usedSize {used : Nat} (recordNumber mftRecordSize : Nat) (rest : List UInt8)
    (h : used < 2 ^ 32) :
    leAt (recordHeader recordNumber mftRecordSize used ++ rest) 0x18 4 = used := by
  rw [leAt_append_left _ _ _ _ (by rw [length_recordHeader]; decide)]
  exact leAt_of_slice rfl h

/-- Attributes are laid in steps of eight bytes. -/
theorem attributesEnd_mod (name : List Char) (isDirectory : Bool) (data : List UInt8) :
    attributesEnd name isDirectory data % 8 = 0 := by
  unfold attributesEnd attrLenAligned
  split <;> omega

theorem attributesEnd_le (hname : (nameUtf16 name).length ≤ 255)
    (hdata : ¬ (isDirectory = false ∧ 700 < data.length)) :
    attributesEnd name isDirectory data ≤ 1480 := by
  have h600 := attrLenAligned_name_le hname
  unfold attributesEnd
  cases isDirectory with
  | true =>
    rw [if_pos rfl]
    omega
  | false =>
    have hsmall : data.length ≤ 700 := by
      by_contra hlong
      exact hdata ⟨rfl, by omega⟩
    have h728 : attrLenAligned data.length ≤ 728 := by
      rw [attrLenAligned]
      omega
    rw [if_neg Bool.false_ne_true]
    omega

/-- A file with more data than a resident attribute may hold is refused; otherwise lack of space
is reported wherever the attributes do not end with the record itself. -/
theorem buildMftRecord_reports {k : Nat} (hk : 10 ≤ k) (hsize : driver.mftRecordSize = 2 ^ k)
    (hname : (name.map Char.utf8Size).sum ≤ 255) :
    (isDirectory = false ∧ 700 < data.length →
      InPlace.buildMftRecord driver n name parent isDirectory data = .err .invalidAttribute) ∧
    (¬ (isDirectory = false ∧ 700 < data.length) →
      attributesEnd name isDirectory data ≠ driver.mftRecordSize →
        ReportsSpace driver n name parent isDirectory data) := by
  have hunits := Nat.le_trans (length_nameUtf16_le name) hname
  obtain ⟨c, hc⟩ : 1024 ∣ driver.mftRecordSize := by
    rw [hsize]
    exact Nat.pow_dvd_pow 2 hk
  have hlarge : 1024 ≤ driver.mftRecordSize := by
    rw [hsize]
    exact Nat.pow_le_pow_right Nat.two_pos hk
  have hcases := @buildMftRecord_cases driver n name parent isDirectory data hlarge hunits
  rw [← InPlace.buildMftRecord_eq] at hcases
  have hmod := attributesEnd_mod name isDirectory data
  constructor
  · intro hlong
    rw [hcases, if_pos hlong]
  intro hsmall hgap
  rw [if_neg hsmall] at hcases
  by_cases hspace : driver.mftRecordSize < attributesEnd name isDirectory data
  · rw [if_pos hspace] at hcases
    refine ⟨by rw [hcases]; nofun, fun _ ↦ hcases, fun built hbuilt ↦ ?_⟩
    rw [hcases] at hbuilt
    cases hbuilt
  -- The end and the size are multiples of eight, so the marker fits where the end is not the size.
  rw [if_neg hspace, if_pos (by omega)] at hcases
  refine ⟨by rw [hcases]; nofun, fun hno ↦ by omega, fun built hbuilt ↦ ?_⟩
  rw [hcases] at hbuilt
  cases hbuilt
  have h1480 := attributesEnd_le hunits hsmall
  rw [builtRecord, leAt_usedSize _ _ _ (by omega)]
  omega

theorem buildMftRecord_reports_small : ReportsSpace smallDriver 16 ['a'] 5 false [1, 2, 3] :=
  (buildMftRecord_reports (Nat.le_refl 10) rfl (by decide)).2 (by decide) (by decide)

/-- Attributes that fill the record panic at the end marker, and too much data is not reported as
lack of space. -/
theorem reportsSpace_fails :
    ¬ ReportsSpace smallDriver 16 (List.replicate 24 'a') 5 false (List.replicate 700 0) ∧
      ¬ ReportsSpace smallDriver 16 ['a'] 5 false (List.replicate 1000 0) := by
  constructor
  · intro h
    apply h.no_panic
    rw [InPlace.buildMftRecord_eq, buildMftRecord_cases (by decide) (by decide), if_neg, if_neg,
      if_neg]
    · decide +kernel
    · decide +kernel
    · decide +kernel
  · intro h
    have hno := h.no_space (by decide +kernel)
    rw [InPlace.buildMftRecord_eq, buildMftRecord_cases (by decide) (by decide), if_pos] at hno
    · cases hno
    · decide +kernel

end SmallOs.Ntfs
