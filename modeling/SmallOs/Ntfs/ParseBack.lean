import SmallOs.Ntfs.RecordSpace
import SmallOs.Ntfs.Created

/-!
# A new record read back

The attribute iterator walks the attributes of a new record in the order in which they were laid,
and ends at its end marker. The update sequence array lies in front of the attributes, so the
metadata of the stored record are those that were asked for.
-/

namespace SmallOs.Ntfs

open SmallOs.Base SmallOs.Hal

/-! ### Resident attributes -/

/-- The fields of a resident attribute. -/
def attrFields (code flags : Nat) (value : List UInt8) : List (List UInt8) :=
  [leBytes 4 code, leBytes 4 (attrLenAligned value.length), leBytes 1 0, leBytes 1 0, leBytes 2 0,
    leBytes 4 0, leBytes 4 value.length, leBytes 2 24, leBytes 2 flags, value,
    List.replicate (attrLenAligned value.length - (24 + value.length)) 0]

theorem flatten_attrFields (code flags : Nat) (value : List UInt8) :
    (attrFields code flags value).flatten = residentAttr code flags value := by
  simp [attrFields, residentAttr, residentHeader]

theorem hasFields_residentAttr {r rest : List UInt8} {off code flags : Nat} {value : List UInt8}
    (hr : r.drop off = residentAttr code flags value ++ rest) :
    HasFields r off (attrFields code flags value) :=
  ⟨rest, by rw [hr, flatten_attrFields]⟩

/-- What the readers of an attribute find in its header, and its value. -/
theorem reads_residentAttr (code flags : Nat) {value : List UInt8}
    (hvalue : value.length < 2 ^ 32) :
    leAt (residentAttr code flags value) 9 1 = 0 ∧
      leAt (residentAttr code flags value) 16 4 = value.length ∧
      leAt (residentAttr code flags value) 20 2 = 24 ∧
      slice (residentAttr code flags value) 24 value.length = value := by
  have hf : HasFields (residentAttr code flags value) 0 (attrFields code flags value) :=
    hasFields_residentAttr (List.append_nil _).symm
  have hname := hf.word (i := 3) (k := 9) rfl (by simp [attrFields]) (by decide)
  have hsize := hf.word (i := 6) (k := 16) rfl (by simp [attrFields]) hvalue
  have hoff := hf.word (i := 7) (k := 20) rfl (by simp [attrFields]) (by decide)
  have hwindow := hf.window (i := 9) (k := 24) rfl (by simp [attrFields]) rfl
  simp only [Nat.zero_add] at hname hsize hoff hwindow
  exact ⟨hname, hsize, hoff, hwindow⟩

/-- A resident attribute as the iterator yields it. -/
def Attr.resident (offset : Nat) (typ : AttributeType) (code flags : Nat) (value : List UInt8) :
    Attr where
  offset := offset
  typ := typ
  data := residentAttr code flags value
  isResident := true

section Walk

variable {r rest value : List UInt8} {off code flags : Nat} {typ : AttributeType}

theorem nextAttr_resident (hr : r.drop off = residentAttr code flags value ++ rest)
    (htyp : AttributeType.ofCode code = some typ) (hcode : code < 0xFFFFFFFF)
    (hlen : attrLenAligned value.length < 2 ^ 32) :
    nextAttr r off = .ok (some (.resident off typ code flags value)) := by
  have hf := hasFields_residentAttr hr
  have htotal := length_residentAttr code flags value
  have hmin : 24 ≤ attrLenAligned value.length := by
    rw [attrLenAligned]
    omega
  have hfit : off + attrLenAligned value.length ≤ r.length := by
    have hl := congrArg List.length hr
    rw [List.length_drop, List.length_append, htotal] at hl
    omega
  have hc : leAt r off 4 = code := hf.word (i := 0) (k := 0) rfl rfl (by omega)
  have hl : leAt r (off + 4) 4 = attrLenAligned value.length :=
    hf.word (i := 1) rfl (by simp [attrFields]) hlen
  have hflag : leAt r (off + 8) 1 = 0 := hf.word (i := 2) rfl (by simp [attrFields]) (by decide)
  have hdata : slice r off (attrLenAligned value.length) = residentAttr code flags value := by
    rw [slice, hr, ← htotal, List.take_left']
    rfl
  rw [nextAttr, if_neg (by omega), hc, if_neg (by omega), hl, if_neg (by omega),
    uintAt_of (by omega), Outcome.ok_bind, htyp, hflag, hdata]
  rfl

/-- The iterator goes on behind a resident attribute. -/
theorem attrsFrom_resident (hr : r.drop off = residentAttr code flags value ++ rest)
    (htyp : AttributeType.ofCode code = some typ) (hcode : code < 0xFFFFFFFF)
    (hlen : attrLenAligned value.length < 2 ^ 32) :
    attrsFrom r off = (.resident off typ code flags value ::
      (attrsFrom r (off + attrLenAligned value.length)).1,
      (attrsFrom r (off + attrLenAligned value.length)).2) := by
  rw [attrsFrom, nextAttr_resident hr htyp hcode hlen]
  change (_ :: (attrsFrom r (off + (residentAttr code flags value).length)).1,
    (attrsFrom r (off + (residentAttr code flags value).length)).2) = _
  rw [length_residentAttr]

/-- The iterator ends at the end marker. -/
theorem attrsFrom_marker (hr : r.drop off = leBytes 4 0xFFFFFFFF ++ rest) :
    attrsFrom r off = ([], .ok ()) := by
  have hf : HasFields r off [leBytes 4 0xFFFFFFFF] := ⟨rest, by rw [hr]; rfl⟩
  have hcode : leAt r off 4 = 0xFFFFFFFF := hf.word (i := 0) (k := 0) rfl rfl (by decide)
  have hnext : nextAttr r off = .ok none := by
    rw [nextAttr, hcode]
    split
    · rfl
    · rfl
  rw [attrsFrom, hnext]

end Walk

/-! ### The name -/

theorem drop_residentAttr (code flags : Nat) (value : List UInt8) :
    (residentAttr code flags value).drop 24 =
      value ++ List.replicate (attrLenAligned value.length - (24 + value.length)) 0 :=
  List.drop_left' (length_residentHeader _ _ _ _)

/-- The name in the attribute of a new record, as the readers show it. -/
theorem parseFilename_filenameValue {name : List Char} (parent : Nat)
    (hu : (nameUtf16 name).length < 256) :
    ∃ p, parseFilename (residentAttr 0x30 1 (filenameValue name parent)) =
      .ok (some (shownName name, p)) := by
  have hlen := length_residentAttr 0x30 1 (filenameValue name parent)
  have hdrop := drop_residentAttr 0x30 1 (filenameValue name parent)
  rw [length_filenameValue] at hlen hdrop
  generalize hdata : (residentAttr 0x30 1 (filenameValue name parent)).drop 24 = data at hdrop
  have hwidth := length_flatMap_const (leBytes 2) 2 (fun _ ↦ length_leBytes _ _) (nameUtf16 name)
  have hf : HasFields data 0 [leBytes 8 parent, List.replicate 56 0,
      leBytes 1 (nameUtf16 name).length, leBytes 1 1, (nameUtf16 name).flatMap (leBytes 2)] :=
    ⟨List.replicate (attrLenAligned (66 + (nameUtf16 name).length * 2) -
      (24 + (66 + (nameUtf16 name).length * 2))) 0, by simp [hdrop, filenameValue]⟩
  have hdataLen : data.length = attrLenAligned (66 + (nameUtf16 name).length * 2) - 24 := by
    rw [← hdata, List.length_drop, hlen]
  have hcount : leAt data (0 + 0x40) 1 = (nameUtf16 name).length :=
    hf.word (i := 2) rfl (by simp) hu
  have hbyte := getElem?_of_leAt data 0x40 1 (by decide) (by rw [hdataLen, attrLenAligned]; omega)
  rw [Nat.zero_add] at hcount
  refine ⟨leAt data 0 8, ?_⟩
  rw [parseFilename, Outcome.assert_of (by rw [hlen, attrLenAligned]; omega), Outcome.ok_bind,
    hdata, parseNameAndParent_of_units]
  · rfl
  · rw [hdataLen, attrLenAligned]
    omega
  · rw [List.getD_eq_getElem?_getD, hbyte, hcount, Option.getD_some, UInt8.toNat_ofNat']
    omega
  · have hunits := hf.window (i := 4) (k := 0x42) rfl (by simp) hwidth
    rwa [Nat.zero_add] at hunits

/-! ### The metadata -/

section Steps

variable {boot : BootSector} {st : NtfsStat}

theorem statStep_standardInfo (offset : Nat) (isDirectory : Bool) :
    statStep boot st (.resident offset .standardInformation 0x10 0
      (standardInfoValue isDirectory)) =
      .ok { st with standardInfo :=
        StandardInformation.parse (residentAttr 0x10 0 (standardInfoValue isDirectory)) } := rfl

theorem statStep_filename {name : List Char} (offset parent : Nat)
    (hu : (nameUtf16 name).length < 256) (hnone : st.name = none) :
    statStep boot st (.resident offset .fileName 0x30 1 (filenameValue name parent)) =
      .ok { st with name := some (shownName name) } := by
  obtain ⟨p, hparse⟩ := parseFilename_filenameValue parent hu
  change statFileName st _ = _
  rw [statFileName, if_pos ⟨rfl, hnone⟩]
  change parseFilename (residentAttr 0x30 1 (filenameValue name parent)) >>= _ = _
  rw [hparse]
  rfl

/-- The data of a new file are the whole value of an unnamed stream. -/
theorem statStep_data (offset : Nat) {data : List UInt8} (hdata : data.length < 2 ^ 32) :
    statStep boot st (.resident offset .data 0x80 0 data) =
      .ok { st with size := data.length, dataRuns := st.dataRuns ++ [.resident data] } := by
  obtain ⟨hname, hsize, hoff, hvalue⟩ := reads_residentAttr 0x80 0 hdata
  have hlen := length_residentAttr 0x80 0 data
  rw [statStep_unnamed]
  · change Outcome.ok { st with
        size := leAt (residentAttr 0x80 0 data) 16 4
        dataRuns := st.dataRuns ++ [DataRun.resident (slice (residentAttr 0x80 0 data)
          (leAt (residentAttr 0x80 0 data) 20 2) (leAt (residentAttr 0x80 0 data) 16 4))] } = _
    rw [hsize, hoff, hvalue]
  · change (decide (AttributeType.data = .data) && decide
      (leAt (residentAttr 0x80 0 data) 9 1 = 0)) =
      true
    rw [hname]
    rfl
  · refine ⟨rfl, Nat.le_of_eq hoff.symm, ?_⟩
    change leAt (residentAttr 0x80 0 data) 20 2 + leAt (residentAttr 0x80 0 data) 16 4 ≤
      (residentAttr 0x80 0 data).length
    rw [hoff, hsize, hlen, attrLenAligned]
    omega

theorem statStep_indexRoot (offset mftRecordSize : Nat) :
    statStep boot st (.resident offset .indexRoot 0x90 0 (indexRootValue mftRecordSize)) =
      .ok ({ st with isDirectory := true }.withRoot (some (indexRootValue mftRecordSize))) := by
  have hvalueLen := length_indexRootValue mftRecordSize
  obtain ⟨-, -, hoff, -⟩ := reads_residentAttr 0x90 0
    (show (indexRootValue mftRecordSize).length < 2 ^ 32 by rw [hvalueLen]; decide)
  have hlen := length_residentAttr 0x90 0 (indexRootValue mftRecordSize)
  rw [statStep_root]
  · change Outcome.ok ({ st with isDirectory := true }.withRoot
      (some ((residentAttr 0x90 0 (indexRootValue mftRecordSize)).drop
        (leAt (residentAttr 0x90 0 (indexRootValue mftRecordSize)) 20 2)))) = _
    rw [hoff, drop_residentAttr, hvalueLen]
    exact congrArg (fun l ↦ Outcome.ok ({ st with isDirectory := true }.withRoot (some l)))
      (List.append_nil _)
  · refine ⟨rfl, rfl, Nat.le_of_eq hoff.symm, ?_⟩
    change leAt (residentAttr 0x90 0 (indexRootValue mftRecordSize)) 20 2 <
      (residentAttr 0x90 0 (indexRootValue mftRecordSize)).length
    rw [hoff, hlen, hvalueLen]
    decide

end Steps

/-! ### The walk over a new record -/

variable {driver : NtfsDriver}

theorem drop_behind {r a rest : List UInt8} {off n : Nat} (hr : r.drop off = a ++ rest)
    (hn : a.length = n) : r.drop (off + n) = rest := by
  rw [← List.drop_drop, hr]
  exact List.drop_left' hn

/-- The third attribute of a new record as the iterator yields it. -/
def contentAttrAt (offset mftRecordSize : Nat) (isDirectory : Bool) (data : List UInt8) : Attr :=
  if isDirectory then .resident offset .indexRoot 0x90 0 (indexRootValue mftRecordSize)
  else .resident offset .data 0x80 0 data

/-- The attributes of a new record, with nothing of its header but the saved words changed. -/
theorem attrsFrom_builtRecord {n mftRecordSize parent : Nat} {name : List Char} {isDirectory : Bool}
    {data r : List UInt8} (hu : (nameUtf16 name).length ≤ 255)
    (hdata : data.length ≤ 700)
    (hr : r.drop 56 = (builtRecord n mftRecordSize name parent isDirectory data).drop 56) :
    attrsFrom r 56 = ([.resident 56 .standardInformation 0x10 0 (standardInfoValue isDirectory),
      .resident 152 .fileName 0x30 1 (filenameValue name parent),
      contentAttrAt (152 + attrLenAligned (66 + (nameUtf16 name).length * 2)) mftRecordSize
        isDirectory data], .ok ()) := by
  have hinfoLen : attrLenAligned (standardInfoValue isDirectory).length = 96 := by
    rw [length_standardInfoValue]
    rfl
  have h600 := attrLenAligned_name_le hu
  rw [builtRecord, List.drop_left' (length_recordHeader _ _ _)] at hr
  have hr₁ := drop_behind hr ((length_residentAttr _ _ _).trans hinfoLen)
  have hr₂ := drop_behind hr₁ (length_residentAttr _ _ _)
  have hfilename := attrsFrom_resident hr₁ rfl (by decide)
    (by rw [length_filenameValue]; omega)
  rw [length_filenameValue] at hr₂ hfilename
  have hcontent : attrsFrom r (56 + 96 + attrLenAligned (66 + (nameUtf16 name).length * 2)) =
      ([contentAttrAt (152 + attrLenAligned (66 + (nameUtf16 name).length * 2)) mftRecordSize
        isDirectory data], .ok ()) := by
    cases isDirectory with
    | true =>
      change r.drop _ = residentAttr 0x90 0 (indexRootValue mftRecordSize) ++ _ at hr₂
      rw [attrsFrom_resident hr₂ rfl (by decide) (by rw [length_indexRootValue]; decide),
        attrsFrom_marker (drop_behind hr₂ (length_residentAttr _ _ _))]
      rfl
    | false =>
      change r.drop _ = residentAttr 0x80 0 data ++ _ at hr₂
      rw [attrsFrom_resident hr₂ rfl (by decide) (by rw [attrLenAligned]; omega),
        attrsFrom_marker (drop_behind hr₂ (length_residentAttr _ _ _))]
      rfl
  rw [attrsFrom_resident hr rfl (by decide) (by rw [hinfoLen]; decide), hinfoLen, hfilename,
    hcontent]

/-- The metadata that a new record is asked for. -/
structure Describes (st : NtfsStat) (name : List Char) (isDirectory : Bool) (data : List UInt8) :
    Prop where
  named : st.name = some name
  directory : st.isDirectory = isDirectory
  content : isDirectory = false →
    st.size = data.length ∧ st.dataRuns = [.resident data] ∧ st.alternateDataStreams = []

theorem parseStat_builtRecord {n mftRecordSize parent : Nat} {name : List Char} {isDirectory : Bool}
    {data r : List UInt8} (boot : BootSector) (hplain : PlainName name)
    (hu : (nameUtf16 name).length ≤ 255) (hdata : data.length ≤ 700) (hstart : leAt r 20 2 = 56)
    (hlen : 22 ≤ r.length)
    (hr : r.drop 56 = (builtRecord n mftRecordSize name parent isDirectory data).drop 56) :
    ∃ st, parseStat r boot = .ok st ∧ Describes st name isDirectory data := by
  have hattrs := attrsFrom_builtRecord hu hdata hr
  have hname := shownName_eq_iff.mpr hplain
  rw [parseStat_eq, uintAt_of hlen, Outcome.ok_bind, hstart, hattrs]
  simp only [List.foldlM_cons, List.foldlM_nil, statStep_standardInfo, Outcome.ok_bind]
  rw [statStep_filename _ _ (by omega) rfl, Outcome.ok_bind, hname]
  cases isDirectory with
  | true =>
    change ∃ st, (statStep boot _ (.resident _ .indexRoot 0x90 0 (indexRootValue mftRecordSize)) >>=
      _) >>= _ = _ ∧ _
    rw [statStep_indexRoot]
    exact ⟨_, rfl, rfl, rfl, nofun⟩
  | false =>
    change ∃ st, (statStep boot _ (.resident _ .data 0x80 0 data) >>= _) >>= _ = _ ∧ _
    rw [statStep_data _ (by omega)]
    exact ⟨_, rfl, rfl, rfl, fun _ ↦ ⟨rfl, rfl, rfl⟩⟩

/-- What a built record is, when its data are small. -/
theorem builtRecord_of_ok {n parent : Nat} {name : List Char} {isDirectory : Bool}
    {data built : List UInt8} (hsize : 1024 ≤ driver.mftRecordSize)
    (hu : (nameUtf16 name).length ≤ 255) (hdata : data.length ≤ 700)
    (h : buildMftRecord driver n name parent isDirectory data = .ok built) :
    builtRecord n driver.mftRecordSize name parent isDirectory data = built := by
  rw [buildMftRecord_cases hsize hu, if_neg (by omega)] at h
  split at h
  · cases h
  split at h
  · exact Outcome.ok.inj h
  · cases h

/-- The fields of a new record's header that its readers look at. -/
theorem reads_builtRecord (n mftRecordSize : Nat) (name : List Char) (parent : Nat)
    (isDirectory : Bool) (data : List UInt8) :
    HasSignature (builtRecord n mftRecordSize name parent isDirectory data) ∧
      leAt (builtRecord n mftRecordSize name parent isDirectory data) 4 2 = 48 ∧
      leAt (builtRecord n mftRecordSize name parent isDirectory data) 6 2 = 3 ∧
      leAt (builtRecord n mftRecordSize name parent isDirectory data) 20 2 = 56 := by
  rw [builtRecord]
  obtain ⟨hsig, huso, husc⟩ := recordHeader_append n mftRecordSize
    ((attributesEnd name isDirectory data + 4 + 7) / 8 * 8) (residentAttr 0x10 0
      (standardInfoValue isDirectory) ++ (residentAttr 0x30 1 (filenameValue name parent) ++
        (contentAttr mftRecordSize isDirectory data ++ (leBytes 4 0xFFFFFFFF ++
          List.replicate (mftRecordSize - (attributesEnd name isDirectory data + 4)) 0))))
  refine ⟨hsig, huso, husc, ?_⟩
  rw [leAt_append_left _ _ _ _ (by rw [length_recordHeader]; decide)]
  rfl

/-- A built record, marked, stored, loaded and restored, describes what was asked for. -/
theorem parseStat_buildMftRecord {n parent : Nat} {name : List Char} {isDirectory : Bool}
    {data built : List UInt8} (h512 : driver.sectorSize = 512)
    (hsize : 1024 ≤ driver.mftRecordSize) (hplain : PlainName name)
    (hname : (name.map Char.utf8Size).sum ≤ 255) (hdata : data.length ≤ 700)
    (hbuilt : InPlace.buildMftRecord driver n name parent isDirectory data = .ok built) :
    ∃ marked restored st, reapplyFixups built driver.sectorSize = .ok marked ∧
      applyFixups marked driver.sectorSize = .ok restored ∧
      parseStat restored driver.boot = .ok st ∧ Describes st name isDirectory data ∧
      ∀ (d d' : ByteStore) (off : Nat), driver.recordOffset n = .ok off →
        writeBlocks off marked d = (.ok (), d') → readMftRecord driver n d' =
          (.ok restored, d') := by
  have hu := Nat.le_trans (length_nameUtf16_le name) hname
  rw [InPlace.buildMftRecord_eq] at hbuilt
  obtain ⟨hlen, -⟩ := buildMftRecord_spec hbuilt
  obtain ⟨hsig, huso, husc, hstart⟩ :=
    reads_builtRecord n driver.mftRecordSize name parent isDirectory data
  rw [builtRecord_of_ok hsize hu hdata hbuilt] at hsig huso husc hstart
  obtain ⟨marked, hmark⟩ : ∃ marked, reapplyFixups built driver.sectorSize = .ok marked := by
    apply reapplyFixups_returns (by omega) (by omega) (by omega)
    rw [husc, h512]
    omega
  obtain ⟨restored, hrestore, hlen', hkeep⟩ := applyFixups_reapplyFixups hmark (by
    intro _ _
    omega)
  -- The saved words lie between the header and the attributes.
  have hsame : ∀ p, p < 50 ∨ 54 ≤ p → restored[p]? = built[p]? := by
    intro p hp
    apply hkeep
    rw [huso, husc]
    rintro - ⟨h₁, h₂⟩
    omega
  have hstart' : leAt restored 20 2 = 56 := by
    rw [← hstart]
    exact leAt_congr fun p _ h ↦ hsame p (by omega)
  have hdrop : restored.drop 56 = built.drop 56 := by
    apply List.ext_getElem?
    intro i
    rw [List.getElem?_drop, List.getElem?_drop]
    exact hsame _ (by omega)
  rw [← builtRecord_of_ok hsize hu hdata hbuilt] at hdrop
  obtain ⟨st, hst, hdescribes⟩ :=
    parseStat_builtRecord driver.boot hplain hu hdata hstart' (by omega) hdrop
  refine ⟨marked, restored, st, hmark, hrestore, hst, hdescribes, ?_⟩
  intro d d' off hoff hw
  obtain ⟨hmarkedLen, -⟩ := reapplyFixups_untouched hmark
  have hwrite : d.write off marked = some d' := by
    rw [writeBlocks_byteStore] at hw
    cases h : d.write off marked with
    | none =>
      rw [h] at hw
      cases hw
    | some d₁ =>
      rw [h] at hw
      cases hw
      rfl
  have hopen : openRecord driver marked = .ok restored :=
    openRecord_eq_ok.mpr ⟨by omega, hasSignature_of_reapplyFixups hsig (h512 ▸ hmark), hrestore⟩
  rw [readMftRecord_byteStore, recordAt, slot_write_same hoff (by omega) hwrite, Outcome.ok_bind,
    hopen]

/-- A file of three bytes. -/
theorem parseStat_buildMftRecord_small : ∃ built marked restored st,
    InPlace.buildMftRecord smallDriver 16 ['a'] 5 false [1, 2, 3] = .ok built ∧
      reapplyFixups built 512 = .ok marked ∧ applyFixups marked 512 = .ok restored ∧
      parseStat restored smallDriver.boot = .ok st ∧ Describes st ['a'] false [1, 2, 3] := by
  have hbuilt : InPlace.buildMftRecord smallDriver 16 ['a'] 5 false [1, 2, 3] =
      .ok (builtRecord 16 1024 ['a'] 5 false [1, 2, 3]) := by
    rw [InPlace.buildMftRecord_eq, buildMftRecord_cases (by decide) (by decide), if_neg (by decide),
      if_neg (by decide), if_pos (by decide)]
    rfl
  obtain ⟨marked, restored, st, h₁, h₂, h₃, h₄, -⟩ := parseStat_buildMftRecord rfl (by decide)
    (by decide) (by decide) (by decide) hbuilt
  exact ⟨_, marked, restored, st, hbuilt, h₁, h₂, h₃, h₄⟩

end SmallOs.Ntfs
