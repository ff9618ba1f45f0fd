import SmallOs.Ntfs.ParseBack

/-!
# Stored files

A file is stored when its first `$DATA` is its own stream, which is resident. A write of as many
bytes as the file has then always goes through and stores the new bytes; any other write is
refused. What `create_file` lays down is a stored file.
-/

namespace SmallOs.Ntfs

open SmallOs.Base SmallOs.Hal

variable {driver : NtfsDriver}

/-- The record `n` holds a plain file whose own stream comes first. -/
def Stored (driver : NtfsDriver) (d : ByteStore) (n : Nat) (content : List UInt8) : Prop :=
  ∃ record a st, PlainFile driver d ⟨n⟩ record a st content ∧ a.isUnnamedData = true

/-- Only the slot of the file counts. -/
theorem Stored.congr {d d' : ByteStore} {n : Nat} {content : List UInt8}
    (h : Stored driver d n content) (hs : slot driver d' n = slot driver d n) :
    Stored driver d' n content := by
  obtain ⟨record, a, st, ⟨hread, hplain, hstat, hfile, hone⟩, hu⟩ := h
  refine ⟨record, a, st, ⟨?_, hplain, hstat, hfile, hone⟩, hu⟩
  rw [← hread, recordAt, recordAt, hs]

theorem Stored.inUse {d : ByteStore} {n : Nat} {content : List UInt8}
    (h : Stored driver d n content) : SlotInUse driver d n := by
  obtain ⟨record, a, st, hf, -⟩ := h
  obtain ⟨buf, hs, ho⟩ := recordAt_eq_ok.mp hf.read
  obtain ⟨-, hsig, -⟩ := openRecord_eq_ok.mp ho
  exact ⟨buf, hs, .inl hsig⟩

/-! ### Reading -/

theorem readBlocks_keeps (off len : Nat) :
    Prog.Follows (σ := ByteStore) (· = ·) (readBlocks off len) := by
  intro d
  rw [readBlocks_byteStore]

theorem readDataRuns_keeps (boot : BootSector) (runs : List DataRun) :
    Prog.Follows (σ := ByteStore) (· = ·) (readDataRuns boot runs) := by
  have hrefl : ∀ d : ByteStore, d = d := fun d ↦ rfl
  have htrans : ∀ s t u : ByteStore, s = t → t = u → s = u := fun s t u h₁ h₂ ↦ h₁.trans h₂
  have hclusters : ∀ clusters, Prog.Follows (σ := ByteStore) (· = ·) (readClusters boot clusters) := by
    intro clusters
    induction clusters with
    | nil => exact Prog.follows_pure hrefl _
    | cons c clusters ih =>
      apply Prog.follows_lift_bind hrefl
      intro offset _
      apply Prog.follows_lift_bind hrefl
      intro size _
      apply Prog.follows_bind htrans (readBlocks_keeps _ _)
      intro buffer
      exact Prog.follows_bind htrans ih fun rest ↦ Prog.follows_pure hrefl _
  induction runs with
  | nil => exact Prog.follows_pure hrefl _
  | cons run runs ih =>
    cases run with
    | resident data => exact Prog.follows_bind htrans ih fun rest ↦ Prog.follows_pure hrefl _
    | nonResident clusters =>
      apply Prog.follows_bind htrans (hclusters clusters)
      intro first
      exact Prog.follows_bind htrans ih fun rest ↦ Prog.follows_pure hrefl _

/-- Reading changes nothing, whatever the record looks like. -/
theorem readFileAll_keeps (file : NtfsFile) :
    Prog.Follows (σ := ByteStore) (· = ·) (readFileAll driver file) := by
  have hrefl : ∀ d : ByteStore, d = d := fun d ↦ rfl
  have htrans : ∀ s t u : ByteStore, s = t → t = u → s = u := fun s t u h₁ h₂ ↦ h₁.trans h₂
  apply Prog.follows_bind htrans
  · intro d
    rw [stat_byteStore]
  intro st
  apply Prog.follows_lift_bind hrefl
  intro _ _
  exact readDataRuns_keeps _ _

/-! ### Writing -/

/-- The sectors that were restored lie in the buffer. -/
theorem sectors_le_of_applyFixups {buf r : List UInt8} {sectorSize : Nat}
    (huso : 48 ≤ leAt buf 4 2) (hin : leAt buf 4 2 + 2 ≤ buf.length) (husc : leAt buf 6 2 ≠ 0)
    (h : applyFixups buf sectorSize = .ok r) : (leAt buf 6 2 - 1) * sectorSize ≤ buf.length := by
  obtain ⟨-, ⟨hoff, -⟩ | ⟨-, -, hfit, hfold⟩⟩ := applyFixups_cases h
  · omega
  generalize leAt buf 6 2 - 1 = n at *
  cases n with
  | zero => omega
  | succ n =>
    -- The last sector was restored in a buffer that is as long.
    rw [List.range'_1_concat, List.foldlM_append, Outcome.bind_eq_ok] at hfold
    obtain ⟨b, hb, hlast⟩ := hfold
    simp only [List.foldlM_cons, List.foldlM_nil, bind_pure, applyFixup_eq_ok] at hlast
    obtain ⟨-, hle, -⟩ := hlast
    have hlen : b.length = buf.length := by
      refine Outcome.foldlM_invariant (P := fun x : List UInt8 ↦ x.length = buf.length) ?_ rfl hb
      intro x i x' hi hx hstep
      obtain ⟨h₁, h₂, -, rfl⟩ := applyFixup_eq_ok.mp hstep
      have hword := List.length_take_le 2 (x.drop (leAt buf 4 2 + i * 2))
      rw [length_splice _ _ _ (by rw [slice]; omega), hx]
    rw [Nat.add_comm 1 n, hlen] at hle
    exact hle

/-- A record that was opened can be marked again with other bytes behind its header. -/
theorem reapplyFixups_of_openRecord (h512 : driver.sectorSize = 512)
    {buf record changed : List UInt8} {off : Nat} (hopen : openRecord driver buf = .ok record)
    (hfront : 48 ≤ leAt record 4 2 → leAt record 6 2 ≠ 0 →
      leAt record 4 2 + 2 * leAt record 6 2 ≤ off) (hoff : off ≤ record.length)
    (hl : changed.length = record.length) (hlow : ∀ p, p < 24 → changed[p]? = record[p]?) :
    ∃ marked, reapplyFixups changed driver.sectorSize = .ok marked := by
  obtain ⟨-, -, hfix⟩ := openRecord_eq_ok.mp hopen
  obtain ⟨h8, -⟩ := applyFixups_cases hfix
  obtain ⟨hlen, hkeep⟩ := applyFixups_untouched hfix
  have hhead : ∀ p, p < 24 → changed[p]? = buf[p]? := by
    intro p hp
    rw [hlow p hp]
    apply hkeep
    rintro ⟨i, hi, -, hend, -⟩
    rw [h512] at hend
    omega
  have husoR : leAt changed 4 2 = leAt record 4 2 := leAt_congr fun p _ hp ↦ hlow p (by omega)
  have huscR : leAt changed 6 2 = leAt record 6 2 := leAt_congr fun p _ hp ↦ hlow p (by omega)
  have husoB : leAt changed 4 2 = leAt buf 4 2 := leAt_congr fun p _ hp ↦ hhead p (by omega)
  have huscB : leAt changed 6 2 = leAt buf 6 2 := leAt_congr fun p _ hp ↦ hhead p (by omega)
  by_cases hactive : 48 ≤ leAt changed 4 2 ∧ leAt changed 6 2 ≠ 0
  · obtain ⟨huso, husc⟩ := hactive
    have hfit := hfront (by omega) (by omega)
    apply reapplyFixups_returns (by omega) (by omega) (by omega)
    rw [huscB, hl, hlen]
    exact sectors_le_of_applyFixups (by omega) (by omega) (by omega) hfix
  · refine ⟨changed, ?_⟩
    rw [reapplyFixups, uintAt_of (by omega), Outcome.ok_bind, uintAt_of (by omega), Outcome.ok_bind,
      if_pos (by omega)]
    rfl

namespace PlainFile

variable {d : ByteStore} {n : Nat} {record : List UInt8} {a : Attr} {st : NtfsStat}
  {content : List UInt8}

theorem mem {file : NtfsFile} (h : PlainFile driver d file record a st content) :
    a ∈ (attrsFrom record (leAt record 20 2)).1 := by
  obtain ⟨-, l₁, l₂, hsplit, -⟩ := List.find?_eq_some_iff_append.mp h.plain.first
  rw [hsplit]
  exact List.mem_append_right _ List.mem_cons_self

theorem find {file : NtfsFile} (h : PlainFile driver d file record a st content) :
    findDataAttributeOffset record = .ok a.offset := by
  obtain ⟨h22, -⟩ := parseStat_eq_ok.mp h.stat
  rw [findDataAttributeOffset, uintAt_of h22, Outcome.ok_bind]
  exact findDataFrom_of_find h.plain.first

/-- The content of the file is the value of its own stream. -/
theorem content_eq {file : NtfsFile} (h : PlainFile driver d file record a st content)
    (hu : a.isUnnamedData = true) : content = a.value := by
  obtain ⟨-, hfold, -⟩ := parseStat_eq_ok.mp h.stat
  obtain ⟨-, l₁, l₂, hsplit, hbefore⟩ := List.find?_eq_some_iff_append.mp h.plain.first
  rw [hsplit] at hfold
  have hsame := foldlM_statStep_replace (fun b hb ↦ by simpa using hbefore b hb) hu h.plain.value hu
    h.plain.value rfl hfold h.one
  have hruns : st.dataRuns = [.resident a.value] :=
    congrArg NtfsStat.dataRuns (Outcome.ok.inj (hfold.symm.trans hsame))
  rw [h.one] at hruns
  exact DataRun.resident.inj (List.cons.inj hruns).1

theorem length_content {file : NtfsFile} (h : PlainFile driver d file record a st content)
    (hu : a.isUnnamedData = true) : content.length = leAt a.data 16 4 := by
  rw [h.content_eq hu, Attr.value, length_slice _ _ _ h.plain.value.inside]

/-- A write of as many bytes is planned. -/
theorem writePlan_isOk (h512 : driver.sectorSize = 512)
    (h : PlainFile driver d ⟨n⟩ record a st content) (hu : a.isUnnamedData = true)
    {data : List UInt8} (hl : data.length = content.length) :
    ∃ off bytes, writePlan driver d n data = .ok (off, bytes) := by
  obtain ⟨buf, hs, hopen⟩ := recordAt_eq_ok.mp h.read
  obtain ⟨off, hoff, -⟩ := slot_eq_ok.mp hs
  obtain ⟨hge, hfit, -⟩ := attrsFrom_mem h.mem
  have hbehind := h.plain.value.behind
  have hinside := h.plain.value.inside
  have hsize : data.length = leAt a.data 16 4 := hl.trans (h.length_content hu)
  have hvalue : leAt record (a.offset + 20) 2 = leAt a.data 20 2 :=
    leAt_attr h.mem (k := 20) (n := 2) (by omega)
  have hlength : leAt record (a.offset + 16) 4 = leAt a.data 16 4 :=
    leAt_attr h.mem (k := 16) (n := 4) (by omega)
  have hlen : (splice record (a.offset + leAt a.data 20 2) data).length = record.length :=
    length_splice _ _ _ (by omega)
  obtain ⟨marked, hmark⟩ := reapplyFixups_of_openRecord h512 hopen h.plain.front (by omega) hlen
    (by
      intro p hp
      rw [getElem?_splice _ _ _ _ (by omega), if_neg (by omega)])
  have hupdate : updateResidentData record a.offset data =
      .ok (splice record (a.offset + leAt a.data 20 2) data) := by
    rw [updateResidentData, Outcome.ensure_of (by omega), Outcome.ok_bind]
    simp only [hvalue, hlength]
    rw [Outcome.ensure_of ⟨hsize, by omega⟩, Outcome.ok_bind]
    exact putAt_eq_ok.mpr ⟨by omega, rfl⟩
  refine ⟨off, marked, ?_⟩
  rw [writePlan, statAt, h.read, Outcome.ok_bind, h.stat, Outcome.ok_bind,
    checkResident_eq_ok (u := ()) |>.mpr ⟨content, [], h.one, hl⟩, Outcome.ok_bind, Outcome.ok_bind,
    updateRecord, h.find, Outcome.ok_bind, hupdate, Outcome.ok_bind, hmark, Outcome.ok_bind, hoff]
  rfl

/-- A planned write keeps the header of the record. -/
theorem low_of_writePlan (h : PlainFile driver d ⟨n⟩ record a st content) {data bytes r : List UInt8}
    {off : Nat} (hplan : writePlan driver d n data = .ok (off, bytes))
    (hopen : openRecord driver bytes = .ok r) : ∀ p, p < 24 → r[p]? = record[p]? := by
  obtain ⟨_, _, _, _, attr, hrec, -, -, -, hattr, -, hmark, hput, -⟩ := writePlan_eq_ok hplan
  rw [h.read] at hrec
  cases hrec
  rw [h.find] at hattr
  cases hattr
  have hbehind := h.plain.value.behind
  rw [leAt_attr h.mem (k := 20) (n := 2) (by have := h.plain.value.inside; omega)] at hmark hput
  have hlow : ∀ p, p < 24 →
      (splice record (a.offset + leAt a.data 20 2) data)[p]? = record[p]? := by
    intro p hp
    rw [getElem?_splice _ _ _ _ hput, if_neg (by omega)]
  obtain ⟨r', hopen', -, hkeep⟩ := openRecord_reapplyFixups h.plain.signature h.plain.clear
    (length_splice _ _ _ hput) hlow hmark
  rw [hopen] at hopen'
  cases hopen'
  intro p hp
  rw [hkeep p, hlow p hp]
  rintro ⟨h₁, h₂, -⟩
  omega

/-- Any other write is refused. -/
theorem writePlan_refused (h : PlainFile driver d ⟨n⟩ record a st content) {data : List UInt8}
    (hl : data.length ≠ content.length) : writePlan driver d n data = .err .invalidAttribute := by
  have hcheck : checkResident st data = .err .invalidAttribute := by
    rw [checkResident, h.one]
    exact Outcome.ensure_not hl
  rw [writePlan, statAt, h.read, Outcome.ok_bind, h.stat, Outcome.ok_bind, hcheck]
  rfl

end PlainFile

namespace Stored

variable {d : ByteStore} {n : Nat} {content data : List UInt8}

theorem readFileAll (h : Stored driver d n content) :
    readFileAll driver ⟨n⟩ d = (.ok content, d) := by
  obtain ⟨record, a, st, hf, -⟩ := h
  refine readFileAll_resident ?_ hf.file hf.one
  rw [statAt, hf.read, Outcome.ok_bind, hf.stat]

/-- The updated record is that of a plain file with the new bytes. -/
theorem updated {d' : ByteStore} {record r : List UInt8} {a : Attr} {st : NtfsStat}
    (hf : PlainFile driver d ⟨n⟩ record a st content) (hu : a.isUnnamedData = true)
    (hread : recordAt driver d' n = .ok r) (hupdated : Updated record r a data)
    (hlow : ∀ p, p < 24 → r[p]? = record[p]?) :
    Stored driver d' n data := by
  have huso : leAt r 4 2 = leAt record 4 2 := leAt_congr fun p _ hp ↦ hlow p (by omega)
  have husc : leAt r 6 2 = leAt record 6 2 := leAt_congr fun p _ hp ↦ hlow p (by omega)
  obtain ⟨l₁, l₂, -, hfront, hwalk⟩ := hupdated.attrs
  refine ⟨r, a.reread r, _, ⟨hread, ⟨?_, ?_, ?_, ?_, hupdated.inside⟩,
    hupdated.parseStat_unnamed hf.plain.value hu hf.stat hf.one, hf.file, rfl⟩,
    hupdated.isUnnamedData.trans hu⟩
  · exact hf.plain.signature.congr fun p hp ↦ hlow p (by omega)
  · have hclear := hf.plain.clear
    unfold ArrayClear at *
    rwa [huso, husc]
  · rw [huso, husc, hupdated.start]
    exact hf.plain.front
  · simp only [Attr.isUnnamedData, Bool.and_eq_true, decide_eq_true_eq] at hu
    rw [hupdated.start, hwalk]
    apply List.find?_eq_some_iff_append.mpr
    refine ⟨decide_eq_true hu.1, l₁, l₂, rfl, ?_⟩
    intro b hb
    simpa using hfront b hb

/-- A write of as many bytes as the file has stores them, and changes no other slot. -/
theorem writeFile_ok (h512 : driver.sectorSize = 512) (h : Stored driver d n content)
    (hl : data.length = content.length) :
    ∃ d', writeFile driver ⟨n⟩ data d = (.ok (), d') ∧ Stored driver d' n data ∧
      ∀ m, m ≠ n → slot driver d' m = slot driver d m := by
  obtain ⟨record, a, st, hf, hu⟩ := h
  obtain ⟨off, bytes, hplan⟩ := hf.writePlan_isOk h512 hu hl
  rcases hcall : writeFile driver ⟨n⟩ data d with ⟨res, d'⟩
  rcases writeFile_cases hcall with ⟨rfl, off', bytes', hplan', hw⟩ | ⟨-, -, hnone⟩
  · obtain ⟨r, hread, hupdated⟩ := updated_of_writeFile hf hcall
    obtain ⟨-, -, -, -, -, -, -, -, -, -, -, -, -, hoff⟩ := writePlan_eq_ok hplan'
    have hslot := slot_write_same hoff (length_writePlan hplan') hw
    have hopen : openRecord driver bytes' = .ok r := by
      rw [← hread, recordAt, hslot, Outcome.ok_bind]
    exact ⟨d', rfl, updated hf hu hread hupdated (hf.low_of_writePlan hplan' hopen),
      fun m hm ↦ slot_write_other hoff (length_writePlan hplan') hw hm⟩
  · exact absurd hplan (hnone _)

/-- Any other write is refused and changes nothing. -/
theorem writeFile_err (h : Stored driver d n content) (hl : data.length ≠ content.length) :
    writeFile driver ⟨n⟩ data d = (.err .invalidAttribute, d) := by
  obtain ⟨record, a, st, hf, -⟩ := h
  rw [writeFile_byteStore, hf.writePlan_refused hl]
  rfl

end Stored

/-! ### A new file -/

/-- The data of a record that is built are small. -/
theorem length_data_of_build {n parent : Nat} {name : List Char} {data built : List UInt8}
    (hsize : 1024 ≤ driver.mftRecordSize) (hu : (nameUtf16 name).length ≤ 255)
    (h : buildMftRecord driver n name parent false data = .ok built) : data.length ≤ 700 := by
  rw [buildMftRecord_cases hsize hu] at h
  split at h
  · cases h
  · next hno => simpa using hno

/-- The record that `create_file` lays down is that of a plain file. -/
theorem stored_of_prepared (h512 : driver.sectorSize = 512) (hsize : 1024 ≤ driver.mftRecordSize)
    {d d' : ByteStore} {parent : NtfsFile} {name : List Char} {data marked : List UInt8} {n : Nat}
    (hplain : PlainName name)
    (hprep : prepared driver d parent name { isDirectory := false, data } = .ok (n, marked))
    (hslot : slot driver d' n = .ok marked) : Stored driver d' n data := by
  obtain ⟨-, -, hname, -, built, hbuilt, hmark⟩ := prepared_eq_ok.mp hprep
  have hu := Nat.le_trans (length_nameUtf16_le name) hname
  change buildMftRecord driver n name parent.recordNumber false data = _ at hbuilt
  have hdata := length_data_of_build hsize hu hbuilt
  obtain ⟨hlen, -⟩ := buildMftRecord_spec hbuilt
  obtain ⟨hsig, huso, husc, hstart⟩ :=
    reads_builtRecord n driver.mftRecordSize name parent.recordNumber false data
  rw [builtRecord_of_ok hsize hu hdata hbuilt] at hsig huso husc hstart
  obtain ⟨r, hopen, hrl, hkeep⟩ := openRecord_reapplyFixups hsig
    (fun _ _ ↦ by rw [huso, husc, h512]; decide) rfl (fun _ _ ↦ rfl) hmark
  -- The saved words lie between the header and the attributes.
  have hsame : ∀ p, p < 50 ∨ 54 ≤ p → r[p]? = built[p]? := by
    intro p hp
    apply hkeep
    rintro ⟨-, h₁, h₂⟩
    omega
  have hword : ∀ k, k + 2 ≤ 50 → leAt r k 2 = leAt built k 2 :=
    fun k hk ↦ leAt_congr fun p _ h ↦ hsame p (by omega)
  have hdrop : r.drop 56 = built.drop 56 := by
    apply List.ext_getElem?
    intro i
    rw [List.getElem?_drop, List.getElem?_drop]
    exact hsame _ (by omega)
  rw [← builtRecord_of_ok hsize hu hdata hbuilt] at hdrop
  have hstart' : leAt r 20 2 = 56 := (hword 20 (by decide)).trans hstart
  obtain ⟨st, hst, hdescribes⟩ :=
    parseStat_builtRecord driver.boot hplain hu hdata hstart' (by omega) hdrop
  obtain ⟨-, hruns, -⟩ := hdescribes.content rfl
  have hattrs := attrsFrom_builtRecord hu hdata hdrop
  obtain ⟨hunnamed, hvalueLen, hvalueOff, -⟩ :=
    reads_residentAttr 0x80 0 (show data.length < 2 ^ 32 by omega)
  refine ⟨r, .resident (152 + attrLenAligned (66 + (nameUtf16 name).length * 2)) .data 0x80 0 data,
    st, ⟨recordAt_eq_ok.mpr ⟨marked, hslot, hopen⟩, ⟨?_, ?_, ?_, ?_, ?_⟩, hst,
      hdescribes.directory, hruns⟩, ?_⟩
  · exact hsig.congr fun p hp ↦ hsame p (by omega)
  · intro _ _
    rw [hword 4 (by decide), hword 6 (by decide), huso, husc, h512]
    decide
  · intro _ _
    rw [hword 4 (by decide), hword 6 (by decide), huso, husc, hstart']
    decide
  · rw [hstart', hattrs]
    rfl
  · refine ⟨rfl, Nat.le_of_eq hvalueOff.symm, ?_⟩
    change leAt (residentAttr 0x80 0 data) 20 2 + leAt (residentAttr 0x80 0 data) 16 4 ≤
      (residentAttr 0x80 0 data).length
    rw [hvalueOff, hvalueLen, length_residentAttr, attrLenAligned]
    omega
  · change (decide (AttributeType.data = .data) && decide
      (leAt (residentAttr 0x80 0 data) 9 1 = 0)) = true
    rw [hunnamed]
    rfl

end SmallOs.Ntfs
