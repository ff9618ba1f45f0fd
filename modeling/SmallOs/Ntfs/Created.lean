import SmallOs.Ntfs.Atomic
import SmallOs.Ntfs.Entries
import SmallOs.Ntfs.Overwrite

/-!
# Finding a created file

`create_file` puts an entry into the parent's resident root, or into an external index block when
the root is full. The readers of a directory look at the resident root only, and show a name in
ASCII only. A created file is found again exactly when the root took its entry and its name is
a plain one.
-/

namespace SmallOs.Ntfs

open SmallOs.Base SmallOs.Hal

variable {driver : NtfsDriver}

/-! ### Metadata with another root -/

/-- The metadata with another index root. -/
def NtfsStat.withRoot (st : NtfsStat) (root : Option (List UInt8)) : NtfsStat :=
  { st with indexRoot := root }

/-- Attributes of other types look at no index root. -/
theorem statStep_withRoot {boot : BootSector} {a : Attr} (ha : a.typ ≠ .indexRoot) (st : NtfsStat)
    (root : Option (List UInt8)) :
    statStep boot (st.withRoot root) a = (·.withRoot root) <$> statStep boot st a := by
  have hadd : ∀ (nameLength size : Nat) (run : DataRun),
      addStream (st.withRoot root) a.data nameLength size run =
        (addStream st a.data nameLength size run).withRoot root := by
    intro nameLength size run
    unfold addStream
    split <;> rfl
  unfold statStep
  split
  · split <;> rfl
  · split <;> rfl
  · rfl
  · split <;> rfl
  · unfold statFileName
    change (if a.isResident = true ∧ st.name = none then _ else _) = _
    split
    · cases parseFilename a.data with
      | ok parsed => cases parsed <;> rfl
      | err e => rfl
      | panic => rfl
    · rfl
  · next ht => exact absurd ht ha
  · unfold statData
    simp only [hadd]
    cases uintAt a.data 9 1 with
    | err e => rfl
    | panic => rfl
    | ok nameLength =>
      simp only [Outcome.ok_bind]
      split
      · split
        · rfl
        · split <;> rfl
      · cases parseDataRuns a.data with
        | err e => rfl
        | panic => rfl
        | ok runs =>
          simp only [Outcome.ok_bind]
          cases runsSize boot.bytesPerCluster runs <;> rfl
  · rfl

theorem foldlM_statStep_withRoot {boot : BootSector} {attrs : List Attr}
    (h : ∀ a ∈ attrs, a.typ ≠ .indexRoot) (st : NtfsStat) (root : Option (List UInt8)) :
    attrs.foldlM (statStep boot) (st.withRoot root) =
      (·.withRoot root) <$> attrs.foldlM (statStep boot) st := by
  induction attrs generalizing st with
  | nil => rfl
  | cons a attrs ih =>
    rw [List.foldlM_cons, List.foldlM_cons, statStep_withRoot (h a List.mem_cons_self)]
    cases statStep boot st a with
    | ok st' => exact ih (fun b hb ↦ h b (List.mem_cons_of_mem _ hb)) st'
    | err e => rfl
    | panic => rfl

/-- The value of a resident root, as the metadata keep it. -/
def Attr.root (a : Attr) : List UInt8 := a.data.drop (leAt a.data 20 2)

/-- A resident root whose value is in it. -/
structure RootInside (a : Attr) : Prop where
  typ : a.typ = .indexRoot
  resident : a.isResident = true
  behind : 24 ≤ leAt a.data 20 2
  inside : leAt a.data 20 2 < a.data.length

/-- The root becomes the index, and its file a directory. -/
theorem statStep_root {boot : BootSector} {a : Attr} (h : RootInside a) (st : NtfsStat) :
    statStep boot st a = .ok ({ st with isDirectory := true }.withRoot (some a.root)) := by
  obtain ⟨htyp, hres, hbehind, hin⟩ := h
  rw [statStep, htyp]
  change statIndexRoot st a = _
  rw [statIndexRoot, if_pos hres, uintAt_of (by omega), Outcome.ok_bind]
  simp only [if_pos hin]
  rfl

/-- Another root in the place of the only one is the only change. -/
theorem foldlM_statStep_root {boot : BootSector} {l₁ l₂ : List Attr} {a a' : Attr} {st : NtfsStat}
    (hother : ∀ b ∈ l₂, b.typ ≠ .indexRoot) (ha : RootInside a) (ha' : RootInside a')
    (h : (l₁ ++ a :: l₂).foldlM (statStep boot) {} = .ok st) :
    st.indexRoot = some a.root ∧
      (l₁ ++ a' :: l₂).foldlM (statStep boot) {} = .ok (st.withRoot (some a'.root)) := by
  rw [List.foldlM_append, Outcome.bind_eq_ok] at h
  obtain ⟨st₁, h₁, h₂⟩ := h
  rw [List.foldlM_cons, statStep_root ha, Outcome.ok_bind, foldlM_statStep_withRoot hother,
    Outcome.map_eq_ok] at h₂
  obtain ⟨st₂, h₂, rfl⟩ := h₂
  refine ⟨rfl, ?_⟩
  rw [List.foldlM_append, h₁, Outcome.ok_bind, List.foldlM_cons, statStep_root ha', Outcome.ok_bind,
    foldlM_statStep_withRoot hother, h₂]
  rfl

/-! ### The directory after an insertion -/

/-- Where the value of a root starts in its record. -/
def Attr.rootStart (a : Attr) : Nat := a.offset + leAt a.data 20 2

/-- The value of a resident root is a window of its record, behind the record's header. -/
structure RootWindow (record : List UInt8) (a : Attr) : Prop where
  header : rootHeader record a.offset = a.rootStart + 16
  behind : 28 ≤ a.rootStart
  byte : ∀ i < a.root.length, a.root[i]? = record[a.rootStart + i]?

namespace RootWindow

variable {record : List UInt8} {a : Attr}

/-- The value of an attribute that the iterator yields. -/
theorem of_mem {off : Nat} (ha : a ∈ (attrsFrom record off).1) (hv : RootInside a)
    (hlow : 28 ≤ off) : RootWindow record a := by
  obtain ⟨hge, -, -⟩ := attrsFrom_mem ha
  have hin := hv.inside
  have hbehind := hv.behind
  refine ⟨?_, ?_, ?_⟩
  · rw [rootHeader, leAt_attr ha (k := 20) (n := 2) (by omega), Attr.rootStart]
  · rw [Attr.rootStart]
    omega
  · intro i hi
    rw [Attr.root, List.length_drop] at hi
    rw [Attr.root, List.getElem?_drop, getElem?_attr ha (by omega), Attr.rootStart, Nat.add_assoc]

theorem slice_root (h : RootWindow record a) {i n : Nat} (hi : i + n ≤ a.root.length) :
    slice a.root i n = slice record (a.rootStart + i) n := by
  apply List.ext_getElem?
  intro j
  rw [getElem?_slice, getElem?_slice]
  by_cases hj : j < n
  · rw [if_pos hj, if_pos hj, h.byte _ (by omega), Nat.add_assoc]
  · rw [if_neg hj, if_neg hj]

theorem leAt_root (h : RootWindow record a) {i n : Nat} (hi : i + n ≤ a.root.length) :
    leAt record (a.rootStart + i) n = leAt a.root i n := by
  rw [leAt, leAt, h.slice_root hi]

end RootWindow

/-- A directory record whose array stays clear of its attributes, and whose one index root is
`a`: a well-formed index, with the space it may grow into inside the attribute. -/
structure PlainRoot (driver : NtfsDriver) (record : List UInt8) (a : Attr) : Prop where
  signature : HasSignature record
  clear : ArrayClear record driver.sectorSize
  front : 48 ≤ leAt record 4 2 → leAt record 6 2 ≠ 0 →
    leAt record 4 2 + 2 * leAt record 6 2 ≤ leAt record 20 2
  header : 28 ≤ leAt record 20 2
  only : ∃ l₁ l₂, (attrsFrom record (leAt record 20 2)).1 = l₁ ++ a :: l₂ ∧
    ∀ b ∈ l₁ ++ l₂, b.typ ≠ .indexRoot
  value : RootInside a
  index : PlainIndex a.root
  allocated : 16 + leAt a.root 24 4 ≤ a.root.length

namespace PlainRoot

variable {record : List UInt8} {a : Attr}

theorem mem (h : PlainRoot driver record a) : a ∈ (attrsFrom record (leAt record 20 2)).1 := by
  obtain ⟨l₁, l₂, hsplit, -⟩ := h.only
  rw [hsplit]
  exact List.mem_append_right _ List.mem_cons_self

theorem find (h : PlainRoot driver record a) :
    findAttributeFrom record 0x90 (leAt record 20 2) = .ok a.offset := by
  obtain ⟨l₁, l₂, hsplit, hother⟩ := h.only
  apply findAttributeFrom_of_find (show AttributeType.ofCode 0x90 = some .indexRoot from rfl)
  rw [hsplit]
  apply List.find?_eq_some_iff_append.mpr
  refine ⟨by simpa using h.value.typ, l₁, l₂, rfl, ?_⟩
  intro b hb
  simpa using hother b (List.mem_append_left _ hb)

theorem window (h : PlainRoot driver record a) : RootWindow record a :=
  .of_mem h.mem h.value h.header

end PlainRoot

/-- A record whose root has taken an entry: the sizes in the two headers, the new entry in the
place of the end marker, the marker behind it, and nothing else. -/
structure TookEntry (record inserted : List UInt8) (a : Attr) (parent child : Nat)
    (name : List Char) : Prop where
  length : inserted.length = record.length
  room : leAt a.root 20 4 + entryLenAligned name + 16 ≤ a.root.length
  small : leAt a.root 20 4 + entryLenAligned name < 2 ^ 32
  total : slice inserted (a.rootStart + 20) 4 = leBytes 4 (leAt a.root 20 4 + entryLenAligned name)
  entry : slice inserted (a.rootStart + leAt a.root 20 4) (entryLenAligned name) =
    newEntry parent child name
  marker : slice inserted (a.rootStart + leAt a.root 20 4 + entryLenAligned name) 16 =
    slice record (a.rootStart + leAt a.root 20 4) 16
  kept : ∀ p, ¬ (24 ≤ p ∧ p < 28) → ¬ (a.rootStart + 20 ≤ p ∧ p < a.rootStart + 24) →
    ¬ (a.rootStart + leAt a.root 20 4 ≤ p ∧
      p < a.rootStart + leAt a.root 20 4 + entryLenAligned name + 16) →
    inserted[p]? = record[p]?

/-- What the resident inserter does to a root that it passes. -/
theorem tookEntry_of_takes {record inserted : List UInt8} {a : Attr} {parent child : Nat}
    {name : List Char} (hw : RootWindow record a) (htotal : 24 ≤ leAt a.root 20 4)
    (hlong : 28 ≤ a.root.length) (halloc : 16 + leAt a.root 24 4 ≤ a.root.length)
    (htakes : TakesEntry record a.offset name)
    (hused : leAt (entered record a.offset parent child name) 24 4 + entryLenAligned name < 2 ^ 32)
    (hins : splice (entered record a.offset parent child name) 24 (leBytes 4
      (leAt (entered record a.offset parent child name) 24 4 + entryLenAligned name)) = inserted) :
    TookEntry record inserted a parent child name := by
  have hvalue := hw.header
  have hlow := hw.behind
  have hsize : rootTotal record a.offset = leAt a.root 20 4 := by
    rw [rootTotal, hvalue, Nat.add_assoc, hw.leAt_root (by omega)]
  have hend : rootEnd record a.offset = a.rootStart + leAt a.root 20 4 := by
    rw [rootEnd, hvalue, hsize]
    omega
  have hroom := htakes.room
  rw [hsize, hvalue, Nat.add_assoc, hw.leAt_root (by omega)] at hroom
  change _ ≤ leAt a.root 24 4 at hroom
  have hheader := htakes.header_le
  have hlen : (entered record a.offset parent child name).length = record.length :=
    length_entered htakes
  have hinserted : inserted.length = record.length := by
    rw [← hins, length_splice _ _ _ (by rw [hlen, length_leBytes]; omega), hlen]
  have hbytes : ∀ p, ¬ (24 ≤ p ∧ p < 28) →
      inserted[p]? = (entered record a.offset parent child name)[p]? := by
    intro p hno
    rw [← hins, getElem?_splice _ _ _ _ (by rw [hlen, length_leBytes]; omega), length_leBytes,
      if_neg (by omega)]
  simp only [getElem?_entered htakes, hvalue, hsize, hend] at hbytes
  have hsmall := leAt_lt a.root 24 4
  refine ⟨hinserted, by omega, by omega, ?_, ?_, ?_, ?_⟩
  · apply List.ext_getElem?
    intro j
    rw [getElem?_slice]
    by_cases hj : j < 4
    · rw [if_pos hj, hbytes _ (by omega), if_pos (by omega), Nat.add_sub_cancel_left]
    · rw [if_neg hj, List.getElem?_eq_none (by rw [length_leBytes]; omega)]
  · apply List.ext_getElem?
    intro j
    rw [getElem?_slice]
    by_cases hj : j < entryLenAligned name
    · rw [if_pos hj, hbytes _ (by omega), if_neg (by omega), if_pos (by omega),
        Nat.add_sub_cancel_left]
    · rw [if_neg hj, List.getElem?_eq_none (by rw [length_newEntry]; omega)]
  · apply List.ext_getElem?
    intro j
    rw [getElem?_slice, getElem?_slice]
    by_cases hj : j < 16
    · rw [if_pos hj, if_pos hj, hbytes _ (by omega), if_neg (by omega), if_neg (by omega),
        if_pos (by omega), Nat.add_right_comm _ (entryLenAligned name), Nat.add_sub_cancel]
    · rw [if_neg hj, if_neg hj]
  · intro p h₁ h₂ h₃
    rw [hbytes p h₁, if_neg (by omega), if_neg (by omega), if_neg (by omega)]

/-- The resident inserter on a plain directory. -/
theorem tookEntry_of_insertResident {record inserted : List UInt8} {a : Attr}
    {parent child : Nat} {name : List Char} (hp : PlainRoot driver record a)
    (hi : insertResident record parent child name = .ok inserted) :
    TookEntry record inserted a parent child name := by
  obtain ⟨attr, hattr, htakes, hused, hins⟩ := insertResident_eq_ok.mp hi
  obtain rfl : a.offset = attr :=
    Outcome.ok.inj (hp.find.symm.trans (findAttributeOffset_iff.mp hattr).2)
  have hstart := hp.index.start
  have hentries := hp.index.entries.le
  have hfits := hp.index.fit
  exact tookEntry_of_takes hp.window (by omega) (by omega) hp.allocated htakes hused hins

/-- The root as it is read back from a record that differs in the marked words alone: the same
value as before, grown by the entry. -/
theorem TookEntry.inserted {record inserted r : List UInt8} {a a' : Attr} {parent child : Nat}
    {name : List Char} (ht : TookEntry record inserted a parent child name)
    (hw : RootWindow record a) (hw' : RootWindow r a') (hstart : a'.rootStart = a.rootStart)
    (hlen : a'.root.length = a.root.length) (htotal : 24 ≤ leAt a.root 20 4)
    (hr : ∀ p, a.rootStart ≤ p → r[p]? = inserted[p]?) (hu : (nameUtf16 name).length < 256) :
    Inserted a.root a'.root parent child name := by
  have hroom := ht.room
  have hlow := hw.behind
  -- A window of the new index shows what the inserter wrote there.
  have hwindow : ∀ i n, i + n ≤ a.root.length →
      slice a'.root i n = slice inserted (a.rootStart + i) n := by
    intro i n hi
    rw [hw'.slice_root (by omega), hstart]
    exact slice_congr fun p h₁ h₂ ↦ hr p (by omega)
  refine ⟨?_, ?_, ⟨?_, hu⟩, ?_⟩
  · rw [leAt, hwindow _ _ (by omega), ht.total, leNat_leBytes_of_lt ht.small]
  · intro p h₁ h₂
    rw [hw'.byte _ (by omega), hstart, hr _ (by omega), ht.kept _ (by omega) (by omega) (by omega),
      hw.byte _ (by omega)]
  · rw [hwindow _ _ (by omega), ht.entry]
  · rw [hwindow _ _ hroom, ← Nat.add_assoc, ht.marker, hw.slice_root (by omega)]

/-- A directory whose root has taken an entry, marked and opened again: the attributes around the
root are as before, and the index has grown by the entry. -/
structure Grown (record r : List UInt8) (a : Attr) (parent child : Nat) (name : List Char) :
    Prop where
  length : r.length = record.length
  start : leAt r 20 2 = leAt record 20 2
  attrs : ∃ l₁ l₂, (attrsFrom record (leAt record 20 2)).1 = l₁ ++ a :: l₂ ∧
    (∀ b ∈ l₁ ++ l₂, b.typ ≠ .indexRoot) ∧
    attrsFrom r (leAt record 20 2) =
      (l₁ ++ a.reread r :: l₂, (attrsFrom record (leAt record 20 2)).2)
  value : RootInside (a.reread r)
  index : Inserted a.root (a.reread r).root parent child name

theorem grown_of_reapplyFixups {record inserted marked : List UInt8} {a : Attr}
    {parent child : Nat} {name : List Char} (hp : PlainRoot driver record a)
    (ht : TookEntry record inserted a parent child name) (hu : (nameUtf16 name).length < 256)
    (hm : reapplyFixups inserted driver.sectorSize = .ok marked) :
    ∃ r, openRecord driver marked = .ok r ∧ Grown record r a parent child name := by
  obtain ⟨hge, hfit, -⟩ := attrsFrom_mem hp.mem
  obtain ⟨l₁, l₂, hsplit, hother⟩ := hp.only
  have hbehind := hp.value.behind
  have hin := hp.value.inside
  have hlow := hp.header
  have hroot : a.root.length = a.data.length - leAt a.data 20 2 := List.length_drop
  have hstart : a.rootStart = a.offset + leAt a.data 20 2 := rfl
  have hentries := hp.index.entries.le
  have hfirst := hp.index.start
  have hroom := ht.room
  obtain ⟨r, hopen, hrl, hr⟩ := openRecord_reapplyFixups hp.signature hp.clear ht.length
    (fun p h ↦ ht.kept p (by omega) (by omega) (by omega)) hm
  have hattr : ∀ p, leAt record 20 2 ≤ p → r[p]? = inserted[p]? :=
    fun p h ↦ hr p (not_saved_of_le hp.front h)
  have hkept : ∀ p, leAt record 20 2 ≤ p → ¬ (a.rootStart + 20 ≤ p ∧
      p < a.rootStart + leAt a.root 20 4 + entryLenAligned name + 16) → r[p]? = record[p]? := by
    intro p h₁ h₂
    rw [hattr p h₁, ht.kept p (by omega) (by omega) (by omega)]
  have hwalk := attrsFrom_write hrl hsplit (show a.offset + 24 ≤ a.rootStart + 20 by omega)
    (show a.rootStart + leAt a.root 20 4 + entryLenAligned name + 16 ≤ _ by omega) hkept
  have hmem : a.reread r ∈ (attrsFrom r (leAt record 20 2)).1 := by
    rw [hwalk]
    exact List.mem_append_right _ List.mem_cons_self
  have hoffset : leAt (a.reread r).data 20 2 = leAt a.data 20 2 :=
    leAt_reread hp.mem (by omega) fun p h₁ h₂ ↦ hkept p (by omega) (by omega)
  have hdata : (a.reread r).data.length = a.data.length := length_slice _ _ _ (by omega)
  have hstart' : (a.reread r).rootStart = a.rootStart := by
    rw [Attr.rootStart, hoffset]
    rfl
  have hroot' : (a.reread r).root.length = a.root.length := by
    rw [Attr.root, List.length_drop, hdata, hoffset, hroot]
  have hvalue : RootInside (a.reread r) := ⟨hp.value.typ, hp.value.resident,
    by rw [hoffset]; exact hbehind, by rw [hoffset, hdata]; exact hin⟩
  refine ⟨r, hopen, hrl, ?_, ⟨l₁, l₂, hsplit, hother, hwalk⟩, hvalue, ?_⟩
  · apply leAt_congr
    intro p h₁ h₂
    rw [hr p]
    · exact ht.kept p (by omega) (by omega) (by omega)
    · rintro ⟨h₃, h₄, -⟩
      omega
  · exact ht.inserted hp.window (.of_mem hmem hvalue hlow) hstart' hroot' (by omega)
      (fun p h ↦ hattr p (by omega)) hu

/-- The metadata of the grown directory differ in the index alone. -/
theorem Grown.parseStat_eq {record r : List UInt8} {a : Attr} {parent child : Nat}
    {name : List Char} (h : Grown record r a parent child name) (hv : RootInside a)
    {boot : BootSector} {st : NtfsStat} (hst : parseStat record boot = .ok st) :
    st.indexRoot = some a.root ∧
      parseStat r boot = .ok (st.withRoot (some (a.reread r).root)) := by
  obtain ⟨hlen, hfold, hend⟩ := parseStat_eq_ok.mp hst
  obtain ⟨l₁, l₂, hsplit, hother, hwalk⟩ := h.attrs
  rw [hsplit] at hfold
  obtain ⟨hroot, hnew⟩ := foldlM_statStep_root
    (fun b hb ↦ hother b (List.mem_append_right _ hb)) hv h.value hfold
  refine ⟨hroot, ?_⟩
  apply parseStat_eq_ok.mpr
  rw [h.start, hwalk, h.length]
  exact ⟨hlen, hnew, hend⟩

/-! ### The call -/

/-- The call goes through: the new record is placed, the index takes the entry, and the record
opens. -/
def Completes (driver : NtfsDriver) (d : ByteStore) (input : CreateInput) (n : Nat)
    (d' : ByteStore) : Prop :=
  ∃ record d₁ off bytes opened, Placed driver d input n record d₁ ∧
    entryPlan driver d₁ input.parent.recordNumber n input.name = .ok (off, bytes) ∧
    d₁.write off bytes = some d' ∧ recordAt driver d' n = .ok opened

theorem createFile_eq_ok {d d' : ByteStore} {input : CreateInput} {f : NtfsFile} :
    createFile driver input.parent input.name input.options d = (.ok f, d') ↔
      Completes driver d input f.recordNumber d' := by
  constructor
  · intro hcall
    rcases createFile_cases hcall with ⟨-, hno⟩ | ⟨n, record, off, d₁, hprep, hoff, hw, hrest⟩
    · exact absurd rfl (hno f)
    rcases hrest with ⟨-, ⟨e, -, hr⟩ | ⟨-, hr⟩⟩ | ⟨off', bytes, hplan, hw', hr⟩
    · cases hr
    · cases hr
    · obtain ⟨opened, hopen, rfl⟩ := Outcome.map_eq_ok.mp hr.symm
      exact ⟨record, d₁, off', bytes, opened, ⟨hprep, off, hoff, hw⟩, hplan, hw', hopen⟩
  · rintro ⟨record, d₁, off, bytes, opened, ⟨hprep, off', hoff, hw⟩, hplan, hw', hopen⟩
    rw [createFile_taken hprep hoff hw hplan hw', hopen]
    rfl

/-- A name of a built record has at most 255 units. -/
theorem units_lt_of_prepared {d : ByteStore} {input : CreateInput} {n : Nat} {record : List UInt8}
    (h : prepared driver d input.parent input.name input.options = .ok (n, record)) :
    (nameUtf16 input.name).length < 256 := by
  obtain ⟨-, -, -, -, built, hbuilt, -⟩ := prepared_eq_ok.mp h
  simp only [buildMftRecord, writeFilenameAttr, Outcome.bind_eq_ok, Outcome.ensure_eq_ok] at hbuilt
  obtain ⟨-, -, -, -, -, ⟨-, hunits, -⟩, -⟩ := hbuilt
  omega

/-- A directory that is plain, and whose external index block, where it has one, does not lie on
its own record. -/
structure PlainDirectory (driver : NtfsDriver) (d : ByteStore) (dir : NtfsFile)
    (record : List UInt8) (a : Attr) : Prop where
  read : recordAt driver d dir.recordNumber = .ok record
  root : PlainRoot driver record a
  apart : ∀ off size pos, locateExternal driver.boot record = .ok (off, size) →
    driver.recordOffset dir.recordNumber = .ok pos →
    off + size ≤ pos ∨ pos + driver.mftRecordSize ≤ off

section Directory

variable {d d' : ByteStore} {input : CreateInput} {n : Nat} {record : List UInt8} {a : Attr}

/-- The directory in front of a call that goes through: its index is the root, and the name is
not in it. -/
theorem PlainDirectory.before (hp : PlainDirectory driver d input.parent record a)
    (hc : Completes driver d input n d') :
    ∃ st, parseStat record driver.boot = .ok st ∧
      (input.parent.recordNumber = 5 ∨ st.isDirectory = true) := by
  obtain ⟨_, _, _, _, _, ⟨hprep, -⟩, -⟩ := hc
  obtain ⟨hdir, hfind, -⟩ := prepared_eq_ok.mp hprep
  obtain ⟨data, hdata, -⟩ := find_eq_fileNotFound.mp hfind
  obtain ⟨_, hrec, hindex⟩ := Outcome.bind_eq_ok.mp hdata
  rw [hp.read] at hrec
  cases hrec
  obtain ⟨st, hst, -⟩ := Outcome.bind_eq_ok.mp hindex
  refine ⟨st, hst, ?_⟩
  by_cases h5 : input.parent.recordNumber = 5
  · exact .inl h5
  · rw [isDirectoryAt, if_neg h5, statAt, hp.read, Outcome.ok_bind, hst] at hdir
    exact .inr (Outcome.ok.inj hdir)

theorem indexAt_of_root {st : NtfsStat} {root : List UInt8}
    (hrec : recordAt driver d n = .ok record) (hst : parseStat record driver.boot = .ok st)
    (hroot : st.indexRoot = some root) : indexAt driver d n = .ok root := by
  rw [indexAt, hrec, Outcome.ok_bind, recordIndex, hst, Outcome.ok_bind, hroot]
  rfl

/-- Where the root takes the entry, the directory grows by it. -/
theorem PlainDirectory.grown (hp : PlainDirectory driver d input.parent record a)
    (hc : Completes driver d input n d') {w : Nat × List UInt8}
    (hres : residentPlan driver record input.parent.recordNumber n input.name = .ok w) :
    ∃ r, recordAt driver d' input.parent.recordNumber = .ok r ∧
      Grown record r a input.parent.recordNumber n input.name := by
  obtain ⟨new, d₁, off, bytes, _, hplaced, hplan, hw, -⟩ := hc
  obtain ⟨_, hrec, hrec₁⟩ := hplaced.recordAt_parent
  rw [hp.read] at hrec
  cases hrec
  obtain ⟨_, hrec₂, hw' | ⟨hno, -⟩⟩ := entryPlan_eq_ok.mp hplan
  · rw [hrec₁] at hrec₂
    cases hrec₂
    obtain ⟨inserted, hins, hmark, hoff⟩ := residentPlan_eq_ok.mp hw'
    obtain ⟨r, hopen, hgrown⟩ := grown_of_reapplyFixups hp.root
      (tookEntry_of_insertResident hp.root hins) (units_lt_of_prepared hplaced.prepared) hmark
    refine ⟨r, recordAt_eq_ok.mpr ⟨bytes, ?_, hopen⟩, hgrown⟩
    exact slot_write_same hoff (by rw [length_residentPlan hw', length_recordAt hp.read]) hw
  · rw [hrec₁] at hrec₂
    cases hrec₂
    rw [hres] at hno
    cases hno

/-- A name that is found cannot be created again. -/
theorem createFile_again {parent : NtfsFile} {name : List Char} {options : CreateOptions}
    (hdir : isDirectoryAt driver d parent.recordNumber = .ok true)
    (hfind : (indexAt driver d parent.recordNumber >>= (findEntry · name)) = .ok n) :
    createFile driver parent name options d = (.err .alreadyExists, d) := by
  apply createFile_failed
  rw [prepared, hdir, Outcome.ok_bind, Outcome.ensure_of rfl, Outcome.ok_bind, hfind]
  rfl

end Directory

/-- The root of the small directory. -/
def emptyRoot : Attr where
  offset := 56
  typ := .indexRoot
  data := slice (emptyDirectory 232) 56 272
  isResident := true

set_option maxRecDepth 4000 in
theorem emptyDirectory_layout :
    (slice (emptyDirectory 232) 0 4 = fileSignature ∧ leAt (emptyDirectory 232) 4 2 = 48 ∧
      leAt (emptyDirectory 232) 6 2 = 3 ∧ leAt (emptyDirectory 232) 20 2 = 56) ∧
    (leAt emptyRoot.data 20 2 = 24 ∧ emptyRoot.data.length = 272) ∧
    leAt emptyRoot.root 16 4 = 16 ∧ leAt emptyRoot.root 20 4 = 32 ∧
      leAt emptyRoot.root 24 4 = 232 ∧ (leAt emptyRoot.root 44 2).testBit 1 = true := by
  decide

/-- The root is the one attribute, and there is no external index. -/
theorem emptyDirectory_attributes :
    (attrsFrom (emptyDirectory 232) 56).1 = [emptyRoot] ∧
      (locateExternal smallDriver.boot (emptyDirectory 232)).isOk = false := by
  decide +kernel

theorem plainRoot_emptyDirectory : PlainRoot smallDriver (emptyDirectory 232) emptyRoot := by
  obtain ⟨⟨hsig, huso, husc, hfirst⟩, ⟨hoff, hlen⟩, hstart, htotal, halloc, hmarker⟩ :=
    emptyDirectory_layout
  have hroot : emptyRoot.root.length = 248 := by
    rw [Attr.root, List.length_drop, hoff, hlen]
  constructor
  · exact hsig
  · rw [ArrayClear, huso, husc]
    decide
  · rw [huso, husc, hfirst]
    decide
  · rw [hfirst]
    decide
  · rw [hfirst]
    exact ⟨[], [], emptyDirectory_attributes.1, nofun⟩
  · exact ⟨rfl, rfl, Nat.le_of_eq hoff.symm, by omega⟩
  · constructor
    · rw [hstart]
      decide
    · rw [hstart, htotal]
      exact .done
    · omega
    · rw [htotal]
      exact hmarker
  · omega

theorem plainDirectory_emptyDirectory :
    PlainDirectory smallDriver (smallVolume (emptyDirectory 232)) ⟨5⟩ (emptyDirectory 232)
      emptyRoot where
  read := by
    rw [recordAt_smallVolume length_emptyDirectory, openRecord_emptyDirectory]
  root := plainRoot_emptyDirectory
  apart := by
    have hnone := emptyDirectory_attributes.2
    intro off size pos hloc
    rw [hloc] at hnone
    cases hnone

end SmallOs.Ntfs
