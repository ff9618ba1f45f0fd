import SmallOs.Ntfs.Created

/-!
# Inserting into a resident root

`add_to_resident_index` moves the end marker of a root, puts the entry in its place and updates two
sizes. Where these bytes belong to the root's own entries and sizes alone, the record that is read
back has the old entries and the new one, and everything else is as it was.
-/

namespace SmallOs.Ntfs

open SmallOs.Base SmallOs.Hal

/-! ### The walk by length fields -/

/-- Offset and length of each attribute that the walk of `find_attribute_offset` passes or would
pass, whatever it looks for. -/
def walkFrom (record : List UInt8) (offset : Nat) : List (Nat × Nat) :=
  if _hle : offset + 8 ≤ record.length then
    if leAt record offset 4 = 0xFFFFFFFF then []
    else if _hlen : leAt record (offset + 4) 4 = 0 ∨
        record.length < offset + leAt record (offset + 4) 4 then
      [(offset, leAt record (offset + 4) 4)]
    else (offset, leAt record (offset + 4) 4) ::
      walkFrom record (offset + leAt record (offset + 4) 4)
  else []
termination_by record.length - offset
decreasing_by omega

section Walk

variable {record r : List UInt8} {lo hi : Nat}

/-- The attribute that is found is one of the walk. -/
theorem mem_walkFrom_of_find {attrType offset attr : Nat}
    (h : findAttributeFrom record attrType offset = .ok attr) :
    (attr, leAt record (attr + 4) 4) ∈ walkFrom record offset := by
  induction offset using findAttributeFrom.induct record attrType with
  | case1 offset hle hend => simp [findAttributeFrom, hle, hend] at h
  | case2 offset hle hend hcode =>
    rw [findAttributeFrom, dif_pos hle, if_neg hend, if_pos hcode] at h
    cases h
    rw [walkFrom, dif_pos hle, if_neg hend]
    split
    · exact List.mem_singleton.mpr rfl
    · exact List.mem_cons_self
  | case3 offset hle hend hcode hlen => simp [findAttributeFrom, hle, hend, hcode, hlen] at h
  | case4 offset hle hend hcode hlen ih =>
    rw [findAttributeFrom, dif_pos hle, if_neg hend, if_neg hcode, dif_neg hlen] at h
    rw [walkFrom, dif_pos hle, if_neg hend, dif_neg hlen]
    exact List.mem_cons_of_mem _ (ih h)
  | case5 offset hle => simp [findAttributeFrom, hle] at h

/-- The walk passes its attributes in order. -/
theorem le_of_mem_walkFrom {offset : Nat} {w : Nat × Nat} (h : w ∈ walkFrom record offset) :
    offset ≤ w.1 := by
  induction offset using walkFrom.induct record with
  | case1 offset hle hend => simp [walkFrom, hle, hend] at h
  | case2 offset hle hend hlen =>
    rw [walkFrom, dif_pos hle, if_neg hend, dif_pos hlen] at h
    rw [List.mem_singleton.mp h]
  | case3 offset hle hend hlen ih =>
    rw [walkFrom, dif_pos hle, if_neg hend, dif_neg hlen] at h
    rcases List.mem_cons.mp h with rfl | h
    · exact Nat.le_refl _
    · have hrest := ih h
      omega
  | case4 offset hle => simp [walkFrom, hle] at h

/-- Two attributes of the walk do not overlap. -/
theorem walkFrom_pairwise (record : List UInt8) (offset : Nat) :
    (walkFrom record offset).Pairwise fun v w ↦ v.1 + v.2 ≤ w.1 := by
  induction offset using walkFrom.induct record with
  | case1 offset hle hend =>
    rw [walkFrom, dif_pos hle, if_pos hend]
    exact .nil
  | case2 offset hle hend hlen =>
    rw [walkFrom, dif_pos hle, if_neg hend, dif_pos hlen]
    exact List.pairwise_singleton _ _
  | case3 offset hle hend hlen ih =>
    rw [walkFrom, dif_pos hle, if_neg hend, dif_neg hlen]
    exact List.Pairwise.cons (fun w hw ↦ le_of_mem_walkFrom hw) ih
  | case4 offset hle =>
    rw [walkFrom, dif_neg hle]
    exact .nil

/-- One step of the walk, where the two headers agree. -/
theorem walkFrom_step (hl : r.length = record.length) {offset : Nat}
    (hcode : leAt r offset 4 = leAt record offset 4)
    (hlen : leAt r (offset + 4) 4 = leAt record (offset + 4) 4)
    (hrest : offset + 8 ≤ record.length → leAt record offset 4 ≠ 0xFFFFFFFF →
      ¬ (leAt record (offset + 4) 4 = 0 ∨
        record.length < offset + leAt record (offset + 4) 4) →
      walkFrom r (offset + leAt record (offset + 4) 4) =
        walkFrom record (offset + leAt record (offset + 4) 4)) :
    walkFrom r offset = walkFrom record offset := by
  rw [walkFrom.eq_1 r offset, walkFrom.eq_1 record offset, hl, hcode, hlen]
  by_cases hin : offset + 8 ≤ record.length
  · rw [dif_pos hin, dif_pos hin]
    by_cases hend : leAt record offset 4 = 0xFFFFFFFF
    · rw [if_pos hend, if_pos hend]
    · rw [if_neg hend, if_neg hend]
      by_cases hstop : leAt record (offset + 4) 4 = 0 ∨
          record.length < offset + leAt record (offset + 4) 4
      · rw [dif_pos hstop, dif_pos hstop]
      · rw [dif_neg hstop, dif_neg hstop, hrest hin hend hstop]
  · rw [dif_neg hin, dif_neg hin]

/-- The walk looks at nothing in front of its start. -/
theorem walkFrom_behind (hl : r.length = record.length) {offset : Nat}
    (hkeep : ∀ p, offset ≤ p → r[p]? = record[p]?) :
    walkFrom r offset = walkFrom record offset := by
  induction offset using walkFrom.induct record with
  | case1 offset hle hend =>
    exact walkFrom_step hl (leAt_congr fun p h₁ _ ↦ hkeep p h₁)
      (leAt_congr fun p h₁ _ ↦ hkeep p (by omega)) fun _ h _ ↦ absurd hend h
  | case2 offset hle hend hlen =>
    exact walkFrom_step hl (leAt_congr fun p h₁ _ ↦ hkeep p h₁)
      (leAt_congr fun p h₁ _ ↦ hkeep p (by omega)) fun _ _ h ↦ absurd hlen h
  | case3 offset hle hend hlen ih =>
    exact walkFrom_step hl (leAt_congr fun p h₁ _ ↦ hkeep p h₁)
      (leAt_congr fun p h₁ _ ↦ hkeep p (by omega)) fun _ _ _ ↦ ih fun p hp ↦ hkeep p (by omega)
  | case4 offset hle =>
    exact walkFrom_step hl (leAt_congr fun p h₁ _ ↦ hkeep p h₁)
      (leAt_congr fun p h₁ _ ↦ hkeep p (by omega)) fun h ↦ absurd h hle

/-- A change behind the header of one attribute, and inside of it, leaves the walk as it was. -/
theorem walkFrom_congr (hl : r.length = record.length) {offset attr len : Nat}
    (hkeep : ∀ p, offset ≤ p → ¬ (lo ≤ p ∧ p < hi) → r[p]? = record[p]?)
    (hmem : (attr, len) ∈ walkFrom record offset) (hlo : attr + 8 ≤ lo) (hhi : hi ≤ attr + len) :
    walkFrom r offset = walkFrom record offset := by
  induction offset using walkFrom.induct record with
  | case1 offset hin hend => simp [walkFrom, hin, hend] at hmem
  | case2 offset hin hend hlen =>
    have hle := le_of_mem_walkFrom hmem
    exact walkFrom_step hl (leAt_congr fun p h₁ h₂ ↦ hkeep p h₁ (by omega))
      (leAt_congr fun p h₁ h₂ ↦ hkeep p (by omega) (by omega)) fun _ _ h ↦ absurd hlen h
  | case3 offset hin hend hlen ih =>
    have hle := le_of_mem_walkFrom hmem
    rw [walkFrom, dif_pos hin, if_neg hend, dif_neg hlen] at hmem
    apply walkFrom_step hl (leAt_congr fun p h₁ h₂ ↦ hkeep p h₁ (by omega))
      (leAt_congr fun p h₁ h₂ ↦ hkeep p (by omega) (by omega))
    intro _ _ _
    rcases List.mem_cons.mp hmem with hhead | htail
    · obtain ⟨rfl, rfl⟩ := Prod.mk.inj hhead
      exact walkFrom_behind hl fun p hp ↦ hkeep p (by omega) (by omega)
    · exact ih (fun p hp ↦ hkeep p (by omega)) htail
  | case4 offset hin => simp [walkFrom, hin] at hmem

/-- The search stops at the same attribute. -/
theorem findAttributeFrom_congr (hl : r.length = record.length) {attrType offset attr : Nat}
    (h : findAttributeFrom record attrType offset = .ok attr)
    (hkeep : ∀ p, offset ≤ p → p < attr + 8 → r[p]? = record[p]?) :
    findAttributeFrom r attrType offset = .ok attr := by
  induction offset using findAttributeFrom.induct record attrType with
  | case1 offset hle hend => simp [findAttributeFrom, hle, hend] at h
  | case2 offset hle hend hcode =>
    rw [findAttributeFrom, dif_pos hle, if_neg hend, if_pos hcode] at h
    obtain rfl := Outcome.ok.inj h
    have hsame : leAt r offset 4 = leAt record offset 4 :=
      leAt_congr fun p h₁ h₂ ↦ hkeep p h₁ (by omega)
    rw [findAttributeFrom, dif_pos (by omega), hsame, if_neg hend, if_pos hcode]
  | case3 offset hle hend hcode hlen => simp [findAttributeFrom, hle, hend, hcode, hlen] at h
  | case4 offset hle hend hcode hlen ih =>
    rw [findAttributeFrom, dif_pos hle, if_neg hend, if_neg hcode, dif_neg hlen] at h
    obtain ⟨hbehind, -⟩ := findAttributeFrom_eq_ok h
    have hsame : leAt r offset 4 = leAt record offset 4 :=
      leAt_congr fun p h₁ h₂ ↦ hkeep p h₁ (by omega)
    have hlenSame : leAt r (offset + 4) 4 = leAt record (offset + 4) 4 :=
      leAt_congr fun p h₁ h₂ ↦ hkeep p (by omega) (by omega)
    rw [findAttributeFrom, dif_pos (by omega), hsame, if_neg hend, if_neg hcode, hlenSame, hl,
      dif_neg hlen]
    exact ih h fun p h₁ h₂ ↦ hkeep p (by omega) h₂
  | case5 offset hle => simp [findAttributeFrom, hle] at h

end Walk

/-! ### Well-formed roots -/

/-- The attribute at an offset, as the iterator yields a resident root. -/
def rootAttr (record : List UInt8) (attr : Nat) : Attr where
  offset := attr
  typ := .indexRoot
  data := slice record attr (leAt record (attr + 4) 4)
  isResident := true

/-- The value of a resident root, as the metadata keep it. -/
def indexValue (record : List UInt8) (attr : Nat) : List UInt8 := (rootAttr record attr).root

/-- A record with a well-formed resident root at `attr`: entries one behind the other up to an end
marker, room inside the attribute, and an update sequence array in front of the first attribute and
inside the first sector. -/
structure RootLayout (driver : NtfsDriver) (record : List UInt8) (attr : Nat) : Prop where
  found : findAttributeOffset record 0x90 = .ok attr
  resident : leAt record (attr + 8) 1 = 0
  entries : EntriesTo (indexValue record attr) (leAt (indexValue record attr) 20 4)
    (16 + leAt (indexValue record attr) 16 4)
  marker : leAt (indexValue record attr) (leAt (indexValue record attr) 20 4 + 8) 2 = 16 ∧
    (leAt (indexValue record attr) (leAt (indexValue record attr) 20 4 + 12) 2).testBit 1 = true
  allocated : 16 + leAt (indexValue record attr) 24 4 ≤ (indexValue record attr).length
  front : leAt record 4 2 + 2 * leAt record 6 2 ≤ leAt record 20 2
  inside : leAt record 4 2 + 2 * leAt record 6 2 ≤ driver.sectorSize

/-- What the insertion updates belongs to nothing else: the used size in the record's header to no
attribute, the mark of the first sector not to the array, the total size of the index neither to the
header of its attribute nor to an entry, and its allocated size not to the end marker. -/
structure RootApart (driver : NtfsDriver) (record : List UInt8) (attr : Nat) : Prop where
  signature : HasSignature record
  header : 28 ≤ leAt record 20 2
  clear : ArrayClear record driver.sectorSize
  behind : 2 ≤ leAt record (attr + 20) 2
  start : 8 ≤ leAt (indexValue record attr) 16 4
  total : 28 ≤ leAt (indexValue record attr) 20 4

/-- The record that is read back has the old entries and the new one, and every other attribute as
it was. -/
structure KeepsRoot (driver : NtfsDriver) (record r : List UInt8) (attr child : Nat)
    (name : List Char) : Prop where
  listed : listEntries (indexValue r attr) = listEntries (indexValue record attr) ++ [name]
  found : (∀ old ∈ listEntries (indexValue record attr), eqIgnoreAsciiCase old name = false) →
    findEntry (indexValue r attr) name = .ok child
  others : ∀ other, eqIgnoreAsciiCase name other = false →
    findEntry (indexValue r attr) other = findEntry (indexValue record attr) other
  layout : RootLayout driver r attr
  walk : walkFrom r (leAt r 20 2) = walkFrom record (leAt record 20 2)
  attrs : ∀ w ∈ walkFrom record (leAt record 20 2), w.1 ≠ attr →
    slice r w.1 w.2 = slice record w.1 w.2

/-- What inserting into a resident root is to do when it returns. -/
def InsertKeeps (driver : NtfsDriver) (d : ByteStore) (record : List UInt8) (parent : NtfsFile)
    (attr child : Nat) (name : List Char) : Prop :=
  ∀ d', addToResidentIndex driver record parent child name d = (.ok (), d') →
    ∃ r, readMftRecord driver parent.recordNumber d' = (.ok r, d') ∧
      KeepsRoot driver record r attr child name

section Value

variable {record r : List UInt8} {attr : Nat}

/-- The header of a long enough attribute reads the same in the attribute. -/
theorem leAt_rootAttr {k n : Nat} (hk : k + n ≤ (rootAttr record attr).data.length) :
    leAt (rootAttr record attr).data k n = leAt record (attr + k) n := by
  have hle : (rootAttr record attr).data.length ≤ leAt record (attr + 4) 4 := length_slice_le _ _ _
  rw [leAt, rootAttr, slice_slice _ _ _ _ _ (by omega)]
  rfl

/-- A value that starts where it did in an attribute as long as it was has its length. -/
theorem length_indexValue_eq
    (hdata : (rootAttr r attr).data.length = (rootAttr record attr).data.length)
    (hstart : (rootAttr r attr).rootStart = (rootAttr record attr).rootStart) :
    (indexValue r attr).length = (indexValue record attr).length := by
  have hoff : leAt (rootAttr r attr).data 20 2 = leAt (rootAttr record attr).data 20 2 :=
    Nat.add_left_cancel hstart
  rw [indexValue, indexValue, Attr.root, Attr.root, List.length_drop, List.length_drop, hdata, hoff]

/-- The value of a long enough attribute behind the record's header. -/
theorem rootWindow_of_long (hlow : 28 ≤ attr) (hlong : 22 ≤ (rootAttr record attr).data.length) :
    RootWindow record (rootAttr record attr) := by
  have hoff := leAt_rootAttr (k := 20) (n := 2) hlong
  refine ⟨?_, Nat.le_trans hlow (Nat.le_add_right _ _), ?_⟩
  · rw [Attr.rootStart, hoff]
    rfl
  · intro i hi
    have hle : (rootAttr record attr).data.length ≤ leAt record (attr + 4) 4 :=
      length_slice_le _ _ _
    rw [Attr.root, List.length_drop] at hi
    rw [Attr.root, List.getElem?_drop, Attr.rootStart, Nat.add_assoc]
    generalize leAt (rootAttr record attr).data 20 2 = k at *
    rw [rootAttr, getElem?_slice, if_pos (by omega)]

end Value

namespace RootLayout

variable {driver : NtfsDriver} {record : List UInt8} {attr : Nat}

/-- The end marker is in the value. -/
theorem long (h : RootLayout driver record attr) :
    28 < (indexValue record attr).length ∧
      leAt (indexValue record attr) 20 4 + 12 < (indexValue record attr).length := by
  have hle := h.entries.le
  have hin : leAt (indexValue record attr) 20 4 + 12 < (indexValue record attr).length := by
    by_contra hout
    have hflag := h.marker.2
    rw [leAt_of_length_le (by omega)] at hflag
    exact absurd hflag (by decide)
  omega

/-- The header of the attribute says where the value starts, and the value ends with it. -/
theorem position (h : RootLayout driver record attr) :
    leAt (rootAttr record attr).data 20 2 = leAt record (attr + 20) 2 ∧
      (rootAttr record attr).rootStart = attr + leAt record (attr + 20) 2 ∧
      (rootAttr record attr).rootStart + (indexValue record attr).length ≤
        attr + leAt record (attr + 4) 4 := by
  obtain ⟨hlong, -⟩ := h.long
  have hle : (rootAttr record attr).data.length ≤ leAt record (attr + 4) 4 := length_slice_le _ _ _
  rw [indexValue, Attr.root, List.length_drop] at hlong
  have hoffset : leAt (rootAttr record attr).data 20 2 = leAt record (attr + 20) 2 :=
    leAt_rootAttr (by omega)
  have hstart : (rootAttr record attr).rootStart = attr + leAt record (attr + 20) 2 := by
    rw [Attr.rootStart, hoffset]
    rfl
  refine ⟨hoffset, hstart, ?_⟩
  rw [hstart, indexValue, Attr.root, List.length_drop, hoffset]
  rw [hoffset] at hlong
  omega

/-- The value is a window of the record. -/
theorem window (h : RootLayout driver record attr) (ha : 28 ≤ leAt record 20 2) :
    RootWindow record (rootAttr record attr) := by
  obtain ⟨hbehind, -, -⟩ := findAttributeOffset_eq_ok h.found
  obtain ⟨hlong, -⟩ := h.long
  rw [indexValue, Attr.root, List.length_drop] at hlong
  exact rootWindow_of_long (by omega) (by omega)

end RootLayout

/-! ### The record that is read back -/

/-- The record that is read back behind an insertion: changed inside the value of the root and in
the record's header alone, and its root has grown by the entry. -/
structure ReadBack (record r : List UInt8) (attr parent child : Nat) (name : List Char) : Prop where
  length : r.length = record.length
  low : ∀ p < 24, r[p]? = record[p]?
  kept : ∀ p, leAt record 20 2 ≤ p → ¬ ((rootAttr record attr).rootStart + 20 ≤ p ∧
    p < (rootAttr record attr).rootStart + (indexValue record attr).length) → r[p]? = record[p]?
  attrLength : (rootAttr r attr).data.length = (rootAttr record attr).data.length
  start : (rootAttr r attr).rootStart = (rootAttr record attr).rootStart
  room : leAt (indexValue record attr) 20 4 + entryLenAligned name + 16 ≤
    (indexValue record attr).length
  value : Inserted (indexValue record attr) (indexValue r attr) parent child name

section Insertion

variable {driver : NtfsDriver} {d d' : ByteStore} {record r : List UInt8} {parent : NtfsFile}
  {attr child : Nat} {name : List Char}

/-- What the inserter wrote, as it is read back. -/
theorem readBack_of_call (hread : readMftRecord driver parent.recordNumber d = (.ok record, d))
    (h : RootLayout driver record attr) (ha : RootApart driver record attr)
    (hu : (nameUtf16 name).length < 256)
    (hcall : addToResidentIndex driver record parent child name d = (.ok (), d')) :
    ∃ r, readMftRecord driver parent.recordNumber d' = (.ok r, d') ∧
      ReadBack record r attr parent.recordNumber child name := by
  rw [addToResidentIndex_byteStore] at hcall
  obtain ⟨off, bytes, hplan, hw, -⟩ | ⟨-, hno, -⟩ := commit_cases hcall
  swap
  · exact absurd rfl hno
  obtain ⟨inserted, hins, hmark, hoff⟩ := residentPlan_eq_ok.mp hplan
  obtain ⟨attr', hattr', htakes, hused, hins⟩ := insertResident_eq_ok.mp hins
  rw [h.found] at hattr'
  obtain rfl := Outcome.ok.inj hattr'
  obtain ⟨hbehind, -⟩ := findAttributeOffset_eq_ok h.found
  obtain ⟨hlong, -⟩ := h.long
  have hlow := ha.header
  have hsizes := ha.total
  have hoffset := ha.behind
  have hwindow := h.window ha.header
  have ht : TookEntry record inserted (rootAttr record attr) parent.recordNumber child name :=
    tookEntry_of_takes hwindow (Nat.le_trans (by decide) hsizes) (Nat.le_of_lt hlong) h.allocated
      htakes hused hins
  have hroom : leAt (indexValue record attr) 20 4 + entryLenAligned name + 16 ≤
    (indexValue record attr).length := ht.room
  have hdata : (indexValue record attr).length =
      (rootAttr record attr).data.length - leAt (rootAttr record attr).data 20 2 := List.length_drop
  obtain ⟨hvalueOffset, hstart, -⟩ := h.position
  obtain ⟨r, hopen, hrl, hr⟩ := openRecord_reapplyFixups ha.signature ha.clear ht.length
    (fun p hp ↦ ht.kept p (by omega) (by omega) (by omega)) hmark
  have hfront : ∀ p, leAt record 20 2 ≤ p → r[p]? = inserted[p]? :=
    fun p hp ↦ hr p (not_saved_of_le (fun _ _ ↦ h.front) hp)
  have hkept : ∀ p, leAt record 20 2 ≤ p → ¬ ((rootAttr record attr).rootStart + 20 ≤ p ∧
      p < (rootAttr record attr).rootStart + (indexValue record attr).length) →
      r[p]? = record[p]? := by
    intro p h₁ h₂
    change ¬ (_ ∧ p < _ + (rootAttr record attr).root.length) at h₂
    change leAt (rootAttr record attr).root 20 4 + _ + 16 ≤ (rootAttr record attr).root.length
      at hroom
    change 28 ≤ leAt (rootAttr record attr).root 20 4 at hsizes
    rw [hfront p h₁, ht.kept p (by omega) (by omega) (by omega)]
  -- The header of the attribute is as it was, so its value starts and ends where it did.
  have hlenField : leAt r (attr + 4) 4 = leAt record (attr + 4) 4 :=
    leAt_congr fun p h₁ h₂ ↦ hkept p (by omega) (by omega)
  have hoffField : leAt r (attr + 20) 2 = leAt record (attr + 20) 2 :=
    leAt_congr fun p h₁ h₂ ↦ hkept p (by omega) (by omega)
  have hdata' : (rootAttr r attr).data.length = (rootAttr record attr).data.length := by
    simp only [rootAttr, slice, List.length_take, List.length_drop, hlenField, hrl]
  have hstart' : (rootAttr r attr).rootStart = (rootAttr record attr).rootStart := by
    rw [Attr.rootStart, leAt_rootAttr (by omega), hoffField, Attr.rootStart, hvalueOffset]
    rfl
  have hwindow' : RootWindow r (rootAttr r attr) := rootWindow_of_long (by omega) (by omega)
  refine ⟨r, ?_, hrl, ?_, hkept, hdata', hstart', hroom, ?_⟩
  · rw [readMftRecord_byteStore]
    have hrecord : recordAt driver d parent.recordNumber = .ok record := by
      rw [readMftRecord_byteStore] at hread
      exact (Prod.mk.inj hread).1
    have hslot := slot_write_same hoff
      (by rw [length_residentPlan hplan, length_recordAt hrecord]) hw
    rw [recordAt_eq_ok.mpr ⟨bytes, hslot, hopen⟩]
  · intro p hp
    rw [hr p]
    · exact ht.kept p (by omega) (by omega) (by omega)
    · rintro ⟨h₁, h₂, -⟩
      omega
  · exact ht.inserted hwindow hwindow' hstart' (length_indexValue_eq hdata' hstart')
      (Nat.le_trans (by decide) hsizes) (fun p hp ↦ hfront p (by omega)) hu

/-! ### The index that has grown -/

/-- The entries of an index are as before, and the new one follows them. -/
theorem EntriesTo.grow {data data' : List UInt8} {fin off : Nat} (h : EntriesTo data fin off)
    (hlow : 24 ≤ off) (hkept : ∀ p, p < fin → p < 20 ∨ 24 ≤ p → data'[p]? = data[p]?)
    (hnew : HoldsEntry data' fin parent.recordNumber child name) :
    EntriesTo data' (fin + entryLenAligned name) off := by
  induction h with
  | done =>
    obtain ⟨hkey, -⟩ := hnew.keyLen_lt
    have hrest : EntriesTo data' (fin + entryLenAligned name) (fin + leAt data' (fin + 8) 2) := by
      rw [hnew.leAt_size]
      exact .done
    exact .entry (by rw [hnew.leAt_keyLen, hnew.leAt_size]; exact hkey)
      (by rw [hnew.leAt_flags]; rfl) hrest
  | @entry off hkey hflag hrest ih =>
    have hle := hrest.le
    have hword : ∀ k n, k + n ≤ 16 → leAt data' (off + k) n = leAt data (off + k) n :=
      fun k n hk ↦ leAt_congr fun p h₁ h₂ ↦ hkept p (by omega) (.inr (by omega))
    have hsize := hword 8 2 (by decide)
    refine .entry ?_ ?_ ?_
    · rw [hsize, hword 10 2 (by decide)]
      exact hkey
    · rw [hword 12 2 (by decide)]
      exact hflag
    · rw [hsize]
      exact ih (by omega)

/-- The listing and the lookups of an index that shows one entry more. -/
theorem listEntries_append {data data' : List UInt8}
    (h : indexEntries data' = indexEntries data ++ [⟨child, some name⟩]) :
    listEntries data' = listEntries data ++ [name] := by
  rw [listEntries, h, List.filterMap_append]
  rfl

theorem findEntry_append_self {data data' : List UInt8} (hchild : child < 2 ^ 48)
    (h : indexEntries data' = indexEntries data ++ [⟨child, some name⟩])
    (hold : ∀ old ∈ listEntries data, eqIgnoreAsciiCase old name = false) :
    findEntry data' name = .ok child := by
  have hnone : (indexEntries data).find? (fun e ↦ e.name.any (eqIgnoreAsciiCase · name)) =
      none := by
    rw [List.find?_eq_none]
    intro e he
    cases hname : e.name with
    | none => simp
    | some old =>
      have hlisted : old ∈ listEntries data := List.mem_filterMap.mpr ⟨e, he, hname⟩
      simp [hold old hlisted]
  have hself : eqIgnoreAsciiCase name name = true := decide_eq_true rfl
  rw [findEntry, h, List.find?_append, hnone, Option.none_or,
    List.find?_cons_of_pos (by simpa using hself)]
  exact congrArg Outcome.ok (Nat.mod_eq_of_lt hchild)

theorem findEntry_append_other {data data' : List UInt8} {other : List Char}
    (h : indexEntries data' = indexEntries data ++ [⟨child, some name⟩])
    (hother : eqIgnoreAsciiCase name other = false) :
    findEntry data' other = findEntry data other := by
  have hnone : [(⟨child, some name⟩ : IndexEntry)].find?
      (fun e ↦ e.name.any (eqIgnoreAsciiCase · other)) = none := by
    simp [hother]
  rw [findEntry, findEntry, h, List.find?_append, hnone, Option.or_none]

namespace ReadBack

/-- A word of the record's header. -/
theorem leAt_low (hb : ReadBack record r attr parent.recordNumber child name) {o n : Nat}
    (h : o + n ≤ 24) : leAt r o n = leAt record o n :=
  leAt_congr fun p _ hp ↦ hb.low p (by omega)

/-- A word of the attribute's header. -/
theorem leAt_header (hb : ReadBack record r attr parent.recordNumber child name)
    (h : RootLayout driver record attr) (ha : RootApart driver record attr) {k n : Nat}
    (hk : k + n ≤ 22) : leAt r (attr + k) n = leAt record (attr + k) n := by
  obtain ⟨hbehind, -, -⟩ := findAttributeOffset_eq_ok h.found
  obtain ⟨-, hstart, -⟩ := h.position
  have hoffset := ha.behind
  exact leAt_congr fun p h₁ h₂ ↦ hb.kept p (by omega) (by omega)

/-- A word of the index in front of its end, other than the total size. -/
theorem leAt_index (hb : ReadBack record r attr parent.recordNumber child name) {o n : Nat}
    (h : o + n ≤ leAt (indexValue record attr) 20 4) (htotal : o + n ≤ 20 ∨ 24 ≤ o) :
    leAt (indexValue r attr) o n = leAt (indexValue record attr) o n :=
  leAt_congr fun p h₁ h₂ ↦ hb.value.kept p (by omega) (by omega)

/-- The end marker has moved behind the new entry. -/
theorem leAt_marker (hb : ReadBack record r attr parent.recordNumber child name) {k : Nat}
    (hk : k + 2 ≤ 16) :
    leAt (indexValue r attr) (leAt (indexValue r attr) 20 4 + k) 2 =
      leAt (indexValue record attr) (leAt (indexValue record attr) 20 4 + k) 2 := by
  have hmoved := hb.value.marker
  rw [hb.value.total]
  generalize leAt (indexValue record attr) 20 4 = fin at *
  rw [leAt, leAt, slice_of_slice hmoved hk, slice_slice _ _ _ _ _ hk]

/-- The record that is read back has a well-formed root again. -/
theorem layout (hb : ReadBack record r attr parent.recordNumber child name)
    (h : RootLayout driver record attr) (ha : RootApart driver record attr) :
    RootLayout driver r attr := by
  have hsizes := ha.total
  have hentries := h.entries.le
  have huso := hb.leAt_low (show 4 + 2 ≤ 24 by decide)
  have husc := hb.leAt_low (show 6 + 2 ≤ 24 by decide)
  have hfirst := hb.leAt_low (show 20 + 2 ≤ 24 by decide)
  refine ⟨?_, ?_, ?_, ?_, ?_, ?_, ?_⟩
  · obtain ⟨hlong, hfind⟩ := findAttributeOffset_iff.mp h.found
    obtain ⟨-, hstart, -⟩ := h.position
    have hoffset := ha.behind
    apply findAttributeOffset_iff.mpr
    rw [hfirst, hb.length]
    exact ⟨hlong, findAttributeFrom_congr hb.length hfind fun p h₁ h₂ ↦ hb.kept p h₁ (by omega)⟩
  · rw [hb.leAt_header h ha (show 8 + 1 ≤ 22 by decide)]
    exact h.resident
  · rw [hb.value.total, hb.leAt_index (by omega) (.inl (by decide))]
    exact h.entries.grow (by have := ha.start; omega) hb.value.kept hb.value.entry
  · rw [hb.leAt_marker (by decide), hb.leAt_marker (by decide)]
    exact h.marker
  · rw [hb.leAt_index (by omega) (.inr (by decide)), length_indexValue_eq hb.attrLength hb.start]
    exact h.allocated
  · rw [huso, husc, hfirst]
    exact h.front
  · rw [huso, husc]
    exact h.inside

/-- Its root stands apart again. -/
theorem apart (hb : ReadBack record r attr parent.recordNumber child name)
    (h : RootLayout driver record attr) (ha : RootApart driver record attr) :
    RootApart driver r attr := by
  have hsizes := ha.total
  refine ⟨?_, ?_, ?_, ?_, ?_, ?_⟩
  · exact ha.signature.congr fun p hp ↦ hb.low p (by omega)
  · rw [hb.leAt_low (by decide)]
    exact ha.header
  · have hclear := ha.clear
    rw [ArrayClear] at hclear ⊢
    rwa [hb.leAt_low (by decide), hb.leAt_low (by decide)]
  · rw [hb.leAt_header h ha (by decide)]
    exact ha.behind
  · rw [hb.leAt_index (by omega) (.inl (by decide))]
    exact ha.start
  · rw [hb.value.total]
    omega

/-- Everything else in the record is as it was. -/
theorem walk (hb : ReadBack record r attr parent.recordNumber child name)
    (h : RootLayout driver record attr) (ha : RootApart driver record attr) :
    walkFrom r (leAt r 20 2) = walkFrom record (leAt record 20 2) ∧
      ∀ w ∈ walkFrom record (leAt record 20 2), w.1 ≠ attr →
        slice r w.1 w.2 = slice record w.1 w.2 := by
  have hmem := mem_walkFrom_of_find (findAttributeOffset_iff.mp h.found).2
  have hoffset := ha.behind
  -- The value of the root lies behind its header and inside of it.
  obtain ⟨-, hstart, hend⟩ := h.position
  have hfirst : leAt r 20 2 = leAt record 20 2 := leAt_congr fun p _ hp ↦ hb.low p (by omega)
  constructor
  · rw [hfirst]
    exact walkFrom_congr hb.length hb.kept hmem (by omega) hend
  · intro w hw hne
    have hpair := walkFrom_pairwise record (leAt record 20 2)
    have hapart : ∀ v ∈ walkFrom record (leAt record 20 2),
      ∀ w ∈ walkFrom record (leAt record 20 2),
        v.1 = w.1 ∨ v.1 + v.2 ≤ w.1 ∨ w.1 + w.2 ≤ v.1 := by
      apply List.Pairwise.forall_of_forall_of_flip
      · intro v _
        exact .inl rfl
      · exact hpair.imp fun hvw ↦ .inr (.inl hvw)
      · exact hpair.imp fun hvw ↦ .inr (.inr hvw)
    have hle := le_of_mem_walkFrom hw
    obtain heq | hfront | hback := hapart w hw _ hmem
    · exact absurd heq hne
    · exact slice_congr fun p h₁ h₂ ↦ hb.kept p (by omega) (by omega)
    · exact slice_congr fun p h₁ h₂ ↦ hb.kept p (by omega) (by omega)

end ReadBack

/-- Inserting a plain name into a well-formed root that stands apart keeps everything else, and the
root that is read back is well formed and stands apart again. -/
theorem addToResidentIndex_keeps
    (hread : readMftRecord driver parent.recordNumber d = (.ok record, d))
    (h : RootLayout driver record attr) (ha : RootApart driver record attr)
    (hchild : child < 2 ^ 48) (hplain : PlainName name) (hne : name ≠ []) (hlen : name.length ≤ 255)
    (hcall : addToResidentIndex driver record parent child name d = (.ok (), d')) :
    ∃ r, readMftRecord driver parent.recordNumber d' = (.ok r, d') ∧
      KeepsRoot driver record r attr child name ∧ RootApart driver r attr := by
  have hu : (nameUtf16 name).length < 256 := by
    rw [nameUtf16_of_plainName hplain, List.length_map]
    omega
  obtain ⟨r, hread', hb⟩ := readBack_of_call hread h ha hu hcall
  obtain ⟨hwalk, hattrs⟩ := hb.walk h ha
  have hindex : PlainIndex (indexValue record attr) :=
    ⟨ha.start, h.entries, by have := hb.room; omega, h.marker.2⟩
  have hentries : indexEntries (indexValue r attr) =
      indexEntries (indexValue record attr) ++ [⟨child, some name⟩] := by
    rw [indexEntries_inserted hindex hb.value hne (by omega), shownName_eq_iff.mpr hplain]
  exact ⟨r, hread', ⟨listEntries_append hentries, findEntry_append_self hchild hentries,
    fun _ hother ↦ findEntry_append_other hentries hother, hb.layout h ha, hwalk, hattrs⟩,
    hb.apart h ha⟩

end Insertion

/-! ### Small records -/

/-- A record of two sectors with a resident root of 248 bytes as its one attribute, the words at the
ends of its sectors as given. -/
def rootRecord (uso usc first : Nat) (front : List UInt8) (firstEntry total : Nat)
    (entries : List UInt8) (mark : Nat) : List UInt8 :=
  fileSignature ++ (leBytes 2 uso ++ (leBytes 2 usc ++ (List.replicate 12 0 ++ (leBytes 2 first ++
    (leBytes 2 1 ++ (front ++ (residentHeader 0x90 272 248 0 ++ (leBytes 4 0x30 ++ (leBytes 4 0 ++
      (leBytes 4 1024 ++ (leBytes 4 1 ++ (leBytes 4 firstEntry ++ (leBytes 4 total ++
        (leBytes 4 232 ++ (entries ++ (leBytes 8 0 ++ (leBytes 2 16 ++ (leBytes 2 0 ++
          (leBytes 2 2 ++ (List.replicate (206 - entries.length) 0 ++ (leBytes 4 0xFFFFFFFF ++
            (List.replicate (746 - first) 0 ++ leBytes 2 mark))))))))))))))))))))))

theorem length_rootRecord {uso usc first firstEntry total mark : Nat} {front entries : List UInt8}
    (hfront : front.length + 24 = first) (hfirst : first ≤ 746) (hentries : entries.length ≤ 206) :
    (rootRecord uso usc first front firstEntry total entries mark).length = 1024 := by
  have hsig : fileSignature.length = 4 := rfl
  simp only [rootRecord, List.length_append, length_leBytes, List.length_replicate, hsig,
    length_residentHeader, ← Nat.add_assoc, Nat.reduceAdd]
  omega

/-- The array ends with the first sector, whose mark is one of the saved words. -/
def arrayAtEnd (mark : Nat) : List UInt8 :=
  rootRecord 506 3 512 (List.replicate 482 0 ++ (leBytes 2 1 ++ (leBytes 2 0 ++ leBytes 2 mark)))
    16 32 (leBytes 4 0) mark

theorem length_arrayAtEnd (mark : Nat) : (arrayAtEnd mark).length = 1024 := by
  apply length_rootRecord _ (by decide) (by decide)
  simp only [List.length_append, List.length_replicate, length_leBytes]

/-- The record around the words at the ends of its two sectors. -/
theorem arrayAtEnd_split : ∃ front middle : List UInt8, front.length = 510 ∧
    middle.length = 510 ∧ slice front 506 2 = leBytes 2 1 ∧ slice front 508 2 = leBytes 2 0 ∧
    ∀ mark, arrayAtEnd mark = front ++ (leBytes 2 mark ++ (middle ++ leBytes 2 mark)) := by
  have hhead : (fileSignature ++ (leBytes 2 506 ++ (leBytes 2 3 ++ (List.replicate 12 0 ++
      (leBytes 2 512 ++ (leBytes 2 1 ++ List.replicate 482 0)))))).length = 506 := by
    simp only [List.length_append, length_leBytes, List.length_replicate]
    rfl
  refine ⟨(fileSignature ++ (leBytes 2 506 ++ (leBytes 2 3 ++ (List.replicate 12 0 ++
    (leBytes 2 512 ++ (leBytes 2 1 ++ List.replicate 482 0)))))) ++ (leBytes 2 1 ++ leBytes 2 0),
    residentHeader 0x90 272 248 0 ++ (leBytes 4 0x30 ++ (leBytes 4 0 ++ (leBytes 4 1024 ++
      (leBytes 4 1 ++ (leBytes 4 16 ++ (leBytes 4 32 ++ (leBytes 4 232 ++ (leBytes 4 0 ++
        (leBytes 8 0 ++ (leBytes 2 16 ++ (leBytes 2 0 ++ (leBytes 2 2 ++
          (List.replicate 202 0 ++ (leBytes 4 0xFFFFFFFF ++ List.replicate 234 0)))))))))))))),
    ?_, ?_, ?_, ?_, fun mark ↦ ?_⟩
  · rw [List.length_append, hhead]
    rfl
  · simp only [List.length_append, length_leBytes, List.length_replicate, length_residentHeader]
  · exact slice_middle _ _ _ hhead rfl
  · rw [slice_append_right _ _ _ _ (by omega), hhead]
    rfl
  · simp only [arrayAtEnd, rootRecord, List.append_assoc, length_leBytes]

theorem openRecord_arrayAtEnd : openRecord smallDriver (arrayAtEnd 1) = .ok (arrayAtEnd 0) := by
  have hl := length_arrayAtEnd 1
  have huso : leAt (arrayAtEnd 1) 4 2 = 506 := by decide
  have husc : leAt (arrayAtEnd 1) 6 2 = 3 := by decide
  refine openRecord_eq_ok.mpr ⟨by omega, by decide, ?_⟩
  change applyFixups (arrayAtEnd 1) 512 = _
  rw [applyFixups, uintAt_of (by omega), Outcome.ok_bind, uintAt_of (by omega), Outcome.ok_bind,
    huso, husc, if_neg (by omega), if_neg (by decide), Outcome.ensure_of (by omega),
    Outcome.ok_bind]
  obtain ⟨front, middle, hfront, hmiddle, hseq, hword, hsplit⟩ := arrayAtEnd_split
  rw [hsplit, hsplit, leAt_append_left _ _ _ _ (by omega), leAt, hseq]
  have hfirst : applyFixup 506 1 512 (front ++ (leBytes 2 1 ++ (middle ++ leBytes 2 1))) 1 =
      .ok (front ++ (leBytes 2 0 ++ (middle ++ leBytes 2 1))) := by
    apply applyFixup_append (by omega) rfl rfl _ rfl
    rw [slice_append_left _ _ _ _ (by omega), hword]
  -- The word saved for the second sector is the mark of the first, which is restored by now.
  have hsecond : applyFixup 506 1 512 (front ++ (leBytes 2 0 ++ (middle ++ leBytes 2 1))) 2 =
      .ok (front ++ (leBytes 2 0 ++ (middle ++ leBytes 2 0))) := by
    have hend : ∀ m, front ++ (leBytes 2 0 ++ (middle ++ leBytes 2 m)) =
        (front ++ (leBytes 2 0 ++ middle)) ++ (leBytes 2 m ++ []) := by
      intro m
      simp only [List.append_assoc, List.append_nil]
    have hhead : (front ++ (leBytes 2 0 ++ middle)).length = 1022 := by
      rw [List.length_append, List.length_append, length_leBytes, hfront, hmiddle]
    rw [hend, hend]
    apply applyFixup_append (by omega) rfl rfl _ rfl
    rw [slice_append_left _ _ _ _ (by omega)]
    exact slice_middle _ _ _ hfront rfl
  change (applyFixup 506 1 512 _ 1 >>= fun b ↦ applyFixup 506 1 512 b 2 >>= fun b ↦ .ok b) = _
  rw [hfirst, Outcome.ok_bind, hsecond, Outcome.ok_bind]

/-- The root starts where the record's header keeps the used size. -/
def rootAtUsedSize : List UInt8 := rootRecord 22 1 24 [] 16 32 (leBytes 4 0) 0

theorem length_rootAtUsedSize : rootAtUsedSize.length = 1024 :=
  length_rootRecord rfl (by decide) (by decide)

theorem openRecord_rootAtUsedSize :
    openRecord smallDriver rootAtUsedSize = .ok rootAtUsedSize := by
  have hl := length_rootAtUsedSize
  have huso : leAt rootAtUsedSize 4 2 = 22 := by decide
  have husc : leAt rootAtUsedSize 6 2 = 1 := by decide
  refine openRecord_eq_ok.mpr ⟨by omega, by decide, ?_⟩
  change applyFixups rootAtUsedSize 512 = _
  apply applyFixups_same (by omega) (by decide) (by omega) (by omega)
  omega

/-- The one entry starts at the total size of the index. -/
def entryAtTotal : List UInt8 :=
  rootRecord 48 3 56 (List.replicate 32 0) 4 108 ((newEntry 5 0 ['b']).drop 8) 0

theorem length_entryAtTotal : entryAtTotal.length = 1024 :=
  length_rootRecord rfl (by decide) (by decide)

set_option maxRecDepth 4000 in
theorem openRecord_entryAtTotal : openRecord smallDriver entryAtTotal = .ok entryAtTotal := by
  have hsig : slice entryAtTotal 0 4 = fileSignature := by decide
  exact openRecord_zeros length_entryAtTotal hsig (by decide) (by decide)
    (by decide) (by decide) (by decide)

/-- The record of a small volume as it is read back behind an insertion. -/
def smallReread (stored : List UInt8) (name : List Char) : Outcome NtfsError (List UInt8) := do
  let (_, bytes) ← smallPlan stored name
  openRecord smallDriver bytes

section SmallVolume

variable {stored record : List UInt8} {name : List Char}

theorem readMftRecord_smallVolume (hl : stored.length = 1024) :
    readMftRecord smallDriver 5 (smallVolume stored) =
      (openRecord smallDriver stored, smallVolume stored) := by
  rw [readMftRecord_byteStore, recordAt_smallVolume hl]

/-- An insertion into the directory of a small volume. -/
theorem addToResidentIndex_smallVolume (hl : stored.length = 1024)
    (hopen : openRecord smallDriver stored = .ok record)
    (hplan : (smallPlan stored name).isOk = true) :
    ∃ d', addToResidentIndex smallDriver record ⟨5⟩ 16 name (smallVolume stored) = (.ok (), d') ∧
      readMftRecord smallDriver 5 d' = (smallReread stored name, d') := by
  obtain ⟨⟨off, bytes⟩, hw⟩ := Outcome.isOk_iff.mp hplan
  have hres := hw
  rw [smallPlan, hopen, Outcome.ok_bind] at hres
  obtain ⟨inserted, -, -, hoff⟩ := residentPlan_eq_ok.mp hres
  have hrecord : recordAt smallDriver (smallVolume stored) 5 = .ok record := by
    rw [recordAt_smallVolume hl, hopen]
  have hlen : bytes.length = smallDriver.mftRecordSize := by
    rw [length_residentPlan hres, length_recordAt hrecord]
  obtain ⟨off', hoff', hread⟩ := slot_eq_ok.mp (slot_smallVolume hl)
  rw [hoff] at hoff'
  obtain rfl := Outcome.ok.inj hoff'
  obtain ⟨hle, -⟩ := ByteStore.read_eq_some.mp hread
  obtain ⟨d', hwrite, -⟩ := ByteStore.write_of_le (smallVolume stored) off bytes (by omega)
  refine ⟨d', ?_, ?_⟩
  · rw [addToResidentIndex_byteStore, hres]
    exact writeBlocks_of_write hwrite
  · rw [readMftRecord_byteStore, recordAt, slot_write_same hoff hlen hwrite, smallReread, hw]
    rfl

/-- What an insertion into the directory of a small volume is to leave there. -/
theorem keepsRoot_of_insertKeeps {attr : Nat} (hl : stored.length = 1024)
    (hopen : openRecord smallDriver stored = .ok record)
    {w : Nat × List UInt8} (hw : residentPlan smallDriver record 5 16 name = .ok w)
    (h : InsertKeeps smallDriver (smallVolume stored) record ⟨5⟩ attr 16 name) :
    ∃ r, openRecord smallDriver w.2 = .ok r ∧ KeepsRoot smallDriver record r attr 16 name := by
  rw [← smallPlan_eq hopen] at hw
  obtain ⟨d', hcall, hread⟩ :=
    addToResidentIndex_smallVolume hl hopen (Outcome.isOk_iff.mpr ⟨w, hw⟩)
  obtain ⟨r, hread', hkeeps⟩ := h d' hcall
  rw [hread, smallReread, hw] at hread'
  exact ⟨r, (Prod.mk.inj hread').1, hkeeps⟩

end SmallVolume

set_option maxRecDepth 4000 in
theorem emptyDirectory_rootLayout : RootLayout smallDriver (emptyDirectory 232) 56 ∧
    RootApart smallDriver (emptyDirectory 232) 56 := by
  have hl := length_emptyDirectory
  have hfirst : leAt (indexValue (emptyDirectory 232) 56) 16 4 = 16 := by decide
  have htotal : leAt (indexValue (emptyDirectory 232) 56) 20 4 = 32 := by decide
  refine ⟨⟨findAttributeOffset_first (by omega) (by decide) (by omega) (by decide) (by decide),
    by decide, ?_, by decide, by decide, by decide, by decide⟩, plainRoot_emptyDirectory.signature,
    plainRoot_emptyDirectory.header, plainRoot_emptyDirectory.clear, by decide, ?_, ?_⟩
  · rw [hfirst, htotal]
    exact .done
  · rw [hfirst]
    decide
  · rw [htotal]
    decide

/-- A name `a` in the small directory. -/
theorem addToResidentIndex_keeps_small : ∃ d' r,
    addToResidentIndex smallDriver (emptyDirectory 232) ⟨5⟩ 16 ['a']
      (smallVolume (emptyDirectory 232)) = (.ok (), d') ∧
    readMftRecord smallDriver 5 d' = (.ok r, d') ∧
    KeepsRoot smallDriver (emptyDirectory 232) r 56 16 ['a'] ∧ RootApart smallDriver r 56 := by
  have hopen := openRecord_emptyDirectory
  obtain ⟨d', hcall, -⟩ := addToResidentIndex_smallVolume length_emptyDirectory hopen
    (by rw [smallPlan_eq hopen]; exact plan_isOk)
  have hread : readMftRecord smallDriver (NtfsFile.mk 5).recordNumber
      (smallVolume (emptyDirectory 232)) =
      (.ok (emptyDirectory 232), smallVolume (emptyDirectory 232)) := by
    rw [readMftRecord_smallVolume length_emptyDirectory, hopen]
  obtain ⟨hlayout, hapart⟩ := emptyDirectory_rootLayout
  obtain ⟨r, hkept⟩ := addToResidentIndex_keeps hread hlayout hapart (by decide) (by decide)
    (by decide) (by decide) hcall
  exact ⟨d', r, hcall, hkept⟩

set_option maxRecDepth 4000 in
theorem arrayAtEnd_rootLayout : RootLayout smallDriver (arrayAtEnd 0) 512 := by
  have hl := length_arrayAtEnd 0
  have hfirst : leAt (indexValue (arrayAtEnd 0) 512) 16 4 = 16 := by decide
  have htotal : leAt (indexValue (arrayAtEnd 0) 512) 20 4 = 32 := by decide
  refine ⟨findAttributeOffset_first (by omega) (by decide) (by omega) (by decide) (by decide),
    by decide, ?_, by decide, by decide, by decide, by decide⟩
  rw [hfirst, htotal]
  exact .done

/-- The record cannot be read back: its last saved word has taken the place of the first mark. -/
theorem arrayAtEnd_fails : RootLayout smallDriver (arrayAtEnd 0) 512 ∧
    readMftRecord smallDriver 5 (smallVolume (arrayAtEnd 1)) =
      (.ok (arrayAtEnd 0), smallVolume (arrayAtEnd 1)) ∧
    ¬ InsertKeeps smallDriver (smallVolume (arrayAtEnd 1)) (arrayAtEnd 0) ⟨5⟩ 512 16 ['a'] := by
  refine ⟨arrayAtEnd_rootLayout, ?_, ?_⟩
  · rw [readMftRecord_smallVolume (length_arrayAtEnd 1), openRecord_arrayAtEnd]
  · intro h
    have hplan : (fun w ↦ (openRecord smallDriver w.2).isOk) <$>
        residentPlan smallDriver (arrayAtEnd 0) 5 16 ['a'] = .ok false := by
      decide +kernel
    obtain ⟨w, hw, hfails⟩ := Outcome.map_eq_ok.mp hplan
    obtain ⟨r, hr, -⟩ := keepsRoot_of_insertKeeps (length_arrayAtEnd 1) openRecord_arrayAtEnd hw h
    rw [hr] at hfails
    cases hfails

set_option maxRecDepth 4000 in
theorem rootAtUsedSize_rootLayout : RootLayout smallDriver rootAtUsedSize 24 := by
  have hl := length_rootAtUsedSize
  have hfirst : leAt (indexValue rootAtUsedSize 24) 16 4 = 16 := by decide
  have htotal : leAt (indexValue rootAtUsedSize 24) 20 4 = 32 := by decide
  refine ⟨findAttributeOffset_first (by omega) (by decide) (by omega) (by decide) (by decide),
    by decide, ?_, by decide, by decide, by decide, by decide⟩
  rw [hfirst, htotal]
  exact .done

/-- The root is not found again: its type code has grown by the length of the entry. -/
theorem rootAtUsedSize_fails : RootLayout smallDriver rootAtUsedSize 24 ∧
    readMftRecord smallDriver 5 (smallVolume rootAtUsedSize) =
      (.ok rootAtUsedSize, smallVolume rootAtUsedSize) ∧
    ¬ InsertKeeps smallDriver (smallVolume rootAtUsedSize) rootAtUsedSize ⟨5⟩ 24 16 ['a'] := by
  refine ⟨rootAtUsedSize_rootLayout, ?_, ?_⟩
  · rw [readMftRecord_smallVolume length_rootAtUsedSize, openRecord_rootAtUsedSize]
  · intro h
    have hplan : (fun w ↦ (openRecord smallDriver w.2 >>= (findAttributeOffset · 0x90)).isOk) <$>
        residentPlan smallDriver rootAtUsedSize 5 16 ['a'] = .ok false := by
      decide +kernel
    obtain ⟨w, hw, hfails⟩ := Outcome.map_eq_ok.mp hplan
    obtain ⟨r, hr, hkeeps⟩ :=
      keepsRoot_of_insertKeeps length_rootAtUsedSize openRecord_rootAtUsedSize hw h
    rw [hr, Outcome.ok_bind, hkeeps.layout.found] at hfails
    cases hfails

set_option maxRecDepth 4000 in
theorem entryAtTotal_rootLayout : RootLayout smallDriver entryAtTotal 56 := by
  have hl := length_entryAtTotal
  have hfirst : leAt (indexValue entryAtTotal 56) 16 4 = 4 := by decide
  have htotal : leAt (indexValue entryAtTotal 56) 20 4 = 108 := by decide
  have hlen : 20 + leAt (indexValue entryAtTotal 56) (20 + 8) 2 = 108 := by decide
  refine ⟨findAttributeOffset_first (by omega) (by decide) (by omega) (by decide) (by decide),
    by decide, ?_, by decide, by decide, by decide, by decide⟩
  rw [hfirst, htotal]
  exact .entry (by decide) (by decide) (hlen ▸ .done)

/-- An older name is looked up with another number: its file reference starts with the total
size. -/
theorem entryAtTotal_fails : RootLayout smallDriver entryAtTotal 56 ∧
    readMftRecord smallDriver 5 (smallVolume entryAtTotal) =
      (.ok entryAtTotal, smallVolume entryAtTotal) ∧
    ¬ InsertKeeps smallDriver (smallVolume entryAtTotal) entryAtTotal ⟨5⟩ 56 16 ['a'] := by
  refine ⟨entryAtTotal_rootLayout, ?_, ?_⟩
  · rw [readMftRecord_smallVolume length_entryAtTotal, openRecord_entryAtTotal]
  · intro h
    have hplan : (fun w ↦ decide ((openRecord smallDriver w.2 >>= fun r ↦
        findEntry (indexValue r 56) ['b']) = findEntry (indexValue entryAtTotal 56) ['b'])) <$>
        residentPlan smallDriver entryAtTotal 5 16 ['a'] = .ok false := by
      decide +kernel
    obtain ⟨w, hw, hfails⟩ := Outcome.map_eq_ok.mp hplan
    obtain ⟨r, hr, hkeeps⟩ :=
      keepsRoot_of_insertKeeps length_entryAtTotal openRecord_entryAtTotal hw h
    rw [hr, Outcome.ok_bind] at hfails
    exact of_decide_eq_false hfails (hkeeps.others ['b'] (by decide))

/-- Three well-formed roots with which an insertion does not keep the rest: the record cannot be
read back, the root is not found again, and an older name is looked up with another number. -/
theorem insertKeeps_fails :
    (RootLayout smallDriver (arrayAtEnd 0) 512 ∧
      readMftRecord smallDriver 5 (smallVolume (arrayAtEnd 1)) =
        (.ok (arrayAtEnd 0), smallVolume (arrayAtEnd 1)) ∧
      ¬ InsertKeeps smallDriver (smallVolume (arrayAtEnd 1)) (arrayAtEnd 0) ⟨5⟩ 512 16 ['a']) ∧
    (RootLayout smallDriver rootAtUsedSize 24 ∧
      readMftRecord smallDriver 5 (smallVolume rootAtUsedSize) =
        (.ok rootAtUsedSize, smallVolume rootAtUsedSize) ∧
      ¬ InsertKeeps smallDriver (smallVolume rootAtUsedSize) rootAtUsedSize ⟨5⟩ 24 16 ['a']) ∧
    RootLayout smallDriver entryAtTotal 56 ∧
      readMftRecord smallDriver 5 (smallVolume entryAtTotal) =
        (.ok entryAtTotal, smallVolume entryAtTotal) ∧
      ¬ InsertKeeps smallDriver (smallVolume entryAtTotal) entryAtTotal ⟨5⟩ 56 16 ['a'] :=
  ⟨arrayAtEnd_fails, rootAtUsedSize_fails, entryAtTotal_fails⟩

end SmallOs.Ntfs
