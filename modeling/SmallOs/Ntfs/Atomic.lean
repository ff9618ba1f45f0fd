import SmallOs.Ntfs.Slots

/-!
# A create that fails

`create_file` writes the new record before it knows whether the parent's index takes the
entry. A call that returns an error has kept the image exactly when it failed in front of
the first write, or when what it wrote was there already.
-/

namespace SmallOs.Ntfs

open SmallOs.Base SmallOs.Hal

variable {driver : NtfsDriver}

/-- The prepared record goes to its slot, which `d₁` shows. -/
structure Placed (driver : NtfsDriver) (d : ByteStore) (input : CreateInput) (n : Nat)
    (record : List UInt8) (d₁ : ByteStore) : Prop where
  prepared : prepared driver d input.parent input.name input.options = .ok (n, record)
  written : ∃ off, driver.recordOffset n = .ok off ∧ d.write off record = some d₁

/-- A record that its slot does not hold yet is put there, and the parent's index then
refuses the entry. -/
def EntryRefused (driver : NtfsDriver) (d : ByteStore) (input : CreateInput) : Prop :=
  ∃ n record d₁ e, Placed driver d input n record d₁ ∧ slot driver d n ≠ .ok record ∧
    entryPlan driver d₁ input.parent.recordNumber n input.name = .err e

/-- The index takes the entry in a block that lies on the new record's slot, the record
cannot be opened any more, and the two writes do not cancel out. -/
def RecordSpoilt (driver : NtfsDriver) (d : ByteStore) (input : CreateInput) : Prop :=
  ∃ n record d₁ off bytes d₂ e, Placed driver d input n record d₁ ∧
    entryPlan driver d₁ input.parent.recordNumber n input.name = .ok (off, bytes) ∧
    d₁.write off bytes = some d₂ ∧ d₂ ≠ d ∧ recordAt driver d₂ n = .err e

/-- Putting a record into its slot changes nothing exactly when the slot holds it. -/
theorem Placed.eq_iff {d d₁ : ByteStore} {input : CreateInput} {n : Nat} {record : List UInt8}
    (h : Placed driver d input n record d₁) : d₁ = d ↔ slot driver d n = .ok record := by
  obtain ⟨hprep, off, hoff, hw⟩ := h
  have hlen := (prepared_placed hprep).1
  constructor
  · rintro rfl
    exact slot_write_same hoff hlen hw
  · intro hs
    obtain ⟨off', hoff', hr⟩ := slot_eq_ok.mp hs
    rw [hoff] at hoff'
    cases hoff'
    obtain ⟨hle, hslice⟩ := ByteStore.read_eq_some.mp hr
    obtain ⟨-, hb, hsize, hcount⟩ := ByteStore.write_eq_some.mp hw
    apply ByteStore.ext _ hsize hcount
    rw [hb, ← hslice, splice_slice _ _ _ hle]

/-- A call that returns an error keeps the image if and only if the index does not refuse a
record that is new to its slot, and does not spoil it. -/
theorem createFile_atomic (d : ByteStore) (input : CreateInput) :
    (∀ e d', createFile driver input.parent input.name input.options d = (.err e, d') → d' = d) ↔
      ¬ EntryRefused driver d input ∧ ¬ RecordSpoilt driver d input := by
  constructor
  · intro hatomic
    constructor
    · rintro ⟨n, record, d₁, e, hplaced, hnew, hplan⟩
      apply hnew
      obtain ⟨hprep, off, hoff, hw⟩ := hplaced
      exact Placed.eq_iff ⟨hprep, off, hoff, hw⟩ |>.mp
        (hatomic e d₁ (createFile_refused hprep hoff hw hplan))
    · rintro ⟨n, record, d₁, off', bytes, d₂, e, ⟨hprep, off, hoff, hw⟩, hplan, hw', hne, hopen⟩
      apply hne
      apply hatomic e d₂
      rw [createFile_taken hprep hoff hw hplan hw', hopen]
      rfl
  · rintro ⟨hrefused, hspoilt⟩ e d' hcall
    rcases createFile_cases hcall with ⟨hd, -⟩ | ⟨n, record, off, d₁, hprep, hoff, hw, hrest⟩
    · exact hd
    have hplaced : Placed driver d input n record d₁ := ⟨hprep, off, hoff, hw⟩
    rcases hrest with ⟨rfl, ⟨e', hplan, -⟩ | ⟨-, hpanic⟩⟩ | ⟨off', bytes, hplan, hw', hr⟩
    · apply hplaced.eq_iff.mpr
      by_cases hs : slot driver d n = .ok record
      · exact hs
      · exact absurd ⟨n, record, d', e', hplaced, hs, hplan⟩ hrefused
    · cases hpanic
    · by_cases hd : d' = d
      · exact hd
      cases hopen : recordAt driver d' n with
      | ok opened =>
        rw [hopen] at hr
        cases hr
      | panic =>
        rw [hopen] at hr
        cases hr
      | err e' =>
        exact absurd ⟨n, record, d₁, off', bytes, d', e', hplaced, hplan, hw', hd, hopen⟩ hspoilt

/-- In a directory whose root is full, the call fails and leaves the new record behind. -/
theorem createFile_atomic_full :
    ¬ ∀ e d', createFile smallDriver (smallInput ['a']).parent (smallInput ['a']).name
        (smallInput ['a']).options (smallVolume (emptyDirectory 32)) = (.err e, d') →
      d' = smallVolume (emptyDirectory 32) := by
  have hl := length_emptyDirectory_of_le (Nat.le_refl 32) (by decide)
  have hopen := openRecord_emptyDirectory_of_le (Nat.le_refl 32) (by decide)
  obtain ⟨d', hcall, hslot⟩ := createFile_smallVolume_full hl hopen (by decide +kernel)
    (by decide) built_isOk (by decide +kernel) (by decide +kernel)
  intro hatomic
  rw [hatomic _ _ hcall, slot_smallVolume_sixteen hl] at hslot
  exact absurd hslot (by decide +kernel)

/-! ### Directories without an external index -/

/-- The parent's record reads as before once the new record is in place. -/
theorem Placed.recordAt_parent {d d₁ : ByteStore} {input : CreateInput} {n : Nat}
    {record : List UInt8} (h : Placed driver d input n record d₁) :
    ∃ parentRecord, recordAt driver d input.parent.recordNumber = .ok parentRecord ∧
      recordAt driver d₁ input.parent.recordNumber = .ok parentRecord := by
  obtain ⟨hprep, off, hoff, hw⟩ := h
  obtain ⟨-, hfind, -⟩ := prepared_eq_ok.mp hprep
  obtain ⟨data, hdata, -⟩ := find_eq_fileNotFound.mp hfind
  obtain ⟨parentRecord, hrec⟩ := recordAt_of_indexAt hdata
  refine ⟨parentRecord, hrec, ?_⟩
  rw [recordAt_write_other hoff (prepared_placed hprep).1 hw (Ne.symm (prepared_claims hprep).2),
    hrec]

theorem entryPlan_resident {d : ByteStore} {parent child : Nat} {name : List Char}
    {record : List UInt8} (hrec : recordAt driver d parent = .ok record)
    (hno : (findAttributeOffset record 0xA0).isOk = false) :
    entryPlan driver d parent child name = residentPlan driver record parent child name := by
  rw [entryPlan, hrec, Outcome.ok_bind, if_neg (by rw [hno]; exact Bool.false_ne_true)]

/-- Without an external index, a call that returns an error keeps the image if and only if the
directory's root does not refuse the entry of a prepared record. -/
theorem createFile_atomic_resident (h512 : driver.sectorSize = 512) (d : ByteStore)
    (input : CreateInput) (hno : NoAllocation driver d input.parent) :
    (∀ e d', createFile driver input.parent input.name input.options d = (.err e, d') → d' = d) ↔
      ∀ n record parentRecord e,
        prepared driver d input.parent input.name input.options = .ok (n, record) →
        recordAt driver d input.parent.recordNumber = .ok parentRecord →
        residentPlan driver parentRecord input.parent.recordNumber n input.name ≠ .err e := by
  have hroot : ∀ {n record d₁ parentRecord}, Placed driver d input n record d₁ →
      recordAt driver d input.parent.recordNumber = .ok parentRecord →
      entryPlan driver d₁ input.parent.recordNumber n input.name =
        residentPlan driver parentRecord input.parent.recordNumber n input.name := by
    intro n record d₁ parentRecord hplaced hrec
    obtain ⟨_, hrec', hrec₁⟩ := hplaced.recordAt_parent
    rw [hrec] at hrec'
    cases hrec'
    apply entryPlan_resident hrec₁
    rwa [NoAllocation, hrec, Outcome.ok_bind] at hno
  rw [createFile_atomic]
  constructor
  · rintro ⟨hrefused, -⟩ n record parentRecord e hprep hrec hplan
    obtain ⟨-, off, d₁, hoff, hw⟩ := prepared_placed hprep
    have hplaced : Placed driver d input n record d₁ := ⟨hprep, off, hoff, hw⟩
    refine hrefused ⟨n, record, d₁, e, hplaced, ?_, (hroot hplaced hrec).trans hplan⟩
    intro hs
    exact (prepared_claims hprep).1.2.2.1.not_inUse
      ⟨record, hs, (prepared_opens h512 hprep).1.inUse⟩
  · intro hroom
    constructor
    · rintro ⟨n, record, d₁, e, hplaced, -, hplan⟩
      obtain ⟨parentRecord, hrec, -⟩ := hplaced.recordAt_parent
      rw [hroot hplaced hrec] at hplan
      exact hroom n record parentRecord e hplaced.prepared hrec hplan
    · rintro ⟨n, record, d₁, off, bytes, d₂, e, hplaced, hplan, hw, -, hopen⟩
      obtain ⟨parentRecord, hrec, hrec₁⟩ := hplaced.recordAt_parent
      rw [hroot hplaced hrec] at hplan
      obtain ⟨_, -, -, hoff⟩ := residentPlan_eq_ok.mp hplan
      have hbytes : bytes.length = driver.mftRecordSize := by
        rw [length_residentPlan hplan, length_recordAt hrec]
      -- The root's write misses the new record, which still opens.
      obtain ⟨-, opened, hopened⟩ := prepared_opens h512 hplaced.prepared
      obtain ⟨hprep, off₁, hoff₁, hw₁⟩ := hplaced
      obtain ⟨hlen, -⟩ := prepared_placed hprep
      rw [recordAt_write_other hoff hbytes hw (prepared_claims hprep).2, recordAt,
        slot_write_same hoff₁ hlen hw₁, Outcome.ok_bind, hopened] at hopen
      cases hopen

end SmallOs.Ntfs
