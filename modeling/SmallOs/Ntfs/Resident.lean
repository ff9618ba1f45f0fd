import SmallOs.Ntfs.Addresses
import SmallOs.Ntfs.Created

/-!
# Directories that keep their index in their record

A directory whose one index root has no external index beside it. An entry that its root takes
leaves such a directory behind, with one more entry, so creating files keeps it that way.
-/

namespace SmallOs.Ntfs

open SmallOs.Base SmallOs.Hal

variable {driver : NtfsDriver}

/-! ### The walker by type code -/

/-- Where the two fields that the walker looks at are the same, only the rest of the walk counts. -/
theorem findAttributeFrom_step {r r' : List UInt8} {code off : Nat} (hl : r'.length = r.length)
    (hcode : leAt r' off 4 = leAt r off 4) (hlen : leAt r' (off + 4) 4 = leAt r (off + 4) 4)
    (hrest : off + 8 ≤ r.length → leAt r (off + 4) 4 ≠ 0 →
      findAttributeFrom r' code (off + leAt r (off + 4) 4) =
        findAttributeFrom r code (off + leAt r (off + 4) 4)) :
    findAttributeFrom r' code off = findAttributeFrom r code off := by
  rw [findAttributeFrom.eq_def r', findAttributeFrom.eq_def r, hl, hcode, hlen]
  split
  · next hle =>
    split
    · rfl
    split
    · rfl
    split
    · rfl
    · next hno => exact hrest hle fun hzero ↦ hno (.inl hzero)
  · rfl

theorem findAttributeFrom_tail {r r' : List UInt8} {code off : Nat} (hl : r'.length = r.length)
    (h : ∀ p, off ≤ p → r'[p]? = r[p]?) :
    findAttributeFrom r' code off = findAttributeFrom r code off := by
  induction hn : r.length - off using Nat.strongRecOn generalizing off with
  | ind n ih =>
    have hword : ∀ k, leAt r' (off + k) 4 = leAt r (off + k) 4 :=
      fun k ↦ leAt_congr fun p h₁ _ ↦ h p (by omega)
    apply findAttributeFrom_step hl (hword 0) (hword 4)
    intro hle hpos
    exact ih _ (by omega) (fun p hp ↦ h p (by omega)) rfl

/-- A change inside the body of an attribute is not seen. -/
theorem findAttributeFrom_write {r r' : List UInt8} {code off lo hi : Nat} {a : Attr}
    (hl : r'.length = r.length) (ha : a ∈ (attrsFrom r off).1) (hlo : a.offset + 24 ≤ lo)
    (hhi : hi ≤ a.offset + a.data.length)
    (h : ∀ p, off ≤ p → ¬ (lo ≤ p ∧ p < hi) → r'[p]? = r[p]?) :
    findAttributeFrom r' code off = findAttributeFrom r code off := by
  induction off using attrsFrom.induct r with
  | case1 off b hb ih =>
    obtain ⟨hle, hend, hpos, hfit, htyp, hoff, hdata, -⟩ := nextAttr_eq_some hb
    have hlen : b.data.length = leAt r (off + 4) 4 := by
      rw [hdata, length_slice _ _ _ (by omega)]
    rw [attrsFrom, hb] at ha
    have hfront : off ≤ a.offset := by
      rcases List.mem_cons.mp ha with rfl | ha
      · omega
      · obtain ⟨hge, -⟩ := attrsFrom_mem ha
        omega
    have hword : ∀ k, k + 4 ≤ 8 → leAt r' (off + k) 4 = leAt r (off + k) 4 :=
      fun k hk ↦ leAt_congr fun p h₁ _ ↦ h p (by omega) (by omega)
    apply findAttributeFrom_step hl (hword 0 (by decide)) (hword 4 (by decide))
    intro _ _
    -- Behind the attribute the records agree; in front of it the walk goes on.
    rw [← hlen]
    rcases List.mem_cons.mp ha with rfl | ha
    · exact findAttributeFrom_tail hl fun p hp ↦ h p (by omega) (by omega)
    · exact ih ha fun p hp ↦ h p (by omega)
  | case2 off hb =>
    rw [attrsFrom, hb] at ha
    cases ha
  | case3 off e hb =>
    rw [attrsFrom, hb] at ha
    cases ha
  | case4 off hb =>
    rw [attrsFrom, hb] at ha
    cases ha

/-! ### The grown index -/

theorem EntriesTo.append {data : List UInt8} {fin off last : Nat} (h : EntriesTo data fin off)
    (hlast : EntriesTo data last fin) : EntriesTo data last off := by
  induction h with
  | done => exact hlast
  | entry hkey hflag _ ih => exact .entry hkey hflag ih

theorem EntriesTo.congr {data data' : List UInt8} {fin off : Nat} (h : EntriesTo data fin off)
    (hkeep : ∀ p, off ≤ p → p < fin → data'[p]? = data[p]?) : EntriesTo data' fin off := by
  induction h with
  | done => exact .done
  | @entry off hkey hflag hrest ih =>
    have hle := hrest.le
    have hword : ∀ k n, k + n ≤ 16 → leAt data' (off + k) n = leAt data (off + k) n :=
      fun k n hk ↦ leAt_congr fun p h₁ h₂ ↦ hkeep p (by omega) (by omega)
    refine .entry ?_ ?_ ?_
    · rwa [hword 10 2 (by decide), hword 8 2 (by decide)]
    · rwa [hword 12 2 (by decide)]
    · rw [hword 8 2 (by decide)]
      exact ih fun p hp ↦ hkeep p (by omega)

/-- The index is as well formed as before. -/
theorem PlainIndex.inserted {data data' : List UInt8} {parent child : Nat} {name : List Char}
    (hp : PlainIndex data) (h : Inserted data data' parent child name) : PlainIndex data' := by
  obtain ⟨hstart, hentries, hfit, hmarker⟩ := hp
  obtain ⟨htotal, hkept, hentry, hmoved⟩ := h
  have hge := hentries.le
  have hfirst : leAt data' 16 4 = leAt data 16 4 :=
    leAt_congr fun p h₁ h₂ ↦ hkept p (by omega) (.inl (by omega))
  obtain ⟨hkey, -⟩ := hentry.keyLen_lt
  have hnew : EntriesTo data' (leAt data 20 4 + entryLenAligned name) (leAt data 20 4) := by
    refine .entry ?_ ?_ ?_
    · rw [hentry.leAt_keyLen, hentry.leAt_size]
      exact hkey
    · rw [hentry.leAt_flags]
      rfl
    · rw [hentry.leAt_size]
      exact .done
  refine ⟨by omega, ?_, ?_, ?_⟩
  · rw [htotal, hfirst]
    exact (hentries.congr fun p h₁ h₂ ↦ hkept p h₂ (.inr (by omega))).append hnew
  · have hlen := congrArg List.length hmoved
    rw [length_slice _ _ _ hfit, slice, List.length_take, List.length_drop] at hlen
    omega
  · rw [htotal, leAt, slice_of_slice hmoved (by decide), slice_slice _ _ _ _ _ (by decide)]
    exact hmarker

/-! ### The directory -/

/-- A directory whose index is all in its root, behind a whole index header. -/
structure ResidentDirectory (driver : NtfsDriver) (d : ByteStore) (dir : NtfsFile)
    (record : List UInt8) (a : Attr) : Prop where
  read : recordAt driver d dir.recordNumber = .ok record
  root : PlainRoot driver record a
  alone : (findAttributeOffset record 0xA0).isOk = false
  header : 12 ≤ leAt a.root 16 4
  stat : ∃ st, parseStat record driver.boot = .ok st ∧
    (dir.recordNumber = 5 ∨ st.isDirectory = true)

section Grown

variable {record inserted r : List UInt8} {a : Attr} {parent child : Nat} {name : List Char}

/-- Apart from the saved words, the record changes in its used size and inside its root. -/
theorem TookEntry.kept_by (ht : TookEntry record inserted a parent child name)
    (h : PlainRoot driver record a) (hr : ∀ p, ¬ Saved record p → r[p]? = inserted[p]?) :
    (∀ p, p < 24 → r[p]? = record[p]?) ∧
      ∀ p, leAt record 20 2 ≤ p → ¬ (a.rootStart + 20 ≤ p ∧
        p < a.rootStart + leAt a.root 20 4 + entryLenAligned name + 16) → r[p]? = record[p]? := by
  have hbehind := h.window.behind
  have hheader := h.header
  have hge := h.index.entries.le
  have hstart := h.index.start
  constructor
  · intro p hp
    rw [hr p, ht.kept p (by omega) (by omega) (by omega)]
    rintro ⟨h₁, h₂, -⟩
    omega
  · intro p h₁ h₂
    rw [hr p (not_saved_of_le h.front h₁), ht.kept p (by omega) (by omega) (by omega)]

/-- What an entry leaves of the record of a plain directory is again one. -/
theorem PlainRoot.grown (h : PlainRoot driver record a) (hheader : 12 ≤ leAt a.root 16 4)
    (ht : TookEntry record inserted a parent child name)
    (hr : ∀ p, ¬ Saved record p → r[p]? = inserted[p]?) (hg : Grown record r a parent child name) :
    PlainRoot driver r (a.reread r) ∧ 12 ≤ leAt (a.reread r).root 16 4 := by
  obtain ⟨hlow, hkept⟩ := ht.kept_by h hr
  have huso : leAt r 4 2 = leAt record 4 2 := leAt_congr fun p _ hp ↦ hlow p (by omega)
  have husc : leAt r 6 2 = leAt record 6 2 := leAt_congr fun p _ hp ↦ hlow p (by omega)
  obtain ⟨l₁, l₂, -, hother, hwalk⟩ := hg.attrs
  obtain ⟨hfront, hfit, -⟩ := attrsFrom_mem h.mem
  have hge := h.index.entries.le
  have hvalue := h.value.behind
  have hstart : a.rootStart = a.offset + leAt a.data 20 2 := rfl
  have hinside := h.value.inside
  have hword : ∀ k, 16 ≤ k → k + 4 ≤ 20 ∨ 24 ≤ k ∧ k + 4 ≤ 28 →
      leAt (a.reread r).root k 4 = leAt a.root k 4 :=
    fun k h₁ h₂ ↦ leAt_congr fun p h₃ h₄ ↦ hg.index.kept p (by omega) (by omega)
  have hlen : (a.reread r).root.length = a.root.length := by
    have hdata : (a.reread r).data.length = a.data.length := length_slice _ _ _ (by
      rw [hg.length]
      exact hfit)
    have hoff : leAt (a.reread r).data 20 2 = leAt a.data 20 2 :=
      leAt_reread h.mem (by omega) fun p h₁ h₂ ↦ hkept p (by omega) (by omega)
    rw [Attr.root, Attr.root, List.length_drop, List.length_drop, hdata, hoff]
  refine ⟨⟨?_, ?_, ?_, ?_, ⟨l₁, l₂, ?_, hother⟩, hg.value, h.index.inserted hg.index, ?_⟩, ?_⟩
  · exact h.signature.congr fun p hp ↦ hlow p (by omega)
  · have hclear := h.clear
    unfold ArrayClear at *
    rwa [huso, husc]
  · rw [huso, husc, hg.start]
    exact h.front
  · rw [hg.start]
    exact h.header
  · rw [hg.start, hwalk]
  · rw [hword 24 (by decide) (by decide), hlen]
    exact h.allocated
  · rw [hword 16 (by decide) (by decide)]
    exact hheader

/-- An entry in the root brings no other attribute about. -/
theorem findAttributeOffset_grown (h : PlainRoot driver record a)
    (ht : TookEntry record inserted a parent child name)
    (hr : ∀ p, ¬ Saved record p → r[p]? = inserted[p]?) (hg : Grown record r a parent child name)
    (code : Nat) : findAttributeOffset r code = findAttributeOffset record code := by
  obtain ⟨-, hkept⟩ := ht.kept_by h hr
  obtain ⟨hfront, hfit, -⟩ := attrsFrom_mem h.mem
  have hstart : a.rootStart = a.offset + leAt a.data 20 2 := rfl
  have hvalue := h.value.behind
  have hinside := h.value.inside
  have hroom := ht.room
  rw [Attr.root, List.length_drop] at hroom
  have hwalk : findAttributeFrom r code (leAt record 20 2) =
      findAttributeFrom record code (leAt record 20 2) :=
    findAttributeFrom_write hg.length h.mem (show a.offset + 24 ≤ a.rootStart + 20 by omega)
      (show a.rootStart + leAt (a.data.drop (leAt a.data 20 2)) 20 4 + entryLenAligned name + 16 ≤ _
        by omega) hkept
  rw [findAttributeOffset, findAttributeOffset, hg.length, hg.start, hwalk]

end Grown

namespace ResidentDirectory

variable {d d' : ByteStore} {dir : NtfsFile} {record : List UInt8} {a : Attr}

theorem plain (h : ResidentDirectory driver d dir record a) :
    PlainDirectory driver d dir record a where
  read := h.read
  root := h.root
  apart := by
    intro off size pos hlocate
    obtain ⟨alloc, -, -, -, halloc, -⟩ := locateExternal_eq_ok hlocate
    have halone := h.alone
    rw [halloc] at halone
    cases halone

/-- The index of the directory is its root. -/
theorem indexAt_eq (h : ResidentDirectory driver d dir record a) :
    indexAt driver d dir.recordNumber = .ok a.root := by
  obtain ⟨st, hst, -⟩ := h.stat
  obtain ⟨-, hfold, -⟩ := parseStat_eq_ok.mp hst
  obtain ⟨l₁, l₂, hsplit, hother⟩ := h.root.only
  rw [hsplit] at hfold
  obtain ⟨hroot, -⟩ := foldlM_statStep_root (fun b hb ↦ hother b (List.mem_append_right _ hb))
    h.root.value h.root.value hfold
  exact indexAt_of_root h.read hst hroot

theorem isDirectoryAt_eq (h : ResidentDirectory driver d dir record a) :
    isDirectoryAt driver d dir.recordNumber = .ok true := by
  obtain ⟨st, hst, h5 | hdir⟩ := h.stat
  · rw [isDirectoryAt, if_pos h5]
    rfl
  · rw [isDirectoryAt]
    split
    · rfl
    · rw [statAt, h.read, Outcome.ok_bind, hst]
      exact congrArg Outcome.ok hdir

/-- Only the slot of the directory counts. -/
theorem congr (h : ResidentDirectory driver d dir record a)
    (hs : slot driver d' dir.recordNumber = slot driver d dir.recordNumber) :
    ResidentDirectory driver d' dir record a := by
  obtain ⟨hread, hroot, halone, hheader, hstat⟩ := h
  refine ⟨?_, hroot, halone, hheader, hstat⟩
  rw [← hread, recordAt, recordAt, hs]

/-- The entry is planned for the root. -/
theorem residentPlan_eq {input : CreateInput} {n off : Nat} {new bytes : List UInt8}
    {d₁ : ByteStore} (h : ResidentDirectory driver d input.parent record a)
    (hplaced : Placed driver d input n new d₁)
    (hplan : entryPlan driver d₁ input.parent.recordNumber n input.name = .ok (off, bytes)) :
    residentPlan driver record input.parent.recordNumber n input.name = .ok (off, bytes) := by
  obtain ⟨_, hrec, hrec₁⟩ := hplaced.recordAt_parent
  rw [h.read] at hrec
  cases hrec
  obtain ⟨_, hrec₂, hres | ⟨-, hext, -⟩⟩ := entryPlan_eq_ok.mp hplan
  · rw [hrec₁] at hrec₂
    cases hrec₂
    exact hres
  · rw [hrec₁] at hrec₂
    cases hrec₂
    have halone := h.alone
    rw [hext] at halone
    cases halone

/-- Behind the second write, the slot of the new record still holds what was prepared for it. -/
theorem slot_new {input : CreateInput} {n off : Nat} {new bytes : List UInt8} {d₁ : ByteStore}
    (h : ResidentDirectory driver d input.parent record a)
    (hplaced : Placed driver d input n new d₁)
    (hplan : entryPlan driver d₁ input.parent.recordNumber n input.name = .ok (off, bytes))
    (hw : d₁.write off bytes = some d') : slot driver d' n = .ok new := by
  have hres := h.residentPlan_eq hplaced hplan
  obtain ⟨hprep, off', hoff', hw'⟩ := hplaced
  obtain ⟨-, hne⟩ := prepared_claims hprep
  obtain ⟨-, -, -, hoff⟩ := residentPlan_eq_ok.mp hres
  rw [slot_write_other hoff (by rw [length_residentPlan hres, length_recordAt h.read]) hw hne]
  exact slot_write_same hoff' (prepared_placed hprep).1 hw'

/-- A call that goes through leaves such a directory with one more entry. -/
theorem completes {input : CreateInput} {n : Nat}
    (h : ResidentDirectory driver d input.parent record a) (hc : Completes driver d input n d')
    (hne : input.name ≠ []) :
    ∃ r a', ResidentDirectory driver d' input.parent r a' ∧
      indexEntries a'.root = indexEntries a.root ++ [⟨n, some (shownName input.name)⟩] := by
  obtain ⟨new, d₁, off, bytes, _, hplaced, hplan, hw, -⟩ := hc
  have hres := h.residentPlan_eq hplaced hplan
  obtain ⟨inserted, hins, hmark, hoff⟩ := residentPlan_eq_ok.mp hres
  have ht := tookEntry_of_insertResident h.root hins
  obtain ⟨r, hopen, hg⟩ :=
    grown_of_reapplyFixups h.root ht (units_lt_of_prepared hplaced.prepared) hmark
  have hbehind := h.root.window.behind
  have hge := h.root.index.entries.le
  obtain ⟨_, hopen', -, hr⟩ := openRecord_reapplyFixups h.root.signature h.root.clear ht.length
    (fun p hp ↦ ht.kept p (by omega) (by omega) (by omega)) hmark
  rw [hopen] at hopen'
  cases hopen'
  obtain ⟨st, hst, hdir⟩ := h.stat
  obtain ⟨-, hst'⟩ := hg.parseStat_eq h.root.value hst
  obtain ⟨hroot, hheader⟩ := h.root.grown h.header ht hr hg
  have hslot := slot_write_same hoff (by rw [length_residentPlan hres, length_recordAt h.read]) hw
  obtain ⟨⟨-, hlt, -⟩, -⟩ := prepared_claims hplaced.prepared
  refine ⟨r, a.reread r, ⟨recordAt_eq_ok.mpr ⟨bytes, hslot, hopen⟩, hroot, ?_, hheader, _, hst',
    hdir⟩, indexEntries_inserted h.root.index hg.index hne (by omega)⟩
  rw [findAttributeOffset_grown h.root ht hr hg]
  exact h.alone

end ResidentDirectory

end SmallOs.Ntfs
