import Mathlib.Data.List.TakeWhile
import SmallOs.Ntfs.Index

/-!
# Entries of an index

What the scan of a directory index makes of an entry that an inserter wrote. The inserter writes
a name in UTF-16, the scan shows each unit outside of ASCII as `?` and stops at a zero unit.
-/

namespace SmallOs.Ntfs

open SmallOs.Base

/-! ### Names -/

/-- A name as the scan of an index shows it. -/
def shownName (name : List Char) : List Char := ((nameUtf16 name).takeWhile (· ≠ 0)).map decodeUnit

/-- Every character of the name is in ASCII, and none is NUL. -/
def PlainName (name : List Char) : Prop := ∀ c ∈ name, c.toNat ≠ 0 ∧ c.toNat < 128

instance (name : List Char) : Decidable (PlainName name) :=
  List.decidableBAll (fun c : Char ↦ c.toNat ≠ 0 ∧ c.toNat < 128) name

theorem toNat_decodeUnit {unit : Nat} (h : unit ≠ 0) :
    (decodeUnit unit).toNat ≠ 0 ∧ (decodeUnit unit).toNat < 128 := by
  unfold decodeUnit
  split
  · next hlt =>
    have hvalid : unit.isValidChar := .inl (by omega)
    have hunit : (Char.ofNat unit).toNat = unit := by
      rw [Char.ofNat, dif_pos hvalid]
      rfl
    rw [hunit]
    exact ⟨h, hlt⟩
  · decide

theorem decodeUnit_toNat {c : Char} (h : c.toNat < 128) : decodeUnit c.toNat = c := by
  rw [decodeUnit, if_pos h, Char.ofNat_toNat]

/-- A shown name is a plain one. -/
theorem plainName_shownName (name : List Char) : PlainName (shownName name) := by
  intro c hc
  obtain ⟨unit, hu, rfl⟩ := List.mem_map.mp hc
  have hne := List.mem_takeWhile_imp hu
  exact toNat_decodeUnit (by simpa using hne)

theorem nameUtf16_of_plainName {name : List Char} (h : PlainName name) :
    nameUtf16 name = name.map Char.toNat := by
  induction name with
  | nil => rfl
  | cons c name ih =>
    obtain ⟨-, hlt⟩ := h c List.mem_cons_self
    rw [nameUtf16, List.flatMap_cons, encodeUtf16, if_pos (by omega)]
    exact congrArg (c.toNat :: ·) (ih fun b hb ↦ h b (List.mem_cons_of_mem _ hb))

/-- The scan shows exactly the plain names as they are. -/
theorem shownName_eq_iff {name : List Char} : shownName name = name ↔ PlainName name := by
  constructor
  · intro h
    rw [← h]
    exact plainName_shownName name
  · intro h
    have hall : (name.map Char.toNat).takeWhile (· ≠ 0) = name.map Char.toNat := by
      apply List.takeWhile_eq_self_iff.mpr
      intro unit hu
      obtain ⟨c, hc, rfl⟩ := List.mem_map.mp hu
      exact decide_eq_true (h c hc).1
    have hdecode : name.map (decodeUnit ∘ Char.toNat) = name.map id := by
      apply List.map_congr_left
      intro c hc
      exact decodeUnit_toNat (h c hc).2
    rw [shownName, nameUtf16_of_plainName h, hall, List.map_map, hdecode, List.map_id]

theorem encodeUtf16_ne_nil (c : Char) : encodeUtf16 c ≠ [] := by
  unfold encodeUtf16
  split
  · exact List.cons_ne_nil _ _
  · exact List.cons_ne_nil _ _

theorem nameUtf16_length_pos {name : List Char} (h : name ≠ []) : 0 < (nameUtf16 name).length := by
  cases name with
  | nil => exact absurd rfl h
  | cons c name =>
    have hc := List.length_pos_iff.mpr (encodeUtf16_ne_nil c)
    rw [nameUtf16, List.flatMap_cons, List.length_append]
    omega

/-- A unit has sixteen bits. -/
theorem lt_of_mem_nameUtf16 {name : List Char} {unit : Nat} (h : unit ∈ nameUtf16 name) :
    unit < 65536 := by
  obtain ⟨c, -, hu⟩ := List.mem_flatMap.mp h
  have hc : c.toNat < 0x110000 := by
    rcases c.valid with hlow | ⟨-, hhigh⟩
    · exact Nat.lt_trans hlow (by decide)
    · exact hhigh
  unfold encodeUtf16 at hu
  split at hu
  · rw [List.mem_singleton.mp hu]
    assumption
  · rcases List.mem_cons.mp hu with rfl | hu
    · omega
    · rw [List.mem_singleton.mp hu]
      omega

/-! ### The fields of a written entry -/

/-- The front of a key, up to the units of its name. -/
def keyFront (parent units : Nat) : List UInt8 :=
  leBytes 8 parent ++ (List.replicate 48 0 ++ (leBytes 4 0x10 ++ (List.replicate 4 0 ++
    (leBytes 1 units ++ leBytes 1 1))))

theorem length_keyFront (parent units : Nat) : (keyFront parent units).length = 66 := by
  simp [keyFront]

theorem entryKey_eq (parent : Nat) (name : List Char) : entryKey parent name =
    keyFront parent (nameUtf16 name).length ++ (nameUtf16 name).flatMap (leBytes 2) := by
  simp only [entryKey, keyFront, List.append_assoc]

theorem getD_keyFront (parent units : Nat) (rest : List UInt8) (h : units < 256) :
    ((keyFront parent units ++ rest).getD 0x40 0).toNat = units := by
  have hbyte : (keyFront parent units ++ rest)[0x40]? = some (UInt8.ofNat (units % 256)) := by
    rw [List.getElem?_append_left (by rw [length_keyFront]; decide), keyFront,
      List.getElem?_append_right (by simp), List.getElem?_append_right (by simp),
      List.getElem?_append_right (by simp), List.getElem?_append_right (by simp)]
    simp [leBytes]
  rw [List.getD_eq_getElem?_getD, hbyte, Option.getD_some, UInt8.toNat_ofNat']
  omega

/-- The parser on data that hold the units of a name and their number. -/
theorem parseNameAndParent_of_units {data : List UInt8} {name : List Char}
    (hwide : 0x44 ≤ data.length)
    (hcount : (data.getD 0x40 0).toNat = (nameUtf16 name).length)
    (hunits : slice data 0x42 ((nameUtf16 name).length * 2) =
    (nameUtf16 name).flatMap (leBytes 2)) :
    parseNameAndParent data 0x42 = some (shownName name, leAt data 0 8) := by
  have hwidth := length_flatMap_const (leBytes 2) 2 (fun _ ↦ length_leBytes _ _) (nameUtf16 name)
  have hfit : (nameUtf16 name).length * 2 ≤ data.length - 0x42 := by
    rw [← hwidth, ← hunits, slice, List.length_take, List.length_drop]
    exact Nat.min_le_right _ _
  have hread : ((List.range (nameUtf16 name).length).map fun i ↦ leAt data (0x42 + i * 2) 2) =
      nameUtf16 name := by
    apply List.ext_getElem
    · rw [List.length_map, List.length_range]
    · intro i h₁ h₂
      have hunit := lt_of_mem_nameUtf16 (List.getElem_mem h₂)
      rw [List.getElem_map, List.getElem_range]
      apply leAt_of_slice _ (by omega)
      rw [← slice_slice data 0x42 ((nameUtf16 name).length * 2) (i * 2) 2 (by omega), hunits]
      exact slice_flatMap (leBytes 2) 2 (fun _ ↦ length_leBytes _ _) _ _ h₂
  rw [parseNameAndParent, if_neg (by omega), hcount, if_neg (by omega), hread]
  rfl

/-- The scan's parser on the key of a new entry. -/
theorem parseFilenameFromKey_entryKey (parent : Nat) {name : List Char} (hne : name ≠ [])
    (hu : (nameUtf16 name).length < 256) :
    ∃ p, parseFilenameFromKey (entryKey parent name) = some (shownName name, p) := by
  have hpos := nameUtf16_length_pos hne
  have hlen : (entryKey parent name).length = 66 + (nameUtf16 name).length * 2 :=
    length_entryKey _ _
  have hwidth := length_flatMap_const (leBytes 2) 2 (fun _ ↦ length_leBytes _ _) (nameUtf16 name)
  refine ⟨leAt (entryKey parent name) 0 8, parseNameAndParent_of_units (by omega) ?_ ?_⟩
  · rw [entryKey_eq, getD_keyFront _ _ _ hu]
  · rw [entryKey_eq, slice_append_right _ _ _ _ (by rw [length_keyFront]), length_keyFront,
      Nat.sub_self]
    exact slice_all _ _ hwidth.symm

/-- The fields of a new entry. -/
theorem slice_newEntry (parent child : Nat) (name : List Char) :
    slice (newEntry parent child name) 0 8 = leBytes 8 child ∧
      slice (newEntry parent child name) 8 2 = leBytes 2 (entryLenAligned name) ∧
      slice (newEntry parent child name) 10 2 = leBytes 2 (keyLen name) ∧
      slice (newEntry parent child name) 12 2 = leBytes 2 0 ∧
      slice (newEntry parent child name) 16 (keyLen name) = entryKey parent name := by
  have hkey := length_entryKey parent name
  unfold newEntry
  refine ⟨?_, ?_, ?_, ?_, ?_⟩
  · simp (disch := simp) only [slice_append_left, slice_all]
  · simp (disch := simp) only [slice_append_right, slice_append_left, slice_all, length_leBytes,
      Nat.reduceSub]
  · simp (disch := simp) only [slice_append_right, slice_append_left, slice_all, length_leBytes,
      Nat.reduceSub]
  · simp (disch := simp) only [slice_append_right, slice_append_left, slice_all, length_leBytes,
      Nat.reduceSub]
  · simp (disch := simp [hkey]) only [slice_append_right, slice_append_left, slice_all,
      length_leBytes, Nat.reduceSub]

/-- A window of an index that holds a new entry. -/
structure HoldsEntry (data : List UInt8) (off parent child : Nat) (name : List Char) : Prop where
  window : slice data off (entryLenAligned name) = newEntry parent child name
  units : (nameUtf16 name).length < 256

namespace HoldsEntry

variable {data : List UInt8} {off parent child : Nat} {name : List Char}

theorem keyLen_lt (h : HoldsEntry data off parent child name) :
    16 + keyLen name ≤ entryLenAligned name ∧ entryLenAligned name < 65536 := by
  have hu := h.units
  simp only [entryLenAligned, keyLen]
  omega

theorem fit (h : HoldsEntry data off parent child name) :
    off + entryLenAligned name ≤ data.length := by
  have hlen := congrArg List.length h.window
  have hpos := h.keyLen_lt
  rw [length_newEntry, slice, List.length_take, List.length_drop] at hlen
  omega

theorem leAt_size (h : HoldsEntry data off parent child name) :
    leAt data (off + 8) 2 = entryLenAligned name := by
  obtain ⟨hkey, hlt⟩ := h.keyLen_lt
  rw [leAt, slice_of_slice h.window (by omega), (slice_newEntry _ _ _).2.1,
    leNat_leBytes_of_lt (by omega)]

theorem leAt_keyLen (h : HoldsEntry data off parent child name) :
    leAt data (off + 10) 2 = keyLen name := by
  obtain ⟨hkey, hlt⟩ := h.keyLen_lt
  rw [leAt, slice_of_slice h.window (by omega), (slice_newEntry _ _ _).2.2.1,
    leNat_leBytes_of_lt (by omega)]

/-- The new entry is not taken for an end marker. -/
theorem leAt_flags (h : HoldsEntry data off parent child name) : leAt data (off + 12) 2 = 0 := by
  obtain ⟨hkey, -⟩ := h.keyLen_lt
  have hpos : 66 ≤ keyLen name := Nat.le_add_right _ _
  rw [leAt, slice_of_slice h.window (by omega), (slice_newEntry _ _ _).2.2.2.1]
  rfl

/-- The scan passes the new entry with the number of its file and the shown name. -/
theorem indexEntryAt_eq (h : HoldsEntry data off parent child name) (hne : name ≠ [])
    (hc : child < 2 ^ 64) : indexEntryAt data off = ⟨child, some (shownName name)⟩ := by
  obtain ⟨hkey, -⟩ := h.keyLen_lt
  have hfit := h.fit
  have hpos : 66 ≤ keyLen name := Nat.le_add_right _ _
  have hchild : leAt data off 8 = child := by
    have hslice := slice_of_slice h.window (show 0 + 8 ≤ entryLenAligned name by omega)
    rw [Nat.add_zero] at hslice
    rw [leAt, hslice, (slice_newEntry _ _ _).1, leNat_leBytes_of_lt hc]
  obtain ⟨p, hparse⟩ := parseFilenameFromKey_entryKey parent hne h.units
  unfold indexEntryAt
  simp only [hchild, h.leAt_keyLen]
  rw [if_pos (by omega), slice_of_slice h.window hkey, (slice_newEntry _ _ _).2.2.2.2, hparse]
  rfl

end HoldsEntry

/-! ### Scanning an index that has grown -/

/-- From an offset on, entries lie one behind the other up to `fin`, each with its key inside. -/
inductive EntriesTo (data : List UInt8) (fin : Nat) : Nat → Prop where
  | done : EntriesTo data fin fin
  | entry {off : Nat} :
      16 + leAt data (off + 10) 2 ≤ leAt data (off + 8) 2 →
      (leAt data (off + 12) 2).testBit 1 = false →
      EntriesTo data fin (off + leAt data (off + 8) 2) → EntriesTo data fin off

theorem EntriesTo.le {data : List UInt8} {fin off : Nat} (h : EntriesTo data fin off) :
    off ≤ fin := by
  induction h with
  | done => exact Nat.le_refl _
  | entry hkey hflag hrest ih => omega

/-- An entry reads the same where its bytes are the same. -/
theorem indexEntryAt_congr {data data' : List UInt8} {off fin : Nat}
    (hkey : 16 + leAt data (off + 10) 2 ≤ leAt data (off + 8) 2)
    (hfin : off + leAt data (off + 8) 2 ≤ fin) (hl : fin ≤ data.length) (hl' : fin ≤ data'.length)
    (hkeep : ∀ p, off ≤ p → p < fin → data'[p]? = data[p]?) :
    indexEntryAt data' off = indexEntryAt data off := by
  have hword : ∀ k n, k + n ≤ 16 → leAt data' (off + k) n = leAt data (off + k) n :=
    fun k n hk ↦ leAt_congr fun p h₁ h₂ ↦ hkeep p (by omega) (by omega)
  have hslice : slice data' (off + 16) (leAt data (off + 10) 2) =
      slice data (off + 16) (leAt data (off + 10) 2) :=
    slice_congr fun p h₁ h₂ ↦ hkeep p (by omega) (by omega)
  have href : leAt data' off 8 = leAt data off 8 := hword 0 8 (by decide)
  unfold indexEntryAt
  simp only [href, hword 10 2 (by decide), hslice]
  have hfit : off + 16 + leAt data (off + 10) 2 ≤ data.length := by omega
  have hfit' : off + 16 + leAt data (off + 10) 2 ≤ data'.length := by omega
  simp only [hfit, hfit']

/-- The scan stops at an end marker. -/
theorem entriesFrom_end {data : List UInt8} {fin : Nat} (hl : fin + 16 ≤ data.length)
    (hend : (leAt data (fin + 12) 2).testBit 1 = true) : entriesFrom data (fin + 16) fin = [] := by
  rw [entriesFrom, dif_pos (by omega), if_pos hend]

/-- The scan passes an entry and goes on behind it. -/
theorem entriesFrom_cons {data : List UInt8} {fin off : Nat} (hfit : off + 16 ≤ fin)
    (hl : fin ≤ data.length) (hflag : (leAt data (off + 12) 2).testBit 1 = false)
    (hpos : leAt data (off + 8) 2 ≠ 0) :
    entriesFrom data fin off =
      indexEntryAt data off :: entriesFrom data fin (off + leAt data (off + 8) 2) := by
  rw [entriesFrom, dif_pos (by omega), if_neg (by rw [hflag]; exact Bool.false_ne_true),
    dif_neg hpos]

/-- The index is well formed: behind the sizes in its header entries lie one behind the other up
to the sixteen bytes of an end marker. -/
structure PlainIndex (data : List UInt8) : Prop where
  start : 8 ≤ leAt data 16 4
  entries : EntriesTo data (leAt data 20 4) (16 + leAt data 16 4)
  fit : leAt data 20 4 + 16 ≤ data.length
  marker : (leAt data (leAt data 20 4 + 12) 2).testBit 1 = true

/-- The index after an insertion: a new entry in the place of the end marker, which follows it. -/
structure Inserted (data data' : List UInt8) (parent child : Nat) (name : List Char) : Prop where
  total : leAt data' 20 4 = leAt data 20 4 + entryLenAligned name
  kept : ∀ p, p < leAt data 20 4 → p < 20 ∨ 24 ≤ p → data'[p]? = data[p]?
  entry : HoldsEntry data' (leAt data 20 4) parent child name
  marker : slice data' (leAt data 20 4 + entryLenAligned name) 16 = slice data (leAt data 20 4) 16

/-- The scan of a well-formed index shows its entries as before, then the new one. -/
theorem indexEntries_inserted {data data' : List UInt8} {parent child : Nat} {name : List Char}
    (hp : PlainIndex data) (h : Inserted data data' parent child name) (hne : name ≠ [])
    (hc : child < 2 ^ 64) :
    indexEntries data' = indexEntries data ++ [⟨child, some (shownName name)⟩] := by
  obtain ⟨hstart, hentries, hfit, hmarker⟩ := hp
  obtain ⟨htotal, hkept, hentry, hmoved⟩ := h
  have hge := hentries.le
  obtain ⟨hkey, -⟩ := hentry.keyLen_lt
  have hfirst : leAt data' 16 4 = leAt data 16 4 :=
    leAt_congr fun p h₁ h₂ ↦ hkept p (by omega) (.inl (by omega))
  -- The moved end marker is all there, since it is as long as the old one.
  have hfit' : leAt data 20 4 + entryLenAligned name + 16 ≤ data'.length := by
    have hlen := congrArg List.length hmoved
    rw [length_slice _ _ _ hfit, slice, List.length_take, List.length_drop] at hlen
    omega
  have hmarker' : (leAt data' (leAt data 20 4 + entryLenAligned name + 12) 2).testBit 1 = true := by
    rw [leAt, slice_of_slice hmoved (by decide), slice_slice _ _ _ _ _ (by decide)]
    exact hmarker
  rw [indexEntries, indexEntries, if_neg (by omega), if_neg (by omega), htotal, hfirst]
  generalize leAt data 20 4 = fin at *
  have hscan : ∀ {off : Nat}, EntriesTo data fin off → 24 ≤ off →
      entriesFrom data' (fin + entryLenAligned name + 16) off =
        entriesFrom data (fin + 16) off ++ [⟨child, some (shownName name)⟩] := by
    intro off hoff
    induction hoff with
    | done =>
      intro _
      rw [entriesFrom_end hfit hmarker, entriesFrom_cons (by omega) hfit'
        (by rw [hentry.leAt_flags]; rfl) (by rw [hentry.leAt_size]; omega), hentry.leAt_size,
        entriesFrom_end hfit' hmarker', hentry.indexEntryAt_eq hne hc]
      rfl
    | entry hkeyIn hflag hrest ih =>
      next off =>
      intro hlow
      have hle := hrest.le
      have hkeep : ∀ p, off ≤ p → p < fin → data'[p]? = data[p]? :=
        fun p h₁ h₂ ↦ hkept p h₂ (.inr (by omega))
      have hword : ∀ k n, k + n ≤ 16 → leAt data' (off + k) n = leAt data (off + k) n :=
        fun k n hk ↦ leAt_congr fun p h₁ h₂ ↦ hkeep p (by omega) (by omega)
      rw [entriesFrom_cons (by omega) hfit' (by rw [hword 12 2 (by decide)]; exact hflag)
        (by rw [hword 8 2 (by decide)]; omega), hword 8 2 (by decide), ih (by omega),
        entriesFrom_cons (by omega) hfit hflag (by omega),
        indexEntryAt_congr hkeyIn hle (by omega) (by omega) hkeep]
      rfl
  rw [Nat.add_comm 16 (fin + entryLenAligned name), Nat.add_comm 16 fin]
  exact hscan hentries (by omega)

end SmallOs.Ntfs
