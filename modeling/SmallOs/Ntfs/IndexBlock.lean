import SmallOs.Ntfs.Slots
import SmallOs.Ntfs.Entries
import SmallOs.Ntfs.NewRecord

/-!
# Index blocks

The header of an index block holds three `u32` fields from offset 24 on, as the header of a resident
root does. `add_to_external_index` reads three `u16` fields there instead, so that the halves of the
first-entry offset stand for the first-entry offset and the total size, and the low half of the
total size for the allocated size.
-/

namespace SmallOs.Ntfs

open SmallOs.Base SmallOs.Hal

/-! ### Well-formed blocks -/

/-- The block without its fixups; `lib/vfs/src/fs/ntfs/index.rs:228–252`. -/
def restoreBlock (idxBuf : List UInt8) : Outcome NtfsError (List UInt8) := do
  let signature ← sliceAt idxBuf 0 4
  Outcome.ensure (signature = [0x49, 0x4E, 0x44, 0x58]) .corruptedFilesystem
  let uso ← uintAt idxBuf 4 2
  let usc ← uintAt idxBuf 6 2
  Outcome.ensure (24 ≤ uso ∧ usc ≠ 0 ∧ uso + 2 * usc ≤ idxBuf.length) .corruptedFilesystem
  let seq := slice idxBuf uso 2
  (List.range' 1 (usc - 1)).foldlM (applyFixup uso (leNat seq) 512) idxBuf

/-- The first entry of a block. -/
def blockFirst (block : List UInt8) : Nat := 24 + leAt block 24 4

/-- The end of the entries of a block, its end marker included. -/
def blockEnd (block : List UInt8) : Nat := 24 + leAt block 28 4

/-- The entries of a block. -/
def blockEntries (block : List UInt8) : List IndexEntry :=
  entriesFrom block (blockEnd block) (blockFirst block)

/-- An index block as it is stored, and without its fixups. -/
structure WellFormedBlock (stored block : List UInt8) : Prop where
  restored : restoreBlock stored = .ok block
  array : 40 ≤ leAt stored 4 2 ∧ leAt stored 4 2 + 2 * leAt stored 6 2 + 2 ≤ 512
  behind : leAt stored 4 2 + 2 * leAt stored 6 2 ≤ blockFirst block
  entries : EntriesTo block (blockEnd block - 16) (blockFirst block)
  marker : leAt block (blockEnd block - 8) 2 = 16 ∧
    (leAt block (blockEnd block - 4) 2).testBit 1 = true
  allocated : leAt block 28 4 ≤ leAt block 32 4
  inside : 24 + leAt block 32 4 ≤ block.length

/-- The byte belongs to the update sequence array of the stored block. -/
def InBlockArray (stored : List UInt8) (p : Nat) : Prop :=
  leAt stored 4 2 ≤ p ∧ p < leAt stored 4 2 + 2 * leAt stored 6 2

section Device

variable {driver : NtfsDriver} {d : ByteStore} {record stored block : List UInt8}
  {parent : NtfsFile} {child off size : Nat} {name : List Char}

/-- What inserting into a block is to do. -/
structure InsertsInto (driver : NtfsDriver) (d : ByteStore) (record : List UInt8)
    (parent : NtfsFile) (child : Nat) (name : List Char) (off : Nat) (stored block : List UInt8) :
    Prop where
  no_panic : (addToExternalIndex driver record parent child name d).1 ≠ .panic
  returned : ∀ d', addToExternalIndex driver record parent child name d = (.ok (), d') →
    ∃ stored' block', d'.read off stored.length = some stored' ∧ restoreBlock stored' = .ok block' ∧
      blockEntries block' = blockEntries block ++ [⟨child, some (shownName name)⟩] ∧
      ∀ p, p < blockFirst block → p < 28 ∨ 32 ≤ p → ¬ InBlockArray stored p → block'[p]? = block[p]?
  refused : ∀ e d', addToExternalIndex driver record parent child name d = (.err e, d') → d' = d

/-! ### What the inserter takes for the header -/

/-- Where the inserter puts the entry: sixteen bytes in front of what it takes for the end. -/
def takenEnd (block : List UInt8) : Nat := 24 + leAt block 24 2 + leAt block 26 2 - 16

/-- The block with the entry, before it is marked again. -/
def enteredBlock (block : List UInt8) (parent child : Nat) (name : List Char) : List UInt8 :=
  splice (splice (splice block (takenEnd block + entryLenAligned name)
    (slice block (takenEnd block) 16)) (takenEnd block) (newEntry parent child name)) 26
    (leBytes 2 (leAt block 26 2 + entryLenAligned name))

theorem restoreBlock_eq_ok : restoreBlock stored = .ok block ↔
    4 ≤ stored.length ∧ slice stored 0 4 = [0x49, 0x4E, 0x44, 0x58] ∧ 8 ≤ stored.length ∧
      (24 ≤ leAt stored 4 2 ∧ leAt stored 6 2 ≠ 0 ∧
        leAt stored 4 2 + 2 * leAt stored 6 2 ≤ stored.length) ∧
      (List.range' 1 (leAt stored 6 2 - 1)).foldlM (applyFixup (leAt stored 4 2)
        (leNat (slice stored (leAt stored 4 2) 2)) 512) stored = .ok block := by
  simp only [restoreBlock, Outcome.bind_eq_ok, sliceAt_eq_ok, uintAt_eq_ok, Outcome.ensure_eq_ok]
  constructor
  · rintro ⟨_, ⟨h₁, rfl⟩, -, h₂, _, ⟨-, rfl⟩, _, ⟨h₃, rfl⟩, -, h₄, h₅⟩
    exact ⟨by omega, h₂, h₃, h₄, h₅⟩
  · rintro ⟨h₁, h₂, h₃, h₄, h₅⟩
    exact ⟨_, ⟨by omega, rfl⟩, (), h₂, _, ⟨by omega, rfl⟩, _, ⟨h₃, rfl⟩, (), h₄, h₅⟩

theorem length_restoreBlock (h : restoreBlock stored = .ok block) :
    block.length = stored.length := by
  obtain ⟨-, -, -, ⟨-, -, hfit⟩, hfold⟩ := restoreBlock_eq_ok.mp h
  exact length_foldlM_applyFixup hfit hfold

/-- The halves of the first-entry offset. -/
theorem leAt_halves (hlen : 28 ≤ block.length) :
    leAt block 24 4 = leAt block 24 2 + 65536 * leAt block 26 2 := by
  rw [leAt, show 4 = 2 + 2 from rfl, slice_add, leNat_append, length_slice _ _ _ (by omega)]
  rfl

/-- How the insertion into a well-formed block ends. -/
theorem insertExternal_cases (h : WellFormedBlock stored block) (parent child : Nat)
    (name : List Char) :
    insertExternal stored parent child name =
      if leAt block 28 2 < leAt block 26 2 + entryLenAligned name then .err .noSpace
      else if takenEnd block + entryLenAligned name + 16 ≤ block.length then
        (List.range' 1 (leAt stored 6 2 - 1)).foldlM
          (reapplyFixup (leAt stored 4 2) (slice stored (leAt stored 4 2) 2) 512)
          (enteredBlock block parent child name)
      else .panic := by
  obtain ⟨h4, hsig, h8, harray, hfold⟩ := restoreBlock_eq_ok.mp h.restored
  have hinside := h.inside
  have hallocated := h.allocated
  have hentries := h.entries.le
  rw [blockFirst, blockEnd] at hentries
  have hhalves : leAt block 24 4 = leAt block 24 2 + 65536 * leAt block 26 2 :=
    leAt_halves (by omega)
  rw [insertExternal, sliceAt_of (by omega), Outcome.ok_bind, Outcome.ensure_of hsig,
    Outcome.ok_bind, uintAt_of (by omega), Outcome.ok_bind, uintAt_of (by omega), Outcome.ok_bind,
    Outcome.ensure_of harray, Outcome.ok_bind]
  dsimp only
  rw [hfold, Outcome.ok_bind, Outcome.ensure_of (by omega), Outcome.ok_bind,
    Outcome.ensure_of (by omega), Outcome.ok_bind]
  by_cases hspace : leAt block 26 2 + entryLenAligned name ≤ leAt block 28 2
  · rw [if_neg (by omega), Outcome.ensure_of hspace, Outcome.ok_bind]
    by_cases hfits : takenEnd block + entryLenAligned name + 16 ≤ block.length
    · rw [if_pos hfits, takenEnd] at *
      rw [Outcome.assert_of hfits]
      rfl
    · rw [if_neg hfits]
      rw [takenEnd] at hfits
      rw [Outcome.assert_not hfits]
      rfl
  · rw [if_pos (by omega), Outcome.ensure_not hspace]
    rfl

/-- Fixups change nothing in front of the end of the first sector. -/
theorem slice_restoreBlock (h : restoreBlock stored = .ok block) {k n : Nat} (hk : k + n ≤ 510) :
    slice block k n = slice stored k n := by
  obtain ⟨-, -, -, ⟨-, -, hfit⟩, hfold⟩ := restoreBlock_eq_ok.mp h
  have hkept := Outcome.foldlM_invariant
    (P := fun b : List UInt8 ↦ b.length = stored.length ∧ slice b k n = slice stored k n)
    (fun b i b' hi hb hstep ↦ by
      obtain ⟨h₁, h₂, -, rfl⟩ := applyFixup_eq_ok.mp hstep
      simp only [List.mem_range'_1] at hi
      have hword : (slice b (leAt stored 4 2 + i * 2) 2).length = 2 :=
        length_slice _ _ _ (by omega)
      rw [length_splice _ _ _ (by omega), slice_splice_disjoint _ _ _ _ _ (by omega)
        (.inl (by omega))]
      exact hb) ⟨rfl, rfl⟩ hfold
  exact hkept.2

/-- The sectors of the array lie in the block. -/
theorem sectors_restoreBlock (h : restoreBlock stored = .ok block) {i : Nat} (h₁ : 1 ≤ i)
    (h₂ : i < leAt stored 6 2) : i * 512 ≤ stored.length := by
  obtain ⟨-, -, -, ⟨-, -, hfit⟩, hfold⟩ := restoreBlock_eq_ok.mp h
  have hmem : i ∈ List.range' 1 (leAt stored 6 2 - 1) := by
    rw [List.mem_range'_1]
    omega
  obtain ⟨b, b', hb, hstep⟩ := Outcome.foldlM_of_mem
    (P := fun b : List UInt8 ↦ b.length = stored.length)
    (fun b i b' hb hstep ↦ by
      obtain ⟨-, h₂, -, rfl⟩ := applyFixup_eq_ok.mp hstep
      have hword := length_slice_le b (leAt stored 4 2 + i * 2) 2
      rw [length_splice _ _ _ (by omega), hb]) rfl hfold hmem
  obtain ⟨-, hle, -⟩ := applyFixup_eq_ok.mp hstep
  omega

theorem length_enteredBlock (parent child : Nat)
    (hfits : takenEnd block + entryLenAligned name + 16 ≤ block.length)
    (hlong : 28 ≤ block.length) :
    (splice (splice block (takenEnd block + entryLenAligned name)
      (slice block (takenEnd block) 16)) (takenEnd block) (newEntry parent child name)).length =
        block.length ∧ (enteredBlock block parent child name).length = block.length := by
  have hmoved := length_slice_le block (takenEnd block) 16
  have hentry := length_newEntry parent child name
  have hlen : (splice (splice block (takenEnd block + entryLenAligned name)
      (slice block (takenEnd block) 16)) (takenEnd block) (newEntry parent child name)).length =
      block.length := by
    rw [length_splice, length_splice _ _ _ (by omega)]
    rw [length_splice _ _ _ (by omega), hentry]
    omega
  refine ⟨hlen, ?_⟩
  rw [enteredBlock, length_splice _ _ _ (by rw [hlen, length_leBytes]; omega), hlen]

/-- The entered block is marked again, and the field at offset 26 is as the inserter set it. -/
theorem mark_enteredBlock (h : WellFormedBlock stored block) (parent child : Nat)
    (hfits : takenEnd block + entryLenAligned name + 16 ≤ block.length) :
    Outcome.Returns ((List.range' 1 (leAt stored 6 2 - 1)).foldlM
        (reapplyFixup (leAt stored 4 2) (slice stored (leAt stored 4 2) 2) 512)
        (enteredBlock block parent child name))
      (fun r ↦ r.length = stored.length ∧
        slice r 26 2 = leBytes 2 (leAt block 26 2 + entryLenAligned name)) := by
  obtain ⟨-, -, -, ⟨-, -, hfit⟩, -⟩ := restoreBlock_eq_ok.mp h.restored
  have harray := h.array
  have hinside := h.inside
  have hallocated := h.allocated
  have hentries := h.entries.le
  have hbehind := h.behind
  rw [blockFirst] at hbehind hentries
  rw [blockEnd] at hentries
  have hlen := length_restoreBlock h.restored
  obtain ⟨hplaced, hentered⟩ := length_enteredBlock parent child hfits (by omega)
  have hseq : (slice stored (leAt stored 4 2) 2).length = 2 := length_slice _ _ _ (by omega)
  apply Outcome.returns_foldlM
  · rintro b i hi ⟨hb, hfield⟩
    rw [List.mem_range'_1] at hi
    have hsector := sectors_restoreBlock h.restored hi.1 (by omega)
    have hword : (slice b (i * 512 - 2) 2).length = 2 := length_slice _ _ _ (by omega)
    have hfirst : (splice b (leAt stored 4 2 + i * 2) (slice b (i * 512 - 2) 2)).length =
        b.length :=
      length_splice _ _ _ (by omega)
    refine ⟨_, reapplyFixup_eq_ok.mpr ⟨by omega, by omega, rfl⟩, ?_, ?_⟩
    · rw [length_splice _ _ _ (by omega), hfirst, hb]
    · rw [slice_splice_disjoint _ _ _ _ _ (by omega) (.inl (by omega)),
        slice_splice_disjoint _ _ _ _ _ (by omega) (.inl (by omega)), hfield]
  · refine ⟨hentered.trans hlen, ?_⟩
    have hsame := slice_splice_same (splice (splice block (takenEnd block + entryLenAligned name)
      (slice block (takenEnd block) 16)) (takenEnd block) (newEntry parent child name)) 26
      (leBytes 2 (leAt block 26 2 + entryLenAligned name)) (by rw [hplaced, length_leBytes]; omega)
    rwa [length_leBytes] at hsame

/-! ### Insertion -/

/-- The inserter carries out its plan for the block that it has read. -/
theorem addToExternalIndex_of_read (hlocate : locateExternal driver.boot record = .ok (off, size))
    (hread : d.read off size = some stored) :
    addToExternalIndex driver record parent child name d =
      commit ((off, ·) <$> insertExternal stored parent.recordNumber child name) d := by
  rw [addToExternalIndex_byteStore, externalPlan, hlocate, Outcome.ok_bind]
  dsimp only
  rw [hread, map_eq_pure_bind]
  rfl

/-- With room for the entry, by what the inserter takes for the sizes, the insertion panics or
changes the upper half of the first-entry offset. -/
theorem not_insertsInto (hlocate : locateExternal driver.boot record = .ok (off, size))
    (hread : d.read off size = some stored) (h : WellFormedBlock stored block)
    (hroom : leAt block 26 2 + entryLenAligned name ≤ leAt block 28 2) :
    ¬ InsertsInto driver d record parent child name off stored block := by
  intro hinserts
  have hcases := insertExternal_cases h parent.recordNumber child name
  rw [if_neg (by omega)] at hcases
  have hcall : addToExternalIndex driver record parent child name d =
      commit ((off, ·) <$> insertExternal stored parent.recordNumber child name) d :=
    addToExternalIndex_of_read hlocate hread
  by_cases hfits : takenEnd block + entryLenAligned name + 16 ≤ block.length
  swap
  · rw [if_neg hfits] at hcases
    apply hinserts.no_panic
    rw [hcall, hcases]
    rfl
  rw [if_pos hfits] at hcases
  obtain ⟨r, hr, hlen, hfield⟩ := mark_enteredBlock h parent.recordNumber child hfits
  obtain ⟨hle, hstored⟩ := ByteStore.read_eq_some.mp hread
  have hsize : stored.length = size := by rw [← hstored, length_slice _ _ _ hle]
  obtain ⟨d', hw, -⟩ := ByteStore.write_of_le d off r (by omega)
  obtain ⟨stored', block', hread', hrestored, -, hkept⟩ := hinserts.returned d' (by
    rw [hcall, hcases, hr]
    exact writeBlocks_of_write hw)
  have hback := ByteStore.read_write_same hw
  rw [hlen, hread'] at hback
  cases hback
  -- The inserter's total size has taken the place of the upper half of the offset.
  have harray := h.array
  have hbehind := h.behind
  have hupper : leAt block' 26 2 = leAt block 26 2 + entryLenAligned name := by
    have hlt : leAt block 28 2 < 65536 := leAt_lt _ _ _
    apply leAt_of_slice _ (show leAt block 26 2 + entryLenAligned name < 65536 by omega)
    rw [slice_restoreBlock hrestored (by decide), hfield]
  have hsame : leAt block' 26 2 = leAt block 26 2 := by
    apply leAt_congr
    intro p h₁ h₂
    apply hkept p (by omega) (.inl h₂)
    rintro ⟨h₃, -⟩
    omega
  have hpos : 0 < entryLenAligned name := by
    rw [entryLenAligned]
    omega
  omega

/-- Inserting into a well-formed block does what it is to do exactly when it finds no space, by
what it takes for the sizes. -/
theorem insertsInto_iff (hlocate : locateExternal driver.boot record = .ok (off, size))
    (hread : d.read off size = some stored) (h : WellFormedBlock stored block) :
    InsertsInto driver d record parent child name off stored block ↔
      leAt block 28 2 < leAt block 26 2 + entryLenAligned name := by
  constructor
  · intro hinserts
    by_contra hroom
    exact not_insertsInto hlocate hread h (by omega) hinserts
  · intro hspace
    have hcall : addToExternalIndex driver record parent child name d = (.err .noSpace, d) := by
      rw [addToExternalIndex_of_read hlocate hread, insertExternal_cases h, if_pos hspace]
      rfl
    refine ⟨?_, ?_, ?_⟩
    · rw [hcall]
      nofun
    · intro d' hok
      rw [hcall] at hok
      cases hok
    · intro e d' herr
      rw [hcall] at herr
      cases herr
      rfl

end Device

/-! ### Small blocks -/

/-- An index block of two sectors with the given entries and room for more. -/
def smallBlock (entries : List UInt8) : List UInt8 :=
  [0x49, 0x4E, 0x44, 0x58] ++ (leBytes 2 40 ++ (leBytes 2 3 ++ (List.replicate 16 0 ++
    (leBytes 4 24 ++ (leBytes 4 (40 + entries.length) ++ (leBytes 4 1000 ++ (List.replicate 12 0 ++
      (entries ++ (leBytes 8 0 ++ (leBytes 2 16 ++ (leBytes 2 0 ++ (leBytes 2 2 ++
        List.replicate (962 - entries.length) 0))))))))))))

theorem length_smallBlock {entries : List UInt8} (h : entries.length ≤ 962) :
    (smallBlock entries).length = 1024 := by
  simp only [smallBlock, List.length_append, length_leBytes, List.length_replicate,
    List.length_cons, List.length_nil]
  omega

/-- A small block with zeros up to both sector ends is stored as it is. -/
theorem restoreBlock_smallBlock {entries : List UInt8} (h : entries.length ≤ 448) :
    restoreBlock (smallBlock entries) = .ok (smallBlock entries) := by
  have hl : (smallBlock entries).length = 1024 := length_smallBlock (by omega)
  have hzeros : List.replicate (962 - entries.length) 0 <:+ smallBlock entries := by
    unfold smallBlock
    repeat apply List.suffix_append_of_suffix
    exact List.suffix_rfl
  have hfirst : slice (smallBlock entries) 510 2 = [0, 0] :=
    slice_of_suffix hzeros (by omega) (by omega)
  have hsecond : slice (smallBlock entries) 1022 2 = [0, 0] :=
    slice_of_suffix hzeros (by omega) (by omega)
  have huso : leAt (smallBlock entries) 4 2 = 40 := rfl
  have husc : leAt (smallBlock entries) 6 2 = 3 := rfl
  have hwords : slice (smallBlock entries) 40 2 = [0, 0] ∧ slice (smallBlock entries) 42 2 = [0, 0] ∧
      slice (smallBlock entries) 44 2 = [0, 0] := ⟨rfl, rfl, rfl⟩
  refine restoreBlock_eq_ok.mpr ⟨by omega, rfl, by omega, by omega, ?_⟩
  apply foldlM_applyFixup_same (by decide) (by omega)
  rw [huso, husc]
  intro i h₁ h₂
  obtain rfl | rfl : i = 1 ∨ i = 2 := by omega
  · exact ⟨by rw [leAt, hfirst, hwords.1], by rw [hwords.2.1, hfirst]⟩
  · exact ⟨by rw [leAt, hsecond, hwords.1], by rw [hwords.2.2, hsecond]⟩

/-- A directory whose index block is cluster 10. -/
def blockDirectory : List UInt8 :=
  recordHeader 0 1024 208 ++ (residentAttr 0x90 0 (indexRootValue 1024) ++ (leBytes 4 0xA0 ++
    (leBytes 4 72 ++ (leBytes 1 1 ++ (List.replicate 23 0 ++ (leBytes 2 64 ++
      (List.replicate 6 0 ++ (leBytes 8 1024 ++ (leBytes 8 1024 ++ (leBytes 8 1024 ++
        ([0x11, 1, 10] ++ (List.replicate 5 0 ++ (leBytes 4 0xFFFFFFFF ++
          List.replicate 820 0)))))))))))))

/-- The small volume with an index block in cluster 10. -/
def blockVolume (block : List UInt8) : ByteStore :=
  ((ByteStore.blank 512 36).write 10240 block).getD (ByteStore.blank 512 36)

theorem locateExternal_blockDirectory :
    locateExternal smallDriver.boot blockDirectory = .ok (10240, 1024) := by
  decide +kernel

theorem read_blockVolume {block : List UInt8} (hl : block.length = 1024) :
    (blockVolume block).read 10240 1024 = some block := by
  obtain ⟨d, hd, -⟩ := ByteStore.write_of_le (ByteStore.blank 512 36) 10240 block
    (by rw [ByteStore.length_eq_size, hl]; decide)
  have hread := ByteStore.read_write_same hd
  rw [hl] at hread
  rw [blockVolume, hd, Option.getD_some, hread]

/-- A block without entries takes none, and is unchanged. -/
theorem insertsInto_iff_empty : InsertsInto smallDriver (blockVolume (smallBlock [])) blockDirectory
    ⟨5⟩ 16 ['a'] 10240 (smallBlock []) (smallBlock []) := by
  have hfit : ([] : List UInt8).length ≤ 448 := Nat.zero_le 448
  have hl : (smallBlock []).length = 1024 := length_smallBlock (Nat.zero_le 962)
  have h : WellFormedBlock (smallBlock []) (smallBlock []) := by
    refine ⟨restoreBlock_smallBlock hfit, by decide, by decide, ?_, by decide, by decide, ?_⟩
    · have hfirst : blockFirst (smallBlock []) = 48 := by decide
      have hend : blockEnd (smallBlock []) - 16 = 48 := by decide
      rw [hfirst, hend]
      exact .done
    · rw [hl]
      decide
  apply (insertsInto_iff locateExternal_blockDirectory (read_blockVolume hl) h).mpr
  decide

/-- A block with one entry has room for another, and its header is damaged. -/
theorem insertsInto_fails : ¬ InsertsInto smallDriver
    (blockVolume (smallBlock (newEntry 5 7 ['b']))) blockDirectory ⟨5⟩ 16 ['a'] 10240
    (smallBlock (newEntry 5 7 ['b'])) (smallBlock (newEntry 5 7 ['b'])) := by
  have hfit : (newEntry 5 7 ['b']).length ≤ 448 := by
    rw [length_newEntry]
    decide
  have hl : (smallBlock (newEntry 5 7 ['b'])).length = 1024 := length_smallBlock (by omega)
  have h : WellFormedBlock (smallBlock (newEntry 5 7 ['b'])) (smallBlock (newEntry 5 7 ['b'])) := by
    refine ⟨restoreBlock_smallBlock hfit, by decide, by decide, ?_, by decide, by decide, ?_⟩
    · have hfirst : blockFirst (smallBlock (newEntry 5 7 ['b'])) = 48 := by decide
      have hend : blockEnd (smallBlock (newEntry 5 7 ['b'])) - 16 = 136 := by decide
      have hlen : 48 + leAt (smallBlock (newEntry 5 7 ['b'])) (48 + 8) 2 = 136 := by decide
      rw [hfirst, hend]
      exact .entry (by decide) (by decide) (hlen ▸ .done)
    · rw [hl]
      decide
  exact not_insertsInto locateExternal_blockDirectory (read_blockVolume hl) h (by decide)

end SmallOs.Ntfs
