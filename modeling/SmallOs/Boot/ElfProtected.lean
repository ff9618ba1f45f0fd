import SmallOs.Boot.ElfSegments

/-!
# What the executable loader may overwrite

`elf_load` of `bootloader/stage3/src/elf_loader.c` looks at the start of a segment only, and only
below 0x20000, when it has stored the segments in front of it. The code and the data of the loader,
the page tables and the image lie above.
-/

namespace SmallOs.Boot

open SmallOs.Base

/-- The sizes of what the boot loader has in memory; the places are fixed. -/
structure Footprint where
  stage2 : Nat
  stage3 : Nat
  image : Nat

/-- The addresses of stage 2 and of what it has set up, of the stack and the code of stage 3, and
of the image in the scratch buffer; `bootloader/stage2/constants.asm:1–3`,
`bootloader/stage2/main.asm:2`, `bootloader/stage2/protected_mode/paging.asm` and
`bootloader/stage3/src/entry.asm:10`. -/
def Protected (f : Footprint) (m : Memory) (a : Nat) : Prop :=
  0x8000 ≤ a ∧ a < 0x8000 + f.stage2 ∨ 0xF000 ≤ a ∧ a < 0xFF80 ∨ 0x70000 ≤ a ∧ a < 0x80000 ∨
    0x1E0000 ≤ a ∧ a < 0x1F0000 ∨ 0x400000 ≤ a ∧ a < 0x400000 + f.stage3 ∨
    InImage m elfScratchAddr f.image a

/-- A segment of the image reaches a protected address. -/
def WouldOverwrite (f : Footprint) (m : Memory) : Prop :=
  ∃ i < phnum m elfScratchAddr, (phdrAt m elfScratchAddr i).IsLoad ∧
    ∃ b ∈ (phdrAt m elfScratchAddr i).offsets,
      Protected f m ((phdrAt m elfScratchAddr i).byteAddr b)

/-- No store reaches a protected address, and an image with a segment that does is rejected before
anything is stored. -/
structure LoaderSafe (f : Footprint) (m : Memory) : Prop where
  stores : ∀ x ∈ (elfLoad elfScratchAddr ⟨m, [], []⟩).2.stores, ¬Protected f m x.1
  rejects : WouldOverwrite f m → (elfLoad elfScratchAddr ⟨m, [], []⟩).1 = 0 ∧
    (elfLoad elfScratchAddr ⟨m, [], []⟩).2.stores = []

/-- A segment is refused, and those in front of it are empty. -/
def RefusedFirst (m : Memory) : Prop :=
  ∃ i < phnum m elfScratchAddr, (phdrAt m elfScratchAddr i).IsLoad ∧
    (phdrAt m elfScratchAddr i).Refused ∧ ∀ j < i, (phdrAt m elfScratchAddr j).IsLoad →
      (phdrAt m elfScratchAddr j).offsets = []

/-! ### The first store -/

section Header

variable {base a : Nat} {st : ElfState}

/-- An empty segment is passed over. -/
theorem loadSegment_of_empty (hl : (Elf64Phdr.ofMemory st.mem a).IsLoad)
    (hr : ¬(Elf64Phdr.ofMemory st.mem a).Refused)
    (hempty : (Elf64Phdr.ofMemory st.mem a).offsets = []) :
    ∃ reads, loadSegment base a st = (true, ⟨st.mem, reads, st.stores⟩) := by
  have hnone : ¬0 < max (Elf64Phdr.ofMemory st.mem a).pFilesz
      (Elf64Phdr.ofMemory st.mem a).pMemsz := by
    rw [← Elf64Phdr.mem_offsets, hempty]
    exact List.not_mem_nil
  obtain ⟨st₁, copied, hmem, hstores, hcopied, hload⟩ := @loadSegment_of_load base a st hl hr
  have hfilesz : leNat (st₁.mem.load (a + 32) 8) ≤ 0 := by
    rw [hmem]
    change (Elf64Phdr.ofMemory st.mem a).pFilesz ≤ 0
    omega
  obtain ⟨reads, hcopy⟩ := (storeLoop_copySegment a (Elf64Phdr.ofMemory st.mem a).destAddr
    ((base + (Elf64Phdr.ofMemory st.mem a).pOffset) % 2 ^ 64)).stop 0 st₁ hfilesz
  have hsame := hcopied.trans hcopy
  have hcmem : copied.mem = st.mem := by rw [hsame, hmem]
  have hcstores : copied.stores = st.stores := by rw [hsame, hstores]
  have hmemsz : leNat ((field (a + 32) 8 copied).2.mem.load (a + 40) 8) ≤
      (field (a + 32) 8 copied).1 := by
    rw [field_mem, hcmem]
    change (Elf64Phdr.ofMemory st.mem a).pMemsz ≤ _
    omega
  obtain ⟨reads', hzero⟩ := (storeLoop_zeroSegment a (Elf64Phdr.ofMemory st.mem a).destAddr).stop
    (field (a + 32) 8 copied).1 (field (a + 32) 8 copied).2 hmemsz
  refine ⟨reads', ?_⟩
  rw [hload, hzero, field_mem, field_stores, hcmem, hcstores]

/-- Any other segment that is not refused is stored, with a first byte. -/
theorem loadSegment_grows (hl : (Elf64Phdr.ofMemory st.mem a).IsLoad)
    (hr : ¬(Elf64Phdr.ofMemory st.mem a).Refused) :
    ∃ st' new, loadSegment base a st = (true, st') ∧ Stored st st' new ∧
      ((Elf64Phdr.ofMemory st.mem a).offsets ≠ [] → new ≠ []) := by
  obtain ⟨st₁, copied, hmem, hstores, hcopied, hload⟩ := @loadSegment_of_load base a st hl hr
  have hstart : Stored st st₁ [] := .same hstores hmem
  obtain ⟨new, hnew, hfirst⟩ := (storeLoop_copySegment a (Elf64Phdr.ofMemory st.mem a).destAddr
    ((base + (Elf64Phdr.ofMemory st.mem a).pOffset) % 2 ^ 64)).stored 0 st₁
  rw [← hcopied] at hnew
  obtain ⟨new', hnew', hfirst'⟩ := (storeLoop_zeroSegment a
    (Elf64Phdr.ofMemory st.mem a).destAddr).stored (field (a + 32) 8 copied).1
      (field (a + 32) 8 copied).2
  have hfield : Stored copied (field (a + 32) 8 copied).2 [] := .same rfl rfl
  refine ⟨_, _, hload, (hstart.trans hnew).trans (hfield.trans hnew'), ?_⟩
  intro hsome hnone
  obtain ⟨hcopyNone, hzeroNone⟩ := List.append_eq_nil_iff.mp hnone
  rw [List.nil_append] at hcopyNone hzeroNone
  obtain ⟨b, hb⟩ := List.exists_mem_of_ne_nil _ hsome
  have hlt := (Elf64Phdr.ofMemory st.mem a).mem_offsets.mp hb
  -- Without a byte from the file nothing has changed when the zeros are counted.
  have hfilesz : ¬0 < (Elf64Phdr.ofMemory st.mem a).pFilesz := by
    intro hpos
    rw [← hmem] at hpos
    exact hfirst hpos hcopyNone
  have hcmem : copied.mem = st.mem := by
    rw [hnew.mem, hcopyNone, hmem]
    rfl
  have hcount : (field (a + 32) 8 copied).1 = (Elf64Phdr.ofMemory st.mem a).pFilesz := by
    rw [field, hcmem]
    rfl
  apply hfirst' _ hzeroNone
  rw [hcount, field_mem, hcmem]
  change _ < (Elf64Phdr.ofMemory st.mem a).pMemsz
  omega

/-- What a header does to the state that the loop has. -/
theorem loadSegment_stored_some (base a : Nat) (st : ElfState) :
    ∃ new, Stored st (loadSegment base a st).2 new := by
  by_cases hl : (Elf64Phdr.ofMemory st.mem a).IsLoad
  · by_cases hr : (Elf64Phdr.ofMemory st.mem a).Refused
    · obtain ⟨reads, hload⟩ := @loadSegment_of_refused base a st hl hr
      rw [hload]
      exact ⟨[], .same rfl rfl⟩
    · obtain ⟨st', new, hload, hnew, -⟩ := @loadSegment_grows base a st hl hr
      rw [hload]
      exact ⟨new, hnew⟩
  · obtain ⟨reads, hload⟩ := @loadSegment_of_not_load base a st hl
    rw [hload]
    exact ⟨[], .same rfl rfl⟩

end Header

/-- The loop only adds to the stores. -/
theorem loadSegments_stored_some (base phdrs i : Nat) (st : ElfState) :
    ∃ new, Stored st (loadSegments base phdrs i st).2 new := by
  induction hk : 2 ^ 16 - i generalizing i st with
  | zero =>
    have hnum := leNat_lt (st.mem.load (base + 56) 2)
    rw [Memory.length_load] at hnum
    have hend : phnum st.mem base ≤ i := by
      rw [phnum]
      omega
    obtain ⟨reads, hstop⟩ := loadSegments_stop phdrs hend
    rw [hstop]
    exact ⟨[], .same rfl rfl⟩
  | succ k ih =>
    by_cases hi : i < phnum st.mem base
    · obtain ⟨st₁, hmem, hstores, hstep⟩ := loadSegments_step phdrs hi
      have hstart : Stored st st₁ [] := .same hstores hmem
      obtain ⟨new, hnew⟩ := loadSegment_stored_some base ((phdrs + 56 * i) % 2 ^ 64) st₁
      rw [hstep]
      cases hload : loadSegment base ((phdrs + 56 * i) % 2 ^ 64) st₁ with
      | mk accepted next =>
        rw [hload] at hnew
        cases accepted with
        | false => exact ⟨_, hstart.trans hnew⟩
        | true =>
          obtain ⟨rest, hrest⟩ := ih (i + 1) next (by omega)
          exact ⟨_, (hstart.trans hnew).trans hrest⟩
    · obtain ⟨reads, hstop⟩ := loadSegments_stop phdrs (Nat.le_of_not_lt hi)
      rw [hstop]
      exact ⟨[], .same rfl rfl⟩

section Run

variable {m : Memory} {base phdrs i : Nat} {st : ElfState}
  (hphdrs : phdrs = (base + leNat (m.load (base + 32) 8)) % 2 ^ 64) (hi : i < phnum m base)
  (hst : st.mem = m)

include hphdrs hi hst

/-- With nothing stored yet the loop sees the headers of the file. -/
theorem loadSegments_header : ∃ st₁, st₁.stores = st.stores ∧ st₁.mem = m ∧
    Elf64Phdr.ofMemory st₁.mem (phdrAddr m base i) = phdrAt m base i ∧
    loadSegments base phdrs i st = match loadSegment base (phdrAddr m base i) st₁ with
      | (false, next) => (false, next)
      | (true, next) => loadSegments base phdrs (i + 1) next := by
  obtain ⟨st₁, hmem, hstores, hstep⟩ := @loadSegments_step base i st phdrs (by rw [hst]; exact hi)
  have haddr : (phdrs + 56 * i) % 2 ^ 64 = phdrAddr m base i := by rw [hphdrs, phdrAddr]
  have hmem' : st₁.mem = m := hmem.trans hst
  rw [haddr] at hstep
  exact ⟨st₁, hstores, hmem', by rw [hmem', phdrAt], hstep⟩

theorem loadSegments_passes (h : (phdrAt m base i).IsLoad →
      ¬(phdrAt m base i).Refused ∧ (phdrAt m base i).offsets = []) :
    ∃ st', st'.mem = m ∧ st'.stores = st.stores ∧
      loadSegments base phdrs i st = loadSegments base phdrs (i + 1) st' := by
  obtain ⟨st₁, hstores, hmem, hheader, hstep⟩ := loadSegments_header hphdrs hi hst
  have hload : ∃ reads, loadSegment base (phdrAddr m base i) st₁ =
      (true, ⟨st₁.mem, reads, st₁.stores⟩) := by
    by_cases hl : (phdrAt m base i).IsLoad
    · obtain ⟨hr, hempty⟩ := h hl
      rw [← hheader] at hl hr hempty
      exact loadSegment_of_empty hl hr hempty
    · rw [← hheader] at hl
      exact loadSegment_of_not_load hl
  obtain ⟨reads, hload⟩ := hload
  rw [hload] at hstep
  exact ⟨⟨st₁.mem, reads, st₁.stores⟩, hmem, hstores, hstep⟩

theorem loadSegments_givesUp (hl : (phdrAt m base i).IsLoad) (hr : (phdrAt m base i).Refused) :
    (loadSegments base phdrs i st).1 = false ∧
      (loadSegments base phdrs i st).2.stores = st.stores := by
  obtain ⟨st₁, hstores, hmem, hheader, hstep⟩ := loadSegments_header hphdrs hi hst
  rw [← hheader] at hl hr
  obtain ⟨reads, hload⟩ := @loadSegment_of_refused base _ st₁ hl hr
  rw [hstep, hload]
  exact ⟨rfl, hstores⟩

theorem loadSegments_stores (hl : (phdrAt m base i).IsLoad) (hr : ¬(phdrAt m base i).Refused)
    (hsome : (phdrAt m base i).offsets ≠ []) :
    (loadSegments base phdrs i st).2.stores ≠ st.stores := by
  obtain ⟨st₁, hstores, hmem, hheader, hstep⟩ := loadSegments_header hphdrs hi hst
  rw [← hheader] at hl hr hsome
  obtain ⟨st', new, hload, hnew, hfirst⟩ := @loadSegment_grows base _ st₁ hl hr
  obtain ⟨rest, hrest⟩ := loadSegments_stored_some base phdrs (i + 1) st'
  rw [hload] at hstep
  rw [hstep]
  intro hsame
  have hall := (hnew.trans hrest).stores
  rw [hstores] at hall
  have hnone := List.self_eq_append_right.mp (hsame.symm.trans hall)
  exact hfirst hsome (List.append_eq_nil_iff.mp hnone).1

omit hi

/-- Up to a segment that is refused, with empty ones in front of it, nothing is stored, and the loop
gives up. -/
theorem loadSegments_refused {k : Nat} (hk : k < phnum m base) (hl : (phdrAt m base k).IsLoad)
    (hr : (phdrAt m base k).Refused) (hik : i ≤ k)
    (hfront : ∀ j, i ≤ j → j < k → (phdrAt m base j).IsLoad → (phdrAt m base j).offsets = []) :
    (loadSegments base phdrs i st).1 = false ∧
      (loadSegments base phdrs i st).2.stores = st.stores := by
  induction hn : k - i generalizing i st with
  | zero =>
    obtain rfl : i = k := by omega
    exact loadSegments_givesUp hphdrs hk hst hl hr
  | succ n ih =>
    have hi : i < phnum m base := by omega
    by_cases hri : (phdrAt m base i).IsLoad ∧ (phdrAt m base i).Refused
    · exact loadSegments_givesUp hphdrs hi hst hri.1 hri.2
    · obtain ⟨st', hmem, hstores, hnext⟩ := loadSegments_passes hphdrs hi hst
        fun hli ↦ ⟨fun h ↦ hri ⟨hli, h⟩, hfront i (Nat.le_refl i) (by omega) hli⟩
      rw [hnext, ← hstores]
      exact ih hmem (by omega) (fun j hlow hlt ↦ hfront j (by omega) hlt) (by omega)

/-- Where nothing is stored all segments are empty, or one is refused behind empty ones. -/
theorem refused_of_silent (hsilent : (loadSegments base phdrs i st).2.stores = st.stores) :
    (∀ j, i ≤ j → j < phnum m base → (phdrAt m base j).IsLoad → (phdrAt m base j).offsets = []) ∨
      ∃ k, i ≤ k ∧ k < phnum m base ∧ (phdrAt m base k).IsLoad ∧ (phdrAt m base k).Refused ∧
        ∀ j, i ≤ j → j < k → (phdrAt m base j).IsLoad → (phdrAt m base j).offsets = [] := by
  induction hn : phnum m base - i generalizing i st with
  | zero =>
    apply Or.inl
    intro j hlow hlt
    omega
  | succ n ih =>
    have hi : i < phnum m base := by omega
    by_cases hpass : (phdrAt m base i).IsLoad →
        ¬(phdrAt m base i).Refused ∧ (phdrAt m base i).offsets = []
    · obtain ⟨st', hmem, hstores, hnext⟩ := loadSegments_passes hphdrs hi hst hpass
      have hfront : ∀ k, (∀ j, i + 1 ≤ j → j < k → (phdrAt m base j).IsLoad →
          (phdrAt m base j).offsets = []) →
          ∀ j, i ≤ j → j < k → (phdrAt m base j).IsLoad → (phdrAt m base j).offsets = [] := by
        intro k hrest j hlow hlt hlj
        by_cases hj : j = i
        · rw [hj] at hlj ⊢
          exact (hpass hlj).2
        · exact hrest j (by omega) hlt hlj
      rw [hnext, ← hstores] at hsilent
      rcases ih hmem hsilent (by omega) with hall | ⟨k, hik, hk, hl, hr, hrest⟩
      · exact Or.inl (hfront _ hall)
      · exact Or.inr ⟨k, by omega, hk, hl, hr, hfront k hrest⟩
    · obtain ⟨hl, hstops⟩ := Classical.not_imp.mp hpass
      by_cases hr : (phdrAt m base i).Refused
      · exact Or.inr ⟨i, Nat.le_refl i, hi, hl, hr, fun j hlow hlt ↦ by omega⟩
      · exact absurd hsilent (loadSegments_stores hphdrs hi hst hl hr fun h ↦ hstops ⟨hr, h⟩)

end Run

/-! ### The loader -/

/-- The loader is safe for an image exactly when its header is not valid, no segment reaches a
protected address, or one is refused before anything is stored. -/
theorem loaderSafe_iff (f : Footprint) (m : Memory) : LoaderSafe f m ↔
    (Valid m elfScratchAddr → ¬WouldOverwrite f m ∨ RefusedFirst m) := by
  by_cases hvalid : Valid m elfScratchAddr
  · obtain ⟨st₁, run, hmem, hnone, hrun, hresult, -, hstores⟩ := elfLoad_of_valid hvalid
    constructor
    · intro hsafe _
      by_contra hneither
      obtain ⟨hover, hrefused⟩ := not_or.mp hneither
      rw [not_not] at hover
      have hsilent : (loadSegments elfScratchAddr
          ((elfScratchAddr + leNat (m.load (elfScratchAddr + 32) 8)) % 2 ^ 64) 0 st₁).2.stores =
          st₁.stores := by
        rw [← hrun, ← hstores, hnone]
        exact (hsafe.rejects hover).2
      rcases refused_of_silent rfl hmem hsilent with hall | ⟨k, -, hk, hl, hr, hfront⟩
      · obtain ⟨i, hi, hl, b, hb, -⟩ := hover
        rw [hall i (Nat.zero_le i) hi hl] at hb
        exact List.not_mem_nil hb
      · exact hrefused ⟨k, hk, hl, hr, fun j hj ↦ hfront j (Nat.zero_le j) hj⟩
    · intro h
      rcases h hvalid with hclear | ⟨k, hk, hl, hr, hfront⟩
      · have hapart : LeavesImage m elfScratchAddr f.image := by
          intro i hi hl b hb himage
          exact hclear ⟨i, hi, hl, b, hb, Or.inr (Or.inr (Or.inr (Or.inr (Or.inr himage))))⟩
        have hkept : Keeps (InImage m elfScratchAddr f.image) m st₁.mem := by
          rw [hmem]
          exact fun a _ ↦ rfl
        obtain ⟨new, hnew, hwhere, -⟩ := loadSegments_stored hapart rfl 0 st₁ hkept
        refine ⟨?_, fun hover ↦ absurd hover hclear⟩
        rw [hstores, hrun, hnew.stores, hnone, List.nil_append]
        intro x hx hprotected
        obtain ⟨i, hi, hl, b, hb, hsame⟩ := hwhere x hx
        rw [hsame] at hprotected
        exact hclear ⟨i, hi, hl, b, hb, hprotected⟩
      · obtain ⟨hfalse, hsilent⟩ := loadSegments_refused rfl hmem hk hl hr (Nat.zero_le k)
          fun j _ hj ↦ hfront j hj
        rw [← hrun] at hfalse hsilent
        have hnothing : (elfLoad elfScratchAddr ⟨m, [], []⟩).2.stores = [] := by
          rw [hstores, hsilent, hnone]
        refine ⟨?_, fun _ ↦ ⟨?_, hnothing⟩⟩
        · rw [hnothing]
          intro x hx
          cases hx
        · rw [hresult, if_pos hfalse]
  · obtain ⟨hzero, hnothing⟩ := elfLoad_of_not_valid hvalid
    apply iff_of_true
    · refine ⟨?_, fun _ ↦ ⟨hzero, hnothing⟩⟩
      rw [hnothing]
      intro x hx
      cases hx
    · intro h
      exact absurd h hvalid

/-- A segment at the page tables is not rejected. -/
theorem not_loaderSafe_pageTables : ∃ m, HoldsTiny m 0x300000 0x70000 ∧ ∀ f, ¬LoaderSafe f m := by
  have h : HoldsTiny (tinyMemory 0x300000 0x70000) 0x300000 0x70000 := by
    constructor <;> decide
  have hl : (phdrAt (tinyMemory 0x300000 0x70000) elfScratchAddr 0).IsLoad := by
    rw [h.header]
    rfl
  have hr : ¬(phdrAt (tinyMemory 0x300000 0x70000) elfScratchAddr 0).Refused := by
    rw [h.header]
    decide
  have hb : 0 ∈ (phdrAt (tinyMemory 0x300000 0x70000) elfScratchAddr 0).offsets := by
    rw [h.header]
    decide
  have hi : 0 < phnum (tinyMemory 0x300000 0x70000) elfScratchAddr := by
    rw [h.count]
    decide
  refine ⟨_, h, ?_⟩
  intro f hsafe
  obtain ⟨st₁, run, hmem, hnone, hrun, -, -, hstores⟩ := elfLoad_of_valid h.valid
  apply loadSegments_stores rfl hi hmem hl hr (List.ne_nil_of_mem hb)
  rw [← hrun, ← hstores, hnone]
  refine (hsafe.rejects ⟨0, hi, hl, 0, hb, ?_⟩).2
  have haddr : (phdrAt (tinyMemory 0x300000 0x70000) elfScratchAddr 0).byteAddr 0 = 0x70000 := by
    rw [h.header]
    decide
  rw [haddr]
  exact Or.inr (Or.inr (Or.inl ⟨by decide, by decide⟩))

end SmallOs.Boot
