import Mathlib.Data.List.Nodup
import SmallOs.Boot.ElfLoader

/-!
# Where segments are loaded

`elf_load` of `bootloader/stage3/src/elf_loader.c` takes a segment to its `p_paddr`, and to its
`p_vaddr` where that is zero. The loader reads the headers while it stores, so everything depends
on stores that leave the image alone.
-/

namespace SmallOs.Boot

open SmallOs.Base

/-- The fields of a program header that the loader reads;
`bootloader/stage3/src/elf_loader.h:39–48`. -/
structure Elf64Phdr where
  pType : Nat
  pOffset : Nat
  pVaddr : Nat
  pPaddr : Nat
  pFilesz : Nat
  pMemsz : Nat
  deriving DecidableEq, Repr

namespace Elf64Phdr

/-- The packed structure at an address. -/
def ofMemory (m : Memory) (ph : Nat) : Elf64Phdr where
  pType := leNat (m.load ph 4)
  pOffset := leNat (m.load (ph + 8) 8)
  pVaddr := leNat (m.load (ph + 16) 8)
  pPaddr := leNat (m.load (ph + 24) 8)
  pFilesz := leNat (m.load (ph + 32) 8)
  pMemsz := leNat (m.load (ph + 40) 8)

variable (ph : Elf64Phdr)

/-- `PT_LOAD`. -/
def IsLoad : Prop := ph.pType = 1

instance : Decidable ph.IsLoad := inferInstanceAs (Decidable (_ = _))

def destAddr : Nat := if ph.pPaddr ≠ 0 then ph.pPaddr else ph.pVaddr

/-- The loader gives up at the segment. -/
def Refused : Prop := ph.destAddr < 0x20000 ∨ 0xFFFFFFFF80000000 < ph.destAddr

instance : Decidable ph.Refused := inferInstanceAs (Decidable (_ ∨ _))

/-- The address of byte `b` of the segment. -/
def byteAddr (b : Nat) : Nat := (ph.destAddr + b) % 2 ^ 64

/-- The offsets of the bytes that are stored: those of the file, then the zeros. -/
def offsets : List Nat :=
  List.range' 0 ph.pFilesz ++ List.range' ph.pFilesz (ph.pMemsz - ph.pFilesz)

theorem mem_offsets {b : Nat} : b ∈ ph.offsets ↔ b < max ph.pFilesz ph.pMemsz := by
  rw [offsets, List.mem_append, List.mem_range'_1, List.mem_range'_1]
  omega

/-- The stores that lay out the segment of an image. -/
def stores (m : Memory) (base : Nat) : List (Nat × UInt8) :=
  (List.range' 0 ph.pFilesz).map
    (fun b ↦ (ph.byteAddr b, m ((base + (ph.pOffset + b)) % 2 ^ 64))) ++
    (List.range' ph.pFilesz (ph.pMemsz - ph.pFilesz)).map fun b ↦ (ph.byteAddr b, 0)

end Elf64Phdr

/-- The address of `phdrs[i]`. -/
def phdrAddr (m : Memory) (base i : Nat) : Nat :=
  ((base + leNat (m.load (base + 32) 8)) % 2 ^ 64 + 56 * i) % 2 ^ 64

/-- `phdrs[i]`. -/
def phdrAt (m : Memory) (base i : Nat) : Elf64Phdr := .ofMemory m (phdrAddr m base i)

/-- `e_phnum`. -/
def phnum (m : Memory) (base : Nat) : Nat := leNat (m.load (base + 56) 2)

/-- `e_entry`. -/
def entryPoint (m : Memory) (base : Nat) : Nat := leNat (m.load (base + 24) 8)

/-- The address is one of the image: of the file of some size, of its header or of the table that
the header points to. -/
def InImage (m : Memory) (base size a : Nat) : Prop :=
  (∃ k < size, a = (base + k) % 2 ^ 64) ∨ (∃ k < 64, a = base + k) ∨
    ∃ i < phnum m base, ∃ k < 56, a = phdrAddr m base i + k

/-- Some bytes are as they were. -/
def Keeps (kept : Nat → Prop) (m₀ m : Memory) : Prop := ∀ a, kept a → m a = m₀ a

/-- No segment touches the image. -/
def LeavesImage (m : Memory) (base size : Nat) : Prop :=
  ∀ i < phnum m base, (phdrAt m base i).IsLoad → ∀ b ∈ (phdrAt m base i).offsets,
    ¬InImage m base size ((phdrAt m base i).byteAddr b)

/-- The stores for header `i`. -/
def headerStores (m : Memory) (base i : Nat) : List (Nat × UInt8) :=
  if (phdrAt m base i).IsLoad then (phdrAt m base i).stores m base else []

/-! ### Stores -/

/-- From one state to the next the given stores have been made. -/
structure Stored (st st' : ElfState) (new : List (Nat × UInt8)) : Prop where
  stores : st'.stores = st.stores ++ new
  mem : st'.mem = st.mem.storeAll new

namespace Stored

theorem same {st st' : ElfState} (hstores : st'.stores = st.stores) (hmem : st'.mem = st.mem) :
    Stored st st' [] :=
  ⟨by rw [hstores, List.append_nil], hmem⟩

theorem trans {st st' st'' : ElfState} {x y : List (Nat × UInt8)} (h : Stored st st' x)
    (h' : Stored st' st'' y) : Stored st st'' (x ++ y) where
  stores := by rw [h'.stores, h.stores, List.append_assoc]
  mem := by rw [h'.mem, h.mem, Memory.storeAll_append]

/-- Stores elsewhere keep bytes. -/
theorem keeps {kept : Nat → Prop} {m₀ : Memory} {st st' : ElfState} {new : List (Nat × UInt8)}
    (h : Stored st st' new) (hkept : Keeps kept m₀ st.mem) (hnew : ∀ x ∈ new, ¬kept x.1) :
    Keeps kept m₀ st'.mem := by
  intro a ha
  rw [h.mem, Memory.storeAll_outside, hkept a ha]
  rintro x hx rfl
  exact hnew x hx ha

end Stored

/-- Stores at the addresses of some offsets are each at that of one of them. -/
theorem exists_offset {new : List (Nat × UInt8)} {offsets : List Nat} {addr : Nat → Nat}
    (haddrs : new.map Prod.fst = offsets.map addr) : ∀ x ∈ new, ∃ b ∈ offsets, x.1 = addr b := by
  intro x hx
  have hmem := List.mem_map_of_mem (f := Prod.fst) hx
  rw [haddrs] at hmem
  obtain ⟨b, hb, hsame⟩ := List.mem_map.mp hmem
  exact ⟨b, hb, hsame.symm⟩

/-- The state behind one store. -/
def ElfState.put (st : ElfState) (a : Nat) (b : UInt8) (reads : List Span) : ElfState :=
  ⟨st.mem.store a [b], reads, st.stores ++ [(a, b)]⟩

theorem stored_put (st : ElfState) (a : Nat) (b : UInt8) (reads : List Span) :
    Stored st (st.put a b reads) [(a, b)] :=
  ⟨rfl, rfl⟩

/-- A loop that stores one byte after the other and reads its bound again for each. -/
structure StoreLoop (loop : Nat → ElfState → ElfState) (sizeAddr dst : Nat)
    (value : Nat → Memory → UInt8) : Prop where
  step : ∀ b st, b < leNat (st.mem.load sizeAddr 8) →
    ∃ reads, loop b st = loop (b + 1) (st.put ((dst + b) % 2 ^ 64) (value b st.mem) reads)
  stop : ∀ b st, leNat (st.mem.load sizeAddr 8) ≤ b →
    ∃ reads, loop b st = ⟨st.mem, reads, st.stores⟩

theorem storeLoop_copySegment (ph dst src : Nat) :
    StoreLoop (copySegment ph dst src) (ph + 32) dst fun b m ↦ m ((src + b) % 2 ^ 64) where
  step b st h := by
    have hone : ∀ a, st.mem.load a 1 = [st.mem a] := fun a ↦ rfl
    rw [copySegment, dif_pos (show b < (field (ph + 32) 8 st).1 from h), hone]
    exact ⟨_, rfl⟩
  stop b st h := by
    rw [copySegment, dif_neg (show ¬b < (field (ph + 32) 8 st).1 from Nat.not_lt_of_le h)]
    exact ⟨_, rfl⟩

theorem storeLoop_zeroSegment (ph dst : Nat) :
    StoreLoop (zeroSegment ph dst) (ph + 40) dst fun _ _ ↦ 0 where
  step b st h := by
    rw [zeroSegment, dif_pos (show b < (field (ph + 40) 8 st).1 from h)]
    exact ⟨_, rfl⟩
  stop b st h := by
    rw [zeroSegment, dif_neg (show ¬b < (field (ph + 40) 8 st).1 from Nat.not_lt_of_le h)]
    exact ⟨_, rfl⟩

namespace StoreLoop

variable {loop : Nat → ElfState → ElfState} {sizeAddr dst : Nat} {value : Nat → Memory → UInt8}
  (h : StoreLoop loop sizeAddr dst value)

include h

/-- The loop makes some stores, one at least when it is entered. -/
theorem stored (b : Nat) (st : ElfState) :
    ∃ new, Stored st (loop b st) new ∧ (b < leNat (st.mem.load sizeAddr 8) → new ≠ []) := by
  induction hk : 2 ^ 64 - b generalizing b st with
  | zero =>
    have hsize := leNat_lt (st.mem.load sizeAddr 8)
    rw [Memory.length_load] at hsize
    obtain ⟨reads, hstop⟩ := h.stop b st (by omega)
    rw [hstop]
    exact ⟨[], .same rfl rfl, fun hlt ↦ by omega⟩
  | succ k ih =>
    by_cases hlt : b < leNat (st.mem.load sizeAddr 8)
    · obtain ⟨reads, hstep⟩ := h.step b st hlt
      obtain ⟨new, hnew, -⟩ := ih (b + 1) (st.put _ _ reads) (by omega)
      rw [hstep]
      exact ⟨_, (stored_put _ _ _ _).trans hnew, fun _ ↦ List.cons_ne_nil _ _⟩
    · obtain ⟨reads, hstop⟩ := h.stop b st (Nat.le_of_not_lt hlt)
      rw [hstop]
      exact ⟨[], .same rfl rfl, fun hlt' ↦ absurd hlt' hlt⟩

/-- With a bound that no store reaches the loop stores to the addresses in order, and where the
values depend on what no store reaches, these values. -/
theorem stored_kept {kept : Nat → Prop} {m₀ : Memory} {n : Nat}
    (hbound : ∀ m, Keeps kept m₀ m → leNat (m.load sizeAddr 8) = n)
    (hdst : ∀ b < n, ¬kept ((dst + b) % 2 ^ 64)) (b : Nat) (st : ElfState)
    (hkept : Keeps kept m₀ st.mem) :
    ∃ new, Stored st (loop b st) new ∧
      new.map Prod.fst = (List.range' b (n - b)).map (fun c ↦ (dst + c) % 2 ^ 64) ∧
      ((∀ c < n, ∀ m, Keeps kept m₀ m → value c m = value c m₀) →
        new = (List.range' b (n - b)).map fun c ↦ ((dst + c) % 2 ^ 64, value c m₀)) := by
  induction hk : n - b generalizing b st with
  | zero =>
    have hend : leNat (st.mem.load sizeAddr 8) ≤ b := by
      rw [hbound _ hkept]
      omega
    obtain ⟨reads, hstop⟩ := h.stop b st hend
    rw [hstop]
    exact ⟨[], .same rfl rfl, rfl, fun _ ↦ rfl⟩
  | succ k ih =>
    have hlt : b < leNat (st.mem.load sizeAddr 8) := by
      rw [hbound _ hkept]
      omega
    obtain ⟨reads, hstep⟩ := h.step b st hlt
    have hone := stored_put st ((dst + b) % 2 ^ 64) (value b st.mem) reads
    have hnext : Keeps kept m₀ (st.put ((dst + b) % 2 ^ 64) (value b st.mem) reads).mem := by
      apply hone.keeps hkept
      intro x hx
      rw [List.mem_singleton.mp hx]
      exact hdst b (by omega)
    obtain ⟨new, hnew, haddrs, hvalues⟩ := ih (b + 1) _ hnext (by omega)
    rw [hstep]
    refine ⟨_, hone.trans hnew, ?_, ?_⟩
    · rw [List.map_append, haddrs, List.range'_succ]
      rfl
    · intro hsame
      rw [hvalues hsame, hsame b (by omega) st.mem hkept, List.range'_succ]
      rfl

end StoreLoop

/-! ### One header -/

section Header

variable {base a : Nat} {st : ElfState}

theorem loadSegment_of_not_load (h : ¬(Elf64Phdr.ofMemory st.mem a).IsLoad) :
    ∃ reads, loadSegment base a st = (true, ⟨st.mem, reads, st.stores⟩) := by
  rw [loadSegment]
  dsimp only
  rw [if_pos (show (field a 4 st).1 ≠ 1 from h)]
  exact ⟨_, rfl⟩

/-- The address is read from one of two fields. -/
theorem field_destAddr (a : Nat) (st : ElfState) :
    ∃ reads, (if (field (a + 24) 8 st).1 ≠ 0 then field (a + 24) 8 (field (a + 24) 8 st).2
      else field (a + 16) 8 (field (a + 24) 8 st).2) =
      ((Elf64Phdr.ofMemory st.mem a).destAddr, ⟨st.mem, reads, st.stores⟩) := by
  rw [Elf64Phdr.destAddr]
  by_cases hp : leNat (st.mem.load (a + 24) 8) ≠ 0
  · rw [if_pos (show (Elf64Phdr.ofMemory st.mem a).pPaddr ≠ 0 from hp)]
    exact ⟨_, if_pos hp⟩
  · rw [if_neg (show ¬(Elf64Phdr.ofMemory st.mem a).pPaddr ≠ 0 from hp)]
    exact ⟨_, if_neg hp⟩

theorem loadSegment_of_refused (hl : (Elf64Phdr.ofMemory st.mem a).IsLoad)
    (hr : (Elf64Phdr.ofMemory st.mem a).Refused) :
    ∃ reads, loadSegment base a st = (false, ⟨st.mem, reads, st.stores⟩) := by
  obtain ⟨reads, hdest⟩ := field_destAddr a (field a 4 st).2
  rw [field_mem, field_stores] at hdest
  rw [loadSegment]
  dsimp only
  rw [if_neg (not_not_intro (show (field a 4 st).1 = 1 from hl)), hdest]
  dsimp only
  rw [Elf64Phdr.Refused] at hr
  rw [if_pos hr]
  exact ⟨reads, rfl⟩

/-- A segment is copied, and filled up with zeros. -/
theorem loadSegment_of_load (hl : (Elf64Phdr.ofMemory st.mem a).IsLoad)
    (hr : ¬(Elf64Phdr.ofMemory st.mem a).Refused) :
    ∃ st₁ copied, st₁.mem = st.mem ∧ st₁.stores = st.stores ∧
      copied = copySegment a (Elf64Phdr.ofMemory st.mem a).destAddr
        ((base + (Elf64Phdr.ofMemory st.mem a).pOffset) % 2 ^ 64) 0 st₁ ∧
      loadSegment base a st = (true, zeroSegment a (Elf64Phdr.ofMemory st.mem a).destAddr
        (field (a + 32) 8 copied).1 (field (a + 32) 8 copied).2) := by
  obtain ⟨reads, hdest⟩ := field_destAddr a (field a 4 st).2
  rw [field_mem, field_stores] at hdest
  rw [loadSegment]
  dsimp only
  rw [if_neg (not_not_intro (show (field a 4 st).1 = 1 from hl)), hdest]
  dsimp only
  rw [Elf64Phdr.Refused] at hr
  rw [if_neg hr]
  exact ⟨(field (a + 32) 8 (field (a + 8) 8 ⟨st.mem, reads, st.stores⟩).2).2, _, rfl, rfl, rfl, rfl⟩

end Header

section Image

variable {m₀ m : Memory} {base size i : Nat}

/-- A header of an image that is kept is the one that it was. -/
theorem Keeps.ofMemory (h : Keeps (InImage m₀ base size) m₀ m) (hi : i < phnum m₀ base) :
    Elf64Phdr.ofMemory m (phdrAddr m₀ base i) = phdrAt m₀ base i := by
  have hload : ∀ k n, k + n ≤ 56 →
      m.load (phdrAddr m₀ base i + k) n = m₀.load (phdrAddr m₀ base i + k) n := by
    intro k n hk
    apply Memory.load_congr
    intro p hlow hhigh
    apply h
    obtain ⟨j, rfl⟩ := Nat.exists_eq_add_of_le hlow
    exact Or.inr (Or.inr ⟨i, hi, k + j, by omega, Nat.add_assoc _ _ _⟩)
  have htype : m.load (phdrAddr m₀ base i) 4 = m₀.load (phdrAddr m₀ base i) 4 :=
    hload 0 4 (by decide)
  rw [phdrAt, Elf64Phdr.ofMemory, Elf64Phdr.ofMemory, htype, hload 8 8 (by decide),
    hload 16 8 (by decide), hload 24 8 (by decide), hload 32 8 (by decide), hload 40 8 (by decide)]

/-- So is a field of the file header. -/
theorem Keeps.ehdr (h : Keeps (InImage m₀ base size) m₀ m) {k n : Nat} (hk : k + n ≤ 64) :
    m.load (base + k) n = m₀.load (base + k) n := by
  apply Memory.load_congr
  intro p hlow hhigh
  apply h
  obtain ⟨j, rfl⟩ := Nat.exists_eq_add_of_le hlow
  exact Or.inr (Or.inl ⟨k + j, by omega, Nat.add_assoc _ _ _⟩)

/-- What the loop over headers does at one of them, if the segment leaves the image alone. -/
theorem loadSegment_stored {st : ElfState} (hkept : Keeps (InImage m₀ base size) m₀ st.mem)
    (hi : i < phnum m₀ base) (hl : (phdrAt m₀ base i).IsLoad) (hr : ¬(phdrAt m₀ base i).Refused)
    (hapart : ∀ b ∈ (phdrAt m₀ base i).offsets,
      ¬InImage m₀ base size ((phdrAt m₀ base i).byteAddr b)) :
    ∃ st' new, loadSegment base (phdrAddr m₀ base i) st = (true, st') ∧ Stored st st' new ∧
      new.map Prod.fst = (phdrAt m₀ base i).offsets.map (phdrAt m₀ base i).byteAddr ∧
      ((phdrAt m₀ base i).pOffset + (phdrAt m₀ base i).pFilesz ≤ size →
        new = (phdrAt m₀ base i).stores m₀ base) := by
  have hheader : ∀ m, Keeps (InImage m₀ base size) m₀ m →
      Elf64Phdr.ofMemory m (phdrAddr m₀ base i) = phdrAt m₀ base i := fun m h ↦ h.ofMemory hi
  have hfilesz : ∀ m, Keeps (InImage m₀ base size) m₀ m →
      leNat (m.load (phdrAddr m₀ base i + 32) 8) = (phdrAt m₀ base i).pFilesz := by
    intro m h
    have hsize := congrArg Elf64Phdr.pFilesz (hheader m h)
    exact hsize
  have hmemsz : ∀ m, Keeps (InImage m₀ base size) m₀ m →
      leNat (m.load (phdrAddr m₀ base i + 40) 8) = (phdrAt m₀ base i).pMemsz := by
    intro m h
    have hsize := congrArg Elf64Phdr.pMemsz (hheader m h)
    exact hsize
  have hst := hheader st.mem hkept
  have hload := @loadSegment_of_load base (phdrAddr m₀ base i) st (hst ▸ hl) (hst ▸ hr)
  rw [hst] at hload
  generalize phdrAt m₀ base i = ph at *
  obtain ⟨st₁, copied, hmem, hstores, hcopied, hload⟩ := hload
  have hstart : Stored st st₁ [] := .same hstores hmem
  obtain ⟨new, hnew, haddrs, hvalues⟩ :=
    (storeLoop_copySegment (phdrAddr m₀ base i) ph.destAddr
      ((base + ph.pOffset) % 2 ^ 64)).stored_kept hfilesz
      (fun b hb ↦ hapart b (ph.mem_offsets.mpr (by omega))) 0 st₁ (hmem ▸ hkept)
  rw [← hcopied] at hnew
  have hcopy := hstart.trans hnew
  rw [List.nil_append] at hcopy
  have hkept' : Keeps (InImage m₀ base size) m₀ copied.mem := by
    apply hcopy.keeps hkept
    intro x hx
    obtain ⟨b, hb, hsame⟩ := exists_offset haddrs x hx
    rw [hsame]
    exact hapart b (ph.mem_offsets.mpr (by have := List.mem_range'_1.mp hb; omega))
  obtain ⟨new', hnew', haddrs', hvalues'⟩ :=
    (storeLoop_zeroSegment (phdrAddr m₀ base i) ph.destAddr).stored_kept hmemsz
      (fun b hb ↦ hapart b (ph.mem_offsets.mpr (by omega))) ph.pFilesz
      (field (phdrAddr m₀ base i + 32) 8 copied).2 hkept'
  rw [show (field (phdrAddr m₀ base i + 32) 8 copied).1 = ph.pFilesz from
    hfilesz copied.mem hkept'] at hload
  refine ⟨_, new ++ new', hload, ?_, ?_, ?_⟩
  · exact hcopy.trans ⟨hnew'.stores, hnew'.mem⟩
  · rw [List.map_append, haddrs, haddrs', Elf64Phdr.offsets, List.map_append]
    rfl
  · intro hwithin
    have hsrc : ∀ c, ((base + ph.pOffset) % 2 ^ 64 + c) % 2 ^ 64 =
        (base + (ph.pOffset + c)) % 2 ^ 64 := by
      intro c
      rw [Nat.mod_add_mod, Nat.add_assoc]
    have hfile : ∀ c < ph.pFilesz, ∀ m, Keeps (InImage m₀ base size) m₀ m →
        m (((base + ph.pOffset) % 2 ^ 64 + c) % 2 ^ 64) =
          m₀ (((base + ph.pOffset) % 2 ^ 64 + c) % 2 ^ 64) := by
      intro c hc m h
      apply h
      exact Or.inl ⟨ph.pOffset + c, by omega, hsrc c⟩
    rw [hvalues hfile, hvalues' fun c _ m _ ↦ rfl, Elf64Phdr.stores]
    simp only [hsrc, Nat.sub_zero, Elf64Phdr.byteAddr]

end Image

/-! ### All headers -/

theorem loadSegments_stop {base i : Nat} {st : ElfState} (phdrs : Nat) (h : phnum st.mem base ≤ i) :
    ∃ reads, loadSegments base phdrs i st = (true, ⟨st.mem, reads, st.stores⟩) := by
  rw [loadSegments, dif_neg (show ¬i < (field (base + 56) 2 st).1 from Nat.not_lt_of_le h)]
  exact ⟨_, rfl⟩

theorem loadSegments_step {base i : Nat} {st : ElfState} (phdrs : Nat) (h : i < phnum st.mem base) :
    ∃ st₁, st₁.mem = st.mem ∧ st₁.stores = st.stores ∧ loadSegments base phdrs i st =
      match loadSegment base ((phdrs + 56 * i) % 2 ^ 64) st₁ with
      | (false, next) => (false, next)
      | (true, next) => loadSegments base phdrs (i + 1) next := by
  refine ⟨(field (base + 56) 2 st).2, rfl, rfl, ?_⟩
  rw [loadSegments]
  exact dif_pos (show i < (field (base + 56) 2 st).1 from h)

/-- The file header is only read. -/
theorem elfValidate_same (base : Nat) (st : ElfState) :
    (elfValidate base st).2.mem = st.mem ∧ (elfValidate base st).2.stores = st.stores := by
  rw [elfValidate]
  dsimp only
  split
  · exact ⟨rfl, rfl⟩
  split
  · exact ⟨rfl, rfl⟩
  split
  · exact ⟨rfl, rfl⟩
  split
  · exact ⟨rfl, rfl⟩
  · exact ⟨rfl, rfl⟩

/-- The checks depend on memory only. -/
def Valid (m : Memory) (base : Nat) : Prop := (elfValidate base ⟨m, [], []⟩).1 = true

instance (m : Memory) (base : Nat) : Decidable (Valid m base) := inferInstanceAs (Decidable (_ = _))

theorem elfLoad_of_not_valid {m : Memory} {base : Nat} (h : ¬Valid m base) :
    (elfLoad base ⟨m, [], []⟩).1 = 0 ∧ (elfLoad base ⟨m, [], []⟩).2.stores = [] := by
  have hvalid : (elfValidate base ⟨m, [], []⟩).1 = false := Bool.not_eq_true _ ▸ h
  rw [elfLoad]
  dsimp only
  rw [if_pos hvalid]
  exact ⟨rfl, (elfValidate_same base ⟨m, [], []⟩).2⟩

/-- With a valid header the loader goes through the program headers. -/
theorem elfLoad_of_valid {m : Memory} {base : Nat} (h : Valid m base) :
    ∃ st₁ run, st₁.mem = m ∧ st₁.stores = [] ∧
      run = loadSegments base ((base + leNat (m.load (base + 32) 8)) % 2 ^ 64) 0 st₁ ∧
      (elfLoad base ⟨m, [], []⟩).1 = (if run.1 = false then 0 else entryPoint run.2.mem base) ∧
      (elfLoad base ⟨m, [], []⟩).2.mem = run.2.mem ∧
      (elfLoad base ⟨m, [], []⟩).2.stores = run.2.stores := by
  obtain ⟨hmem, hstores⟩ := elfValidate_same base ⟨m, [], []⟩
  have hvalid : ¬(elfValidate base ⟨m, [], []⟩).1 = false := by
    rw [show (elfValidate base ⟨m, [], []⟩).1 = true from h]
    decide
  have hphoff : (field (base + 32) 8 (elfValidate base ⟨m, [], []⟩).2).1 =
      leNat (m.load (base + 32) 8) := by
    rw [field, hmem]
  rw [← field_mem (base + 32) 8] at hmem
  rw [← field_stores (base + 32) 8] at hstores
  refine ⟨_, _, hmem, hstores, rfl, ?_⟩
  rw [elfLoad]
  dsimp only
  rw [if_neg hvalid, hphoff]
  split
  · exact ⟨rfl, rfl, rfl⟩
  · exact ⟨rfl, rfl, rfl⟩

section Run

variable {m₀ : Memory} {base size phdrs : Nat}

/-- From a header on the stores are those of the segments, in order, as far as the loop comes. -/
theorem loadSegments_stored (hapart : LeavesImage m₀ base size)
    (hphdrs : phdrs = (base + leNat (m₀.load (base + 32) 8)) % 2 ^ 64) (i : Nat) (st : ElfState)
    (hkept : Keeps (InImage m₀ base size) m₀ st.mem) :
    ∃ new, Stored st (loadSegments base phdrs i st).2 new ∧
      (∀ x ∈ new, ∃ j < phnum m₀ base, (phdrAt m₀ base j).IsLoad ∧
        ∃ b ∈ (phdrAt m₀ base j).offsets, x.1 = (phdrAt m₀ base j).byteAddr b) ∧
      ((loadSegments base phdrs i st).1 = true →
        (∀ j < phnum m₀ base, (phdrAt m₀ base j).IsLoad →
          (phdrAt m₀ base j).pOffset + (phdrAt m₀ base j).pFilesz ≤ size) →
        new = (List.range' i (phnum m₀ base - i)).flatMap (headerStores m₀ base)) ∧
      ((∀ j < phnum m₀ base, (phdrAt m₀ base j).IsLoad → ¬(phdrAt m₀ base j).Refused) →
        (loadSegments base phdrs i st).1 = true) := by
  have hnum : ∀ {m}, Keeps (InImage m₀ base size) m₀ m → phnum m base = phnum m₀ base := by
    intro m h
    rw [phnum, phnum, h.ehdr (by decide)]
  induction hk : phnum m₀ base - i generalizing i st with
  | zero =>
    have hend : phnum st.mem base ≤ i := by
      rw [hnum hkept]
      omega
    obtain ⟨reads, hstop⟩ := loadSegments_stop phdrs hend
    rw [hstop]
    exact ⟨[], .same rfl rfl, fun x hx ↦ absurd hx List.not_mem_nil, fun _ _ ↦ rfl, fun _ ↦ rfl⟩
  | succ k ih =>
    have hi : i < phnum m₀ base := by omega
    obtain ⟨st₁, hmem, hstores, hstep⟩ := loadSegments_step phdrs (hnum hkept ▸ hi)
    have hstart : Stored st st₁ [] := .same hstores hmem
    have hkept₁ : Keeps (InImage m₀ base size) m₀ st₁.mem := by rwa [hmem]
    have hheader : Elf64Phdr.ofMemory st₁.mem (phdrAddr m₀ base i) = phdrAt m₀ base i :=
      hkept₁.ofMemory hi
    have haddr : (phdrs + 56 * i) % 2 ^ 64 = phdrAddr m₀ base i := by rw [hphdrs, phdrAddr]
    rw [hstep, haddr]
    by_cases hl : (phdrAt m₀ base i).IsLoad
    · by_cases hr : (phdrAt m₀ base i).Refused
      · -- The loop ends here, and with it the loader.
        obtain ⟨reads, hload⟩ := loadSegment_of_refused (hheader ▸ hl) (hheader ▸ hr)
        rw [hload]
        have hsame : Stored st₁ ⟨st₁.mem, reads, st₁.stores⟩ [] := .same rfl rfl
        exact ⟨[], hstart.trans hsame, fun x hx ↦ absurd hx List.not_mem_nil,
          fun h ↦ absurd h Bool.false_ne_true, fun h ↦ absurd hr (h i hi hl)⟩
      · obtain ⟨st', new, hload, hnew, haddrs, hvalues⟩ :=
          loadSegment_stored hkept₁ hi hl hr (hapart i hi hl)
        have hplace := exists_offset haddrs
        have hkept' : Keeps (InImage m₀ base size) m₀ st'.mem := by
          apply hnew.keeps hkept₁
          intro x hx
          obtain ⟨b, hb, hsame⟩ := hplace x hx
          rw [hsame]
          exact hapart i hi hl b hb
        obtain ⟨rest, hrest, hwhere, hall, haccepted⟩ := ih (i + 1) st' hkept' (by omega)
        rw [hload]
        refine ⟨new ++ rest, hstart.trans (hnew.trans hrest), ?_, ?_, haccepted⟩
        · intro x hx
          rcases List.mem_append.mp hx with hx | hx
          · exact ⟨i, hi, hl, hplace x hx⟩
          · exact hwhere x hx
        · intro htrue hfile
          have hfirst : headerStores m₀ base i = (phdrAt m₀ base i).stores m₀ base := if_pos hl
          rw [hall htrue hfile, hvalues (hfile i hi hl), List.range'_succ, List.flatMap_cons,
            hfirst]
    · obtain ⟨reads, hload⟩ := loadSegment_of_not_load (hheader ▸ hl)
      obtain ⟨rest, hrest, hwhere, hall, haccepted⟩ :=
        ih (i + 1) ⟨st₁.mem, reads, st₁.stores⟩ hkept₁ (by omega)
      have hsame : Stored st₁ ⟨st₁.mem, reads, st₁.stores⟩ [] := .same rfl rfl
      rw [hload]
      refine ⟨rest, (hstart.trans hsame).trans hrest, hwhere, ?_, haccepted⟩
      intro htrue hfile
      have hfirst : headerStores m₀ base i = [] := if_neg hl
      rw [hall htrue hfile, List.range'_succ, List.flatMap_cons, hfirst, List.nil_append]

end Run

/-! ### Images with room for their segments -/

/-- The parts of the segments that come from the file lie in it, and the segments lie apart from
each other and from the image. -/
structure LoadableImage (m : Memory) (base size : Nat) : Prop where
  filesz_le : ∀ i < phnum m base, (phdrAt m base i).IsLoad →
    (phdrAt m base i).pFilesz ≤ (phdrAt m base i).pMemsz
  file_le : ∀ i < phnum m base, (phdrAt m base i).IsLoad →
    (phdrAt m base i).pOffset + (phdrAt m base i).pFilesz ≤ size
  apart : ∀ i < phnum m base, ∀ j < phnum m base, i ≠ j → (phdrAt m base i).IsLoad →
    (phdrAt m base j).IsLoad → ∀ b < (phdrAt m base i).pMemsz, ∀ c < (phdrAt m base j).pMemsz,
      (phdrAt m base i).byteAddr b ≠ (phdrAt m base j).byteAddr c
  image : ∀ i < phnum m base, (phdrAt m base i).IsLoad → ∀ b < (phdrAt m base i).pMemsz,
    ¬InImage m base size ((phdrAt m base i).byteAddr b)

/-- Each segment holds its bytes of the file and then zeros, everything else is as it was, and where
the entry point lies in a segment that is taken to its `p_vaddr`, so does the byte of the file. -/
structure SegmentsPlaced (m : Memory) (base : Nat) (m' : Memory) : Prop where
  file : ∀ i < phnum m base, (phdrAt m base i).IsLoad → ∀ b < (phdrAt m base i).pFilesz,
    m' ((phdrAt m base i).byteAddr b) = m ((base + ((phdrAt m base i).pOffset + b)) % 2 ^ 64)
  zero : ∀ i < phnum m base, (phdrAt m base i).IsLoad → ∀ b, (phdrAt m base i).pFilesz ≤ b →
    b < (phdrAt m base i).pMemsz → m' ((phdrAt m base i).byteAddr b) = 0
  others : ∀ a, (∀ i < phnum m base, (phdrAt m base i).IsLoad → ∀ b < (phdrAt m base i).pMemsz,
    a ≠ (phdrAt m base i).byteAddr b) → m' a = m a
  entry : ∀ i < phnum m base, (phdrAt m base i).IsLoad →
    (phdrAt m base i).destAddr = (phdrAt m base i).pVaddr → ∀ b < (phdrAt m base i).pFilesz,
      ((phdrAt m base i).pVaddr + b) % 2 ^ 64 = entryPoint m base →
        m' (entryPoint m base) = m ((base + ((phdrAt m base i).pOffset + b)) % 2 ^ 64)

namespace LoadableImage

variable {m : Memory} {base size : Nat} (h : LoadableImage m base size)

include h

theorem leavesImage : LeavesImage m base size := by
  intro i hi hl b hb
  have hlt := (phdrAt m base i).mem_offsets.mp hb
  rw [Nat.max_eq_right (h.filesz_le i hi hl)] at hlt
  exact h.image i hi hl b hlt

/-- The stores of a header go to the addresses of its segment. -/
theorem mem_headerStores {i : Nat} (hi : i < phnum m base) {x : Nat × UInt8}
    (hx : x ∈ headerStores m base i) : (phdrAt m base i).IsLoad ∧
      ∃ b < (phdrAt m base i).pMemsz, x.1 = (phdrAt m base i).byteAddr b := by
  rw [headerStores] at hx
  split at hx
  next hl =>
    have hle := h.filesz_le i hi hl
    refine ⟨hl, ?_⟩
    rcases List.mem_append.mp hx with hx | hx
    · obtain ⟨b, hb, rfl⟩ := List.mem_map.mp hx
      exact ⟨b, by have := List.mem_range'_1.mp hb; omega, rfl⟩
    · obtain ⟨b, hb, rfl⟩ := List.mem_map.mp hx
      exact ⟨b, by have := List.mem_range'_1.mp hb; omega, rfl⟩
  next => cases hx

theorem map_fst_headerStores {i : Nat} (hi : i < phnum m base) :
    (headerStores m base i).map Prod.fst =
      if (phdrAt m base i).IsLoad then
        (List.range' 0 (phdrAt m base i).pMemsz).map (phdrAt m base i).byteAddr
      else [] := by
  rw [headerStores]
  split
  next hl =>
    have hmemsz : (phdrAt m base i).pMemsz =
        (phdrAt m base i).pFilesz + ((phdrAt m base i).pMemsz - (phdrAt m base i).pFilesz) := by
      have hle := h.filesz_le i hi hl
      omega
    rw [hmemsz, ← List.range'_append_1, Nat.zero_add, Elf64Phdr.stores, List.map_append,
      List.map_append, List.map_map, List.map_map]
    rfl
  next => rfl

/-- No address is stored to twice. -/
theorem nodup_stores : (((List.range' 0 (phnum m base)).flatMap (headerStores m base)).map
    Prod.fst).Nodup := by
  rw [List.map_flatMap, List.nodup_flatMap]
  constructor
  · intro i hi
    rw [h.map_fst_headerStores (by have := List.mem_range'_1.mp hi; omega)]
    split
    · apply List.Nodup.map_on _ List.nodup_range'
      have hlt := leNat_lt (m.load (phdrAddr m base i + 40) 8)
      rw [Memory.length_load] at hlt
      intro b hb c hc hsame
      have hb' := (List.mem_range'_1.mp hb).2
      have hc' := (List.mem_range'_1.mp hc).2
      change b < 0 + leNat (m.load (phdrAddr m base i + 40) 8) at hb'
      change c < 0 + leNat (m.load (phdrAddr m base i + 40) 8) at hc'
      rw [Elf64Phdr.byteAddr, Elf64Phdr.byteAddr] at hsame
      omega
    · exact List.nodup_nil
  · apply List.Nodup.pairwise_of_forall_ne List.nodup_range'
    intro i hi j hj hne a ha ha'
    have hi' : i < phnum m base := by have := List.mem_range'_1.mp hi; omega
    have hj' : j < phnum m base := by have := List.mem_range'_1.mp hj; omega
    obtain ⟨x, hx, rfl⟩ := List.mem_map.mp ha
    obtain ⟨y, hy, hsame⟩ := List.mem_map.mp ha'
    obtain ⟨hl, b, hb, hxb⟩ := h.mem_headerStores hi' hx
    obtain ⟨hl', c, hc, hyc⟩ := h.mem_headerStores hj' hy
    rw [hxb, hyc] at hsame
    exact h.apart i hi' j hj' hne hl hl' b hb c hc hsame.symm

/-- What all stores together leave in memory. -/
theorem segmentsPlaced : SegmentsPlaced m base
    (m.storeAll ((List.range' 0 (phnum m base)).flatMap (headerStores m base))) := by
  have hstore : ∀ i < phnum m base, (phdrAt m base i).IsLoad →
      ∀ x ∈ (phdrAt m base i).stores m base,
        m.storeAll ((List.range' 0 (phnum m base)).flatMap (headerStores m base)) x.1 = x.2 := by
    intro i hi hl x hx
    apply m.storeAll_of_mem h.nodup_stores
    apply List.mem_flatMap.mpr
    refine ⟨i, List.mem_range'_1.mpr (by omega), ?_⟩
    rw [headerStores, if_pos hl]
    exact hx
  have hfile : ∀ i < phnum m base, (phdrAt m base i).IsLoad → ∀ b < (phdrAt m base i).pFilesz,
      m.storeAll ((List.range' 0 (phnum m base)).flatMap (headerStores m base))
          ((phdrAt m base i).byteAddr b) =
        m ((base + ((phdrAt m base i).pOffset + b)) % 2 ^ 64) := by
    intro i hi hl b hb
    exact hstore i hi hl ((phdrAt m base i).byteAddr b,
      m ((base + ((phdrAt m base i).pOffset + b)) % 2 ^ 64)) (List.mem_append_left _
        (List.mem_map.mpr ⟨b, List.mem_range'_1.mpr (by omega), rfl⟩))
  refine ⟨hfile, ?_, ?_, ?_⟩
  · intro i hi hl b hlow hhigh
    exact hstore i hi hl ((phdrAt m base i).byteAddr b, 0) (List.mem_append_right _
      (List.mem_map.mpr ⟨b, List.mem_range'_1.mpr (by omega), rfl⟩))
  · intro a ha
    apply m.storeAll_outside
    intro x hx hsame
    obtain ⟨i, hi, hx⟩ := List.mem_flatMap.mp hx
    have hi' : i < phnum m base := by have := List.mem_range'_1.mp hi; omega
    obtain ⟨hl, b, hb, hxb⟩ := h.mem_headerStores hi' hx
    exact ha i hi' hl b hb (hsame.symm.trans hxb)
  · intro i hi hl hdest b hb hsame
    rw [← hsame, ← hdest]
    exact hfile i hi hl b hb

/-- The loop over headers, and what the loader makes of it. -/
theorem run (hvalid : Valid m base) : ∃ accepted : Bool,
    (elfLoad base ⟨m, [], []⟩).1 = (if accepted = false then 0 else entryPoint m base) ∧
      (accepted = true → SegmentsPlaced m base (elfLoad base ⟨m, [], []⟩).2.mem) ∧
      ((∀ i < phnum m base, (phdrAt m base i).IsLoad → ¬(phdrAt m base i).Refused) →
        accepted = true) := by
  obtain ⟨st₁, run, hmem, -, hrun, hresult, hfinal, -⟩ := elfLoad_of_valid hvalid
  have hkept : Keeps (InImage m base size) m st₁.mem := by
    rw [hmem]
    exact fun a _ ↦ rfl
  obtain ⟨new, hnew, -, hall, haccepted⟩ := loadSegments_stored h.leavesImage rfl 0 st₁ hkept
  rw [← hrun] at hnew hall haccepted
  refine ⟨run.1, ?_, ?_, haccepted⟩
  · rw [hresult]
    split
    · rfl
    next htrue =>
      have hstores := hall (Bool.not_eq_false _ ▸ htrue) h.file_le
      have hkept' : Keeps (InImage m base size) m run.2.mem := by
        apply hnew.keeps hkept
        intro x hx
        rw [hstores] at hx
        obtain ⟨i, hi, hx⟩ := List.mem_flatMap.mp hx
        have hi' : i < phnum m base := by have := List.mem_range'_1.mp hi; omega
        obtain ⟨hl, b, hb, hxb⟩ := h.mem_headerStores hi' hx
        rw [hxb]
        exact h.image i hi' hl b hb
      rw [entryPoint, hkept'.ehdr (by decide), entryPoint]
  · intro htrue
    rw [hfinal, hnew.mem, hmem, hall htrue h.file_le]
    exact h.segmentsPlaced

/-- The loader comes to the end when the header is valid and no segment is refused. -/
theorem accepted (hvalid : Valid m base)
    (hrefused : ∀ i < phnum m base, (phdrAt m base i).IsLoad → ¬(phdrAt m base i).Refused) :
    (elfLoad base ⟨m, [], []⟩).1 = entryPoint m base ∧
      SegmentsPlaced m base (elfLoad base ⟨m, [], []⟩).2.mem := by
  obtain ⟨accepted, hresult, hplaced, haccepted⟩ := h.run hvalid
  have htrue := haccepted hrefused
  refine ⟨?_, hplaced htrue⟩
  rw [hresult, htrue]
  rfl

end LoadableImage

/-- An image with room for its segments that is accepted has them at their destinations, and its
entry point is returned. -/
theorem elfLoad_places {m : Memory} {base size : Nat} (h : LoadableImage m base size)
    (hentry : (elfLoad base ⟨m, [], []⟩).1 ≠ 0) :
    (elfLoad base ⟨m, [], []⟩).1 = entryPoint m base ∧
      SegmentsPlaced m base (elfLoad base ⟨m, [], []⟩).2.mem := by
  have hvalid : Valid m base := by
    by_contra hinvalid
    exact hentry (elfLoad_of_not_valid hinvalid).1
  obtain ⟨accepted, hresult, hplaced, -⟩ := h.run hvalid
  cases accepted with
  | false => exact absurd hresult hentry
  | true => exact ⟨hresult, hplaced rfl⟩

/-! ### A segment of one byte -/

/-- An executable with one segment, whose byte is the last one of the file. -/
def tinyElf (vaddr paddr : Nat) : List UInt8 :=
  leBytes 4 0x464C457F ++ ([2, 1] ++ (List.replicate 10 0 ++ (leBytes 2 2 ++ (leBytes 2 0x3E ++
    (leBytes 4 1 ++ (leBytes 8 vaddr ++ (leBytes 8 64 ++ (List.replicate 12 0 ++ (leBytes 2 64 ++
      (leBytes 2 56 ++ (leBytes 2 1 ++ (List.replicate 6 0 ++ (leBytes 4 1 ++ (leBytes 4 5 ++
        (leBytes 8 120 ++ (leBytes 8 vaddr ++ (leBytes 8 paddr ++ (leBytes 8 1 ++ (leBytes 8 1 ++
          (leBytes 8 1 ++ [0xAA]))))))))))))))))))))

/-- The file in the scratch buffer of an empty memory. -/
def tinyMemory (vaddr paddr : Nat) : Memory :=
  Memory.store (fun _ ↦ 0) elfScratchAddr (tinyElf vaddr paddr)

/-- What a memory shows of the file. -/
structure HoldsTiny (m : Memory) (vaddr paddr : Nat) : Prop where
  valid : Valid m elfScratchAddr
  count : phnum m elfScratchAddr = 1
  table : phdrAddr m elfScratchAddr 0 = elfScratchAddr + 64
  header : phdrAt m elfScratchAddr 0 = ⟨1, 120, vaddr, paddr, 1, 1⟩
  entry : entryPoint m elfScratchAddr = vaddr
  byte : m (elfScratchAddr + 120) = 0xAA

namespace HoldsTiny

variable {m : Memory} {vaddr paddr : Nat} (h : HoldsTiny m vaddr paddr)

include h

/-- In front of the scratch buffer is nothing of the image. -/
theorem not_inImage {a : Nat} (ha : a < elfScratchAddr) : ¬InImage m elfScratchAddr 121 a := by
  rw [elfScratchAddr] at ha
  rintro (⟨k, hk, rfl⟩ | ⟨k, hk, rfl⟩ | ⟨i, hi, k, hk, rfl⟩)
  · rw [elfScratchAddr] at ha
    omega
  · rw [elfScratchAddr] at ha
    omega
  · rw [h.count] at hi
    obtain rfl : i = 0 := by omega
    rw [h.table, elfScratchAddr] at ha
    omega

theorem loadableImage (hdest : (Elf64Phdr.mk 1 120 vaddr paddr 1 1).destAddr < elfScratchAddr) :
    LoadableImage m elfScratchAddr 121 := by
  have hheader : ∀ i < phnum m elfScratchAddr,
      phdrAt m elfScratchAddr i = ⟨1, 120, vaddr, paddr, 1, 1⟩ := by
    intro i hi
    rw [h.count] at hi
    obtain rfl : i = 0 := by omega
    exact h.header
  refine ⟨?_, ?_, ?_, ?_⟩
  · intro i hi _
    rw [hheader i hi]
  · intro i hi _
    rw [hheader i hi]
    exact Nat.le_refl 121
  · intro i hi j hj hne
    rw [h.count] at hi hj
    omega
  · intro i hi _ b hb
    rw [hheader i hi] at hb ⊢
    apply h.not_inImage
    rw [elfScratchAddr] at hdest ⊢
    rw [Elf64Phdr.byteAddr]
    change b < 1 at hb
    omega

theorem accepted (hdest : (Elf64Phdr.mk 1 120 vaddr paddr 1 1).destAddr < elfScratchAddr)
    (hrefused : ¬(Elf64Phdr.mk 1 120 vaddr paddr 1 1).Refused) :
    (elfLoad elfScratchAddr ⟨m, [], []⟩).1 = vaddr ∧
      SegmentsPlaced m elfScratchAddr (elfLoad elfScratchAddr ⟨m, [], []⟩).2.mem := by
  have hplaced := (h.loadableImage hdest).accepted h.valid (by
    intro i hi _
    rw [h.count] at hi
    obtain rfl : i = 0 := by omega
    rw [h.header]
    exact hrefused)
  rwa [h.entry] at hplaced

end HoldsTiny

/-- With no physical address the segment is at its virtual one, and so is the entry point. -/
theorem elfLoad_places_vaddr : ∃ m, HoldsTiny m 0x300000 0 ∧
    (elfLoad elfScratchAddr ⟨m, [], []⟩).1 = 0x300000 ∧
    (elfLoad elfScratchAddr ⟨m, [], []⟩).2.mem 0x300000 = 0xAA := by
  have h : HoldsTiny (tinyMemory 0x300000 0) 0x300000 0 := by
    constructor <;> decide
  have hdest : (Elf64Phdr.mk 1 120 0x300000 0 1 1).destAddr < elfScratchAddr := by decide
  have hnonzero : (elfLoad elfScratchAddr ⟨tinyMemory 0x300000 0, [], []⟩).1 ≠ 0 := by
    rw [(h.accepted hdest (by decide)).1]
    decide
  obtain ⟨hentry, hplaced⟩ := elfLoad_places (h.loadableImage hdest) hnonzero
  refine ⟨_, h, hentry.trans h.entry, ?_⟩
  have hbyte := hplaced.entry 0 (by rw [h.count]; decide) (by rw [h.header]; rfl)
    (by rw [h.header]; rfl) 0 (by rw [h.header]; decide) (by rw [h.header, h.entry]; decide)
  rw [h.entry, h.header] at hbyte
  exact hbyte.trans h.byte

/-- With another physical address it is there, and not at its virtual address. -/
theorem elfLoad_paddr : ∃ m, HoldsTiny m 0x300000 0x200000 ∧
    LoadableImage m elfScratchAddr 121 ∧ ¬InImage m elfScratchAddr 121 0x300000 ∧
    (elfLoad elfScratchAddr ⟨m, [], []⟩).1 = 0x300000 ∧
    (elfLoad elfScratchAddr ⟨m, [], []⟩).2.mem 0x300000 = 0 := by
  have h : HoldsTiny (tinyMemory 0x300000 0x200000) 0x300000 0x200000 := by
    constructor <;> decide
  have hblank : tinyMemory 0x300000 0x200000 0x300000 = 0 := by decide
  have hdest : (Elf64Phdr.mk 1 120 0x300000 0x200000 1 1).destAddr < elfScratchAddr := by decide
  obtain ⟨hentry, hplaced⟩ := h.accepted hdest (by decide)
  refine ⟨_, h, h.loadableImage hdest, h.not_inImage (by decide), hentry, ?_⟩
  rw [hplaced.others, hblank]
  intro i hi _ b hb
  rw [h.count] at hi
  obtain rfl : i = 0 := by omega
  rw [h.header] at hb ⊢
  change b < 1 at hb
  obtain rfl : b = 0 := by omega
  decide

end SmallOs.Boot
