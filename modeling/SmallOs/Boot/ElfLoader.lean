import SmallOs.Boot.Fat32
import SmallOs.Boot.SetupPaging

/-!
# Loading an executable

`bootloader/stage3/src/main.c` reads a file of up to 32 MiB to a scratch address, and
`bootloader/stage3/src/elf_loader.c` copies its segments from there. The page tables of stage 2 map
no page of the heap window, which starts 16 MiB behind the scratch address.
-/

namespace SmallOs.Boot

open SmallOs.Base

/-! ### The loader -/

/-- Memory, the spans that have been read through the pointer to the image, and the stores. -/
structure ElfState where
  mem : Memory
  reads : List Span
  stores : List (Nat × UInt8)

/-- A field of the packed structures over the image. -/
def field (a n : Nat) (st : ElfState) : Nat × ElfState :=
  (leNat (st.mem.load a n), { st with reads := st.reads ++ [⟨a, n⟩] })

@[simp] theorem field_mem (a n : Nat) (st : ElfState) : (field a n st).2.mem = st.mem := rfl
@[simp] theorem field_stores (a n : Nat) (st : ElfState) : (field a n st).2.stores = st.stores :=
  rfl

theorem field_lt (a n : Nat) (st : ElfState) : (field a n st).1 < 256 ^ n := by
  have hlt := leNat_lt (st.mem.load a n)
  rwa [Memory.length_load] at hlt

/-- `bootloader/stage3/src/elf_loader.c:5–17`. -/
def elfValidate (ehdr : Nat) (st : ElfState) : Bool × ElfState :=
  let (magic, st) := field ehdr 4 st
  if magic ≠ 0x464C457F then (false, st)
  else
    let (eiClass, st) := field (ehdr + 4) 1 st
    if eiClass ≠ 2 then (false, st)
    else
      let (eiData, st) := field (ehdr + 5) 1 st
      if eiData ≠ 1 then (false, st)
      else
        let (eType, st) := field (ehdr + 16) 2 st
        if eType ≠ 2 then (false, st)
        else
          let (eMachine, st) := field (ehdr + 18) 2 st
          (eMachine = 0x3E, st)

/-- The copy of a segment, from byte `b` on; `bootloader/stage3/src/elf_loader.c:55–56`. The size is
read again for each byte, since a store may change it. -/
def copySegment (ph dst src b : Nat) (st : ElfState) : ElfState :=
  if _h : b < (field (ph + 32) 8 st).1 then
    copySegment ph dst src (b + 1) {
      mem := st.mem.store ((dst + b) % 2 ^ 64) (st.mem.load ((src + b) % 2 ^ 64) 1)
      reads := (field (ph + 32) 8 st).2.reads ++ [⟨(src + b) % 2 ^ 64, 1⟩]
      stores := st.stores ++ [((dst + b) % 2 ^ 64, st.mem ((src + b) % 2 ^ 64))] }
  else (field (ph + 32) 8 st).2
termination_by 2 ^ 64 - b
decreasing_by
  have hlt := field_lt (ph + 32) 8 st
  omega

/-- The zeros behind a segment, from byte `b` on; `bootloader/stage3/src/elf_loader.c:58–59`. -/
def zeroSegment (ph dst b : Nat) (st : ElfState) : ElfState :=
  if _h : b < (field (ph + 40) 8 st).1 then
    zeroSegment ph dst (b + 1) {
      mem := st.mem.store ((dst + b) % 2 ^ 64) [0]
      reads := (field (ph + 40) 8 st).2.reads
      stores := st.stores ++ [((dst + b) % 2 ^ 64, 0)] }
  else (field (ph + 40) 8 st).2
termination_by 2 ^ 64 - b
decreasing_by
  have hlt := field_lt (ph + 40) 8 st
  omega

/-- A program header, unless its address is refused; `bootloader/stage3/src/elf_loader.c:31–59`. The
size is read once more for the serial line. -/
def loadSegment (base ph : Nat) (st : ElfState) : Bool × ElfState :=
  let (pType, st) := field ph 4 st
  if pType ≠ 1 then (true, st)
  else
    let (paddr, st) := field (ph + 24) 8 st
    let (destAddr, st) := if paddr ≠ 0 then field (ph + 24) 8 st else field (ph + 16) 8 st
    if destAddr < 0x20000 ∨ 0xFFFFFFFF80000000 < destAddr then (false, st)
    else
      let (offset, st) := field (ph + 8) 8 st
      let (_, st) := field (ph + 32) 8 st
      let st := copySegment ph destAddr ((base + offset) % 2 ^ 64) 0 st
      let (filesz, st) := field (ph + 32) 8 st
      (true, zeroSegment ph destAddr filesz st)

/-- The loop over program headers, from header `i` on;
`bootloader/stage3/src/elf_loader.c:28–60`. -/
def loadSegments (base phdrs i : Nat) (st : ElfState) : Bool × ElfState :=
  if _h : i < (field (base + 56) 2 st).1 then
    match loadSegment base ((phdrs + 56 * i) % 2 ^ 64) (field (base + 56) 2 st).2 with
    | (false, next) => (false, next)
    | (true, next) => loadSegments base phdrs (i + 1) next
  else (true, (field (base + 56) 2 st).2)
termination_by 2 ^ 16 - i
decreasing_by
  have hlt := field_lt (base + 56) 2 st
  omega

/-- `bootloader/stage3/src/elf_loader.c:19–67`. The entry point is read once more for the serial
line. -/
def elfLoad (base : Nat) (st : ElfState) : Nat × ElfState :=
  let (valid, st) := elfValidate base st
  if valid = false then (0, st)
  else
    let (phoff, st) := field (base + 32) 8 st
    let (loaded, st) := loadSegments base ((base + phoff) % 2 ^ 64) 0 st
    if loaded = false then (0, st)
    else
      let (_, st) := field (base + 24) 8 st
      field (base + 24) 8 st

/-! ### The scratch buffer -/

/-- `ELF_SCRATCH_ADDR`; `bootloader/stage3/src/main.c:31`. -/
def elfScratchAddr : Nat := 0x1000000

/-- `ELF_MAX_BYTES`; `bootloader/stage3/src/main.c:32`. -/
def elfMaxBytes : Nat := 32 * 1024 * 1024

/-- `launch_elf` up to the jump, without its panics: the file that starts at a cluster is read and
loaded; `bootloader/stage3/src/main.c:105–109`. -/
def loadScratch (m : Memory) (copied : Fat32.Copied) : Nat × ElfState :=
  elfLoad elfScratchAddr ⟨m.storeAll copied.stores, [], []⟩

/-- Every byte of the file that is stored, and every byte of it that the loader then reads, has its
address mapped to itself. -/
structure ScratchMapped (tables m : Memory) (copied : Fat32.Copied) : Prop where
  stored : ∀ s ∈ copied.stores, tables.walk pagingRoot s.1 = some s.1
  read : ∀ span ∈ (loadScratch m copied).2.reads, ∀ a, span.start ≤ a → a < span.stop →
    elfScratchAddr ≤ a → a < elfScratchAddr + copied.total → tables.walk pagingRoot a = some a

namespace Fat32

variable {fs : Fat32} {dest maxBytes : Nat}

/-- The stores of a read go to one address after the other. -/
theorem addresses_copySectors (hsector : ∀ lba buf, (fs.gRead lba buf).length = 512) (lba : Nat)
    (sectors : List Nat) {copied : Copied}
    (h : copied.stores.map Prod.fst = List.range' dest copied.total) :
    (fs.copySectors lba dest maxBytes sectors copied).stores.map Prod.fst =
      List.range' dest (fs.copySectors lba dest maxBytes sectors copied).total := by
  induction sectors generalizing copied with
  | nil => exact h
  | cons s sectors ih =>
    rw [copySectors]
    by_cases hfull : maxBytes ≤ copied.total
    · rw [if_pos hfull]
      exact h
    · rw [if_neg hfull]
      apply ih
      have hlen : ∀ n, n ≤ 512 →
          (slice (fs.gRead ((lba + s) % 2 ^ 64) copied.sectorBuf) 0 n).length = n := by
        intro n hn
        apply length_slice
        rw [hsector]
        omega
      dsimp only
      rw [List.map_append, h, map_fst_copyTo, hlen _ (by split <;> omega), List.range'_append_1]

theorem addresses_readFileFrom (hsector : ∀ lba buf, (fs.gRead lba buf).length = 512)
    {fuel cluster : Nat} {copied copied' : Copied} {buf buf' : List UInt8}
    (hrun : fs.readFileFrom dest maxBytes fuel cluster copied buf = some (copied', buf'))
    (h : copied.stores.map Prod.fst = List.range' dest copied.total) :
    copied'.stores.map Prod.fst = List.range' dest copied'.total := by
  induction fuel generalizing cluster copied buf with
  | zero => cases hrun
  | succ fuel ih =>
    rw [readFileFrom] at hrun
    split at hrun
    · split at hrun
      · cases hrun
        exact h
      · exact ih hrun (addresses_copySectors hsector _ _ h)
    · cases hrun
      exact h

/-- A read stores to the bytes that it counts. -/
theorem exists_store_iff (hsector : ∀ lba buf, (fs.gRead lba buf).length = 512)
    {fuel cluster : Nat} {copied : Copied} {sectorBuf buf buf' : List UInt8}
    (hrun : fs.readFile fuel cluster dest maxBytes sectorBuf buf = some (copied, buf')) (a : Nat) :
    (∃ b, (a, b) ∈ copied.stores) ↔ dest ≤ a ∧ a < dest + copied.total := by
  have haddresses := addresses_readFileFrom hsector hrun (by rfl)
  rw [← List.mem_range'_1, ← haddresses, List.mem_map]
  constructor
  · rintro ⟨b, hb⟩
    exact ⟨_, hb, rfl⟩
  · rintro ⟨⟨_, b⟩, hb, rfl⟩
    exact ⟨b, hb⟩

end Fat32

section Run

variable {image : SectorImage} {partition : Nat} {fs : Fat32} {buf : List UInt8}
  {fuel cluster : Nat} {copied : Fat32.Copied} {sectorBuf gSectorBuf gSectorBuf' : List UInt8}

/-- A file that is read into the scratch buffer is stored to the bytes that its size counts. -/
theorem scratch_stores (hinit : (fat32Init partition image.reader buf).1 = some fs)
    (hrun : fs.readFile fuel cluster elfScratchAddr elfMaxBytes sectorBuf gSectorBuf =
      some (copied, gSectorBuf')) (a : Nat) :
    (∃ b, (a, b) ∈ copied.stores) ↔ elfScratchAddr ≤ a ∧ a < elfScratchAddr + copied.total := by
  apply Fat32.exists_store_iff _ hrun
  intro lba buf
  rw [(mounted_of_init hinit).gRead]
  exact image.length_sector lba

/-- A file of more than 16 MiB has a byte at the start of the heap window. -/
theorem not_scratchMapped (hinit : (fat32Init partition image.reader buf).1 = some fs)
    (hrun : fs.readFile fuel cluster elfScratchAddr elfMaxBytes sectorBuf gSectorBuf =
      some (copied, gSectorBuf')) (m₀ m : Memory) (hlarge : 0x1000000 < copied.total) :
    ¬ ScratchMapped (setupPaging m₀) m copied := by
  intro h
  obtain ⟨b, hb⟩ := (scratch_stores hinit hrun 0x2000000).mpr
    ⟨by decide, by rw [elfScratchAddr]; omega⟩
  have hwalk := h.stored _ hb
  rw [walk_heapWindow m₀ (Nat.le_refl _) (by decide)] at hwalk
  cases hwalk

/-- The scratch buffer is mapped for a file exactly when it ends in front of the heap window. -/
theorem scratchMapped_iff (hinit : (fat32Init partition image.reader buf).1 = some fs)
    (hrun : fs.readFile fuel cluster elfScratchAddr elfMaxBytes sectorBuf gSectorBuf =
      some (copied, gSectorBuf')) (m₀ m : Memory) :
    ScratchMapped (setupPaging m₀) m copied ↔ copied.total ≤ 0x1000000 := by
  constructor
  · intro h
    by_contra hlarge
    exact not_scratchMapped hinit hrun m₀ m (by omega) h
  · intro hsmall
    have hmapped : ∀ a, elfScratchAddr ≤ a → a < elfScratchAddr + copied.total →
        (setupPaging m₀).walk pagingRoot a = some a := by
      intro a h₁ h₂
      rw [elfScratchAddr] at h₁ h₂
      exact (tables_setupPaging m₀).walk_identity (by omega) (.inl (by omega))
    refine ⟨?_, fun span _ a _ _ h₁ h₂ ↦ hmapped a h₁ h₂⟩
    rintro ⟨a, b⟩ hs
    obtain ⟨h₁, h₂⟩ := (scratch_stores hinit hrun a).mp ⟨b, hs⟩
    exact hmapped a h₁ h₂

end Run

/-! ### A small file and a large one -/

/-- A file of one sector ends in front of the heap window. -/
theorem scratchMapped_iff_small : ∃ fs copied gSectorBuf',
    (fat32Init 0 smallFatImage.reader []).1 = some fs ∧
    fs.readFile 2 3 elfScratchAddr elfMaxBytes [] [] = some (copied, gSectorBuf') ∧
    copied.total = 512 ∧
    ScratchMapped (setupPaging fun _ ↦ 0) (setupPaging fun _ ↦ 0) copied := by
  obtain ⟨fs, hinit⟩ : ∃ fs, (fat32Init 0 smallFatImage.reader []).1 = some fs := ⟨_, rfl⟩
  have hchain : Chain (smallFatImage.link 0) InData 3 [3] := by decide
  have hcluster : (smallFatImage.bpb 0).sectorsPerCluster = 1 := by decide
  have hstart : (Fat32.Copied.mk 0 [] []).total ≤ elfMaxBytes := Nat.zero_le _
  obtain ⟨copied, gSectorBuf', hrun, htotal, -⟩ := (mounted_of_init hinit).readFileFrom_eq
    elfScratchAddr elfMaxBytes hchain (show [3].length < 2 by decide) hstart []
  rw [length_flatMap_const _ _ (smallFatImage.length_clusterBytes 0), hcluster] at htotal
  have hsize : copied.total = 512 := htotal.trans (by decide)
  have hmapped := (scratchMapped_iff hinit hrun (fun _ ↦ 0) (setupPaging fun _ ↦ 0)).mpr
    (by rw [hsize]; decide)
  exact ⟨fs, copied, gSectorBuf', hinit, hrun, hsize, hmapped⟩

/-- A sector of a table that links the clusters up to 259 in order. -/
def linkSector (j : Nat) : List UInt8 :=
  (List.range 128).flatMap fun i ↦
    leBytes 4 (if 128 * j + i < 259 then 128 * j + i + 1 else 0x0FFFFFFF)

theorem length_linkSector (j : Nat) : (linkSector j).length = 512 := by
  rw [linkSector, length_flatMap_const _ 4 (fun _ ↦ length_leBytes _ _), List.length_range]

/-- A word of a link sector. -/
theorem leAt_linkSector {j i : Nat} (hi : i < 128) : leAt (linkSector j) (i * 4) 4 =
    if 128 * j + i < 259 then 128 * j + i + 1 else 0x0FFFFFFF := by
  rw [leAt, linkSector, slice_flatMap _ 4 (fun _ ↦ length_leBytes _ _) _ _
    (by rwa [List.length_range]), List.getElem_range]
  apply leNat_leBytes_of_lt
  split <;> omega

/-- Clusters of 64 KiB, with a file in the clusters from 3 to 259. -/
def largeFatImage : SectorImage where
  sector
    | 0 => bootSector 128 3
    | 1 => linkSector 0
    | 2 => linkSector 1
    | 3 => linkSector 2
    | _ => List.replicate 512 0
  length_sector
    | 0 => length_bootSector 128 3
    | 1 => length_linkSector 0
    | 2 => length_linkSector 1
    | 3 => length_linkSector 2
    | _ + 4 => List.length_replicate

theorem sector_largeFatImage {j : Nat} (h : j < 3) :
    largeFatImage.sector (1 + j) = linkSector j := by
  match j, h with
  | 0, _ => rfl
  | 1, _ => rfl
  | 2, _ => rfl

/-- The clusters up to 259 are linked in order. -/
theorem link_largeFatImage {c : Nat} (h : c < 384) : largeFatImage.link 0 c =
    if c < 259 then c + 1 else 0x0FFFFFFF := by
  have hstart : largeFatImage.fatStart 0 = 1 := by decide
  have hsector : (1 + c * 4 / 512) % 2 ^ 64 = 1 + c / 128 := by omega
  have hword : c * 4 % 512 = c % 128 * 4 := by omega
  have hcluster : 128 * (c / 128) + c % 128 = c := Nat.div_add_mod c 128
  rw [SectorImage.link, hstart, hsector, sector_largeFatImage (by omega), hword,
    leAt_linkSector (by omega), hcluster]
  split <;> omega

theorem chain_largeFatImage : Chain (largeFatImage.link 0) InData 3 (List.range' 3 257) := by
  have hlast : Chain (largeFatImage.link 0) InData 259 [259] := by
    refine ⟨rfl, by decide, ?_⟩
    rw [link_largeFatImage (by decide)]
    decide
  rw [List.range'_concat]
  refine Chain.range'_append (fun i h₁ h₂ ↦ ?_) hlast
  rw [link_largeFatImage (by omega), if_pos (by omega)]
  exact ⟨⟨by omega, Nat.lt_trans h₂ (by decide)⟩, rfl⟩

/-- A file of 16 MiB and 64 KiB does not fit in front of the heap window. -/
theorem not_scratchMapped_large : ∃ fs copied gSectorBuf',
    (fat32Init 0 largeFatImage.reader []).1 = some fs ∧
    fs.readFile 258 3 elfScratchAddr elfMaxBytes [] [] = some (copied, gSectorBuf') ∧
    copied.total = 0x1010000 ∧
    ¬ ScratchMapped (setupPaging fun _ ↦ 0) (setupPaging fun _ ↦ 0) copied := by
  obtain ⟨fs, hinit⟩ : ∃ fs, (fat32Init 0 largeFatImage.reader []).1 = some fs := ⟨_, rfl⟩
  have hcluster : (largeFatImage.bpb 0).sectorsPerCluster = 128 := by decide
  have hlength : (List.range' 3 257).length = 257 := List.length_range'
  have hstart : (Fat32.Copied.mk 0 [] []).total ≤ elfMaxBytes := Nat.zero_le _
  obtain ⟨copied, gSectorBuf', hrun, htotal, -⟩ := (mounted_of_init hinit).readFileFrom_eq
    elfScratchAddr elfMaxBytes chain_largeFatImage (show _ < 258 by rw [hlength]; decide) hstart []
  rw [length_flatMap_const _ _ (largeFatImage.length_clusterBytes 0), hcluster, hlength] at htotal
  have hsize : copied.total = 0x1010000 := htotal.trans (by decide)
  exact ⟨fs, copied, gSectorBuf', hinit, hrun, hsize,
    not_scratchMapped hinit hrun _ _ (by rw [hsize]; decide)⟩

end SmallOs.Boot
