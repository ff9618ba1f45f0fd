import SmallOs.Base.Stores
import SmallOs.Boot.DiskProbe

/-!
# The boot loader's FAT32 reader

`bootloader/stage3/src/fat32.c`. Both loops over clusters take fuel, since a table can link
clusters in a circle. The sector buffers are passed along; a store to the destination is one of a
list, and does not reach the buffers or the variables of the reader.
-/

namespace SmallOs.Boot

open SmallOs.Base

/-- `FAT32_EOC`; `bootloader/stage3/src/fat32.h:64`. -/
def fat32Eoc : Nat := 0x0FFFFFF8

/-- `FAT32_ATTR_LFN`; `bootloader/stage3/src/fat32.h:63`. -/
def fat32AttrLfn : UInt8 := 0x0F

/-- The fields of the boot sector that the reader uses; `bootloader/stage3/src/fat32.h:6–36`. -/
structure Fat32BPB where
  bytesPerSector : Nat
  sectorsPerCluster : Nat
  reservedSectors : Nat
  numFats : Nat
  fatSize32 : Nat
  rootCluster : Nat

/-- The packed structure over a sector. -/
def Fat32BPB.ofSector (src : List UInt8) : Fat32BPB where
  bytesPerSector := leAt src 11 2
  sectorsPerCluster := leAt src 13 1
  reservedSectors := leAt src 14 2
  numFats := leAt src 16 1
  fatSize32 := leAt src 36 4
  rootCluster := leAt src 44 4

/-- The variables that `fat32_init` sets; `bootloader/stage3/src/fat32.c:7–15`. -/
structure Fat32 where
  bpb : Fat32BPB
  gRead : ReadSectorFn
  gPartitionLba : Nat
  gFatLba : Nat
  gClusterLba : Nat
  gSectorsPerCluster : Nat
  gBytesPerCluster : Nat
  gRootCluster : Nat

/-- `bootloader/stage3/src/fat32.c:56–82`; nothing is set where it returns 0. -/
def fat32Init (partitionLba : Nat) (readFn : ReadSectorFn) (gSectorBuf : List UInt8) :
    Option Fat32 × List UInt8 :=
  let gSectorBuf := readFn partitionLba gSectorBuf
  let bpb := Fat32BPB.ofSector gSectorBuf
  if bpb.bytesPerSector = 0 ∨ bpb.sectorsPerCluster = 0 then (none, gSectorBuf)
  else
    let gFatLba := (partitionLba + bpb.reservedSectors) % 2 ^ 64
    (some {
      bpb, gRead := readFn, gPartitionLba := partitionLba, gFatLba
      gClusterLba := (gFatLba + bpb.numFats * bpb.fatSize32) % 2 ^ 64
      gSectorsPerCluster := bpb.sectorsPerCluster
      gBytesPerCluster := bpb.bytesPerSector * bpb.sectorsPerCluster
      gRootCluster := bpb.rootCluster }, gSectorBuf)

namespace Fat32

/-- `bootloader/stage3/src/fat32.c:26–35`; the sector of the table stays in the buffer. -/
def fatEntry (fs : Fat32) (cluster : Nat) (gSectorBuf : List UInt8) : Nat × List UInt8 :=
  let fatOffset := cluster * 4 % 2 ^ 32
  let sectorIdx := fatOffset / 512
  let byteOffset := fatOffset % 512
  let gSectorBuf := fs.gRead ((fs.gFatLba + sectorIdx) % 2 ^ 64) gSectorBuf
  (leAt gSectorBuf byteOffset 4 &&& 0x0FFFFFFF, gSectorBuf)

/-- `bootloader/stage3/src/fat32.c:38–40`; the difference is one of 32 bits. -/
def clusterToLba (fs : Fat32) (cluster : Nat) : Nat :=
  (fs.gClusterLba + (cluster + 2 ^ 32 - 2) % 2 ^ 32 * fs.gSectorsPerCluster) % 2 ^ 64

end Fat32

/-- `bootloader/stage3/src/fat32.c:44–51`. -/
def name83Match (entryName target : List UInt8) : Bool :=
  (List.range 11).all fun i ↦ entryName.getD i 0 = target.getD i 0

/-- The buffer as an array of sixteen slots; `bootloader/stage3/src/fat32.c:94–95`. -/
def dirEntries (gSectorBuf : List UInt8) : List (List UInt8) :=
  (List.range 16).map fun i ↦ slice gSectorBuf (32 * i) 32

/-- The loop over slots, with what the function returns if it returns there;
`bootloader/stage3/src/fat32.c:97–114`. -/
def scanSlots (name83 : List UInt8) : List (List UInt8) → Option Nat
  | [] => none
  | e :: dir =>
    if e.getD 0 0 = 0x00 then some 0
    else if e.getD 0 0 = 0xE5 then scanSlots name83 dir
    else if e.getD 11 0 = fat32AttrLfn then scanSlots name83 dir
    else if name83Match e name83 then some (leAt e 20 2 <<< 16 ||| leAt e 26 2)
    else scanSlots name83 dir

namespace Fat32

/-- The loop over the given sectors of a cluster; `bootloader/stage3/src/fat32.c:90–115`. -/
def scanSectors (fs : Fat32) (name83 : List UInt8) (lba : Nat) :
    List Nat → List UInt8 → Option Nat × List UInt8
  | [], gSectorBuf => (none, gSectorBuf)
  | s :: sectors, gSectorBuf =>
    let gSectorBuf := fs.gRead ((lba + s) % 2 ^ 64) gSectorBuf
    match scanSlots name83 (dirEntries gSectorBuf) with
    | some r => (some r, gSectorBuf)
    | none => scanSectors fs name83 lba sectors gSectorBuf

/-- The loop over clusters; `bootloader/stage3/src/fat32.c:87–120`. -/
def findRootFrom (fs : Fat32) (name83 : List UInt8) :
    Nat → Nat → List UInt8 → Option (Nat × List UInt8)
  | 0, _, _ => none
  | fuel + 1, cluster, gSectorBuf =>
    if cluster < fat32Eoc then
      match scanSectors fs name83 (fs.clusterToLba cluster) (List.range fs.gSectorsPerCluster)
        gSectorBuf with
      | (some r, gSectorBuf) => some (r, gSectorBuf)
      | (none, gSectorBuf) =>
        let (cluster, gSectorBuf) := fs.fatEntry cluster gSectorBuf
        findRootFrom fs name83 fuel cluster gSectorBuf
    else some (0, gSectorBuf)

/-- `bootloader/stage3/src/fat32.c:84–121`. -/
def findRoot (fs : Fat32) (fuel : Nat) (name83 gSectorBuf : List UInt8) :
    Option (Nat × List UInt8) :=
  fs.findRootFrom name83 fuel fs.gRootCluster gSectorBuf

/-- What a read has done: how many bytes, the stores, and the buffer on the stack. -/
structure Copied where
  total : Nat
  stores : List (Nat × UInt8)
  sectorBuf : List UInt8

/-- The loop over the given sectors of a cluster; `bootloader/stage3/src/fat32.c:140–155`. -/
def copySectors (fs : Fat32) (lba dest maxBytes : Nat) : List Nat → Copied → Copied
  | [], copied => copied
  | s :: sectors, copied =>
    if maxBytes ≤ copied.total then copied
    else
      let sectorBuf := fs.gRead ((lba + s) % 2 ^ 64) copied.sectorBuf
      let remaining := maxBytes - copied.total
      let toCopy := if remaining < 512 then remaining else 512
      copySectors fs lba dest maxBytes sectors {
        total := copied.total + toCopy
        stores := copied.stores ++ copyTo (dest + copied.total) (slice sectorBuf 0 toCopy)
        sectorBuf }

/-- The loop over clusters; `bootloader/stage3/src/fat32.c:133–160`. -/
def readFileFrom (fs : Fat32) (dest maxBytes : Nat) :
    Nat → Nat → Copied → List UInt8 → Option (Copied × List UInt8)
  | 0, _, _, _ => none
  | fuel + 1, cluster, copied, gSectorBuf =>
    if 2 ≤ cluster ∧ cluster < fat32Eoc then
      if maxBytes ≤ copied.total then some (copied, gSectorBuf)
      else
        let copied := fs.copySectors (fs.clusterToLba cluster) dest maxBytes
          (List.range fs.gSectorsPerCluster) copied
        let (cluster, gSectorBuf) := fs.fatEntry cluster gSectorBuf
        readFileFrom fs dest maxBytes fuel cluster copied gSectorBuf
    else some (copied, gSectorBuf)

/-- `bootloader/stage3/src/fat32.c:123–161`; `sectorBuf` is what the stack holds. -/
def readFile (fs : Fat32) (fuel firstCluster dest maxBytes : Nat)
    (sectorBuf gSectorBuf : List UInt8) :
    Option (Copied × List UInt8) :=
  fs.readFileFrom dest maxBytes fuel firstCluster ⟨0, [], sectorBuf⟩ gSectorBuf

end Fat32

/-! ### Volumes -/

/-- An image of 512-byte sectors. -/
structure SectorImage where
  sector : Nat → List UInt8
  length_sector : ∀ lba, (sector lba).length = 512

namespace SectorImage

variable (image : SectorImage)

/-- Copies a sector of the image into the buffer. -/
def reader : ReadSectorFn := fun lba _ ↦ image.sector lba

/-- The boot sector of the volume that starts at a sector. -/
def bpb (partition : Nat) : Fat32BPB := .ofSector (image.sector partition)

/-- The first sector of the table. -/
def fatStart (partition : Nat) : Nat := partition + (image.bpb partition).reservedSectors

/-- The first sector of the clusters. -/
def dataStart (partition : Nat) : Nat :=
  image.fatStart partition + (image.bpb partition).numFats * (image.bpb partition).fatSize32

/-- The cluster that the table links to a cluster: 28 bits of a word. -/
def link (partition cluster : Nat) : Nat :=
  leAt (image.sector ((image.fatStart partition + cluster * 4 / 512) % 2 ^ 64))
    (cluster * 4 % 512) 4 % 2 ^ 28

/-- The sectors of a cluster. Numbers have 32 bits, and those of clusters start at 2. -/
def clusterSectors (partition cluster : Nat) : List (List UInt8) :=
  (List.range (image.bpb partition).sectorsPerCluster).map fun s ↦
    image.sector ((image.dataStart partition +
      (cluster + 2 ^ 32 - 2) % 2 ^ 32 * (image.bpb partition).sectorsPerCluster + s) % 2 ^ 64)

/-- The bytes of a cluster. -/
def clusterBytes (partition cluster : Nat) : List UInt8 :=
  (image.clusterSectors partition cluster).flatten

theorem length_clusterBytes (partition cluster : Nat) :
    (image.clusterBytes partition cluster).length =
    512 * (image.bpb partition).sectorsPerCluster := by
  have hwidth := length_flatMap_const (fun s ↦ image.sector ((image.dataStart partition +
    (cluster + 2 ^ 32 - 2) % 2 ^ 32 * (image.bpb partition).sectorsPerCluster + s) % 2 ^ 64)) 512
    (fun _ ↦ image.length_sector _) (List.range (image.bpb partition).sectorsPerCluster)
  rw [clusterBytes, clusterSectors, ← List.flatMap_def, hwidth, List.length_range, Nat.mul_comm]

/-- The directory slots of a cluster. -/
def clusterSlots (partition cluster : Nat) : List (List UInt8) :=
  (image.clusterSectors partition cluster).flatMap dirEntries

end SectorImage

/-- The clusters from one on, each linked to the next, as long as their numbers pass. -/
def Chain (link : Nat → Nat) (passes : Nat → Prop) : Nat → List Nat → Prop
  | cluster, [] => ¬ passes cluster
  | cluster, c :: rest => c = cluster ∧ passes cluster ∧ Chain link passes (link cluster) rest

instance Chain.decidable (link : Nat → Nat) (passes : Nat → Prop) [DecidablePred passes] :
    ∀ cluster clusters, Decidable (Chain link passes cluster clusters)
  | cluster, [] => inferInstanceAs (Decidable (¬ passes cluster))
  | cluster, c :: rest =>
    have := Chain.decidable link passes (link cluster) rest
    inferInstanceAs (Decidable (c = cluster ∧ passes cluster ∧ _))

/-- Clusters in order, each linked to the next, in front of a chain. -/
theorem Chain.range'_append {link : Nat → Nat} {passes : Nat → Prop} {rest : List Nat} {n c : Nat}
    (h : ∀ i, c ≤ i → i < c + n → passes i ∧ link i = i + 1)
    (hrest : Chain link passes (c + n) rest) :
    Chain link passes c (List.range' c n ++ rest) := by
  induction n generalizing c with
  | zero => exact hrest
  | succ n ih =>
    obtain ⟨hpasses, hlink⟩ := h c (Nat.le_refl c) (by omega)
    refine ⟨rfl, hpasses, ?_⟩
    rw [hlink]
    exact ih (fun i h₁ h₂ ↦ h i (by omega) (by omega)) (by rwa [Nat.add_right_comm])

/-- The number of a cluster of a directory: not an end mark. -/
def InDirectory (cluster : Nat) : Prop := cluster < fat32Eoc

instance : DecidablePred InDirectory := fun _ ↦ inferInstanceAs (Decidable (_ < _))

/-- The number of a cluster of data. -/
def InData (cluster : Nat) : Prop := 2 ≤ cluster ∧ cluster < fat32Eoc

instance : DecidablePred InData := fun _ ↦ inferInstanceAs (Decidable (_ ∧ _))

/-- The slot is neither deleted nor part of a long name, and has the given name. -/
def carriesName (name83 e : List UInt8) : Bool :=
  e.getD 0 0 ≠ 0xE5 ∧ e.getD 11 0 ≠ fat32AttrLfn ∧ slice e 0 11 = name83

/-- The first slot in front of the terminator that carries the name. -/
def firstSlot (name83 : List UInt8) (slots : List (List UInt8)) : Option (List UInt8) :=
  (slots.takeWhile fun e ↦ e.getD 0 0 ≠ 0x00).find? (carriesName name83)

/-- The start cluster that a slot holds in two halves. -/
def startCluster (e : List UInt8) : Nat := leAt e 20 2 * 2 ^ 16 + leAt e 26 2

/-! ### Slots -/

theorem length_dirEntries {buf e : List UInt8} (hl : buf.length = 512) (he : e ∈ dirEntries buf) :
    e.length = 32 := by
  obtain ⟨i, hi, rfl⟩ := List.mem_map.mp he
  have hi' := List.mem_range.mp hi
  exact length_slice _ _ _ (by omega)

/-- Eleven equal characters are an equal name. -/
theorem name83Match_iff {e name83 : List UInt8} (he : 11 ≤ e.length) (hname : name83.length = 11) :
    name83Match e name83 = true ↔ slice e 0 11 = name83 := by
  have hlen : (slice e 0 11).length = 11 := length_slice _ _ _ he
  have hbyte : ∀ i < 11, (slice e 0 11).getD i 0 = e.getD i 0 := by
    intro i hi
    rw [List.getD_eq_getElem?_getD, getElem?_slice, if_pos hi, Nat.zero_add,
      List.getD_eq_getElem?_getD]
  simp only [name83Match, List.all_eq_true, List.mem_range, decide_eq_true_eq]
  constructor
  · intro h
    apply List.ext_getElem (by rw [hlen, hname])
    intro i h₁ h₂
    have hi : i < 11 := by omega
    have hsame := h i hi
    rw [← hbyte i hi, List.getD_eq_getElem?_getD, List.getD_eq_getElem?_getD,
      List.getElem?_eq_getElem h₁, List.getElem?_eq_getElem h₂] at hsame
    exact hsame
  · rintro rfl i hi
    exact (hbyte i hi).symm

/-- The two halves do not overlap. -/
theorem startCluster_eq (e : List UInt8) : leAt e 20 2 <<< 16 ||| leAt e 26 2 = startCluster e := by
  rw [← Nat.shiftLeft_add_eq_or_of_lt (leAt_lt e 26 2), Nat.shiftLeft_eq, startCluster]

/-- Slots behind others are looked at when these do not end the scan. -/
theorem scanSlots_append (name83 : List UInt8) (dir rest : List (List UInt8)) :
    scanSlots name83 (dir ++ rest) = (scanSlots name83 dir).or (scanSlots name83 rest) := by
  induction dir with
  | nil => rfl
  | cons e dir ih =>
    rw [List.cons_append, scanSlots, scanSlots]
    split
    · rfl
    split
    · exact ih
    split
    · exact ih
    split
    · rfl
    · exact ih

/-- The scan returns the start cluster of the first slot with the name, or 0. -/
theorem scanSlots_getD {name83 : List UInt8} (hname : name83.length = 11) {dir : List (List UInt8)}
    (hdir : ∀ e ∈ dir, e.length = 32) :
    (scanSlots name83 dir).getD 0 = ((firstSlot name83 dir).map startCluster).getD 0 := by
  induction dir with
  | nil => rfl
  | cons e dir ih =>
    have hrest := ih fun b hb ↦ hdir b (List.mem_cons_of_mem _ hb)
    have hmatch := name83Match_iff (Nat.le_of_lt (show 11 < e.length by
      rw [hdir e List.mem_cons_self]; decide)) hname
    rw [scanSlots, firstSlot]
    by_cases hend : e.getD 0 0 = 0x00
    · have hstop : ¬ decide (e.getD 0 0 ≠ 0) = true := fun h ↦ of_decide_eq_true h hend
      rw [if_pos hend, List.takeWhile_cons, if_neg hstop]
      rfl
    have hgo : decide (e.getD 0 0 ≠ 0) = true := decide_eq_true hend
    rw [if_neg hend, List.takeWhile_cons, if_pos hgo]
    by_cases hdeleted : e.getD 0 0 = 0xE5
    · rw [if_pos hdeleted, hrest, firstSlot,
        List.find?_cons_of_neg fun h ↦ (of_decide_eq_true h).1 hdeleted]
    rw [if_neg hdeleted]
    by_cases hlfn : e.getD 11 0 = fat32AttrLfn
    · rw [if_pos hlfn, hrest, firstSlot,
        List.find?_cons_of_neg fun h ↦ (of_decide_eq_true h).2.1 hlfn]
    rw [if_neg hlfn]
    by_cases hsame : slice e 0 11 = name83
    · have hfound : carriesName name83 e = true := decide_eq_true ⟨hdeleted, hlfn, hsame⟩
      rw [if_pos (hmatch.mpr hsame), startCluster_eq, List.find?_cons_of_pos hfound]
      rfl
    · rw [if_neg fun h ↦ hsame (hmatch.mp h), hrest, firstSlot,
        List.find?_cons_of_neg fun h ↦ hsame (of_decide_eq_true h).2.2]

/-! ### The reader on an image -/

/-- From `copied` on, a read has copied `bytes` behind what it had, as far as it may. -/
structure CopiesOn (dest maxBytes : Nat) (copied copied' : Fat32.Copied) (bytes : List UInt8) :
    Prop where
  total : copied'.total = min (copied.total + bytes.length) maxBytes
  stores : copied'.stores =
    copied.stores ++ copyTo (dest + copied.total) (bytes.take (maxBytes - copied.total))

namespace CopiesOn

variable {dest maxBytes : Nat} {copied : Fat32.Copied}

theorem total_le {copied' : Fat32.Copied} {bytes : List UInt8}
    (h : CopiesOn dest maxBytes copied copied' bytes) : copied'.total ≤ maxBytes := by
  rw [h.total]
  exact Nat.min_le_right _ _

theorem nothing (hle : copied.total ≤ maxBytes) : CopiesOn dest maxBytes copied copied [] where
  total := (Nat.min_eq_left hle).symm
  stores := by rw [List.take_nil, copyTo, List.append_nil]

/-- A read that has all it may take copies nothing of what follows. -/
theorem full (hfull : copied.total = maxBytes) (bytes : List UInt8) :
    CopiesOn dest maxBytes copied copied bytes where
  total := by rw [hfull, Nat.min_eq_right (Nat.le_add_right _ _)]
  stores := by rw [hfull, Nat.sub_self, List.take_zero, copyTo, List.append_nil]

theorem sector (dest : Nat) {sector : List UInt8} (hlen : sector.length = 512)
    (hle : copied.total ≤ maxBytes) :
    CopiesOn dest maxBytes copied
      ⟨copied.total + min (maxBytes - copied.total) 512,
        copied.stores ++ copyTo (dest + copied.total)
          (slice sector 0 (min (maxBytes - copied.total) 512)), sector⟩ sector where
  total := by
    dsimp only
    rw [hlen]
    omega
  stores := by rw [slice, List.drop_zero, ← hlen, ← List.take_eq_take_min]

theorem trans {copied₁ copied₂ : Fat32.Copied} {x y : List UInt8} (hle : copied.total ≤ maxBytes)
    (h₁ : CopiesOn dest maxBytes copied copied₁ x)
    (h₂ : CopiesOn dest maxBytes copied₁ copied₂ y) :
    CopiesOn dest maxBytes copied copied₂ (x ++ y) where
  total := by
    rw [h₂.total, h₁.total, List.length_append]
    omega
  stores := by
    have hnext : dest + copied.total + (x.take (maxBytes - copied.total)).length =
        dest + copied₁.total := by
      rw [h₁.total, List.length_take]
      omega
    have hleft : maxBytes - copied₁.total = maxBytes - copied.total - x.length := by
      rw [h₁.total]
      omega
    rw [h₂.stores, h₁.stores, List.append_assoc, List.take_append, copyTo_append, hnext, hleft]

end CopiesOn

/-- The variables of the reader for a volume of the image. -/
structure Mounted (image : SectorImage) (partition : Nat) (fs : Fat32) : Prop where
  bpb : fs.bpb = image.bpb partition
  gRead : fs.gRead = image.reader
  gFatLba : fs.gFatLba = image.fatStart partition % 2 ^ 64
  gClusterLba : fs.gClusterLba = image.dataStart partition % 2 ^ 64
  gSectorsPerCluster : fs.gSectorsPerCluster = (image.bpb partition).sectorsPerCluster
  gBytesPerCluster : fs.gBytesPerCluster =
    (image.bpb partition).bytesPerSector * (image.bpb partition).sectorsPerCluster
  gRootCluster : fs.gRootCluster = (image.bpb partition).rootCluster

theorem mounted_of_init {image : SectorImage} {partition : Nat} {fs : Fat32} {buf : List UInt8}
    (h : (fat32Init partition image.reader buf).1 = some fs) : Mounted image partition fs := by
  rw [fat32Init] at h
  dsimp only at h
  split at h
  · cases h
  · cases h
    exact ⟨rfl, rfl, rfl, Nat.mod_add_mod _ _ _, rfl, rfl, rfl⟩

namespace Mounted

variable {image : SectorImage} {partition : Nat} {fs : Fat32} (h : Mounted image partition fs)

include h

/-- The table links a cluster as the image says. -/
theorem fatEntry_eq {cluster : Nat} (hc : cluster < fat32Eoc) (buf : List UInt8) :
    (fs.fatEntry cluster buf).1 = image.link partition cluster := by
  have hoffset : cluster * 4 % 2 ^ 32 = cluster * 4 := by
    rw [fat32Eoc] at hc
    exact Nat.mod_eq_of_lt (by omega)
  have hmask : ∀ v : Nat, v &&& 0x0FFFFFFF = v % 2 ^ 28 :=
    fun v ↦ Nat.and_two_pow_sub_one_eq_mod v 28
  simp only [Fat32.fatEntry, hoffset, h.gFatLba, h.gRead, Nat.mod_add_mod, hmask]
  rfl

/-- The sectors of a cluster, as the reader addresses them. -/
theorem sector_eq (cluster s : Nat) (buf : List UInt8) :
    fs.gRead ((fs.clusterToLba cluster + s) % 2 ^ 64) buf =
      image.sector ((image.dataStart partition +
        (cluster + 2 ^ 32 - 2) % 2 ^ 32 * (image.bpb partition).sectorsPerCluster + s) %
          2 ^ 64) := by
  have hwrap : ∀ a b : Nat, (a % 2 ^ 64 + b + s) % 2 ^ 64 = (a + b + s) % 2 ^ 64 := by omega
  rw [h.gRead, Fat32.clusterToLba, h.gClusterLba, h.gSectorsPerCluster, Nat.mod_add_mod, hwrap]
  rfl

/-- The scan of some sectors of a cluster is the scan of their slots. -/
theorem scanSectors_eq (name83 : List UInt8) (cluster : Nat) (sectors : List Nat)
    (buf : List UInt8) : ∃ buf', fs.scanSectors name83 (fs.clusterToLba cluster) sectors buf =
      (scanSlots name83 ((sectors.map fun s ↦ image.sector ((image.dataStart partition +
        (cluster + 2 ^ 32 - 2) % 2 ^ 32 * (image.bpb partition).sectorsPerCluster + s) %
          2 ^ 64)).flatMap dirEntries), buf') := by
  induction sectors generalizing buf with
  | nil => exact ⟨buf, rfl⟩
  | cons s sectors ih =>
    rw [Fat32.scanSectors, List.map_cons, List.flatMap_cons, scanSlots_append, h.sector_eq]
    cases scanSlots name83 (dirEntries (image.sector _)) with
    | some r => exact ⟨_, rfl⟩
    | none => exact ih _

/-- With fuel for its chain the search returns what the scan of all slots returns. -/
theorem findRootFrom_eq (name83 : List UInt8) {clusters : List Nat} {cluster fuel : Nat}
    (hchain : Chain (image.link partition) InDirectory cluster clusters)
    (hfuel : clusters.length < fuel) (buf : List UInt8) :
    ∃ buf', fs.findRootFrom name83 fuel cluster buf =
      some ((scanSlots name83 (clusters.flatMap (image.clusterSlots partition))).getD 0, buf') := by
  induction clusters generalizing cluster fuel buf with
  | nil =>
    obtain ⟨fuel, rfl⟩ := Nat.exists_eq_add_one_of_ne_zero (Nat.ne_of_gt hfuel)
    rw [Fat32.findRootFrom, if_neg (show ¬ cluster < fat32Eoc from hchain)]
    exact ⟨buf, rfl⟩
  | cons c clusters ih =>
    obtain ⟨rfl, hlive, hrest⟩ := hchain
    obtain ⟨fuel, rfl⟩ := Nat.exists_eq_add_one_of_ne_zero (Nat.ne_of_gt (Nat.zero_lt_of_lt hfuel))
    obtain ⟨buf', hscan⟩ := h.scanSectors_eq name83 c (List.range fs.gSectorsPerCluster) buf
    rw [Fat32.findRootFrom, if_pos (show c < fat32Eoc from hlive), hscan, List.flatMap_cons,
      scanSlots_append, SectorImage.clusterSlots, SectorImage.clusterSectors,
        ← h.gSectorsPerCluster]
    dsimp only
    cases scanSlots name83 _ with
    | some r => exact ⟨buf', rfl⟩
    | none =>
      dsimp only
      rw [h.fatEntry_eq hlive]
      exact ih hrest (Nat.lt_of_succ_lt_succ hfuel) _

/-- The bytes of some sectors are copied behind what has been copied, as far as they may be. -/
theorem copySectors_eq (cluster dest maxBytes : Nat) (sectors : List Nat) {copied : Fat32.Copied}
    (hle : copied.total ≤ maxBytes) :
    CopiesOn dest maxBytes copied
      (fs.copySectors (fs.clusterToLba cluster) dest maxBytes sectors copied)
      (sectors.map fun s ↦ image.sector ((image.dataStart partition +
        (cluster + 2 ^ 32 - 2) % 2 ^ 32 * (image.bpb partition).sectorsPerCluster + s) %
          2 ^ 64)).flatten := by
  induction sectors generalizing copied with
  | nil => exact .nothing hle
  | cons s sectors ih =>
    rw [Fat32.copySectors, List.map_cons, List.flatten_cons]
    by_cases hfull : maxBytes ≤ copied.total
    · rw [if_pos hfull]
      exact .full (Nat.le_antisymm hle hfull) _
    · rw [if_neg hfull]
      dsimp only
      have hcopy : (if maxBytes - copied.total < 512 then maxBytes - copied.total else 512) =
          min (maxBytes - copied.total) 512 := by
        split <;> omega
      rw [h.sector_eq cluster s copied.sectorBuf, hcopy]
      refine .trans hle (.sector dest (image.length_sector _) hle) (ih ?_)
      dsimp only
      omega

/-- With fuel for its chain the read copies the bytes of all clusters, as far as it may. -/
theorem readFileFrom_eq (dest maxBytes : Nat) {clusters : List Nat} {cluster fuel : Nat}
    (hchain : Chain (image.link partition) InData cluster clusters)
    (hfuel : clusters.length < fuel) {copied : Fat32.Copied} (hle : copied.total ≤ maxBytes)
    (buf : List UInt8) :
    ∃ copied' buf', fs.readFileFrom dest maxBytes fuel cluster copied buf = some (copied', buf') ∧
      CopiesOn dest maxBytes copied copied'
        (clusters.flatMap (image.clusterBytes partition)) := by
  induction clusters generalizing cluster fuel copied buf with
  | nil =>
    obtain ⟨fuel, rfl⟩ := Nat.exists_eq_add_one_of_ne_zero (Nat.ne_of_gt hfuel)
    rw [Fat32.readFileFrom, if_neg (show ¬ (2 ≤ cluster ∧ cluster < fat32Eoc) from hchain)]
    exact ⟨copied, buf, rfl, .nothing hle⟩
  | cons c clusters ih =>
    obtain ⟨rfl, hlive, hrest⟩ := hchain
    obtain ⟨fuel, rfl⟩ := Nat.exists_eq_add_one_of_ne_zero (Nat.ne_of_gt (Nat.zero_lt_of_lt hfuel))
    rw [Fat32.readFileFrom, if_pos (show 2 ≤ c ∧ c < fat32Eoc from hlive)]
    by_cases hfull : maxBytes ≤ copied.total
    · rw [if_pos hfull]
      exact ⟨copied, buf, rfl, .full (Nat.le_antisymm hle hfull) _⟩
    · rw [if_neg hfull, h.gSectorsPerCluster]
      dsimp only
      have hcluster : CopiesOn dest maxBytes copied
        (fs.copySectors (fs.clusterToLba c) dest maxBytes
          (List.range (image.bpb partition).sectorsPerCluster) copied)
          (image.clusterBytes partition c) := h.copySectors_eq c dest maxBytes _ hle
      rw [h.fatEntry_eq hlive.2]
      -- Behind this cluster the copy goes on where its bytes end.
      obtain ⟨copied', buf', hrun, hcopied⟩ :=
        ih hrest (Nat.lt_of_succ_lt_succ hfuel) hcluster.total_le (fs.fatEntry c buf).2
      exact ⟨copied', buf', hrun, hcluster.trans hle hcopied⟩

end Mounted

/-- A read has returned `size` bytes of a file, or as many as it may, and stored them at `dest`, one
by one, and nothing else. -/
structure Delivers (copied : Fat32.Copied) (dest maxBytes size : Nat) (bytes : List UInt8) :
    Prop where
  total : copied.total = min size maxBytes
  stores : copied.stores = copyTo dest (bytes.take copied.total)
  loaded : ∀ m : Memory, (m.storeAll copied.stores).load dest copied.total = bytes.take copied.total
  kept : ∀ (m : Memory) (p : Nat), p < dest ∨ dest + copied.total ≤ p →
    m.storeAll copied.stores p = m p

/-- A read from the start delivers what it has copied. -/
theorem CopiesOn.delivers {copied : Fat32.Copied} {dest maxBytes : Nat}
    {bytes sectorBuf : List UInt8}
    (h : CopiesOn dest maxBytes ⟨0, [], sectorBuf⟩ copied bytes) :
    Delivers copied dest maxBytes bytes.length bytes := by
  have htotal : copied.total = min bytes.length maxBytes := by rw [h.total, Nat.zero_add]
  have htake : bytes.take maxBytes = bytes.take copied.total := by
    rw [htotal, Nat.min_comm, ← List.take_eq_take_min]
  have hlen : (bytes.take copied.total).length = copied.total := by
    rw [List.length_take, htotal]
    omega
  have hstores : copied.stores = copyTo dest (bytes.take copied.total) := by
    rw [h.stores, List.nil_append, Nat.add_zero, Nat.sub_zero, htake]
  refine ⟨htotal, hstores, ?_, ?_⟩
  · intro m
    rw [hstores, m.storeAll_copyTo, m.load_store_take dest _ (Nat.le_of_eq hlen.symm),
      List.take_take, Nat.min_self]
  · intro m p hp
    rw [hstores, m.storeAll_copyTo, m.store_outside (by rw [hlen]; exact hp)]

/-- On a volume with sectors of 512 bytes the search of a root directory whose chain ends finds the
first slot that carries the name, and a read of a chain that ends delivers its bytes. -/
theorem fat32_loads {image : SectorImage} {partition : Nat} {fs : Fat32} {buf : List UInt8}
    (hinit : (fat32Init partition image.reader buf).1 = some fs)
    (h512 : fs.bpb.bytesPerSector = 512) :
    (∀ clusters, Chain (image.link partition) InDirectory fs.gRootCluster clusters →
      ∀ name83 : List UInt8, name83.length = 11 →
      ∀ fuel, clusters.length < fuel → ∀ gSectorBuf, ∃ gSectorBuf',
        fs.findRoot fuel name83 gSectorBuf =
          some (((firstSlot name83 (clusters.flatMap (image.clusterSlots partition))).map
            startCluster).getD 0, gSectorBuf')) ∧
    ∀ c clusters, Chain (image.link partition) InData c clusters →
      ∀ dest maxBytes fuel, clusters.length < fuel → ∀ sectorBuf gSectorBuf,
        ∃ copied gSectorBuf',
          fs.readFile fuel c dest maxBytes sectorBuf gSectorBuf = some (copied, gSectorBuf') ∧
          Delivers copied dest maxBytes (clusters.length * fs.gBytesPerCluster)
            (clusters.flatMap (image.clusterBytes partition)) := by
  have h := mounted_of_init hinit
  have hcluster : fs.gBytesPerCluster = 512 * (image.bpb partition).sectorsPerCluster := by
    rw [h.gBytesPerCluster, ← h.bpb, h512]
  constructor
  · intro clusters hchain name83 hname fuel hfuel gSectorBuf
    obtain ⟨gSectorBuf', hrun⟩ := h.findRootFrom_eq name83 hchain hfuel gSectorBuf
    refine ⟨gSectorBuf', ?_⟩
    rw [Fat32.findRoot, hrun, scanSlots_getD hname]
    intro e he
    obtain ⟨c, -, he⟩ := List.mem_flatMap.mp he
    obtain ⟨sector, hs, he⟩ := List.mem_flatMap.mp he
    obtain ⟨s, -, rfl⟩ := List.mem_map.mp hs
    exact length_dirEntries (image.length_sector _) he
  · intro c clusters hchain dest maxBytes fuel hfuel sectorBuf gSectorBuf
    have hstart : (Fat32.Copied.mk 0 [] sectorBuf).total ≤ maxBytes := Nat.zero_le _
    obtain ⟨copied, gSectorBuf', hrun, hcopied⟩ :=
      h.readFileFrom_eq dest maxBytes hchain hfuel hstart gSectorBuf
    have hsize : (clusters.flatMap (image.clusterBytes partition)).length =
        clusters.length * fs.gBytesPerCluster := by
      rw [length_flatMap_const _ _ (image.length_clusterBytes partition), hcluster]
    refine ⟨copied, gSectorBuf', hrun, ?_⟩
    rw [← hsize]
    exact hcopied.delivers

/-! ### A small volume -/

/-- `KERNEL  ELF`. -/
def kernelName83 : List UInt8 := [0x4B, 0x45, 0x52, 0x4E, 0x45, 0x4C, 0x20, 0x20, 0x45, 0x4C, 0x46]

/-- A boot sector with sectors of 512 bytes, one reserved sector and one table of `fatSize`. -/
def bootSector (sectorsPerCluster fatSize : Nat) : List UInt8 :=
  List.replicate 11 0 ++ (leBytes 2 512 ++ (leBytes 1 sectorsPerCluster ++ (leBytes 2 1 ++
    (leBytes 1 1 ++ (List.replicate 19 0 ++ (leBytes 4 fatSize ++ (List.replicate 4 0 ++
      (leBytes 4 2 ++ List.replicate 464 0))))))))

theorem length_bootSector (sectorsPerCluster fatSize : Nat) :
    (bootSector sectorsPerCluster fatSize).length = 512 := by
  simp only [bootSector, List.length_append, length_leBytes, List.length_replicate]

/-- Clusters of one sector: the root directory in cluster 2 and the kernel in cluster 3. -/
def smallFatImage : SectorImage where
  sector
    | 0 => bootSector 1 1
    | 1 => leBytes 4 0x0FFFFFF8 ++ (leBytes 4 0x0FFFFFFF ++ (leBytes 4 0x0FFFFFFF ++
        (leBytes 4 0x0FFFFFFF ++ List.replicate 496 0)))
    | 2 => kernelName83 ++ ([0x20] ++ (List.replicate 14 0 ++ (leBytes 2 3 ++ (leBytes 4 512 ++
        List.replicate 480 0))))
    | _ => List.replicate 512 0xAA
  length_sector
    | 0 => length_bootSector 1 1
    | 1 => by simp only [List.length_append, length_leBytes, List.length_replicate]
    | 2 => by
      simp only [kernelName83, List.length_append, length_leBytes, List.length_replicate,
        List.length_cons, List.length_nil]
    | _ + 3 => List.length_replicate

/-- The kernel is found, and the first hundred bytes of it are read. -/
theorem fat32_loads_small : ∃ fs, (fat32Init 0 smallFatImage.reader []).1 = some fs ∧
    (∃ gSectorBuf', fs.findRoot 2 kernelName83 [] = some (3, gSectorBuf')) ∧
    ∃ copied gSectorBuf', fs.readFile 2 3 0x1000000 100 [] [] = some (copied, gSectorBuf') ∧
      Delivers copied 0x1000000 100 512 (List.replicate 512 0xAA) := by
  have hinit : ∃ fs, (fat32Init 0 smallFatImage.reader []).1 = some fs ∧
      fs.bpb.bytesPerSector = 512 ∧ fs.gRootCluster = 2 ∧ fs.gBytesPerCluster = 512 :=
    ⟨_, rfl, by decide, by decide, by decide⟩
  obtain ⟨fs, hinit, h512, hroot, hcluster⟩ := hinit
  obtain ⟨hfind, hread⟩ := fat32_loads hinit h512
  refine ⟨fs, hinit, ?_, ?_⟩
  · have hslot : ((firstSlot kernelName83 ([2].flatMap (smallFatImage.clusterSlots 0))).map
        startCluster).getD 0 = 3 := by decide
    rw [hroot] at hfind
    have hfound := hfind [2] (by decide) kernelName83 rfl 2 (by decide) []
    rwa [hslot] at hfound
  · have hbytes : [3].flatMap (smallFatImage.clusterBytes 0) = List.replicate 512 0xAA := by
      decide +kernel
    have hdelivered := hread 3 [3] (by decide) 0x1000000 100 2 (by decide) [] []
    rwa [hbytes, hcluster] at hdelivered

end SmallOs.Boot
