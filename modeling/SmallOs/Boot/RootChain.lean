import SmallOs.Boot.Fat32

/-!
# The chain of the root directory

`fat32_find_root` of `bootloader/stage3/src/fat32.c` follows the links of the table with no bound
and no lower limit on the numbers, which `fat32_read_file` has both. What ends the search for every
name is an end mark or a slot that terminates the directory.
-/

namespace SmallOs.Boot

open SmallOs.Base

/-- The slot terminates the directory. -/
def isTerminator (e : List UInt8) : Bool := e.getD 0 0 = 0x00

/-- The loop over clusters once more, with the clusters that it reads;
`bootloader/stage3/src/fat32.c:87–120`. -/
def Fat32.traceRootFrom (fs : Fat32) (name83 : List UInt8) :
    Nat → Nat → List UInt8 → List Nat × Option (Nat × List UInt8)
  | 0, _, _ => ([], none)
  | fuel + 1, cluster, gSectorBuf =>
    if cluster < fat32Eoc then
      match fs.scanSectors name83 (fs.clusterToLba cluster) (List.range fs.gSectorsPerCluster)
        gSectorBuf with
      | (some r, gSectorBuf) => ([cluster], some (r, gSectorBuf))
      | (none, gSectorBuf) =>
        let (next, gSectorBuf) := fs.fatEntry cluster gSectorBuf
        let (clusters, found) := fs.traceRootFrom name83 fuel next gSectorBuf
        (cluster :: clusters, found)
    else ([], some (0, gSectorBuf))

/-- The clusters that a search reads with some fuel. -/
def Fat32.clustersRead (fs : Fat32) (fuel : Nat) (name83 gSectorBuf : List UInt8) : List Nat :=
  (fs.traceRootFrom name83 fuel fs.gRootCluster gSectorBuf).1

/-- The search for any name ends, and reads clusters that there are. -/
structure RootSearchSafe (fs : Fat32) : Prop where
  ends : ∀ name83 gSectorBuf : List UInt8, name83.length = 11 →
    ∃ fuel r, fs.findRoot fuel name83 gSectorBuf = some r
  clusters : ∀ name83 gSectorBuf : List UInt8, name83.length = 11 →
    ∀ fuel, ∀ c ∈ fs.clustersRead fuel name83 gSectorBuf, 2 ≤ c

/-- Where the directory goes on behind a cluster: nowhere when a slot of it is a terminator. -/
def SectorImage.dirLink (image : SectorImage) (partition cluster : Nat) : Nat :=
  if (image.clusterSlots partition cluster).any isTerminator then fat32Eoc
  else image.link partition cluster

/-- The chain of the directory from a cluster on, as far as its terminator, ends, and its clusters
have numbers of clusters. -/
def DirectoryEnds (image : SectorImage) (partition cluster : Nat) : Prop :=
  ∃ clusters, Chain (image.dirLink partition) InDirectory cluster clusters ∧ ∀ c ∈ clusters, 2 ≤ c

/-- The loop with its log is the loop. -/
theorem traceRootFrom_snd (fs : Fat32) (name83 : List UInt8) (fuel cluster : Nat)
    (gSectorBuf : List UInt8) : (fs.traceRootFrom name83 fuel cluster gSectorBuf).2 =
      fs.findRootFrom name83 fuel cluster gSectorBuf := by
  induction fuel generalizing cluster gSectorBuf with
  | zero => rfl
  | succ fuel ih =>
    rw [Fat32.traceRootFrom, Fat32.findRootFrom]
    by_cases hin : cluster < fat32Eoc
    · rw [if_pos hin, if_pos hin]
      cases fs.scanSectors name83 (fs.clusterToLba cluster) (List.range fs.gSectorsPerCluster)
        gSectorBuf with
      | mk found buf =>
        cases found with
        | some r => rfl
        | none => exact ih _ _
    · rw [if_neg hin, if_neg hin]

/-! ### Slots -/

/-- A scan that goes on has seen no terminator. -/
theorem any_isTerminator_of_none {name83 : List UInt8} {dir : List (List UInt8)}
    (h : scanSlots name83 dir = none) : dir.any isTerminator = false := by
  induction dir with
  | nil => rfl
  | cons e dir ih =>
    rw [scanSlots] at h
    split at h
    · cases h
    next hgo =>
      rw [List.any_cons, isTerminator, decide_eq_false hgo, Bool.false_or]
      split at h
      · exact ih h
      split at h
      · exact ih h
      split at h
      · cases h
      · exact ih h

/-- A name that no slot can have, since a slot that starts like it is deleted. -/
def deletedName : List UInt8 := 0xE5 :: List.replicate 10 0

/-- The scan for such a name ends at a terminator only. -/
theorem scanSlots_deletedName (dir : List (List UInt8)) :
    scanSlots deletedName dir = if dir.any isTerminator then some 0 else none := by
  induction dir with
  | nil => rfl
  | cons e dir ih =>
    rw [scanSlots, List.any_cons]
    by_cases hend : e.getD 0 0 = 0x00
    · rw [if_pos hend, isTerminator, decide_eq_true hend, Bool.true_or, if_pos rfl]
    have hother : name83Match e deletedName = true → e.getD 0 0 = 0xE5 := by
      intro hmatch
      exact of_decide_eq_true (List.all_eq_true.mp hmatch 0 (List.mem_range.mpr (by decide)))
    rw [if_neg hend, ih, isTerminator, decide_eq_false hend, Bool.false_or]
    split
    · rfl
    next hlive =>
      split
      · rfl
      · rw [if_neg fun h ↦ hlive (hother h)]

/-! ### The loop -/

section Loop

variable {image : SectorImage} {partition : Nat} {fs : Fat32}

/-- One pass of the loop, in terms of the image. -/
theorem Mounted.traceRootFrom_succ (h : Mounted image partition fs) (name83 : List UInt8)
    {cluster : Nat} (hin : cluster < fat32Eoc) (fuel : Nat) (buf : List UInt8) :
    ∃ buf', fs.traceRootFrom name83 (fuel + 1) cluster buf =
      match scanSlots name83 (image.clusterSlots partition cluster) with
      | some r => ([cluster], some (r, buf'))
      | none =>
        (cluster :: (fs.traceRootFrom name83 fuel (image.dirLink partition cluster) buf').1,
          (fs.traceRootFrom name83 fuel (image.dirLink partition cluster) buf').2) := by
  obtain ⟨buf', hscan⟩ := h.scanSectors_eq name83 cluster (List.range fs.gSectorsPerCluster) buf
  have hslots : ((List.range fs.gSectorsPerCluster).map fun s ↦ image.sector
      ((image.dataStart partition + (cluster + 2 ^ 32 - 2) % 2 ^ 32 *
        (image.bpb partition).sectorsPerCluster + s) % 2 ^ 64)).flatMap dirEntries =
      image.clusterSlots partition cluster := by
    rw [h.gSectorsPerCluster]
    rfl
  rw [Fat32.traceRootFrom, if_pos hin, hscan, hslots]
  cases hfound : scanSlots name83 (image.clusterSlots partition cluster) with
  | some r => exact ⟨buf', rfl⟩
  | none =>
    refine ⟨(fs.fatEntry cluster buf').2, ?_⟩
    dsimp only
    rw [h.fatEntry_eq hin, SectorImage.dirLink, any_isTerminator_of_none hfound]
    rfl

/-- With fuel for the chain the search ends. -/
theorem Mounted.ends_of_chain (h : Mounted image partition fs) (name83 : List UInt8)
    {clusters : List Nat} {cluster fuel : Nat}
    (hchain : Chain (image.dirLink partition) InDirectory cluster clusters)
    (hfuel : clusters.length < fuel) (buf : List UInt8) :
    ∃ r, (fs.traceRootFrom name83 fuel cluster buf).2 = some r := by
  induction clusters generalizing cluster fuel buf with
  | nil =>
    obtain ⟨fuel, rfl⟩ := Nat.exists_eq_add_one_of_ne_zero (Nat.ne_of_gt hfuel)
    rw [Fat32.traceRootFrom, if_neg (show ¬cluster < fat32Eoc from hchain)]
    exact ⟨_, rfl⟩
  | cons c clusters ih =>
    obtain ⟨rfl, hin, hrest⟩ := hchain
    obtain ⟨fuel, rfl⟩ := Nat.exists_eq_add_one_of_ne_zero (Nat.ne_of_gt (Nat.zero_lt_of_lt hfuel))
    obtain ⟨buf', hpass⟩ := h.traceRootFrom_succ name83 (show c < fat32Eoc from hin) fuel buf
    rw [hpass]
    cases scanSlots name83 (image.clusterSlots partition c) with
    | some r => exact ⟨_, rfl⟩
    | none => exact ih hrest (Nat.lt_of_succ_lt_succ hfuel) buf'

/-- The search reads clusters of the chain. -/
theorem Mounted.clusters_of_chain (h : Mounted image partition fs) (name83 : List UInt8)
    {clusters : List Nat} {cluster : Nat}
    (hchain : Chain (image.dirLink partition) InDirectory cluster clusters) (fuel : Nat)
    (buf : List UInt8) : (fs.traceRootFrom name83 fuel cluster buf).1 ⊆ clusters := by
  induction clusters generalizing cluster fuel buf with
  | nil =>
    cases fuel with
    | zero => exact List.nil_subset _
    | succ fuel =>
      rw [Fat32.traceRootFrom, if_neg (show ¬cluster < fat32Eoc from hchain)]
      exact List.nil_subset _
  | cons c clusters ih =>
    obtain ⟨rfl, hin, hrest⟩ := hchain
    cases fuel with
    | zero => exact List.nil_subset _
    | succ fuel =>
      obtain ⟨buf', hpass⟩ := h.traceRootFrom_succ name83 (show c < fat32Eoc from hin) fuel buf
      rw [hpass]
      cases scanSlots name83 (image.clusterSlots partition c) with
      | some r => exact List.cons_subset_cons _ (List.nil_subset _)
      | none => exact List.cons_subset_cons _ (ih hrest fuel buf')

/-- The search for a name that no slot has reads the whole chain. -/
theorem Mounted.chain_of_ends (h : Mounted image partition fs) {fuel cluster : Nat}
    {buf : List UInt8} {r : Nat × List UInt8}
    (hends : (fs.traceRootFrom deletedName fuel cluster buf).2 = some r) :
    Chain (image.dirLink partition) InDirectory cluster
      (fs.traceRootFrom deletedName fuel cluster buf).1 := by
  induction fuel generalizing cluster buf with
  | zero => cases hends
  | succ fuel ih =>
    by_cases hin : cluster < fat32Eoc
    · obtain ⟨buf', hpass⟩ := h.traceRootFrom_succ deletedName hin fuel buf
      rw [hpass, scanSlots_deletedName] at hends
      rw [hpass, scanSlots_deletedName]
      by_cases hstop : (image.clusterSlots partition cluster).any isTerminator = true
      · have hlink : image.dirLink partition cluster = fat32Eoc := if_pos hstop
        rw [if_pos hstop]
        refine ⟨rfl, hin, ?_⟩
        rw [hlink]
        exact Nat.lt_irrefl fat32Eoc
      · rw [if_neg hstop] at hends
        rw [if_neg hstop]
        exact ⟨rfl, hin, ih hends⟩
    · rw [Fat32.traceRootFrom, if_neg hin]
      exact hin

end Loop

/-- On a volume that `fat32_init` accepts the search of the root directory is safe exactly when
the chain from the root cluster ends, at the latest with a terminator, in numbers of clusters. -/
theorem rootSearchSafe_iff {image : SectorImage} {partition : Nat} {fs : Fat32} {buf : List UInt8}
    (hinit : (fat32Init partition image.reader buf).1 = some fs) :
    RootSearchSafe fs ↔ DirectoryEnds image partition fs.gRootCluster := by
  have h := mounted_of_init hinit
  constructor
  · intro hsafe
    obtain ⟨fuel, r, hends⟩ := hsafe.ends deletedName [] rfl
    rw [Fat32.findRoot, ← traceRootFrom_snd] at hends
    exact ⟨_, h.chain_of_ends hends, hsafe.clusters deletedName [] rfl fuel⟩
  · rintro ⟨clusters, hchain, hclusters⟩
    refine ⟨?_, ?_⟩
    · intro name83 gSectorBuf _
      obtain ⟨r, hends⟩ := h.ends_of_chain name83 hchain (Nat.lt_succ_self _) gSectorBuf
      rw [traceRootFrom_snd] at hends
      exact ⟨_, r, hends⟩
    · intro name83 gSectorBuf _ fuel c hc
      exact hclusters c (h.clusters_of_chain name83 hchain fuel gSectorBuf hc)

/-- The root directory of the small volume ends in its first cluster. -/
theorem rootSearchSafe_iff_small : ∃ fs, (fat32Init 0 smallFatImage.reader []).1 = some fs ∧
    RootSearchSafe fs := by
  have hinit : ∃ fs, (fat32Init 0 smallFatImage.reader []).1 = some fs ∧ fs.gRootCluster = 2 :=
    ⟨_, rfl, by decide⟩
  obtain ⟨fs, hinit, hroot⟩ := hinit
  refine ⟨fs, hinit, (rootSearchSafe_iff hinit).mpr ⟨[2], ?_, ?_⟩⟩
  · rw [hroot]
    decide
  · decide

/-- A root directory of deleted slots, whose cluster is linked to itself. -/
def circularFatImage : SectorImage where
  sector
    | 0 => bootSector 1 1
    | 1 => leBytes 4 0x0FFFFFF8 ++ (leBytes 4 0x0FFFFFFF ++ (leBytes 4 2 ++ List.replicate 500 0))
    | _ => List.replicate 512 0xE5
  length_sector
    | 0 => length_bootSector 1 1
    | 1 => by simp only [List.length_append, length_leBytes, List.length_replicate]
    | _ + 2 => List.length_replicate

/-- The search for the kernel goes around in it with any fuel. -/
theorem findRoot_circularFatImage :
    ∃ fs, (fat32Init 0 circularFatImage.reader []).1 = some fs ∧
      ∀ fuel, fs.findRoot fuel kernelName83 [] = none := by
  have hinit : ∃ fs, (fat32Init 0 circularFatImage.reader []).1 = some fs ∧ fs.gRootCluster = 2 :=
    ⟨_, rfl, by decide⟩
  obtain ⟨fs, hinit, hroot⟩ := hinit
  have h := mounted_of_init hinit
  have hslots : scanSlots kernelName83 (circularFatImage.clusterSlots 0 2) = none := by
    decide +kernel
  have hlink : circularFatImage.dirLink 0 2 = 2 := by decide +kernel
  refine ⟨fs, hinit, ?_⟩
  intro fuel
  have hround : ∀ buf, fs.findRootFrom kernelName83 fuel 2 buf = none := by
    induction fuel with
    | zero =>
      intro buf
      rfl
    | succ fuel ih =>
      intro buf
      obtain ⟨buf', hpass⟩ :=
        h.traceRootFrom_succ kernelName83 (show 2 < fat32Eoc by decide) fuel buf
      rw [hslots, hlink] at hpass
      rw [← traceRootFrom_snd, hpass]
      exact (traceRootFrom_snd fs kernelName83 fuel 2 buf').trans (ih buf')
  rw [Fat32.findRoot, hroot]
  exact hround []

end SmallOs.Boot
