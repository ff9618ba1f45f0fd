import SmallOs.Boot.Fat32

/-!
# The table of a classic MBR

`probe_mbr` of `bootloader/stage3/src/disk_probe.c` walks the table in the buffer that
`is_ntfs_boot` reads the first sector of a partition into. Behind a failed check the slots that
are left belong to that sector.
-/

namespace SmallOs.Boot

open SmallOs.Base

/-- The fields of `MbrPartEntry` that the probe reads. -/
structure MbrPartEntry where
  type : Nat
  lbaStart : Nat
  deriving DecidableEq, Repr

/-- `mbr->parts[i]` of the sector in the buffer. -/
def mbrPart (gSector : List UInt8) (i : Nat) : MbrPartEntry where
  type := leAt gSector (446 + 16 * i + 4) 1
  lbaStart := leAt gSector (446 + 16 * i + 8) 4

/-- An NTFS type and a start. -/
def MbrPartEntry.IsCandidate (e : MbrPartEntry) : Prop := e.type = 0x07 ∧ e.lbaStart ≠ 0

instance (e : MbrPartEntry) : Decidable e.IsCandidate := inferInstanceAs (Decidable (_ ∧ _))

section Scan

variable (image : SectorImage)

/-- The sector starts with the OEM signature of NTFS. -/
def SectorImage.isNtfs (lba : Nat) : Bool := slice (image.sector lba) 3 8 = ntfsSig

/-- The entry names an NTFS partition. -/
def SectorImage.namesNtfs (e : MbrPartEntry) : Bool := e.IsCandidate && image.isNtfs e.lbaStart

/-- Where the partition of the first entry starts that names one. -/
def SectorImage.firstNtfs (entries : List MbrPartEntry) : Option Nat :=
  (entries.find? image.namesNtfs).map MbrPartEntry.lbaStart

/-- The table in LBA 0. -/
def SectorImage.mbrTable : List MbrPartEntry := (List.range 4).map (mbrPart (image.sector 0))

/-- The buffer behind the check of an entry. -/
def SectorImage.bufferAfter (e : MbrPartEntry) (gSector : List UInt8) : List UInt8 :=
  if e.IsCandidate then image.sector e.lbaStart else gSector

/-- The entries that the loop comes to look at, slot by slot, in whatever sector the buffer
holds. -/
def SectorImage.seenFrom : List Nat → List UInt8 → List MbrPartEntry
  | [], _ => []
  | i :: slots, gSector =>
    mbrPart gSector i :: seenFrom slots (image.bufferAfter (mbrPart gSector i) gSector)

/-- The probe names the partition of the first entry of LBA 0 that names one. -/
def FindsMbr (r : DiskProbe) : Prop :=
  match image.firstNtfs image.mbrTable with
  | some lba => r.ntfsLba = lba ∧ (r.result = .found ∨ r.result = .noKernel)
  | none => r.result = .noNtfs

/-- Where the first entry with an NTFS type and a start lacks the signature, the slots behind it
lead to the same partition in the sectors that are left in the buffer as in LBA 0. -/
def TableKept : Prop :=
  ∀ k < 4, (∀ j < k, ¬(mbrPart (image.sector 0) j).IsCandidate) →
    (mbrPart (image.sector 0) k).IsCandidate →
    image.isNtfs (mbrPart (image.sector 0) k).lbaStart = false →
    image.firstNtfs (image.seenFrom (List.range' (k + 1) (3 - k))
        (image.sector (mbrPart (image.sector 0) k).lbaStart)) =
      image.firstNtfs ((List.range' (k + 1) (3 - k)).map (mbrPart (image.sector 0)))

instance : Decidable (TableKept image) := inferInstanceAs (Decidable (∀ k < 4, _))

variable {image}

/-- One slot of the loop. -/
theorem scanMbr_cons (i : Nat) (slots : List Nat) (gSector : List UInt8) :
    scanMbr image.reader (i :: slots) gSector =
      if (mbrPart gSector i).IsCandidate then
        if image.isNtfs (mbrPart gSector i).lbaStart then
          probePartition image.reader (mbrPart gSector i).lbaStart
            (image.sector (mbrPart gSector i).lbaStart)
        else scanMbr image.reader slots (image.sector (mbrPart gSector i).lbaStart)
      else scanMbr image.reader slots gSector := by
  have hskip : (mbrPart gSector i).type = 0x00 ∨ (mbrPart gSector i).lbaStart = 0 ∨
      (mbrPart gSector i).type ≠ 0x07 ↔ ¬(mbrPart gSector i).IsCandidate := by
    rw [MbrPartEntry.IsCandidate]
    omega
  rw [scanMbr]
  by_cases hc : (mbrPart gSector i).IsCandidate
  · rw [if_pos hc]
    exact if_neg (hskip.not_left.mpr hc)
  · rw [if_neg hc]
    exact if_pos (hskip.mpr hc)

theorem namesNtfs_of_candidate {e : MbrPartEntry} (h : e.IsCandidate) :
    image.namesNtfs e = image.isNtfs e.lbaStart := by
  rw [SectorImage.namesNtfs, decide_eq_true h, Bool.true_and]

theorem namesNtfs_of_not {e : MbrPartEntry} (h : ¬e.IsCandidate) : image.namesNtfs e = false := by
  rw [SectorImage.namesNtfs, decide_eq_false h, Bool.false_and]

theorem firstNtfs_cons (e : MbrPartEntry) (entries : List MbrPartEntry) :
    image.firstNtfs (e :: entries) =
      if image.namesNtfs e then some e.lbaStart else image.firstNtfs entries := by
  rw [SectorImage.firstNtfs, List.find?_cons]
  cases image.namesNtfs e <;> rfl

/-- The loop finds the first of the entries that it looks at. -/
theorem scanMbr_eq (slots : List Nat) (gSector : List UInt8) :
    scanMbr image.reader slots gSector =
      match image.firstNtfs (image.seenFrom slots gSector) with
      | some lba => probePartition image.reader lba (image.sector lba)
      | none => ⟨.noNtfs, 0⟩ := by
  induction slots generalizing gSector with
  | nil => rfl
  | cons i slots ih =>
    rw [scanMbr_cons, SectorImage.seenFrom, firstNtfs_cons, SectorImage.bufferAfter]
    generalize mbrPart gSector i = e
    by_cases hc : e.IsCandidate
    · rw [if_pos hc, if_pos hc, namesNtfs_of_candidate hc, ih]
      cases image.isNtfs e.lbaStart <;> rfl
    · rw [if_neg hc, if_neg hc, namesNtfs_of_not hc, ih]
      rfl

/-- From a slot on the loop sees what LBA 0 has, up to a check that fails. -/
theorem firstNtfs_seenFrom (gSector : List UInt8) (n k : Nat) :
    image.firstNtfs (image.seenFrom (List.range' k n) gSector) =
        image.firstNtfs ((List.range' k n).map (mbrPart gSector)) ↔
      ∀ i, k ≤ i → i < k + n → (∀ j, k ≤ j → j < i → ¬(mbrPart gSector j).IsCandidate) →
        (mbrPart gSector i).IsCandidate → image.isNtfs (mbrPart gSector i).lbaStart = false →
        image.firstNtfs (image.seenFrom (List.range' (i + 1) (k + n - (i + 1)))
            (image.sector (mbrPart gSector i).lbaStart)) =
          image.firstNtfs ((List.range' (i + 1) (k + n - (i + 1))).map (mbrPart gSector)) := by
  induction n generalizing k with
  | zero =>
    constructor
    · intro _ i hlow hhigh
      omega
    · intro _
      rfl
  | succ n ih =>
    have hrest : k + (n + 1) - (k + 1) = n := by omega
    rw [List.range'_succ, SectorImage.seenFrom, List.map_cons, firstNtfs_cons, firstNtfs_cons,
      SectorImage.bufferAfter]
    by_cases hc : (mbrPart gSector k).IsCandidate
    · rw [if_pos hc, namesNtfs_of_candidate hc]
      constructor
      · intro hsame i hlow hhigh hfront hi hfails
        obtain rfl : i = k := by
          by_contra hne
          exact hfront k (Nat.le_refl k) (by omega) hc
        rw [hfails] at hsame
        rw [hrest]
        exact hsame
      · intro hall
        cases hntfs : image.isNtfs (mbrPart gSector k).lbaStart with
        | true => rfl
        | false =>
          have hkept := hall k (Nat.le_refl k) (by omega) (fun j hlow hlt ↦ by omega) hc hntfs
          rw [hrest] at hkept
          exact hkept
    · rw [if_neg hc, namesNtfs_of_not hc]
      refine (ih (k + 1)).trans ?_
      have hend : k + 1 + n = k + (n + 1) := by omega
      rw [hend]
      constructor
      · intro hall i hlow hhigh hfront hi hfails
        have hne : k ≠ i := by
          rintro rfl
          exact hc hi
        exact hall i (by omega) hhigh (fun j hlow hlt ↦ hfront j (by omega) hlt) hi hfails
      · intro hall i hlow hhigh hfront hi hfails
        apply hall i (by omega) hhigh _ hi hfails
        intro j hlow' hlt
        by_cases hj : j = k
        · rw [hj]
          exact hc
        · exact hfront j (by omega) hlt

/-- All slots are seen as LBA 0 has them exactly when a check that fails does no harm. -/
theorem tableKept_iff : TableKept image ↔
    image.firstNtfs (image.seenFrom (List.range 4) (image.sector 0)) =
      image.firstNtfs image.mbrTable := by
  have hscan := @firstNtfs_seenFrom image (image.sector 0) 4 0
  rw [SectorImage.mbrTable, List.range_eq_range', hscan]
  have hrest : ∀ k < 4, 0 + 4 - (k + 1) = 3 - k := by
    intro k hk
    omega
  constructor
  · intro h i _ hi hfront hc hfails
    rw [hrest i hi]
    exact h i hi (fun j hj ↦ hfront j (Nat.zero_le j) hj) hc hfails
  · intro h k hk hfront hc hfails
    have hkept := h k (Nat.zero_le k) hk (fun j _ hj ↦ hfront j hj) hc hfails
    rwa [hrest k hk] at hkept

end Scan

/-- A word of a blank sector is zero. -/
theorem leAt_of_zeros {b : List UInt8} (h : b.all (· = 0) = true) (off n : Nat) :
    leAt b off n = 0 := by
  have hzero : ∀ bytes : List UInt8, (∀ x ∈ bytes, x = 0) → leNat bytes = 0 := by
    intro bytes hbytes
    induction bytes with
    | nil => rfl
    | cons x bytes ih =>
      rw [leNat, hbytes x List.mem_cons_self, ih fun y hy ↦ hbytes y (List.mem_cons_of_mem _ hy)]
      rfl
  apply hzero
  intro x hx
  have hmem := List.mem_of_mem_drop (List.mem_of_mem_take hx)
  exact of_decide_eq_true (List.all_eq_true.mp h x hmem)

/-- With a classic MBR the probe walks the table of LBA 0. -/
theorem diskProbe_classic {image : SectorImage} (hsig : leAt (image.sector 0) 510 2 = 0xAA55)
    (hclassic : leAt (image.sector 0) 450 1 ≠ 0xEE) (buffers : Buffers) :
    diskProbe image.reader buffers =
      .ok (scanMbr image.reader (List.range 4) (image.sector 0)) := by
  have hsector : image.reader 0 buffers.gSector = image.sector 0 := rfl
  have hzero : ¬(image.sector 0).all (· = 0) = true := by
    intro hall
    exact absurd (hsig.symm.trans (leAt_of_zeros hall 510 2)) (by decide)
  simp only [diskProbe, hsector, if_neg hzero, if_neg (not_not_intro hsig), if_neg hclassic]
  rfl

/-- On a disk with a classic MBR the probe names the partition of the first entry of LBA 0 that
names one, or none, exactly when a check that fails leaves no other table behind. -/
theorem findsMbr_iff {image : SectorImage} (hsig : leAt (image.sector 0) 510 2 = 0xAA55)
    (hclassic : leAt (image.sector 0) 450 1 ≠ 0xEE) (buffers : Buffers) :
    ∃ r, diskProbe image.reader buffers = .ok r ∧ (FindsMbr image r ↔ TableKept image) := by
  refine ⟨_, diskProbe_classic hsig hclassic buffers, ?_⟩
  rw [tableKept_iff, scanMbr_eq, FindsMbr]
  cases image.firstNtfs (image.seenFrom (List.range 4) (image.sector 0)) with
  | none =>
    cases image.firstNtfs image.mbrTable with
    | none => exact iff_of_true rfl rfl
    | some lba =>
      apply iff_of_false
      · intro h
        cases h.2 <;> contradiction
      · intro h
        cases h
  | some seen =>
    have hresult := probePartition_result image.reader seen (image.sector seen)
    cases image.firstNtfs image.mbrTable with
    | none =>
      apply iff_of_false
      · intro h
        have hnone : (probePartition image.reader seen (image.sector seen)).result = .noNtfs := h
        exact absurd (hnone ▸ hresult) (by decide)
      · intro h
        cases h
    | some lba =>
      constructor
      · intro h
        have hlba : (probePartition image.reader seen (image.sector seen)).ntfsLba = lba := h.1
        exact congrArg some hlba
      · intro h
        exact ⟨Option.some.inj h, hresult⟩

/-! ### Two partitions of the type -/

/-- A sector with the given entries in the first two slots of its table. -/
def mbrSector (first second : Nat) : List UInt8 :=
  List.replicate 450 0 ++ ([0x07, 0, 0, 0] ++ (leBytes 4 first ++ (List.replicate 8 0 ++
    ([0x07, 0, 0, 0] ++ (leBytes 4 second ++ (List.replicate 36 0 ++ [0x55, 0xAA]))))))

/-- Partitions of the type at sectors 10 and 20, of which only the one at `signed` is formatted. -/
def twoPartitions (signed : Nat) : SectorImage where
  sector lba :=
    if lba = 0 then mbrSector 10 20
    else if lba = signed then List.replicate 3 0 ++ (ntfsSig ++ List.replicate 501 0)
    else List.replicate 512 0
  length_sector lba := by
    split
    · simp only [mbrSector, List.length_append, List.length_replicate, length_leBytes,
        List.length_cons, List.length_nil]
    split
    · simp only [ntfsSig, List.length_append, List.length_replicate, List.length_cons,
        List.length_nil]
    · exact List.length_replicate

/-- With the first partition formatted it is found. -/
theorem findsMbr_iff_ten : ∃ r, diskProbe (twoPartitions 10).reader ⟨[], [], []⟩ = .ok r ∧
    FindsMbr (twoPartitions 10) r ∧ r.ntfsLba = 10 := by
  have hsig : leAt ((twoPartitions 10).sector 0) 510 2 = 0xAA55 := by decide +kernel
  have hclassic : leAt ((twoPartitions 10).sector 0) 450 1 ≠ 0xEE := by decide
  have hkept : TableKept (twoPartitions 10) := by decide +kernel
  have hfirst : (twoPartitions 10).firstNtfs (twoPartitions 10).mbrTable = some 10 := by
    decide +kernel
  obtain ⟨r, hr, hfinds⟩ := findsMbr_iff hsig hclassic ⟨[], [], []⟩
  -- The sectors have been looked at; the image is not to be unfolded any more.
  generalize twoPartitions 10 = image at *
  have hfound := hfinds.mpr hkept
  refine ⟨r, hr, hfound, ?_⟩
  rw [FindsMbr, hfirst] at hfound
  exact hfound.1

/-- With only the second one formatted none is found. -/
theorem not_findsMbr_twenty : leAt ((twoPartitions 20).sector 0) 510 2 = 0xAA55 ∧
    leAt ((twoPartitions 20).sector 0) 450 1 ≠ 0xEE ∧
    (twoPartitions 20).firstNtfs (twoPartitions 20).mbrTable = some 20 ∧
    ∃ r, diskProbe (twoPartitions 20).reader ⟨[], [], []⟩ = .ok r ∧ r.result = .noNtfs ∧
      ¬FindsMbr (twoPartitions 20) r := by
  have hsig : leAt ((twoPartitions 20).sector 0) 510 2 = 0xAA55 := by decide +kernel
  have hclassic : leAt ((twoPartitions 20).sector 0) 450 1 ≠ 0xEE := by decide
  have hfirst : (twoPartitions 20).firstNtfs (twoPartitions 20).mbrTable = some 20 := by
    decide +kernel
  have hseen : (twoPartitions 20).firstNtfs
      ((twoPartitions 20).seenFrom (List.range 4) ((twoPartitions 20).sector 0)) = none := by
    decide +kernel
  refine ⟨hsig, hclassic, hfirst, _, diskProbe_classic hsig hclassic _, ?_, ?_⟩
  · rw [scanMbr_eq, hseen]
  · rw [scanMbr_eq, hseen, FindsMbr, hfirst]
    intro h
    exact absurd h.2 (by decide)

end SmallOs.Boot
