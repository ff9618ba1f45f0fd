import SmallOs.Boot.Fat32

/-!
# The search for the kernel

`ntfs_has_kernel` of `bootloader/stage3/src/disk_probe.c` slides a window over one sector after
the other. The partition in front of it is one string of bytes, in which the name may lie across
the end of a sector.
-/

namespace SmallOs.Boot

open SmallOs.Base

/-- The first 512 sectors of a partition as one string; the sector number wraps. -/
def SectorImage.front (image : SectorImage) (partLba : Nat) : List UInt8 :=
  (List.range 512).flatMap fun s ↦ image.sector ((partLba + s) % 2 ^ 64)

/-- The target lies at the place. -/
def OccursAt (target b : List UInt8) (i : Nat) : Prop :=
  i + target.length ≤ b.length ∧ slice b i target.length = target

/-- If the name occurs, then also at a place where it does not cross the end of a sector. -/
def WithinSector (b : List UInt8) : Prop :=
  kernelU16 <:+: b → ∃ i, OccursAt kernelU16 b i ∧ i % 512 + kernelU16.length ≤ 512

/-! ### Occurrences -/

/-- A string occurs in another when it lies at one of its places. -/
theorem infix_iff_occursAt {target b : List UInt8} : target <:+: b ↔ ∃ i, OccursAt target b i := by
  constructor
  · rintro ⟨front, back, rfl⟩
    refine ⟨front.length, ?_, ?_⟩
    · simp only [List.length_append]
      omega
    · rw [List.append_assoc]
      exact slice_middle _ _ _ rfl rfl
  · rintro ⟨i, -, hslice⟩
    refine ⟨b.take i, (b.drop i).drop target.length, ?_⟩
    have hrest : target ++ (b.drop i).drop target.length = b.drop i :=
      (congrArg (· ++ (b.drop i).drop target.length) hslice.symm).trans (List.take_append_drop _ _)
    rw [List.append_assoc, hrest, List.take_append_drop]

/-- The window slides over all places of a sector. -/
theorem sectorHasKernel_iff {b : List UInt8} (hlen : b.length = 512) :
    sectorHasKernel b = true ↔ ∃ i, OccursAt kernelU16 b i := by
  simp only [sectorHasKernel, List.any_eq_true, List.mem_range, decide_eq_true_eq, OccursAt, hlen]
  have hfits : ∀ i, i < 512 - kernelU16.length + 1 ↔ i + kernelU16.length ≤ 512 := by
    intro i
    have hname : kernelU16.length = 20 := rfl
    omega
  simp only [hfits]

/-- The scan finds the name in one of the sectors. -/
theorem scanKernel_iff (image : SectorImage) (partLba : Nat) (sectors : List Nat)
    (gSector : List UInt8) :
    scanKernel image.reader partLba sectors gSector = true ↔
      ∃ s ∈ sectors, ∃ i, OccursAt kernelU16 (image.sector ((partLba + s) % 2 ^ 64)) i := by
  induction sectors generalizing gSector with
  | nil =>
    apply iff_of_false
    · exact Bool.false_ne_true
    · rintro ⟨s, hs, -⟩
      exact List.not_mem_nil hs
  | cons s sectors ih =>
    have hsector : image.reader ((partLba + s) % 2 ^ 64) gSector =
        image.sector ((partLba + s) % 2 ^ 64) := rfl
    rw [scanKernel, hsector, Bool.or_eq_true, sectorHasKernel_iff (image.length_sector _), ih,
      List.exists_mem_cons_iff]

/-! ### The string of the partition -/

section Front

variable (image : SectorImage) (partLba : Nat)

theorem length_front : (image.front partLba).length = 512 * 512 := by
  rw [SectorImage.front, length_flatMap_const _ 512 (fun _ ↦ image.length_sector _),
    List.length_range]

/-- A window within a sector. -/
theorem slice_front {s i len : Nat} (hs : s < 512) (hi : i + len ≤ 512) :
    slice (image.front partLba) (512 * s + i) len =
      slice (image.sector ((partLba + s) % 2 ^ 64)) i len := by
  have hlt : s < (List.range 512).length := by rwa [List.length_range]
  have hsector := slice_flatMap (fun s ↦ image.sector ((partLba + s) % 2 ^ 64)) 512
    (fun _ ↦ image.length_sector _) (List.range 512) s hlt
  rw [List.getElem_range] at hsector
  rw [← hsector, slice_slice _ _ _ _ _ hi, Nat.mul_comm]
  rfl

/-- The name lies at a place of a sector when it lies there in the string. -/
theorem occursAt_front {s i : Nat} (hs : s < 512) (hi : i + kernelU16.length ≤ 512) :
    OccursAt kernelU16 (image.front partLba) (512 * s + i) ↔
      OccursAt kernelU16 (image.sector ((partLba + s) % 2 ^ 64)) i := by
  rw [OccursAt, OccursAt, slice_front image partLba hs hi, image.length_sector, length_front]
  apply and_congr_left
  intro _
  apply iff_of_true _ hi
  omega

end Front

/-- The search finds the name exactly where it occurs within a sector. -/
theorem ntfsHasKernel_iff_within (image : SectorImage) (partLba : Nat) (gSector : List UInt8) :
    ntfsHasKernel image.reader partLba gSector = true ↔
      ∃ i, OccursAt kernelU16 (image.front partLba) i ∧ i % 512 + kernelU16.length ≤ 512 := by
  rw [ntfsHasKernel, scanKernel_iff]
  constructor
  · rintro ⟨s, hs, i, hoccurs⟩
    have hlt := List.mem_range.mp hs
    have hi : i + kernelU16.length ≤ 512 := by
      rw [← image.length_sector ((partLba + s) % 2 ^ 64)]
      exact hoccurs.1
    have hplace : (512 * s + i) % 512 = i := by
      have hname : kernelU16.length = 20 := rfl
      omega
    exact ⟨512 * s + i, (occursAt_front image partLba hlt hi).mpr hoccurs, by rwa [hplace]⟩
  · rintro ⟨i, hoccurs, hi⟩
    have hlt : i / 512 < 512 := by
      have hend := hoccurs.1
      have hname : kernelU16.length = 20 := rfl
      rw [length_front] at hend
      omega
    have hplace : 512 * (i / 512) + i % 512 = i := Nat.div_add_mod i 512
    refine ⟨i / 512, List.mem_range.mpr hlt, i % 512, ?_⟩
    rwa [← occursAt_front image partLba hlt hi, hplace]

/-- The search is a search of the first 256 KiB as one string exactly when the name, if it occurs,
occurs at a place where it does not cross the end of a sector. -/
theorem ntfsHasKernel_iff (image : SectorImage) (partLba : Nat) (gSector : List UInt8) :
    (ntfsHasKernel image.reader partLba gSector = true ↔ kernelU16 <:+: image.front partLba) ↔
      WithinSector (image.front partLba) := by
  rw [ntfsHasKernel_iff_within, WithinSector, infix_iff_occursAt]
  constructor
  · intro h
    exact h.mpr
  · intro h
    refine ⟨?_, h⟩
    rintro ⟨i, hoccurs, -⟩
    exact ⟨i, hoccurs⟩

/-! ### A name on the boundary -/

/-- The name in two sectors, five letters in each. -/
def splitName : SectorImage where
  sector
    | 0 => List.replicate 502 0 ++ kernelU16.take 10
    | 1 => kernelU16.drop 10 ++ List.replicate 502 0
    | _ => List.replicate 512 0
  length_sector
    | 0 => by
      simp only [List.length_append, List.length_replicate]
      rfl
    | 1 => by
      simp only [List.length_append, List.length_replicate]
      rfl
    | _ + 2 => List.length_replicate

/-- No sector has both a `K` and an `F`. -/
theorem not_occursAt_splitName (lba i : Nat) : ¬OccursAt kernelU16 (splitName.sector lba) i := by
  intro hoccurs
  have hsub := (infix_iff_occursAt.mpr ⟨i, hoccurs⟩).subset
  have hfirst : (0x4B : UInt8) ∈ splitName.sector lba := hsub (by decide)
  have hlast : (0x46 : UInt8) ∈ splitName.sector lba := hsub (by decide)
  match lba with
  | 0 =>
    rcases List.mem_append.mp hlast with h | h
    · exact absurd (List.eq_of_mem_replicate h) (by decide)
    · exact absurd h (by decide)
  | 1 =>
    rcases List.mem_append.mp hfirst with h | h
    · exact absurd h (by decide)
    · exact absurd (List.eq_of_mem_replicate h) (by decide)
  | lba + 2 => exact absurd (List.eq_of_mem_replicate hfirst) (by decide)

/-- The name is in the string, and the search does not find it. -/
theorem ntfsHasKernel_splitName : kernelU16 <:+: splitName.front 0 ∧
    ntfsHasKernel splitName.reader 0 [] = false := by
  constructor
  · have hrange : List.range 512 = 0 :: 1 :: List.range' 2 510 := by decide +kernel
    refine ⟨List.replicate 502 0, List.replicate 502 0 ++ (List.range' 2 510).flatMap
      fun s ↦ splitName.sector ((0 + s) % 2 ^ 64), ?_⟩
    have hfirst : splitName.sector ((0 + 0) % 2 ^ 64) =
        List.replicate 502 0 ++ kernelU16.take 10 := rfl
    have hsecond : splitName.sector ((0 + 1) % 2 ^ 64) =
        kernelU16.drop 10 ++ List.replicate 502 0 := rfl
    rw [SectorImage.front, hrange, List.flatMap_cons, List.flatMap_cons, hfirst, hsecond]
    have hname (rest : List UInt8) :
        kernelU16.take 10 ++ (kernelU16.drop 10 ++ rest) = kernelU16 ++ rest := by
      rw [← List.append_assoc, List.take_append_drop]
    simp only [List.append_assoc, hname]
  · rw [← Bool.not_eq_true, ntfsHasKernel, scanKernel_iff]
    rintro ⟨s, -, i, hoccurs⟩
    exact not_occursAt_splitName _ i hoccurs

end SmallOs.Boot
