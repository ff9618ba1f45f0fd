import SmallOs.Gpt.Manager
import SmallOs.Ntfs.Torn

/-!
# Which volumes are mounted

`NtfsDriver::mount` of `lib/vfs/src/fs/ntfs/mod.rs` takes the geometry of a volume from its boot
sector. What the driver does later rests on it: sectors and clusters have a size, a record holds its
header, and the MFT has an address.
-/

namespace SmallOs.Ntfs

open SmallOs.Base SmallOs.Hal

/-! ### The geometry -/

/-- The geometry supports what the driver does with it. -/
structure NtfsDriver.Usable (driver : NtfsDriver) : Prop where
  sector : driver.boot.bytesPerSector ≠ 0
  cluster : driver.boot.sectorsPerCluster ≠ 0
  record : 48 ≤ driver.mftRecordSize
  mft : ∃ offset, driver.boot.mftByteOffset = .ok offset

/-- The volume is mounted with a usable geometry, or refused as no boot sector. -/
def MountSound (result : Outcome NtfsError NtfsDriver) : Prop :=
  (∃ driver, result = .ok driver ∧ driver.Usable) ∨ result = .err .invalidBootSector

/-- The two signatures of a boot sector. -/
def HasBootSignature (buf : List UInt8) : Prop :=
  slice buf 0x03 8 = [0x4E, 0x54, 0x46, 0x53, 0x20, 0x20, 0x20, 0x20] ∧
    slice buf 0x1FE 2 = [0x55, 0xAA]

instance (buf : List UInt8) : Decidable (HasBootSignature buf) :=
  inferInstanceAs (Decidable (_ ∧ _))

/-- The signed byte that gives the size of a record. -/
def clustersPerRecord (buf : List UInt8) : Int := (UInt8.ofNat (leAt buf 0x40 1)).toInt8.toInt

/-- The bytes of a cluster. -/
def clusterBytes (buf : List UInt8) : Nat := leAt buf 0x0B 2 * leAt buf 0x0D 1

/-- What the fields of a boot sector have to be. A size of `2 ^ 6` bytes is the first power of two
that holds the header of a record, and `2 ^ 63` the last one that is a word. -/
structure GeometryUsable (buf : List UInt8) (partitionByteOffset : UInt64) : Prop where
  sector : leAt buf 0x0B 2 ≠ 0
  cluster : leAt buf 0x0D 1 ≠ 0
  clusters : 0 < clustersPerRecord buf → 48 ≤ clustersPerRecord buf * clusterBytes buf
  exponent : clustersPerRecord buf ≤ 0 → -63 ≤ clustersPerRecord buf ∧ clustersPerRecord buf ≤ -6
  mft : partitionByteOffset.toNat + leAt buf 0x30 8 * clusterBytes buf < 2 ^ 64

/-- What a boot sector with its signatures says of the geometry. -/
structure Says (buf : List UInt8) (partitionByteOffset : UInt64) (boot : BootSector) : Prop where
  sector : boot.bytesPerSector.toNat = leAt buf 0x0B 2
  cluster : boot.sectorsPerCluster.toNat = leAt buf 0x0D 1
  total : boot.totalSectors.toNat = leAt buf 0x28 8
  mft : boot.mftStartCluster.toNat = leAt buf 0x30 8
  record : boot.clustersPerMftRecord.toInt = clustersPerRecord buf
  volume : boot.partitionByteOffset = partitionByteOffset

theorem fromBytes_of_signature {buf : List UInt8} (partitionByteOffset : UInt64)
    (h : HasBootSignature buf) : ∃ boot, BootSector.fromBytes buf partitionByteOffset = .ok boot ∧
      Says buf partitionByteOffset boot := by
  rw [BootSector.fromBytes, Outcome.ensure_of h.1, Outcome.ok_bind, Outcome.ensure_of h.2,
    Outcome.ok_bind]
  refine ⟨_, rfl, ?_, ?_, ?_, ?_, rfl, rfl⟩
  · exact UInt16.toNat_ofNat_of_lt' (leAt_lt buf 0x0B 2)
  · exact UInt8.toNat_ofNat_of_lt' (leAt_lt buf 0x0D 1)
  · exact UInt64.toNat_ofNat_of_lt' (leAt_lt buf 0x28 8)
  · exact UInt64.toNat_ofNat_of_lt' (leAt_lt buf 0x30 8)

theorem fromBytes_of_no_signature {buf : List UInt8} (partitionByteOffset : UInt64)
    (h : ¬ HasBootSignature buf) :
    BootSector.fromBytes buf partitionByteOffset = .err .invalidBootSector := by
  rw [BootSector.fromBytes]
  by_cases hoem : slice buf 0x03 8 = [0x4E, 0x54, 0x46, 0x53, 0x20, 0x20, 0x20, 0x20]
  · rw [Outcome.ensure_of hoem, Outcome.ok_bind, Outcome.ensure_not fun hend ↦ h ⟨hoem, hend⟩]
    rfl
  · rw [Outcome.ensure_not hoem]
    rfl

/-- The bytes of a record as the driver computes them. -/
theorem mftRecordSize_cases {buf : List UInt8} {partitionByteOffset : UInt64} {boot : BootSector}
    (h : Says buf partitionByteOffset boot) :
    0 < clustersPerRecord buf ∧
        boot.mftRecordSize = .ok ((clustersPerRecord buf).toNat * clusterBytes buf) ∨
      clustersPerRecord buf ≤ 0 ∧ -63 ≤ clustersPerRecord buf ∧
        boot.mftRecordSize = .ok (2 ^ (-clustersPerRecord buf).toNat) ∨
      clustersPerRecord buf < -63 ∧ boot.mftRecordSize = .panic := by
  rw [BootSector.mftRecordSize, BootSector.bytesPerCluster, h.record, h.sector, h.cluster,
    ← clusterBytes]
  by_cases hpos : 0 < clustersPerRecord buf
  · rw [if_pos hpos]
    exact .inl ⟨hpos, rfl⟩
  rw [if_neg hpos]
  dsimp only
  by_cases hexp : (-clustersPerRecord buf).toNat < 64
  · rw [Outcome.assert_of hexp]
    exact .inr (.inl ⟨by omega, by omega, rfl⟩)
  · rw [Outcome.assert_not hexp]
    exact .inr (.inr ⟨by omega, rfl⟩)

theorem two_pow_ge_iff {n : Nat} : 48 ≤ 2 ^ n ↔ 6 ≤ n := by
  constructor
  · intro h
    by_contra hlt
    have hle : 2 ^ n ≤ 2 ^ 5 := Nat.pow_le_pow_right (by decide) (by omega)
    omega
  · intro h
    have hle : 2 ^ 6 ≤ 2 ^ n := Nat.pow_le_pow_right (by decide) h
    omega

/-- The MFT has an address when the sum is a word. -/
theorem mftByteOffset_ok_iff {buf : List UInt8} {partitionByteOffset : UInt64} {boot : BootSector}
    (h : Says buf partitionByteOffset boot) : (∃ offset, boot.mftByteOffset = .ok offset) ↔
      partitionByteOffset.toNat + leAt buf 0x30 8 * clusterBytes buf < 2 ^ 64 := by
  rw [BootSector.mftByteOffset, BootSector.bytesPerCluster, h.volume, h.mft, h.sector, h.cluster,
    ← clusterBytes]
  simp only [Outcome.bind_eq_ok, Outcome.mulAt_eq_ok, Outcome.addAt_eq_ok]
  constructor
  · rintro ⟨offset, _, ⟨-, rfl⟩, hsum, -⟩
    exact hsum
  · intro hsum
    exact ⟨_, _, ⟨by omega, rfl⟩, hsum, rfl⟩

/-- A driver of a boot sector is usable when its fields are. -/
theorem usable_iff {buf : List UInt8} {partitionByteOffset : UInt64} {boot : BootSector}
    {size : Nat}
    (h : Says buf partitionByteOffset boot) (hsize : boot.mftRecordSize = .ok size) :
    NtfsDriver.Usable ⟨boot, size⟩ ↔ GeometryUsable buf partitionByteOffset := by
  have hsector : boot.bytesPerSector ≠ 0 ↔ leAt buf 0x0B 2 ≠ 0 := by
    rw [← h.sector, Ne, ← UInt16.toNat_inj]
    rfl
  have hcluster : boot.sectorsPerCluster ≠ 0 ↔ leAt buf 0x0D 1 ≠ 0 := by
    rw [← h.cluster, Ne, ← UInt8.toNat_inj]
    rfl
  have hmft := mftByteOffset_ok_iff h
  have hrecord : 48 ≤ size ↔
      (0 < clustersPerRecord buf → 48 ≤ clustersPerRecord buf * clusterBytes buf) ∧
        (clustersPerRecord buf ≤ 0 → -63 ≤ clustersPerRecord buf ∧ clustersPerRecord buf ≤ -6) := by
    rcases mftRecordSize_cases h with ⟨hpos, hok⟩ | ⟨hneg, hlow, hok⟩ | ⟨-, hpanic⟩
    · obtain rfl := Outcome.ok.inj (hsize.symm.trans hok)
      have hcast : (((clustersPerRecord buf).toNat * clusterBytes buf : Nat) : Int) =
          clustersPerRecord buf * clusterBytes buf := by
        rw [Int.natCast_mul, Int.toNat_of_nonneg (by omega)]
      constructor
      · intro hle
        exact ⟨fun _ ↦ by omega, fun hle ↦ by omega⟩
      · rintro ⟨hle, -⟩
        have := hle hpos
        omega
    · obtain rfl := Outcome.ok.inj (hsize.symm.trans hok)
      rw [two_pow_ge_iff]
      constructor
      · intro hle
        exact ⟨fun hpos ↦ by omega, fun _ ↦ ⟨hlow, by omega⟩⟩
      · rintro ⟨-, hle⟩
        have := hle hneg
        omega
    · rw [hsize] at hpanic
      cases hpanic
  constructor
  · rintro ⟨h₁, h₂, h₃, h₄⟩
    exact ⟨hsector.mp h₁, hcluster.mp h₂, (hrecord.mp h₃).1, (hrecord.mp h₃).2, hmft.mp h₄⟩
  · rintro ⟨h₁, h₂, h₃, h₄, h₅⟩
    exact ⟨hsector.mpr h₁, hcluster.mpr h₂, hrecord.mpr ⟨h₃, h₄⟩, hmft.mpr h₅⟩

/-! ### Mounting -/

section Device

variable {D : Type} [BlockDevice D]

theorem mount_fst {partitionByteOffset : UInt64} {d d' : D} {buf : List UInt8}
    (hread : readBlocks partitionByteOffset.toNat 512 d = (.ok buf, d')) :
    (mount partitionByteOffset d).1 = BootSector.fromBytes buf partitionByteOffset >>= fun boot ↦
      boot.mftRecordSize >>= fun mftRecordSize ↦ pure { boot, mftRecordSize } := by
  rw [mount, Prog.bind_of_ok hread]
  cases hboot : BootSector.fromBytes buf partitionByteOffset with
  | err e => rw [Prog.bind_of_err (Prog.lift_apply _ _)]; rfl
  | panic => rw [Prog.bind_of_panic (Prog.lift_apply _ _)]; rfl
  | ok boot =>
    rw [Prog.bind_of_ok (Prog.lift_apply _ _), Outcome.ok_bind]
    cases boot.mftRecordSize <;> rfl

/-- A mount is sound exactly when the sector is no boot sector, or one of a usable geometry. -/
theorem mountSound_iff {partitionByteOffset : UInt64} {d d' : D} {buf : List UInt8}
    (hread : readBlocks partitionByteOffset.toNat 512 d = (.ok buf, d')) :
    MountSound (mount partitionByteOffset d).1 ↔
      ¬ HasBootSignature buf ∨ GeometryUsable buf partitionByteOffset := by
  rw [mount_fst hread]
  by_cases hsigned : HasBootSignature buf
  swap
  · rw [fromBytes_of_no_signature _ hsigned]
    exact iff_of_true (.inr rfl) (.inl hsigned)
  obtain ⟨boot, hboot, hfields⟩ := fromBytes_of_signature partitionByteOffset hsigned
  rw [hboot, Outcome.ok_bind, or_iff_right (not_not_intro hsigned)]
  cases hsize : boot.mftRecordSize with
  | ok size =>
    rw [Outcome.ok_bind, ← usable_iff hfields hsize]
    constructor
    · rintro (⟨driver, hdriver, husable⟩ | herr)
      · obtain rfl := Outcome.ok.inj hdriver
        exact husable
      · cases herr
    · exact fun husable ↦ .inl ⟨_, rfl, husable⟩
  | err e =>
    rcases mftRecordSize_cases hfields with ⟨-, hok⟩ | ⟨-, -, hok⟩ | ⟨-, hpanic⟩
    · rw [hok] at hsize
      cases hsize
    · rw [hok] at hsize
      cases hsize
    · rw [hpanic] at hsize
      cases hsize
  | panic =>
    refine iff_of_false ?_ ?_
    · rintro (⟨driver, hdriver, -⟩ | herr)
      · cases hdriver
      · cases herr
    · rintro ⟨-, -, -, hexponent, -⟩
      rcases mftRecordSize_cases hfields with ⟨-, hok⟩ | ⟨-, -, hok⟩ | ⟨hlow, -⟩
      · rw [hok] at hsize
        cases hsize
      · rw [hok] at hsize
        cases hsize
      · have := hexponent (by omega)
        omega

end Device

/-- The boot sector of a volume of sectors of 512 bytes, two of them a cluster. -/
def bootImage (clustersPerMftRecord : UInt8) : List UInt8 :=
  [0xEB, 0x52, 0x90] ++ [0x4E, 0x54, 0x46, 0x53, 0x20, 0x20, 0x20, 0x20] ++ leBytes 2 512 ++ [2] ++
    List.replicate 50 0 ++ [clustersPerMftRecord] ++ List.replicate 445 0 ++ [0x55, 0xAA]

theorem length_bootImage (clustersPerMftRecord : UInt8) :
    (bootImage clustersPerMftRecord).length = 512 := by
  simp only [bootImage, List.length_append, length_leBytes, List.length_replicate]
  rfl

/-- A device that holds it alone. -/
def bootVolume (clustersPerMftRecord : UInt8) : ByteStore where
  bytes := bootImage clustersPerMftRecord
  blockSize := 512
  blockCount := 1
  length_bytes := length_bootImage clustersPerMftRecord

theorem readBlocks_bootVolume (clustersPerMftRecord : UInt8) :
    readBlocks (UInt64.toNat 0) 512 (bootVolume clustersPerMftRecord) =
      (.ok (bootImage clustersPerMftRecord), bootVolume clustersPerMftRecord) := by
  have hread : (bootVolume clustersPerMftRecord).read 0 512 =
      some (bootImage clustersPerMftRecord) := by
    refine ByteStore.read_eq_some.mpr ⟨?_, slice_all _ _ (length_bootImage _).symm⟩
    exact Nat.le_of_eq (length_bootImage _).symm
  have hzero : UInt64.toNat 0 = 0 := rfl
  rw [hzero, readBlocks_byteStore, hread, Outcome.ofOption]

/-- Records of `2 ^ 10` bytes. -/
theorem mountSound_usable : MountSound (mount 0 (bootVolume 0xF6)).1 := by
  have hgeometry : GeometryUsable (bootImage 0xF6) 0 :=
    ⟨by decide, by decide, by decide, by decide, by decide⟩
  exact (mountSound_iff (readBlocks_bootVolume 0xF6)).mpr (.inr hgeometry)

/-- Records of one byte. -/
theorem mountSound_unset :
    readBlocks (UInt64.toNat 0) 512 (bootVolume 0) = (.ok (bootImage 0), bootVolume 0) ∧
    ¬ MountSound (mount 0 (bootVolume 0)).1 := by
  refine ⟨readBlocks_bootVolume 0, ?_⟩
  rw [mount_fst (readBlocks_bootVolume 0)]
  have hsigned : HasBootSignature (bootImage 0) := by decide +kernel
  obtain ⟨boot, hboot, hfields⟩ := fromBytes_of_signature 0 hsigned
  have hsize : boot.mftRecordSize = .ok 1 := by
    have hclusters : clustersPerRecord (bootImage 0) = 0 := by decide
    rw [BootSector.mftRecordSize, hfields.record, hclusters]
    rfl
  rw [hboot, Outcome.ok_bind, hsize]
  rintro (⟨driver, hdriver, husable⟩ | herr)
  · obtain rfl := Outcome.ok.inj hdriver
    have hrecord := husable.record
    dsimp only at hrecord
    omega
  · cases herr

/-! ### The boot sector of the partitioner -/

/-- What is put into a buffer is found there, and everything beside it stays. -/
theorem slice_of_putAt {b data c : List UInt8} {off : Nat}
    (h : (putAt b off data : Outcome Gpt.GptError _) = .ok c) :
    c.length = b.length ∧ slice c off data.length = data ∧
      ∀ off' len, off' + len ≤ off ∨ off + data.length ≤ off' →
        slice c off' len = slice b off' len := by
  obtain ⟨hfit, rfl⟩ := putAt_eq_ok.mp h
  exact ⟨length_splice _ _ _ hfit, slice_splice_same _ _ _ hfit,
    fun off' len hapart ↦ slice_splice_disjoint _ _ _ _ _ hfit hapart⟩

/-- The fields of a new boot sector. -/
structure NewBootSector (totalSectors : UInt64) (sectorSize : Nat) (image : List UInt8) : Prop where
  long : image.length = sectorSize
  oem : slice image 3 8 = Gpt.oemId
  sector : leAt image 0x0B 2 = sectorSize % 2 ^ 16
  cluster : leAt image 0x0D 1 = 8
  total : leAt image 0x28 8 = totalSectors.toNat
  mft : leAt image 0x30 8 = 2
  record : leAt image 0x40 1 = 0
  last : slice image 0x1FE 2 = [0x55, 0xAA]

theorem newBootSector_of_create {totalSectors : UInt64} {sectorSize : Nat} {image : List UInt8}
    (h : Gpt.createNtfsBootSector totalSectors sectorSize = .ok image) :
    512 ≤ sectorSize ∧ NewBootSector totalSectors sectorSize image := by
  simp only [Gpt.createNtfsBootSector, Outcome.bind_eq_ok, Outcome.ensure_eq_ok] at h
  obtain ⟨-, hsize, b₁, h₁, b₂, h₂, b₃, h₃, b₄, h₄, b₅, h₅, b₆, h₆, b₇, h₇, b₈, h₈, h₉⟩ := h
  obtain ⟨hl₁, -, f₁⟩ := slice_of_putAt h₁
  obtain ⟨hl₂, w₂, f₂⟩ := slice_of_putAt h₂
  obtain ⟨hl₃, w₃, f₃⟩ := slice_of_putAt h₃
  obtain ⟨hl₄, w₄, f₄⟩ := slice_of_putAt h₄
  obtain ⟨hl₅, w₅, f₅⟩ := slice_of_putAt h₅
  obtain ⟨hl₆, w₆, f₆⟩ := slice_of_putAt h₆
  obtain ⟨hl₇, w₇, f₇⟩ := slice_of_putAt h₇
  obtain ⟨hl₈, w₈, f₈⟩ := slice_of_putAt h₈
  obtain ⟨hl₉, w₉, f₉⟩ := slice_of_putAt h₉
  simp only [Gpt.oemId, List.length_cons, List.length_nil, length_leBytes] at *
  refine ⟨hsize, ?_, ?_, ?_, ?_, ?_, ?_, ?_, ?_⟩
  · rw [hl₉, hl₈, hl₇, hl₆, hl₅, hl₄, hl₃, hl₂, hl₁, List.length_replicate]
  · simp (disch := omega) only [f₉, f₈, f₇, f₆, f₅, f₄, f₃]
    exact w₂
  · simp (disch := omega) only [leAt, f₉, f₈, f₇, f₆, f₅, f₄]
    have hlt : sectorSize % 2 ^ 16 < 256 ^ 2 := Nat.mod_lt _ (by decide)
    rw [w₃, leNat_leBytes_of_lt hlt]
  · simp (disch := omega) only [leAt, f₉, f₈, f₇, f₆, f₅]
    rw [w₄]
    rfl
  · simp (disch := omega) only [leAt, f₉, f₈, f₇, f₆]
    rw [w₅, leNat_leBytes_of_lt totalSectors.toNat_lt]
  · simp (disch := omega) only [leAt, f₉, f₈, f₇]
    rw [w₆]
    rfl
  · simp (disch := omega) only [leAt, f₉, f₈, f₇, f₆, f₅, f₄, f₃, f₂, f₁]
    have hone : min 1 (sectorSize - 0x40) = 1 := by omega
    rw [slice, List.drop_replicate, List.take_replicate, hone]
    rfl
  · have hjoin : slice image 0x1FE 2 = slice image 0x1FE 1 ++ slice image 0x1FF 1 :=
      slice_add image 0x1FE 1 1
    rw [hjoin, w₉, f₉ 0x1FE 1 (.inl (by omega)), w₈]
    rfl

/-- The image starts with a boot sector that the driver can work with. -/
structure MountsBack (totalSectors : UInt64) (sectorSize : Nat) (partitionByteOffset : UInt64)
    (image : List UInt8) (boot : BootSector) : Prop where
  parsed : BootSector.fromBytes (slice image 0 512) partitionByteOffset = .ok boot
  sector : boot.bytesPerSector.toNat = sectorSize
  cluster : boot.sectorsPerCluster = 8
  total : boot.totalSectors = totalSectors
  mft : boot.mftStartCluster = 2
  record : ∃ size, boot.mftRecordSize = .ok size ∧ 48 ≤ size

/-- The driver reads the fields back, a sector size beyond 16 bits apart; records have one byte. -/
theorem fromBytes_createNtfsBootSector {totalSectors : UInt64} {sectorSize : Nat}
    {image : List UInt8}
    (h : Gpt.createNtfsBootSector totalSectors sectorSize = .ok image)
    (partitionByteOffset : UInt64) :
    ∃ boot, BootSector.fromBytes (slice image 0 512) partitionByteOffset = .ok boot ∧
      boot.bytesPerSector.toNat = sectorSize % 2 ^ 16 ∧ boot.sectorsPerCluster = 8 ∧
      boot.totalSectors = totalSectors ∧ boot.mftStartCluster = 2 ∧ boot.mftRecordSize = .ok 1 := by
  obtain ⟨hsize, hnew⟩ := newBootSector_of_create h
  have hword : ∀ {off n : Nat}, off + n ≤ 512 →
      leAt (slice image 0 512) off n = leAt image off n := by
    intro off n hin
    rw [leAt, leAt, slice_slice _ _ _ _ _ hin, Nat.zero_add]
  have hsigned : HasBootSignature (slice image 0 512) := by
    refine ⟨?_, ?_⟩
    · rw [slice_slice _ _ _ _ _ (by decide), Nat.zero_add]
      exact hnew.oem
    · rw [slice_slice _ _ _ _ _ (by decide), Nat.zero_add]
      exact hnew.last
  obtain ⟨boot, hboot, hfields⟩ := fromBytes_of_signature partitionByteOffset hsigned
  have hclusters : clustersPerRecord (slice image 0 512) = 0 := by
    rw [clustersPerRecord, hword (by decide), hnew.record]
    rfl
  refine ⟨boot, hboot, ?_, ?_, ?_, ?_, ?_⟩
  · rw [hfields.sector, hword (by decide), hnew.sector]
  · apply UInt8.toNat_inj.mp
    rw [hfields.cluster, hword (by decide), hnew.cluster]
    rfl
  · apply UInt64.toNat_inj.mp
    rw [hfields.total, hword (by decide), hnew.total]
  · apply UInt64.toNat_inj.mp
    rw [hfields.mft, hword (by decide), hnew.mft]
    rfl
  · rw [BootSector.mftRecordSize, hfields.record, hclusters]
    rfl

/-- No boot sector that the partitioner writes is one that the driver can work with. -/
theorem not_mountsBack {totalSectors : UInt64} {sectorSize : Nat} {image : List UInt8}
    (h : Gpt.createNtfsBootSector totalSectors sectorSize = .ok image)
      (partitionByteOffset : UInt64)
    (boot : BootSector) : ¬ MountsBack totalSectors sectorSize partitionByteOffset image boot := by
  rintro ⟨hparsed, -, -, -, -, size, hsize, hle⟩
  obtain ⟨boot', hboot, -, -, -, -, hone⟩ := fromBytes_createNtfsBootSector h partitionByteOffset
  obtain rfl := Outcome.ok.inj (hparsed.symm.trans hboot)
  obtain rfl := Outcome.ok.inj (hsize.symm.trans hone)
  omega

theorem not_mountsBack_small : ∃ image, Gpt.createNtfsBootSector 100 512 = .ok image ∧
    ∀ boot, ¬ MountsBack 100 512 0 image boot := by
  have hreturns : (Gpt.createNtfsBootSector 100 512).isOk = true := by decide +kernel
  obtain ⟨image, himage⟩ := Outcome.isOk_iff.mp hreturns
  exact ⟨image, himage, fun boot ↦ not_mountsBack himage 0 boot⟩

/-- The partitioner's own sector size. -/
theorem mountsBack_fails : ¬ ∀ (totalSectors : UInt64) (sectorSize : Nat) (image : List UInt8),
    Gpt.createNtfsBootSector totalSectors sectorSize = .ok image →
      ∃ boot, MountsBack totalSectors sectorSize 0 image boot := by
  intro h
  have hreturns : (Gpt.createNtfsBootSector 100 512).isOk = true := by decide +kernel
  obtain ⟨image, himage⟩ := Outcome.isOk_iff.mp hreturns
  obtain ⟨boot, hparsed, -, -, -, -, size, hsize, hle⟩ := h 100 512 image himage
  obtain ⟨boot', hboot, -, -, -, -, hone⟩ := fromBytes_createNtfsBootSector himage 0
  obtain rfl := Outcome.ok.inj (hparsed.symm.trans hboot)
  obtain rfl := Outcome.ok.inj (hsize.symm.trans hone)
  omega

/-- Reading the metadata of any file of such a volume panics. -/
theorem stat_panics_of_short {D : Type} [BlockDevice D] {driver : NtfsDriver} {file : NtfsFile}
    {d : D} {raw : List UInt8} (h : RecordImage driver file.recordNumber d raw)
    (hshort : driver.mftRecordSize < 4) : (stat driver file d).1 = .panic := by
  have hlong := h.long
  have hopen : openRecord driver raw = .panic := by
    rw [openRecord, sliceAt, Outcome.assert_not (by omega)]
    rfl
  have hread := readMftRecord_fst h
  rw [hopen] at hread
  rw [stat, Prog.bind_of_panic (Prod.ext hread rfl)]

end SmallOs.Ntfs
