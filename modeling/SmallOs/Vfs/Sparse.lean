import SmallOs.Ntfs.RunList
import SmallOs.Vfs.StoredSize

/-!
# Sparse runs

A pair without a jump field names no clusters: that stretch of the file is zeros. The decoder has
no such case. It takes the missing jump as a jump of zero, and the reader reads on from the first
cluster of the run before.
-/

namespace SmallOs.Vfs

open SmallOs.Base SmallOs.Hal SmallOs.Ntfs

/-! ### What the pairs mean -/

/-- A stretch of a file. A sparse one has no clusters; `lcn` is then the position that later runs
count from. -/
structure Extent where
  lcn : Nat
  length : Nat
  sparse : Bool
  deriving DecidableEq, Repr

/-- The stretches that the pairs name from a position on. Only a run with a jump moves it. -/
def extentsFrom (prev : Int) : List DiskPair → List Extent
  | [] => []
  | pair :: pairs =>
    if pair.offsetSize = 0 then ⟨prev.toNat, pair.length, true⟩ :: extentsFrom prev pairs
    else ⟨(prev + pair.jump).toNat, pair.length, false⟩ :: extentsFrom (prev + pair.jump) pairs

namespace Extent

/-- A run without its kind. -/
def run (extent : Extent) : Nat × Nat := (extent.lcn, extent.length)

/-- The bytes of the file: those of its clusters, or zeros. -/
def content (boot : BootSector) (d : ByteStore) (extent : Extent) : List UInt8 :=
  if extent.sparse then List.replicate (extent.length * boot.bytesPerCluster) 0
  else slice d.bytes (boot.partitionByteOffset.toNat + extent.lcn * boot.bytesPerCluster)
    (extent.length * boot.bytesPerCluster)

/-- The window that the reader takes for the run lies on the device. -/
def InWindow (boot : BootSector) (d : ByteStore) (extent : Extent) : Prop :=
  extent.lcn * boot.bytesPerCluster / 512 + extent.length * boot.bytesPerCluster ≤ d.bytes.length

/-- The bytes of that window. -/
def window (boot : BootSector) (d : ByteStore) (extent : Extent) : List UInt8 :=
  slice d.bytes (extent.lcn * boot.bytesPerCluster / 512) (extent.length * boot.bytesPerCluster)

end Extent

/-- The stretches of a stream. -/
def extents (a : Attr) : List Extent := extentsFrom 0 (diskPairs a.data)

/-- The runs of a stream that have clusters. -/
def storedRuns (a : Attr) : List (Nat × Nat) :=
  ((extents a).filter fun extent ↦ extent.sparse = false).map Extent.run

/-- The bytes of a stream. -/
def extentBytes (boot : BootSector) (d : ByteStore) (a : Attr) : List UInt8 :=
  (extents a).flatMap (Extent.content boot d)

/-- Where the reader looks for a sparse run the device has zeros. -/
def HolesBlank (boot : BootSector) (d : ByteStore) (a : Attr) : Prop :=
  ∀ extent ∈ extents a, extent.sparse = true →
    d.read (extent.lcn * boot.bytesPerCluster / 512) (extent.length * boot.bytesPerCluster) =
      some (List.replicate (extent.length * boot.bytesPerCluster) 0)

/-- A non-resident file with ordinary and sparse runs in any order. Its header is valid, its
ordinary runs lie on the device, and its size fits into a word. -/
structure MixedFile (driver : NtfsDriver) (ino : Nat) (d : ByteStore) (a : Attr) : Prop where
  stream : OneStream driver ino d a
  nonResident : a.isResident = false
  header : ¬ RunsRefused a.data
  stays : StaysOn 0 (diskPairs a.data)
  placed : RunsPlaced driver.boot d (storedRuns a)
  total : runsBytes driver.boot ((extents a).map Extent.run) < 2 ^ 64

/-! ### What the decoder makes of them -/

/-- A jump field of no bytes is a jump of zero. -/
theorem pairsFrom_jump {attrData : List UInt8} {off : Nat} {pair : DiskPair}
    (h : pair ∈ pairsFrom attrData off) (hsparse : pair.offsetSize = 0) : pair.jump = 0 := by
  induction off using pairsFrom.induct attrData with
  | case1 off hnone =>
    rw [pairsFrom, hnone] at h
    exact absurd h List.not_mem_nil
  | case2 off first next hsome ih =>
    rw [pairsFrom, hsome] at h
    rcases List.mem_cons.mp h with rfl | h
    · unfold pairAt at hsome
      dsimp only at hsome
      split at hsome
      · cases hsome
      · cases hsome
        dsimp only at hsparse ⊢
        rw [hsparse]
        rfl
    · exact ih h

theorem diskPairs_jump {attrData : List UInt8} {pair : DiskPair} (h : pair ∈ diskPairs attrData)
    (hsparse : pair.offsetSize = 0) : pair.jump = 0 := by
  unfold diskPairs at h
  split at h
  · exact pairsFrom_jump h hsparse
  · exact absurd h List.not_mem_nil

/-- Sparse runs do not move the position that later runs count from. -/
theorem runsAt_eq_extentsFrom {prev : Int} {pairs : List DiskPair}
    (h : ∀ pair ∈ pairs, pair.offsetSize = 0 → pair.jump = 0) :
    runsAt prev pairs = (extentsFrom prev pairs).map Extent.run := by
  induction pairs generalizing prev with
  | nil => rfl
  | cons pair pairs ih =>
    obtain ⟨hpair, hpairs⟩ := List.forall_mem_cons.mp h
    rw [runsAt, extentsFrom, ih hpairs]
    split
    · next hsparse =>
      rw [hpair hsparse, Int.add_zero]
      rfl
    · rfl

/-- A sparse run stands at the first position or at that of a run with clusters. -/
theorem extentsFrom_lcn {prev : Int} {pairs : List DiskPair} {extent : Extent}
    (h : extent ∈ extentsFrom prev pairs) : extent.lcn = prev.toNat ∨
      ∃ stored ∈ extentsFrom prev pairs, stored.sparse = false ∧ stored.lcn = extent.lcn := by
  induction pairs generalizing prev with
  | nil => exact absurd h List.not_mem_nil
  | cons pair pairs ih =>
    rw [extentsFrom] at h ⊢
    split at h
    · next hsparse =>
      rw [if_pos hsparse]
      rcases List.mem_cons.mp h with rfl | h
      · exact .inl rfl
      rcases ih h with hfirst | ⟨stored, hmem, hstored⟩
      · exact .inl hfirst
      · exact .inr ⟨stored, List.mem_cons_of_mem _ hmem, hstored⟩
    · next hstored =>
      rw [if_neg hstored]
      rcases List.mem_cons.mp h with rfl | h
      · exact .inr ⟨_, List.mem_cons_self, rfl, rfl⟩
      rcases ih h with hfirst | ⟨stored, hmem, hstored⟩
      · exact .inr ⟨_, List.mem_cons_self, rfl, hfirst.symm⟩
      · exact .inr ⟨stored, List.mem_cons_of_mem _ hmem, hstored⟩

section Mixed

variable {driver : NtfsDriver} {ino : Nat} {d : ByteStore} {a : Attr}

/-- Every run is decoded at the position that the ordinary runs lead to. -/
theorem MixedFile.parsed (h : MixedFile driver ino d a)
    (hnarrow : ∀ pair ∈ diskPairs a.data, ¬ pair.Wide) :
    parseDataRuns a.data = .ok ((extents a).map Extent.run) := by
  rw [parseDataRuns_eq, if_neg h.header]
  exact decodePairs_eq_ok.mpr ⟨hnarrow, h.stays, runsAt_eq_extentsFrom fun _ ↦ diskPairs_jump⟩

/-- A wide pair ends the decoder in a panic. -/
theorem MixedFile.parsed_panic (h : MixedFile driver ino d a)
    (hwide : ¬ ∀ pair ∈ diskPairs a.data, ¬ pair.Wide) : parseDataRuns a.data = .panic := by
  rw [parseDataRuns_eq, if_neg h.header]
  rcases decodePairs_cases 0 (diskPairs a.data) with ⟨-, hpanic⟩ | ⟨-, -, hok⟩ | ⟨-, hleaves, -⟩
  · exact hpanic
  · exact absurd (decodePairs_eq_ok.mp hok).1 hwide
  · exact absurd h.stays hleaves

theorem MixedFile.long (h : MixedFile driver ino d a) : 10 ≤ a.data.length := by
  have hlong := (not_or.mp h.header).1
  omega

/-- The runs of the stream are read one after the other. -/
theorem MixedFile.readFileAll (h : MixedFile driver ino d a)
    (hnarrow : ∀ pair ∈ diskPairs a.data, ¬ pair.Wide) :
    Ntfs.readFileAll driver (toNtfsFile ino) d =
      readClusters driver.boot ((extents a).map Extent.run) d := by
  have hstep (st : NtfsStat) : statStep driver.boot st a =
      .ok (withStream (runsBytes driver.boot ((extents a).map Extent.run))
        (st.dataRuns ++ [.nonResident ((extents a).map Extent.run)]) st) := by
    rw [statStep_nonResident h.stream.unnamed h.nonResident h.long, h.parsed hnarrow,
      Outcome.ok_bind,
      runsSize_eq h.total]
    rfl
  rw [h.stream.readFileAll hstep, readDataRuns_single]

/-- A file with a wide pair is not read. -/
theorem MixedFile.readFileAll_panic (h : MixedFile driver ino d a)
    (hwide : ¬ ∀ pair ∈ diskPairs a.data, ¬ pair.Wide) :
    Ntfs.readFileAll driver (toNtfsFile ino) d = (.panic, d) := by
  have hstep (st : NtfsStat) : statStep driver.boot st a = .panic := by
    rw [statStep_nonResident h.stream.unnamed h.nonResident h.long, h.parsed_panic hwide]
    rfl
  have hstat : Ntfs.statAt driver d ino = .panic := by
    obtain ⟨record, l₁, l₂, others, hrecord, hattrs, honly, hothers, -⟩ := h.stream.readable
    rw [List.foldlM_append, Outcome.bind_eq_ok] at hothers
    obtain ⟨st, hfront, -⟩ := hothers
    rw [Ntfs.statAt, hrecord, Outcome.ok_bind, parseStat, hattrs, Outcome.ok_bind]
    dsimp only
    rw [List.foldlM_append, hfront, Outcome.ok_bind, List.foldlM_cons, hstep]
    rfl
  exact Prog.bind_of_panic ((stat_byteStore _ d).trans (congrArg (·, d) hstat))

theorem MixedFile.placed_extent (h : MixedFile driver ino d a) {extent : Extent}
    (hmem : extent ∈ extents a) (hstored : extent.sparse = false) :
    driver.boot.partitionByteOffset.toNat + extent.lcn * driver.boot.bytesPerCluster < 2 ^ 64 ∧
      driver.boot.partitionByteOffset.toNat + extent.lcn * driver.boot.bytesPerCluster +
        extent.length * driver.boot.bytesPerCluster ≤ d.bytes.length :=
  h.placed extent.run (List.mem_map_of_mem (List.mem_filter.mpr ⟨hmem, decide_eq_true hstored⟩))

/-- The addresses of the runs are words, those of sparse ones too. -/
theorem MixedFile.lcn_lt (h : MixedFile driver ino d a) {extent : Extent}
    (hmem : extent ∈ extents a) : extent.lcn * driver.boot.bytesPerCluster < 2 ^ 64 := by
  rcases extentsFrom_lcn hmem with hzero | ⟨stored, hstored, hkind, hlcn⟩
  · rw [hzero, Int.toNat_zero, Nat.zero_mul]
    decide
  · have hplaced := (h.placed_extent hstored hkind).1
    rw [hlcn] at hplaced
    omega

/-- The file is read as its content where every window lies on the device and shows the run. -/
theorem MixedFile.readFileAll_eq_iff (h : MixedFile driver ino d a)
    (hnarrow : ∀ pair ∈ diskPairs a.data, ¬ pair.Wide) :
    Ntfs.readFileAll driver (toNtfsFile ino) d = (.ok (extentBytes driver.boot d a), d) ↔
      ∀ extent ∈ extents a, extent.InWindow driver.boot d ∧
        extent.window driver.boot d = extent.content driver.boot d := by
  rw [h.readFileAll hnarrow]
  have hreads (hin : ∀ extent ∈ extents a, extent.InWindow driver.boot d) :
      readClusters driver.boot ((extents a).map Extent.run) d =
        (.ok ((extents a).flatMap (Extent.window driver.boot d)), d) := by
    rw [readClusters_windows _ _ h.total, readerBytes, List.flatMap_map]
    · rfl
    · exact List.forall_mem_map.mpr fun extent ↦ h.lcn_lt
    · exact List.forall_mem_map.mpr hin
  have hlen (hin : ∀ extent ∈ extents a, extent.InWindow driver.boot d) :
      ∀ extent ∈ extents a, (extent.window driver.boot d).length =
        (extent.content driver.boot d).length := by
    intro extent hmem
    rw [Extent.window, length_slice _ _ _ (hin extent hmem), Extent.content]
    split
    · rw [List.length_replicate]
    · next hstored =>
      rw [length_slice _ _ _ (h.placed_extent hmem (Bool.not_eq_true _ ▸ hstored)).2]
  constructor
  · intro hok
    have hin : ∀ extent ∈ extents a, extent.InWindow driver.boot d :=
      fun extent hmem ↦ readClusters_ok hok extent.run (List.mem_map_of_mem hmem)
    rw [hreads hin, Prod.mk.injEq] at hok
    have hsame := (flatMap_eq_flatMap_iff (hlen hin)).mp (Outcome.ok.inj hok.1)
    exact fun extent hmem ↦ ⟨hin extent hmem, hsame extent hmem⟩
  · intro hseen
    have hin := fun extent hmem ↦ (hseen extent hmem).1
    rw [hreads hin, extentBytes,
      (flatMap_eq_flatMap_iff (hlen hin)).mpr fun extent hmem ↦ (hseen extent hmem).2]

/-- The windows show the runs where the reader finds the ordinary ones and zeros for the others. -/
theorem MixedFile.windows_iff (h : MixedFile driver ino d a) :
    (∀ extent ∈ extents a, extent.InWindow driver.boot d ∧
        extent.window driver.boot d = extent.content driver.boot d) ↔
      ReaderSees driver.boot d (storedRuns a) ∧ HolesBlank driver.boot d a := by
  constructor
  · intro hseen
    constructor
    · refine List.forall_mem_map.mpr fun extent hfilter ↦ ?_
      obtain ⟨hmem, hkind⟩ := List.mem_filter.mp hfilter
      have hsame := (hseen extent hmem).2
      rwa [Extent.content, of_decide_eq_true hkind] at hsame
    · intro extent hmem hkind
      obtain ⟨hin, hsame⟩ := hseen extent hmem
      rw [Extent.content, if_pos hkind] at hsame
      exact ByteStore.read_eq_some.mpr ⟨hin, hsame⟩
  · rintro ⟨hsees, hblank⟩ extent hmem
    cases hkind : extent.sparse with
    | true =>
      rw [Extent.content, if_pos hkind]
      exact ByteStore.read_eq_some.mp (hblank extent hmem hkind)
    | false =>
      have hfilter : extent.run ∈ storedRuns a :=
        List.mem_map_of_mem (List.mem_filter.mpr ⟨hmem, decide_eq_true hkind⟩)
      have hfit := (h.placed_extent hmem hkind).2
      have hdiv := Nat.div_le_self (extent.lcn * driver.boot.bytesPerCluster) 512
      refine ⟨by rw [Extent.InWindow]; omega, ?_⟩
      rw [Extent.content, hkind]
      exact hsees extent.run hfilter

end Mixed

/-- A file with sparse runs is read as its ordinary clusters and zeros exactly when no jump of
eight bytes is negative, the reader finds the ordinary clusters, and what the device holds at the
position of each sparse run is zeros. The position itself counts the ordinary runs only. -/
theorem mixedFile_read_iff {driver : NtfsDriver} {ino : Nat} {d : ByteStore} {a : Attr}
    (h : MixedFile driver ino d a) :
    (readFileAll driver (toNtfsFile ino) d = (.ok (extentBytes driver.boot d a), d) ↔
      (∀ pair ∈ diskPairs a.data, ¬ pair.Wide) ∧ ReaderSees driver.boot d (storedRuns a) ∧
        HolesBlank driver.boot d a) ∧
    ((∀ pair ∈ diskPairs a.data, ¬ pair.Wide) →
      parseDataRuns a.data = .ok ((extents a).map Extent.run)) := by
  refine ⟨?_, h.parsed⟩
  by_cases hnarrow : ∀ pair ∈ diskPairs a.data, ¬ pair.Wide
  · rw [and_iff_right hnarrow, h.readFileAll_eq_iff hnarrow, h.windows_iff]
  · refine iff_of_false ?_ fun hall ↦ hnarrow hall.1
    rw [h.readFileAll_panic hnarrow]
    intro hok
    cases (Prod.mk.inj hok).1

/-! ### A file that begins with a sparse run -/

/-- A stream of a sparse run, cluster 10 and cluster 12. -/
def sparseStream (length : Nat) : List UInt8 :=
  let size := (length + 2) * 1024
  leBytes 4 0x80 ++ (leBytes 4 72 ++ (leBytes 1 1 ++ (leBytes 1 0 ++ (List.replicate 22 0 ++
    (leBytes 2 64 ++ (List.replicate 6 0 ++ (leBytes 8 size ++ (leBytes 8 size ++ (leBytes 8 size ++
      ([0x01] ++ (leBytes 1 length ++ [0x11, 1, 10, 0x11, 1, 2])))))))))))

/-- A record with that stream alone. -/
def sparseRecord (length : Nat) : List UInt8 :=
  recordHeader 0 1024 136 ++ (sparseStream length ++ (leBytes 4 0xFFFFFFFF ++ List.replicate 892 0))

/-- The stream as the iterator yields it. -/
def sparseAttr (length : Nat) : Attr where
  offset := 56
  typ := .data
  data := sparseStream length
  isResident := false

theorem length_sparseRecord (length : Nat) : (sparseRecord length).length = 1024 := by
  simp only [sparseRecord, sparseStream, List.length_append, length_recordHeader,
    length_leBytes, List.length_replicate, List.length_cons, List.length_nil]

/-- The runs of the stream, with the hole and as they are decoded. -/
theorem runs_sparseAttr {length : Nat} (h : length = 1 ∨ length = 6) :
    extents (sparseAttr length) = [⟨0, length, true⟩, ⟨10, 1, false⟩, ⟨12, 1, false⟩] ∧
      decodePairs 0 (diskPairs (sparseAttr length).data) =
        .ok [(0, length), (10, 1), (12, 1)] := by
  rcases h with rfl | rfl <;> decide +kernel

theorem extents_sparseAttr {length : Nat} (h : length = 1 ∨ length = 6) :
    extents (sparseAttr length) = [⟨0, length, true⟩, ⟨10, 1, false⟩, ⟨12, 1, false⟩] :=
  (runs_sparseAttr h).1

theorem storedRuns_sparseAttr {length : Nat} (h : length = 1 ∨ length = 6) :
    storedRuns (sparseAttr length) = [(10, 1), (12, 1)] := by
  rw [storedRuns, extents_sparseAttr h]
  rfl

theorem mixedFile_sparseRecord {length : Nat} (h : length = 1 ∨ length = 6) :
    MixedFile smallDriver 5 (smallVolume (sparseRecord length)) (sparseAttr length) where
  stream := by
    refine ⟨by rcases h with rfl | rfl <;> decide, sparseRecord length, [], [], {}, ?_, ?_,
      nofun, rfl, rfl⟩
    · rw [recordAt_smallVolume (length_sparseRecord length)]
      have hzeros : List.replicate 892 0 <:+ sparseRecord length := List.suffix_append_of_suffix
        (List.suffix_append_of_suffix (List.suffix_append _ _))
      exact openRecord_recordHeader rfl (length_sparseRecord length) hzeros (by decide)
    · rcases h with rfl | rfl <;> decide +kernel
  nonResident := rfl
  header := by rcases h with rfl | rfl <;> decide
  stays := (decodePairs_eq_ok.mp (runs_sparseAttr h).2).2.1
  placed := by
    rw [storedRuns_sparseAttr h, RunsPlaced, length_smallVolume (length_sparseRecord _)]
    decide
  total := by
    rw [extents_sparseAttr h]
    rcases h with rfl | rfl <;> decide

/-- The ordinary clusters are blank, and so are the windows that the reader takes for them. -/
theorem readerSees_sparseRecord {length : Nat} (h : length = 1 ∨ length = 6) :
    ReaderSees smallBoot (smallVolume (sparseRecord length)) (storedRuns (sparseAttr length)) := by
  have hblank {off len : Nat} (hfit : off + len ≤ 18432) (hapart : off + len ≤ 5120 ∨ 6144 ≤ off) :=
    slice_smallVolume (length_sparseRecord length) hfit hapart
  rw [storedRuns_sparseAttr h]
  refine List.forall_mem_cons.mpr ⟨?_, List.forall_mem_singleton.mpr ?_⟩
  · exact (hblank (by decide) (.inl (by decide))).trans
      (hblank (by decide) (.inr (by decide))).symm
  · exact (hblank (by decide) (.inl (by decide))).trans
      (hblank (by decide) (.inr (by decide))).symm

/-- A sparse run of one cluster is read from a blank cluster. -/
theorem mixedFile_read_blank :
    readFileAll smallDriver (toNtfsFile 5) (smallVolume (sparseRecord 1)) =
    (.ok (extentBytes smallBoot (smallVolume (sparseRecord 1)) (sparseAttr 1)),
      smallVolume (sparseRecord 1)) := by
  have h : (1 : Nat) = 1 ∨ 1 = 6 := .inl rfl
  apply (mixedFile_read_iff (mixedFile_sparseRecord h)).1.mpr
  refine ⟨(decodePairs_eq_ok.mp (runs_sparseAttr h).2).1, readerSees_sparseRecord h, ?_⟩
  rw [HolesBlank, extents_sparseAttr h]
  refine List.forall_mem_cons.mpr ⟨fun _ ↦ ?_, List.forall_mem_cons.mpr ⟨nofun,
    List.forall_mem_singleton.mpr nofun⟩⟩
  apply ByteStore.read_eq_some.mpr
  constructor
  · rw [length_smallVolume (length_sparseRecord _)]
    decide
  · exact slice_smallVolume (length_sparseRecord _) (by decide) (.inl (by decide))

/-- A sparse run of six clusters is read as the first six clusters of the volume, the record of the
file itself among them. -/
theorem mixedFile_read_sparse :
    MixedFile smallDriver 5 (smallVolume (sparseRecord 6)) (sparseAttr 6) ∧
      readFileAll smallDriver (toNtfsFile 5) (smallVolume (sparseRecord 6)) ≠
        (.ok (extentBytes smallBoot (smallVolume (sparseRecord 6)) (sparseAttr 6)),
          smallVolume (sparseRecord 6)) := by
  have h : (6 : Nat) = 1 ∨ 6 = 6 := .inr rfl
  have hfile := mixedFile_sparseRecord h
  have hnarrow := (decodePairs_eq_ok.mp (runs_sparseAttr h).2).1
  refine ⟨hfile, ?_⟩
  intro hread
  have hseen := hfile.windows_iff.mp ((hfile.readFileAll_eq_iff hnarrow).mp hread)
  have hhole := hseen.2 ⟨0, 6, true⟩ (by rw [extents_sparseAttr h]; exact List.mem_cons_self) rfl
  have hzeros := (ByteStore.read_eq_some.mp hhole).2
  obtain ⟨hle, hbytes, -⟩ := ByteStore.write_eq_some.mp (smallVolume_write (length_sparseRecord _))
  have hfirst : (smallVolume (sparseRecord 6)).bytes[5120]? = (sparseRecord 6)[0]? := by
    rw [hbytes, getElem?_splice _ _ _ _ hle, if_pos]
    rw [length_sparseRecord]
    decide
  have hbyte := congrArg (·[5120]?) hzeros
  dsimp only at hbyte
  rw [getElem?_slice, if_pos (by decide)] at hbyte
  change (smallVolume (sparseRecord 6)).bytes[5120]? = (List.replicate 6144 0)[5120]? at hbyte
  rw [hfirst, List.getElem?_replicate] at hbyte
  revert hbyte
  decide

end SmallOs.Vfs
