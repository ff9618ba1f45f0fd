import SmallOs.Vfs.Positioned
import SmallOs.Base.Lists

/-!
# The stored size of a non-resident file

The header of a non-resident `$DATA` stores the number of bytes of the file; its runs name whole
clusters. `parse_stat` and `read_data_runs` look at the runs only.
-/

namespace SmallOs.Vfs

open SmallOs.Base SmallOs.Hal SmallOs.Ntfs

/-! ### One stream among other attributes -/

/-- The metadata with another size and other data runs. -/
def withStream (size : Nat) (runs : List DataRun) (st : NtfsStat) : NtfsStat :=
  { st with size, dataRuns := runs }

/-- Attributes other than the streams of the file itself look at neither size nor runs. -/
theorem statStep_withStream {boot : BootSector} {a : Attr} (ha : a.isUnnamedData = false)
    (size : Nat) (runs : List DataRun) (st : NtfsStat) :
    statStep boot (withStream size runs st) a = withStream size runs <$> statStep boot st a := by
  unfold statStep
  split
  · split <;> rfl
  · split <;> rfl
  · rfl
  · split <;> rfl
  · unfold statFileName
    change (if a.isResident = true ∧ st.name = none then _ else _) = _
    split
    · cases parseFilename a.data with
      | ok parsed => cases parsed <;> rfl
      | err e => rfl
      | panic => rfl
    · rfl
  · unfold statIndexRoot
    split
    · cases uintAt a.data 20 2 <;> rfl
    · rfl
  · next htyp =>
    have hnamed : leAt a.data 9 1 ≠ 0 := by
      intro hname
      rw [Attr.isUnnamedData, htyp, hname] at ha
      cases ha
    unfold statData
    by_cases h : 9 + 1 ≤ a.data.length
    · have hread : (uintAt a.data 9 1 : Outcome NtfsError Nat) = .ok (leAt a.data 9 1) :=
        uintAt_of h
      simp only [hread, Outcome.ok_bind, addStream, if_neg hnamed]
      split
      · split
        · rfl
        · split <;> rfl
      · cases parseDataRuns a.data with
        | err e => rfl
        | panic => rfl
        | ok found =>
          simp only [Outcome.ok_bind]
          cases runsSize boot.bytesPerCluster found <;> rfl
    · rw [uintAt, Outcome.assert_not h]
      rfl
  · rfl

theorem foldlM_statStep_withStream {boot : BootSector} {attrs : List Attr}
    (h : ∀ a ∈ attrs, a.isUnnamedData = false) (size : Nat) (runs : List DataRun) (st : NtfsStat) :
    attrs.foldlM (statStep boot) (withStream size runs st) =
      withStream size runs <$> attrs.foldlM (statStep boot) st := by
  induction attrs generalizing st with
  | nil => rfl
  | cons a attrs ih =>
    rw [List.foldlM_cons, List.foldlM_cons, statStep_withStream (h a List.mem_cons_self)]
    cases statStep boot st a with
    | ok st' => exact ih (fun b hb ↦ h b (List.mem_cons_of_mem _ hb)) st'
    | err e => rfl
    | panic => rfl

/-- The one stream of a file gives it its size and its run. -/
theorem foldlM_statStep_stream {boot : BootSector} {l₁ l₂ : List Attr} {a : Attr}
    {others : NtfsStat}
    {size : Nat} {run : DataRun} (honly : ∀ b ∈ l₁ ++ l₂, b.isUnnamedData = false)
    (ha : ∀ st, statStep boot st a = .ok (withStream size (st.dataRuns ++ [run]) st))
    (h : (l₁ ++ l₂).foldlM (statStep boot) {} = .ok others) :
    (l₁ ++ a :: l₂).foldlM (statStep boot) {} = .ok (withStream size [run] others) := by
  rw [List.foldlM_append, Outcome.bind_eq_ok] at h
  obtain ⟨st, h₁, h₂⟩ := h
  have hnone : st.dataRuns = [] := by
    have hself := @foldlM_statStep_withStream boot l₁
      (fun b hb ↦ honly b (List.mem_append_left _ hb)) 0 [] {}
    change l₁.foldlM (statStep boot) {} = _ at hself
    rw [h₁] at hself
    rw [Outcome.ok.inj hself]
    rfl
  rw [List.foldlM_append, h₁, Outcome.ok_bind, List.foldlM_cons, ha, Outcome.ok_bind, hnone,
    foldlM_statStep_withStream (fun b hb ↦ honly b (List.mem_append_right _ hb)), h₂]
  rfl

/-! ### The runs -/

/-- The number of bytes of the clusters that a run list names. -/
def runsBytes (boot : BootSector) (runs : List (Nat × Nat)) : Nat :=
  (runs.map fun run ↦ run.2 * boot.bytesPerCluster).sum

theorem runsSize_eq {boot : BootSector} {runs : List (Nat × Nat)}
    (h : runsBytes boot runs < 2 ^ 64) :
    runsSize boot.bytesPerCluster runs = .ok (runsBytes boot runs) := by
  rw [runsBytes] at h ⊢
  rw [runsSize_eq_ite, if_pos h]

/-- The runs lie on the device, each at the address of its first cluster. -/
def RunsPlaced (boot : BootSector) (d : ByteStore) (runs : List (Nat × Nat)) : Prop :=
  ∀ run ∈ runs, boot.partitionByteOffset.toNat + run.1 * boot.bytesPerCluster < 2 ^ 64 ∧
    boot.partitionByteOffset.toNat + run.1 * boot.bytesPerCluster +
      run.2 * boot.bytesPerCluster ≤ d.bytes.length

/-- The bytes of the runs' clusters, in order. -/
def clusterBytes (boot : BootSector) (d : ByteStore) (runs : List (Nat × Nat)) : List UInt8 :=
  runs.flatMap fun run ↦ slice d.bytes
    (boot.partitionByteOffset.toNat + run.1 * boot.bytesPerCluster) (run.2 * boot.bytesPerCluster)

/-- The bytes at the addresses that the reader of data runs hands to the device. -/
def readerBytes (boot : BootSector) (d : ByteStore) (runs : List (Nat × Nat)) : List UInt8 :=
  runs.flatMap fun run ↦ slice d.bytes (run.1 * boot.bytesPerCluster / 512)
    (run.2 * boot.bytesPerCluster)

/-- The reader's addresses show the bytes of the clusters. -/
def ReaderSees (boot : BootSector) (d : ByteStore) (runs : List (Nat × Nat)) : Prop :=
  ∀ run ∈ runs, slice d.bytes (run.1 * boot.bytesPerCluster / 512) (run.2 * boot.bytesPerCluster) =
    slice d.bytes (boot.partitionByteOffset.toNat + run.1 * boot.bytesPerCluster)
      (run.2 * boot.bytesPerCluster)

section Runs

variable {boot : BootSector} {d : ByteStore} {runs : List (Nat × Nat)}

/-- Where every window of the reader lies on the device, it returns them all. -/
theorem readClusters_windows (hoff : ∀ run ∈ runs, run.1 * boot.bytesPerCluster < 2 ^ 64)
    (hfit : ∀ run ∈ runs, run.1 * boot.bytesPerCluster / 512 + run.2 * boot.bytesPerCluster ≤
      d.bytes.length)
    (htotal : runsBytes boot runs < 2 ^ 64) :
    readClusters boot runs d = (.ok (readerBytes boot d runs), d) := by
  induction runs with
  | nil => rfl
  | cons run runs ih =>
    obtain ⟨hlt, hoff⟩ := List.forall_mem_cons.mp hoff
    obtain ⟨hin, hfit⟩ := List.forall_mem_cons.mp hfit
    rw [runsBytes, List.map_cons, List.sum_cons, ← runsBytes] at htotal
    have hfirst : (Outcome.mulAt 64 run.1 boot.bytesPerCluster : Outcome NtfsError Nat) =
        .ok (run.1 * boot.bytesPerCluster) := Outcome.mulAt_of hlt
    have hsize : (Outcome.mulAt 64 run.2 boot.bytesPerCluster : Outcome NtfsError Nat) =
        .ok (run.2 * boot.bytesPerCluster) := Outcome.mulAt_of (by omega)
    have hread : d.read (run.1 * boot.bytesPerCluster / 512) (run.2 * boot.bytesPerCluster) =
        some (slice d.bytes (run.1 * boot.bytesPerCluster / 512)
          (run.2 * boot.bytesPerCluster)) := ByteStore.read_eq_some.mpr ⟨hin, rfl⟩
    rw [readClusters]
    refine (Prog.bind_of_ok (Prog.lift_eq_ok.mpr ⟨hfirst, rfl⟩)).trans ?_
    refine (Prog.bind_of_ok (Prog.lift_eq_ok.mpr ⟨hsize, rfl⟩)).trans ?_
    refine (Prog.bind_of_ok (by rw [readBlocks_byteStore, hread]; rfl)).trans ?_
    refine (Prog.bind_of_ok (ih hoff hfit (by omega))).trans ?_
    rfl

/-- A reader that returns has found every window on the device. -/
theorem readClusters_ok {content : List UInt8} {d' : ByteStore}
    (h : readClusters boot runs d = (.ok content, d')) :
    ∀ run ∈ runs, run.1 * boot.bytesPerCluster / 512 + run.2 * boot.bytesPerCluster ≤
      d.bytes.length := by
  induction runs generalizing content d' with
  | nil => nofun
  | cons run runs ih =>
    rw [readClusters, Prog.bind_eq_ok] at h
    obtain ⟨off, t, hlift, h⟩ := h
    obtain ⟨hoff, rfl⟩ := Prog.lift_eq_ok.mp hlift
    obtain ⟨-, rfl⟩ := Outcome.mulAt_eq_ok.mp hoff
    rw [Prog.bind_eq_ok] at h
    obtain ⟨size, t', hlift', h⟩ := h
    obtain ⟨hsize, rfl⟩ := Prog.lift_eq_ok.mp hlift'
    obtain ⟨-, rfl⟩ := Outcome.mulAt_eq_ok.mp hsize
    rw [Prog.bind_eq_ok] at h
    obtain ⟨buffer, t'', hread, h⟩ := h
    rw [readBlocks_byteStore, Prod.mk.injEq] at hread
    obtain ⟨hread, rfl⟩ := hread
    rw [Prog.bind_eq_ok] at h
    obtain ⟨rest, _, hrest, -⟩ := h
    refine List.forall_mem_cons.mpr ⟨?_, ih hrest⟩
    cases hwindow : t'.read (run.1 * boot.bytesPerCluster / 512) (run.2 * boot.bytesPerCluster) with
    | none =>
      rw [hwindow] at hread
      cases hread
    | some window => exact (ByteStore.read_eq_some.mp hwindow).1

theorem readClusters_byteStore (hplaced : RunsPlaced boot d runs)
    (htotal : runsBytes boot runs < 2 ^ 64) :
    readClusters boot runs d = (.ok (readerBytes boot d runs), d) := by
  apply readClusters_windows _ _ htotal
  · intro run hrun
    have hlt := (hplaced run hrun).1
    omega
  · intro run hrun
    have hfit := (hplaced run hrun).2
    have hdiv := Nat.div_le_self (run.1 * boot.bytesPerCluster) 512
    omega

/-- One run list is read by itself. -/
theorem readDataRuns_single (boot : BootSector) (runs : List (Nat × Nat)) (d : ByteStore) :
    readDataRuns boot [.nonResident runs] d = readClusters boot runs d := by
  rw [readDataRuns, Prog.bind_apply]
  rcases readClusters boot runs d with ⟨content | e | _, d'⟩
  · change (Outcome.ok (content ++ []), d') = _
    rw [List.append_nil]
  · rfl
  · rfl

theorem readDataRuns_byteStore (hplaced : RunsPlaced boot d runs)
    (htotal : runsBytes boot runs < 2 ^ 64) :
    readDataRuns boot [.nonResident runs] d = (.ok (readerBytes boot d runs), d) :=
  (readDataRuns_single boot runs d).trans (readClusters_byteStore hplaced htotal)

theorem length_clusterBytes (hplaced : RunsPlaced boot d runs) :
    (clusterBytes boot d runs).length = runsBytes boot runs := by
  rw [clusterBytes, List.length_flatMap, runsBytes]
  congr 1
  apply List.map_congr_left
  intro run hrun
  exact length_slice _ _ _ (hplaced run hrun).2

/-- The reader's windows are as long as the clusters'. -/
theorem length_readerWindow (hplaced : RunsPlaced boot d runs) (run : Nat × Nat)
    (hrun : run ∈ runs) :
    (slice d.bytes (run.1 * boot.bytesPerCluster / 512) (run.2 * boot.bytesPerCluster)).length =
      (slice d.bytes (boot.partitionByteOffset.toNat + run.1 * boot.bytesPerCluster)
        (run.2 * boot.bytesPerCluster)).length := by
  have hfit := (hplaced run hrun).2
  have hdiv := Nat.div_le_self (run.1 * boot.bytesPerCluster) 512
  rw [length_slice _ _ _ hfit, length_slice _ _ _ (by omega)]

theorem readerBytes_eq_iff (hplaced : RunsPlaced boot d runs) :
    readerBytes boot d runs = clusterBytes boot d runs ↔ ReaderSees boot d runs :=
  flatMap_eq_flatMap_iff (length_readerWindow hplaced)

theorem length_readerBytes (hplaced : RunsPlaced boot d runs) :
    (readerBytes boot d runs).length = runsBytes boot runs := by
  rw [← length_clusterBytes hplaced, readerBytes, clusterBytes, List.length_flatMap,
    List.length_flatMap]
  congr 1
  apply List.map_congr_left
  exact length_readerWindow hplaced

end Runs

/-! ### Files -/

/-- `lib/vfs/src/fs/ntfs/mod.rs:105–110`: the bytes that are put at the front of the buffer. -/
def readFile {D : Type} [BlockDevice D] (driver : NtfsDriver) (file : NtfsFile) (len : Nat) :
    Prog D NtfsError (List UInt8) := do
  let data ← readFileAll driver file
  let n := min len data.length
  return data.take n

/-- The file is reported and read as the content, by every reader. -/
structure ReadsAs (driver : NtfsDriver) (ino : Nat) (d : ByteStore) (content : List UInt8) :
    Prop where
  size : ∃ st, stat driver (toNtfsFile ino) d = (.ok st, d) ∧ st.size = content.length
  all : readFileAll driver (toNtfsFile ino) d = (.ok content, d)
  read : ∀ len, readFile driver (toNtfsFile ino) len d = (.ok (content.take len), d)
  readAt : ∀ (offset : UInt64) (len : Nat),
    ntfsReadAt driver ino offset len d = (.ok (slice content offset.toNat len), d)

/-- A file with one stream: the metadata that its other attributes give it. -/
structure OneStream (driver : NtfsDriver) (ino : Nat) (d : ByteStore) (a : Attr) : Prop where
  unnamed : a.isUnnamedData = true
  readable : ∃ record l₁ l₂ others, recordAt driver d ino = .ok record ∧
    parseAttributes record = .ok (l₁ ++ a :: l₂, .ok ()) ∧
    (∀ b ∈ l₁ ++ l₂, b.isUnnamedData = false) ∧
    (l₁ ++ l₂).foldlM (statStep driver.boot) {} = .ok others ∧ others.isDirectory = false

/-- A file that keeps its content in its record. -/
structure ResidentFile (driver : NtfsDriver) (ino : Nat) (d : ByteStore) (content : List UInt8) :
    Prop where
  stream : ∃ a, OneStream driver ino d a ∧ ValueInside a ∧ a.value = content

/-- A file that keeps its content in runs, which hold at least the stored number of bytes. -/
structure NonResidentFile (driver : NtfsDriver) (ino : Nat) (d : ByteStore) (a : Attr)
    (runs : List (Nat × Nat)) : Prop where
  stream : OneStream driver ino d a
  nonResident : a.isResident = false
  parsed : parseDataRuns a.data = .ok runs
  placed : RunsPlaced driver.boot d runs
  total : runsBytes driver.boot runs < 2 ^ 64
  stored : leAt a.data 48 8 ≤ runsBytes driver.boot runs

section Files

variable {driver : NtfsDriver} {ino : Nat} {d : ByteStore} {a : Attr}

/-- The metadata of a file with one stream. -/
theorem OneStream.statAt (h : OneStream driver ino d a) {size : Nat} {run : DataRun}
    (hstep : ∀ st, statStep driver.boot st a = .ok (withStream size (st.dataRuns ++ [run]) st)) :
    ∃ st, statAt driver d ino = .ok st ∧ st.size = size ∧ st.dataRuns = [run] ∧
      st.isDirectory = false := by
  obtain ⟨record, l₁, l₂, others, hrecord, hattrs, honly, hothers, hfile⟩ := h.readable
  refine ⟨withStream size [run] others, ?_, rfl, rfl, hfile⟩
  rw [Ntfs.statAt, hrecord, Outcome.ok_bind, parseStat, hattrs, Outcome.ok_bind]
  simp only [foldlM_statStep_stream honly hstep hothers, Outcome.ok_bind]
  rfl

/-- What one reader returns in whole, the others return in part. -/
theorem readsAs_of_all {content : List UInt8} {st : NtfsStat}
    (hstat : Ntfs.statAt driver d ino = .ok st) (hsize : st.size = content.length)
    (hall : readFileAll driver (toNtfsFile ino) d = (.ok content, d))
    (hlt : content.length < 2 ^ 64) : ReadsAs driver ino d content where
  size := by
    refine ⟨st, ?_, hsize⟩
    rw [stat_byteStore]
    exact congrArg (·, d) hstat
  all := hall
  read := by
    intro len
    refine (Prog.bind_of_ok hall).trans ?_
    change (Outcome.ok (content.take (min len content.length)), d) = _
    rw [← List.take_eq_take_min]
  readAt := ntfsReadAt_byteStore ⟨hall, hlt⟩

/-- A resident file is read as its value. -/
theorem readsAs_resident {content : List UInt8} (h : ResidentFile driver ino d content) :
    ReadsAs driver ino d content := by
  obtain ⟨a, hone, hvalue, rfl⟩ := h.stream
  obtain ⟨st, hstat, hsize, hruns, hfile⟩ :=
    hone.statAt (fun st ↦ statStep_unnamed hone.unnamed hvalue st)
  have hlen : a.value.length = leAt a.data 16 4 := length_slice _ _ _ hvalue.inside
  have hlt : leAt a.data 16 4 < 2 ^ 64 := Nat.lt_of_lt_of_le (leAt_lt _ _ _) (by decide)
  exact readsAs_of_all hstat (by rw [hsize, hlen]) (readFileAll_resident hstat hfile hruns)
    (by rw [hlen]; exact hlt)

/-- A non-resident stream adds the runs that its header names, and their clusters as the size. -/
theorem statStep_nonResident {boot : BootSector} (hunnamed : a.isUnnamedData = true)
    (hnon : a.isResident = false) (hlong : 10 ≤ a.data.length) (st : NtfsStat) :
    Ntfs.statStep boot st a = parseDataRuns a.data >>= fun runs ↦
      runsSize boot.bytesPerCluster runs >>= fun size ↦
        pure (withStream size (st.dataRuns ++ [.nonResident runs]) st) := by
  simp only [Attr.isUnnamedData, Bool.and_eq_true, decide_eq_true_eq] at hunnamed
  obtain ⟨htyp, hname⟩ := hunnamed
  rw [Ntfs.statStep, htyp]
  change statData boot st a = _
  rw [statData, uintAt_of hlong, Outcome.ok_bind, hname, hnon]
  rfl

/-- The runs of the one stream are what is read of the file. -/
theorem OneStream.readFileAll (h : OneStream driver ino d a) {size : Nat} {run : DataRun}
    (hstep : ∀ st, statStep driver.boot st a = .ok (withStream size (st.dataRuns ++ [run]) st)) :
    Ntfs.readFileAll driver (toNtfsFile ino) d = readDataRuns driver.boot [run] d := by
  obtain ⟨st, hstat, -, hruns, hfile⟩ := h.statAt hstep
  refine (Prog.bind_of_ok ((stat_byteStore _ d).trans (congrArg (·, d) hstat))).trans ?_
  refine (Prog.bind_of_ok (Prog.lift_eq_ok.mpr ⟨Outcome.ensure_of hfile, rfl⟩)).trans ?_
  rw [hruns]

/-- The stream of a non-resident file counts its clusters. -/
theorem NonResidentFile.statStep {runs : List (Nat × Nat)}
    (h : NonResidentFile driver ino d a runs) (st : NtfsStat) :
    Ntfs.statStep driver.boot st a = .ok (withStream (runsBytes driver.boot runs)
      (st.dataRuns ++ [.nonResident runs]) st) := by
  have hlong : 64 ≤ a.data.length := by
    have hparsed := h.parsed
    rw [parseDataRuns, Outcome.bind_eq_ok] at hparsed
    obtain ⟨_, hlong, -⟩ := hparsed
    exact Outcome.ensure_eq_ok.mp hlong
  rw [statStep_nonResident h.stream.unnamed h.nonResident (by omega), h.parsed, Outcome.ok_bind,
    runsSize_eq h.total]
  rfl

/-- What a non-resident file is reported and read as. -/
theorem NonResidentFile.reads {runs : List (Nat × Nat)} (h : NonResidentFile driver ino d a runs) :
    ReadsAs driver ino d (readerBytes driver.boot d runs) := by
  obtain ⟨st, hstat, hsize, -, -⟩ := h.stream.statAt h.statStep
  have hlen := length_readerBytes h.placed
  have hall := h.stream.readFileAll h.statStep
  rw [readDataRuns_byteStore h.placed h.total] at hall
  exact readsAs_of_all hstat (by rw [hsize, hlen]) hall (by rw [hlen]; exact h.total)

theorem ReadsAs.unique {content content' : List UInt8} (h : ReadsAs driver ino d content)
    (h' : ReadsAs driver ino d content') : content = content' := by
  have hsame := h.all.symm.trans h'.all
  exact Outcome.ok.inj (Prod.mk.inj hsame).1

end Files

/-- A non-resident file is reported and read as its stored bytes, and so like a resident file of
the same content, exactly when it fills its clusters and the reader finds them. -/
theorem nonResident_readsAs_iff {driver : NtfsDriver} {ino : Nat} {d : ByteStore} {a : Attr}
    {runs : List (Nat × Nat)} (h : NonResidentFile driver ino d a runs) :
    (ReadsAs driver ino d ((clusterBytes driver.boot d runs).take (leAt a.data 48 8)) ↔
      leAt a.data 48 8 = runsBytes driver.boot runs ∧ ReaderSees driver.boot d runs) ∧
    ∀ m, ResidentFile driver m d ((clusterBytes driver.boot d runs).take (leAt a.data 48 8)) →
      ReadsAs driver m d ((clusterBytes driver.boot d runs).take (leAt a.data 48 8)) := by
  refine ⟨?_, fun m ↦ readsAs_resident⟩
  have hlen := length_clusterBytes h.placed
  have hstored := h.stored
  constructor
  · intro hreads
    have hsame := h.reads.unique hreads
    have hsize := congrArg List.length hsame
    rw [length_readerBytes h.placed, List.length_take, hlen] at hsize
    have hfull : leAt a.data 48 8 = runsBytes driver.boot runs := by omega
    rw [hfull, ← hlen, List.take_length] at hsame
    exact ⟨hfull, (readerBytes_eq_iff h.placed).mp hsame⟩
  · rintro ⟨hfull, hsees⟩
    rw [hfull, ← hlen, List.take_length, ← (readerBytes_eq_iff h.placed).mpr hsees]
    exact h.reads

/-! ### A file of one cluster -/

/-- The stream of a file with `size` bytes in cluster 10. -/
def clusterStream (size : Nat) : List UInt8 :=
  leBytes 4 0x80 ++ (leBytes 4 72 ++ (leBytes 1 1 ++ (leBytes 1 0 ++ (List.replicate 22 0 ++
    (leBytes 2 64 ++ (List.replicate 6 0 ++ (leBytes 8 1024 ++ (leBytes 8 size ++ (leBytes 8 size ++
      ([0x11, 1, 10] ++ List.replicate 5 0))))))))))

/-- A record with that stream alone. -/
def clusterRecord (size : Nat) : List UInt8 :=
  recordHeader 0 1024 136 ++ (clusterStream size ++ (leBytes 4 0xFFFFFFFF ++ List.replicate 892 0))

/-- The stream as the iterator yields it. -/
def clusterAttr (size : Nat) : Attr where
  offset := 56
  typ := .data
  data := clusterStream size
  isResident := false

theorem length_clusterRecord (size : Nat) : (clusterRecord size).length = 1024 := by
  simp only [clusterRecord, clusterStream, List.length_append, length_recordHeader,
    length_leBytes, List.length_replicate, List.length_cons, List.length_nil]

theorem nonResidentFile_clusterRecord {size : Nat} (h : size = 3 ∨ size = 1024) :
    NonResidentFile smallDriver 5 (smallVolume (clusterRecord size)) (clusterAttr size)
      [(10, 1)] where
  stream := by
    refine ⟨by rcases h with rfl | rfl <;> decide, clusterRecord size, [], [], {}, ?_, ?_,
      nofun, rfl, rfl⟩
    · rw [recordAt_smallVolume (length_clusterRecord size)]
      have hzeros : List.replicate 892 0 <:+ clusterRecord size := List.suffix_append_of_suffix
        (List.suffix_append_of_suffix (List.suffix_append _ _))
      exact openRecord_recordHeader rfl (length_clusterRecord size) hzeros (by decide)
    · rcases h with rfl | rfl <;> decide +kernel
  nonResident := rfl
  parsed := by rcases h with rfl | rfl <;> decide +kernel
  placed := by
    intro run hrun
    rw [List.mem_singleton.mp hrun, length_smallVolume (length_clusterRecord size)]
    decide
  total := by decide
  stored := by rcases h with rfl | rfl <;> decide

/-- A file that fills its cluster. -/
theorem nonResident_readsAs_full : ReadsAs smallDriver 5 (smallVolume (clusterRecord 1024))
    ((clusterBytes smallBoot (smallVolume (clusterRecord 1024)) [(10, 1)]).take 1024) := by
  have hl := length_clusterRecord 1024
  apply (nonResident_readsAs_iff (nonResidentFile_clusterRecord (.inr rfl))).1.mpr
  refine ⟨by decide, ?_⟩
  intro run hrun
  rw [List.mem_singleton.mp hrun]
  exact (slice_smallVolume hl (by decide) (.inl (by decide))).trans
    (slice_smallVolume hl (by decide) (.inr (by decide))).symm

/-- A file of three bytes is reported and read as the whole of its cluster. -/
theorem nonResident_readsAs_three : ¬ ReadsAs smallDriver 5 (smallVolume (clusterRecord 3))
    ((clusterBytes smallBoot (smallVolume (clusterRecord 3)) [(10, 1)]).take 3) := by
  have hfile := nonResidentFile_clusterRecord (.inl rfl)
  intro h
  have hlen := congrArg List.length (hfile.reads.unique h)
  rw [length_readerBytes hfile.placed, List.length_take] at hlen
  change 1024 = min 3 _ at hlen
  omega

end SmallOs.Vfs
