import SmallOs.Ntfs.Write
import SmallOs.Base.ByteStore

/-!
# The driver on a byte store

On a byte store every read is a function of the image, and every program that changes the
image plans its writes from what it has read. The definitions here are those functions; the
theorems say that the programs compute them.
-/

namespace SmallOs.Ntfs

open SmallOs.Base SmallOs.Hal

/-! ### Device calls -/

theorem readBlocks_byteStore (off len : Nat) (d : ByteStore) :
    readBlocks off len d = (Outcome.ofOption .ioError (d.read off len), d) := by
  simp only [readBlocks, BlockDevice.readBlocks, List.length_replicate]
  cases d.read off len <;> rfl

theorem writeBlocks_byteStore (off : Nat) (buf : List UInt8) (d : ByteStore) :
    writeBlocks off buf d = match d.write off buf with
      | some d' => (.ok (), d')
      | none => (.err .ioError, d) := by
  simp only [writeBlocks, BlockDevice.writeBlocks]
  cases d.write off buf <;> rfl

theorem writeBlocks_of_write {off : Nat} {buf : List UInt8} {d d' : ByteStore}
    (h : d.write off buf = some d') : writeBlocks off buf d = (.ok (), d') := by
  rw [writeBlocks_byteStore, h]

/-! ### Reading -/

/-- The raw bytes of an MFT record. -/
def slot (driver : NtfsDriver) (d : ByteStore) (n : Nat) : Outcome NtfsError (List UInt8) := do
  let off ← driver.recordOffset n
  Outcome.ofOption .ioError (d.read off driver.mftRecordSize)

/-- An MFT record with its fixups undone. -/
def recordAt (driver : NtfsDriver) (d : ByteStore) (n : Nat) : Outcome NtfsError (List UInt8) := do
  openRecord driver (← slot driver d n)

/-- The metadata of a file. -/
def statAt (driver : NtfsDriver) (d : ByteStore) (n : Nat) : Outcome NtfsError NtfsStat := do
  parseStat (← recordAt driver d n) driver.boot

/-- The index data in an opened record. -/
def recordIndex (driver : NtfsDriver) (record : List UInt8) : Outcome NtfsError (List UInt8) := do
  match (← parseStat record driver.boot).indexRoot with
  | some data => pure data
  | none => rootValue record

/-- The index data of a directory. -/
def indexAt (driver : NtfsDriver) (d : ByteStore) (n : Nat) : Outcome NtfsError (List UInt8) := do
  recordIndex driver (← recordAt driver d n)

/-- Whether a file is taken for a directory. -/
def isDirectoryAt (driver : NtfsDriver) (d : ByteStore) (n : Nat) : Outcome NtfsError Bool :=
  if n = 5 then pure true else NtfsStat.isDirectory <$> statAt driver d n

variable {driver : NtfsDriver}

theorem readMftRecord_byteStore (n : Nat) (d : ByteStore) :
    readMftRecord driver n d = (recordAt driver d n, d) := by
  unfold readMftRecord recordAt slot
  rw [bind_assoc]
  apply Prog.bind_of_const (Prog.lift_apply _ d)
  intro off
  apply Prog.bind_of_const (readBlocks_byteStore off _ d)
  intro buf
  rfl

theorem stat_byteStore (file : NtfsFile) (d : ByteStore) :
    stat driver file d = (statAt driver d file.recordNumber, d) := by
  apply Prog.bind_of_const (readMftRecord_byteStore file.recordNumber d)
  intro record
  rfl

/-- The record that is read a second time is the record of the first reading. -/
theorem indexAt_eq (d : ByteStore) (n : Nat) :
    indexAt driver d n = statAt driver d n >>= fun st ↦ match st.indexRoot with
      | some data => pure data
      | none => recordAt driver d n >>= rootValue := by
  unfold indexAt statAt
  cases recordAt driver d n with
  | ok record => rfl
  | err e => rfl
  | panic => rfl

theorem directoryIndex_byteStore (dir : NtfsFile) (d : ByteStore) :
    directoryIndex driver dir d = (indexAt driver d dir.recordNumber, d) := by
  rw [indexAt_eq]
  apply Prog.bind_of_const (stat_byteStore dir d)
  intro st
  unfold getIndexData
  cases st.indexRoot with
  | some data => rfl
  | none =>
    apply Prog.bind_of_const (readMftRecord_byteStore dir.recordNumber d)
    intro record
    rfl

theorem listDirectory_byteStore (dir : NtfsFile) (d : ByteStore) :
    listDirectory driver dir d = (listEntries <$> indexAt driver d dir.recordNumber, d) := by
  rw [map_eq_pure_bind]
  apply Prog.bind_of_const (directoryIndex_byteStore dir d)
  intro data
  rfl

theorem findInDirectory_byteStore (dir : NtfsFile) (name : List Char) (d : ByteStore) :
    findInDirectory driver dir name d =
      (indexAt driver d dir.recordNumber >>= (findEntry · name), d) := by
  apply Prog.bind_of_const (directoryIndex_byteStore dir d)
  intro data
  rfl

theorem isDirectory_byteStore (file : NtfsFile) (d : ByteStore) :
    isDirectory driver file d = (isDirectoryAt driver d file.recordNumber, d) := by
  unfold isDirectory isDirectoryAt
  split
  · rfl
  · rw [map_eq_pure_bind, map_eq_pure_bind]
    apply Prog.bind_of_const (stat_byteStore file d)
    intro st
    rfl

theorem openFile_byteStore (n : Nat) (d : ByteStore) :
    openFile driver n d = ((fun _ ↦ ⟨n⟩) <$> recordAt driver d n, d) := by
  rw [map_eq_pure_bind]
  apply Prog.bind_of_const (readMftRecord_byteStore n d)
  intro _
  rfl

/-! ### Planned writes -/

/-- Carry out a write that was planned from the image. -/
def commit (plan : Outcome NtfsError (Nat × List UInt8)) : Prog ByteStore NtfsError Unit := do
  let (off, bytes) ← Prog.lift plan
  writeBlocks off bytes

theorem commit_ok (off : Nat) (bytes : List UInt8) :
    commit (.ok (off, bytes)) = writeBlocks off bytes := rfl

/-- A plan's first step can be taken on its own. -/
theorem commit_bind {α : Type} (x : Outcome NtfsError α)
    (f : α → Outcome NtfsError (Nat × List UInt8)) :
    commit (x >>= f) = Prog.lift x >>= fun a ↦ commit (f a) := by
  funext d
  cases x <;> rfl

/-- A program that reads and then commits a plan commits the composed plan. -/
theorem bind_commit {α : Type} {x : Prog ByteStore NtfsError α}
    {f : α → Prog ByteStore NtfsError Unit} {X : Outcome NtfsError α}
    {F : α → Outcome NtfsError (Nat × List UInt8)} {d : ByteStore} (hx : x d = (X, d))
    (hf : ∀ a, f a d = commit (F a) d) : (x >>= f) d = commit (X >>= F) d := by
  rw [commit_bind, Prog.bind_apply, hx]
  cases X with
  | ok a => exact hf a
  | err e => rfl
  | panic => rfl

/-- A committed plan either changes its window or leaves the image alone. -/
theorem commit_cases {plan : Outcome NtfsError (Nat × List UInt8)} {d d' : ByteStore}
    {r : Outcome NtfsError Unit} (h : commit plan d = (r, d')) :
    (∃ off bytes, plan = .ok (off, bytes) ∧ d.write off bytes = some d' ∧ r = .ok ()) ∨
      (d' = d ∧ r ≠ .ok () ∧ ∀ off bytes, plan = .ok (off, bytes) → d.write off bytes = none) := by
  unfold commit at h
  rw [Prog.bind_apply, Prog.lift_apply] at h
  cases plan with
  | ok w =>
    change writeBlocks w.1 w.2 d = (r, d') at h
    rw [writeBlocks_byteStore] at h
    split at h
    · next d₁ hw =>
      cases h
      exact .inl ⟨w.1, w.2, rfl, hw, rfl⟩
    · next hw =>
      cases h
      refine .inr ⟨rfl, nofun, ?_⟩
      intro off bytes hp
      cases hp
      exact hw
  | err e =>
    cases h
    exact .inr ⟨rfl, nofun, nofun⟩
  | panic =>
    cases h
    exact .inr ⟨rfl, nofun, nofun⟩

/-! ### Creating a file -/

/-- The scan for a free record; compare `allocateFrom`. -/
def scanFrom (driver : NtfsDriver) (d : ByteStore) (num : Nat) : Nat → Outcome NtfsError Nat
  | 0 => .err .noSpace
  | count + 1 => do
    let off ← driver.recordOffset num
    match d.read off driver.mftRecordSize with
    | none => scanFrom driver d (num + 1) count
    | some buf => do
      Outcome.assert (4 ≤ buf.length)
      if inUse buf then scanFrom driver d (num + 1) count else pure num

/-- The new record's number and bytes; compare `prepareRecord`. -/
def prepared (driver : NtfsDriver) (d : ByteStore) (parent : NtfsFile) (name : List Char)
    (options : CreateOptions) : Outcome NtfsError (Nat × List UInt8) := do
  let directory ← isDirectoryAt driver d parent.recordNumber
  Outcome.ensure (directory = true) .notADirectory
  let found ← (indexAt driver d parent.recordNumber >>= (findEntry · name)).attempt
  requireAbsent found
  Outcome.ensure ((name.map Char.utf8Size).sum ≤ 255) .nameTooLong
  let recordNumber ← scanFrom driver d 16 (100000 - 16)
  let record ← buildMftRecord driver recordNumber name parent.recordNumber options.isDirectory
    options.data
  let record ← reapplyFixups record driver.sectorSize
  return (recordNumber, record)

/-- The write of a record whose resident root takes the entry. -/
def residentPlan (driver : NtfsDriver) (record : List UInt8) (parent child : Nat)
    (name : List Char) : Outcome NtfsError (Nat × List UInt8) := do
  let record ← insertResident record parent child name
  let record ← reapplyFixups record driver.sectorSize
  let off ← driver.recordOffset parent
  return (off, record)

/-- The write of the external index block that takes the entry. -/
def externalPlan (driver : NtfsDriver) (d : ByteStore) (record : List UInt8) (parent child : Nat)
    (name : List Char) : Outcome NtfsError (Nat × List UInt8) := do
  let (idxOffset, idxRecordSize) ← locateExternal driver.boot record
  let idxBuf ← Outcome.ofOption .ioError (d.read idxOffset idxRecordSize)
  let idxBuf ← insertExternal idxBuf parent child name
  return (idxOffset, idxBuf)

/-- The write that adds an entry to a directory; compare `addDirectoryEntry`. -/
def entryPlan (driver : NtfsDriver) (d : ByteStore) (parent child : Nat) (name : List Char) :
    Outcome NtfsError (Nat × List UInt8) := do
  let record ← recordAt driver d parent
  if (findAttributeOffset record 0xA0).isOk then
    match residentPlan driver record parent child name with
    | .err .noSpace => externalPlan driver d record parent child name
    | plan => plan
  else
    residentPlan driver record parent child name

theorem allocateFrom_byteStore (num count : Nat) (d : ByteStore) :
    allocateFrom driver num count d = (scanFrom driver d num count, d) := by
  induction count generalizing num with
  | zero => rfl
  | succ count ih =>
    apply Prog.bind_of_const (Prog.lift_apply _ d)
    intro off
    have hread : Prog.attempt (readBlocks off driver.mftRecordSize) d =
        ((Outcome.ofOption .ioError (d.read off driver.mftRecordSize)).attempt, d) := by
      rw [Prog.attempt_apply, readBlocks_byteStore]
    cases hd : d.read off driver.mftRecordSize with
    | none =>
      rw [hd] at hread
      exact (Prog.bind_of_ok hread).trans (ih (num + 1))
    | some buf =>
      rw [hd] at hread
      refine (Prog.bind_of_ok hread).trans ?_
      apply Prog.bind_of_const (Prog.lift_apply _ d)
      intro _
      split
      · exact ih (num + 1)
      · rfl

theorem prepareRecord_byteStore (parent : NtfsFile) (name : List Char) (options : CreateOptions)
    (d : ByteStore) :
    prepareRecord driver parent name options d = (prepared driver d parent name options, d) := by
  apply Prog.bind_of_const (isDirectory_byteStore parent d)
  intro directory
  apply Prog.bind_of_const (Prog.lift_apply _ d)
  intro _
  apply Prog.bind_of_const
  · rw [Prog.attempt_apply, findInDirectory_byteStore]
  intro found
  apply Prog.bind_of_const (Prog.lift_apply _ d)
  intro _
  apply Prog.bind_of_const (Prog.lift_apply _ d)
  intro _
  apply Prog.bind_of_const (allocateFrom_byteStore 16 (100000 - 16) d)
  intro recordNumber
  apply Prog.bind_of_const (Prog.lift_apply _ d)
  intro record
  apply Prog.bind_of_const (Prog.lift_apply _ d)
  intro record
  rfl

theorem addToResidentIndex_byteStore (record : List UInt8) (parent : NtfsFile) (child : Nat)
    (name : List Char) (d : ByteStore) :
    addToResidentIndex driver record parent child name d =
      commit (residentPlan driver record parent.recordNumber child name) d := by
  apply bind_commit (Prog.lift_apply _ d)
  intro record
  apply bind_commit (Prog.lift_apply _ d)
  intro record
  apply bind_commit (Prog.lift_apply _ d)
  intro off
  rfl

theorem addToExternalIndex_byteStore (record : List UInt8) (parent : NtfsFile) (child : Nat)
    (name : List Char) (d : ByteStore) :
    addToExternalIndex driver record parent child name d =
      commit (externalPlan driver d record parent.recordNumber child name) d := by
  apply bind_commit (Prog.lift_apply _ d)
  rintro ⟨idxOffset, idxRecordSize⟩
  apply bind_commit (readBlocks_byteStore idxOffset idxRecordSize d)
  intro idxBuf
  apply bind_commit (Prog.lift_apply _ d)
  intro idxBuf
  rfl

theorem addDirectoryEntry_byteStore (parent : NtfsFile) (child : Nat) (name : List Char)
    (d : ByteStore) :
    addDirectoryEntry driver parent child name d =
      commit (entryPlan driver d parent.recordNumber child name) d := by
  apply bind_commit (readMftRecord_byteStore parent.recordNumber d)
  intro record
  have hres : addToResidentIndex driver record parent child name d = _ :=
    addToResidentIndex_byteStore record parent child name d
  split
  · have hatt : Prog.attempt (addToResidentIndex driver record parent child name) d =
        ((commit (residentPlan driver record parent.recordNumber child name) d).1.attempt,
          (commit (residentPlan driver record parent.recordNumber child name) d).2) := by
      rw [Prog.attempt_apply, hres]
    cases hp : residentPlan driver record parent.recordNumber child name with
    | ok w =>
      rw [hp] at hatt
      change _ = writeBlocks w.1 w.2 d
      change Prog.attempt _ d =
        ((writeBlocks w.1 w.2 d).1.attempt, (writeBlocks w.1 w.2 d).2) at hatt
      rw [writeBlocks_byteStore] at hatt ⊢
      cases hw : d.write w.1 w.2 with
      | some d' =>
        rw [hw] at hatt
        exact Prog.bind_of_ok hatt
      | none =>
        rw [hw] at hatt
        exact Prog.bind_of_ok hatt
    | panic =>
      rw [hp] at hatt
      exact Prog.bind_of_panic hatt
    | err e =>
      rw [hp] at hatt
      refine (Prog.bind_of_ok hatt).trans ?_
      cases e with
      | noSpace => exact addToExternalIndex_byteStore record parent child name d
      | _ => rfl
  · exact hres

/-! ### Inversion -/

theorem attempt_requireAbsent {x : Outcome NtfsError Nat} {u : Unit} :
    (x.attempt >>= requireAbsent) = .ok u ↔ x = .err .fileNotFound := by
  cases x with
  | ok a => simp [Outcome.attempt, requireAbsent]
  | panic => simp [Outcome.attempt]
  | err e => cases e <;> simp [Outcome.attempt, requireAbsent]

/-- A new record is prepared exactly when every check passes, a free record is found and the
record builds. -/
theorem prepared_eq_ok {d : ByteStore} {parent : NtfsFile} {name : List Char}
    {options : CreateOptions} {n : Nat} {record : List UInt8} :
    prepared driver d parent name options = .ok (n, record) ↔
      isDirectoryAt driver d parent.recordNumber = .ok true ∧
      (indexAt driver d parent.recordNumber >>= (findEntry · name)) = .err .fileNotFound ∧
      (name.map Char.utf8Size).sum ≤ 255 ∧ scanFrom driver d 16 (100000 - 16) = .ok n ∧
      ∃ built, buildMftRecord driver n name parent.recordNumber options.isDirectory options.data =
        .ok built ∧ reapplyFixups built driver.sectorSize = .ok record := by
  simp only [prepared, Outcome.bind_eq_ok, Outcome.ensure_eq_ok, Outcome.pure_eq_ok,
    Outcome.ok.injEq, Prod.mk.injEq]
  constructor
  · rintro ⟨_, hdir, -, rfl, found, hfound, u, habsent, -, hname, m, hscan, built, hbuilt, _, hmark,
      rfl, rfl⟩
    have hnone := attempt_requireAbsent.mp (Outcome.bind_eq_ok.mpr ⟨found, hfound, habsent⟩)
    exact ⟨hdir, hnone, hname, hscan, built, hbuilt, hmark⟩
  · rintro ⟨hdir, hnone, hname, hscan, built, hbuilt, hmark⟩
    obtain ⟨found, hfound, habsent⟩ :=
      Outcome.bind_eq_ok.mp (attempt_requireAbsent (u := ()).mpr hnone)
    exact ⟨true, hdir, (), rfl, found, hfound, (), habsent, (), hname, n, hscan, built, hbuilt,
      record, hmark, rfl, rfl⟩

/-- A failing check in front of the first write ends the call. -/
theorem createFile_failed {d : ByteStore} {parent : NtfsFile} {name : List Char}
    {options : CreateOptions} {e : NtfsError}
    (h : prepared driver d parent name options = .err e) :
    createFile driver parent name options d = (.err e, d) := by
  have hx : prepareRecord driver parent name options d = _ :=
    prepareRecord_byteStore parent name options d
  rw [h] at hx
  exact Prog.bind_of_err hx

/-- Without a prepared record nothing is written. -/
theorem createFile_unprepared (d : ByteStore) (parent : NtfsFile) (name : List Char)
    (options : CreateOptions) (h : ∀ w, prepared driver d parent name options ≠ .ok w) :
    (createFile driver parent name options d).2 = d ∧
      ∀ f, (createFile driver parent name options d).1 ≠ .ok f := by
  cases hp : prepared driver d parent name options with
  | ok w => exact absurd hp (h w)
  | err e =>
    rw [createFile_failed hp]
    exact ⟨rfl, nofun⟩
  | panic =>
    have hx : prepareRecord driver parent name options d = _ :=
      prepareRecord_byteStore parent name options d
    rw [hp] at hx
    have hc : createFile driver parent name options d = (.panic, d) := Prog.bind_of_panic hx
    rw [hc]
    exact ⟨rfl, nofun⟩

/-- Once the new record is in place, the entry is planned from the image that holds it. -/
theorem createFile_placed {d d₁ : ByteStore} {parent : NtfsFile} {name : List Char}
    {options : CreateOptions} {n off : Nat} {record : List UInt8}
    (hprep : prepared driver d parent name options = .ok (n, record))
    (hoff : driver.recordOffset n = .ok off) (hw : d.write off record = some d₁) :
    createFile driver parent name options d =
      (commit (entryPlan driver d₁ parent.recordNumber n name) >>= fun _ ↦ openFile driver n)
      d₁ := by
  have hx : prepareRecord driver parent name options d = _ :=
    prepareRecord_byteStore parent name options d
  rw [hprep] at hx
  refine (Prog.bind_of_ok hx).trans ?_
  refine (Prog.bind_of_ok (Prog.lift_eq_ok.mpr ⟨hoff, rfl⟩)).trans ?_
  refine (Prog.bind_of_ok (writeBlocks_of_write hw)).trans ?_
  rw [Prog.bind_apply, addDirectoryEntry_byteStore, Prog.bind_apply]

/-- A refused entry ends the call behind the write of the record. -/
theorem createFile_refused {d d₁ : ByteStore} {parent : NtfsFile} {name : List Char}
    {options : CreateOptions} {n off : Nat} {record : List UInt8} {e : NtfsError}
    (hprep : prepared driver d parent name options = .ok (n, record))
    (hoff : driver.recordOffset n = .ok off) (hw : d.write off record = some d₁)
    (hplan : entryPlan driver d₁ parent.recordNumber n name = .err e) :
    createFile driver parent name options d = (.err e, d₁) := by
  rw [createFile_placed hprep hoff hw, hplan]
  rfl

/-- An entry that is taken is written, and the new record opened. -/
theorem createFile_taken {d d₁ d₂ : ByteStore} {parent : NtfsFile} {name : List Char}
    {options : CreateOptions} {n off off' : Nat} {record bytes : List UInt8}
    (hprep : prepared driver d parent name options = .ok (n, record))
    (hoff : driver.recordOffset n = .ok off) (hw : d.write off record = some d₁)
    (hplan : entryPlan driver d₁ parent.recordNumber n name = .ok (off', bytes))
    (hw' : d₁.write off' bytes = some d₂) :
    createFile driver parent name options d = ((fun _ ↦ ⟨n⟩) <$> recordAt driver d₂ n, d₂) := by
  rw [createFile_placed hprep hoff hw, hplan, commit_ok,
    Prog.bind_of_ok (writeBlocks_of_write hw'), openFile_byteStore]

/-! ### Reading never reports an absent file -/

private theorem avoids_runOffset {e : NtfsError} (attrData : List UInt8) (off size : Nat) :
    Outcome.Avoids e (runOffset attrData off size) := by
  unfold runOffset
  dsimp only
  split
  · exact Outcome.avoids_bind Outcome.avoids_assert fun _ ↦ Outcome.avoids_ok
  · exact Outcome.avoids_ok

private theorem avoids_parseRunsFrom (attrData : List UInt8) (off prev : Nat) :
    Outcome.Avoids .fileNotFound (parseRunsFrom attrData off prev) := by
  induction off, prev using parseRunsFrom.induct attrData with
  | case1 off prev hlt header lenSize offsetSize hstop =>
    rw [parseRunsFrom, dif_pos hlt]
    simp only [header, lenSize, offsetSize] at hstop
    rw [if_pos hstop]
    exact Outcome.avoids_ok
  | case2 off prev hlt header lenSize offsetSize hstop ih =>
    rw [parseRunsFrom, dif_pos hlt]
    simp only [header, lenSize, offsetSize] at hstop ih
    rw [if_neg hstop]
    refine Outcome.avoids_bind (avoids_runOffset _ _ _) fun offset ↦ ?_
    refine Outcome.avoids_bind (Outcome.avoids_ensure nofun) fun _ ↦ ?_
    refine Outcome.avoids_bind (Outcome.avoids_ensure nofun) fun _ ↦ ?_
    exact Outcome.avoids_bind (ih _) fun _ ↦ Outcome.avoids_ok
  | case3 off prev hlt =>
    rw [parseRunsFrom, dif_neg hlt]
    exact Outcome.avoids_ok

private theorem avoids_parseDataRuns (attrData : List UInt8) :
    Outcome.Avoids .fileNotFound (parseDataRuns attrData) := by
  unfold parseDataRuns
  refine Outcome.avoids_bind (Outcome.avoids_ensure nofun) fun _ ↦ ?_
  refine Outcome.avoids_bind (Outcome.avoids_ensure nofun) fun _ ↦ ?_
  dsimp only
  split
  · exact Outcome.avoids_ok
  refine Outcome.avoids_bind (Outcome.avoids_ensure nofun) fun _ ↦ ?_
  split
  · exact Outcome.avoids_ok
  · exact avoids_parseRunsFrom _ _ _

private theorem avoids_uintAt {e : NtfsError} (b : List UInt8) (off n : Nat) :
    Outcome.Avoids e (uintAt b off n) :=
  Outcome.avoids_bind Outcome.avoids_assert fun _ ↦ Outcome.avoids_ok

private theorem avoids_statStep (boot : BootSector) (st : NtfsStat) (a : Attr) :
    Outcome.Avoids .fileNotFound (statStep boot st a) := by
  have hsize : ∀ runs, Outcome.Avoids NtfsError.fileNotFound
      (runsSize boot.bytesPerCluster runs) := fun runs ↦
    Outcome.avoids_foldlM (fun _ _ ↦ Outcome.avoids_bind Outcome.mulAt_ne_err
      fun _ ↦ Outcome.addAt_ne_err) runs 0
  unfold statStep
  split <;> try exact Outcome.avoids_ok
  · unfold statFileName
    split
    · refine Outcome.avoids_bind (Outcome.avoids_bind Outcome.avoids_assert
        fun _ ↦ Outcome.avoids_ok) fun parsed ↦ ?_
      cases parsed <;> exact Outcome.avoids_ok
    · exact Outcome.avoids_ok
  · unfold statIndexRoot
    split
    · exact Outcome.avoids_bind (avoids_uintAt _ _ _) fun _ ↦ Outcome.avoids_ok
    · exact Outcome.avoids_ok
  · refine Outcome.avoids_bind (avoids_uintAt _ _ _) fun nameLength ↦ ?_
    split
    · split
      · exact Outcome.avoids_ok
      · dsimp only
        split <;> exact Outcome.avoids_ok
    · exact Outcome.avoids_bind (avoids_parseDataRuns _) fun runs ↦
        Outcome.avoids_bind (hsize runs) fun _ ↦ Outcome.avoids_ok

theorem nextAttr_ne_err {record : List UInt8} {off : Nat} {e : NtfsError} :
    nextAttr record off ≠ .err e := by
  unfold nextAttr
  split
  · nofun
  split
  · nofun
  split
  · nofun
  refine Outcome.avoids_bind (avoids_uintAt _ _ _) fun flag ↦ ?_
  split <;> exact Outcome.avoids_ok

private theorem avoids_attrsFrom {e : NtfsError} (record : List UInt8) (off : Nat) :
    Outcome.Avoids e (attrsFrom record off).2 := by
  induction off using attrsFrom.induct record with
  | case1 off a h ih =>
    rw [attrsFrom, h]
    exact ih
  | case2 off h =>
    rw [attrsFrom, h]
    exact Outcome.avoids_ok
  | case3 off e' h => exact absurd h nextAttr_ne_err
  | case4 off h =>
    rw [attrsFrom, h]
    exact Outcome.avoids_panic

private theorem avoids_parseStat (record : List UInt8) (boot : BootSector) :
    Outcome.Avoids .fileNotFound (parseStat record boot) := by
  rw [parseStat_eq]
  refine Outcome.avoids_bind (avoids_uintAt _ _ _) fun first ↦ ?_
  refine Outcome.avoids_bind (Outcome.avoids_foldlM (avoids_statStep boot) _ _) fun st ↦ ?_
  exact Outcome.avoids_bind (avoids_attrsFrom record first) fun _ ↦ Outcome.avoids_ok

private theorem avoids_applyFixups (buf : List UInt8) (sectorSize : Nat) :
    Outcome.Avoids .fileNotFound (applyFixups buf sectorSize) := by
  refine Outcome.avoids_bind (avoids_uintAt _ _ _) fun uso ↦ ?_
  refine Outcome.avoids_bind (avoids_uintAt _ _ _) fun usc ↦ ?_
  split
  · exact Outcome.avoids_ok
  split
  · exact Outcome.avoids_ok
  refine Outcome.avoids_bind (Outcome.avoids_ensure nofun) fun _ ↦ ?_
  refine Outcome.avoids_foldlM (fun b i ↦ ?_) _ _
  refine Outcome.avoids_bind Outcome.sub_ne_err fun fin ↦ ?_
  refine Outcome.avoids_bind (Outcome.avoids_ensure nofun) fun _ ↦ ?_
  exact Outcome.avoids_bind (Outcome.avoids_ensure nofun) fun _ ↦ Outcome.avoids_ok

theorem recordOffset_ne_err {n : Nat} {e : NtfsError} : driver.recordOffset n ≠ .err e := by
  have hm : Outcome.Avoids e driver.boot.mftByteOffset :=
    Outcome.avoids_bind Outcome.mulAt_ne_err fun _ ↦ Outcome.addAt_ne_err
  exact Outcome.avoids_bind hm fun _ ↦
    Outcome.avoids_bind Outcome.mulAt_ne_err fun _ ↦ Outcome.addAt_ne_err

private theorem avoids_recordAt (d : ByteStore) (n : Nat) :
    Outcome.Avoids .fileNotFound (recordAt driver d n) := by
  refine Outcome.avoids_bind ?_ fun buf ↦ ?_
  · exact Outcome.avoids_bind recordOffset_ne_err fun _ ↦ Outcome.avoids_ofOption nofun
  · refine Outcome.avoids_bind (Outcome.avoids_bind Outcome.avoids_assert
      fun _ ↦ Outcome.avoids_ok) fun signature ↦ ?_
    exact Outcome.avoids_bind (Outcome.avoids_ensure nofun) fun _ ↦ avoids_applyFixups _ _

private theorem avoids_findAttributeFrom (record : List UInt8) (attrType off : Nat) :
    Outcome.Avoids .fileNotFound (findAttributeFrom record attrType off) := by
  induction off using findAttributeFrom.induct record attrType with
  | case1 off hle hend =>
    rw [findAttributeFrom, dif_pos hle, if_pos hend]
    exact Outcome.avoids_err (by decide)
  | case2 off hle hend hcode =>
    rw [findAttributeFrom, dif_pos hle, if_neg hend, if_pos hcode]
    exact Outcome.avoids_ok
  | case3 off hle hend hcode hlen =>
    rw [findAttributeFrom, dif_pos hle, if_neg hend, if_neg hcode, dif_pos hlen]
    exact Outcome.avoids_err (by decide)
  | case4 off hle hend hcode hlen ih =>
    rw [findAttributeFrom, dif_pos hle, if_neg hend, if_neg hcode, dif_neg hlen]
    exact ih
  | case5 off hle =>
    rw [findAttributeFrom, dif_neg hle]
    exact Outcome.avoids_err (by decide)

private theorem avoids_rootValue (record : List UInt8) :
    Outcome.Avoids .fileNotFound (rootValue record) := by
  refine Outcome.avoids_bind (Outcome.avoids_bind (Outcome.avoids_ensure nofun)
    fun _ ↦ avoids_findAttributeFrom _ _ _) fun off ↦ ?_
  refine Outcome.avoids_bind (avoids_uintAt _ _ _) fun flag ↦ ?_
  refine Outcome.avoids_bind (Outcome.avoids_ensure nofun) fun _ ↦ ?_
  refine Outcome.avoids_bind (avoids_uintAt _ _ _) fun valOff ↦ ?_
  exact Outcome.avoids_bind Outcome.avoids_assert fun _ ↦ Outcome.avoids_ok

theorem avoids_indexAt (d : ByteStore) (n : Nat) :
    Outcome.Avoids .fileNotFound (indexAt driver d n) := by
  refine Outcome.avoids_bind (avoids_recordAt d n) fun record ↦ ?_
  refine Outcome.avoids_bind (avoids_parseStat record _) fun st ↦ ?_
  split
  · exact Outcome.avoids_ok
  · exact avoids_rootValue record

/-- A name that is absent was looked for in an index that could be read. -/
theorem find_eq_fileNotFound {d : ByteStore} {n : Nat} {name : List Char} :
    (indexAt driver d n >>= (findEntry · name)) = .err .fileNotFound ↔
      ∃ data, indexAt driver d n = .ok data ∧ findEntry data name = .err .fileNotFound := by
  rw [Outcome.bind_eq_err]
  constructor
  · rintro (h | h)
    · exact absurd h (avoids_indexAt d n)
    · exact h
  · exact .inr

/-- Index data comes from a record that can be read. -/
theorem recordAt_of_indexAt {d : ByteStore} {n : Nat} {data : List UInt8}
    (h : indexAt driver d n = .ok data) : ∃ record, recordAt driver d n = .ok record := by
  obtain ⟨record, hr, -⟩ := Outcome.bind_eq_ok.mp h
  exact ⟨record, hr⟩

end SmallOs.Ntfs
