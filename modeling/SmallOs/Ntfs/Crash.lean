import SmallOs.Gpt.Crash
import SmallOs.Ntfs.Catalog

/-!
# Crashes between writes

A recorded store keeps the image behind each write of a call. The new record of `create_file` goes
to a slot that was not in use before the directory names it, so an image that a crash leaves
holds the catalogue in front of the call or the one behind it.
-/

namespace SmallOs.Ntfs

open SmallOs.Base SmallOs.Hal SmallOs.Gpt

/-! ### Recorded programs -/

section Leaves

variable {α β : Type}

/-- On a recorded store the first program does what the second one does on the store, and each
image that it leaves has the property. -/
def Leaves (x : Prog Recorded NtfsError α) (y : Prog ByteStore NtfsError α) (d : ByteStore)
    (P : ByteStore → Prop) : Prop :=
  ∀ log, ∃ images, x ⟨d, log⟩ = ((y d).1, ⟨(y d).2, log ++ images⟩) ∧ ∀ i ∈ images, P i

/-- The program leaves no image. -/
def Reads (x : Prog Recorded NtfsError α) (y : Prog ByteStore NtfsError α) : Prop :=
  ∀ d P, Leaves x y d P

variable {x : Prog Recorded NtfsError α} {y : Prog ByteStore NtfsError α}
  {f : α → Prog Recorded NtfsError β} {g : α → Prog ByteStore NtfsError β} {d : ByteStore}
  {P : ByteStore → Prop}

theorem leaves_bind (hx : Leaves x y d P)
    (hf : ∀ a, (y d).1 = .ok a → Leaves (f a) (g a) (y d).2 P) :
    Leaves (x >>= f) (y >>= g) d P := by
  intro log
  obtain ⟨images, hrun, hall⟩ := hx log
  rcases hy : y d with ⟨a | e | _, t⟩
  · rw [hy] at hrun hf
    obtain ⟨images', hrun', hall'⟩ := hf a rfl (log ++ images)
    refine ⟨images ++ images', ?_, ?_⟩
    · rw [Prog.bind_of_ok hrun, Prog.bind_of_ok hy, hrun', List.append_assoc]
    · intro i hi
      exact (List.mem_append.mp hi).elim (hall i) (hall' i)
  · rw [hy] at hrun
    refine ⟨images, ?_, hall⟩
    rw [Prog.bind_of_err hrun, Prog.bind_of_err hy]
  · rw [hy] at hrun
    refine ⟨images, ?_, hall⟩
    rw [Prog.bind_of_panic hrun, Prog.bind_of_panic hy]

theorem reads_lift (v : Outcome NtfsError α) : Reads (Prog.lift v) (Prog.lift v) := by
  intro d P log
  exact ⟨[], by rw [List.append_nil]; rfl, nofun⟩

theorem leaves_lift_bind {v : Outcome NtfsError α} (hf : ∀ a, v = .ok a → Leaves (f a) (g a) d P) :
    Leaves (Prog.lift v >>= f) (Prog.lift v >>= g) d P :=
  leaves_bind (reads_lift v d P) hf

theorem reads_pure (a : α) : Reads (pure a) (pure a) := reads_lift (.ok a)

theorem reads_bind (hx : Reads x y) (hf : ∀ a, Reads (f a) (g a)) : Reads (x >>= f) (y >>= g) :=
  fun d P ↦ leaves_bind (hx d P) fun a _ ↦ hf a _ P

theorem reads_attempt (hx : Reads x y) : Reads (Prog.attempt x) (Prog.attempt y) := by
  intro d P log
  obtain ⟨images, hrun, hall⟩ := hx d P log
  refine ⟨images, ?_, hall⟩
  rw [Prog.attempt_apply, Prog.attempt_apply, hrun]

theorem reads_readBlocks (off len : Nat) : Reads (readBlocks off len) (readBlocks off len) := by
  intro d P log
  refine ⟨[], ?_, nofun⟩
  simp only [readBlocks, BlockDevice.readBlocks, List.length_replicate, List.append_nil]
  cases d.read off len <;> rfl

theorem leaves_writeBlocks (off : Nat) (buf : List UInt8) (h : P (writeBlocks off buf d).2) :
    Leaves (writeBlocks off buf) (writeBlocks off buf) d P := by
  intro log
  refine ⟨[(writeBlocks off buf d).2], ?_, ?_⟩
  · simp only [writeBlocks, BlockDevice.writeBlocks]
    cases d.write off buf <;> rfl
  · intro i hi
    rwa [List.mem_singleton.mp hi]

theorem Leaves.mono {Q : ByteStore → Prop} (h : Leaves x y d P) (hPQ : ∀ i, P i → Q i) :
    Leaves x y d Q := by
  intro log
  obtain ⟨images, hrun, hall⟩ := h log
  exact ⟨images, hrun, fun i hi ↦ hPQ i (hall i hi)⟩

/-- The program leaves no image but the one at its end. -/
def LeavesLast (x : Prog Recorded NtfsError α) (y : Prog ByteStore NtfsError α) (d : ByteStore) :
    Prop :=
  Leaves x y d (· = (y d).2)

theorem leavesLast_bind (hx : Reads x y)
    (hf : ∀ a, (y d).1 = .ok a → LeavesLast (f a) (g a) (y d).2) :
    LeavesLast (x >>= f) (y >>= g) d := by
  apply leaves_bind (hx d _)
  intro a ha
  have hend : ((y >>= g) d).2 = (g a (y d).2).2 := by
    rw [Prog.bind_of_ok (Prod.ext ha rfl)]
  rw [hend]
  exact hf a ha

/-- What only reads may follow. -/
theorem leavesLast_before (hx : LeavesLast x y d) (hf : ∀ a, Reads (f a) (g a))
    (hg : ∀ a t, (g a t).2 = t) : LeavesLast (x >>= f) (y >>= g) d := by
  have hend : ((y >>= g) d).2 = (y d).2 := by
    rw [Prog.bind_apply]
    rcases y d with ⟨a | e | _, t⟩
    · exact hg a t
    · rfl
    · rfl
  unfold LeavesLast
  rw [hend]
  exact leaves_bind hx fun a _ ↦ hf a _ _

theorem leavesLast_writeBlocks (off : Nat) (buf : List UInt8) :
    LeavesLast (writeBlocks off buf) (writeBlocks off buf) d :=
  leaves_writeBlocks off buf rfl

end Leaves

/-! ### What only reads -/

section Reading

variable (driver : NtfsDriver)

theorem reads_readMftRecord (n : Nat) : Reads (readMftRecord driver n) (readMftRecord driver n) :=
  reads_bind (reads_lift _) fun _ ↦ reads_bind (reads_readBlocks _ _) fun _ ↦ reads_lift _

theorem reads_stat (file : NtfsFile) : Reads (stat driver file) (stat driver file) :=
  reads_bind (reads_readMftRecord driver _) fun _ ↦ reads_lift _

theorem reads_openFile (n : Nat) : Reads (openFile driver n) (openFile driver n) :=
  reads_bind (reads_readMftRecord driver _) fun _ ↦ reads_pure _

theorem reads_isDirectory (file : NtfsFile) :
    Reads (isDirectory driver file) (isDirectory driver file) := by
  unfold isDirectory
  split
  · exact reads_pure _
  · rw [map_eq_pure_bind, map_eq_pure_bind]
    exact reads_bind (reads_stat driver file) fun _ ↦ reads_pure _

theorem reads_directoryIndex (dir : NtfsFile) :
    Reads (directoryIndex driver dir) (directoryIndex driver dir) := by
  apply reads_bind (reads_stat driver dir)
  intro st
  unfold getIndexData
  split
  · exact reads_pure _
  · exact reads_bind (reads_readMftRecord driver _) fun _ ↦ reads_lift _

theorem reads_findInDirectory (dir : NtfsFile) (name : List Char) :
    Reads (findInDirectory driver dir name) (findInDirectory driver dir name) :=
  reads_bind (reads_directoryIndex driver dir) fun _ ↦ reads_lift _

theorem reads_listDirectory (dir : NtfsFile) :
    Reads (listDirectory driver dir) (listDirectory driver dir) :=
  reads_bind (reads_directoryIndex driver dir) fun _ ↦ reads_pure _

theorem reads_readClusters (boot : BootSector) (clusters : List (Nat × Nat)) :
    Reads (readClusters boot clusters) (readClusters boot clusters) := by
  induction clusters with
  | nil => exact reads_pure _
  | cons c clusters ih =>
    apply reads_bind (reads_lift _)
    intro offset
    apply reads_bind (reads_lift _)
    intro size
    exact reads_bind (reads_readBlocks _ _) fun _ ↦ reads_bind ih fun _ ↦ reads_pure _

theorem reads_readDataRuns (boot : BootSector) (runs : List DataRun) :
    Reads (readDataRuns boot runs) (readDataRuns boot runs) := by
  induction runs with
  | nil => exact reads_pure _
  | cons run runs ih =>
    cases run with
    | resident data => exact reads_bind ih fun _ ↦ reads_pure _
    | nonResident clusters =>
      exact reads_bind (reads_readClusters boot clusters) fun _ ↦
        reads_bind ih fun _ ↦ reads_pure _

theorem reads_readFileAll (file : NtfsFile) :
    Reads (readFileAll driver file) (readFileAll driver file) :=
  reads_bind (reads_stat driver file) fun _ ↦
    reads_bind (reads_lift _) fun _ ↦ reads_readDataRuns _ _

theorem reads_allocateFrom (num count : Nat) :
    Reads (allocateFrom driver num count) (allocateFrom driver num count) := by
  induction count generalizing num with
  | zero => exact reads_lift _
  | succ count ih =>
    apply reads_bind (reads_lift _)
    intro offset
    apply reads_bind (reads_attempt (reads_readBlocks _ _))
    intro found
    cases found with
    | error e => exact ih (num + 1)
    | ok buf =>
      apply reads_bind (reads_lift _)
      intro _
      split
      · exact ih (num + 1)
      · exact reads_pure _

theorem reads_prepareRecord (parent : NtfsFile) (name : List Char) (options : CreateOptions) :
    Reads (prepareRecord driver parent name options) (prepareRecord driver parent name options) := by
  apply reads_bind (reads_isDirectory driver parent)
  intro directory
  apply reads_bind (reads_lift _)
  intro _
  apply reads_bind (reads_attempt (reads_findInDirectory driver parent name))
  intro found
  apply reads_bind (reads_lift _)
  intro _
  apply reads_bind (reads_lift _)
  intro _
  apply reads_bind (reads_allocateFrom driver _ _)
  intro n
  apply reads_bind (reads_lift _)
  intro record
  apply reads_bind (reads_lift _)
  intro record
  exact reads_pure _

end Reading

/-! ### What writes -/

section Writing

variable {driver : NtfsDriver} {d : ByteStore}

/-- `write_file` writes once. -/
theorem leavesLast_writeFile (file : NtfsFile) (data : List UInt8) :
    LeavesLast (writeFile driver file data) (writeFile driver file data) d := by
  apply leavesLast_bind (reads_stat driver file)
  intro st _
  apply leavesLast_bind (reads_lift _)
  intro _ _
  apply leavesLast_bind (reads_readMftRecord driver _)
  intro record _
  apply leavesLast_bind (reads_lift _)
  intro record _
  apply leavesLast_bind (reads_lift _)
  intro off _
  exact leavesLast_writeBlocks _ _

theorem leavesLast_addToResidentIndex (record : List UInt8) (parent : NtfsFile) (child : Nat)
    (name : List Char) :
    LeavesLast (addToResidentIndex driver record parent child name)
      (addToResidentIndex driver record parent child name) d := by
  apply leavesLast_bind (reads_lift _)
  intro record _
  apply leavesLast_bind (reads_lift _)
  intro record _
  apply leavesLast_bind (reads_lift _)
  intro off _
  exact leavesLast_writeBlocks _ _

/-- In a directory without an external index, an entry is written once. -/
theorem leavesLast_addDirectoryEntry {record : List UInt8} {dir : NtfsFile}
    (hread : recordAt driver d dir.recordNumber = .ok record)
    (halone : (findAttributeOffset record 0xA0).isOk = false) (child : Nat) (name : List Char) :
    LeavesLast (addDirectoryEntry driver dir child name) (addDirectoryEntry driver dir child name)
      d := by
  apply leavesLast_bind (reads_readMftRecord driver _)
  intro record' hrecord
  rw [readMftRecord_byteStore, hread] at hrecord
  cases hrecord
  rw [if_neg (by rw [halone]; exact Bool.false_ne_true),
    if_neg (by rw [halone]; exact Bool.false_ne_true)]
  exact leavesLast_addToResidentIndex record dir child name

/-- Behind the new record, only the directory is written. -/
theorem leavesLast_behindRecord {dir : NtfsFile} {record new : List UInt8} {a : Attr}
    (hdir : ResidentDirectory driver d dir record a) {name : List Char} {options : CreateOptions}
    {n off : Nat} {d₁ : ByteStore} (hprep : prepared driver d dir name options = .ok (n, new))
    (hoff : driver.recordOffset n = .ok off) (hw : d.write off new = some d₁) :
    LeavesLast (addDirectoryEntry driver dir n name >>= fun _ ↦ openFile driver n)
      (addDirectoryEntry driver dir n name >>= fun _ ↦ openFile driver n) d₁ := by
  obtain ⟨hlen, -⟩ := prepared_placed hprep
  obtain ⟨-, hne⟩ := prepared_claims hprep
  have hread : recordAt driver d₁ dir.recordNumber = .ok record := by
    rw [recordAt_write_other hoff hlen hw (Ne.symm hne), hdir.read]
  exact leavesLast_before (leavesLast_addDirectoryEntry hread hdir.alone n name)
    (fun _ ↦ reads_openFile driver n) fun _ t ↦ congrArg Prod.snd (openFile_byteStore n t)

/-- `create_file` writes the new record, then the directory. -/
theorem leaves_createFile {dir : NtfsFile} {record : List UInt8} {a : Attr}
    (hdir : ResidentDirectory driver d dir record a) (name : List Char) (options : CreateOptions) :
    Leaves (createFile driver dir name options) (createFile driver dir name options) d fun i ↦
      i = (createFile driver dir name options d).2 ∨
        ∃ n new off, prepared driver d dir name options = .ok (n, new) ∧
          driver.recordOffset n = .ok off ∧ d.write off new = some i := by
  have hprepare : prepareRecord driver dir name options d =
      (prepared driver d dir name options, d) := prepareRecord_byteStore dir name options d
  apply leaves_bind (reads_prepareRecord driver dir name options d _)
  rintro ⟨n, new⟩ hnew
  rw [hprepare] at hnew ⊢
  change prepared driver d dir name options = .ok (n, new) at hnew
  obtain ⟨-, off, d₁, hoff, hw⟩ := prepared_placed hnew
  apply leaves_lift_bind
  intro off' hoff'
  obtain rfl := Outcome.ok.inj (hoff.symm.trans hoff')
  have hwrite := writeBlocks_of_write hw
  apply leaves_bind
  · apply leaves_writeBlocks
    rw [hwrite]
    exact .inr ⟨n, new, off, hnew, hoff, hw⟩
  intro _ _
  rw [hwrite]
  apply (leavesLast_behindRecord hdir hnew hoff hw).mono
  rintro i rfl
  left
  rw [createFile_placed hnew hoff hw, Prog.bind_apply, Prog.bind_apply,
    addDirectoryEntry_byteStore]

end Writing

/-! ### Crashes of a call -/

/-- The images that a crash of a call can leave: the one in front of its first write and the one
behind each. -/
def crashes (driver : NtfsDriver) (dir : NtfsFile) (d : ByteStore) (request : Request) :
    List ByteStore :=
  (serve driver dir (⟨d, [d]⟩ : Recorded) request).2.images

/-- A creation may crash between its two writes. -/
theorem placed_mem_crashes {driver : NtfsDriver} {d d₁ : ByteStore} {dir : NtfsFile}
    {record new : List UInt8} {a : Attr} (hdir : ResidentDirectory driver d dir record a)
    {name : List Char} {options : CreateOptions} {n off : Nat}
    (hprep : prepared driver d dir name options = .ok (n, new))
    (hoff : driver.recordOffset n = .ok off) (hw : d.write off new = some d₁) :
    d₁ ∈ crashes driver dir d (.create name options) := by
  obtain ⟨read, hread, -⟩ := reads_prepareRecord driver dir name options d (fun _ ↦ True) [d]
  rw [prepareRecord_byteStore, hprep] at hread
  have hwrite : writeBlocks off new (⟨d, [d] ++ read⟩ : Recorded) =
      ((.ok (), ⟨d₁, [d] ++ read ++ [d₁]⟩) : Outcome NtfsError Unit × Recorded) := by
    simp only [writeBlocks, BlockDevice.writeBlocks, hw]
  obtain ⟨rest, hrest, -⟩ := leavesLast_behindRecord hdir hprep hoff hw ([d] ++ read ++ [d₁])
  have himages : (createFile driver dir name options (⟨d, [d]⟩ : Recorded)).2.images =
      [d] ++ read ++ [d₁] ++ rest := by
    rw [createFile, Prog.bind_of_ok hread]
    dsimp only
    rw [hoff, Prog.bind_of_ok (Prog.lift_apply _ _), Prog.bind_of_ok hwrite, hrest]
  rw [crashes, serve, himages]
  exact List.mem_append_left _ (List.mem_append_right _ (List.mem_singleton_self _))

/-- A call that returns, or a crash of one. -/
inductive MayCrash (driver : NtfsDriver) (dir : NtfsFile) :
    Call ByteStore Request (Option Reply) → Prop where
  | returned {d d' : ByteStore} {request : Request} {reply : Reply} :
      serve driver dir d request = (reply, d') → MayCrash driver dir ⟨d, request, some reply, d'⟩
  | crashed {d image : ByteStore} {request : Request} :
      image ∈ crashes driver dir d request → MayCrash driver dir ⟨d, request, none, image⟩

/-- A catalogue whose calls may get lost: such a call has its whole effect, or none. -/
inductive AnswersOrNot : Call Catalog Request (Option Reply) → Prop where
  | returned {c c' : Catalog} {request : Request} {reply : Reply} :
      Answers ⟨c, request, reply, c'⟩ → AnswersOrNot ⟨c, request, some reply, c'⟩
  | lost (c : Catalog) (request : Request) : AnswersOrNot ⟨c, request, none, c⟩
  | done {c c' : Catalog} {request : Request} {reply : Reply} :
      Answers ⟨c, request, reply, c'⟩ → AnswersOrNot ⟨c, request, none, c'⟩

variable {driver : NtfsDriver} {dir : NtfsFile} {d d' : ByteStore} {c : Catalog}

namespace Holds

/-- A crash leaves the image behind the call, or one that holds what was held before. -/
theorem crash (h : Holds driver dir d c) (request : Request) {image : ByteStore}
    (himage : image ∈ crashes driver dir d request) :
    image = (serve driver dir d request).2 ∨ Holds driver dir image c := by
  have hleaves : ∃ images, (crashes driver dir d request) = d :: images ∧
      ∀ i ∈ images, i = (serve driver dir d request).2 ∨ Holds driver dir i c := by
    cases request with
    | create name options =>
      obtain ⟨record, a, hdir, -⟩ := h.directory
      obtain ⟨images, hrun, hall⟩ := leaves_createFile hdir name options [d]
      refine ⟨images, by simp only [crashes, serve, hrun, List.singleton_append], ?_⟩
      intro i hi
      rcases hall i hi with hend | ⟨n, new, off, hprep, hoff, hw⟩
      · exact .inl hend
      · exact .inr (h.placed hprep hoff hw)
    | write n data =>
      obtain ⟨images, hrun, hall⟩ := leavesLast_writeFile ⟨n⟩ data [d]
      exact ⟨images, by simp only [crashes, serve, hrun, List.singleton_append],
        fun i hi ↦ .inl (hall i hi)⟩
    | read n =>
      obtain ⟨images, hrun, hall⟩ := reads_readFileAll driver ⟨n⟩ d (fun _ ↦ False) [d]
      exact ⟨images, by simp only [crashes, serve, hrun, List.singleton_append],
        fun i hi ↦ (hall i hi).elim⟩
    | find name =>
      obtain ⟨images, hrun, hall⟩ := reads_findInDirectory driver dir name d (fun _ ↦ False) [d]
      exact ⟨images, by simp only [crashes, serve, hrun, List.singleton_append],
        fun i hi ↦ (hall i hi).elim⟩
    | list =>
      obtain ⟨images, hrun, hall⟩ := reads_listDirectory driver dir d (fun _ ↦ False) [d]
      exact ⟨images, by simp only [crashes, serve, hrun, List.singleton_append],
        fun i hi ↦ (hall i hi).elim⟩
  obtain ⟨images, himages, hall⟩ := hleaves
  rw [himages] at himage
  rcases List.mem_cons.mp himage with rfl | hi
  · exact .inr h
  · exact hall image hi

end Holds

/-- A proper call that returns or crashes is one of the catalogue. -/
theorem step_mayCrash (h512 : driver.sectorSize = 512) (hsize : 1024 ≤ driver.mftRecordSize)
    {x : Call ByteStore Request (Option Reply)} (hx : MayCrash driver dir x)
    (hproper : Proper driver dir x.before x.input) (h : Holds driver dir x.before c) :
    ∃ c', AnswersOrNot ⟨c, x.input, x.output, c'⟩ ∧ Holds driver dir x.after c' := by
  cases hx with
  | @returned d d' request reply hserve =>
    obtain ⟨c', hans, hholds⟩ := step_catalog h512 hsize (x := ⟨d, request, reply, d'⟩)
      ⟨hserve, hproper⟩ h
    exact ⟨c', .returned hans, hholds⟩
  | @crashed d image request himage =>
    rcases h.crash request himage with hend | hkept
    · obtain rfl : image = (serve driver dir d request).2 := hend
      let whole : Call ByteStore Request Reply :=
        ⟨d, request, (serve driver dir d request).1, (serve driver dir d request).2⟩
      obtain ⟨c', hans, hholds⟩ := step_catalog h512 hsize (x := whole) ⟨rfl, hproper⟩ h
      exact ⟨c', .done hans, hholds⟩
    · exact ⟨c, .lost c request, hkept⟩

/-- Every run of the driver that any number of crashes between writes interrupt is a run of the
catalogue, in which a crashed call has its whole effect or none. -/
theorem crash_catalog (h512 : driver.sectorSize = 512) (hsize : 1024 ≤ driver.mftRecordSize)
    {t : List (Call ByteStore Request (Option Reply))}
    (ht : Run (fun x ↦ MayCrash driver dir x ∧ Proper driver dir x.before x.input) d t d')
    (h : Holds driver dir d c) :
    ∃ u c', Run AnswersOrNot c u c' ∧
      u.map (fun y ↦ (y.input, y.output)) = t.map (fun x ↦ (x.input, x.output)) ∧
      Holds driver dir d' c' :=
  ht.simulate (fun _ hx _ hbefore ↦ step_mayCrash h512 hsize hx.1 hx.2 hbefore) h

/-- A creation crashes between its two writes, and the name is looked up in what is left. -/
theorem crash_catalog_small : ∃ image ∈ crashes smallDriver ⟨5⟩ (smallVolume (emptyDirectory 232))
      (.create ['a'] ⟨false, []⟩), ∃ u c', Run AnswersOrNot emptyCatalog u c' ∧
    u.map Call.input = [.create ['a'] ⟨false, []⟩, .find ['a']] ∧
    Holds smallDriver ⟨5⟩ image c' := by
  obtain ⟨_, hcall, -⟩ := createFile_emptyDirectory
  have hheld := holds_emptyDirectory
  generalize smallVolume (emptyDirectory 232) = d at hcall hheld ⊢
  obtain ⟨new, image, _, _, _, ⟨hprep, off, hoff, hw⟩, -⟩ := createFile_eq_ok.mp hcall
  obtain ⟨record, a, hdir, -⟩ := hheld.directory
  have himage := placed_mem_crashes hdir hprep hoff hw
  refine ⟨image, himage, ?_⟩
  let first : Call ByteStore Request (Option Reply) :=
    ⟨d, .create ['a'] ⟨false, []⟩, none, image⟩
  let second : Call ByteStore Request (Option Reply) :=
    ⟨image, .find ['a'], some (serve smallDriver ⟨5⟩ image (.find ['a'])).1, image⟩
  have hfind : serve smallDriver ⟨5⟩ image (.find ['a']) =
      ((serve smallDriver ⟨5⟩ image (.find ['a'])).1, image) := by
    rw [serve, findInDirectory_byteStore]
  have htail : Run (fun x ↦ MayCrash smallDriver ⟨5⟩ x ∧ Proper smallDriver ⟨5⟩ x.before x.input)
      image [second] image := .cons (x := second) ⟨.returned hfind, trivial⟩ (.nil image)
  have hrun : Run (fun x ↦ MayCrash smallDriver ⟨5⟩ x ∧ Proper smallDriver ⟨5⟩ x.before x.input)
      d [first, second] image :=
    .cons (x := first) ⟨.crashed himage, by decide, by decide⟩ htail
  obtain ⟨u, c', hu, hmap, hholds⟩ := crash_catalog rfl (by decide) hrun hheld
  refine ⟨u, c', hu, ?_, hholds⟩
  have hinputs := congrArg (List.map Prod.fst) hmap
  rw [List.map_map, List.map_map] at hinputs
  exact hinputs

end SmallOs.Ntfs
