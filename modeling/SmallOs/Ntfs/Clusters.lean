import SmallOs.Ntfs.Atomic

/-!
# Clusters and their owners

`create_file` knows the MFT by its first cluster alone. Over runs of calls it leaves the
clusters of other files alone as long as the first free slot, and the place of the entry,
lie where they should.
-/

namespace SmallOs.Ntfs

open SmallOs.Base SmallOs.Hal

variable {driver : NtfsDriver}

/-! ### Layouts -/

/-- The cluster belongs to one of the runs, each given by its first cluster and its length. -/
def InRuns (runs : List (Nat × Nat)) (c : Nat) : Prop := ∃ run ∈ runs, run.1 ≤ c ∧ c < run.1 + run.2

/-- Who owns the clusters of a volume: `$MFT` those of its runs, the other files some of the
rest. -/
structure Layout where
  mft : List (Nat × Nat)
  owner : Nat → Option NtfsFile
  apart : ∀ c, InRuns mft c → owner c = none

/-- The byte of the device lies in the cluster. -/
def InCluster (boot : BootSector) (c p : Nat) : Prop :=
  boot.partitionByteOffset.toNat + c * boot.bytesPerCluster ≤ p ∧
    p < boot.partitionByteOffset.toNat + c * boot.bytesPerCluster + boot.bytesPerCluster

theorem inCluster_unique {boot : BootSector} {c c' p : Nat} (h : InCluster boot c p)
    (h' : InCluster boot c' p) : c = c' := by
  have hlt : ∀ {a b : Nat}, InCluster boot a p → InCluster boot b p → ¬ a < b := by
    rintro a b ⟨-, ha⟩ ⟨hb, -⟩ hab
    have hle := Nat.mul_le_mul_right boot.bytesPerCluster (Nat.succ_le_of_lt hab)
    rw [Nat.succ_mul] at hle
    omega
  have h₁ := hlt h h'
  have h₂ := hlt h' h
  omega

namespace Layout

/-- The byte lies in a cluster of a file that is neither `$MFT` nor the directory. -/
def Foreign (L : Layout) (boot : BootSector) (dir : NtfsFile) (p : Nat) : Prop :=
  ∃ c f, InCluster boot c p ∧ L.owner c = some f ∧ f ≠ dir

/-- The byte lies in a cluster of `$MFT`. -/
def InMft (L : Layout) (boot : BootSector) (p : Nat) : Prop :=
  ∃ c, InCluster boot c p ∧ InRuns L.mft c

theorem InMft.not_foreign {L : Layout} {boot : BootSector} {dir : NtfsFile} {p : Nat}
    (h : L.InMft boot p) : ¬ L.Foreign boot dir p := by
  obtain ⟨c, hc, hruns⟩ := h
  rintro ⟨c', f, hc', hf, -⟩
  rw [← inCluster_unique hc hc', L.apart c hruns] at hf
  cases hf

/-- The slot lies inside the clusters of `$MFT`. -/
def SlotInside (L : Layout) (driver : NtfsDriver) (n : Nat) : Prop :=
  ∃ off, driver.recordOffset n = .ok off ∧
    ∀ p, off ≤ p → p < off + driver.mftRecordSize → L.InMft driver.boot p

end Layout

/-! ### One call -/

/-- No slot inside the clusters of `$MFT` is free. -/
def MftFull (driver : NtfsDriver) (L : Layout) (d : ByteStore) : Prop :=
  ∀ n, 16 ≤ n → n < 100000 → L.SlotInside driver n → ¬ SlotFree driver d n

/-- The checks that stand in front of the scan for a free slot. -/
structure ChecksPass (driver : NtfsDriver) (d : ByteStore) (input : CreateInput) : Prop where
  directory : isDirectoryAt driver d input.parent.recordNumber = .ok true
  absent : (indexAt driver d input.parent.recordNumber >>= (findEntry · input.name)) =
    .err .fileNotFound
  name : (input.name.map Char.utf8Size).sum ≤ 255

/-- What a call owes the layout: no byte of another file changes, the slot lies inside `$MFT`,
and a full `$MFT` is reported. -/
structure KeepsFiles (driver : NtfsDriver) (L : Layout) (x : CreateCall) : Prop where
  bytes : ∀ p, L.Foreign driver.boot x.input.parent p → x.after.bytes[p]? = x.before.bytes[p]?
  slot : ∀ n, scanFrom driver x.before 16 (100000 - 16) = .ok n → L.SlotInside driver n
  full : MftFull driver L x.before → (∀ f, x.output ≠ .ok f) ∧
    (ChecksPass driver x.before x.input → x.output = .err .noSpace)

/-- The condition on the state before a call: the first free slot lies inside `$MFT`, the scan
of a full `$MFT` does not run out of addresses, and the record or index block that takes the
entry holds no byte of another file. -/
structure StaysInside (driver : NtfsDriver) (L : Layout) (d : ByteStore) (input : CreateInput) :
    Prop where
  first : ∀ n, FirstFree driver d 16 100000 n → L.SlotInside driver n
  scan : MftFull driver L d → scanFrom driver d 16 (100000 - 16) ≠ .panic
  entry : ∀ n record d₁ off bytes, Placed driver d input n record d₁ →
    entryPlan driver d₁ input.parent.recordNumber n input.name = .ok (off, bytes) →
    ∀ p, off ≤ p → p < off + bytes.length → ¬ L.Foreign driver.boot input.parent p

/-- A write into windows without foreign bytes keeps them. -/
theorem foreign_write {L : Layout} {boot : BootSector} {dir : NtfsFile} {d d' : ByteStore}
    {off : Nat} {bytes : List UInt8} (hw : d.write off bytes = some d')
    (hclear : ∀ p, off ≤ p → p < off + bytes.length → ¬ L.Foreign boot dir p) {p : Nat}
    (hp : L.Foreign boot dir p) : d'.bytes[p]? = d.bytes[p]? := by
  apply ByteStore.getElem?_write hw
  by_cases hin : off ≤ p ∧ p < off + bytes.length
  · exact absurd hp (hclear p hin.1 hin.2)
  · omega

/-- A full MFT ends the scan without a slot. -/
theorem scanFrom_of_full {L : Layout} {d : ByteStore} {input : CreateInput}
    (h : StaysInside driver L d input) (hfull : MftFull driver L d) :
    scanFrom driver d 16 (100000 - 16) = .err .noSpace := by
  rcases scanFrom_cases driver d 16 (100000 - 16) with ⟨n, -, hfirst⟩ | ⟨hn, -⟩ | hn
  · exact absurd hfirst.2.2.1 (hfull n hfirst.1 hfirst.2.1 (h.first n hfirst))
  · exact hn
  · exact absurd hn (h.scan hfull)

/-- A call under the condition owes nothing. -/
theorem keepsFiles_of_isCreate {L : Layout} {x : CreateCall} (hx : IsCreate driver x)
    (h : StaysInside driver L x.before x.input) : KeepsFiles driver L x where
  bytes := by
    intro p hp
    rcases createFile_cases hx with ⟨hd, -⟩ | ⟨n, record, off, d₁, hprep, hoff, hw, hrest⟩
    · rw [hd]
    obtain ⟨off', hoff', hinside⟩ := h.first n (prepared_claims hprep).1
    rw [hoff] at hoff'
    cases hoff'
    have hfirst : d₁.bytes[p]? = x.before.bytes[p]? := by
      apply foreign_write hw _ hp
      intro q h₁ h₂
      rw [(prepared_placed hprep).1] at h₂
      exact (hinside q h₁ h₂).not_foreign
    rcases hrest with ⟨hd, -⟩ | ⟨off', bytes, hplan, hw', -⟩
    · rw [hd, hfirst]
    · rw [← hfirst]
      exact foreign_write hw' (h.entry n record d₁ off' bytes ⟨hprep, off, hoff, hw⟩ hplan) hp
  slot := by
    intro n hn
    exact h.first n (scanFrom_ok hn)
  full := by
    intro hfull
    have hscan := scanFrom_of_full h hfull
    have hout : (createFile driver x.input.parent x.input.name x.input.options x.before).1 =
        x.output := by rw [hx]
    rw [← hout]
    constructor
    · apply (createFile_unprepared _ _ _ _ _).2
      rintro ⟨n, record⟩ hprep
      obtain ⟨-, -, -, hn, -⟩ := prepared_eq_ok.mp hprep
      rw [hscan] at hn
      cases hn
    · rintro ⟨hdir, habsent, hname⟩
      rw [createFile_failed]
      simp only [prepared, hdir, habsent, hscan, Outcome.attempt, requireAbsent, Outcome.ok_bind,
        Outcome.ensure_of hname, Outcome.ensure_of, Outcome.err_bind]

/-! ### Runs of calls -/

/-- In a run whose calls meet the condition, every call keeps the files of the layout, and a
byte that is foreign to each of the directories is the same in every state. -/
theorem run_createFile_clusters {L : Layout} {d d' : ByteStore} {t : List CreateCall}
    (hrun : Run (fun x ↦ IsCreate driver x ∧ StaysInside driver L x.before x.input) d t d') :
    (∀ x ∈ t, KeepsFiles driver L x) ∧
      ∀ p, (∀ x ∈ t, L.Foreign driver.boot x.input.parent p) →
        d'.bytes[p]? = d.bytes[p]? ∧ ∀ x ∈ t, x.after.bytes[p]? = d.bytes[p]? := by
  constructor
  · intro x hx
    obtain ⟨hcall, hin⟩ := hrun.mem hx
    exact keepsFiles_of_isCreate hcall hin
  · intro p hp
    have hkept := (hrun.restrict hp).invariant (I := fun s ↦ s.bytes[p]? = d.bytes[p]?) ?_ rfl
    · exact ⟨hkept.1, fun x hx ↦ (hkept.2 x hx).2⟩
    · rintro x ⟨⟨hcall, hin⟩, hforeign⟩ hsame
      rw [(keepsFiles_of_isCreate hcall hin).bytes p hforeign, hsame]

/-- The first `k` clusters are those of `$MFT`, the next one belongs to file 30. -/
def smallLayout (k : Nat) : Layout where
  mft := [(0, k)]
  owner c := if c = k then some ⟨30⟩ else none
  apart := by
    rintro c ⟨run, hrun, -, hc⟩
    rw [List.mem_singleton.mp hrun] at hc
    rw [if_neg (by omega)]

theorem inCluster_small {c p : Nat} :
    InCluster smallDriver.boot c p ↔ c * 1024 ≤ p ∧ p < c * 1024 + 1024 := by
  change 0 + c * 1024 ≤ p ∧ p < 0 + c * 1024 + 1024 ↔ _
  rw [Nat.zero_add]

theorem foreign_small {k p : Nat} : (smallLayout k).Foreign smallDriver.boot ⟨5⟩ p ↔
    k * 1024 ≤ p ∧ p < k * 1024 + 1024 := by
  constructor
  · rintro ⟨c, f, hc, hf, -⟩
    by_cases hk : c = k
    · rw [hk] at hc
      exact inCluster_small.mp hc
    · have hnone : (smallLayout k).owner c = none := if_neg hk
      rw [hnone] at hf
      cases hf
  · intro hp
    exact ⟨k, ⟨30⟩, inCluster_small.mpr hp, if_pos rfl, by decide⟩

theorem slotInside_small {k n : Nat} (h : n < k) (hn : n < 100000) :
    (smallLayout k).SlotInside smallDriver n := by
  refine ⟨n * 1024, smallDriver_recordOffset n hn, ?_⟩
  intro p h₁ h₂
  exact ⟨n, inCluster_small.mpr ⟨h₁, h₂⟩, (0, k), List.mem_singleton.mpr rfl, Nat.zero_le n,
    by omega⟩

/-- The new record lies inside the MFT, and the directory takes the entry. -/
theorem run_createFile_clusters_small :
    ∃ x d', Run (fun x ↦ IsCreate smallDriver x ∧
        StaysInside smallDriver (smallLayout 17) x.before x.input)
        (smallVolume (emptyDirectory 232)) [x] d' ∧
      (∃ f, x.output = .ok f) ∧ (∀ y ∈ [x], KeepsFiles smallDriver (smallLayout 17) y) ∧
      ∀ p, (∀ y ∈ [x], (smallLayout 17).Foreign smallDriver.boot y.input.parent p) →
        d'.bytes[p]? = (smallVolume (emptyDirectory 232)).bytes[p]? ∧
        ∀ y ∈ [x], y.after.bytes[p]? = (smallVolume (emptyDirectory 232)).bytes[p]? := by
  obtain ⟨d', hc, -⟩ := createFile_emptyDirectory
  have hfree := slot_smallVolume_sixteen length_emptyDirectory
  have hrec := recordAt_smallVolume length_emptyDirectory
  have hnone := emptyDirectory_takes.1
  rw [openRecord_emptyDirectory] at hrec
  generalize smallVolume (emptyDirectory 232) = d at *
  have hstays : StaysInside smallDriver (smallLayout 17) d (smallInput ['a']) := by
    constructor
    · rintro n ⟨h₁, h₂, -, hbefore⟩
      apply slotInside_small _ h₂
      by_cases hlt : 16 < n
      · exact absurd ⟨_, hfree, by decide⟩ (hbefore 16 (Nat.le_refl _) hlt)
      · omega
    · intro hfull
      have hinside := slotInside_small (k := 17) (show 16 < 17 by decide) (by decide)
      exact absurd ⟨_, hfree, by decide⟩ (hfull 16 (by decide) (by decide) hinside)
    · intro n record d₁ off bytes hplaced hplan p hp₁ hp₂ hforeign
      obtain ⟨parentRecord, hparent, hparent₁⟩ := hplaced.recordAt_parent
      obtain rfl := Outcome.ok.inj (hrec.symm.trans hparent)
      rw [entryPlan_resident hparent₁ hnone] at hplan
      obtain ⟨_, -, -, hoff⟩ := residentPlan_eq_ok.mp hplan
      rw [length_residentPlan hplan, length_recordAt hparent] at hp₂
      have hforeign := foreign_small.mp hforeign
      rw [smallDriver_recordOffset _ (by decide)] at hoff
      cases hoff
      change p < 5 * 1024 + 1024 at hp₂
      omega
  have hrun := Run.cons (R := fun x ↦ IsCreate smallDriver x ∧
    StaysInside smallDriver (smallLayout 17) x.before x.input)
    (x := ⟨d, smallInput ['a'], Outcome.ok ⟨16⟩, d'⟩) ⟨hc, hstays⟩ (.nil d')
  exact ⟨_, _, hrun, ⟨_, rfl⟩, run_createFile_clusters hrun⟩

/-- An MFT of sixteen records is full for the scan; the call then succeeds on the next
cluster, which holds the data of another file. -/
theorem run_createFile_clusters_behind :
    ∃ x d', Run (IsCreate smallDriver) (smallVolume (emptyDirectory 232)) [x] d' ∧
      MftFull smallDriver (smallLayout 16) x.before ∧ (∃ f, x.output = .ok f) ∧
      ∃ p, (smallLayout 16).Foreign smallDriver.boot x.input.parent p ∧
        x.after.bytes[p]? ≠ x.before.bytes[p]? := by
  obtain ⟨d', hc, hs, -⟩ := createFile_emptyDirectory
  have hfree := slot_smallVolume_sixteen length_emptyDirectory
  generalize smallVolume (emptyDirectory 232) = d at *
  have hrun := Run.cons (R := IsCreate smallDriver)
    (x := ⟨d, smallInput ['a'], Outcome.ok ⟨16⟩, d'⟩) hc (.nil d')
  refine ⟨_, _, hrun, ?_, ⟨_, rfl⟩, 16384, foreign_small.mpr (by decide), ?_⟩
  · rintro n hn hlt ⟨off, hoff, hinside⟩ -
    rw [smallDriver_recordOffset n hlt] at hoff
    cases hoff
    obtain ⟨c, hc, run, hrun, -, hrun'⟩ := hinside (n * 1024) (Nat.le_refl _)
      (Nat.lt_add_of_pos_right (by decide))
    rw [List.mem_singleton.mp hrun] at hrun'
    have hc' := inCluster_small.mp hc
    omega
  · have hoff := smallDriver_recordOffset 16 (by decide)
    obtain ⟨marked, hmark, hsig, -⟩ := smallRecord_opens built_isOk
    have hfirst : marked[0]? = some 0x46 := by
      have hbyte := congrArg (·[0]?) hsig
      rwa [getElem?_slice, if_pos (by decide)] at hbyte
    have hafter := getElem?_of_slot (hs.trans hmark) hoff (show 0 < 1024 by decide)
    have hbefore := getElem?_of_slot hfree hoff (show 0 < 1024 by decide)
    rw [hfirst] at hafter
    change d'.bytes[16384 + 0]? ≠ d.bytes[16384 + 0]?
    rw [hafter, hbefore]
    decide

end SmallOs.Ntfs
