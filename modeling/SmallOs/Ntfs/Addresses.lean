import SmallOs.Ntfs.Driver

/-!
# Addresses of clusters

Three pieces of code turn a cluster number into the first argument of a device call: the
reader of data runs, the writer of external indexes and the access to MFT records. A traced
device shows which argument each of them hands over.
-/

namespace SmallOs.Ntfs

open SmallOs.Base SmallOs.Hal

/-! ### Logs -/

section Logs

variable {D : Type} [BlockDevice D]

theorem readBlocks_traced (off len : Nat) (t : Traced D) :
    (readBlocks off len t).2.log = t.log ++ [.read off len] := by
  simp only [readBlocks, BlockDevice.readBlocks, List.length_replicate]
  rcases BlockDevice.readBlocks t.device off (List.replicate len 0) with ⟨e | w, d⟩
  · rfl
  · rfl

theorem writeBlocks_traced (off : Nat) (buf : List UInt8) (t : Traced D) :
    (writeBlocks off buf t).2.log = t.log ++ [.write off buf.length] := by
  simp only [writeBlocks, BlockDevice.writeBlocks]
  rcases BlockDevice.writeBlocks t.device off buf with ⟨e | u, d⟩
  · rfl
  · rfl

/-- Every access that is new in the second log has the property. -/
def LogsOnly (P : Access → Prop) (t u : Traced D) : Prop := ∀ a ∈ u.log, a ∈ t.log ∨ P a

variable {P : Access → Prop}

omit [BlockDevice D] in
theorem LogsOnly.refl (t : Traced D) : LogsOnly P t t := fun _ ↦ .inl

omit [BlockDevice D] in
theorem LogsOnly.trans (t u v : Traced D) (h₁ : LogsOnly P t u) (h₂ : LogsOnly P u v) :
    LogsOnly P t v := by
  intro a ha
  obtain ha | ha := h₂ a ha
  · exact h₁ a ha
  · exact .inr ha

omit [BlockDevice D] in
private theorem logsOnly_of_append {t u : Traced D} {a : Access} (h : u.log = t.log ++ [a])
    (ha : P a) : LogsOnly P t u := by
  intro b hb
  rw [h, List.mem_append, List.mem_singleton] at hb
  obtain hb | rfl := hb
  · exact .inl hb
  · exact .inr ha

theorem follows_readBlocks {off len : Nat} (h : P (.read off len)) :
    Prog.Follows (LogsOnly P) (readBlocks off len : Prog (Traced D) NtfsError _) :=
  fun t ↦ logsOnly_of_append (readBlocks_traced off len t) h

theorem follows_writeBlocks {off : Nat} {buf : List UInt8} (h : P (.write off buf.length)) :
    Prog.Follows (LogsOnly P) (writeBlocks off buf : Prog (Traced D) NtfsError _) :=
  fun t ↦ logsOnly_of_append (writeBlocks_traced off buf t) h

/-- The reader of one run asks for a 512-byte block number, without the partition offset. -/
theorem readDataRuns_log (boot : BootSector) (c len : Nat) (t : Traced D) :
    (readDataRuns boot [.nonResident [(c, len)]] t).2.log =
      if c * boot.bytesPerCluster < 2 ^ 64 ∧ len * boot.bytesPerCluster < 2 ^ 64 then
        t.log ++ [.read (c * boot.bytesPerCluster / 512) (len * boot.bytesPerCluster)]
      else t.log := by
  by_cases hc : c * boot.bytesPerCluster < 2 ^ 64
  · by_cases hl : len * boot.bytesPerCluster < 2 ^ 64
    · have hr := readBlocks_traced (c * boot.bytesPerCluster / 512)
        (len * boot.bytesPerCluster) t
      simp only [readDataRuns, readClusters, Outcome.mulAt, Outcome.assert, hc, hl, if_true,
        Prog.bind_apply, Prog.lift_apply, Outcome.ok_bind, Outcome.pure_eq_ok, and_self]
      rw [← hr]
      rcases readBlocks (c * boot.bytesPerCluster / 512) (len * boot.bytesPerCluster) t with
        ⟨w | e | _, u⟩
      · rfl
      · rfl
      · rfl
    · simp only [readDataRuns, readClusters, Outcome.mulAt, Outcome.assert, hc, hl, if_true,
        if_false, Prog.bind_apply, Prog.lift_apply, Outcome.ok_bind, Outcome.panic_bind,
          Outcome.pure_eq_ok,
        and_false]
  · simp only [readDataRuns, readClusters, Outcome.mulAt, Outcome.assert, hc, if_false,
      Prog.bind_apply, Prog.lift_apply, Outcome.panic_bind, false_and]

/-- What the writer of external indexes found out from the record. -/
theorem locateExternal_eq_ok {boot : BootSector} {record : List UInt8} {off size : Nat}
    (h : locateExternal boot record = .ok (off, size)) :
    ∃ alloc start len runs, findAttributeOffset record 0xA0 = .ok alloc ∧
      parseDataRuns (record.drop alloc) = .ok ((start, len) :: runs) ∧
      start * boot.bytesPerCluster < 2 ^ 64 ∧ start * boot.bytesPerCluster = off := by
  simp only [locateExternal, Outcome.bind_eq_ok] at h
  obtain ⟨root, -, -, -, -, -, alloc, halloc, -, -, -, -, -, -, runs, hruns, h⟩ := h
  cases runs with
  | nil => cases h
  | cons run runs =>
    obtain ⟨start, len⟩ := run
    simp only [Outcome.bind_eq_ok] at h
    obtain ⟨-, -, -, -, -, -, off', hoff, hout⟩ := h
    cases hout
    obtain ⟨hlt, heq⟩ := Outcome.mulAt_eq_ok.mp hoff
    exact ⟨alloc, start, len, runs, halloc, hruns, hlt, heq⟩

/-- The writer of external indexes reads and writes at the byte offset of the first run, without
the partition offset. -/
theorem addToExternalIndex_log (driver : NtfsDriver) (record : List UInt8) (parent : NtfsFile)
    (child : Nat) (name : List Char) :
    Prog.Follows (LogsOnly fun a ↦ ∃ size, locateExternal driver.boot record = .ok (a.offset, size))
      (addToExternalIndex driver record parent child name : Prog (Traced D) NtfsError Unit) := by
  apply Prog.follows_lift_bind LogsOnly.refl
  rintro ⟨off, size⟩ hloc
  apply Prog.follows_bind LogsOnly.trans
  · exact follows_readBlocks ⟨size, hloc⟩
  · intro buf
    apply Prog.follows_lift_bind LogsOnly.refl
    intro buf' _
    exact follows_writeBlocks ⟨size, hloc⟩

/-- A record of the MFT is read at its own offset. -/
theorem readMftRecord_log (driver : NtfsDriver) (n : Nat) :
    Prog.Follows (LogsOnly fun a ↦ driver.recordOffset n = .ok a.offset)
      (readMftRecord driver n : Prog (Traced D) NtfsError (List UInt8)) := by
  apply Prog.follows_lift_bind LogsOnly.refl
  intro off hoff
  apply Prog.follows_bind LogsOnly.trans
  · exact follows_readBlocks hoff
  · intro buf
    exact Prog.follows_lift LogsOnly.refl _

end Logs

/-! ### One cluster, one address -/

/-- All code that touches the cluster hands the device the address of the cluster. -/
structure OneAddress (boot : BootSector) (c : Nat) : Prop where
  reader : ∀ (d : ByteStore) (len : Nat) (a : Access),
    a ∈ (readDataRuns boot [.nonResident [(c, len)]] (⟨d, []⟩ : Traced ByteStore)).2.log →
    boot.clusterToDiskOffset c = .ok a.offset
  index : ∀ (d : ByteStore) (driver : NtfsDriver) (record : List UInt8) (parent : NtfsFile)
    (child : Nat) (name : List Char) (alloc len : Nat) (runs : List (Nat × Nat)) (a : Access),
    driver.boot = boot → findAttributeOffset record 0xA0 = .ok alloc →
    parseDataRuns (record.drop alloc) = .ok ((c, len) :: runs) →
    a ∈ (addToExternalIndex driver record parent child name (⟨d, []⟩ : Traced ByteStore)).2.log →
    boot.clusterToDiskOffset c = .ok a.offset
  mft : ∀ (d : ByteStore) (driver : NtfsDriver) (a : Access), driver.boot = boot →
    boot.mftStartCluster.toNat = c →
    a ∈ (readMftRecord driver 0 (⟨d, []⟩ : Traced ByteStore)).2.log →
    boot.clusterToDiskOffset c = .ok a.offset

section Agreement

variable {boot : BootSector} {c : Nat}

theorem clusterToDiskOffset_eq_ok {off : Nat} : boot.clusterToDiskOffset c = .ok off ↔
    c * boot.bytesPerCluster < 2 ^ 64 ∧
      boot.partitionByteOffset.toNat + c * boot.bytesPerCluster < 2 ^ 64 ∧
      boot.partitionByteOffset.toNat + c * boot.bytesPerCluster = off := by
  rw [BootSector.clusterToDiskOffset, Outcome.bind_eq_ok]
  constructor
  · rintro ⟨x, hx, h⟩
    obtain ⟨hlt, rfl⟩ := Outcome.mulAt_eq_ok.mp hx
    exact ⟨hlt, Outcome.addAt_eq_ok.mp h⟩
  · rintro ⟨hlt, h⟩
    exact ⟨_, Outcome.mulAt_eq_ok.mpr ⟨hlt, rfl⟩, Outcome.addAt_eq_ok.mpr h⟩

/-- The MFT's own cluster is where the address of the cluster says, whenever it is read. -/
theorem mft_address (d : ByteStore) (driver : NtfsDriver) (a : Access) (hboot : driver.boot = boot)
    (hc : boot.mftStartCluster.toNat = c)
    (h : a ∈ (readMftRecord driver 0 (⟨d, []⟩ : Traced ByteStore)).2.log) :
    boot.clusterToDiskOffset c = .ok a.offset := by
  obtain h | h := readMftRecord_log driver 0 ⟨d, []⟩ a h
  · cases h
  subst hboot hc
  simp only [NtfsDriver.recordOffset, Outcome.bind_eq_ok, Outcome.mulAt_eq_ok, Nat.zero_mul] at h
  obtain ⟨off, hoff, _, ⟨-, rfl⟩, h⟩ := h
  obtain ⟨-, rfl⟩ := Outcome.addAt_eq_ok.mp h
  exact hoff

/-- The reader's one access, on a device that starts with an empty log. -/
theorem mem_readDataRuns_log {d : ByteStore} {len : Nat} {a : Access} :
    a ∈ (readDataRuns boot [.nonResident [(c, len)]] (⟨d, []⟩ : Traced ByteStore)).2.log ↔
      c * boot.bytesPerCluster < 2 ^ 64 ∧ len * boot.bytesPerCluster < 2 ^ 64 ∧
        a = .read (c * boot.bytesPerCluster / 512) (len * boot.bytesPerCluster) := by
  rw [readDataRuns_log]
  split
  · next h =>
    rw [List.nil_append, List.mem_singleton]
    exact ⟨fun ha ↦ ⟨h.1, h.2, ha⟩, fun ha ↦ ha.2.2⟩
  · next h =>
    constructor
    · nofun
    · rintro ⟨h₁, h₂, -⟩
      exact absurd ⟨h₁, h₂⟩ h

end Agreement

/-- The three agree exactly on clusters whose byte offset does not fit a word, which none of
them touches, and at the start of a volume that starts the disk. -/
theorem oneAddress_iff (boot : BootSector) (c : Nat) :
    OneAddress boot c ↔ 2 ^ 64 ≤ c * boot.bytesPerCluster ∨
      (boot.partitionByteOffset.toNat = 0 ∧ c * boot.bytesPerCluster = 0) := by
  constructor
  · intro h
    by_cases hc : c * boot.bytesPerCluster < 2 ^ 64
    · right
      have ha := h.reader (ByteStore.blank 512 0) 0 _
        (mem_readDataRuns_log.mpr ⟨hc, by omega, rfl⟩)
      obtain ⟨-, -, ha⟩ := clusterToDiskOffset_eq_ok.mp ha
      simp only [Access.offset] at ha
      omega
    · exact .inl (by omega)
  · intro h
    have hout : ∀ {P : Prop}, 2 ^ 64 ≤ c * boot.bytesPerCluster →
        c * boot.bytesPerCluster < 2 ^ 64 → P := fun h₁ h₂ ↦ absurd h₂ (by omega)
    refine ⟨?_, ?_, mft_address⟩
    · intro d len a ha
      obtain ⟨hc, -, rfl⟩ := mem_readDataRuns_log.mp ha
      obtain h | ⟨hp, hz⟩ := h
      · exact hout h hc
      · exact clusterToDiskOffset_eq_ok.mpr ⟨hc, by omega, by rw [hp, hz]; rfl⟩
    · intro d driver record parent child name alloc len runs a hboot halloc hruns ha
      obtain ha | ⟨size, ha⟩ := addToExternalIndex_log driver record parent child name _ a ha
      · cases ha
      obtain ⟨alloc', start, len', runs', halloc', hruns', hc, hoff⟩ := locateExternal_eq_ok ha
      rw [halloc] at halloc'
      cases halloc'
      rw [hruns] at hruns'
      cases hruns'
      subst hboot
      obtain h | ⟨hp, hz⟩ := h
      · exact hout h hc
      · exact clusterToDiskOffset_eq_ok.mpr ⟨hc, by omega, by omega⟩

/-- Cluster 4 of a volume of 1024-byte clusters at the start of the disk: the reader of data
runs asks for offset 8, the cluster's address is 4096. -/
theorem not_oneAddress_smallBoot : ¬OneAddress smallBoot 4 := by
  intro h
  have ha := h.reader (ByteStore.blank 512 0) 1 (.read 8 1024)
    (mem_readDataRuns_log.mpr ⟨by decide, by decide, rfl⟩)
  cases ha

end SmallOs.Ntfs
