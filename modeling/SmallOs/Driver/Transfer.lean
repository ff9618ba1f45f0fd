import SmallOs.Base.Memory
import SmallOs.Driver.Block

/-!
# Transfers of an AHCI port

`lib/driver/src/block/ahci/port.rs:195–231` and the trait over it. The port's command is a
parameter that works on the disk and on `data_buf`, the page that every transfer goes through;
a read or a write of any length issues one command for one sector.
-/

namespace SmallOs.Driver.Ahci

open SmallOs.Base SmallOs.Hal

/-- The arguments of `issue_command`. -/
structure Command where
  command : UInt8
  lba : Nat
  count : Nat
  isWrite : Bool
  deriving DecidableEq, Repr

/-- `ATA_CMD_READ_SECTORS` with the count that every read asks for. -/
def readCommand (lba : Nat) : Command := ⟨0x20, lba, 1, false⟩

/-- `ATA_CMD_WRITE_SECTORS` with the count that every write asks for. -/
def writeCommand (lba : Nat) : Command := ⟨0x30, lba, 1, true⟩

/-- The device behind a port, and the bytes of `data_buf`. -/
structure Port (D : Type) where
  device : D
  dataBuf : Memory

/-- `PortState::issue_command`. -/
abbrev IssueCommand (D : Type) := Command → Port D → Except BlockError Unit × Port D

section Calls

variable {D : Type} (issueCommand : IssueCommand D)

/-- `lib/driver/src/block/ahci/port.rs:195–214`. -/
def readSectors (lba : Nat) (buf : List UInt8) (p : Port D) :
    Except BlockError (List UInt8) × Port D :=
  if buf.length < sectorSize then (.error .invalidBuffer, p)
  else match issueCommand (readCommand lba) p with
    | (.ok (), p) => (.ok (copyFront p.dataBuf sectorSize buf), p)
    | (.error e, p) => (.error e, p)

/-- `lib/driver/src/block/ahci/port.rs:216–231`. -/
def writeSectors (lba : Nat) (buf : List UInt8) (p : Port D) : Except BlockError Unit × Port D :=
  if buf.length < sectorSize then (.error .invalidBuffer, p)
  else issueCommand (writeCommand lba)
    { p with dataBuf := p.dataBuf.store 0 (buf.take sectorSize) }

/-- `lib/driver/src/block/mod.rs:24–26`. -/
def readBlocks (lba : Nat) (buf : List UInt8) (p : Port D) :
    Except BlockError (List UInt8) × Port D :=
  let (r, p) := readSectors issueCommand lba buf p
  (r.mapError fun _ ↦ .readError, p)

/-- `lib/driver/src/block/mod.rs:27–29`. -/
def writeBlocks (lba : Nat) (buf : List UInt8) (p : Port D) : Except BlockError Unit × Port D :=
  let (r, p) := writeSectors issueCommand lba buf p
  (r.mapError fun _ ↦ .writeError, p)

end Calls

/-! ### The port of the block driver -/

/-- The command as a controller carries it out: what it puts into memory is `data_buf`. -/
def controllerCommand {H : Type} [Controller H] : IssueCommand H := fun c p ↦
  if Controller.ready p.device then
    match Controller.transfer p.device ⟨c.isWrite, fisSector c.lba, c.count * sectorSize⟩
      (if c.isWrite then p.dataBuf.load 0 (c.count * sectorSize) else []) with
    | ((true, memory), h) => (.ok (), ⟨h, if c.isWrite then p.dataBuf else memory⟩)
    | ((false, _), h) => (.error .deviceError, ⟨h, p.dataBuf⟩)
  else (.error .deviceBusy, p)

/-- `data_buf` holds the front of the buffer that was copied into it. -/
theorem load_laid (dataBuf : Memory) {buf : List UInt8} (h : sectorSize ≤ buf.length) :
    (dataBuf.store 0 (buf.take sectorSize)).load 0 sectorSize = buf.take sectorSize := by
  have hlen : (buf.take sectorSize).length = sectorSize := by
    rw [List.length_take, Nat.min_eq_left h]
  rw [Memory.load_store_take _ _ _ (Nat.le_of_eq hlen.symm), List.take_take, Nat.min_self]

/-- The driver over a controller is the driver over that command. -/
theorem readSectors_controllerCommand {H : Type} [Controller H] (lba : Nat) (buf : List UInt8)
    (p : Port H) : (readSectors controllerCommand lba buf p).1 =
      (PortState.readSectors ⟨p.device⟩ lba buf).1 := by
  rw [readSectors, PortState.readSectors, PortState.issueCommand]
  by_cases hlen : buf.length < sectorSize
  · rw [if_pos hlen, if_pos hlen]
  · rw [if_neg hlen, if_neg hlen, controllerCommand]
    by_cases hready : Controller.ready p.device = true
    · rw [if_pos hready, if_pos hready]
      rcases h : Controller.transfer p.device ⟨false, fisSector lba, sectorSize⟩ []
        with ⟨⟨_ | _, memory⟩, c⟩
      · simp only [readCommand, Nat.one_mul, Bool.false_eq_true, if_false, h]
      · simp only [readCommand, Nat.one_mul, Bool.false_eq_true, if_false, h]
    · rw [if_neg hready, if_neg hready]

/-- So it is for writes. -/
theorem writeSectors_controllerCommand {H : Type} [Controller H] (lba : Nat) (buf : List UInt8)
    (p : Port H) : (writeSectors controllerCommand lba buf p).1 =
      (PortState.writeSectors ⟨p.device⟩ lba buf).1 := by
  rw [writeSectors, PortState.writeSectors, PortState.issueCommand]
  by_cases hlen : buf.length < sectorSize
  · rw [if_pos hlen, if_pos hlen]
  · rw [if_neg hlen, if_neg hlen, controllerCommand]
    by_cases hready : Controller.ready p.device = true
    · have hfront := load_laid p.dataBuf (Nat.le_of_not_lt hlen)
      rw [if_pos hready, if_pos hready]
      rcases h : Controller.transfer p.device ⟨true, fisSector lba, sectorSize⟩
        (buf.take sectorSize) with ⟨⟨_ | _, memory⟩, c⟩
      · simp only [writeCommand, Nat.one_mul, if_true, hfront, h]
      · simp only [writeCommand, Nat.one_mul, if_true, hfront, h]
    · rw [if_neg hready, if_neg hready]

/-! ### What a transfer moves -/

/-- A command that succeeds has moved its sectors between the disk and `data_buf`. -/
structure Moves (issueCommand : IssueCommand Memory) : Prop where
  read : ∀ {c p p'}, c.isWrite = false → issueCommand c p = (.ok (), p') →
    p'.device = p.device ∧ p'.dataBuf.load 0 (c.count * sectorSize) =
      p.device.load (c.lba * sectorSize) (c.count * sectorSize)
  write : ∀ {c p p'}, c.isWrite = true → issueCommand c p = (.ok (), p') →
    p'.device = p.device.store (c.lba * sectorSize) (p.dataBuf.load 0 (c.count * sectorSize))

section Whole

variable (issueCommand : IssueCommand Memory) (lba : Nat) (buf : List UInt8) (p : Port Memory)

/-- A read that returns `Ok` has filled the buffer with the sectors from `lba` on. -/
def ReadsWhole : Prop := ∀ out p', readBlocks issueCommand lba buf p = (.ok out, p') →
  out = p.device.load (lba * sectorSize) buf.length

/-- A write that returns `Ok` has laid the buffer at `lba`, and changed nothing else. -/
def WritesWhole : Prop := ∀ p', writeBlocks issueCommand lba buf p = (.ok (), p') →
  p'.device = p.device.store (lba * sectorSize) buf

/-- What was written reads back, into whatever buffer of the same length. -/
def ReadsBack (buf' : List UInt8) : Prop :=
  ∀ p₁ out p₂, writeBlocks issueCommand lba buf p = (.ok (), p₁) →
    readBlocks issueCommand lba buf' p₁ = (.ok out, p₂) → out = buf

/-- The command does not succeed. -/
def Fails (c : Command) : Prop := ∃ e p', issueCommand c p = (.error e, p')

/-- The port with the front of the buffer in `data_buf`. -/
def laid : Port Memory := { p with dataBuf := p.dataBuf.store 0 (buf.take sectorSize) }

/-- The disk holds the buffer behind its first sector already. -/
def RestOnDisk : Prop :=
  p.device.load (lba * sectorSize + sectorSize) (buf.length - sectorSize) = buf.drop sectorSize

end Whole

variable {issueCommand : IssueCommand Memory} {lba : Nat} {buf : List UInt8} {p : Port Memory}

theorem readBlocks_eq_ok (hlen : sectorSize ≤ buf.length) {out : List UInt8} {p' : Port Memory} :
    readBlocks issueCommand lba buf p = (.ok out, p') ↔
      issueCommand (readCommand lba) p = (.ok (), p') ∧
        p'.dataBuf.load 0 sectorSize ++ buf.drop sectorSize = out := by
  rw [readBlocks, readSectors, if_neg (Nat.not_lt.mpr hlen)]
  rcases issueCommand (readCommand lba) p with ⟨e | ⟨⟩, q⟩
  · simp only [Except.mapError, Prod.mk.injEq, reduceCtorEq, false_and]
  · simp only [Except.mapError, Prod.mk.injEq, Except.ok.injEq, true_and]
    have hcopy : copyFront q.dataBuf sectorSize buf =
        q.dataBuf.load 0 sectorSize ++ buf.drop sectorSize := by
      simp only [copyFront, Memory.load, Nat.zero_add]
    rw [hcopy]
    constructor
    · rintro ⟨hout, rfl⟩
      exact ⟨rfl, hout⟩
    · rintro ⟨rfl, hout⟩
      exact ⟨hout, rfl⟩

theorem writeBlocks_eq_ok (hlen : sectorSize ≤ buf.length) {p' : Port Memory} :
    writeBlocks issueCommand lba buf p = (.ok (), p') ↔
      issueCommand (writeCommand lba) (laid buf p) = (.ok (), p') := by
  rw [writeBlocks, writeSectors, if_neg (Nat.not_lt.mpr hlen)]
  change _ ↔ issueCommand (writeCommand lba)
    { p with dataBuf := p.dataBuf.store 0 (buf.take sectorSize) } = _
  rcases issueCommand (writeCommand lba)
    { p with dataBuf := p.dataBuf.store 0 (buf.take sectorSize) } with ⟨e | ⟨⟩, q⟩
  · simp only [Except.mapError, Prod.mk.injEq, reduceCtorEq, false_and]
  · simp only [Except.mapError]

/-- A command succeeds or fails. -/
theorem fails_or (c : Command) (p : Port Memory) :
    Fails issueCommand p c ∨ ∃ p', issueCommand c p = (.ok (), p') := by
  rcases h : issueCommand c p with ⟨e | ⟨⟩, q⟩
  · exact Or.inl ⟨e, q, h⟩
  · exact Or.inr ⟨q, rfl⟩

/-- A read that succeeds leaves the buffer behind its first sector as it was. -/
theorem Moves.readBlocks (hm : Moves issueCommand) (hlen : sectorSize ≤ buf.length)
    {out : List UInt8} {p' : Port Memory}
    (h : readBlocks issueCommand lba buf p = (.ok out, p')) :
    p'.device = p.device ∧
      out = p.device.load (lba * sectorSize) sectorSize ++ buf.drop sectorSize := by
  obtain ⟨hissue, rfl⟩ := (readBlocks_eq_ok hlen).mp h
  obtain ⟨hdevice, hdata⟩ := hm.read rfl hissue
  rw [readCommand, Nat.one_mul] at hdata
  exact ⟨hdevice, by rw [hdata]⟩

/-- A write that succeeds has moved the first sector of the buffer. -/
theorem Moves.writeBlocks (hm : Moves issueCommand) (hlen : sectorSize ≤ buf.length)
    {p' : Port Memory} (h : writeBlocks issueCommand lba buf p = (.ok (), p')) :
    p'.device = p.device.store (lba * sectorSize) (buf.take sectorSize) := by
  have hdevice := hm.write rfl ((writeBlocks_eq_ok hlen).mp h)
  rw [writeCommand, Nat.one_mul, laid, load_laid _ hlen] at hdevice
  exact hdevice

/-- The whole buffer is at its place exactly when the first sector of it is and the rest. -/
theorem load_eq_iff (hlen : sectorSize ≤ buf.length) :
    p.device.load (lba * sectorSize) sectorSize ++ buf.drop sectorSize =
      p.device.load (lba * sectorSize) buf.length ↔ RestOnDisk lba buf p := by
  have hsplit : buf.length = sectorSize + (buf.length - sectorSize) := by omega
  rw [hsplit, Memory.load_add, List.append_cancel_left_eq, RestOnDisk]
  exact eq_comm

/-- Storing the first sector is storing the buffer exactly when the rest is there already. -/
theorem store_eq_iff (hlen : sectorSize ≤ buf.length) :
    p.device.store (lba * sectorSize) (buf.take sectorSize) =
      p.device.store (lba * sectorSize) buf ↔ RestOnDisk lba buf p := by
  have htake : (buf.take sectorSize).length = sectorSize := by
    rw [List.length_take, Nat.min_eq_left hlen]
  have hstore : p.device.store (lba * sectorSize) buf =
      (p.device.store (lba * sectorSize) (buf.take sectorSize)).store
        (lba * sectorSize + sectorSize) (buf.drop sectorSize) := by
    conv => lhs; rw [← List.take_append_drop sectorSize buf]
    rw [Memory.store_append, htake]
  have hbehind : lba * sectorSize + (buf.take sectorSize).length ≤ lba * sectorSize + sectorSize :=
    Nat.add_le_add_left (Nat.le_of_eq htake) _
  rw [hstore, eq_comm, Memory.store_eq_self, Memory.load_store_disjoint _ (Or.inr hbehind),
    List.length_drop, RestOnDisk]

/-- What is read back is the first sector that was written, before the rest of the buffer. -/
theorem readBack (hm : Moves issueCommand) {buf' : List UInt8} (hlen : sectorSize ≤ buf.length)
    (hlen' : sectorSize ≤ buf'.length) {p₁ p₂ : Port Memory} {out : List UInt8}
    (h₁ : writeBlocks issueCommand lba buf p = (.ok (), p₁))
    (h₂ : Ahci.readBlocks issueCommand lba buf' p₁ = (.ok out, p₂)) :
    out = buf.take sectorSize ++ buf'.drop sectorSize := by
  have htake : (buf.take sectorSize).length = sectorSize := by
    rw [List.length_take, Nat.min_eq_left hlen]
  have hback := Memory.load_store_same p.device (lba * sectorSize) (buf.take sectorSize)
  rw [htake] at hback
  rw [(hm.readBlocks hlen' h₂).2, hm.writeBlocks hlen h₁, hback]

theorem readBack_eq_iff {buf' : List UInt8} :
    buf.take sectorSize ++ buf'.drop sectorSize = buf ↔
      buf'.drop sectorSize = buf.drop sectorSize := by
  conv => lhs; rhs; rw [← List.take_append_drop sectorSize buf]
  rw [List.append_cancel_left_eq]

/-- A buffer of whole sectors has one. -/
theorem sector_le (hpos : 0 < buf.length) (hwhole : sectorSize ∣ buf.length) :
    sectorSize ≤ buf.length := Nat.le_of_dvd hpos hwhole

/-- A transfer moves its first sector. So a read fills the buffer, and a write lays it down, when
the command fails or the rest is on the disk already; and what was written reads back when a
command fails or the rest is in the buffer already. -/
theorem transfers_iff (hm : Moves issueCommand) (hpos : 0 < buf.length)
    (hwhole : sectorSize ∣ buf.length) {buf' : List UInt8} (hbuf : buf'.length = buf.length) :
    (ReadsWhole issueCommand lba buf p ↔
      Fails issueCommand p (readCommand lba) ∨ RestOnDisk lba buf p) ∧
    (WritesWhole issueCommand lba buf p ↔
      Fails issueCommand (laid buf p) (writeCommand lba) ∨ RestOnDisk lba buf p) ∧
    (ReadsBack issueCommand lba buf p buf' ↔
      (Fails issueCommand (laid buf p) (writeCommand lba) ∨
        ∃ p₁, issueCommand (writeCommand lba) (laid buf p) = (.ok (), p₁) ∧
          Fails issueCommand p₁ (readCommand lba)) ∨
      buf'.drop sectorSize = buf.drop sectorSize) := by
  have hlen := sector_le hpos hwhole
  have hlen' : sectorSize ≤ buf'.length := hbuf ▸ hlen
  refine ⟨⟨?_, ?_⟩, ⟨?_, ?_⟩, ⟨?_, ?_⟩⟩
  · intro hreads
    apply (fails_or (readCommand lba) p).imp_right
    rintro ⟨q, hq⟩
    have hread := (readBlocks_eq_ok hlen).mpr ⟨hq, rfl⟩
    have hout := (hm.readBlocks hlen hread).2
    exact (load_eq_iff hlen).mp (hout.symm.trans (hreads _ _ hread))
  · rintro (⟨e, q, hq⟩ | hrest)
    · intro out p' h
      rw [((readBlocks_eq_ok hlen).mp h).1] at hq
      cases hq
    · intro out p' h
      exact (hm.readBlocks hlen h).2.trans ((load_eq_iff hlen).mpr hrest)
  · intro hwrites
    apply (fails_or (writeCommand lba) (laid buf p)).imp_right
    rintro ⟨q, hq⟩
    have hwrite := (writeBlocks_eq_ok hlen).mpr hq
    exact (store_eq_iff hlen).mp ((hm.writeBlocks hlen hwrite).symm.trans (hwrites _ hwrite))
  · rintro (⟨e, q, hq⟩ | hrest)
    · intro p' h
      rw [(writeBlocks_eq_ok hlen).mp h] at hq
      cases hq
    · intro p' h
      exact (hm.writeBlocks hlen h).trans ((store_eq_iff hlen).mpr hrest)
  · intro hback
    rcases fails_or (writeCommand lba) (laid buf p) with hfails | ⟨p₁, h₁⟩
    · exact Or.inl (Or.inl hfails)
    · rcases fails_or (readCommand lba) p₁ with hfails | ⟨p₂, h₂⟩
      · exact Or.inl (Or.inr ⟨p₁, h₁, hfails⟩)
      · have hwrite := (writeBlocks_eq_ok hlen).mpr h₁
        have hread := (readBlocks_eq_ok hlen').mpr ⟨h₂, rfl⟩
        have hout := (readBack hm hlen hlen' hwrite hread).symm.trans (hback _ _ _ hwrite hread)
        exact Or.inr (readBack_eq_iff.mp hout)
  · rintro ((⟨e, q, hq⟩ | ⟨q, hq, e, r, hr⟩) | hrest)
    · intro p₁ out p₂ h₁ _
      rw [(writeBlocks_eq_ok hlen).mp h₁] at hq
      cases hq
    · intro p₁ out p₂ h₁ h₂
      rw [(writeBlocks_eq_ok hlen).mp h₁] at hq
      obtain rfl := (Prod.mk.inj hq).2
      rw [((readBlocks_eq_ok hlen').mp h₂).1] at hr
      cases hr
    · intro p₁ out p₂ h₁ h₂
      exact (readBack hm hlen hlen' h₁ h₂).trans (readBack_eq_iff.mpr hrest)

/-- A command that moves every sector it is asked for. -/
def copyCommand : IssueCommand Memory := fun c p ↦
  (.ok (), if c.isWrite then
    { p with device :=
        p.device.store (c.lba * sectorSize) (p.dataBuf.load 0 (c.count * sectorSize)) }
  else
    { p with dataBuf :=
        p.dataBuf.store 0 (p.device.load (c.lba * sectorSize) (c.count * sectorSize)) })

theorem moves_copyCommand : Moves copyCommand := by
  constructor
  · intro c p p' hw h
    rw [copyCommand, hw] at h
    obtain rfl := (Prod.mk.inj h).2
    refine ⟨rfl, ?_⟩
    have hload := Memory.load_store_same p.dataBuf 0
      (p.device.load (c.lba * sectorSize) (c.count * sectorSize))
    rw [Memory.length_load] at hload
    exact hload
  · intro c p p' hw h
    rw [copyCommand, hw] at h
    obtain rfl := (Prod.mk.inj h).2
    rfl

/-- A disk of ones behind a page of zeros. -/
def onesPort : Port Memory := ⟨fun _ ↦ 1, fun _ ↦ 0⟩

/-- One sector of it is read whole. -/
theorem transfers_iff_oneSector :
    ReadsWhole copyCommand 0 (List.replicate 512 0) onesPort ∧
      WritesWhole copyCommand 0 (List.replicate 512 0) onesPort := by
  have hlen : (List.replicate 512 (0 : UInt8)).length = 512 := List.length_replicate
  have hpos : 0 < (List.replicate 512 (0 : UInt8)).length := by
    rw [hlen]
    decide
  have hwhole : sectorSize ∣ (List.replicate 512 (0 : UInt8)).length := by
    rw [hlen]
    exact Nat.dvd_refl _
  have hrest : RestOnDisk 0 (List.replicate 512 0) onesPort := by
    rw [RestOnDisk, hlen, List.drop_replicate]
    rfl
  obtain ⟨hread, hwrite, -⟩ := transfers_iff moves_copyCommand hpos hwhole rfl
  exact ⟨hread.mpr (Or.inr hrest), hwrite.mpr (Or.inr hrest)⟩

/-- The second of two sectors is not read. -/
theorem not_readsWhole_twoSectors : Moves copyCommand ∧
    ¬ ReadsWhole copyCommand 0 (List.replicate 1024 0) onesPort := by
  refine ⟨moves_copyCommand, ?_⟩
  intro hreads
  have hlen : sectorSize ≤ (List.replicate 1024 (0 : UInt8)).length := by
    rw [List.length_replicate]
    decide
  obtain ⟨q, hq⟩ : ∃ q, copyCommand (readCommand 0) onesPort = (.ok (), q) := ⟨_, rfl⟩
  have hread := (readBlocks_eq_ok hlen).mpr ⟨hq, rfl⟩
  have hout := (moves_copyCommand.readBlocks hlen hread).2
  have hrest : RestOnDisk 0 (List.replicate 1024 0) onesPort :=
    (load_eq_iff hlen).mp (hout.symm.trans (hreads _ _ hread))
  rw [RestOnDisk, List.length_replicate, List.drop_replicate] at hrest
  have hbyte := congrArg (fun l ↦ l[0]?) hrest
  rw [Memory.getElem?_load, List.getElem?_replicate] at hbyte
  revert hbyte
  decide

end SmallOs.Driver.Ahci
