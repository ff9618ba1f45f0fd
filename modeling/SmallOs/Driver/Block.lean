import SmallOs.Hal.Block

/-!
# Block drivers

`lib/driver/src/block`: the virtio driver and the AHCI port turn a call of the trait into a
request to their controller, with the call's first argument as the sector number. The
controller is a parameter; what it puts into memory and whether it reports an error is its own
choice.
-/

namespace SmallOs.Driver

open SmallOs.Base SmallOs.Hal

/-- `SECTOR_SIZE` of both drivers. -/
def sectorSize : Nat := 512

/-- A request as the controller receives it: the number of its first sector and the length of
its data buffer. -/
structure Request where
  isWrite : Bool
  sector : Nat
  bytes : Nat
  deriving DecidableEq, Repr

/-- A controller with its disk. A transfer gets the bytes that the driver laid into the data
buffer; it reports success and leaves a buffer behind. -/
class Controller (H : Type) where
  ready : H → Bool
  transfer : H → Request → List UInt8 → (Bool × (Nat → UInt8)) × H

/-- `ptr::copy_nonoverlapping` of `n` bytes of memory to the front of a buffer. -/
def copyFront (memory : Nat → UInt8) (n : Nat) (buf : List UInt8) : List UInt8 :=
  (List.range n).map memory ++ buf.drop n

/-- The fields of the virtio driver that its calls use;
`lib/driver/src/block/virtio/mod.rs:62–72`. -/
structure VirtioBlkState (H : Type) where
  controller : H
  sectorCount : UInt64

/-- `lib/driver/src/block/ahci/port.rs:14–20`. -/
structure PortState (H : Type) where
  controller : H

/-- `lib/driver/src/block/mod.rs:17–21`. -/
structure AhciPortWrapper (H : Type) where
  portIdx : UInt8
  state : PortState H
  sectorCount : UInt64

/-- `lib/driver/src/block/mod.rs:12–15`. -/
inductive BlockDeviceEnum (H : Type) where
  | virtio (state : VirtioBlkState H)
  | ahci (wrapper : AhciPortWrapper H)

section Calls

variable {H : Type} [Controller H]

/-- Length of the data descriptor: whole sectors, as a `u32`. -/
def virtioBytes (len : Nat) : Nat := (len + 511) / 512 * 512 % 2 ^ 32

namespace VirtioBlkState

/-- `lib/driver/src/block/virtio/mod.rs:280–316`; the status byte is not looked at. -/
def readSectors (v : VirtioBlkState H) (lba : Nat) (buf : List UInt8) :
    Except BlockError (List UInt8) × VirtioBlkState H :=
  let sectors := (buf.length + 511) / 512
  let ((_, memory), h) := Controller.transfer v.controller ⟨false, lba, virtioBytes buf.length⟩ []
  (.ok (copyFront memory (min buf.length (sectors * 512)) buf), { v with controller := h })

/-- `lib/driver/src/block/virtio/mod.rs:319–351`. -/
def writeSectors (v : VirtioBlkState H) (lba : Nat) (buf : List UInt8) :
    Except BlockError Unit × VirtioBlkState H :=
  let (_, h) := Controller.transfer v.controller ⟨true, lba, virtioBytes buf.length⟩ buf
  (.ok (), { v with controller := h })

end VirtioBlkState

/-- The sector number in the six address bytes of a FIS;
`lib/driver/src/block/ahci/port.rs:157–162`. -/
def fisSector (lba : Nat) : Nat := leNat (leBytes 6 lba)

namespace PortState

/-- `lib/driver/src/block/ahci/port.rs:122–193`: one sector. A port that stays busy gets no
command; a timeout and an error bit are failures. -/
def issueCommand (p : PortState H) (lba : Nat) (isWrite : Bool) (data : List UInt8) :
    Except BlockError (Nat → UInt8) × PortState H :=
  if Controller.ready p.controller then
    match Controller.transfer p.controller ⟨isWrite, fisSector lba, sectorSize⟩ data with
    | ((true, memory), h) => (.ok memory, ⟨h⟩)
    | ((false, _), h) => (.error .deviceError, ⟨h⟩)
  else (.error .deviceBusy, p)

/-- `lib/driver/src/block/ahci/port.rs:195–214`. -/
def readSectors (p : PortState H) (lba : Nat) (buf : List UInt8) :
    Except BlockError (List UInt8) × PortState H :=
  if buf.length < sectorSize then (.error .invalidBuffer, p)
  else match p.issueCommand lba false [] with
    | (.ok memory, p) => (.ok (copyFront memory sectorSize buf), p)
    | (.error e, p) => (.error e, p)

/-- `lib/driver/src/block/ahci/port.rs:216–231`. -/
def writeSectors (p : PortState H) (lba : Nat) (buf : List UInt8) :
    Except BlockError Unit × PortState H :=
  if buf.length < sectorSize then (.error .invalidBuffer, p)
  else match p.issueCommand lba true (buf.take sectorSize) with
    | (.ok _, p) => (.ok (), p)
    | (.error e, p) => (.error e, p)

end PortState

/-- `lib/driver/src/block/mod.rs:44–70`. -/
instance : BlockDevice (BlockDeviceEnum H) where
  readBlocks
    | .virtio v, lba, buf =>
      let (r, v) := v.readSectors lba buf
      (r, .virtio v)
    | .ahci a, lba, buf =>
      let (r, state) := a.state.readSectors lba buf
      (r.mapError fun _ ↦ .readError, .ahci { a with state })
  writeBlocks
    | .virtio v, lba, buf =>
      let (r, v) := v.writeSectors lba buf
      (r, .virtio v)
    | .ahci a, lba, buf =>
      let (r, state) := a.state.writeSectors lba buf
      (r.mapError fun _ ↦ .writeError, .ahci { a with state })
  blockSize _ := 512
  blockCount
    | .virtio v => v.sectorCount
    | .ahci a => a.sectorCount

end Calls

/-! ### Requests -/

/-- A controller with the requests made so far, oldest first. -/
structure Issued (H : Type) where
  controller : H
  requests : List Request

instance {H : Type} [Controller H] : Controller (Issued H) where
  ready h := Controller.ready h.controller
  transfer h req data :=
    let (r, c) := Controller.transfer h.controller req data
    (r, ⟨c, h.requests ++ [req]⟩)

namespace BlockDeviceEnum

variable {H : Type} [Controller H]

/-- The requests that left the driver. -/
def issued : BlockDeviceEnum (Issued H) → List Request
  | virtio v => v.controller.requests
  | ahci a => a.state.controller.requests

/-- A call with a buffer of this length becomes a request: virtio refuses none, an AHCI port
wants a whole sector and must not be busy. -/
def accepts : BlockDeviceEnum H → Nat → Bool
  | virtio _, _ => true
  | ahci a, len => sectorSize ≤ len && Controller.ready a.state.controller

/-- The sector number that a first argument becomes. -/
def sectorOf : BlockDeviceEnum H → Nat → Nat
  | virtio _, lba => lba
  | ahci _, lba => fisSector lba

/-- Length of the data buffer in a request. -/
def bytesOf : BlockDeviceEnum H → Nat → Nat
  | virtio _, len => virtioBytes len
  | ahci _, _ => sectorSize

/-- The request that a call becomes, if any. -/
def requestsFor (d : BlockDeviceEnum H) (isWrite : Bool) (lba len : Nat) : List Request :=
  if d.accepts len then [⟨isWrite, d.sectorOf lba, d.bytesOf len⟩] else []

private theorem requests_issueCommand (p : PortState (Issued H)) (lba : Nat) (isWrite : Bool)
    (data : List UInt8) : (p.issueCommand lba isWrite data).2.controller.requests =
      p.controller.requests ++ if Controller.ready p.controller then
        [⟨isWrite, fisSector lba, sectorSize⟩] else [] := by
  unfold PortState.issueCommand
  by_cases hready : Controller.ready p.controller = true
  · rw [if_pos hready, if_pos hready]
    simp only [Controller.transfer]
    rcases Controller.transfer p.controller.controller ⟨isWrite, fisSector lba, sectorSize⟩ data
      with ⟨⟨_ | _, memory⟩, c⟩
    · rfl
    · rfl
  · rw [if_neg hready, if_neg hready, List.append_nil]

private theorem accepts_ahci_of_le {a : AhciPortWrapper H} {len : Nat} (h : ¬len < sectorSize) :
    (ahci a).accepts len = Controller.ready a.state.controller := by
  rw [accepts, decide_eq_true (Nat.le_of_not_lt h), Bool.true_and]

private theorem accepts_ahci_of_lt {a : AhciPortWrapper H} {len : Nat} (h : len < sectorSize) :
    (ahci a).accepts len = false := by
  rw [accepts, decide_eq_false (Nat.not_le.mpr h), Bool.false_and]

/-- A read sends the controller its request and nothing else. -/
theorem issued_readBlocks (d : BlockDeviceEnum (Issued H)) (lba : Nat) (buf : List UInt8) :
    (BlockDevice.readBlocks d lba buf).2.issued =
      d.issued ++ d.requestsFor false lba buf.length := by
  cases d with
  | virtio v => rfl
  | ahci a =>
    have hreq := requests_issueCommand a.state lba false []
    simp only [BlockDevice.readBlocks, PortState.readSectors, requestsFor]
    by_cases hlen : buf.length < sectorSize
    · simp only [hlen, accepts_ahci_of_lt, if_true, Bool.false_eq_true, if_false, List.append_nil]
    · rw [if_neg hlen, accepts_ahci_of_le hlen]
      rcases h : a.state.issueCommand lba false [] with ⟨e | memory, p⟩
      · rw [h] at hreq
        exact hreq
      · rw [h] at hreq
        exact hreq

/-- So does a write. -/
theorem issued_writeBlocks (d : BlockDeviceEnum (Issued H)) (lba : Nat) (buf : List UInt8) :
    (BlockDevice.writeBlocks d lba buf).2.issued =
      d.issued ++ d.requestsFor true lba buf.length := by
  cases d with
  | virtio v => rfl
  | ahci a =>
    have hreq := requests_issueCommand a.state lba true (buf.take sectorSize)
    simp only [BlockDevice.writeBlocks, PortState.writeSectors, requestsFor]
    by_cases hlen : buf.length < sectorSize
    · simp only [hlen, accepts_ahci_of_lt, if_true, Bool.false_eq_true, if_false, List.append_nil]
    · rw [if_neg hlen, accepts_ahci_of_le hlen]
      rcases h : a.state.issueCommand lba true (buf.take sectorSize) with ⟨e | memory, p⟩
      · rw [h] at hreq
        exact hreq
      · rw [h] at hreq
        exact hreq

/-- A read that is not accepted fails and leaves the device alone. -/
theorem readBlocks_refused {d : BlockDeviceEnum H} {lba : Nat} {buf : List UInt8}
    (h : d.accepts buf.length = false) :
    BlockDevice.readBlocks d lba buf = (.error .readError, d) := by
  cases d with
  | virtio v => cases h
  | ahci a =>
    simp only [BlockDevice.readBlocks, PortState.readSectors, PortState.issueCommand]
    by_cases hlen : buf.length < sectorSize
    · rw [if_pos hlen]
      rfl
    · rw [accepts_ahci_of_le hlen] at h
      rw [if_neg hlen, h]
      rfl

/-- So does a write. -/
theorem writeBlocks_refused {d : BlockDeviceEnum H} {lba : Nat} {buf : List UInt8}
    (h : d.accepts buf.length = false) :
    BlockDevice.writeBlocks d lba buf = (.error .writeError, d) := by
  cases d with
  | virtio v => cases h
  | ahci a =>
    simp only [BlockDevice.writeBlocks, PortState.writeSectors, PortState.issueCommand]
    by_cases hlen : buf.length < sectorSize
    · rw [if_pos hlen]
      rfl
    · rw [accepts_ahci_of_le hlen] at h
      rw [if_neg hlen, h]
      rfl

end BlockDeviceEnum

/-- The address field of a FIS has 48 bits. -/
theorem fisSector_eq (lba : Nat) : fisSector lba = lba % 2 ^ 48 := leNat_leBytes 6 lba

end SmallOs.Driver
