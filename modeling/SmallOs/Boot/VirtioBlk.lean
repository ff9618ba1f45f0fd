import SmallOs.Base.Run
import SmallOs.Base.Stores

/-!
# The boot loader's virtio driver

`bootloader/stage3/src/virtio_blk.c`: one static buffer holds the rings, the header of a request
and the status byte. The status byte is placed on byte 8 of the header, where the sector number
starts, and it is written behind the header.
-/

namespace SmallOs.Boot.VirtioBlk

open SmallOs.Base

/-! ### Initialisation -/

/-- The device behind the registers; an access at an offset may change it. -/
class Mmio (D : Type) where
  read : Nat → D → UInt32 × D
  write : Nat → UInt32 → D → D

/-- The globals of the driver. The offsets of its pointers into `queue_mem` never change once
they are set; `base` is the address of `queue_mem`. -/
structure Blk (D : Type) where
  mmio : D
  base : UInt64
  queueMem : Memory
  initialized : Bool
  lastUsedIdx : Nat

variable {D : Type} [Mmio D]

/-- `QUEUE_SIZE`. -/
def queueSize : Nat := 256

def readReg (off : Nat) : StateM D UInt32 := fun d ↦ Mmio.read off d

def writeReg (off : Nat) (v : UInt32) : StateM D Unit := fun d ↦ ((), Mmio.write off v d)

/-- The registers up to the size of the queue; `bootloader/stage3/src/virtio_blk.c:27–52`. -/
def negotiate : StateM D Bool := do
  if (← readReg 0x000) ≠ 0x74726976 then return false
  if (← readReg 0x004) ≠ 2 then return false
  if (← readReg 0x008) ≠ 2 then return false
  writeReg 0x070 0
  writeReg 0x070 (0x01 ||| 0x02)
  let features ← readReg 0x010
  writeReg 0x020 features
  writeReg 0x070 ((← readReg 0x070) ||| 0x08)
  if (← readReg 0x070) &&& 0x08 = 0 then return false
  writeReg 0x030 0
  if (← readReg 0x034).toNat < queueSize then return false
  writeReg 0x038 (UInt32.ofNat queueSize)
  return true

/-- `bootloader/stage3/src/virtio_blk.c:67–72`. -/
def enable (base : UInt64) : StateM D Unit := do
  writeReg 0x040 (base >>> 12).toUInt32
  writeReg 0x044 1
  writeReg 0x070 ((← readReg 0x070) ||| 0x04)

/-- `bootloader/stage3/src/virtio_blk.c:23–76`. -/
def virtioBlkInit (b : Blk D) : Bool × Blk D :=
  let (ok, mmio) := negotiate b.mmio
  if ok then
    (true, { b with
      mmio := (enable b.base mmio).2
      queueMem := b.queueMem.store 0 (List.replicate 16384 0)
      initialized := true })
  else (false, { b with mmio := mmio })

/-! ### A request -/

/-- `desc`, `avail`, `used`, `req` and `status_byte`, as offsets into `queue_mem`;
`bootloader/stage3/src/virtio_blk.c:57–65`. -/
def desc : Nat := 0

def avail : Nat := 0x1000

def used : Nat := 0x2000

def req : Nat := 0x3000

def statusByte : Nat := 0x3008

/-- A store to a field of `n` bytes. -/
def setField (off n v : Nat) (m : Memory) : Memory := m.store off (leBytes n v)

/-- `avail->idx` and `used->idx`. -/
def availIdx (m : Memory) : Nat := leNat (m.load (avail + 2) 2)

def usedIdx (m : Memory) : Nat := leNat (m.load (used + 2) 2)

/-- `avail->ring[i]`. -/
def availRing (m : Memory) (i : Nat) : Nat := leNat (m.load (avail + 4 + 2 * i) 2)

/-- The header of a request, `virtio_blk_req_t`; `bootloader/stage3/src/virtio_blk.h:41–46`. -/
def header (sector : UInt64) : List UInt8 := leBytes 4 0 ++ (leBytes 4 0 ++ leBytes 8 sector.toNat)

/-- `bootloader/stage3/src/virtio_blk.c:84–88`. -/
def fillReq (sector : UInt64) (m : Memory) : Memory :=
  let m := setField req 4 0 m
  let m := setField (req + 4) 4 0 m
  let m := setField (req + 8) 8 sector.toNat m
  setField statusByte 1 0xFF m

/-- The fields of descriptor `i`, but for `next`. -/
def setDesc (i addr len flags : Nat) (m : Memory) : Memory :=
  let m := setField (desc + 16 * i) 8 addr m
  let m := setField (desc + 16 * i + 8) 4 len m
  setField (desc + 16 * i + 12) 2 flags m

/-- The `next` of descriptor `i`. -/
def setNext (i next : Nat) (m : Memory) : Memory := setField (desc + 16 * i + 14) 2 next m

/-- The chain; `bootloader/stage3/src/virtio_blk.c:91–106`. -/
def fillDesc (base buffer : UInt64) (m : Memory) : Memory :=
  let m := setNext 0 1 (setDesc 0 (base.toNat + req) 16 1 m)
  let m := setNext 1 2 (setDesc 1 buffer.toNat 512 (2 ||| 1) m)
  setDesc 2 (base.toNat + statusByte) 1 2 m

/-- `bootloader/stage3/src/virtio_blk.c:109–112`. -/
def publish (m : Memory) : Memory :=
  let idx := availIdx m % queueSize
  let m := setField (avail + 4 + 2 * idx) 2 0 m
  setField (avail + 2) 2 (availIdx m + 1) m

/-- The stores of a request up to its notification; `bootloader/stage3/src/virtio_blk.c:84–112`. -/
def submit (base sector buffer : UInt64) (m : Memory) : Memory :=
  publish (fillDesc base buffer (fillReq sector m))

/-! ### Calls and the device -/

/-- The driver, and whether it is in the wait loop of a call. -/
structure State (D : Type) where
  blk : Blk D
  waiting : Bool

/-- A call up to its notification, the device, and the return of a call. -/
inductive Event (D : Type) where
  | read (sector buffer : UInt64)
  | device (mmio : D) (stores : List (Nat × UInt8))
  | ret

/-- The device stores to the page of the used ring and to the status byte. -/
def DeviceStores (p : Nat) : Prop := used ≤ p ∧ p < req ∨ p = statusByte

instance (p : Nat) : Decidable (DeviceStores p) := inferInstanceAs (Decidable (_ ∨ _))

/-- One step, with the value that a call returns; `bootloader/stage3/src/virtio_blk.c:80–123`. -/
def State.step (s : State D) : Event D → Option (Option Nat × State D)
  | .read sector buffer =>
    if s.waiting then none
    else if s.blk.initialized then
      some (none, {
        blk := { s.blk with
          queueMem := submit s.blk.base sector buffer s.blk.queueMem
          mmio := Mmio.write 0x050 0 s.blk.mmio }
        waiting := true })
    else some (some 0, s)
  | .device mmio stores =>
    if ∀ x ∈ stores, DeviceStores x.1 then
      some (none, { s with blk := { s.blk with
        mmio := mmio
        queueMem := s.blk.queueMem.storeAll stores } })
    else none
  | .ret =>
    if s.waiting ∧ usedIdx s.blk.queueMem ≠ s.blk.lastUsedIdx then
      some (some (if s.blk.queueMem statusByte = 0 then 1 else 0), {
        blk := { s.blk with lastUsedIdx := usedIdx s.blk.queueMem }
        waiting := false })
    else none

/-- A step of a run. -/
def Turn (x : Call (State D) (Event D) (Option Nat)) : Prop :=
  x.before.step x.input = some (x.output, x.after)

/-! ### What a request leaves in memory -/

section Submit

variable (base sector buffer : UInt64) (m : Memory)

theorem setField_outside {off n v p : Nat} (h : p < off ∨ off + n ≤ p) :
    setField off n v m p = m p :=
  m.store_outside (by rwa [length_leBytes])

theorem load_setField (off n v : Nat) : (setField off n v m).load off n = leBytes n v := by
  have hload := m.load_store_same off (leBytes n v)
  rwa [length_leBytes] at hload

theorem load_setField_apart {off n v off' len : Nat} (h : off' + len ≤ off ∨ off + n ≤ off') :
    (setField off n v m).load off' len = m.load off' len :=
  m.load_store_disjoint (by rwa [length_leBytes])

/-- The low byte of a field is stored at its address, the other ones behind it. -/
theorem setField_succ (off n v : Nat) :
    setField off (n + 1) v m =
      setField (off + 1) n (v / 256) (m.store off [UInt8.ofNat (v % 256)]) :=
  m.store_append off [UInt8.ofNat (v % 256)] (leBytes n (v / 256))

/-- The chain stays in the three descriptors. -/
theorem fillDesc_outside {p : Nat} (h : 48 ≤ p) : fillDesc base buffer m p = m p := by
  simp only [fillDesc, setNext, setDesc, desc]
  repeat rw [setField_outside _ (.inr (by omega))]

/-- The publication stays in the ring. -/
theorem publish_outside {p : Nat} (h : p < avail ∨ avail + 516 ≤ p) : publish m p = m p := by
  have hslot : availIdx m % queueSize < 256 := Nat.mod_lt _ (by decide)
  rw [publish, setField_outside _ (by omega), setField_outside _ (by omega)]

/-- The header keeps its sector number but for the low byte, which is the status byte. -/
theorem load_fillReq : (fillReq sector m).load req 16 =
    leBytes 4 0 ++ (leBytes 4 0 ++ leBytes 8 (sector.toNat / 256 * 256 + 255)) := by
  have hsector : (fillReq sector m).load (req + 8) 8 =
      leBytes 8 (sector.toNat / 256 * 256 + 255) := by
    have hlow : (fillReq sector m).load (req + 8) 1 = leBytes 1 0xFF := load_setField _ _ _ _
    have hhigh : (fillReq sector m).load (req + 8 + 1) 7 = leBytes 7 (sector.toNat / 256) := by
      change (setField statusByte 1 0xFF _).load (statusByte + 1) 7 = _
      rw [load_setField_apart _ (.inr (Nat.le_refl _)), setField_succ]
      exact load_setField _ _ _ _
    have hmod : (sector.toNat / 256 * 256 + 255) % 256 = 255 := by omega
    have hdiv : (sector.toNat / 256 * 256 + 255) / 256 = sector.toNat / 256 := by omega
    rw [Memory.load_add _ _ 1 7, hlow, hhigh]
    change _ = UInt8.ofNat ((sector.toNat / 256 * 256 + 255) % 256) ::
      leBytes 7 ((sector.toNat / 256 * 256 + 255) / 256)
    rw [hmod, hdiv]
    rfl
  have hreserved : (fillReq sector m).load (req + 4) 4 = leBytes 4 0 := by
    rw [fillReq, load_setField_apart _ (.inl (by decide)), load_setField_apart _ (.inl (by decide)),
      load_setField]
  have htype : (fillReq sector m).load req 4 = leBytes 4 0 := by
    rw [fillReq, load_setField_apart _ (.inl (by decide)), load_setField_apart _ (.inl (by decide)),
      load_setField_apart _ (.inl (by decide)), load_setField]
  rw [Memory.load_add _ _ 4 12, htype, Memory.load_add _ _ 4 8, hreserved, hsector]

/-- Header and status byte are as they were filled in. -/
theorem submit_req {p : Nat} (h : req ≤ p) :
    submit base sector buffer m p = fillReq sector m p := by
  rw [submit, publish_outside _ (.inr (Nat.le_trans (by decide) h)),
    fillDesc_outside _ _ _ (Nat.le_trans (by decide) h)]

theorem load_submit_req : (submit base sector buffer m).load req 16 =
    leBytes 4 0 ++ (leBytes 4 0 ++ leBytes 8 (sector.toNat / 256 * 256 + 255)) := by
  rw [← load_fillReq sector m]
  apply Memory.load_congr
  intro p hp _
  exact submit_req base sector buffer m hp

/-- The device finds the sector that was asked for when its low byte is that of the status. -/
theorem load_submit_eq_header : (submit base sector buffer m).load req 16 = header sector ↔
    sector.toNat % 256 = 255 := by
  have hlt := sector.toNat_lt
  rw [load_submit_req, header, List.append_cancel_left_eq, List.append_cancel_left_eq]
  constructor
  · intro h
    have hvalue := congrArg leNat h
    rw [leNat_leBytes, leNat_leBytes] at hvalue
    omega
  · intro h
    congr 1
    omega

theorem submit_statusByte : submit base sector buffer m statusByte = 0xFF := by
  rw [submit_req base sector buffer m (by decide)]
  exact Memory.store_inside (setField (req + 8) 8 sector.toNat (setField (req + 4) 4 0
    (setField req 4 0 m))) statusByte (leBytes 1 0xFF) 0 (by decide)

/-- The index of the ring is that of the stores before it. -/
theorem availIdx_fill : availIdx (fillDesc base buffer (fillReq sector m)) = availIdx m := by
  have hload : (fillDesc base buffer (fillReq sector m)).load (avail + 2) 2 =
      m.load (avail + 2) 2 := by
    apply Memory.load_congr
    intro p hlow hhigh
    rw [fillDesc_outside _ _ _ (Nat.le_trans (by decide) hlow), fillReq]
    repeat rw [setField_outside _ (.inl (Nat.lt_of_lt_of_le hhigh (by decide)))]
  rw [availIdx, hload, availIdx]

/-- A publication takes the slot of the index and moves the index on, with wrap. -/
theorem availIdx_publish : availIdx (publish m) = (availIdx m + 1) % 2 ^ 16 := by
  have hidx : availIdx (setField (avail + 4 + 2 * (availIdx m % queueSize)) 2 0 m) =
      availIdx m := by
    rw [availIdx, load_setField_apart _ (.inl (by omega)), availIdx]
  rw [publish, availIdx, load_setField, hidx]
  exact leNat_leBytes 2 _

theorem availRing_publish : availRing (publish m) (availIdx m % queueSize) = 0 := by
  rw [publish, availRing, load_setField_apart _ (.inr (by omega)), load_setField]
  rfl

end Submit

/-! ### Runs -/

def Event.isRead : Event D → Bool
  | .read _ _ => true
  | .device _ _ | .ret => false

omit [Mmio D] in
theorem Event.isRead_iff {e : Event D} :
    e.isRead = true ↔ ∃ sector buffer, e = .read sector buffer := by
  cases e <;> simp [isRead]

/-- The number of the requests in a run. -/
def requests (t : List (Call (State D) (Event D) (Option Nat))) : Nat :=
  t.countP fun x ↦ x.input.isRead

/-- What the device finds in memory when it is notified of request number `k`, from 0 on: the
header, a status byte that nobody has written, the index behind the newest slot, and descriptor 0
in that slot. -/
structure Announces (m : Memory) (sector : UInt64) (k : Nat) : Prop where
  header : m.load req 16 = header sector
  status : m statusByte = 0xFF
  index : availIdx m = (k + 1) % 2 ^ 16
  newest : availRing m (k % queueSize) = 0

/-- Every request of a run is announced as it was asked for. -/
def AnnouncesAll (t : List (Call (State D) (Event D) (Option Nat))) : Prop :=
  ∀ t₁ x t₂ sector buffer, t = t₁ ++ x :: t₂ → x.input = .read sector buffer →
    Announces x.after.blk.queueMem sector (requests t₁)

/-- The driver is set up and has published `k` requests. -/
structure Ready (s : State D) (k : Nat) : Prop where
  initialized : s.blk.initialized = true
  index : availIdx s.blk.queueMem = k % 2 ^ 16

section Runs

variable {b b' : Blk D} {s s' : State D} {t : List (Call (State D) (Event D) (Option Nat))}
  {x : Call (State D) (Event D) (Option Nat)} {sector buffer : UInt64} {k : Nat}

/-- A successful initialisation leaves an empty ring. -/
theorem ready_virtioBlkInit (h : virtioBlkInit b = (true, b')) : Ready ⟨b', false⟩ 0 := by
  rw [virtioBlkInit] at h
  split at h
  split at h
  · obtain ⟨-, hafter⟩ := Prod.mk.inj h
    rw [← hafter]
    refine ⟨rfl, ?_⟩
    rw [availIdx, Memory.load_store_replicate _ _ (Nat.zero_le _) (by decide)]
    rfl
  · cases h

/-- A request of a driver that is set up is submitted. -/
theorem turn_read (h : Turn x) (hread : x.input = .read sector buffer)
    (hinit : x.before.blk.initialized = true) : x.after.blk.initialized = true ∧
      x.after.blk.queueMem =
        submit x.before.blk.base sector buffer x.before.blk.queueMem := by
  rw [Turn, hread, State.step] at h
  by_cases hwaiting : x.before.waiting = true
  · rw [if_pos hwaiting] at h
    cases h
  · rw [if_neg hwaiting, if_pos hinit] at h
    obtain ⟨-, hafter⟩ := Prod.mk.inj (Option.some.inj h)
    rw [← hafter]
    exact ⟨hinit, rfl⟩

/-- The stores of the device are apart from the ring of the driver. -/
theorem availIdx_storeAll {m : Memory} {stores : List (Nat × UInt8)}
    (h : ∀ y ∈ stores, DeviceStores y.1) : availIdx (m.storeAll stores) = availIdx m := by
  have hload : (m.storeAll stores).load (avail + 2) 2 = m.load (avail + 2) 2 := by
    apply Memory.load_congr
    intro p _ hp
    apply Memory.storeAll_outside
    intro y hy heq
    have hdevice := h y hy
    simp only [DeviceStores, heq, used, req, statusByte] at hdevice
    simp only [avail] at hp
    omega
  rw [availIdx, hload, availIdx]

/-- The device and a return leave the ring of the driver. -/
theorem turn_other (h : Turn x) (hother : x.input.isRead = false) :
    x.after.blk.initialized = x.before.blk.initialized ∧
      availIdx x.after.blk.queueMem = availIdx x.before.blk.queueMem := by
  rw [Turn] at h
  cases hinput : x.input with
  | read sector buffer =>
    rw [hinput] at hother
    cases hother
  | device mmio stores =>
    rw [hinput, State.step] at h
    split at h
    · rename_i hstores
      obtain ⟨-, hafter⟩ := Prod.mk.inj (Option.some.inj h)
      rw [← hafter]
      exact ⟨rfl, availIdx_storeAll hstores⟩
    · cases h
  | ret =>
    rw [hinput, State.step] at h
    split at h
    · obtain ⟨-, hafter⟩ := Prod.mk.inj (Option.some.inj h)
      rw [← hafter]
      exact ⟨rfl, rfl⟩
    · cases h

theorem availIdx_submit (base sector buffer : UInt64) (m : Memory) :
    availIdx (submit base sector buffer m) = (availIdx m + 1) % 2 ^ 16 := by
  rw [submit, availIdx_publish, availIdx_fill]

/-- A request counts one up, and every other step keeps the count. -/
theorem ready_turn (h : Turn x) (hready : Ready x.before k) :
    Ready x.after (k + if x.input.isRead then 1 else 0) := by
  cases hread : x.input.isRead with
  | true =>
    obtain ⟨sector, buffer, hinput⟩ := Event.isRead_iff.mp hread
    obtain ⟨hinit, hmem⟩ := turn_read h hinput hready.initialized
    refine ⟨hinit, ?_⟩
    rw [hmem, availIdx_submit, hready.index, Nat.mod_add_mod]
    rfl
  | false =>
    obtain ⟨hinit, hindex⟩ := turn_other h hread
    exact ⟨hinit.trans hready.initialized, hindex.trans hready.index⟩

/-- The index of the ring is the number of the requests, with wrap. -/
theorem ready_run (h : Run Turn s t s') (hs : Ready s 0) : Ready s' (requests t) := by
  apply Run.history (I := fun t s ↦ Ready s (requests t)) _ h hs
  intro t x hturn hready
  have hnext := ready_turn hturn hready
  rwa [requests, List.countP_append, List.countP_singleton, ← requests]

/-- A request is announced as it was asked for when its sector number ends in 255. -/
theorem announces_turn (h : Turn x) (hread : x.input = .read sector buffer)
    (hready : Ready x.before k) :
    Announces x.after.blk.queueMem sector k ↔ sector.toNat % 256 = 255 := by
  obtain ⟨-, hmem⟩ := turn_read h hread hready.initialized
  rw [hmem]
  constructor
  · intro hannounces
    exact (load_submit_eq_header _ _ _ _).mp hannounces.header
  · intro hlow
    constructor
    · exact (load_submit_eq_header _ _ _ _).mpr hlow
    · exact submit_statusByte _ _ _ _
    · rw [availIdx_submit, hready.index, Nat.mod_add_mod]
    · have hslot : k % queueSize = availIdx (fillDesc x.before.blk.base buffer
          (fillReq sector x.before.blk.queueMem)) % queueSize := by
        rw [availIdx_fill, hready.index, queueSize]
        omega
      rw [submit, hslot]
      exact availRing_publish _

/-- Every request of a run is announced as it was asked for exactly when every sector number ends
in 255. -/
theorem announcesAll_iff (h : virtioBlkInit b = (true, b')) (hrun : Run Turn ⟨b', false⟩ t s') :
    AnnouncesAll t ↔
      ∀ x ∈ t, ∀ sector buffer, x.input = .read sector buffer → sector.toNat % 256 = 255 := by
  have hready := ready_virtioBlkInit h
  constructor
  · intro hall x hx sector buffer hread
    obtain ⟨t₁, t₂, rfl⟩ := List.append_of_mem hx
    obtain ⟨hbefore, hturn, -⟩ := hrun.split
    exact (announces_turn hturn hread (ready_run hbefore hready)).mp
      (hall t₁ x t₂ sector buffer rfl hread)
  · intro hall t₁ x t₂ sector buffer ht hread
    subst ht
    obtain ⟨hbefore, hturn, -⟩ := hrun.split
    have hlow := hall x (List.mem_append_right _ List.mem_cons_self) sector buffer hread
    exact (announces_turn hturn hread (ready_run hbefore hready)).mpr hlow

end Runs

/-! ### A disk -/

/-- A block device whose registers read what the driver expects. -/
instance : Mmio Unit where
  read off d := (match off with
    | 0x000 => 0x74726976
    | 0x004 | 0x008 => 2
    | 0x034 => 256
    | 0x070 => 0x0B
    | _ => 0, d)
  write _ _ d := d

/-- The driver behind its initialisation, with `queue_mem` at 0x20000. -/
def disk : Blk Unit := (virtioBlkInit ⟨(), 0x20000, fun _ ↦ 0, false, 0⟩).2

/-- The call for a sector and a buffer at 0x30000, up to its notification. -/
def firstRead (sector : UInt64) : Call (State Unit) (Event Unit) (Option Nat) where
  before := ⟨disk, false⟩
  input := .read sector 0x30000
  output := none
  after := ⟨{ disk with queueMem := submit 0x20000 sector 0x30000 disk.queueMem }, true⟩

theorem run_firstRead (sector : UInt64) :
    Run Turn ⟨disk, false⟩ [firstRead sector] (firstRead sector).after :=
  .cons (x := firstRead sector) rfl (.nil _)

theorem virtioBlkInit_disk :
    virtioBlkInit ⟨(), 0x20000, fun _ ↦ 0, false, 0⟩ = (true, disk) := rfl

/-- Sector 255 is announced as it was asked for. -/
theorem announcesAll_lastByte : Run Turn ⟨disk, false⟩ [firstRead 255] (firstRead 255).after ∧
    AnnouncesAll [firstRead 255] := by
  refine ⟨run_firstRead 255, ?_⟩
  apply (announcesAll_iff virtioBlkInit_disk (run_firstRead 255)).mpr
  intro x hx sector buffer hread
  rw [List.mem_singleton.mp hx] at hread
  obtain ⟨rfl, -⟩ := Event.read.inj hread
  decide

/-- The read of sector 1 is announced as one of sector 255. -/
theorem not_announcesAll_sectorOne :
    virtioBlkInit ⟨(), 0x20000, fun _ ↦ 0, false, 0⟩ = (true, disk) ∧
      Run Turn ⟨disk, false⟩ [firstRead 1] (firstRead 1).after ∧
      (firstRead 1).after.blk.queueMem.load req 16 = header 255 ∧ ¬AnnouncesAll [firstRead 1] := by
  have hheader : (firstRead 1).after.blk.queueMem.load req 16 = header 255 :=
    load_submit_req 0x20000 1 0x30000 disk.queueMem
  refine ⟨virtioBlkInit_disk, run_firstRead 1, hheader, ?_⟩
  intro hall
  have hannounces := hall [] (firstRead 1) [] 1 0x30000 rfl rfl
  have hsame := hheader.symm.trans hannounces.header
  exact absurd hsame (by decide)

end SmallOs.Boot.VirtioBlk
