import SmallOs.Base.Memory
import SmallOs.Base.Run
import SmallOs.Driver.Block

/-!
# The virtio queue

`lib/driver/src/block/virtio/mod.rs:279–400`: driver and device as two parties that take turns
in any order over the memory they share. The addresses of descriptors are offsets into
`dma_buf`, and every chain is the same three descriptors over the same bytes. The ring index of
the driver wraps; a build with overflow checks stops there instead.
-/

namespace SmallOs.Driver

open SmallOs.Base SmallOs.Hal

/-- `lib/driver/src/block/virtio/queue.rs:1–7`. -/
structure VirtqDesc where
  addr : Nat
  len : Nat
  flags : Nat
  next : Nat
  deriving DecidableEq, Repr, Inhabited

/-- The device may write the buffer of the descriptor. -/
def VirtqDesc.writable (d : VirtqDesc) : Bool := d.flags / 2 % 2 = 1

/-- A call of the driver. -/
inductive BlkCall where
  | readSectors (lba : UInt64) (buf : List UInt8)
  | writeSectors (lba : UInt64) (buf : List UInt8)
  deriving DecidableEq

namespace BlkCall

def buf : BlkCall → List UInt8
  | readSectors _ buf | writeSectors _ buf => buf

def lba : BlkCall → UInt64
  | readSectors lba _ | writeSectors lba _ => lba

def isWrite : BlkCall → Bool
  | readSectors _ _ => false
  | writeSectors _ _ => true

/-- What the device is asked for. -/
def request (c : BlkCall) : Request := ⟨c.isWrite, c.lba.toNat, virtioBytes c.buf.length⟩

/-- `VirtioBlkReq` as bytes; `lib/driver/src/block/virtio/queue.rs:38–43`. -/
def header (c : BlkCall) : List UInt8 :=
  leBytes 4 (if c.isWrite then 1 else 0) ++ (leBytes 4 0 ++ leBytes 8 c.lba.toNat)

/-- The descriptor table; `lib/driver/src/block/virtio/mod.rs:362–382`. -/
def descriptors (c : BlkCall) : List VirtqDesc :=
  [⟨0, 16, 1, 1⟩, ⟨512, virtioBytes c.buf.length, (if c.isWrite then 0 else 2) ||| 1, 2⟩,
    ⟨1024, 1, 2, 0⟩]

/-- The bytes of `dma_buf` before the chain is published: a write lays its data first. -/
def fill (c : BlkCall) (dma : Memory) : Memory :=
  match c with
  | readSectors _ _ => dma.store 0 c.header
  | writeSectors _ buf => (dma.store 512 buf).store 0 c.header

/-- The buffer of the caller after the call; `lib/driver/src/block/virtio/mod.rs:308–312`. -/
def copyBack (c : BlkCall) (dma : Memory) : List UInt8 :=
  match c with
  | readSectors _ buf =>
    copyFront (fun i ↦ dma (512 + i)) (min buf.length ((buf.length + 511) / 512 * 512)) buf
  | writeSectors _ buf => buf

end BlkCall

/-- Where the driver stands in a call. A published chain has the number of its publication. -/
inductive Phase where
  | idle
  | prepared (call : BlkCall)
  | published (call : BlkCall) (number : Nat)
  | waiting (call : BlkCall) (number : Nat)

/-- What the device did for one chain: the request that it found, the data that it read or
wrote, and the status byte. -/
structure Completion where
  request : Request
  data : List UInt8
  status : UInt8
  deriving DecidableEq

namespace Virtio

/-- The driver's place, the shared memory, and the history of both parties. -/
structure State where
  phase : Phase
  dma : Memory
  desc : List VirtqDesc
  ring : Nat → Nat
  queueSize : Nat
  availIdx : Nat
  usedIdx : Nat
  published : Nat
  completions : List Completion

/-- The state after `init_device`: the rings are zeroed, `dma_buf` is as it was found;
`lib/driver/src/block/virtio/mod.rs:185–215`. -/
def init (dma : Memory) (queueSize : Nat) : State where
  phase := .idle
  dma := dma
  desc := [⟨0, 0, 0, 0⟩, ⟨0, 0, 0, 0⟩, ⟨0, 0, 0, 0⟩]
  ring := fun _ ↦ 0
  queueSize := queueSize
  availIdx := 0
  usedIdx := 0
  published := 0
  completions := []

/-- The device has served every chain it can see. -/
def State.Quiet (s : State) : Prop := s.usedIdx = s.availIdx

instance (s : State) : Decidable s.Quiet := inferInstanceAs (Decidable (_ = _))

/-- A turn of one of the parties. -/
inductive Event where
  | call (c : BlkCall)
  | publish
  | notify
  | ret
  | serve (data : List UInt8) (status : UInt8)

/-- A call that has returned: its publication and its result, with the caller's buffer. -/
structure Returned where
  call : BlkCall
  number : Nat
  result : Except BlockError (List UInt8)

/-- The chain that starts at a descriptor: header, data and status. -/
def chainFrom (desc : List VirtqDesc) (head : Nat) : VirtqDesc × VirtqDesc × VirtqDesc :=
  let d₀ := desc.getD head default
  let d₁ := desc.getD d₀.next default
  let d₂ := desc.getD d₁.next default
  (d₀, d₁, d₂)

/-- The device serves the oldest published chain, with data of the length it asks for and a
status byte of its own choice. -/
def State.serve (s : State) (data : List UInt8) (status : UInt8) : Option State :=
  let (d₀, d₁, d₂) := chainFrom s.desc (s.ring (s.usedIdx % s.queueSize))
  let head := s.dma.load d₀.addr d₀.len
  let request : Request := ⟨leAt head 0 4 = 1, leAt head 8 8, d₁.len⟩
  if s.Quiet ∨ data.length ≠ (if d₁.writable then d₁.len else 0) then none
  else some { s with
    dma := (s.dma.store d₁.addr data).store d₂.addr [status]
    usedIdx := (s.usedIdx + 1) % 2 ^ 16
    completions := s.completions ++
      [⟨request, if d₁.writable then data else s.dma.load d₁.addr d₁.len, status⟩] }

/-- One turn. A call lays out its request, publishes it, notifies the device, and leaves its
wait loop when `used.idx` is not zero; `lib/driver/src/block/virtio/mod.rs:353–400`. -/
def State.step (s : State) (e : Event) : Option (Option Returned × State) :=
  match e, s.phase with
  | .call c, .idle =>
    some (none, { s with phase := .prepared c, dma := c.fill s.dma, desc := c.descriptors })
  | .publish, .prepared c =>
    let slot := s.availIdx % s.queueSize
    some (none, { s with
      phase := .published c s.published
      ring := fun i ↦ if i = slot then 0 else s.ring i
      availIdx := (s.availIdx + 1) % 2 ^ 16
      published := s.published + 1 })
  | .notify, .published c n => some (none, { s with phase := .waiting c n })
  | .ret, .waiting c n =>
    if s.usedIdx = 0 then none
    else some (some ⟨c, n, .ok (c.copyBack s.dma)⟩, { s with phase := .idle })
  | .serve data status, _ => (s.serve data status).map fun s ↦ (none, s)
  | _, _ => none

/-- A turn of a run. -/
def Turn (x : Call State Event (Option Returned)) : Prop :=
  x.before.step x.input = some (x.output, x.after)

/-- A call that returns has been completed by the device, and its `Ok` stands for the device's
data and a status of zero. -/
def OwnData (x : Call State Event (Option Returned)) : Prop :=
  ∀ r, x.output = some r → ∃ c, x.before.completions[r.number]? = some c ∧
    c.request = r.call.request ∧
    (r.call.isWrite = true → c.data.take r.call.buf.length = r.call.buf) ∧
    ∀ buf, r.result = .ok buf → c.status = 0 ∧
      (r.call.isWrite = false → buf = c.data.take r.call.buf.length)

end Virtio
end SmallOs.Driver
