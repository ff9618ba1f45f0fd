import SmallOs.Base.ByteStore

/-!
# Block devices

The trait `BlockDevice` of `lib/hal/src/block/mod.rs` and its error type. The
filesystem layer hands it byte offsets, so the device it is written for is a byte
store; `Traced` records the accesses that reach a device, in order.
-/

namespace SmallOs.Hal

open SmallOs.Base

/-- `lib/hal/src/block/error.rs:4–19`. -/
inductive BlockError where
  | deviceNotReady
  | deviceError
  | timeout
  | noMemory
  | outOfBounds
  | badSector
  | readError
  | writeError
  | invalidGeometry
  | unsupportedSectorSize
  | other
  | invalidRequest
  | deviceBusy
  | invalidBuffer
  deriving DecidableEq, Repr

/-- `lib/hal/src/block/mod.rs:7–12`. The first argument is a `u64`; a read takes the
caller's buffer and returns it filled. -/
class BlockDevice (D : Type) where
  readBlocks : D → Nat → List UInt8 → Except BlockError (List UInt8) × D
  writeBlocks : D → Nat → List UInt8 → Except BlockError Unit × D
  blockSize : D → Nat
  blockCount : D → UInt64

/-- A byte store is addressed by byte offset and refuses what lies outside of it. -/
instance : BlockDevice ByteStore where
  readBlocks s off buf := match s.read off buf.length with
    | some w => (.ok w, s)
    | none => (.error .outOfBounds, s)
  writeBlocks s off data := match s.write off data with
    | some t => (.ok (), t)
    | none => (.error .outOfBounds, s)
  blockSize := ByteStore.blockSize
  blockCount := ByteStore.blockCount

/-- One call that reached the device: its first argument and the buffer's length. -/
inductive Access where
  | read (offset len : Nat)
  | write (offset len : Nat)
  deriving DecidableEq, Repr

/-- The first argument of the call. -/
def Access.offset : Access → Nat
  | read offset _ => offset
  | write offset _ => offset

/-- The length of the buffer. -/
def Access.len : Access → Nat
  | read _ len => len
  | write _ len => len

/-- The two windows have no byte in common. -/
def Access.Disjoint (a b : Access) : Prop :=
  a.offset + a.len ≤ b.offset ∨ b.offset + b.len ≤ a.offset

/-- A device with the accesses made so far, oldest first. -/
structure Traced (D : Type) where
  device : D
  log : List Access

instance {D : Type} [BlockDevice D] : BlockDevice (Traced D) where
  readBlocks t off buf :=
    let (r, d) := BlockDevice.readBlocks t.device off buf
    (r, ⟨d, t.log ++ [.read off buf.length]⟩)
  writeBlocks t off data :=
    let (r, d) := BlockDevice.writeBlocks t.device off data
    (r, ⟨d, t.log ++ [.write off data.length]⟩)
  blockSize t := BlockDevice.blockSize t.device
  blockCount t := BlockDevice.blockCount t.device

end SmallOs.Hal
