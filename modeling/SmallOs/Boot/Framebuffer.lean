import SmallOs.Base.Bytes

/-!
# The framebuffer in the boot information

`bootloader/stage2/real_mode/vbe.asm` reads the geometry of a video mode out of the block that
the BIOS has filled, and `bootloader/stage2/main.asm` puts it into the boot information.
-/

namespace SmallOs.Boot

open SmallOs.Base

/-- `lib/boot/src/lib.rs:25–35`. -/
structure FrameBufferInfo where
  addr : Nat
  size : Nat
  width : Nat
  height : Nat
  stride : Nat
  bytesPerPixel : Nat
  pixelFormat : Nat
  deriving DecidableEq, Repr

/-- The block that the BIOS fills for a video mode. -/
abbrev ModeInfo := List UInt8

namespace ModeInfo

/-- The bytes of a line; a word at offset 16. -/
def bytesPerScanLine (mode : ModeInfo) : Nat := leAt mode 16 2

/-- The pixels of a line; a word at offset 18. -/
def xResolution (mode : ModeInfo) : Nat := leAt mode 18 2

/-- The lines; a word at offset 20. -/
def yResolution (mode : ModeInfo) : Nat := leAt mode 20 2

/-- The bits of a pixel; a byte at offset 25. -/
def bitsPerPixel (mode : ModeInfo) : Nat := leAt mode 25 1

end ModeInfo

/-- The variables of `bootloader/stage2/main.asm:189–193`. -/
structure FbVars where
  fbAddr : Nat
  fbWidth : Nat
  fbHeight : Nat
  fbBpp : Nat
  fbStride : Nat
  deriving DecidableEq, Repr

/-- `bootloader/stage2/real_mode/vbe.asm:28–41` and its failure path: the address, two words and
a byte out of the block, and a product of 32 bits. -/
def detectFramebuffer (mode : Option ModeInfo) : FbVars :=
  match mode with
  | none => ⟨0, 0, 0, 0, 0⟩
  | some mode =>
    let fbAddr := leAt mode 40 4
    let fbWidth := leAt mode 16 2
    let fbHeight := leAt mode 18 2
    let fbBpp := leAt mode 25 1
    { fbAddr, fbWidth, fbHeight, fbBpp, fbStride := fbWidth * (fbBpp >>> 3) % 2 ^ 32 }

/-- `bootloader/stage2/main.asm:124–140`. -/
def fillBootInfo (v : FbVars) : FrameBufferInfo where
  addr := v.fbAddr
  size := v.fbStride * v.fbHeight % 2 ^ 64
  width := v.fbWidth
  height := v.fbHeight
  stride := v.fbStride
  bytesPerPixel := v.fbBpp >>> 3
  pixelFormat := 0

end SmallOs.Boot
