import SmallOs.Boot.Framebuffer

/-!
# The screen writer

`kernel/src/screen/mod.rs`: text on a framebuffer. Every index into the buffer and every sum of
two words is checked by the language, so a call returns or panics; the font comes from a crate
and is a parameter.
-/

namespace SmallOs.Screen

open SmallOs.Base SmallOs.Boot

/-- A call without errors of its own: it returns, or it panics. -/
abbrev Checked (α : Type) := Outcome Empty α

/-- The bitmaps that `font8x8::BASIC_FONTS.get` returns. -/
abbrev Font := Char → Option (Vector UInt8 8)

/-- The arguments `r`, `g` and `b`. -/
structure Color where
  r : UInt8
  g : UInt8
  b : UInt8

/-- What is erased is drawn in black. -/
def Color.black : Color := ⟨0, 0, 0⟩

/-- `kernel/src/screen/mod.rs:8–13`. -/
structure Writer where
  framebuffer : List UInt8
  info : FrameBufferInfo
  x : Nat
  y : Nat

namespace Writer

/-- `kernel/src/screen/mod.rs:22–24`. -/
def new (framebuffer : List UInt8) (info : FrameBufferInfo) : Writer := ⟨framebuffer, info, 0, 0⟩

/-- The offset of a pixel; `kernel/src/screen/mod.rs:27`. -/
def pixelOffset (info : FrameBufferInfo) (x y : Nat) : Checked Nat := do
  let row ← Outcome.mulAt 64 y info.stride
  let pixel ← Outcome.addAt 64 row x
  Outcome.mulAt 64 pixel info.bytesPerPixel

/-- An assignment to `self.framebuffer[i]`. -/
def setByte (w : Writer) (i : Nat) (v : UInt8) : Checked Writer := do
  let framebuffer ← putAt w.framebuffer i [v]
  return { w with framebuffer }

/-- Three bytes in a row. -/
def setBytes (w : Writer) (offset : Nat) (v₀ v₁ v₂ : UInt8) : Checked Writer := do
  let w ← w.setByte offset v₀
  let w ← w.setByte (← Outcome.addAt 64 offset 1) v₁
  w.setByte (← Outcome.addAt 64 offset 2) v₂

/-- `kernel/src/screen/mod.rs:26–41`. -/
def writePixel (w : Writer) (x y : Nat) (c : Color) : Checked Writer := do
  let offset ← pixelOffset w.info x y
  match w.info.pixelFormat with
  | 0 => w.setBytes offset c.r c.g c.b
  | 1 => w.setBytes offset c.b c.g c.r
  | _ => return w

/-- A pixel for every column of a range of rows. -/
def fill (w : Writer) (rows columns : List Nat) (c : Color) : Checked Writer :=
  rows.foldlM (fun w y ↦ columns.foldlM (fun w x ↦ w.writePixel x y c) w) w

/-- `kernel/src/screen/mod.rs:43–51`. -/
def clear (w : Writer) (c : Color) : Checked Writer :=
  w.fill (List.range w.info.height) (List.range w.info.width) c

/-- The row of a character's bitmap; `kernel/src/screen/mod.rs:56–62`. -/
def writeRow (x y : Nat) (c : Color) (w : Writer) (row : UInt8 × Nat) : Checked Writer :=
  (List.range 8).foldlM (fun w col ↦
    if (row.1 >>> UInt8.ofNat col) &&& 1 = 1 then do
      w.writePixel (← Outcome.addAt 64 x col) (← Outcome.addAt 64 y row.2) c
    else return w) w

/-- `kernel/src/screen/mod.rs:53–63`; the bitmap of a space is looked up in any case. -/
def writeChar (font : Font) (w : Writer) (x y : Nat) (ch : Char) (c : Color) : Checked Writer :=
  match font ' ' with
  | none => .panic
  | some blank => ((font ch).getD blank).toList.zipIdx.foldlM (writeRow x y c) w

/-- One byte of a line that moves up; `kernel/src/screen/mod.rs:126–128`. -/
def copyByte (src dst : Nat) (w : Writer) (i : Nat) : Checked Writer := do
  let v ← sliceAt w.framebuffer (← Outcome.addAt 64 src i) 1
  w.setByte (← Outcome.addAt 64 dst i) (v.headD 0)

/-- One pixel of a line that moves up; `kernel/src/screen/mod.rs:123–128`. -/
def copyPixel (y : Nat) (w : Writer) (x : Nat) : Checked Writer := do
  let src ← pixelOffset w.info x y
  let dst ← pixelOffset w.info x (← Outcome.sub y 9)
  (List.range w.info.bytesPerPixel).foldlM (copyByte src dst) w

/-- `kernel/src/screen/mod.rs:114–137`. -/
def scrollUp (w : Writer) : Checked Writer := do
  let rows := List.range' 9 (w.info.height - 9)
  let w ← rows.foldlM (fun w y ↦ (List.range w.info.width).foldlM (copyPixel y) w) w
  let top ← Outcome.sub w.info.height 9
  w.fill (List.range' top (w.info.height - top)) (List.range w.info.width) .black

/-- The start of the next line, on a screen that scrolls;
`kernel/src/screen/mod.rs:89–95, 101–107`. -/
def newLine (w : Writer) : Checked Writer := do
  let w := { w with x := 0, y := ← Outcome.addAt 64 w.y 9 }
  if w.info.height < (← Outcome.addAt 64 w.y 9) then
    let w ← w.scrollUp
    return { w with y := ← Outcome.sub w.y 9 }
  else return w

/-- The cell in front of the cursor, or the last one of the line above;
`kernel/src/screen/mod.rs:76–81`. -/
def stepBack (w : Writer) : Checked Writer := do
  if 8 ≤ w.x then return { w with x := w.x - 8 }
  else if 9 ≤ w.y then
    let columns ← Outcome.mulAt 64 (w.info.width / 8) 8
    return { w with x := ← Outcome.sub columns 8, y := w.y - 9 }
  else return w

/-- `kernel/src/screen/mod.rs:82–86`. -/
def eraseCell (w : Writer) : Checked Writer :=
  (List.range 8).foldlM (fun w row ↦ (List.range 8).foldlM (fun w col ↦ do
    w.writePixel (← Outcome.addAt 64 w.x col) (← Outcome.addAt 64 w.y row) .black) w) w

/-- One character of the loop; `kernel/src/screen/mod.rs:74–110`. -/
def writeCharAtCursor (font : Font) (c : Color) (w : Writer) (ch : Char) : Checked Writer := do
  if ch = '\x08' then
    let w ← w.stepBack
    w.eraseCell
  else if ch = '\n' then w.newLine
  else
    let w ← w.writeChar font w.x w.y ch c
    let w := { w with x := ← Outcome.addAt 64 w.x 8 }
    if w.info.width < (← Outcome.addAt 64 w.x 8) then w.newLine
    else return w

/-- `kernel/src/screen/mod.rs:72–112`. -/
def writeStringAtCursor (font : Font) (w : Writer) (s : List Char) (c : Color) : Checked Writer :=
  s.foldlM (writeCharAtCursor font c) w

end Writer

end SmallOs.Screen
