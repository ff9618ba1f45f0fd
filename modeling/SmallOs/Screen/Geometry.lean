import SmallOs.Screen.Cursor

/-!
# The geometry that the boot loader hands over

The screen writer takes the stride in pixels and the width and the height as those of the mode.
Stage 2 takes the bytes of a line for its pixels, the pixels of a line for the number of lines,
and computes a stride in bytes from there.
-/

namespace SmallOs.Screen

open SmallOs.Base SmallOs.Boot Outcome

namespace Writer

variable {w w' : Writer}

theorem of_setByte {i : Nat} {v : UInt8} (h : w.setByte i v = .ok w') :
    w.Same w' ∧ i + 1 ≤ w.framebuffer.length := by
  simp only [setByte, bind_eq_ok, putAt_eq_ok, pure_eq_ok, ok.injEq] at h
  obtain ⟨_, ⟨hlen, rfl⟩, rfl⟩ := h
  exact ⟨⟨rfl, length_splice _ _ _ hlen, rfl, rfl⟩, hlen⟩

/-- A pixel that has been written lies in the buffer, and only bytes of the buffer have
changed. -/
theorem of_writePixel {x y : Nat} {c : Color} (hformat : w.info.pixelFormat = 0)
    (h : w.writePixel x y c = .ok w') :
    w.Same w' ∧ ∃ offset, pixelOffset w.info x y = .ok offset ∧
      offset + 3 ≤ w.framebuffer.length := by
  obtain ⟨offset, hoffset, h⟩ := bind_eq_ok.mp h
  rw [hformat] at h
  obtain ⟨w₁, h₁, h⟩ := bind_eq_ok.mp h
  obtain ⟨o₁, ho₁, h⟩ := bind_eq_ok.mp h
  obtain ⟨w₂, h₂, h⟩ := bind_eq_ok.mp h
  obtain ⟨o₂, ho₂, h₃⟩ := bind_eq_ok.mp h
  obtain ⟨-, rfl⟩ := addAt_eq_ok.mp ho₂
  have hsame := (of_setByte h₁).1.trans (of_setByte h₂).1
  obtain ⟨hlast, hlen⟩ := of_setByte h₃
  rw [hsame.length] at hlen
  exact ⟨hsame.trans hlast, offset, hoffset, hlen⟩

/-- A screen that has been cleared holds each of its pixels. -/
theorem of_clear {c : Color} {x y : Nat} (hformat : w.info.pixelFormat = 0)
    (h : w.clear c = .ok w') (hx : x < w.info.width) (hy : y < w.info.height) :
    ∃ offset, pixelOffset w.info x y = .ok offset ∧ offset + 3 ≤ w.framebuffer.length := by
  have hpixel : ∀ (b : Writer) (a : Nat) (k : Nat) (b' : Writer), w.Same b →
      b.writePixel a k c = .ok b' → w.Same b' := by
    intro b a k b' hb hb'
    exact hb.trans (of_writePixel (hb.info ▸ hformat) hb').1
  have hrow : ∀ (b : Writer) (k : Nat) (b' : Writer), w.Same b →
      (List.range w.info.width).foldlM (fun w x ↦ w.writePixel x k c) b = .ok b' → w.Same b' := by
    intro b k b' hb hb'
    exact foldlM_invariant (fun b a b' _ ↦ hpixel b a k b') hb hb'
  obtain ⟨w₁, w₂, h₁, h₂⟩ := foldlM_of_mem hrow (.refl w) h (List.mem_range.mpr hy)
  obtain ⟨w₃, w₄, h₃, h₄⟩ := foldlM_of_mem (fun b a b' ↦ hpixel b a y b') h₁ h₂
    (List.mem_range.mpr hx)
  obtain ⟨-, hoffset⟩ := of_writePixel (h₃.info ▸ hformat) h₄
  rw [h₃.info, h₃.length] at hoffset
  exact hoffset

end Writer

/-- The boot information of a mode, as the kernel receives it. -/
def bootFramebuffer (mode : ModeInfo) : FrameBufferInfo :=
  fillBootInfo (detectFramebuffer (some mode))

/-- Width and height are the mode's, and the writer's offset of a pixel leads to the bytes of
that pixel, inside of the slice. -/
structure Matches (mode : ModeInfo) (info : FrameBufferInfo) : Prop where
  width : info.width = mode.xResolution
  height : info.height = mode.yResolution
  pixel : ∀ x y, x < info.width → y < info.height → ∃ offset,
    Writer.pixelOffset info x y = .ok offset ∧ offset + 2 < info.size ∧
      offset = y * mode.bytesPerScanLine + x * info.bytesPerPixel

/-- A mode of 24 or 32 bits whose lines are not padded. -/
structure Unpadded (mode : ModeInfo) : Prop where
  bits : mode.bitsPerPixel = 24 ∨ mode.bitsPerPixel = 32
  line : mode.bytesPerScanLine = mode.xResolution * (mode.bitsPerPixel / 8)

section Fields

variable {mode : ModeInfo}

theorem bootFramebuffer_width (mode : ModeInfo) :
    (bootFramebuffer mode).width = mode.bytesPerScanLine := rfl

theorem bootFramebuffer_height (mode : ModeInfo) :
    (bootFramebuffer mode).height = mode.xResolution := rfl

/-- The geometry matches only for a mode without a pixel. -/
theorem matches_iff (h : Unpadded mode) :
    Matches mode (bootFramebuffer mode) ↔ mode.xResolution = 0 ∧ mode.yResolution = 0 := by
  have hline := h.line
  constructor
  · intro hm
    have hwidth : mode.bytesPerScanLine = mode.xResolution := hm.width
    have hheight : mode.xResolution = mode.yResolution := hm.height
    rcases h.bits with hbits | hbits
    · rw [hbits] at hline
      omega
    · rw [hbits] at hline
      omega
  · rintro ⟨hx, hy⟩
    have hwidth : (bootFramebuffer mode).width = 0 := by
      rw [bootFramebuffer_width, hline, hx, Nat.zero_mul]
    refine ⟨hwidth.trans hx.symm, ?_, ?_⟩
    · rw [bootFramebuffer_height, hx, hy]
    · intro x y hlt
      rw [hwidth] at hlt
      exact absurd hlt (Nat.not_lt_zero x)

/-- The stride is that of a line as many times too long as a pixel has bytes. -/
theorem bootFramebuffer_stride (h : Unpadded mode) :
    (bootFramebuffer mode).stride =
      mode.xResolution * (bootFramebuffer mode).bytesPerPixel *
        (bootFramebuffer mode).bytesPerPixel := by
  have hword : mode.bytesPerScanLine < 256 ^ 2 := leAt_lt mode 16 2
  have hbytes : (bootFramebuffer mode).bytesPerPixel = mode.bitsPerPixel / 8 :=
    Nat.shiftRight_eq_div_pow _ 3
  have hstride : (bootFramebuffer mode).stride =
      mode.bytesPerScanLine * (bootFramebuffer mode).bytesPerPixel % 2 ^ 32 := rfl
  have hline := h.line
  rw [hstride, hbytes, hline]
  rcases h.bits with hbits | hbits <;> rw [hbits] at hline ⊢ <;> omega

/-- The last pixel of a cleared screen lies behind the slice. -/
theorem last_pixel (h : Unpadded mode) (hx : 2 ≤ mode.xResolution) {offset : Nat}
    (ho : Writer.pixelOffset (bootFramebuffer mode) ((bootFramebuffer mode).width - 1)
      ((bootFramebuffer mode).height - 1) = .ok offset) :
    (bootFramebuffer mode).size < offset + 3 := by
  have hline := h.line
  have hstride := bootFramebuffer_stride h
  have hbytes : (bootFramebuffer mode).bytesPerPixel = mode.bitsPerPixel / 8 :=
    Nat.shiftRight_eq_div_pow _ 3
  have hsize : (bootFramebuffer mode).size ≤ (bootFramebuffer mode).stride * mode.xResolution :=
    Nat.mod_le _ _
  simp only [Writer.pixelOffset, bind_eq_ok, mulAt_eq_ok, addAt_eq_ok] at ho
  obtain ⟨row, ⟨-, rfl⟩, pixel, ⟨-, rfl⟩, -, rfl⟩ := ho
  rw [bootFramebuffer_width, bootFramebuffer_height, hline]
  rw [hstride] at hsize ⊢
  rw [hbytes] at hsize ⊢
  obtain ⟨n, hn⟩ : ∃ n, mode.xResolution = n + 2 := ⟨mode.xResolution - 2, by omega⟩
  rw [hn] at hsize ⊢
  rw [show n + 2 - 1 = n + 1 from rfl]
  rcases h.bits with hbits | hbits
  · have hcomm := Nat.mul_comm n (n * 3 * 3)
    rw [hbits] at hsize ⊢
    simp only [Nat.add_mul, Nat.mul_add, Nat.reduceDiv] at hsize ⊢
    omega
  · have hcomm := Nat.mul_comm n (n * 4 * 4)
    rw [hbits] at hsize ⊢
    simp only [Nat.add_mul, Nat.mul_add, Nat.reduceDiv] at hsize ⊢
    omega

/-- So clearing the screen panics for every mode with lines of two pixels or more. -/
theorem clear_panics (h : Unpadded mode) (hx : 2 ≤ mode.xResolution) {buffer : List UInt8}
    (hbuffer : buffer.length = (bootFramebuffer mode).size) (c : Color) (w : Writer) :
    (Writer.new buffer (bootFramebuffer mode)).clear c ≠ .ok w := by
  intro hclear
  have hline := h.line
  have hwidth : 0 < (bootFramebuffer mode).width := by
    rw [bootFramebuffer_width, hline]
    rcases h.bits with hbits | hbits <;> rw [hbits] <;> omega
  have hheight : 0 < (bootFramebuffer mode).height := by
    rw [bootFramebuffer_height]
    omega
  obtain ⟨offset, hoffset, hlen⟩ := Writer.of_clear rfl hclear (Nat.sub_one_lt_of_lt hwidth)
    (Nat.sub_one_lt_of_lt hheight)
  have hlast := last_pixel h hx hoffset
  change offset + 3 ≤ buffer.length at hlen
  omega

end Fields

/-- The block of mode `0x118` with 32 bits: 1024 pixels by 768 lines. -/
def mode118 : ModeInfo :=
  List.replicate 16 0 ++ [0x00, 0x10, 0x00, 0x04, 0x00, 0x03, 8, 16, 1, 32] ++
    List.replicate 14 0 ++ [0, 0, 0, 0xFD] ++ List.replicate 212 0

theorem mode118_unpadded : Unpadded mode118 := ⟨by decide, by decide⟩

/-- For that mode the width is 4096 and the height 1024. -/
theorem not_matches_mode118 :
    ¬ ∀ mode : ModeInfo, Unpadded mode → Matches mode (bootFramebuffer mode) := by
  intro hall
  have hwidth := (hall mode118 mode118_unpadded).width
  exact absurd hwidth (by decide)

/-- A mode without a pixel. -/
theorem matches_iff_empty :
    Matches (List.replicate 25 0 ++ [32] ++ List.replicate 230 0)
      (bootFramebuffer (List.replicate 25 0 ++ [32] ++ List.replicate 230 0)) :=
  (matches_iff ⟨by decide, by decide⟩).mpr ⟨by decide, by decide⟩

end SmallOs.Screen
