import SmallOs.Base.Counting
import SmallOs.Screen.Cursor

/-!
# What the screen writer draws

The pixels of a screen, as three bytes each. A pixel that is written changes no other one, a
character changes pixels of its cell alone, what is erased is black, and scrolling moves the lines
of pixels up by nine.
-/

namespace SmallOs.Screen

open SmallOs.Base SmallOs.Boot Outcome

/-- Where a pixel is in the buffer. -/
def offsetOf (info : FrameBufferInfo) (x y : Nat) : Nat :=
  (y * info.stride + x) * info.bytesPerPixel

/-- The two formats that the writer draws in, `lib/boot/src/lib.rs:34`. -/
def Drawn (info : FrameBufferInfo) : Prop := info.pixelFormat = 0 ∨ info.pixelFormat = 1

/-- The bytes of a color. -/
def Color.bytes (c : Color) (info : FrameBufferInfo) : List UInt8 :=
  if info.pixelFormat = 0 then [c.r, c.g, c.b] else [c.b, c.g, c.r]

theorem Color.length_bytes (c : Color) (info : FrameBufferInfo) : (c.bytes info).length = 3 := by
  rw [bytes]
  split <;> rfl

theorem Color.bytes_black (info : FrameBufferInfo) : black.bytes info = [0, 0, 0] := by
  rw [bytes]
  split <;> rfl

section Offsets

variable {info : FrameBufferInfo} {len x y x' y' : Nat}

theorem Fits.pixelOffset_of (h : Fits info len) (hx : x < info.width) (hy : y < info.height) :
    Writer.pixelOffset info x y = .ok (offsetOf info x y) := by
  have hpixel := h.pixel hx hy
  have hbytes := h.bytes
  have hword := h.word
  have hle : y * info.stride + x ≤ (y * info.stride + x) * info.bytesPerPixel :=
    Nat.le_mul_of_pos_right _ (by omega)
  rw [Writer.pixelOffset, mulAt_of (by omega), ok_bind, addAt_of (by omega), ok_bind,
    mulAt_of (by omega)]
  rfl

theorem Fits.offset_le (h : Fits info len) (hx : x < info.width) (hy : y < info.height) :
    offsetOf info x y + info.bytesPerPixel ≤ len := h.pixel hx hy

/-- A pixel further down comes later. -/
theorem index_lt (hx : x < info.stride) (hy : y < y') :
    y * info.stride + x < y' * info.stride + x' := by
  have hline : (y + 1) * info.stride ≤ y' * info.stride := Nat.mul_le_mul_right _ hy
  rw [Nat.succ_mul] at hline
  omega

/-- Different pixels have different bytes. -/
theorem offset_disjoint (hx : x < info.stride) (hx' : x' < info.stride)
    (hne : ¬ (x = x' ∧ y = y')) :
    offsetOf info x y + info.bytesPerPixel ≤ offsetOf info x' y' ∨
      offsetOf info x' y' + info.bytesPerPixel ≤ offsetOf info x y := by
  have hlt : ∀ {i j : Nat}, i < j →
      i * info.bytesPerPixel + info.bytesPerPixel ≤ j * info.bytesPerPixel := by
    intro i j hij
    rw [← Nat.succ_mul]
    exact Nat.mul_le_mul_right _ hij
  rcases Nat.lt_trichotomy y y' with hy | rfl | hy
  · exact .inl (hlt (index_lt hx hy))
  · rcases Nat.lt_or_gt_of_ne (show x ≠ x' by omega) with h | h
    · exact .inl (hlt (Nat.add_lt_add_left h _))
    · exact .inr (hlt (Nat.add_lt_add_left h _))
  · exact .inr (hlt (index_lt hx' hy))

end Offsets

namespace Writer

variable {w w' w₂ : Writer} {x y a b : Nat} {c : Color}

/-- The three bytes of a pixel. -/
def pixel (w : Writer) (x y : Nat) : List UInt8 := slice w.framebuffer (offsetOf w.info x y) 3

/-- The writer with some bytes of its buffer replaced. -/
def put (w : Writer) (offset : Nat) (bytes : List UInt8) : Writer :=
  { w with framebuffer := splice w.framebuffer offset bytes }

theorem same_put {offset : Nat} {bytes : List UInt8}
    (h : offset + bytes.length ≤ w.framebuffer.length) : Same w (w.put offset bytes) :=
  ⟨rfl, length_splice _ _ _ h, rfl, rfl⟩

theorem put_put {offset : Nat} {u v : List UInt8}
    (h : offset + u.length + v.length ≤ w.framebuffer.length) :
    (w.put offset u).put (offset + u.length) v = w.put offset (u ++ v) := by
  rw [put, put, put, splice_splice_next _ _ _ _ h]

theorem setByte_of {i : Nat} {v : UInt8} (h : i < w.framebuffer.length) :
    w.setByte i v = .ok (w.put i [v]) := by
  have hlen : i + [v].length ≤ w.framebuffer.length := h
  rw [setByte, putAt_of hlen]
  rfl

theorem setBytes_of {offset : Nat} {v₀ v₁ v₂ : UInt8} (h : offset + 3 ≤ w.framebuffer.length)
    (hword : w.framebuffer.length < 2 ^ 64) :
    w.setBytes offset v₀ v₁ v₂ = .ok (w.put offset [v₀, v₁, v₂]) := by
  have hfirst : (w.put offset [v₀]).framebuffer.length = w.framebuffer.length :=
    (same_put (show offset + 1 ≤ _ by omega)).length
  have hsecond : (w.put offset [v₀]).put (offset + 1) [v₁] = w.put offset [v₀, v₁] :=
    put_put (show offset + 1 + 1 ≤ _ by omega)
  have hthird : (w.put offset [v₀, v₁]).put (offset + 2) [v₂] = w.put offset [v₀, v₁, v₂] :=
    put_put (show offset + 2 + 1 ≤ _ by omega)
  have hlength : (w.put offset [v₀, v₁]).framebuffer.length = w.framebuffer.length :=
    (same_put (show offset + 2 ≤ _ by omega)).length
  rw [setBytes, setByte_of (by omega), ok_bind, addAt_of (by omega), ok_bind,
    setByte_of (by omega), ok_bind, hsecond, addAt_of (by omega), ok_bind, setByte_of (by omega),
    hthird]

theorem writePixel_of (hw : w.Fitting) (hdrawn : Drawn w.info) (hx : x < w.info.width)
    (hy : y < w.info.height) :
    w.writePixel x y c = .ok (w.put (offsetOf w.info x y) (c.bytes w.info)) := by
  have hle := hw.offset_le hx hy
  have hbytes := hw.bytes
  rw [writePixel, hw.pixelOffset_of hx hy, ok_bind]
  rcases hdrawn with h | h
  · simp only [h, Color.bytes, if_true]
    exact setBytes_of (by omega) hw.word
  · simp only [h, Color.bytes, Nat.one_ne_zero, if_false]
    exact setBytes_of (by omega) hw.word

/-- A pixel outside of what is replaced. -/
theorem pixel_put_of_disjoint {offset : Nat} {bytes : List UInt8}
    (h : offset + bytes.length ≤ w.framebuffer.length)
    (hd : offsetOf w.info a b + 3 ≤ offset ∨ offset + bytes.length ≤ offsetOf w.info a b) :
    (w.put offset bytes).pixel a b = w.pixel a b :=
  slice_splice_disjoint _ _ _ _ _ h hd

/-! ### Drawing -/

/-- Drawing has changed no pixel but those of a region. -/
structure Keeps (region : Nat → Nat → Prop) (w w' : Writer) : Prop where
  same : Same w w'
  kept : ∀ a b, a < w.info.width → b < w.info.height → ¬ region a b → w'.pixel a b = w.pixel a b

variable {region : Nat → Nat → Prop}

theorem Keeps.refl : Keeps region w w := ⟨.refl w, fun _ _ _ _ _ ↦ rfl⟩

theorem Keeps.trans (h : Keeps region w w') (h' : Keeps region w' w₂) : Keeps region w w₂ := by
  refine ⟨h.same.trans h'.same, ?_⟩
  intro a b ha hb hout
  have hinfo := h.same.info
  rw [h'.kept a b (by rwa [hinfo]) (by rwa [hinfo]) hout, h.kept a b ha hb hout]

/-- A fold of steps that draw in a region draws in it. -/
theorem keeps_foldlM {α : Type} {f : Writer → α → Checked Writer} {l : List α}
    (hstep : ∀ w' a, a ∈ l → Same w w' → Returns (f w' a) (Keeps region w')) :
    Returns (l.foldlM f w) (Keeps region w) := by
  apply returns_foldlM _ Keeps.refl
  intro w' a ha hw'
  exact (hstep w' a ha hw'.same).mono fun _ ↦ hw'.trans

/-- A pixel is drawn, and no other one. -/
theorem keeps_writePixel (hw : w.Fitting) (hdrawn : Drawn w.info) (hx : x < w.info.width)
    (hy : y < w.info.height) : Returns (w.writePixel x y c) fun w' ↦
      Keeps (fun a b ↦ a = x ∧ b = y) w w' ∧ w'.pixel x y = c.bytes w.info := by
  have hle := hw.offset_le hx hy
  have hbytes := hw.bytes
  have hstride := hw.stride
  have hlen := c.length_bytes w.info
  have hput : offsetOf w.info x y + (c.bytes w.info).length ≤ w.framebuffer.length := by omega
  refine ⟨_, writePixel_of hw hdrawn hx hy, ⟨same_put hput, ?_⟩, ?_⟩
  · intro a b ha hb hne
    apply pixel_put_of_disjoint hput
    have hdisjoint := offset_disjoint (show a < w.info.stride by omega)
      (show x < w.info.stride by omega) hne
    omega
  · have hself := slice_splice_same w.framebuffer _ _ hput
    rwa [hlen] at hself

/-- The pixels of a rectangle. -/
def InRect (left top columns rows a b : Nat) : Prop :=
  left ≤ a ∧ a < left + columns ∧ top ≤ b ∧ b < top + rows

/-- The rectangle of a character. -/
abbrev InBox (x y : Nat) : Nat → Nat → Prop := InRect x y 8 8

theorem keeps_writePixel_box {col row : Nat} (hw : w.Fitting) (hdrawn : Drawn w.info)
    (hxy : OnScreen w.info x y) (hcol : col < 8) (hrow : row < 8) :
    Returns (do w.writePixel (← addAt 64 x col) (← addAt 64 y row) c) (Keeps (InBox x y) w) := by
  have hsmall := hw.small
  have hright := hxy.right
  have hbottom := hxy.bottom
  apply (returns_addAt (by omega)).bind
  rintro px rfl
  apply (returns_addAt (by omega)).bind
  rintro py rfl
  apply (keeps_writePixel hw hdrawn (by omega) (by omega)).mono
  rintro w' ⟨hkeeps, -⟩
  refine ⟨hkeeps.same, ?_⟩
  intro a b ha hb hout
  apply hkeeps.kept a b ha hb
  rintro ⟨rfl, rfl⟩
  exact hout ⟨Nat.le_add_right _ _, by omega, Nat.le_add_right _ _, by omega⟩

theorem keeps_writeRow {row : UInt8 × Nat} (hw : w.Fitting) (hdrawn : Drawn w.info)
    (hxy : OnScreen w.info x y) (hrow : row.2 < 8) :
    Returns (writeRow x y c w row) (Keeps (InBox x y) w) := by
  apply keeps_foldlM
  intro w₁ col hcol h₁
  have hcol := List.mem_range.mp hcol
  split
  · exact keeps_writePixel_box (h₁.fitting hw) (h₁.info ▸ hdrawn) (h₁.info ▸ hxy) hcol hrow
  · exact ⟨w₁, rfl, .refl⟩

/-- A character is drawn in its box. -/
theorem keeps_writeChar {font : Font} {ch : Char} (hspace : (font ' ').isSome) (hw : w.Fitting)
    (hdrawn : Drawn w.info) (hxy : OnScreen w.info x y) :
    Returns (w.writeChar font x y ch c) (Keeps (InBox x y) w) := by
  obtain ⟨blank, hblank⟩ := Option.isSome_iff_exists.mp hspace
  simp only [writeChar, hblank]
  apply keeps_foldlM
  intro w₁ row hrow h₁
  have hlt := (List.mem_zipIdx' hrow).1
  rw [Vector.length_toList] at hlt
  exact keeps_writeRow (h₁.fitting hw) (h₁.info ▸ hdrawn) (h₁.info ▸ hxy) hlt

/-! ### Filling -/

/-- A region has been filled with a color, and nothing else has changed. -/
structure Filled (region : Nat → Nat → Prop) (c : Color) (w w' : Writer) : Prop
    extends Keeps region w w' where
  filled : ∀ a b, a < w.info.width → b < w.info.height → region a b →
    w'.pixel a b = c.bytes w.info

variable {region' region₂ : Nat → Nat → Prop}

theorem Filled.empty (h : ∀ a b, ¬ region a b) : Filled region c w w :=
  ⟨.refl, fun a b _ _ hin ↦ absurd hin (h a b)⟩

/-- Two regions that have been filled one after the other. -/
theorem Filled.trans (h : Filled region c w w') (h' : Filled region' c w' w₂)
    (hboth : ∀ a b, region₂ a b ↔ region a b ∨ region' a b) : Filled region₂ c w w₂ := by
  have hinfo := h.same.info
  refine ⟨⟨h.same.trans h'.same, ?_⟩, ?_⟩
  · intro a b ha hb hout
    rw [hboth, not_or] at hout
    rw [h'.kept a b (by rwa [hinfo]) (by rwa [hinfo]) hout.2, h.kept a b ha hb hout.1]
  · intro a b ha hb hin
    by_cases hlast : region' a b
    · rw [h'.filled a b (by rwa [hinfo]) (by rwa [hinfo]) hlast, hinfo]
    · rw [h'.kept a b (by rwa [hinfo]) (by rwa [hinfo]) hlast]
      exact h.filled a b ha hb (((hboth a b).mp hin).resolve_right hlast)

theorem filled_writePixel (hw : w.Fitting) (hdrawn : Drawn w.info) (hx : x < w.info.width)
    (hy : y < w.info.height) :
    Returns (w.writePixel x y c) (Filled (fun a b ↦ a = x ∧ b = y) c w) := by
  apply (keeps_writePixel hw hdrawn hx hy).mono
  rintro w' ⟨hkeeps, hpixel⟩
  refine ⟨hkeeps, ?_⟩
  rintro a b - - ⟨rfl, rfl⟩
  exact hpixel

/-- A rectangle is filled line by line. -/
theorem filled_rect {left top columns rows : Nat} {step : Writer → Nat → Nat → Checked Writer}
    (hw : w.Fitting) (hdrawn : Drawn w.info) (hright : left + columns ≤ w.info.width)
    (hbottom : top + rows ≤ w.info.height)
    (hstep : ∀ s row col, Same w s → row < rows → col < columns →
      step s row col = s.writePixel (left + col) (top + row) c) :
    Returns ((List.range rows).foldlM (fun s row ↦
        (List.range columns).foldlM (fun s col ↦ step s row col) s) w)
      (Filled (InRect left top columns rows) c w) := by
  apply returns_foldlM_range (P := fun row s ↦ Filled (InRect left top columns row) c w s)
  · intro row s hrow hs
    have hline : Returns ((List.range columns).foldlM (fun s col ↦ step s row col) s)
        (Filled (InRect left (top + row) columns 1) c s) := by
      apply returns_foldlM_range (P := fun col s' ↦ Filled (InRect left (top + row) col 1) c s s')
      · intro col s' hcol hs'
        have hsame := hs.same.trans hs'.same
        have hinfo := hsame.info
        rw [hstep s' row col hsame hrow hcol]
        apply (filled_writePixel (hsame.fitting hw) (hinfo ▸ hdrawn) (by rw [hinfo]; omega)
          (by rw [hinfo]; omega)).mono
        intro s₂ hs₂
        apply hs'.trans hs₂
        intro a b
        simp only [InRect]
        omega
      · apply Filled.empty
        intro a b hin
        have hleft := hin.2.1
        have hleft' := hin.1
        omega
    apply hline.mono
    intro s₂ hs₂
    apply hs.trans hs₂
    intro a b
    simp only [InRect]
    omega
  · apply Filled.empty
    intro a b hin
    have htop := hin.2.2.2
    have htop' := hin.2.2.1
    omega

/-- A cell is erased. -/
theorem filled_eraseCell (hw : w.Fitting) (hdrawn : Drawn w.info) (hxy : OnScreen w.info w.x w.y) :
    Returns w.eraseCell (Filled (InBox w.x w.y) .black w) := by
  have hsmall := hw.small
  have hright := hxy.right
  have hbottom := hxy.bottom
  apply filled_rect hw hdrawn hright (by omega)
  intro s row col hs hrow hcol
  rw [hs.x, hs.y, addAt_of (by omega), ok_bind, addAt_of (by omega), ok_bind]

/-- Lines of the screen are filled. -/
theorem filled_fill {top rows : Nat} (hw : w.Fitting) (hdrawn : Drawn w.info)
    (hbottom : top + rows ≤ w.info.height) :
    Returns (w.fill (List.range' top rows) (List.range w.info.width) c)
      (Filled (InRect 0 top w.info.width rows) c w) := by
  rw [fill, List.range'_eq_map_range, List.foldlM_map]
  apply filled_rect hw hdrawn (by omega) hbottom
  intro s row col _ _ _
  rw [Nat.zero_add]

/-! ### Scrolling -/

/-- Bytes that are copied to the front. -/
theorem copyBytes_of {src dst n : Nat} (hsrc : src + n ≤ w.framebuffer.length)
    (hdst : dst + n ≤ src) (hword : w.framebuffer.length < 2 ^ 64) :
    (List.range n).foldlM (copyByte src dst) w =
      ok (w.put dst (slice w.framebuffer src n)) := by
  have hloop : Returns ((List.range n).foldlM (copyByte src dst) w)
      (· = w.put dst (slice w.framebuffer src n)) := by
    apply returns_foldlM_range (P := fun i s ↦ s = w.put dst (slice w.framebuffer src i))
    · rintro i s hi rfl
      have hlen := length_slice w.framebuffer src i (by omega)
      have hput : dst + (slice w.framebuffer src i).length ≤ w.framebuffer.length := by omega
      have hsame := (same_put hput).length
      have hread : slice (w.put dst (slice w.framebuffer src i)).framebuffer (src + i) 1 =
          slice w.framebuffer (src + i) 1 :=
        slice_splice_disjoint _ _ _ _ _ hput (.inr (by omega))
      have hone := length_slice w.framebuffer (src + i) 1 (by omega)
      have hbyte : [(slice w.framebuffer (src + i) 1).headD 0] =
          slice w.framebuffer (src + i) 1 := by
        obtain ⟨v, hv⟩ := List.length_eq_one_iff.mp hone
        rw [hv]
        rfl
      refine ⟨_, ?_, rfl⟩
      rw [copyByte, addAt_of (by omega), ok_bind, sliceAt_of (by rw [hsame]; omega), ok_bind,
        hread, addAt_of (by omega), ok_bind, setByte_of (by rw [hsame]; omega), hbyte, slice_add]
      have hnext := @put_put w dst (slice w.framebuffer src i) (slice w.framebuffer (src + i) 1)
        (by omega)
      rw [hlen] at hnext
      rw [hnext]
    · rw [slice_nil_of_zero]
      simp [put, splice]
  obtain ⟨w', hw', rfl⟩ := hloop
  exact hw'

/-- A pixel that has moved up by nine. -/
theorem keeps_copyPixel (hw : w.Fitting) (hx : x < w.info.width) (hy : y < w.info.height)
    (hrow : 9 ≤ y) : Returns (copyPixel y w x) fun w' ↦
      Keeps (fun a b ↦ a = x ∧ b = y - 9) w w' ∧ w'.pixel x (y - 9) = w.pixel x y := by
  have habove : y - 9 < w.info.height := by omega
  have hbytes := hw.bytes
  have hstride := hw.stride
  have hsrc := hw.offset_le hx hy
  have hdst := hw.offset_le hx habove
  have hword := hw.word
  have hpixels : y - 9 < y := by omega
  have hback : offsetOf w.info x (y - 9) + w.info.bytesPerPixel ≤ offsetOf w.info x y := by
    have hindex := @index_lt w.info x (y - 9) x y (by omega) hpixels
    have hmul := Nat.mul_le_mul_right w.info.bytesPerPixel hindex
    rwa [Nat.succ_mul] at hmul
  have hlen := length_slice w.framebuffer (offsetOf w.info x y) w.info.bytesPerPixel hsrc
  have hput : offsetOf w.info x (y - 9) + (slice w.framebuffer (offsetOf w.info x y)
      w.info.bytesPerPixel).length ≤ w.framebuffer.length := by omega
  refine ⟨w.put (offsetOf w.info x (y - 9))
    (slice w.framebuffer (offsetOf w.info x y) w.info.bytesPerPixel), ?_,
    ⟨same_put hput, ?_⟩, ?_⟩
  · rw [copyPixel, hw.pixelOffset_of hx hy, ok_bind, sub_of hrow, ok_bind,
      hw.pixelOffset_of hx habove, ok_bind, copyBytes_of hsrc hback hword]
  · intro a b ha hb hne
    apply pixel_put_of_disjoint hput
    have hdisjoint := offset_disjoint (show a < w.info.stride by omega)
      (show x < w.info.stride by omega) hne
    omega
  · have hinner := slice_splice_inner w.framebuffer _ _ (offsetOf w.info x (y - 9)) 3 hput
      (Nat.le_refl _) (by omega)
    rw [Nat.sub_self, slice_slice _ _ _ _ _ (by omega)] at hinner
    exact hinner

/-- A line of pixels that has moved up by nine. -/
theorem keeps_copyLine (hw : w.Fitting) (hy : y < w.info.height) (hrow : 9 ≤ y) :
    Returns ((List.range w.info.width).foldlM (copyPixel y) w) fun w' ↦
      Keeps (fun a b ↦ a < w.info.width ∧ b = y - 9) w w' ∧
        ∀ a < w.info.width, w'.pixel a (y - 9) = w.pixel a y := by
  apply returns_foldlM_range (P := fun x s ↦ Keeps (fun a b ↦ a < x ∧ b = y - 9) w s ∧
    ∀ a < x, s.pixel a (y - 9) = w.pixel a y)
  · rintro x s hx ⟨hs, hline⟩
    have hinfo := hs.same.info
    have hmoved := keeps_copyPixel (hs.same.fitting hw) (by rwa [hinfo]) (by rwa [hinfo]) hrow
    apply hmoved.mono
    rintro s' ⟨hs', hpixel⟩
    refine ⟨⟨hs.same.trans hs'.same, ?_⟩, ?_⟩
    · intro a b ha hb hout
      rw [hs'.kept a b (by rwa [hinfo]) (by rwa [hinfo]) (by omega),
        hs.kept a b ha hb (by omega)]
    · intro a ha
      rcases Nat.lt_succ_iff_lt_or_eq.mp ha with ha | rfl
      · rw [hs'.kept a (y - 9) (by rw [hinfo]; omega) (by rw [hinfo]; omega) (by omega)]
        exact hline a ha
      · rw [hpixel]
        exact hs.kept a y hx hy (by omega)
  · refine ⟨.refl, ?_⟩
    intro a ha
    exact absurd ha (Nat.not_lt_zero a)

/-- The lines below a line have moved up by nine. -/
structure Scrolling (y : Nat) (w w' : Writer) : Prop where
  same : Same w w'
  moved : ∀ a b, a < w.info.width → b + 9 < y → w'.pixel a b = w.pixel a (b + 9)
  rest : ∀ a b, a < w.info.width → b < w.info.height → y ≤ b + 9 → w'.pixel a b = w.pixel a b

theorem scrolling_copyLines (hw : w.Fitting) :
    Returns ((List.range' 9 (w.info.height - 9)).foldlM
      (fun w y ↦ (List.range w.info.width).foldlM (copyPixel y) w) w)
      (Scrolling w.info.height w) := by
  have hheight := hw.height
  have hloop : Returns ((List.range' 9 (w.info.height - 9)).foldlM
      (fun w y ↦ (List.range w.info.width).foldlM (copyPixel y) w) w)
      (Scrolling (9 + (w.info.height - 9)) w) := by
    apply returns_foldlM_range' (P := fun y s ↦ Scrolling y w s)
    · intro y s hrow hy hs
      have hinfo := hs.same.info
      have hlast : y < w.info.height := by omega
      apply (keeps_copyLine (hs.same.fitting hw) (by rwa [hinfo]) hrow).mono
      rintro s' ⟨hs', hline⟩
      rw [hinfo] at hline
      refine ⟨hs.same.trans hs'.same, ?_, ?_⟩
      · intro a b ha hb
        rcases Nat.lt_succ_iff_lt_or_eq.mp hb with hb | rfl
        · rw [hs'.kept a b (by rwa [hinfo]) (by rw [hinfo]; omega) (by omega)]
          exact hs.moved a b ha hb
        · rw [Nat.add_sub_cancel] at hline
          rw [hline a ha]
          exact hs.rest a (b + 9) ha hlast (by omega)
      · intro a b ha hb hrest
        rw [hs'.kept a b (by rwa [hinfo]) (by rwa [hinfo]) (by omega)]
        exact hs.rest a b ha hb (by omega)
    · refine ⟨.refl w, ?_, ?_⟩
      · intro a b _ hb
        omega
      · intro a b _ _ _
        rfl
  rwa [Nat.add_sub_cancel' hheight] at hloop

/-- The screen has moved up by nine lines of pixels, and the last nine are black. -/
structure Scrolled (w w' : Writer) : Prop where
  same : Same w w'
  moved : ∀ a b, a < w.info.width → b + 9 < w.info.height → w'.pixel a b = w.pixel a (b + 9)
  bottom : ∀ a b, a < w.info.width → b < w.info.height → w.info.height ≤ b + 9 →
    w'.pixel a b = [0, 0, 0]

theorem scrolled_scrollUp (hw : w.Fitting) (hdrawn : Drawn w.info) :
    Returns w.scrollUp (Scrolled w) := by
  have hheight := hw.height
  apply (scrolling_copyLines hw).bind
  intro w₁ h₁
  have hinfo := h₁.same.info
  apply (returns_sub (by rwa [hinfo])).bind
  rintro top rfl
  apply (filled_fill (h₁.same.fitting hw) (hinfo ▸ hdrawn) (by omega)).mono
  rw [hinfo]
  intro w₂ h₂
  refine ⟨h₁.same.trans h₂.same, ?_, ?_⟩
  · intro a b ha hb
    have hout : ¬ InRect 0 (w.info.height - 9) w.info.width
        (w.info.height - (w.info.height - 9)) a b := by
      intro hin
      have htop := hin.2.2.1
      omega
    rw [h₂.kept a b (by rwa [hinfo]) (by rw [hinfo]; omega) hout]
    exact h₁.moved a b ha hb
  · intro a b ha hb hlast
    have hin : InRect 0 (w.info.height - 9) w.info.width
        (w.info.height - (w.info.height - 9)) a b := by
      simp only [InRect]
      omega
    rw [h₂.filled a b (by rwa [hinfo]) (by rwa [hinfo]) hin, Color.bytes_black]

end Writer

end SmallOs.Screen
