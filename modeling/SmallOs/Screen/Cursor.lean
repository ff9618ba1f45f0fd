import SmallOs.Screen.Writer

/-!
# Where the screen writer writes

On a screen that fits its buffer, a pixel inside the screen has its bytes inside the buffer. The
cursor stays on a cell that lies inside the screen, through wrapped lines, scrolling and
backspaces, so whatever is written, every index is in bounds.
-/

namespace SmallOs.Screen

open SmallOs.Base SmallOs.Boot Outcome

/-- The lines of the screen lie in a buffer of `len` bytes, with room for a cell and for the
three bytes of a pixel. -/
structure Fits (info : FrameBufferInfo) (len : Nat) : Prop where
  stride : info.width ≤ info.stride
  width : 8 ≤ info.width
  height : 9 ≤ info.height
  bytes : 3 ≤ info.bytesPerPixel
  buffer : info.stride * info.height * info.bytesPerPixel ≤ len
  word : len < 2 ^ 64

namespace Fits

variable {info : FrameBufferInfo} {len x y : Nat}

/-- The bytes of a pixel lie in the buffer. -/
theorem pixel (h : Fits info len) (hx : x < info.width) (hy : y < info.height) :
    (y * info.stride + x) * info.bytesPerPixel + info.bytesPerPixel ≤ len := by
  have hline : y * info.stride + x + 1 ≤ info.stride * info.height := by
    have hwidth := h.stride
    calc y * info.stride + x + 1 ≤ y * info.stride + info.stride := by omega
      _ = info.stride * (y + 1) := by rw [Nat.mul_comm y, Nat.mul_succ]
      _ ≤ info.stride * info.height := Nat.mul_le_mul_left _ hy
  calc (y * info.stride + x) * info.bytesPerPixel + info.bytesPerPixel
      = (y * info.stride + x + 1) * info.bytesPerPixel := (Nat.succ_mul _ _).symm
    _ ≤ info.stride * info.height * info.bytesPerPixel := Nat.mul_le_mul_right _ hline
    _ ≤ len := h.buffer

/-- The width and the height are far from the largest word. -/
theorem small (h : Fits info len) : info.width + 16 < 2 ^ 64 ∧ info.height + 18 < 2 ^ 64 := by
  have hstride := h.stride
  have hwidth := h.width
  have hheight := h.height
  have hbytes := h.bytes
  have hword := h.word
  have hbuffer := h.buffer
  have hw : info.width * 9 ≤ info.stride * info.height :=
    Nat.mul_le_mul hstride hheight
  have hh : 8 * info.height ≤ info.stride * info.height :=
    Nat.mul_le_mul_right _ (hwidth.trans hstride)
  have hall : info.stride * info.height * 1 ≤ info.stride * info.height * info.bytesPerPixel :=
    Nat.mul_le_mul_left _ (by omega)
  omega

theorem pixelOffset (h : Fits info len) (hx : x < info.width) (hy : y < info.height) :
    Returns (Writer.pixelOffset info x y) fun o ↦ o + info.bytesPerPixel ≤ len := by
  have hpixel := h.pixel hx hy
  have hbytes := h.bytes
  have hword := h.word
  have hle : y * info.stride + x ≤ (y * info.stride + x) * info.bytesPerPixel :=
    Nat.le_mul_of_pos_right _ (by omega)
  apply (returns_mulAt (by omega)).bind
  rintro row rfl
  apply (returns_addAt (by omega)).bind
  rintro pixel rfl
  apply (returns_mulAt (by omega)).mono
  rintro o rfl
  exact hpixel

end Fits

namespace Writer

variable {w w' w₂ : Writer} {x y : Nat} {c : Color}

/-- Only bytes of the buffer have changed. -/
structure Same (w w' : Writer) : Prop where
  info : w'.info = w.info
  length : w'.framebuffer.length = w.framebuffer.length
  x : w'.x = w.x
  y : w'.y = w.y

theorem Same.refl (w : Writer) : Same w w := ⟨rfl, rfl, rfl, rfl⟩

theorem Same.trans (h : Same w w') (h' : Same w' w₂) : Same w w₂ :=
  ⟨h'.info.trans h.info, h'.length.trans h.length, h'.x.trans h.x, h'.y.trans h.y⟩

/-- The screen fits the buffer. -/
abbrev Fitting (w : Writer) : Prop := Fits w.info w.framebuffer.length

theorem Same.fitting (h : Same w w') (hw : w.Fitting) : w'.Fitting := by
  unfold Fitting
  rw [h.info, h.length]
  exact hw

/-- A fold of drawing steps draws. -/
theorem same_foldlM {α : Type} {f : Writer → α → Checked Writer} {l : List α}
    (hstep : ∀ w' a, a ∈ l → Same w w' → Returns (f w' a) (Same w')) :
    Returns (l.foldlM f w) (Same w) := by
  apply returns_foldlM _ (Same.refl w)
  intro w' a ha hw'
  exact (hstep w' a ha hw').mono fun _ ↦ hw'.trans

theorem same_setByte {i : Nat} {v : UInt8} (h : i < w.framebuffer.length) :
    Returns (w.setByte i v) (Same w) := by
  have hlen : i + [v].length ≤ w.framebuffer.length := h
  refine ⟨{ w with framebuffer := splice w.framebuffer i [v] }, ?_, rfl, ?_, rfl, rfl⟩
  · rw [setByte, putAt_of hlen]
    rfl
  · exact length_splice _ _ _ hlen

theorem same_setBytes {offset : Nat} {v₀ v₁ v₂ : UInt8} (hw : w.Fitting)
    (h : offset + 3 ≤ w.framebuffer.length) :
    Returns (w.setBytes offset v₀ v₁ v₂) (Same w) := by
  have hword := hw.word
  apply (same_setByte (by omega)).bind
  intro w₁ h₁
  apply (returns_addAt (by omega)).bind
  rintro o₁ rfl
  apply (same_setByte (by rw [h₁.length]; omega)).bind
  intro w₂ h₂
  apply (returns_addAt (by omega)).bind
  rintro o₂ rfl
  apply (same_setByte (by rw [h₂.length, h₁.length]; omega)).mono
  intro w₃ h₃
  exact (h₁.trans h₂).trans h₃

theorem same_writePixel (hw : w.Fitting) (hx : x < w.info.width) (hy : y < w.info.height) :
    Returns (w.writePixel x y c) (Same w) := by
  have hbytes := hw.bytes
  apply (hw.pixelOffset hx hy).bind
  intro offset hoffset
  split
  · exact same_setBytes hw (by omega)
  · exact same_setBytes hw (by omega)
  · exact ⟨w, rfl, .refl w⟩

theorem same_fill {rows columns : List Nat} (hw : w.Fitting)
    (hrows : ∀ y ∈ rows, y < w.info.height) (hcolumns : ∀ x ∈ columns, x < w.info.width) :
    Returns (w.fill rows columns c) (Same w) := by
  apply same_foldlM
  intro w₁ y hy h₁
  apply same_foldlM
  intro w₂ x hx h₂
  have h := h₁.trans h₂
  apply same_writePixel (h.fitting hw)
  · rw [h.info]
    exact hcolumns x hx
  · rw [h.info]
    exact hrows y hy

/-- The cell at a position lies on the screen. -/
structure OnScreen (info : FrameBufferInfo) (x y : Nat) : Prop where
  right : x + 8 ≤ info.width
  bottom : y + 9 ≤ info.height

/-- A pixel of a cell on the screen. -/
theorem same_writePixel_cell {col row : Nat} (hw : w.Fitting) (hxy : OnScreen w.info x y)
    (hcol : col < 8) (hrow : row < 8) :
    Returns (do w.writePixel (← addAt 64 x col) (← addAt 64 y row) c) (Same w) := by
  have hsmall := hw.small
  have hright := hxy.right
  have hbottom := hxy.bottom
  apply (returns_addAt (by omega)).bind
  rintro px rfl
  apply (returns_addAt (by omega)).bind
  rintro py rfl
  exact same_writePixel hw (by omega) (by omega)

theorem same_writeRow {row : UInt8 × Nat} (hw : w.Fitting) (hxy : OnScreen w.info x y)
    (hrow : row.2 < 8) : Returns (writeRow x y c w row) (Same w) := by
  apply same_foldlM
  intro w₁ col hcol h₁
  have hcol := List.mem_range.mp hcol
  split
  · exact same_writePixel_cell (h₁.fitting hw) (h₁.info ▸ hxy) hcol hrow
  · exact ⟨w₁, rfl, .refl w₁⟩

theorem same_writeChar {font : Font} {ch : Char} (hspace : (font ' ').isSome) (hw : w.Fitting)
    (hxy : OnScreen w.info x y) : Returns (w.writeChar font x y ch c) (Same w) := by
  obtain ⟨blank, hblank⟩ := Option.isSome_iff_exists.mp hspace
  simp only [writeChar, hblank]
  apply same_foldlM
  intro w₁ row hrow h₁
  have hlt := (List.mem_zipIdx' hrow).1
  rw [Vector.length_toList] at hlt
  exact same_writeRow (h₁.fitting hw) (h₁.info ▸ hxy) hlt

theorem same_eraseCell (hw : w.Fitting) (hxy : OnScreen w.info w.x w.y) :
    Returns w.eraseCell (Same w) := by
  apply same_foldlM
  intro w₁ row hrow h₁
  apply same_foldlM
  intro w₂ col hcol h₂
  have h := h₁.trans h₂
  have hxy₂ : OnScreen w₂.info w₂.x w₂.y := by
    rw [h.info, h.x, h.y]
    exact hxy
  exact same_writePixel_cell (h.fitting hw) hxy₂ (List.mem_range.mp hcol) (List.mem_range.mp hrow)

/-! ### Scrolling -/

theorem same_copyByte {src dst i : Nat} (hword : w.framebuffer.length < 2 ^ 64)
    (hsrc : src + i < w.framebuffer.length) (hdst : dst + i < w.framebuffer.length) :
    Returns (copyByte src dst w i) (Same w) := by
  apply (returns_addAt (by omega)).bind
  rintro s rfl
  have hslice : sliceAt (ε := Empty) w.framebuffer (src + i) 1 = .ok (slice w.framebuffer _ 1) :=
    sliceAt_of hsrc
  rw [hslice, ok_bind]
  apply (returns_addAt (by omega)).bind
  rintro d rfl
  exact same_setByte hdst

theorem same_copyPixel (hw : w.Fitting) (hx : x < w.info.width) (hy : y < w.info.height)
    (hrow : 9 ≤ y) : Returns (copyPixel y w x) (Same w) := by
  apply (hw.pixelOffset hx hy).bind
  intro src hsrc
  apply (returns_sub hrow).bind
  rintro above rfl
  apply (hw.pixelOffset hx (Nat.lt_of_le_of_lt (Nat.sub_le _ _) hy)).bind
  intro dst hdst
  apply same_foldlM
  intro w₁ i hi h₁
  have hi := List.mem_range.mp hi
  have hword := hw.word
  apply same_copyByte
  · rw [h₁.length]
    exact hword
  · rw [h₁.length]
    omega
  · rw [h₁.length]
    omega

theorem same_scrollUp (hw : w.Fitting) : Returns w.scrollUp (Same w) := by
  have hheight := hw.height
  have hlines : Returns ((List.range' 9 (w.info.height - 9)).foldlM
      (fun w y ↦ (List.range w.info.width).foldlM (copyPixel y) w) w) (Same w) := by
    apply same_foldlM
    intro w₁ y hy h₁
    have hy := List.mem_range'_1.mp hy
    apply same_foldlM
    intro w₂ x hx h₂
    have hx := List.mem_range.mp hx
    apply same_copyPixel ((h₁.trans h₂).fitting hw) _ _ hy.1
    · rw [h₂.info]
      exact hx
    · rw [h₂.info, h₁.info]
      omega
  apply hlines.bind
  intro w₁ h₁
  apply (returns_sub (by rw [h₁.info]; exact hheight)).bind
  rintro top rfl
  apply (same_fill (h₁.fitting hw) _ fun _ ↦ List.mem_range.mp).mono fun _ ↦ h₁.trans
  intro y hy
  have hy := List.mem_range'_1.mp hy
  omega

/-! ### The cursor -/

/-- The cursor is on a cell of the screen, in a column and on a line of cells. -/
structure Cursor (w : Writer) : Prop where
  right : w.x + 8 ≤ w.info.width
  bottom : w.y + 9 ≤ w.info.height
  column : 8 ∣ w.x
  line : 9 ∣ w.y

/-- A writer on a screen that fits its buffer, with its cursor on a cell. -/
structure Sound (info : FrameBufferInfo) (len : Nat) (w : Writer) : Prop where
  fits : Fits info len
  info : w.info = info
  length : w.framebuffer.length = len
  cursor : w.Cursor

variable {info : FrameBufferInfo} {len : Nat}

theorem Sound.fitting (h : Sound info len w) : w.Fitting := by
  unfold Fitting
  rw [h.info, h.length]
  exact h.fits

theorem Sound.onScreen (h : Sound info len w) : OnScreen w.info w.x w.y :=
  ⟨h.cursor.right, h.cursor.bottom⟩

/-- Drawing leaves the cursor where it is. -/
theorem Sound.same (h : Sound info len w) (hs : Same w w') : Sound info len w' := by
  refine ⟨h.fits, hs.info.trans h.info, hs.length.trans h.length, ?_, ?_, ?_, ?_⟩
  · rw [hs.x, hs.info]
    exact h.cursor.right
  · rw [hs.y, hs.info]
    exact h.cursor.bottom
  · rw [hs.x]
    exact h.cursor.column
  · rw [hs.y]
    exact h.cursor.line

/-- The next line starts on a cell, on the line below or on the last one after scrolling. -/
theorem sound_newLine (hw : w.Fitting) (hbottom : w.y + 9 ≤ w.info.height) (hline : 9 ∣ w.y) :
    Returns w.newLine (Sound w.info w.framebuffer.length) := by
  have hsmall := hw.small
  have hwidth := hw.width
  unfold newLine
  apply (returns_addAt (by omega)).bind
  rintro y rfl
  apply (returns_addAt (by simp only; omega)).bind
  rintro below rfl
  split
  · apply (same_scrollUp (w := { w with x := 0, y := w.y + 9 }) hw).bind
    intro w₁ h₁
    apply (returns_sub (by rw [h₁.y]; exact Nat.le_add_left _ _)).bind
    rintro top rfl
    have htop : w₁.y - 9 = w.y := by
      rw [h₁.y]
      exact Nat.add_sub_cancel _ _
    refine ⟨_, rfl, hw, h₁.info, h₁.length, ?_, ?_, ?_, ?_⟩
    · change w₁.x + 8 ≤ w₁.info.width
      rw [h₁.x, h₁.info]
      exact hwidth
    · change w₁.y - 9 + 9 ≤ w₁.info.height
      rw [htop, h₁.info]
      exact hbottom
    · change 8 ∣ w₁.x
      rw [h₁.x]
      exact Nat.dvd_zero 8
    · change 9 ∣ w₁.y - 9
      rw [htop]
      exact hline
  · next hroom =>
    refine ⟨_, rfl, hw, rfl, rfl, hwidth, ?_, Nat.dvd_zero 8, ?_⟩
    · exact Nat.le_of_not_lt hroom
    · exact Nat.dvd_add hline (Nat.dvd_refl 9)

/-- A backspace goes to the cell in front, or to the last cell of the line above. -/
theorem sound_stepBack (h : Sound info len w) : Returns w.stepBack (Sound info len) := by
  have hsmall := h.fitting.small
  have hwidth := h.fitting.width
  obtain ⟨hright, hbottom, hcolumn, hline⟩ := h.cursor
  unfold stepBack
  split
  · refine ⟨_, rfl, h.fits, h.info, h.length, ?_, hbottom, ?_, hline⟩
    · change w.x - 8 + 8 ≤ w.info.width
      omega
    · exact Nat.dvd_sub hcolumn (Nat.dvd_refl 8)
  · split
    · apply (returns_mulAt (by omega)).bind
      rintro columns rfl
      apply (returns_sub (by omega)).bind
      rintro x rfl
      refine ⟨_, rfl, h.fits, h.info, h.length, ?_, ?_, ?_, ?_⟩
      · change w.info.width / 8 * 8 - 8 + 8 ≤ w.info.width
        omega
      · change w.y - 9 + 9 ≤ w.info.height
        omega
      · exact Nat.dvd_sub (Nat.dvd_mul_left 8 _) (Nat.dvd_refl 8)
      · exact Nat.dvd_sub hline (Nat.dvd_refl 9)
    · exact ⟨w, rfl, h⟩

/-- One character keeps the cursor on a cell, and no index leaves the buffer. -/
theorem sound_writeCharAtCursor {font : Font} (hspace : (font ' ').isSome)
    (h : Sound info len w) (ch : Char) :
    Returns (writeCharAtCursor font c w ch) (Sound info len) := by
  unfold writeCharAtCursor
  split
  · apply (sound_stepBack h).bind
    intro w₁ h₁
    exact (same_eraseCell h₁.fitting h₁.onScreen).mono fun _ ↦ h₁.same
  · split
    · have hnew := sound_newLine h.fitting h.cursor.bottom h.cursor.line
      rw [h.info, h.length] at hnew
      exact hnew
    · apply (same_writeChar hspace h.fitting h.onScreen).bind
      intro w₁ hw₁
      have h₁ := h.same hw₁
      have hsmall := h₁.fitting.small
      have hright := h₁.cursor.right
      apply (returns_addAt (by omega)).bind
      rintro x rfl
      apply (returns_addAt (by simp only; omega)).bind
      rintro next rfl
      split
      · have hnew := sound_newLine (w := { w₁ with x := w₁.x + 8 }) h₁.fitting h₁.cursor.bottom
          h₁.cursor.line
        rw [← h₁.info, ← h₁.length]
        exact hnew
      · next hroom =>
        refine ⟨_, rfl, h₁.fits, h₁.info, h₁.length, ?_, h₁.cursor.bottom, ?_, h₁.cursor.line⟩
        · exact Nat.le_of_not_lt hroom
        · exact Nat.dvd_add h₁.cursor.column (Nat.dvd_refl 8)

theorem sound_writeStringAtCursor {font : Font} (hspace : (font ' ').isSome)
    (h : Sound info len w) (s : List Char) :
    Returns (w.writeStringAtCursor font s c) (Sound info len) :=
  returns_foldlM (fun _ ch _ hw ↦ sound_writeCharAtCursor hspace hw ch) h

end Writer

/-- Whatever strings are written to a fresh screen, no index leaves the buffer, and after the
characters `s` of the next string the cursor is on a cell of the screen. -/
theorem cursor_inside (font : Font) (hspace : (font ' ').isSome) (buffer : List UInt8)
    (info : FrameBufferInfo) (hfits : Fits info buffer.length)
    (texts : List (List Char × Color)) (s : List Char) (c : Color) :
    Returns (do
        let w ← texts.foldlM (fun w t ↦ w.writeStringAtCursor font t.1 t.2)
          (Writer.new buffer info)
        w.writeStringAtCursor font s c)
      fun w ↦ w.x + 8 ≤ info.width ∧ w.y + 9 ≤ info.height ∧ 8 ∣ w.x ∧ 9 ∣ w.y := by
  have hnew : Writer.Sound info buffer.length (Writer.new buffer info) := by
    refine ⟨hfits, rfl, rfl, ?_, ?_, Nat.dvd_zero 8, Nat.dvd_zero 9⟩
    · change 0 + 8 ≤ info.width
      have := hfits.width
      omega
    · change 0 + 9 ≤ info.height
      have := hfits.height
      omega
  have htexts : Returns (texts.foldlM (fun w t ↦ w.writeStringAtCursor font t.1 t.2)
      (Writer.new buffer info)) (Writer.Sound info buffer.length) :=
    returns_foldlM (fun _ t _ hw ↦ Writer.sound_writeStringAtCursor hspace hw t.1) hnew
  apply htexts.bind
  intro w hw
  apply (Writer.sound_writeStringAtCursor hspace hw s).mono
  intro w' hw'
  have hcursor := hw'.cursor
  rw [← hw'.info]
  exact ⟨hcursor.right, hcursor.bottom, hcursor.column, hcursor.line⟩

/-- The bitmaps of a space and of the letter A. -/
def sampleFont : Font
  | ' ' => some #v[0, 0, 0, 0, 0, 0, 0, 0]
  | 'A' => some #v[0x0C, 0x1E, 0x33, 0x33, 0x3F, 0x33, 0x33, 0x00]
  | _ => none

/-- A screen of two cells by one scrolls, wraps and erases within its buffer. -/
theorem cursor_inside_two_cells :
    Returns (do
        let w ← [(['A', '\n', 'A'], Color.black)].foldlM
          (fun w t ↦ w.writeStringAtCursor sampleFont t.1 t.2)
          (Writer.new (List.replicate 576 0) ⟨0, 576, 16, 12, 16, 3, 0⟩)
        w.writeStringAtCursor sampleFont ['A', '\x08'] ⟨255, 255, 0⟩)
      fun w ↦ w.x + 8 ≤ 16 ∧ w.y + 9 ≤ 12 ∧ 8 ∣ w.x ∧ 9 ∣ w.y := by
  have hfits : Fits ⟨0, 576, 16, 12, 16, 3, 0⟩ (List.replicate 576 (0 : UInt8)).length := by
    rw [List.length_replicate]
    constructor <;> decide
  exact cursor_inside sampleFont rfl (List.replicate 576 0) ⟨0, 576, 16, 12, 16, 3, 0⟩ hfits _ _ _

end SmallOs.Screen
