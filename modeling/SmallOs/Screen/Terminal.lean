import SmallOs.Base.Scrollback
import SmallOs.Screen.Cells

/-!
# What the screen shows

The screen as a page of glyphs: a character in its color for every cell in front of the cursor that
has one. Every pixel of the framebuffer is drawn from that page, whatever has been written since the
screen was cleared: no ink is left from a character that was erased or that moved up, and the rows
and columns of pixels that belong to no cell stay black.
-/

namespace SmallOs.Screen

open SmallOs.Base SmallOs.Boot Outcome

/-- A character in its color. -/
abbrev Glyph := Char × Color

/-- Whether a pixel of a bitmap is set; `kernel/src/screen/mod.rs:58`. -/
def Inked (bitmap : List UInt8) (row col : Nat) : Prop :=
  (bitmap.getD row 0 >>> UInt8.ofNat col) &&& 1 = 1

instance (bitmap : List UInt8) (row col : Nat) : Decidable (Inked bitmap row col) :=
  inferInstanceAs (Decidable (_ = _))

/-- The bitmap of a character, or that of a space. -/
def bitmapOf (font : Font) (ch : Char) : List UInt8 :=
  ((font ch <|> font ' ').map Vector.toList).getD []

/-- A pixel of a cell. -/
def glyphPixel (font : Font) (info : FrameBufferInfo) : Option Glyph → Nat → Nat → List UInt8
  | none, _, _ => [0, 0, 0]
  | some (ch, c), row, col =>
    if Inked (bitmapOf font ch) row col then c.bytes info else [0, 0, 0]

/-- The pixel belongs to a cell: it is not in the row between two lines, nor in what is left of the
screen to the right of the last column or below the last line. -/
def InCells (info : FrameBufferInfo) (a b : Nat) : Prop :=
  a / 8 < columns info ∧ b / 9 < info.height / 9 ∧ b % 9 < 8

instance (info : FrameBufferInfo) (a b : Nat) : Decidable (InCells info a b) :=
  inferInstanceAs (Decidable (_ ∧ _))

/-- The cell of a pixel. -/
def cellOf (info : FrameBufferInfo) (a b : Nat) : Nat := b / 9 * columns info + a / 8

/-- A pixel of the screen. -/
def picture (font : Font) (info : FrameBufferInfo) (text : List (Option Glyph)) (a b : Nat) :
    List UInt8 :=
  if InCells info a b then glyphPixel font info (shown text (cellOf info a b)) (b % 9) (a % 8)
  else [0, 0, 0]

/-- Text that is shown alike is drawn alike. -/
theorem picture_congr {font : Font} {info : FrameBufferInfo} {text text' : List (Option Glyph)}
    {a b : Nat} (h : InCells info a b → shown text' (cellOf info a b) =
      shown text (cellOf info a b)) : picture font info text' a b = picture font info text a b := by
  unfold picture
  split
  · next hin => rw [h hin]
  · rfl

/-- Nothing is drawn behind the text. -/
theorem picture_of_le {font : Font} {info : FrameBufferInfo} {text : List (Option Glyph)}
    {a b : Nat} (h : InCells info a b → text.length ≤ cellOf info a b) :
    picture font info text a b = [0, 0, 0] := by
  unfold picture
  split
  · next hin =>
    rw [shown_of_le (h hin)]
    rfl
  · rfl

/-- The cells of the screen, as a page. -/
def page {info : FrameBufferInfo} {len : Nat} (h : Fits info len) : Page where
  columns := columns info
  lines := info.height / 9
  columns_pos := Writer.columns_pos h
  lines_pos := Nat.div_pos h.height (by decide)

namespace Writer

variable {w w' : Writer} {info : FrameBufferInfo} {len x y : Nat} {c : Color} {font : Font}
  {ch : Char} {text : List (Option Glyph)}

/-- Every pixel is drawn from the text. -/
def Pictures (font : Font) (w : Writer) (text : List (Option Glyph)) : Prop :=
  ∀ a b, a < w.info.width → b < w.info.height → w.pixel a b = picture font w.info text a b

/-! ### A character -/

/-- The pixels that a bitmap sets in a box, down to a row and, in that row, a column. -/
def Ink (bitmap : List UInt8) (x y rows a b : Nat) : Prop :=
  InRect x y 8 rows a b ∧ Inked bitmap (b - y) (a - x)

theorem filled_writeRow {bitmap : List UInt8} {i : Nat} {byte : UInt8} (hw : w.Fitting)
    (hdrawn : Drawn w.info) (hxy : OnScreen w.info x y) (hi : i < 8) (hbyte : bitmap[i]? = some byte) :
    Returns (writeRow x y c w (byte, i))
      (Filled (fun a b ↦ InRect x (y + i) 8 1 a b ∧ Inked bitmap i (a - x)) c w) := by
  have hsmall := hw.small
  have hright := hxy.right
  have hbottom := hxy.bottom
  have hget : bitmap.getD i 0 = byte := by rw [List.getD_eq_getElem?_getD, hbyte, Option.getD_some]
  apply returns_foldlM_range (P := fun col s ↦
    Filled (fun a b ↦ InRect x (y + i) col 1 a b ∧ Inked bitmap i (a - x)) c w s)
  · intro col s hcol hs
    have hinfo := hs.same.info
    split
    · next hset =>
      rw [addAt_of (by omega), ok_bind, addAt_of (by omega), ok_bind]
      apply (filled_writePixel (hs.same.fitting hw) (hinfo ▸ hdrawn) (by rw [hinfo]; omega)
        (by rw [hinfo]; omega)).mono
      intro s' hs'
      apply hs.trans hs'
      intro a b
      constructor
      · rintro ⟨hin, hink⟩
        simp only [InRect] at hin ⊢
        by_cases hlast : a = x + col
        · exact .inr ⟨hlast, by omega⟩
        · exact .inl ⟨by omega, hink⟩
      · rintro (⟨hin, hink⟩ | ⟨rfl, rfl⟩)
        · refine ⟨?_, hink⟩
          simp only [InRect] at hin ⊢
          omega
        · refine ⟨?_, ?_⟩
          · simp only [InRect]
            omega
          · rw [Inked, Nat.add_sub_cancel_left, hget]
            exact hset
    · next hclear =>
      refine ⟨s, rfl, hs.trans (.empty fun _ _ (h : False) ↦ h) ?_⟩
      intro a b
      rw [or_false]
      constructor
      · rintro ⟨hin, hink⟩
        refine ⟨?_, hink⟩
        have hne : a ≠ x + col := by
          rintro rfl
          rw [Inked, Nat.add_sub_cancel_left, hget] at hink
          exact hclear hink
        simp only [InRect] at hin ⊢
        omega
      · rintro ⟨hin, hink⟩
        refine ⟨?_, hink⟩
        simp only [InRect] at hin ⊢
        omega
  · apply Filled.empty
    rintro a b ⟨hin, -⟩
    simp only [InRect] at hin
    omega

/-- The pixels that the bitmap of a character sets are drawn, and no other ones. -/
theorem filled_writeChar (hspace : (font ' ').isSome) (hw : w.Fitting) (hdrawn : Drawn w.info)
    (hxy : OnScreen w.info x y) :
    Returns (w.writeChar font x y ch c) (Filled (Ink (bitmapOf font ch) x y 8) c w) := by
  obtain ⟨blank, hblank⟩ := Option.isSome_iff_exists.mp hspace
  have hbitmap : bitmapOf font ch = ((font ch).getD blank).toList := by
    rw [bitmapOf, hblank]
    cases font ch with
    | none => rfl
    | some v => rfl
  have hlength : (bitmapOf font ch).length = 8 := by rw [hbitmap, Vector.length_toList]
  simp only [writeChar, hblank, ← hbitmap]
  rw [← hlength]
  apply returns_foldlM_zipIdx (P := fun i s ↦ Filled (Ink (bitmapOf font ch) x y i) c w s)
  · intro i s byte hbyte hs
    have hi : i < 8 := by
      rw [← hlength]
      exact (List.getElem?_eq_some_iff.mp hbyte).1
    have hinfo := hs.same.info
    apply (filled_writeRow (hs.same.fitting hw) (hinfo ▸ hdrawn) (hinfo ▸ hxy) hi hbyte).mono
    intro s' hs'
    apply hs.trans hs'
    intro a b
    constructor
    · rintro ⟨hin, hink⟩
      simp only [InRect] at hin ⊢
      by_cases hlast : b = y + i
      · refine .inr ⟨by omega, ?_⟩
        rwa [hlast, Nat.add_sub_cancel_left] at hink
      · exact .inl ⟨by simp only [InRect]; omega, hink⟩
    · rintro (⟨hin, hink⟩ | ⟨hin, hink⟩)
      · refine ⟨?_, hink⟩
        simp only [InRect] at hin ⊢
        omega
      · simp only [InRect] at hin
        have hlast : b - y = i := by omega
        refine ⟨?_, ?_⟩
        · simp only [InRect]
          omega
        · rwa [hlast]
  · apply Filled.empty
    rintro a b ⟨hin, -⟩
    simp only [InRect] at hin
    omega

/-- A pixel of the cell of the cursor is a pixel of its box. -/
theorem Sound.inBox_iff (hs : Sound info len w) {a b : Nat} :
    InBox w.x w.y a b ↔ InCells info a b ∧ cellOf info a b = w.index := by
  have hcolumn := hs.column_lt
  have hrow := hs.row_lt
  have hx := hs.cursor.column
  have hy := hs.cursor.line
  constructor
  · intro hin
    simp only [InRect] at hin
    have hcol : a / 8 = w.x / 8 := by omega
    have hline : b / 9 = w.y / 9 := by omega
    refine ⟨⟨hcol ▸ hcolumn, hline ▸ hrow, by omega⟩, ?_⟩
    rw [cellOf, index, hs.info, hcol, hline]
  · rintro ⟨⟨hcol, hline, hgap⟩, hcell⟩
    have hplace := @cell_place info (b / 9) (a / 8) hcol
    have hcursor := @cell_place info (w.y / 9) (w.x / 8) hcolumn
    rw [cellOf, index, hs.info] at hcell
    rw [hcell] at hplace
    have hcols : a / 8 = w.x / 8 := hplace.1.symm.trans hcursor.1
    have hlines : b / 9 = w.y / 9 := hplace.2.symm.trans hcursor.2
    simp only [InRect]
    omega

/-- A character is drawn behind the text. -/
theorem pictures_writeChar (hspace : (font ' ').isSome) (hs : Sound info len w)
    (hdrawn : Drawn info) (hp : Pictures font w text) (hlen : text.length = w.index) :
    Returns (w.writeChar font w.x w.y ch c) fun w' ↦
      Same w w' ∧ Pictures font w' (text ++ [some (ch, c)]) := by
  apply (filled_writeChar hspace hs.fitting (hs.info ▸ hdrawn) hs.onScreen).mono
  intro w' h
  refine ⟨h.same, ?_⟩
  intro a b ha hb
  rw [h.same.info] at ha hb ⊢
  by_cases hin : InBox w.x w.y a b
  · obtain ⟨hcells, hcell⟩ := hs.inBox_iff.mp hin
    have hx := hs.cursor.column
    have hy := hs.cursor.line
    rw [hs.info, picture, if_pos hcells, hcell, ← hlen, shown_append_self, glyphPixel]
    simp only [InRect] at hin
    have hrow : b % 9 = b - w.y := by omega
    have hcol : a % 8 = a - w.x := by omega
    have hin : InBox w.x w.y a b := hin
    rw [hrow, hcol]
    split
    · next hink =>
      rw [h.filled a b ha hb ⟨hin, hink⟩, hs.info]
    · next hclear =>
      rw [h.kept a b ha hb fun hink ↦ hclear hink.2, hp a b ha hb]
      apply picture_of_le
      intro _
      rw [hs.info, hcell, hlen]
  · rw [h.kept a b ha hb fun hink ↦ hin hink.1, hp a b ha hb, hs.info]
    symm
    apply picture_congr
    intro hcells
    have hne : cellOf info a b ≠ text.length := by
      intro he
      exact hin (hs.inBox_iff.mpr ⟨hcells, he.trans hlen⟩)
    by_cases hlt : cellOf info a b < text.length
    · exact shown_append_left hlt
    · rw [shown_of_le (Nat.le_of_not_lt hlt), shown_of_le]
      rw [List.length_append, List.length_singleton]
      omega

/-! ### The next line -/

/-- The writer shows the text of the page, with the cursor behind it. -/
structure Shows (font : Font) {info : FrameBufferInfo} {len : Nat} (h : Fits info len)
    (w : Writer) (t : Scrollback Glyph (page h)) : Prop extends Sound info len w where
  pictures : Pictures font w t.text
  index : w.index = t.text.length

/-- A screen that has moved up shows the text without its first line. -/
theorem pictures_scrolled (hw : w.Fitting) (h : Scrolled w w') (hp : Pictures font w text)
    (hlen : text.length ≤ cells w.info) : Pictures font w' (text.drop (columns w.info)) := by
  intro a b ha hb
  have hinfo := h.same.info
  have hlines : (w.info.height / 9 - 1 + 1) = w.info.height / 9 :=
    Nat.sub_add_cancel (Nat.div_pos hw.height (by decide))
  have hlast : (w.info.height / 9 - 1) * columns w.info + columns w.info =
      w.info.height / 9 * columns w.info := by rw [← Nat.add_one_mul, hlines]
  have hcells : cells w.info = w.info.height / 9 * columns w.info := Nat.mul_comm _ _
  rw [hinfo] at ha hb ⊢
  -- the cells of the last line are behind the text that is left
  have hbehind : b / 9 = w.info.height / 9 - 1 →
      picture font w.info (text.drop (columns w.info)) a b = [0, 0, 0] := by
    intro hb'
    apply picture_of_le
    intro _
    rw [List.length_drop, cellOf, hb']
    omega
  by_cases hmoved : b + 9 < w.info.height
  · rw [h.moved a b ha hmoved, hp a (b + 9) ha hmoved]
    by_cases hline : b / 9 + 1 < w.info.height / 9
    · have hiff : InCells w.info a (b + 9) ↔ InCells w.info a b := by
        simp only [InCells]
        omega
      have hcell : cellOf w.info a (b + 9) = cellOf w.info a b + columns w.info := by
        rw [cellOf, cellOf, Nat.add_div_right _ (by decide), Nat.succ_mul, Nat.add_right_comm]
      simp only [picture, hiff, hcell, shown_drop, Nat.add_mod_right]
    · rw [hbehind (by omega), picture, if_neg]
      rintro ⟨-, hin, -⟩
      omega
  · rw [h.bottom a b ha hb (by omega)]
    by_cases hline : b / 9 + 1 = w.info.height / 9
    · exact (hbehind (by omega)).symm
    · rw [picture, if_neg]
      rintro ⟨-, hin, -⟩
      omega

/-- Behind a text that ends with its line, the cursor goes to the next one. -/
theorem shows_newLine (hw : Fits info len) (hinfo : w.info = info)
    (hlength : w.framebuffer.length = len) (hdrawn : Drawn info) (hbottom : w.y + 9 ≤ info.height)
    (hline : 9 ∣ w.y) (hp : Pictures font w text)
    (hlen : text.length = (w.y / 9 + 1) * columns info) (t : Scrollback Glyph (page hw))
    (ht : t.text = Scrollback.scroll (page hw) text) :
    Returns w.newLine fun w' ↦ Shows font hw w' t := by
  have hfitting : w.Fitting := by
    unfold Fitting
    rw [hinfo, hlength]
    exact hw
  have hsound := sound_newLine hfitting (hinfo ▸ hbottom) hline
  rw [hinfo, hlength] at hsound
  have hpage : (page hw).cells = info.height / 9 * columns info := Nat.mul_comm _ _
  suffices hrest : Returns w.newLine fun w' ↦ Pictures font w' t.text ∧
      w'.index = t.text.length by
    apply (hsound.and hrest).mono
    rintro w' ⟨hs, hp', hi⟩
    exact ⟨hs, hp', hi⟩
  rw [ht, Scrollback.scroll]
  by_cases hroom : w.y + 18 ≤ w.info.height
  · refine ⟨_, newLine_of_room hfitting hroom, ?_⟩
    have hnext : w.y / 9 + 1 + 1 ≤ info.height / 9 := by
      rw [hinfo] at hroom
      omega
    have hcells : (w.y / 9 + 1 + 1) * columns info ≤ info.height / 9 * columns info :=
      Nat.mul_le_mul_right _ hnext
    have hcolumns := columns_pos hw
    rw [Nat.succ_mul] at hcells
    rw [if_pos (by omega)]
    refine ⟨hp, ?_⟩
    simp only [Writer.index, hinfo, hlen, Nat.add_div_right _ (show 0 < 9 by decide), Nat.zero_div,
      Nat.add_zero]
  · have hlast : w.y / 9 + 1 = info.height / 9 := by
      rw [hinfo] at hroom
      omega
    rw [if_neg (by rw [hlen, hlast, hpage]; exact Nat.lt_irrefl _)]
    apply (newLine_of_full hfitting (hinfo ▸ hdrawn) (hinfo ▸ hbottom)
      (Nat.lt_of_not_le hroom)).mono
    rintro w' ⟨w₁, h₁, rfl⟩
    have hmoved : Pictures font w₁ (text.drop (columns w.info)) :=
      pictures_scrolled (w := { w with x := 0, y := w.y + 9 }) hfitting h₁ hp (by
        rw [hlen, hlast, hinfo, cells, Nat.mul_comm])
    rw [hinfo] at hmoved
    refine ⟨hmoved, ?_⟩
    change w.y / 9 * columns w₁.info + w₁.x / 8 = _
    rw [h₁.same.info, h₁.same.x, List.length_drop, hlen]
    change w.y / 9 * columns w.info + 0 / 8 = (w.y / 9 + 1) * columns info - columns info
    rw [hinfo, Nat.succ_mul, Nat.add_sub_cancel, Nat.zero_div, Nat.add_zero]

/-! ### One character -/

section Step

variable {h : Fits info len} {t : Scrollback Glyph (page h)}

/-- Behind a character the cursor is at the next cell, or at the start of the next line. -/
theorem shows_printed (hspace : (font ' ').isSome) (hdrawn : Drawn info) (hs : Shows font h w t)
    (hback : ch ≠ '\x08') (hnew : ch ≠ '\n') :
    Returns (writeCharAtCursor font c w ch) fun w' ↦ Shows font h w' (t.put (ch, c)) := by
  have hlen := hs.index.symm
  have hcolumns := hs.column_lt
  unfold writeCharAtCursor
  rw [if_neg hback, if_neg hnew]
  apply (pictures_writeChar hspace hs.toSound hdrawn hs.pictures hlen).bind
  rintro w₁ ⟨hsame, hp₁⟩
  have hs₁ := hs.toSound.same hsame
  have hsmall := hs₁.fitting.small
  have hright := hs₁.cursor.right
  have hcolumn := hs₁.cursor.column
  have hindex : w₁.index = w.index := by rw [index, index, hsame.info, hsame.x, hsame.y]
  have hplace : w₁.index = w₁.y / 9 * columns info + w₁.x / 8 := by rw [index, hs₁.info]
  have hwide : columns info = w₁.info.width / 8 := by
    rw [hs₁.info]
    rfl
  have hlength : (t.text ++ [some (ch, c)]).length = w₁.y / 9 * columns info + w₁.x / 8 + 1 := by
    rw [List.length_append, List.length_singleton, hlen, ← hindex, hplace]
  apply (returns_addAt (by omega)).bind
  rintro x rfl
  apply (returns_addAt (by simp only; omega)).bind
  rintro next rfl
  split
  · next hfull =>
    simp only at hfull
    have hlast : w₁.x / 8 + 1 = columns info := by omega
    apply shows_newLine (w := { w₁ with x := w₁.x + 8 }) h hs₁.info hs₁.length hdrawn
      (hs₁.info ▸ hs₁.cursor.bottom) hs₁.cursor.line hp₁ _ _ rfl
    rw [hlength, Nat.add_assoc, hlast, Nat.add_one_mul]
  · next hroom =>
    simp only at hroom
    have hs₂ : Sound info len { w₁ with x := w₁.x + 8 } := by
      refine ⟨h, hs₁.info, hs₁.length, ?_, hs₁.cursor.bottom, ?_, hs₁.cursor.line⟩
      · exact Nat.le_of_not_lt hroom
      · exact Nat.dvd_add hcolumn (Nat.dvd_refl 8)
    have hnext : ({ w₁ with x := w₁.x + 8 } : Writer).index =
        (t.text ++ [some (ch, c)]).length := by
      rw [hlength]
      simp only [index, hs₁.info, Nat.add_div_right _ (show 0 < 8 by decide)]
      rfl
    have hlt : (t.text ++ [some (ch, c)]).length < (page h).cells := by
      rw [← hnext]
      exact hs₂.index_lt
    have htext : (t.put (ch, c)).text = t.text ++ [some (ch, c)] := if_pos hlt
    refine ⟨_, rfl, hs₂, ?_, ?_⟩
    · rw [htext]
      exact hp₁
    · rw [htext]
      exact hnext

/-- A new line. -/
theorem shows_nextLine (hdrawn : Drawn info) (hs : Shows font h w t) :
    Returns (writeCharAtCursor font c w '\n') fun w' ↦ Shows font h w' t.newLine := by
  have hcolumns := hs.column_lt
  rw [writeCharAtCursor, if_neg (by decide), if_pos rfl]
  apply shows_newLine h hs.info hs.length hdrawn (hs.info ▸ hs.cursor.bottom) hs.cursor.line _ _ _
    rfl
  · intro a b ha hb
    rw [hs.pictures a b ha hb]
    apply picture_congr
    intro _
    exact shown_append_none.symm
  · have hline : w.index / columns info = w.y / 9 := by
      rw [index, hs.info]
      exact (cell_place hcolumns).2
    have hnext : (page h).nextLine t.text.length = (t.text.length / columns info + 1) *
        columns info := rfl
    rw [t.length_padded, hnext, ← hs.index, hline]

/-- A backspace. -/
theorem shows_erased (hspace : (font ' ').isSome) (hdrawn : Drawn info) (hs : Shows font h w t) :
    Returns (writeCharAtCursor font c w '\x08') fun w' ↦ Shows font h w' t.erase := by
  suffices hrest : Returns (writeCharAtCursor font c w '\x08') fun w' ↦
      Pictures font w' t.erase.text ∧ w'.index = t.erase.text.length by
    apply ((sound_writeCharAtCursor hspace hs.toSound '\x08').and hrest).mono
    rintro w' ⟨hs', hp', hi⟩
    exact ⟨hs', hp', hi⟩
  have herase : t.erase.text = t.text.dropLast := rfl
  rw [writeCharAtCursor, if_pos rfl]
  apply ((sound_stepBack hs.toSound).and ((index_stepBack hs.toSound).and
    (pixel_stepBack hs.toSound))).bind
  rintro w₁ ⟨hs₁, ⟨hindex, hinfo, -⟩, hpixel⟩
  apply (filled_eraseCell hs₁.fitting (hs₁.info ▸ hdrawn) hs₁.onScreen).mono
  intro w₂ h₂
  rw [herase, List.length_dropLast, ← hs.index, ← hindex]
  refine ⟨?_, ?_⟩
  · intro a b ha hb
    rw [h₂.same.info] at ha hb ⊢
    by_cases hin : InBox w₁.x w₁.y a b
    · obtain ⟨-, hcell⟩ := hs₁.inBox_iff.mp hin
      rw [h₂.filled a b ha hb hin, Color.bytes_black]
      symm
      apply picture_of_le
      intro _
      rw [hs₁.info, hcell, hindex, hs.index, List.length_dropLast]
    · rw [h₂.kept a b ha hb hin, hpixel, hs.pictures a b (hinfo ▸ ha) (hinfo ▸ hb), ← hinfo,
        hs₁.info]
      symm
      apply picture_congr
      intro hcells
      apply shown_dropLast
      intro he
      rw [← hs.index, ← hindex] at he
      exact hin (hs₁.inBox_iff.mpr ⟨hcells, he⟩)
  · rw [index, index, h₂.same.info, h₂.same.x, h₂.same.y]

end Step

end Writer

/-! ### What is written -/

variable {p : Page}

/-- A character on the page. -/
def type (c : Color) (t : Scrollback Glyph p) (ch : Char) : Scrollback Glyph p :=
  if ch = '\x08' then t.erase else if ch = '\n' then t.newLine else t.put (ch, c)

/-- Texts in their colors on the page. -/
def typed (t : Scrollback Glyph p) (texts : List (List Char × Color)) : Scrollback Glyph p :=
  texts.foldl (fun t s ↦ s.1.foldl (type s.2) t) t

namespace Writer

variable {w : Writer} {info : FrameBufferInfo} {len : Nat} {font : Font}
  {h : Fits info len} {t : Scrollback Glyph (page h)}

/-- One character on the screen is one character on the page. -/
theorem shows_writeCharAtCursor (hspace : (font ' ').isSome) (hdrawn : Drawn info)
    (hs : Shows font h w t) (c : Color) (ch : Char) :
    Returns (writeCharAtCursor font c w ch) fun w' ↦ Shows font h w' (type c t ch) := by
  unfold type
  split
  · next hback =>
    subst hback
    exact shows_erased hspace hdrawn hs
  · next hback =>
    split
    · next hnew =>
      subst hnew
      exact shows_nextLine hdrawn hs
    · next hnew => exact shows_printed hspace hdrawn hs hback hnew

theorem shows_writeStringAtCursor (hspace : (font ' ').isSome) (hdrawn : Drawn info)
    (hs : Shows font h w t) (s : List Char) (c : Color) :
    Returns (w.writeStringAtCursor font s c) fun w' ↦ Shows font h w' (s.foldl (type c) t) :=
  returns_foldlM_foldl (R := fun w t ↦ Shows font h w t)
    (fun _ _ ch _ hs ↦ shows_writeCharAtCursor hspace hdrawn hs c ch) hs

/-- `kernel/src/screen/mod.rs:16–20`. -/
def init (framebuffer : List UInt8) (info : FrameBufferInfo) : Checked Writer :=
  (new framebuffer info).clear .black

/-- A screen that has been cleared shows a page without text. -/
theorem shows_init {buffer : List UInt8} (h : Fits info buffer.length) (hdrawn : Drawn info) :
    Returns (init buffer info) fun w ↦ Shows font h w (Scrollback.empty Glyph (page h)) := by
  have hwidth := h.width
  have hheight := h.height
  have hnew : Sound info buffer.length (new buffer info) := by
    refine ⟨h, rfl, rfl, ?_, ?_, Nat.dvd_zero 8, Nat.dvd_zero 9⟩
    · change 0 + 8 ≤ info.width
      omega
    · change 0 + 9 ≤ info.height
      omega
  have hfill : Returns (init buffer info)
      (Filled (InRect 0 0 info.width info.height) .black (new buffer info)) := by
    rw [init, clear, List.range_eq_range']
    exact filled_fill (w := new buffer info) h hdrawn (Nat.le_of_eq (Nat.zero_add _))
  apply hfill.mono
  intro w hw
  refine ⟨hnew.same hw.same, ?_, ?_⟩
  · intro a b ha hb
    rw [hw.same.info] at ha hb
    rw [hw.filled a b ha hb ⟨Nat.zero_le _, by rw [Nat.zero_add]; exact ha, Nat.zero_le _,
      by rw [Nat.zero_add]; exact hb⟩, Color.bytes_black]
    symm
    apply picture_of_le
    intro _
    exact Nat.zero_le _
  · rw [index, hw.same.x, hw.same.y]
    change 0 / 9 * _ + 0 / 8 = 0
    rw [Nat.zero_div, Nat.zero_mul]

/-- Texts on the screen are texts on the page. -/
theorem returns_texts (font : Font) (hspace : (font ' ').isSome) {buffer : List UInt8}
    (h : Fits info buffer.length) (hdrawn : Drawn info) (texts : List (List Char × Color)) :
    Returns (do
        let w ← init buffer info
        texts.foldlM (fun w t ↦ w.writeStringAtCursor font t.1 t.2) w)
      fun w ↦ Shows font h w (typed (.empty Glyph (page h)) texts) := by
  apply (@shows_init info font buffer h hdrawn).bind
  intro w hw
  exact returns_foldlM_foldl (R := fun w t ↦ Shows font h w t)
    (fun _ _ t _ hs ↦ shows_writeStringAtCursor hspace hdrawn hs t.1 t.2) hw

end Writer

/-- Whatever texts are written to the screen that `init` has cleared, every pixel of it is drawn
from the page that they have been typed on, and the cursor is behind that page's text. -/
theorem screen_shows_page (font : Font) (hspace : (font ' ').isSome) (buffer : List UInt8)
    (info : FrameBufferInfo) (hfits : Fits info buffer.length) (hdrawn : Drawn info)
    (texts : List (List Char × Color)) :
    Returns (do
        let w ← Writer.init buffer info
        texts.foldlM (fun w t ↦ w.writeStringAtCursor font t.1 t.2) w)
      fun w ↦ w.index = (typed (.empty Glyph (page hfits)) texts).text.length ∧
        ∀ a b, a < info.width → b < info.height → w.pixel a b =
          picture font info (typed (.empty Glyph (page hfits)) texts).text a b := by
  apply (Writer.returns_texts font hspace hfits hdrawn texts).mono
  intro w' hw'
  refine ⟨hw'.index, ?_⟩
  intro a b ha hb
  rw [hw'.pictures a b (hw'.info ▸ ha) (hw'.info ▸ hb), hw'.info]

theorem fits_two_cells :
    Fits ⟨0, 576, 16, 12, 16, 3, 0⟩ (List.replicate 576 (7 : UInt8)).length := by
  rw [List.length_replicate]
  constructor <;> decide

/-- A screen of two cells by one that wraps, scrolls and erases. -/
theorem screen_shows_page_two_cells :
    Returns (do
        let w ← Writer.init (List.replicate 576 7) ⟨0, 576, 16, 12, 16, 3, 0⟩
        [(['A', '\n', 'A', 'A', 'A', '\x08'], Color.black), (['A'], ⟨255, 255, 0⟩)].foldlM
          (fun w t ↦ w.writeStringAtCursor sampleFont t.1 t.2) w)
      fun w ↦ w.index = 1 ∧ w.pixel 2 0 = [255, 255, 0] ∧ w.pixel 10 0 = [0, 0, 0] := by
  apply (screen_shows_page sampleFont rfl (List.replicate 576 7) ⟨0, 576, 16, 12, 16, 3, 0⟩
    fits_two_cells (.inl rfl) _).mono
  rintro w ⟨hindex, hpixel⟩
  refine ⟨hindex.trans (by decide), ?_, ?_⟩
  · rw [hpixel 2 0 (by decide) (by decide)]
    decide
  · rw [hpixel 10 0 (by decide) (by decide)]
    decide

/-- The glyph of a character, and none for a new line. -/
def glyphOf (c : Color) (ch : Char) : Option Glyph := if ch = '\n' then none else some (ch, c)

/-- The glyphs of texts. -/
def glyphs (texts : List (List Char × Color)) : List (Option Glyph) :=
  texts.flatMap fun t ↦ t.1.map (glyphOf t.2)

theorem type_eq_add {t : Scrollback Glyph p} {ch : Char} (c : Color) (h : ch ≠ '\x08') :
    type c t ch = t.add (glyphOf c ch) := by
  rw [type, if_neg h, glyphOf]
  split <;> rfl

/-- Without a backspace, characters are only added to a page. -/
theorem foldl_type_eq_add {s : List Char} (t : Scrollback Glyph p) (c : Color) (h : '\x08' ∉ s) :
    s.foldl (type c) t = (s.map (glyphOf c)).foldl Scrollback.add t := by
  rw [List.foldl_map]
  apply List.foldl_ext
  intro t ch hch
  apply type_eq_add
  rintro rfl
  exact h hch

theorem typed_eq_add {t : Scrollback Glyph p} {texts : List (List Char × Color)}
    (h : ∀ s ∈ texts, '\x08' ∉ s.1) : typed t texts = (glyphs texts).foldl Scrollback.add t := by
  rw [typed, glyphs, List.foldl_flatMap]
  apply List.foldl_ext
  intro t s hs
  exact foldl_type_eq_add t s.2 (h s hs)

/-- What is shown of texts without a backspace: the last lines that fit on the screen, whatever
the lengths of the texts are. -/
theorem screen_shows_last_lines (font : Font) (hspace : (font ' ').isSome) (buffer : List UInt8)
    (info : FrameBufferInfo) (hfits : Fits info buffer.length) (hdrawn : Drawn info)
    (texts : List (List Char × Color)) (hback : ∀ s ∈ texts, '\x08' ∉ s.1) :
    Returns (do
        let w ← Writer.init buffer info
        texts.foldlM (fun w t ↦ w.writeStringAtCursor font t.1 t.2) w)
      fun w ↦
        let all := (glyphs texts).foldl (Scrollback.flow (page hfits)) []
        let lines := all.length / columns info + 1 - info.height / 9
        w.index = all.length - lines * columns info ∧
          ∀ a b, a < info.width → b < info.height → w.pixel a b =
            picture font info (all.drop (lines * columns info)) a b := by
  apply (Writer.returns_texts font hspace hfits hdrawn texts).mono
  intro w hw
  have htext := typed_eq_add (t := .empty Glyph (page hfits)) hback
  have hlast := Scrollback.text_foldl_add (p := page hfits) (glyphs texts)
  rw [htext] at hw
  refine ⟨?_, ?_⟩
  · rw [hw.index, hlast, List.length_drop]
    rfl
  · intro a b ha hb
    rw [hw.pictures a b (hw.info ▸ ha) (hw.info ▸ hb), hw.info, hlast]
    rfl

/-- A line and a half on a screen of two cells by one. -/
theorem screen_shows_last_lines_two_cells :
    Returns (do
        let w ← Writer.init (List.replicate 576 7) ⟨0, 576, 16, 12, 16, 3, 0⟩
        [([' ', 'A', 'A'], (⟨255, 255, 0⟩ : Color))].foldlM
          (fun w t ↦ w.writeStringAtCursor sampleFont t.1 t.2) w)
      fun w ↦ w.index = 1 ∧ w.pixel 2 0 = [255, 255, 0] ∧ w.pixel 10 0 = [0, 0, 0] := by
  apply (screen_shows_last_lines sampleFont rfl (List.replicate 576 7)
    ⟨0, 576, 16, 12, 16, 3, 0⟩ fits_two_cells (.inl rfl) _ (by decide)).mono
  rintro w ⟨hindex, hpixel⟩
  refine ⟨hindex.trans (by decide), ?_, ?_⟩
  · rw [hpixel 2 0 (by decide) (by decide)]
    decide
  · rw [hpixel 10 0 (by decide) (by decide)]
    decide

end SmallOs.Screen
