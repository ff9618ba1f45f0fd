import SmallOs.Screen.Pixels

/-!
# Cells of the screen

The screen as cells in lines, counted from its top left corner, with the cursor at one of them. A
character changes the cell at the cursor, a backspace erases the one in front of it, and where the
screen scrolls every cell moves up by a line.
-/

namespace SmallOs.Screen

open SmallOs.Base SmallOs.Boot Outcome

/-- How many cells there are in a line. -/
def columns (info : FrameBufferInfo) : Nat := info.width / 8

/-- How many cells there are on the screen. -/
def cells (info : FrameBufferInfo) : Nat := columns info * (info.height / 9)

/-- The pixels of a cell. -/
abbrev Cell := Fin 8 → Fin 8 → List UInt8

def Cell.blank : Cell := fun _ _ ↦ [0, 0, 0]

namespace Writer

variable {w w' : Writer} {info : FrameBufferInfo} {len i p : Nat} {c : Color}

/-- The cell of the cursor. -/
def index (w : Writer) : Nat := w.y / 9 * columns w.info + w.x / 8

/-- What a cell shows. -/
def cell (w : Writer) (i : Nat) : Cell := fun row col ↦
  w.pixel (i % columns w.info * 8 + col) (i / columns w.info * 9 + row)

/-! ### Places -/

theorem columns_pos (h : Fits info len) : 0 < columns info :=
  Nat.div_pos h.width (by decide)

theorem columns_le_cells (h : Fits info len) : columns info ≤ cells info :=
  Nat.le_mul_of_pos_right _ (Nat.div_pos h.height (by decide))

/-- The line of a cell lies on the screen. -/
theorem line_lt (hi : i < cells info) : i / columns info < info.height / 9 :=
  Nat.div_lt_of_lt_mul hi

/-- The box of a cell lies on the screen. -/
theorem onScreen_cell (h : Fits info len) (hi : i < cells info) :
    OnScreen info (i % columns info * 8) (i / columns info * 9) := by
  have hcolumn : i % columns info < columns info := Nat.mod_lt _ (columns_pos h)
  have hwidth : columns info * 8 ≤ info.width := Nat.div_mul_le_self _ _
  have hline := line_lt hi
  constructor
  · omega
  · omega

/-- A cell is where its column and its line are. -/
theorem cell_place {line column : Nat} (h : column < columns info) :
    (line * columns info + column) % columns info = column ∧
      (line * columns info + column) / columns info = line := by
  constructor
  · rw [Nat.add_comm, Nat.add_mul_mod_self_right, Nat.mod_eq_of_lt h]
  · rw [Nat.add_comm, Nat.add_mul_div_right _ _ (Nat.zero_lt_of_lt h), Nat.div_eq_of_lt h,
      Nat.zero_add]

theorem Sound.column_lt (h : Sound info len w) : w.x / 8 < columns info := by
  have hright := h.cursor.right
  rw [h.info] at hright
  unfold columns
  omega

theorem Sound.row_lt (h : Sound info len w) : w.y / 9 < info.height / 9 := by
  have hbottom := h.cursor.bottom
  rw [h.info] at hbottom
  omega

/-- The cursor is at its cell. -/
theorem Sound.place (h : Sound info len w) : w.index % columns info * 8 = w.x ∧
    w.index / columns info * 9 = w.y := by
  have hplace := @cell_place info (w.y / 9) (w.x / 8) h.column_lt
  rw [index, h.info, hplace.1, hplace.2]
  exact ⟨Nat.div_mul_cancel h.cursor.column, Nat.div_mul_cancel h.cursor.line⟩

theorem Sound.index_lt (h : Sound info len w) : w.index < cells info := by
  have hline : (w.y / 9 + 1) * columns info ≤ info.height / 9 * columns info :=
    Nat.mul_le_mul_right _ h.row_lt
  have hcolumn := h.column_lt
  rw [Nat.succ_mul] at hline
  rw [index, h.info, cells, Nat.mul_comm (columns info)]
  omega

/-- Boxes of different cells share no pixel. -/
theorem eq_of_inBox {j : Nat} {row col : Fin 8}
    (h : InBox (j % columns info * 8) (j / columns info * 9) (i % columns info * 8 + col)
      (i / columns info * 9 + row)) : i = j := by
  have hleft := h.1
  have hright := h.2.1
  have htop := h.2.2.1
  have hbottom := h.2.2.2
  have hcol := col.isLt
  have hrow := row.isLt
  have hcolumn : i % columns info = j % columns info := by omega
  have hline : i / columns info = j / columns info := by omega
  rw [← Nat.div_add_mod i (columns info), ← Nat.div_add_mod j (columns info), hcolumn, hline]

/-- What is drawn at the cursor is kept out of the other cells. -/
theorem Keeps.cell (hs : Sound info len w) (h : Keeps (InBox w.x w.y) w w')
    (hi : i < cells info) (hne : i ≠ w.index) : w'.cell i = w.cell i := by
  have hscreen := onScreen_cell hs.fits hi
  have hright := hscreen.right
  have hbottom := hscreen.bottom
  funext row col
  have hcol := col.isLt
  have hrow := row.isLt
  rw [Writer.cell, Writer.cell, h.same.info, hs.info]
  apply h.kept _ _ (by rw [hs.info]; omega) (by rw [hs.info]; omega)
  rw [← hs.place.1, ← hs.place.2]
  intro hin
  exact hne (eq_of_inBox hin)

/-- An erased cell is blank. -/
theorem Filled.cell (hs : Sound info len w) (h : Filled (InBox w.x w.y) .black w w') :
    w'.cell w.index = Cell.blank := by
  have hright := hs.cursor.right
  have hbottom := hs.cursor.bottom
  funext row col
  have hcol := col.isLt
  have hrow := row.isLt
  rw [Writer.cell, h.same.info, hs.info, hs.place.1, hs.place.2,
    h.filled _ _ (by omega) (by omega), Color.bytes_black]
  · rfl
  · simp only [InRect]
    omega

/-- A line further down. -/
theorem Scrolled.cell (hs : Fits w.info len) (h : Scrolled w w')
    (hi : i + columns w.info < cells w.info) : w'.cell i = w.cell (i + columns w.info) := by
  have hpos := columns_pos hs
  have hscreen := onScreen_cell hs hi
  have hright := hscreen.right
  have hbottom := hscreen.bottom
  funext row col
  have hcol := col.isLt
  have hrow := row.isLt
  rw [Writer.cell, Writer.cell, h.same.info]
  rw [Nat.add_mod_right] at hright ⊢
  rw [Nat.add_div_right _ hpos] at hbottom ⊢
  rw [h.moved _ _ (by omega) (by omega), Nat.succ_mul, Nat.add_right_comm]

/-! ### The next cell -/

/-- By how many lines the screen moves up behind a character in a cell. -/
def scrolls (info : FrameBufferInfo) (p : Nat) : Nat := if p + 1 < cells info then 0 else 1

theorem scrolls_of_lt (h : p + 1 < cells info) : scrolls info p = 0 := if_pos h

/-- There is a cell behind one in the same line, or in a line below. -/
theorem scrolls_of_room (hs : Sound info len w)
    (h : w.x / 8 + 1 < columns info ∨ w.y / 9 + 1 < info.height / 9) :
    scrolls info w.index = 0 := by
  have hcolumn := hs.column_lt
  have hline : (w.y / 9 + 1) * columns info ≤ info.height / 9 * columns info :=
    Nat.mul_le_mul_right _ hs.row_lt
  apply scrolls_of_lt
  rw [index, hs.info, cells, Nat.mul_comm (columns info)]
  rw [Nat.succ_mul] at hline
  rcases h with h | h
  · omega
  · have hbelow : (w.y / 9 + 1 + 1) * columns info ≤ info.height / 9 * columns info :=
      Nat.mul_le_mul_right _ h
    rw [Nat.succ_mul, Nat.succ_mul] at hbelow
    omega

/-- There is none behind the last cell of the last line. -/
theorem scrolls_of_last (hs : Sound info len w) (hcolumn : w.x / 8 + 1 = columns info)
    (hline : w.y / 9 + 1 = info.height / 9) : scrolls info w.index = 1 := by
  apply if_neg
  rw [index, hs.info, cells, ← hline, Nat.mul_comm (columns info), Nat.succ_mul]
  omega

theorem newLine_of_room (hw : w.Fitting) (h : w.y + 18 ≤ w.info.height) :
    w.newLine = .ok { w with x := 0, y := w.y + 9 } := by
  have hsmall := hw.small
  have hbelow : w.y + 9 + 9 < 2 ^ 64 := by omega
  simp only [newLine, addAt_of (Nat.lt_of_add_right_lt hbelow), ok_bind, addAt_of hbelow]
  rw [if_neg (by omega)]
  rfl

theorem newLine_of_full (hw : w.Fitting) (hdrawn : Drawn w.info)
    (hbottom : w.y + 9 ≤ w.info.height) (h : w.info.height < w.y + 18) :
    Returns w.newLine fun w' ↦ ∃ w₁, Scrolled { w with x := 0, y := w.y + 9 } w₁ ∧
      w' = { w₁ with y := w.y } := by
  have hsmall := hw.small
  have hbelow : w.y + 9 + 9 < 2 ^ 64 := by omega
  simp only [newLine, addAt_of (Nat.lt_of_add_right_lt hbelow), ok_bind, addAt_of hbelow]
  rw [if_pos (by omega)]
  apply (scrolled_scrollUp (w := { w with x := 0, y := w.y + 9 }) hw hdrawn).bind
  intro w₁ h₁
  rw [h₁.same.y, sub_of (Nat.le_add_left _ _), ok_bind, Nat.add_sub_cancel]
  exact ⟨_, rfl, w₁, h₁, rfl⟩

/-- A character that is drawn. -/
structure Printed (w w' : Writer) : Prop where
  index : w'.index = w.index + 1 - scrolls w.info w.index * columns w.info
  cell : ∀ i, i + scrolls w.info w.index * columns w.info < cells w.info →
    i + scrolls w.info w.index * columns w.info ≠ w.index →
      w'.cell i = w.cell (i + scrolls w.info w.index * columns w.info)

/-- A character behind which there is a cell. -/
theorem Printed.of_room {w₁ : Writer} (hs : Sound info len w) (h₁ : Keeps (InBox w.x w.y) w w₁)
    (hscrolls : scrolls info w.index = 0) (hindex : w'.index = w.index + 1)
    (hcell : ∀ i, w'.cell i = w₁.cell i) : Printed w w' := by
  have hscrolls' : scrolls w.info w.index = 0 := by rwa [hs.info]
  constructor
  · rw [hscrolls', hindex, Nat.zero_mul, Nat.sub_zero]
  · intro i hi hne
    simp only [hscrolls', Nat.zero_mul, Nat.add_zero] at hi hne ⊢
    rw [hcell]
    exact Keeps.cell hs h₁ (hs.info ▸ hi) hne

/-- In front of the next cell of the line. -/
theorem Printed.of_line {w₁ : Writer} (hs : Sound info len w) (h₁ : Keeps (InBox w.x w.y) w w₁)
    (hline : w.x / 8 + 1 < columns info) : Printed w { w₁ with x := w₁.x + 8 } := by
  apply Printed.of_room hs h₁ (scrolls_of_room hs (.inl hline))
  · simp only [Writer.index, h₁.same.info, h₁.same.x, h₁.same.y,
      Nat.add_div_right _ (show 0 < 8 by decide)]
    rfl
  · intro i
    rfl

/-- At the start of the next line. -/
theorem Printed.of_nextLine {w₁ : Writer} (hs : Sound info len w)
    (h₁ : Keeps (InBox w.x w.y) w w₁) (hcolumn : w.x / 8 + 1 = columns info)
    (hline : w.y / 9 + 1 < info.height / 9) :
    Printed w { w₁ with x := 0, y := w₁.y + 9 } := by
  apply Printed.of_room hs h₁ (scrolls_of_room hs (.inr hline))
  · simp only [Writer.index, h₁.same.info, h₁.same.y, hs.info, Nat.zero_div, Nat.add_zero,
      Nat.add_div_right _ (show 0 < 9 by decide), Nat.succ_mul]
    omega
  · intro i
    rfl

/-- At the start of the last line, on a screen that has moved up. -/
theorem Printed.of_scrolled {w₁ w₂ : Writer} (hs : Sound info len w)
    (h₁ : Keeps (InBox w.x w.y) w w₁) (hcolumn : w.x / 8 + 1 = columns info)
    (hline : w.y / 9 + 1 = info.height / 9)
    (h₂ : Scrolled { w₁ with x := 0, y := w₁.y + 9 } w₂) : Printed w { w₂ with y := w₁.y } := by
  have hinfo : w₁.info = info := h₁.same.info.trans hs.info
  have hscrolls : scrolls w.info w.index = 1 := by
    rw [hs.info]
    exact scrolls_of_last hs hcolumn hline
  constructor
  · rw [hscrolls]
    simp only [Writer.index, h₂.same.info, h₂.same.x, hs.info, hinfo, h₁.same.y, Nat.zero_div,
      Nat.add_zero, Nat.one_mul]
    omega
  · intro i hi hne
    rw [hscrolls, Nat.one_mul, hs.info] at hi
    rw [hscrolls, Nat.one_mul, hs.info] at hne ⊢
    have hmoved : w₂.cell i = w₁.cell (i + columns w₁.info) :=
      Scrolled.cell (w := { w₁ with x := 0, y := w₁.y + 9 }) (h₁.same.fitting hs.fitting) h₂
        (by simp only [hinfo]; exact hi)
    rw [hinfo] at hmoved
    exact hmoved.trans (Keeps.cell hs h₁ hi hne)

theorem printed_writeCharAtCursor {font : Font} (hspace : (font ' ').isSome)
    (hs : Sound info len w) (hdrawn : Drawn info) {ch : Char} (hback : ch ≠ '\x08')
    (hnew : ch ≠ '\n') : Returns (writeCharAtCursor font c w ch) (Printed w) := by
  have hdrawn' : Drawn w.info := by rwa [hs.info]
  unfold writeCharAtCursor
  rw [if_neg hback, if_neg hnew]
  apply (keeps_writeChar hspace hs.fitting hdrawn' hs.onScreen).bind
  intro w₁ h₁
  have hs₁ := hs.same h₁.same
  have hsmall := hs₁.fitting.small
  have hx := h₁.same.x
  have hy := h₁.same.y
  have hright := hs₁.cursor.right
  have hbottom := hs₁.cursor.bottom
  have hcolumn := hs₁.cursor.column
  have hwide : columns info = w₁.info.width / 8 := by
    rw [hs₁.info]
    rfl
  have hcolumns := hs.column_lt
  apply (returns_addAt (by omega)).bind
  rintro x rfl
  apply (returns_addAt (by simp only; omega)).bind
  rintro next rfl
  split
  · next hfull =>
    simp only at hfull
    have hlast : w.x / 8 + 1 = columns info := by omega
    by_cases hroom : w₁.y + 18 ≤ w₁.info.height
    · have hline : w.y / 9 + 1 < info.height / 9 := by
        rw [hs₁.info] at hroom
        omega
      have hprinted : Printed w { w₁ with x := 0, y := w₁.y + 9 } :=
        .of_nextLine hs h₁ hlast hline
      exact ⟨_, newLine_of_room hs₁.fitting hroom, hprinted⟩
    · have hline : w.y / 9 + 1 = info.height / 9 := by
        have hrow := hs.row_lt
        have hline := hs.cursor.line
        rw [hs₁.info] at hroom
        omega
      apply (newLine_of_full (w := { w₁ with x := w₁.x + 8 }) hs₁.fitting (h₁.same.info ▸ hdrawn')
        hbottom (Nat.lt_of_not_le hroom)).mono
      rintro w' ⟨w₂, h₂, rfl⟩
      have hprinted : Printed w { w₂ with y := w₁.y } := .of_scrolled hs h₁ hlast hline h₂
      exact hprinted
  · next hroom =>
    simp only at hroom
    exact ⟨_, rfl, .of_line hs h₁ (by omega)⟩

/-! ### The cell in front -/

/-- A cell has been erased, and the cursor is at it. -/
structure Erased (p : Nat) (w w' : Writer) : Prop where
  index : w'.index = p
  blank : w'.cell p = Cell.blank
  cell : ∀ i, i < cells w.info → i ≠ p → w'.cell i = w.cell i

/-- A backspace leads to the cell in front, if there is one. -/
theorem index_stepBack (hs : Sound info len w) : Returns w.stepBack fun w' ↦
    w'.index = w.index - 1 ∧ w'.info = w.info ∧ ∀ i, w'.cell i = w.cell i := by
  have hsmall := hs.fitting.small
  have hwidth := hs.fitting.width
  have hcolumn := hs.cursor.column
  have hline := hs.cursor.line
  have hcolumns : columns w.info = w.info.width / 8 := rfl
  unfold stepBack
  split
  · refine ⟨_, rfl, ?_, rfl, fun i ↦ rfl⟩
    simp only [index]
    omega
  · next hfirst =>
    have hx : w.x = 0 := by omega
    split
    · apply (returns_mulAt (by omega)).bind
      rintro place rfl
      apply (returns_sub (by omega)).bind
      rintro x rfl
      refine ⟨_, rfl, ?_, rfl, fun i ↦ rfl⟩
      have habove : w.y / 9 = (w.y - 9) / 9 + 1 := by omega
      have hlast : (w.info.width / 8 * 8 - 8) / 8 = w.info.width / 8 - 1 := by omega
      simp only [index, hcolumns, hx, habove, hlast, Nat.succ_mul, Nat.zero_div]
      omega
    · refine ⟨_, rfl, ?_, rfl, fun i ↦ rfl⟩
      have hy : w.y = 0 := by omega
      simp [index, hx, hy]

/-- It changes no pixel. -/
theorem pixel_stepBack (hs : Sound info len w) : Returns w.stepBack fun w' ↦
    ∀ a b, w'.pixel a b = w.pixel a b := by
  have hsmall := hs.fitting.small
  have hwidth := hs.fitting.width
  unfold stepBack
  split
  · exact ⟨_, rfl, fun a b ↦ rfl⟩
  · split
    · apply (returns_mulAt (by omega)).bind
      rintro place rfl
      apply (returns_sub (by omega)).bind
      rintro x rfl
      exact ⟨_, rfl, fun a b ↦ rfl⟩
    · exact ⟨_, rfl, fun a b ↦ rfl⟩

theorem erased_writeCharAtCursor {font : Font} (hs : Sound info len w) (hdrawn : Drawn info) :
    Returns (writeCharAtCursor font c w '\x08') (Erased (w.index - 1) w) := by
  unfold writeCharAtCursor
  rw [if_pos rfl]
  apply ((sound_stepBack hs).and (index_stepBack hs)).bind
  rintro w₁ ⟨hs₁, hindex, hinfo, hcell⟩
  apply (filled_eraseCell hs₁.fitting (hs₁.info ▸ hdrawn) hs₁.onScreen).mono
  intro w₂ h₂
  have hplace : w₂.index = w₁.index := by
    rw [index, index, h₂.same.info, h₂.same.x, h₂.same.y]
  refine ⟨hplace.trans hindex, ?_, ?_⟩
  · rw [← hindex]
    exact Filled.cell hs₁ h₂
  · intro i hi hne
    rw [hs.info] at hi
    rw [Keeps.cell hs₁ h₂.toKeeps hi (hindex ▸ hne), hcell]

end Writer

end SmallOs.Screen
