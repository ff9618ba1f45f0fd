import SmallOs.Screen.Cells
import SmallOs.Shell.Task

/-!
# Clearing the input line

The shell clears its line with a backspace, a space and a backspace for every byte that the line
holds, while the screen has taken a cell for every character.
-/

namespace SmallOs.Shell

open SmallOs.Base Screen Outcome
open Vfs (Text)

/-- `print!`, in the color of `kernel/src/screen/mod.rs:142`. -/
def print (font : Font) (w : Writer) (s : Text) : Checked Writer :=
  w.writeStringAtCursor font s ⟨255, 255, 0⟩

/-- `kernel/src/task/shell/mod.rs:114–118`. -/
def clearLine (font : Font) (w : Writer) (line : Text) : Checked Writer :=
  (List.range line.len).foldlM (fun w _ ↦ print font w ['\x08', ' ', '\x08']) w

/-! ### Where the cursor is -/

/-- The cell of the cursor, and by how many lines the screen has moved up. -/
structure Spot where
  index : Nat
  lines : Nat

namespace Spot

variable (info : Boot.FrameBufferInfo)

/-- Behind a character. -/
def next (s : Spot) (ch : Char) : Spot :=
  if ch = '\x08' then { s with index := s.index - 1 }
  else ⟨s.index + 1 - Writer.scrolls info s.index * columns info,
    s.lines + Writer.scrolls info s.index⟩

/-- Behind a text that starts at a cell. -/
def behind (start : Nat) (text : Text) : Spot := text.foldl (next info) ⟨start, 0⟩

/-- The cells in front of the cursor, with those that have left the screen. -/
def passed (s : Spot) : Nat := s.index + s.lines * columns info

end Spot

/-- A character of one byte that takes a cell. -/
def Plain (ch : Char) : Prop := ch ≠ '\x08' ∧ ch.utf8Size = 1

section Passed

variable {info : Boot.FrameBufferInfo} {s : Spot} {ch : Char} {text : Text}

/-- There is a cell in front of the next line. -/
theorem scrolls_mul_le (hcolumns : columns info ≤ cells info) (p : Nat) :
    Writer.scrolls info p * columns info ≤ p + 1 := by
  rw [Writer.scrolls]
  split
  · omega
  · omega

/-- A character that is no backspace takes one cell. -/
theorem passed_next (hcolumns : columns info ≤ cells info) (h : ch ≠ '\x08') :
    (s.next info ch).passed info = s.passed info + 1 := by
  have hle := scrolls_mul_le hcolumns s.index
  simp only [Spot.next, if_neg h, Spot.passed, Nat.add_mul]
  omega

/-- A character takes at most as many cells as it has bytes. -/
theorem passed_next_le (hcolumns : columns info ≤ cells info) :
    (s.next info ch).passed info ≤ s.passed info + ch.utf8Size ∧
      ((s.next info ch).passed info = s.passed info + ch.utf8Size ↔ Plain ch) := by
  have hsize := ch.utf8Size_pos
  by_cases h : ch = '\x08'
  · subst h
    have hpassed : (s.next info '\x08').passed info ≤ s.passed info := by
      rw [Spot.next, if_pos rfl]
      exact Nat.add_le_add_right (Nat.sub_le _ _) _
    refine ⟨by omega, ?_⟩
    apply iff_of_false
    · omega
    · intro hplain
      exact hplain.1 rfl
  · rw [passed_next hcolumns h, Plain]
    constructor
    · omega
    · constructor
      · intro heq
        exact ⟨h, by omega⟩
      · intro hplain
        rw [hplain.2]

/-- So does a text, and it takes as many cells where all of its characters are plain. -/
theorem passed_foldl (hcolumns : columns info ≤ cells info) :
    (text.foldl (Spot.next info) s).passed info ≤ s.passed info + text.len ∧
      ((text.foldl (Spot.next info) s).passed info = s.passed info + text.len ↔
        ∀ ch ∈ text, Plain ch) := by
  induction text generalizing s with
  | nil => simp [Text.len]
  | cons ch text ih =>
    have hlen : Text.len (ch :: text) = ch.utf8Size + Text.len text := rfl
    obtain ⟨hle, hiff⟩ := @passed_next_le info s ch hcolumns
    obtain ⟨hle', hiff'⟩ := @ih (s.next info ch)
    rw [List.foldl_cons, hlen, List.forall_mem_cons, ← hiff, ← hiff']
    omega

end Passed

/-! ### Printing the line -/

section Printing

variable {w w' : Writer} {info : Boot.FrameBufferInfo} {len : Nat} {font : Font} {text : Text}
  {ch : Char}

/-- After a text has been printed: the cursor is behind it, what was in front of it has moved up,
and at the first cell of the screen only a backspace can have left the cursor. -/
structure Follows (info : Boot.FrameBufferInfo) (len : Nat) (w : Writer) (text : Text)
    (w' : Writer) : Prop where
  sound : Writer.Sound info len w'
  index : w'.index = (Spot.behind info w.index text).index
  passed : '\x08' ∉ text → w.index ≤ (Spot.behind info w.index text).passed info
  kept : '\x08' ∉ text → ∀ i,
    i + (Spot.behind info w.index text).lines * columns info < w.index →
      w'.cell i = w.cell (i + (Spot.behind info w.index text).lines * columns info)
  top : text ≠ [] → w'.index = 0 → w'.cell 0 = Cell.blank ∨
    cells info ≤ (Spot.behind info w.index text).lines * columns info

theorem Follows.nil (hs : Writer.Sound info len w) : Follows info len w [] w where
  sound := hs
  index := rfl
  passed _ := Nat.le_add_right _ _
  kept _ i _ := by
    change w.cell i = w.cell (i + 0 * columns info)
    rw [Nat.zero_mul, Nat.add_zero]
  top h := absurd rfl h

theorem behind_append (start : Nat) (text : Text) (ch : Char) :
    Spot.behind info start (text ++ [ch]) = (Spot.behind info start text).next info ch := by
  rw [Spot.behind, Spot.behind, List.foldl_append]
  rfl

/-- Behind a backspace. -/
theorem Follows.back (h : Follows info len w text w') {w₂ : Writer}
    (hs : Writer.Sound info len w₂) (he : w'.Erased (w'.index - 1) w₂) :
    Follows info len w (text ++ ['\x08']) w₂ := by
  have hin : '\x08' ∈ text ++ ['\x08'] := List.mem_append_right _ List.mem_cons_self
  refine ⟨hs, ?_, ?_, ?_, ?_⟩
  · rw [behind_append, Spot.next, if_pos rfl, he.index, h.index]
  · intro hnot
    exact absurd hin hnot
  · intro hnot
    exact absurd hin hnot
  · intro _ hzero
    have hblank := he.blank
    rw [← he.index, hzero] at hblank
    exact .inl hblank

/-- Behind another character. -/
theorem Follows.print (h : Follows info len w text w') (hch : ch ≠ '\x08') {w₂ : Writer}
    (hs : Writer.Sound info len w₂) (hp : w'.Printed w₂) :
    Follows info len w (text ++ [ch]) w₂ := by
  have hinfo := h.sound.info
  have hcolumns := Writer.columns_le_cells h.sound.fits
  have hindex := h.index
  have hlt := h.sound.index_lt
  have hnext : (Spot.behind info w.index text).next info ch =
      ⟨w'.index + 1 - Writer.scrolls info w'.index * columns info,
        (Spot.behind info w.index text).lines + Writer.scrolls info w'.index⟩ := by
    rw [Spot.next, if_neg hch, hindex]
  have hnot : '\x08' ∉ text ++ [ch] → '\x08' ∉ text := by
    intro hout hin
    exact hout (List.mem_append_left _ hin)
  refine ⟨hs, ?_, ?_, ?_, ?_⟩
  · rw [behind_append, hnext, hp.index, hinfo]
  · intro hout
    rw [behind_append, passed_next hcolumns hch]
    exact Nat.le_succ_of_le (h.passed (hnot hout))
  · intro hout i hi
    have hpassed := h.passed (hnot hout)
    rw [Spot.passed, ← hindex] at hpassed
    rw [behind_append, hnext] at hi ⊢
    simp only [Nat.add_mul] at hi ⊢
    have hcell := hp.cell i
    rw [hinfo] at hcell
    rw [hcell (by omega) (by omega), h.kept (hnot hout) _ (by omega)]
    congr 1
    omega
  · intro _ hzero
    rw [hp.index, hinfo] at hzero
    rw [behind_append, hnext, Nat.add_mul]
    right
    have hscrolls : Writer.scrolls info w'.index * columns info ≤ w'.index + 1 :=
      scrolls_mul_le hcolumns _
    rw [Writer.scrolls] at hzero ⊢
    split at hzero
    · omega
    · next hlast =>
      rw [if_neg hlast]
      omega

/-- A character of the line is printed. -/
theorem follows_writeCharAtCursor {c : Color} (hspace : (font ' ').isSome) (hdrawn : Drawn info)
    (hnew : ch ≠ '\n') (h : Follows info len w text w') :
    Returns (w'.writeCharAtCursor font c ch) (Follows info len w (text ++ [ch])) := by
  have hs := Writer.sound_writeCharAtCursor (c := c) hspace h.sound ch
  by_cases hch : ch = '\x08'
  · subst hch
    apply (hs.and (Writer.erased_writeCharAtCursor h.sound hdrawn)).mono
    rintro w₂ ⟨hs₂, he⟩
    exact h.back hs₂ he
  · apply (hs.and (Writer.printed_writeCharAtCursor hspace h.sound hdrawn hch hnew)).mono
    rintro w₂ ⟨hs₂, hp⟩
    exact h.print hch hs₂ hp

theorem follows_print (hspace : (font ' ').isSome) (hdrawn : Drawn info) {rest : Text}
    (hnew : '\n' ∉ rest) (h : Follows info len w text w') :
    Returns (Shell.print font w' rest) (Follows info len w (text ++ rest)) := by
  induction rest generalizing text w' with
  | nil =>
    rw [List.append_nil]
    exact ⟨w', rfl, h⟩
  | cons ch rest ih =>
    rw [List.mem_cons, not_or] at hnew
    rw [Shell.print, Writer.writeStringAtCursor, List.foldlM_cons]
    apply (follows_writeCharAtCursor hspace hdrawn (Ne.symm hnew.1) h).bind
    intro w₂ h₂
    rw [List.append_cons]
    exact ih hnew.2 h₂

end Printing

/-! ### Clearing it -/

section Clearing

variable {w w' : Writer} {info : Boot.FrameBufferInfo} {len n : Nat} {font : Font}

/-- A backspace, a space and a backspace erase the cell in front. -/
theorem erased_print (hspace : (font ' ').isSome) (hdrawn : Drawn info)
    (hs : Writer.Sound info len w) : Returns (print font w ['\x08', ' ', '\x08']) fun w' ↦
      Writer.Sound info len w' ∧ w.Erased (w.index - 1) w' := by
  have hlt := hs.index_lt
  have hcolumns := Writer.columns_le_cells hs.fits
  have hpos := Writer.columns_pos hs.fits
  have hback := (Writer.sound_writeCharAtCursor (c := ⟨255, 255, 0⟩) hspace hs '\x08').and
    (Writer.erased_writeCharAtCursor hs hdrawn)
  simp only [print, Writer.writeStringAtCursor, List.foldlM_cons, List.foldlM_nil]
  apply hback.bind
  rintro w₁ ⟨hs₁, h₁⟩
  have hprint := (Writer.sound_writeCharAtCursor (c := ⟨255, 255, 0⟩) hspace hs₁ ' ').and
    (Writer.printed_writeCharAtCursor hspace hs₁ hdrawn (by decide) (by decide))
  apply hprint.bind
  rintro w₂ ⟨hs₂, h₂⟩
  have hback₂ := (Writer.sound_writeCharAtCursor (c := ⟨255, 255, 0⟩) hspace hs₂ '\x08').and
    (Writer.erased_writeCharAtCursor hs₂ hdrawn)
  apply hback₂.bind
  rintro w₃ ⟨hs₃, h₃⟩
  -- Behind the cell that has been erased there is another one, unless the screen is that cell.
  have hplace : w₂.index - 1 = w.index - 1 := by
    rw [h₂.index, h₁.index, hs₁.info, Writer.scrolls]
    split <;> omega
  rw [hplace] at h₃
  refine ⟨w₃, rfl, hs₃, h₃.index, h₃.blank, ?_⟩
  intro i hi hne
  rw [hs.info] at hi
  rw [h₃.cell i (by rwa [hs₂.info]) hne]
  have hscrolls : Writer.scrolls info w₁.index = 0 := by
    rw [h₁.index]
    apply Writer.scrolls_of_lt
    omega
  have hcell := h₂.cell i
  rw [hs₁.info, hscrolls, Nat.zero_mul, Nat.add_zero, h₁.index] at hcell
  rw [hcell hi hne]
  exact h₁.cell i (by rwa [hs.info]) hne

/-- After some of these: as many cells in front are blank, and those behind are as they were. -/
structure Wiped (info : Boot.FrameBufferInfo) (len : Nat) (w : Writer) (n : Nat) (w' : Writer) :
    Prop where
  sound : Writer.Sound info len w'
  index : w'.index = w.index - n
  blank : ∀ i, w.index - n ≤ i → i < w.index → w'.cell i = Cell.blank
  kept : ∀ i, i < cells info → i < w.index - n ∨ w.index ≤ i ∧ (i ≠ 0 ∨ n = 0) →
    w'.cell i = w.cell i
  top : w.index = 0 → w.cell 0 = Cell.blank → w'.cell 0 = Cell.blank

theorem wiped_clear (hspace : (font ' ').isSome) (hdrawn : Drawn info)
    (hs : Writer.Sound info len w) (n : Nat) :
    Returns ((List.range n).foldlM (fun w _ ↦ print font w ['\x08', ' ', '\x08']) w)
      (Wiped info len w n) := by
  have hlt := hs.index_lt
  apply returns_foldlM_range (P := fun n w' ↦ Wiped info len w n w')
  · intro k s _ h
    have hindex := h.index
    have hinfo := h.sound.info
    apply (erased_print hspace hdrawn h.sound).mono
    rintro s' ⟨hs', he⟩
    refine ⟨hs', by rw [he.index]; omega, ?_, ?_, ?_⟩
    · intro i hi hi'
      by_cases hfront : i = s.index - 1
      · rw [hfront]
        exact he.blank
      · rw [he.cell i (by rw [hinfo]; omega) hfront]
        exact h.blank i (by omega) hi'
    · intro i hi hout
      rw [he.cell i (by rwa [hinfo]) (by omega)]
      exact h.kept i hi (by omega)
    · intro hzero _
      have hblank := he.blank
      rwa [hindex, hzero, Nat.zero_sub, Nat.zero_sub] at hblank
  · refine ⟨hs, rfl, ?_, ?_, ?_⟩
    · intro i hi hi'
      omega
    · intro i _ _
      rfl
    · intro _ hblank
      exact hblank

end Clearing

/-! ### Both -/

/-- A screen that the writer draws on, with its cursor on a cell. -/
structure Terminal where
  font : Font
  space : (font ' ').isSome
  writer : Writer
  drawn : Drawn writer.info
  sound : Writer.Sound writer.info writer.framebuffer.length writer

/-- From the start of the line on, `k` lines further up than where it was printed, its cells are
blank. The cursor is at the start, what was in front has only moved up, and what is behind the line
is as it was. -/
structure Cleared (k : Nat) (w w₁ w₂ : Writer) : Prop where
  start : k * columns w.info ≤ w.index
  cursor : w₂.index = w.index - k * columns w.info
  before : ∀ i, i < w₂.index → w₂.cell i = w.cell (i + k * columns w.info)
  blank : ∀ i, w₂.index ≤ i → i < w₁.index → w₂.cell i = Cell.blank
  after : ∀ i, i < cells w.info → w₁.index ≤ i → w₂.cell i = w₁.cell i

namespace Terminal

variable (t : Terminal) (line : Line)

/-- Where the cursor is when the line has been printed. -/
def printed : Spot := Spot.behind t.writer.info t.writer.index line.text

/-- The line is printed and cleared again. -/
def ClearsLine : Prop :=
  Returns (print t.font t.writer line.text) fun w₁ ↦
    Returns (clearLine t.font w₁ line.text) fun w₂ ↦
      Cleared (t.printed line).lines t.writer w₁ w₂

variable {t line}

theorem follows_print : Returns (print t.font t.writer line.text)
    (Follows t.writer.info t.writer.framebuffer.length t.writer line.text) :=
  Shell.follows_print t.space t.drawn line.typed (.nil t.sound)

theorem wiped_clearLine {w₁ : Writer}
    (h : Follows t.writer.info t.writer.framebuffer.length t.writer line.text w₁) :
    Returns (clearLine t.font w₁ line.text)
      (Wiped t.writer.info t.writer.framebuffer.length w₁ line.text.len) :=
  wiped_clear t.space t.drawn h.sound _

/-- A line that takes a cell for every byte is followed by as many cells as it has bytes. -/
theorem passed_printed : (t.printed line).passed t.writer.info ≤ t.writer.index + line.text.len ∧
    ((t.printed line).passed t.writer.info = t.writer.index + line.text.len ↔
      ∀ ch ∈ line.text, Plain ch) := by
  have hpassed := @passed_foldl t.writer.info ⟨t.writer.index, 0⟩ line.text
    (Writer.columns_le_cells t.sound.fits)
  have hstart : (Spot.mk t.writer.index 0).passed t.writer.info = t.writer.index := by
    rw [Spot.passed, Nat.zero_mul, Nat.add_zero]
  rwa [hstart] at hpassed

/-- A line that is cleared starts at the first cell of the screen or takes a cell for every
byte. -/
theorem plain_of_clearsLine (h : t.ClearsLine line) :
    (t.printed line).lines * columns t.writer.info ≤ t.writer.index ∧
      ((∀ ch ∈ line.text, Plain ch) ∨
        t.writer.index = (t.printed line).lines * columns t.writer.info) := by
  obtain ⟨w₁, -, hclears, hfollows⟩ := Returns.and h follows_print
  obtain ⟨w₂, -, hcleared, hwiped⟩ := hclears.and (wiped_clearLine hfollows)
  obtain ⟨hle, hiff⟩ := @passed_printed t line
  have hcursor := hcleared.cursor
  have hstart := hcleared.start
  have hindex : w₁.index = (t.printed line).index := hfollows.index
  rw [hwiped.index] at hcursor
  refine ⟨hstart, ?_⟩
  rw [Spot.passed] at hle hiff
  rw [← hiff]
  omega

/-- What is cleared is the line, wherever the number of its cells is right. -/
theorem cleared_of_wiped {w₁ w₂ : Writer}
    (hfollows : Follows t.writer.info t.writer.framebuffer.length t.writer line.text w₁)
    (hwiped : Wiped t.writer.info t.writer.framebuffer.length w₁ line.text.len w₂)
    (hstart : (t.printed line).lines * columns t.writer.info ≤ t.writer.index)
    (hcursor : w₂.index = t.writer.index - (t.printed line).lines * columns t.writer.info)
    (hkept : '\x08' ∉ line.text ∨
      t.writer.index = (t.printed line).lines * columns t.writer.info) :
    Cleared (t.printed line).lines t.writer w₁ w₂ := by
  have hlt := t.sound.index_lt
  have hlt' := hfollows.sound.index_lt
  have hindex := hwiped.index
  refine ⟨hstart, hcursor, ?_, ?_, ?_⟩
  · intro i hi
    rcases hkept with hkept | hkept
    · rw [hwiped.kept i (by omega) (.inl (by omega))]
      exact hfollows.kept hkept i (by change i + (t.printed line).lines * _ < _; omega)
    · omega
  · intro i hi hi'
    exact hwiped.blank i (by omega) hi'
  · intro i hi hbehind
    by_cases hfirst : i = 0
    · subst hfirst
      have hzero : w₁.index = 0 := Nat.le_zero.mp hbehind
      by_cases hnil : line.text = []
      · have hnone : line.text.len = 0 := by
          rw [hnil]
          rfl
        exact hwiped.kept 0 hi (.inr ⟨hbehind, .inr hnone⟩)
      · have htop := (hfollows.top hnil hzero).resolve_right (by
          change ¬ _ ≤ (t.printed line).lines * _
          omega)
        rw [htop, hwiped.top hzero htop]
    · exact hwiped.kept i hi (.inr ⟨hbehind, .inl hfirst⟩)

theorem clearsLine_of_plain
    (hstart : (t.printed line).lines * columns t.writer.info ≤ t.writer.index)
    (hplain : (∀ ch ∈ line.text, Plain ch) ∨
      t.writer.index = (t.printed line).lines * columns t.writer.info) : t.ClearsLine line := by
  apply Returns.mono follows_print
  intro w₁ hfollows
  apply (wiped_clearLine hfollows).mono
  intro w₂ hwiped
  obtain ⟨hle, hiff⟩ := @passed_printed t line
  have hindex : w₁.index = (t.printed line).index := hfollows.index
  have hwipedIndex := hwiped.index
  rw [Spot.passed] at hle hiff
  apply cleared_of_wiped hfollows hwiped hstart
  · rcases hplain with hplain | hplain
    · rw [← hiff] at hplain
      omega
    · omega
  · apply hplain.imp_left
    intro hplain hback
    exact (hplain _ hback).1 rfl

end Terminal

/-- A line is cleared if and only if its start is still on the screen, and either each of its
characters is a single byte and no backspace or its start has become the first cell of the
screen. -/
theorem clearsLine_iff (t : Terminal) (line : Line) : t.ClearsLine line ↔
    (t.printed line).lines * columns t.writer.info ≤ t.writer.index ∧
      ((∀ ch ∈ line.text, Plain ch) ∨
        t.writer.index = (t.printed line).lines * columns t.writer.info) := by
  constructor
  · exact Terminal.plain_of_clearsLine
  · rintro ⟨hstart, hplain⟩
    exact Terminal.clearsLine_of_plain hstart hplain

/-- A screen of three cells with the cursor at the second one. -/
def threeCells : Terminal where
  font := sampleFont
  space := rfl
  writer := ⟨List.replicate 648 0, ⟨0, 648, 24, 9, 24, 3, 0⟩, 8, 0⟩
  drawn := .inl rfl
  sound := by
    have hfits : Fits ⟨0, 648, 24, 9, 24, 3, 0⟩ (List.replicate 648 (0 : UInt8)).length := by
      rw [List.length_replicate]
      constructor <;> decide
    refine ⟨hfits, rfl, rfl, ?_⟩
    constructor <;> decide

/-- Two cells are cleared after a letter of two bytes. -/
theorem not_clearsLine_umlaut : ¬ ∀ (t : Terminal) (line : Line), t.ClearsLine line := by
  intro h
  have humlaut :=
    (Terminal.plain_of_clearsLine (h threeCells ⟨['ä'], by decide, by decide⟩)).2
  rcases humlaut with hplain | hstart
  · exact absurd (hplain 'ä' List.mem_cons_self).2 (by decide)
  · exact absurd hstart (by decide)

end SmallOs.Shell
