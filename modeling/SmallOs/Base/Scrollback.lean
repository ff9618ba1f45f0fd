import SmallOs.Base.Lists

/-!
# Text that scrolls

Glyphs in the cells of a page, in lines from its top. A glyph goes into the cell behind the last
one, a new line leaves the rest of its line blank, an erased cell is blank again, and where no cell
would be left for the next glyph the first line goes.
-/

namespace SmallOs.Base

/-- A page of at least one cell. -/
structure Page where
  columns : Nat
  lines : Nat
  columns_pos : 0 < columns
  lines_pos : 0 < lines

namespace Page

variable (p : Page)

/-- How many cells a page has. -/
def cells : Nat := p.columns * p.lines

theorem columns_le_cells : p.columns ≤ p.cells := Nat.le_mul_of_pos_right _ p.lines_pos

theorem cells_pos : 0 < p.cells := Nat.mul_pos p.columns_pos p.lines_pos

/-- Where the next line starts. -/
def nextLine (i : Nat) : Nat := (i / p.columns + 1) * p.columns

theorem lt_nextLine (i : Nat) : i < p.nextLine i := by
  rw [nextLine, Nat.mul_comm]
  exact Nat.lt_mul_div_succ i p.columns_pos

theorem nextLine_le {i : Nat} (h : i < p.cells) : p.nextLine i ≤ p.cells := by
  rw [nextLine, cells, Nat.mul_comm p.columns]
  exact Nat.mul_le_mul_right _ (Nat.div_lt_of_lt_mul h)

end Page

variable {γ : Type}

/-- What a cell shows; behind the text the cells are blank. -/
def shown (text : List (Option γ)) (i : Nat) : Option γ := text[i]?.join

theorem shown_of_le {text : List (Option γ)} {i : Nat} (h : text.length ≤ i) :
    shown text i = none := by
  rw [shown, List.getElem?_eq_none h]
  rfl

theorem shown_append_left {text more : List (Option γ)} {i : Nat} (h : i < text.length) :
    shown (text ++ more) i = shown text i := by
  rw [shown, shown, List.getElem?_append_left h]

theorem shown_append_none {text : List (Option γ)} {n i : Nat} :
    shown (text ++ List.replicate n none) i = shown text i := by
  by_cases h : i < text.length
  · exact shown_append_left h
  · rw [shown_of_le (Nat.le_of_not_lt h), shown, List.getElem?_append_right (Nat.le_of_not_lt h),
      List.getElem?_replicate]
    split <;> rfl

theorem shown_append_self {text : List (Option γ)} {g : γ} :
    shown (text ++ [some g]) text.length = some g := by
  rw [shown, List.getElem?_concat_length]
  rfl

theorem shown_drop {text : List (Option γ)} {n i : Nat} :
    shown (text.drop n) i = shown text (i + n) := by
  rw [shown, shown, List.getElem?_drop, Nat.add_comm]

theorem shown_dropLast {text : List (Option γ)} {i : Nat} (h : i ≠ text.length - 1) :
    shown text.dropLast i = shown text i := by
  rw [shown, shown, List.getElem?_dropLast]
  split
  · rfl
  · rw [List.getElem?_eq_none (by omega)]

/-- The text on a page, up to the cell of the cursor. -/
structure Scrollback (γ : Type) (p : Page) where
  text : List (Option γ)
  room : text.length < p.cells

namespace Scrollback

variable {p : Page} (t : Scrollback γ p)

/-- A page without text. -/
def empty (γ : Type) (p : Page) : Scrollback γ p := ⟨[], p.cells_pos⟩

/-- A text that leaves no cell loses its first line. -/
def scroll (p : Page) (text : List (Option γ)) : List (Option γ) :=
  if text.length < p.cells then text else text.drop p.columns

theorem length_scroll {text : List (Option γ)} (h : text.length ≤ p.cells) :
    (scroll p text).length < p.cells := by
  unfold scroll
  split
  · assumption
  · have hcolumns := p.columns_pos
    have hcells := p.cells_pos
    rw [List.length_drop]
    omega

/-- A glyph in the cell of the cursor. -/
def put (g : γ) : Scrollback γ p where
  text := scroll p (t.text ++ [some g])
  room := length_scroll (by
    rw [List.length_append]
    exact t.room)

/-- The rest of the line is left blank. -/
def padded : List (Option γ) :=
  t.text ++ List.replicate (p.nextLine t.text.length - t.text.length) none

theorem length_padded : t.padded.length = p.nextLine t.text.length := by
  have hlt := p.lt_nextLine t.text.length
  rw [padded, List.length_append, List.length_replicate]
  omega

/-- To the start of the next line. -/
def newLine : Scrollback γ p where
  text := scroll p t.padded
  room := length_scroll (by
    rw [length_padded]
    exact p.nextLine_le t.room)

/-- The last cell is blank again. -/
def erase : Scrollback γ p where
  text := t.text.dropLast
  room := by
    rw [List.length_dropLast]
    exact Nat.lt_of_le_of_lt (Nat.sub_le _ _) t.room

/-! ### Text that is only added to -/

/-- Glyphs, and `none` for a new line, on a page without a last line. -/
def flow (p : Page) (text : List (Option γ)) : Option γ → List (Option γ)
  | some g => text ++ [some g]
  | none => text ++ List.replicate (p.nextLine text.length - text.length) none

/-- The same on a page. -/
def add (t : Scrollback γ p) : Option γ → Scrollback γ p
  | some g => t.put g
  | none => t.newLine

/-- The page holds all of a text but its first lines. -/
structure Drops (k : Nat) (text : List (Option γ)) (t : Scrollback γ p) : Prop where
  text_eq : t.text = text.drop (k * p.columns)
  dropped_le : k * p.columns ≤ text.length

theorem Drops.length {k : Nat} {text : List (Option γ)} {t : Scrollback γ p} (h : Drops k text t) :
    t.text.length = text.length - k * p.columns := by
  rw [h.text_eq, List.length_drop]

theorem drops_scroll {text : List (Option γ)} {k : Nat} (t : Scrollback γ p)
    (ht : t.text = scroll p (text.drop (k * p.columns))) (hk : k * p.columns ≤ text.length) :
    Drops k text t ∨ Drops (k + 1) text t ∧ p.cells ≤ text.length - k * p.columns := by
  have hcolumns := p.columns_le_cells
  rw [scroll, List.length_drop] at ht
  by_cases hroom : text.length - k * p.columns < p.cells
  · rw [if_pos hroom] at ht
    exact .inl ⟨ht, hk⟩
  · rw [if_neg hroom, List.drop_drop] at ht
    refine .inr ⟨⟨?_, ?_⟩, Nat.le_of_not_lt hroom⟩
    · rw [ht, Nat.add_one_mul]
    · rw [Nat.add_one_mul]
      omega

/-- What is added to the page is added to the text, and a line goes only if the page was full. -/
theorem drops_add {text : List (Option γ)} {t : Scrollback γ p} {k : Nat} (h : Drops k text t)
    (g : Option γ) : Drops k (flow p text g) (t.add g) ∨
      Drops (k + 1) (flow p text g) (t.add g) ∧
        p.cells ≤ (flow p text g).length - k * p.columns := by
  obtain ⟨ht, hk⟩ := h
  have hlength : t.text.length = text.length - k * p.columns := by rw [ht, List.length_drop]
  cases g with
  | some g =>
    apply drops_scroll (t.add (some g))
    · change scroll p (t.text ++ [some g]) = _
      rw [ht, flow, List.drop_append_of_le_length hk]
    · rw [flow, List.length_append]
      omega
  | none =>
    have hsplit : text.length = t.text.length + k * p.columns := by omega
    have hnext : p.nextLine text.length = p.nextLine t.text.length + k * p.columns := by
      rw [Page.nextLine, Page.nextLine, hsplit, Nat.add_mul_div_right _ _ p.columns_pos,
        Nat.add_right_comm, Nat.add_mul]
    have hmore : p.nextLine text.length - text.length =
        p.nextLine t.text.length - t.text.length := by omega
    apply drops_scroll (t.add none)
    · change scroll p t.padded = _
      rw [padded, flow, List.drop_append_of_le_length hk, hmore, ← ht]
    · rw [flow, List.length_append]
      omega

theorem length_le_flow (text : List (Option γ)) (g : Option γ) :
    text.length ≤ (flow p text g).length := by
  cases g <;> simp [flow]

/-- The lines of a text in front of the last ones that fit on a page. -/
def hidden (p : Page) (text : List (Option γ)) : Nat := text.length / p.columns + 1 - p.lines

/-- The lines that are gone are those that do not fit, or some more. -/
theorem Drops.hidden_le {k : Nat} {text : List (Option γ)} {t : Scrollback γ p}
    (h : Drops k text t) : hidden p text ≤ k := by
  have hroom := t.room
  have hlines := p.lines_pos
  rw [h.length, Page.cells, Nat.mul_comm p.columns] at hroom
  have hlast : text.length / p.columns < p.lines + k := by
    rw [Nat.div_lt_iff_lt_mul p.columns_pos, Nat.add_mul]
    omega
  rw [hidden]
  omega

/-- Where a page is full, its first line has to go. -/
theorem lt_hidden {k : Nat} {text : List (Option γ)} (h : p.cells ≤ text.length - k * p.columns) :
    k < hidden p text := by
  have hcells := p.cells_pos
  have hlines := p.lines_pos
  rw [Page.cells, Nat.mul_comm p.columns] at h hcells
  have hfirst : p.lines + k ≤ text.length / p.columns := by
    rw [Nat.le_div_iff_mul_le p.columns_pos, Nat.add_mul]
    omega
  rw [hidden]
  omega

theorem hidden_mono {text text' : List (Option γ)} (h : text.length ≤ text'.length) :
    hidden p text ≤ hidden p text' := by
  have hdiv := Nat.div_le_div_right (c := p.columns) h
  rw [hidden, hidden]
  omega

/-- What is added to the page makes those lines go that do not fit. -/
theorem drops_max_add {text : List (Option γ)} {t : Scrollback γ p} {k : Nat} (h : Drops k text t)
    (g : Option γ) : Drops (max k (hidden p (flow p text g))) (flow p text g) (t.add g) := by
  rcases drops_add h g with hsame | ⟨hmore, hfull⟩
  · rwa [Nat.max_eq_left hsame.hidden_le]
  · have hlt := lt_hidden hfull
    have hle := hmore.hidden_le
    have hmax : max k (hidden p (flow p text g)) = k + 1 := by omega
    rwa [hmax]

theorem drops_max_foldl_add {text : List (Option γ)} {t : Scrollback γ p} {k : Nat}
    (h : Drops k text t) (gs : List (Option γ)) :
    Drops (max k (hidden p (gs.foldl (flow p) text))) (gs.foldl (flow p) text) (gs.foldl add t) := by
  induction gs generalizing text t k with
  | nil =>
    rw [List.foldl_nil, Nat.max_eq_left h.hidden_le]
    exact h
  | cons g gs ih =>
    have hall : hidden p (flow p text g) ≤ hidden p (gs.foldl (flow p) (flow p text g)) := by
      apply hidden_mono
      exact List.foldlRecOn (motive := fun l ↦ (flow p text g).length ≤ l.length) gs _
        (Nat.le_refl _) fun l hl g _ ↦ Nat.le_trans hl (length_le_flow l g)
    have hrest := ih (drops_max_add h g)
    rwa [Nat.max_assoc, Nat.max_eq_right hall] at hrest

/-- A page shows the last lines of all that has been added to it. -/
theorem text_foldl_add (gs : List (Option γ)) :
    (gs.foldl add (empty γ p)).text =
      (gs.foldl (flow p) []).drop (hidden p (gs.foldl (flow p) []) * p.columns) := by
  have hempty : Drops 0 [] (empty γ p) := ⟨List.drop_nil.symm, Nat.le_of_eq (Nat.zero_mul _)⟩
  have hall := (drops_max_foldl_add hempty gs).text_eq
  rwa [Nat.zero_max] at hall

end Scrollback

end SmallOs.Base
