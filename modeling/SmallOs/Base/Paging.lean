import SmallOs.Base.Links

/-!
# Four-level page tables

A table is a page of 512 words. An entry holds flags in its low bits and an address in those up
to bit 51: the next table, or a page where the walk ends.
-/

namespace SmallOs.Base

/-- Bit 0 of an entry. -/
def Present (e : Nat) : Prop := e % 2 = 1

/-- Bit 7 of an entry, by which a directory entry maps a large page. -/
def Large (e : Nat) : Prop := e / 2 ^ 7 % 2 = 1

instance (e : Nat) : Decidable (Present e) := inferInstanceAs (Decidable (_ = _))
instance (e : Nat) : Decidable (Large e) := inferInstanceAs (Decidable (_ = _))

/-- The address of a page of `2 ^ k` bytes that an entry holds. -/
def addrBits (k e : Nat) : Nat := e / 2 ^ k % 2 ^ (52 - k) * 2 ^ k

/-- The upper 16 bits of an address repeat bit 47. -/
def Canonical (v : Nat) : Prop := v < 2 ^ 47 ∨ 2 ^ 64 - 2 ^ 47 ≤ v ∧ v < 2 ^ 64

instance (v : Nat) : Decidable (Canonical v) := inferInstanceAs (Decidable (_ ∨ _))

/-- Where a table has the entry of an address, whose index starts at bit `k`. -/
def entryAddr (table k v : Nat) : Nat := table + 8 * (v / 2 ^ k % 512)

namespace Memory

/-- The entry of the first table. -/
def entry4 (m : Memory) (cr3 v : Nat) : Nat := m.word (entryAddr cr3 39 v)

/-- The entry of the second table. -/
def entry3 (m : Memory) (cr3 v : Nat) : Nat :=
  m.word (entryAddr (addrBits 12 (m.entry4 cr3 v)) 30 v)

/-- The entry of the third table. -/
def entry2 (m : Memory) (cr3 v : Nat) : Nat :=
  m.word (entryAddr (addrBits 12 (m.entry3 cr3 v)) 21 v)

/-- Where the last table has its entry. -/
def entryAddr1 (m : Memory) (cr3 v : Nat) : Nat := entryAddr (addrBits 12 (m.entry2 cr3 v)) 12 v

/-- The physical address of a virtual one. -/
def walk (m : Memory) (cr3 v : Nat) : Option Nat :=
  if ¬Canonical v then none
  else if ¬Present (m.entry4 cr3 v) then none
  else if ¬Present (m.entry3 cr3 v) then none
  else if Large (m.entry3 cr3 v) then some (addrBits 30 (m.entry3 cr3 v) + v % 2 ^ 30)
  else if ¬Present (m.entry2 cr3 v) then none
  else if Large (m.entry2 cr3 v) then some (addrBits 21 (m.entry2 cr3 v) + v % 2 ^ 21)
  else if ¬Present (m.word (m.entryAddr1 cr3 v)) then none
  else some (addrBits 12 (m.word (m.entryAddr1 cr3 v)) + v % 2 ^ 12)

variable {m : Memory} {cr3 v : Nat}

theorem walk_of_not_canonical (h : ¬Canonical v) : m.walk cr3 v = none := by
  rw [walk, if_pos h]

/-- Nothing is mapped where the first table has no entry. -/
theorem walk_of_not_present4 (h : ¬Present (m.entry4 cr3 v)) : m.walk cr3 v = none := by
  rw [walk]
  by_cases hv : Canonical v
  · rw [if_neg (not_not_intro hv), if_pos h]
  · rw [if_pos hv]

/-- Nothing is mapped where the second table has no entry. -/
theorem walk_of_not_present3 (h : ¬Present (m.entry3 cr3 v)) : m.walk cr3 v = none := by
  by_cases h4 : Present (m.entry4 cr3 v)
  · rw [walk]
    by_cases hv : Canonical v
    · rw [if_neg (not_not_intro hv), if_neg (not_not_intro h4), if_pos h]
    · rw [if_pos hv]
  · exact walk_of_not_present4 h4

/-- The entries of the first three tables, as far as a small or a large page needs them. -/
structure Reached (m : Memory) (cr3 v : Nat) : Prop where
  canonical : Canonical v
  present4 : Present (m.entry4 cr3 v)
  present3 : Present (m.entry3 cr3 v)
  small3 : ¬Large (m.entry3 cr3 v)
  present2 : Present (m.entry2 cr3 v)

/-- An address in a large page. -/
theorem walk_of_large (h : m.Reached cr3 v) (hl : Large (m.entry2 cr3 v)) :
    m.walk cr3 v = some (addrBits 21 (m.entry2 cr3 v) + v % 2 ^ 21) := by
  rw [walk, if_neg (not_not_intro h.canonical), if_neg (not_not_intro h.present4),
    if_neg (not_not_intro h.present3), if_neg h.small3, if_neg (not_not_intro h.present2),
    if_pos hl]

/-- An address in a small page. -/
theorem walk_of_small (h : m.Reached cr3 v) (hl : ¬Large (m.entry2 cr3 v))
    (hp : Present (m.word (m.entryAddr1 cr3 v))) :
    m.walk cr3 v = some (addrBits 12 (m.word (m.entryAddr1 cr3 v)) + v % 2 ^ 12) := by
  rw [walk, if_neg (not_not_intro h.canonical), if_neg (not_not_intro h.present4),
    if_neg (not_not_intro h.present3), if_neg h.small3, if_neg (not_not_intro h.present2),
    if_neg hl, if_neg (not_not_intro hp)]

/-- Nothing is mapped where the last table has no entry. -/
theorem walk_of_not_present1 (h : m.Reached cr3 v) (hl : ¬Large (m.entry2 cr3 v))
    (hp : ¬Present (m.word (m.entryAddr1 cr3 v))) : m.walk cr3 v = none := by
  rw [walk, if_neg (not_not_intro h.canonical), if_neg (not_not_intro h.present4),
    if_neg (not_not_intro h.present3), if_neg h.small3, if_neg (not_not_intro h.present2),
    if_neg hl, if_pos hp]

/-- The tables that the walk of an address reads, by level. -/
inductive ReadsTable (m : Memory) (cr3 v : Nat) : Nat → Nat → Prop
  | four (hv : Canonical v) : ReadsTable m cr3 v 4 cr3
  | three (hv : Canonical v) (h4 : Present (m.entry4 cr3 v)) :
    ReadsTable m cr3 v 3 (addrBits 12 (m.entry4 cr3 v))
  | two (hv : Canonical v) (h4 : Present (m.entry4 cr3 v)) (h3 : Present (m.entry3 cr3 v))
    (hs : ¬Large (m.entry3 cr3 v)) : ReadsTable m cr3 v 2 (addrBits 12 (m.entry3 cr3 v))
  | one (h : m.Reached cr3 v) (hs : ¬Large (m.entry2 cr3 v)) :
    ReadsTable m cr3 v 1 (addrBits 12 (m.entry2 cr3 v))

end Memory

/-- What the addresses of one table of a level have in common. -/
def tablePrefix (level v : Nat) : Nat := v % 2 ^ 48 / 2 ^ (12 + 9 * level)

end SmallOs.Base
