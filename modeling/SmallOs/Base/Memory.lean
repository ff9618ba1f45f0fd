import SmallOs.Base.Bytes

/-!
# Memory

Memory is a byte at every address. A store changes its own window and nothing else.
-/

namespace SmallOs.Base

/-- The byte at each address. -/
abbrev Memory := Nat → UInt8

namespace Memory

/-- The `len` bytes from an address on. -/
def load (m : Memory) (off len : Nat) : List UInt8 := (List.range len).map fun i ↦ m (off + i)

/-- Lay bytes at an address. -/
def store (m : Memory) (off : Nat) (data : List UInt8) : Memory := fun p ↦
  if off ≤ p then data.getD (p - off) (m p) else m p

@[simp] theorem length_load (m : Memory) (off len : Nat) : (m.load off len).length = len := by
  rw [load, List.length_map, List.length_range]

theorem getElem?_load (m : Memory) (off len i : Nat) :
    (m.load off len)[i]? = if i < len then some (m (off + i)) else none := by
  rw [load, List.getElem?_map]
  by_cases hi : i < len
  · rw [if_pos hi, List.getElem?_range hi]
    rfl
  · rw [if_neg hi, List.getElem?_eq_none (by rw [List.length_range]; omega)]
    rfl

/-- Memories that agree on a window load the same. -/
theorem load_congr {m m' : Memory} {off len : Nat}
    (h : ∀ p, off ≤ p → p < off + len → m p = m' p) : m.load off len = m'.load off len := by
  apply List.map_congr_left
  intro i hi
  exact h _ (by omega) (by have := List.mem_range.mp hi; omega)

theorem store_inside (m : Memory) (off : Nat) (data : List UInt8) (i : Nat) (h : i < data.length) :
    m.store off data (off + i) = data[i] := by
  rw [store, if_pos (Nat.le_add_right _ _), Nat.add_sub_cancel_left, List.getD_eq_getElem?_getD,
    List.getElem?_eq_getElem h, Option.getD_some]

theorem store_outside (m : Memory) {off : Nat} {data : List UInt8} {p : Nat}
    (h : p < off ∨ off + data.length ≤ p) : m.store off data p = m p := by
  rw [store]
  by_cases hp : off ≤ p
  · rw [if_pos hp, List.getD_eq_getElem?_getD, List.getElem?_eq_none (by omega), Option.getD_none]
  · rw [if_neg hp]

/-- The stored window loads back, up to any length within it. -/
theorem load_store_take (m : Memory) (off : Nat) (data : List UInt8) {len : Nat}
    (h : len ≤ data.length) : (m.store off data).load off len = data.take len := by
  apply List.ext_getElem?
  intro i
  rw [getElem?_load, List.getElem?_take]
  by_cases hi : i < len
  · rw [if_pos hi, if_pos hi, store_inside m off data i (by omega),
      List.getElem?_eq_getElem (by omega)]
  · rw [if_neg hi, if_neg hi]

theorem load_store_same (m : Memory) (off : Nat) (data : List UInt8) :
    (m.store off data).load off data.length = data := by
  rw [load_store_take m off data (Nat.le_refl _), List.take_length]

/-- A window inside of equal stored bytes. -/
theorem load_store_replicate (m : Memory) (b : UInt8) {off n off' len : Nat} (hlow : off ≤ off')
    (hhigh : off' + len ≤ off + n) :
    (m.store off (List.replicate n b)).load off' len = List.replicate len b := by
  apply List.ext_getElem?
  intro i
  rw [getElem?_load, List.getElem?_replicate]
  by_cases hi : i < len
  · obtain ⟨k, rfl⟩ := Nat.exists_eq_add_of_le hlow
    have hk : k + i < (List.replicate n b).length := by
      rw [List.length_replicate]
      omega
    rw [if_pos hi, if_pos hi, Nat.add_assoc, store_inside m off _ (k + i) hk,
      List.getElem_replicate]
  · rw [if_neg hi, if_neg hi]

/-- A window apart from the stored one is unchanged. -/
theorem load_store_disjoint (m : Memory) {off : Nat} {data : List UInt8} {off' len : Nat}
    (h : off' + len ≤ off ∨ off + data.length ≤ off') :
    (m.store off data).load off' len = m.load off' len := by
  apply load_congr
  intro p _ _
  exact store_outside m (by omega)

theorem take_load (m : Memory) (off : Nat) {len k : Nat} (h : k ≤ len) :
    (m.load off len).take k = m.load off k := by
  rw [load, load, ← List.map_take, List.take_range, Nat.min_eq_left h]

/-- A window splits at any inner position. -/
theorem load_add (m : Memory) (off k len : Nat) :
    m.load off (k + len) = m.load off k ++ m.load (off + k) len := by
  rw [load, load, load, List.range_add, List.map_append, List.map_map]
  congr 1
  apply List.map_congr_left
  intro i _
  simp only [Function.comp_apply, Nat.add_assoc]

/-- A store in one go is a store in two. -/
theorem store_append (m : Memory) (off : Nat) (a b : List UInt8) :
    m.store off (a ++ b) = (m.store off a).store (off + a.length) b := by
  have hlen : (a ++ b).length = a.length + b.length := List.length_append
  funext p
  by_cases hfirst : off ≤ p ∧ p < off + a.length
  · obtain ⟨i, rfl⟩ := Nat.exists_eq_add_of_le hfirst.1
    have hi : i < a.length := by omega
    have hright : (m.store off a).store (off + a.length) b (off + i) = m.store off a (off + i) :=
      store_outside _ (Or.inl hfirst.2)
    rw [hright, store_inside m off a i hi, store_inside m off (a ++ b) i (by omega),
      List.getElem_append_left hi]
  · by_cases hsecond : off + a.length ≤ p ∧ p < off + a.length + b.length
    · obtain ⟨j, rfl⟩ := Nat.exists_eq_add_of_le hsecond.1
      have hj : j < b.length := by omega
      rw [store_inside _ (off + a.length) b j hj, Nat.add_assoc,
        store_inside m off (a ++ b) (a.length + j) (by omega),
        List.getElem_append_right (Nat.le_add_right _ _)]
      simp only [Nat.add_sub_cancel_left]
    · have hright : (m.store off a).store (off + a.length) b p = m.store off a p :=
        store_outside _ (by omega)
      rw [hright, store_outside _ (by omega), store_outside _ (by omega)]

/-- A store changes nothing exactly when its bytes are there already. -/
theorem store_eq_self (m : Memory) (off : Nat) (data : List UInt8) :
    m.store off data = m ↔ m.load off data.length = data := by
  constructor
  · intro h
    have hsame := load_store_same m off data
    rwa [h] at hsame
  · intro h
    funext p
    by_cases hp : off ≤ p ∧ p < off + data.length
    · obtain ⟨i, rfl⟩ := Nat.exists_eq_add_of_le hp.1
      have hi : i < data.length := by omega
      have hget := getElem?_load m off data.length i
      rw [h, if_pos hi, List.getElem?_eq_getElem hi] at hget
      rw [store_inside m off data i hi, Option.some.inj hget]
    · exact store_outside m (by omega)

end Memory
end SmallOs.Base
