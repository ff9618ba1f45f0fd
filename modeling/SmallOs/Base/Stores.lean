import SmallOs.Base.Memory

/-!
# Byte stores

A loop that copies bytes stores them one after the other. Its stores are a list here, so that what
is said of each of them and what they leave in memory can be said of the same thing.
-/

namespace SmallOs.Base

/-- The stores that lay bytes from an address on, in order. -/
def copyTo (a : Nat) : List UInt8 → List (Nat × UInt8)
  | [] => []
  | b :: bytes => (a, b) :: copyTo (a + 1) bytes

theorem copyTo_append (a : Nat) (x y : List UInt8) :
    copyTo a (x ++ y) = copyTo a x ++ copyTo (a + x.length) y := by
  induction x generalizing a with
  | nil => rfl
  | cons b x ih =>
    rw [List.cons_append, copyTo, ih, copyTo, List.cons_append, List.length_cons,
      Nat.add_right_comm a 1, Nat.add_assoc a]

/-- The addresses of the stores are those of the window. -/
theorem map_fst_copyTo (a : Nat) (bytes : List UInt8) :
    (copyTo a bytes).map Prod.fst = List.range' a bytes.length := by
  induction bytes generalizing a with
  | nil => rfl
  | cons b bytes ih => rw [copyTo, List.map_cons, ih, List.length_cons, List.range'_succ]

namespace Memory

/-- Memory behind a list of stores. -/
def storeAll (m : Memory) (stores : List (Nat × UInt8)) : Memory :=
  stores.foldl (fun m s ↦ m.store s.1 [s.2]) m

theorem storeAll_append (m : Memory) (x y : List (Nat × UInt8)) :
    m.storeAll (x ++ y) = (m.storeAll x).storeAll y := by
  rw [storeAll, storeAll, storeAll, List.foldl_append]

/-- Stores elsewhere leave a byte. -/
theorem storeAll_outside (m : Memory) {stores : List (Nat × UInt8)} {p : Nat}
    (h : ∀ x ∈ stores, x.1 ≠ p) : m.storeAll stores p = m p := by
  induction stores generalizing m with
  | nil => rfl
  | cons x stores ih =>
    have hx := h x List.mem_cons_self
    have htail := ih (m.store x.1 [x.2]) fun y hy ↦ h y (List.mem_cons_of_mem x hy)
    rw [storeAll, List.foldl_cons, ← storeAll, htail]
    apply store_outside
    rw [List.length_singleton]
    omega

/-- A byte that is stored once is what its address holds. -/
theorem storeAll_of_mem (m : Memory) {stores : List (Nat × UInt8)}
    (hn : (stores.map Prod.fst).Nodup) {a : Nat} {b : UInt8} (h : (a, b) ∈ stores) :
    m.storeAll stores a = b := by
  induction stores generalizing m with
  | nil => cases h
  | cons x stores ih =>
    rw [List.map_cons, List.nodup_cons] at hn
    rw [storeAll, List.foldl_cons, ← storeAll]
    rcases List.mem_cons.mp h with rfl | h
    · have hlater : ∀ y ∈ stores, y.1 ≠ a := by
        intro y hy hsame
        exact hn.1 (List.mem_map.mpr ⟨y, hy, hsame⟩)
      rw [storeAll_outside _ hlater]
      exact m.store_inside a [b] 0 Nat.zero_lt_one
    · exact ih _ hn.2 h

/-- Bytes that are stored one by one are stored. -/
theorem storeAll_copyTo (m : Memory) (a : Nat) (bytes : List UInt8) :
    m.storeAll (copyTo a bytes) = m.store a bytes := by
  induction bytes generalizing m a with
  | nil =>
    funext p
    rw [copyTo, storeAll, List.foldl_nil, store_outside m (Nat.lt_or_ge p a)]
  | cons b bytes ih =>
    have hsplit : m.store a (b :: bytes) = (m.store a [b]).store (a + 1) bytes :=
      m.store_append a [b] bytes
    rw [copyTo, storeAll, List.foldl_cons, ← storeAll, ih, hsplit]

end Memory

end SmallOs.Base
