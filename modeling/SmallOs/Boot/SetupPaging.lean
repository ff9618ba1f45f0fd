import SmallOs.Base.Paging

/-!
# The page tables of stage 2

`bootloader/stage2/protected_mode/paging.asm`: all addresses below 4 GiB map to themselves in
pages of 2 MiB, except those of the heap window, whose eight directory entries point to empty
tables.
-/

namespace SmallOs.Boot

open SmallOs.Base

/-- Two stores of a double word each: an entry of a table. -/
def putEntry (m : Memory) (edi : Nat) (entry : Nat × Nat) : Memory :=
  (m.store edi (leBytes 4 entry.1)).store (edi + 4) (leBytes 4 entry.2)

/-- Entries one after another; `next` is how a loop changes its registers for the next one. -/
def putEntries (next : Nat × Nat → Nat × Nat) : Nat → Nat → Nat × Nat → Memory → Memory
  | 0, _, _, m => m
  | ecx + 1, edi, entry, m => putEntries next ecx (edi + 8) (next entry) (putEntry m edi entry)

/-- `add eax, step` without the carry. -/
def addEax (step : Nat) (entry : Nat × Nat) : Nat × Nat := ((entry.1 + step) % 2 ^ 32, entry.2)

/-- `add eax, step`, and `inc edx` unless there is no carry. -/
def addCarry (step : Nat) (entry : Nat × Nat) : Nat × Nat :=
  ((entry.1 + step) % 2 ^ 32,
    if entry.1 + step < 2 ^ 32 then entry.2 else (entry.2 + 1) % 2 ^ 32)

/-- `bootloader/stage2/protected_mode/paging.asm:22–33`. -/
def pdLoop : Memory → Memory := putEntries (addEax 0x200000) 2048 0x72000 (0x83, 0)

/-- `bootloader/stage2/protected_mode/paging.asm:36–46`. -/
def heapPts : Memory → Memory := putEntries (addEax 0x1000) 8 (0x72000 + 16 * 8) (0x76003, 0)

/-- `bootloader/stage2/protected_mode/paging.asm:48–66`. -/
def highPdptLoop : Memory → Memory := putEntries (addCarry 0x40000000) 512 0x7E000 (0, 0x80)

/-- What `setup_paging` loads into `cr3`. -/
def pagingRoot : Nat := 0x70000

/-- `bootloader/stage2/protected_mode/paging.asm:3–20`: sixteen pages are cleared, and the entries
of the upper tables are laid. -/
def upperTables (m : Memory) : Memory :=
  let m := m.store 0x70000 (List.replicate (16 * 1024 * 4) 0)
  let m := putEntry m 0x70000 (0x71003, 0)
  let m := putEntry m (0x70000 + 1 * 8) (0x7E003, 0)
  let m := putEntry m 0x71000 (0x72003, 0)
  let m := putEntry m (0x71000 + 1 * 8) (0x73003, 0)
  let m := putEntry m (0x71000 + 2 * 8) (0x74003, 0)
  putEntry m (0x71000 + 3 * 8) (0x75003, 0)

/-- `bootloader/stage2/protected_mode/paging.asm:1–70`. -/
def setupPaging (m : Memory) : Memory := highPdptLoop (heapPts (pdLoop (upperTables m)))

/-! ### Loops that lay entries -/

/-- The value of an entry laid as two double words. -/
def value (entry : Nat × Nat) : Nat := entry.1 + 2 ^ 32 * entry.2

theorem putEntry_eq (m : Memory) (edi : Nat) (entry : Nat × Nat) :
    putEntry m edi entry = m.store edi (leBytes 4 entry.1 ++ leBytes 4 entry.2) := by
  rw [Memory.store_append, length_leBytes]
  rfl

theorem word_putEntry (m : Memory) (edi : Nat) {entry : Nat × Nat} (h : entry.1 < 2 ^ 32)
    (h' : entry.2 < 2 ^ 32) : (putEntry m edi entry).word edi = value entry := by
  have hload := m.load_store_same edi (leBytes 4 entry.1 ++ leBytes 4 entry.2)
  rw [List.length_append, length_leBytes, length_leBytes] at hload
  rw [putEntry_eq, Memory.word, hload, leNat_append, length_leBytes,
    leNat_leBytes_of_lt (Nat.lt_of_lt_of_eq h (by decide)),
    leNat_leBytes_of_lt (Nat.lt_of_lt_of_eq h' (by decide))]
  rfl

theorem word_putEntry_apart (m : Memory) {edi a : Nat} (entry : Nat × Nat)
    (h : (Span.mk a 8).Apart ⟨edi, 8⟩) : (putEntry m edi entry).word a = m.word a := by
  rw [putEntry_eq]
  apply m.word_store
  rw [List.length_append, length_leBytes, length_leBytes]
  exact h

variable {next : Nat × Nat → Nat × Nat}

/-- A loop leaves the words apart from its entries alone. -/
theorem word_putEntries_apart {n edi a : Nat} (entry : Nat × Nat) (m : Memory)
    (h : (Span.mk a 8).Apart ⟨edi, 8 * n⟩) : (putEntries next n edi entry m).word a = m.word a := by
  induction n generalizing edi entry m with
  | zero => rfl
  | succ n ih =>
    simp only [Span.Apart, Span.stop] at h
    rw [putEntries, ih]
    · apply word_putEntry_apart
      simp only [Span.Apart, Span.stop]
      omega
    · simp only [Span.Apart, Span.stop]
      omega

/-- A loop lays the values that its registers run through. -/
theorem word_putEntries {n edi : Nat} (v : Nat → Nat × Nat) (m : Memory)
    (hnext : ∀ i, i + 1 < n → next (v i) = v (i + 1))
    (hv : ∀ i < n, (v i).1 < 2 ^ 32 ∧ (v i).2 < 2 ^ 32) {i : Nat} (hi : i < n) :
    (putEntries next n edi (v 0) m).word (edi + 8 * i) = value (v i) := by
  induction n generalizing edi v m i with
  | zero => exact absurd hi (Nat.not_lt_zero i)
  | succ n ih =>
    rw [putEntries]
    cases i with
    | zero =>
      rw [word_putEntries_apart]
      · exact word_putEntry m edi (hv 0 hi).1 (hv 0 hi).2
      · simp only [Span.Apart, Span.stop]
        omega
    | succ i =>
      have hi' : i < n := Nat.lt_of_succ_lt_succ hi
      have hrest : (putEntries next n (edi + 8) (v 1) (putEntry m edi (v 0))).word
          (edi + 8 + 8 * i) = value (v (i + 1)) := by
        apply ih (fun i ↦ v (i + 1))
        · intro i hi
          exact hnext (i + 1) (Nat.succ_lt_succ hi)
        · intro i hi
          exact hv (i + 1) (Nat.succ_lt_succ hi)
        · exact hi'
      have haddr : edi + 8 * (i + 1) = edi + 8 + 8 * i := by omega
      rw [hnext 0 (by omega), haddr]
      exact hrest

/-! ### The tables -/

theorem word_store_zeros (m : Memory) {off n a : Nat} (h : off ≤ a) (h' : a + 8 ≤ off + n) :
    (m.store off (List.replicate n 0)).word a = 0 := by
  have hload : (m.store off (List.replicate n 0)).load a 8 = List.replicate 8 0 := by
    apply List.eq_replicate_iff.mpr
    refine ⟨Memory.length_load _ _ _, ?_⟩
    intro b hb
    obtain ⟨i, hi, rfl⟩ := List.mem_map.mp hb
    have hi' := List.mem_range.mp hi
    have hin : a - off + i < (List.replicate n (0 : UInt8)).length := by
      rw [List.length_replicate]
      omega
    have haddr : a + i = off + (a - off + i) := by omega
    rw [haddr, Memory.store_inside m off _ _ hin, List.getElem_replicate]
  rw [Memory.word, hload]
  rfl

variable (m : Memory)

/-- The loops leave the upper tables alone. -/
theorem word_setupPaging_upper {a : Nat} (h : a + 8 ≤ 0x72000) :
    (setupPaging m).word a = (upperTables m).word a := by
  rw [setupPaging, highPdptLoop, word_putEntries_apart, heapPts, word_putEntries_apart, pdLoop,
    word_putEntries_apart]
  · exact Or.inl h
  · exact Or.inl (show a + 8 ≤ 0x72000 + 16 * 8 by omega)
  · exact Or.inl (show a + 8 ≤ 0x7E000 by omega)

theorem word_root : (setupPaging m).word 0x70000 = 0x71003 := by
  rw [word_setupPaging_upper m (by decide), upperTables]
  rw [word_putEntry_apart, word_putEntry_apart, word_putEntry_apart, word_putEntry_apart,
    word_putEntry_apart, word_putEntry]
  all_goals decide

theorem word_one : (setupPaging m).word 0x70008 = 0x7E003 := by
  rw [word_setupPaging_upper m (by decide), upperTables]
  rw [word_putEntry_apart, word_putEntry_apart, word_putEntry_apart, word_putEntry_apart,
    word_putEntry]
  all_goals decide

/-- The second table has four entries, for a gibibyte each. -/
theorem word_pdpt {i : Nat} (hi : i < 4) :
    (setupPaging m).word (0x71000 + 8 * i) = 0x72003 + 0x1000 * i := by
  rw [word_setupPaging_upper m (by omega), upperTables]
  have hcases : i = 0 ∨ i = 1 ∨ i = 2 ∨ i = 3 := by omega
  rcases hcases with rfl | rfl | rfl | rfl
  · rw [word_putEntry_apart, word_putEntry_apart, word_putEntry_apart, word_putEntry]
    all_goals decide
  · rw [word_putEntry_apart, word_putEntry_apart, word_putEntry]
    all_goals decide
  · rw [word_putEntry_apart, word_putEntry]
    all_goals decide
  · rw [word_putEntry]
    all_goals decide

/-- Apart from their entries the upper tables are empty. -/
theorem word_upper_zero {a : Nat} (h : 0x70000 ≤ a) (h' : a + 8 ≤ 0x72000)
    (ha : 0x70010 ≤ a ∧ a + 8 ≤ 0x71000 ∨ 0x71020 ≤ a) : (setupPaging m).word a = 0 := by
  rw [word_setupPaging_upper m h', upperTables]
  rw [word_putEntry_apart, word_putEntry_apart, word_putEntry_apart, word_putEntry_apart,
    word_putEntry_apart, word_putEntry_apart, word_store_zeros m h (by omega)]
  all_goals simp only [Span.Apart, Span.stop]; omega

/-- The registers of the loop over the directories. -/
theorem addEax_pd {i : Nat} (hi : i + 1 < 2048) :
    addEax 0x200000 (0x83 + 0x200000 * i, 0) = (0x83 + 0x200000 * (i + 1), 0) := by
  rw [addEax, Nat.mod_eq_of_lt (show 0x83 + 0x200000 * i + 0x200000 < 2 ^ 32 by omega),
    Nat.mul_succ, Nat.add_assoc]

/-- Outside of the heap window a directory entry maps its 2 MiB to themselves. -/
theorem word_pd {j : Nat} (hj : j < 2048) (hw : j < 16 ∨ 24 ≤ j) :
    (setupPaging m).word (0x72000 + 8 * j) = 0x83 + 0x200000 * j := by
  have hapart : (Span.mk (0x72000 + 8 * j) 8).Apart ⟨0x72000 + 16 * 8, 8 * 8⟩ := by
    simp only [Span.Apart, Span.stop]
    omega
  rw [setupPaging, highPdptLoop, word_putEntries_apart _ _
    (Or.inl (show 0x72000 + 8 * j + 8 ≤ 0x7E000 by omega)), heapPts,
    word_putEntries_apart _ _ hapart, pdLoop]
  have hv : ∀ i < 2048, 0x83 + 0x200000 * i < 2 ^ 32 ∧ 0 < 2 ^ 32 := fun i hi ↦ by omega
  exact word_putEntries (fun i ↦ (0x83 + 0x200000 * i, 0)) (upperTables m)
    (fun i hi ↦ addEax_pd hi) hv hj

/-- The directory entries of the heap window point to eight tables. -/
theorem word_pd_heap {j : Nat} (hj : j < 8) :
    (setupPaging m).word (0x72000 + 16 * 8 + 8 * j) = 0x76003 + 0x1000 * j := by
  rw [setupPaging, highPdptLoop, word_putEntries_apart _ _
    (Or.inl (show 0x72000 + 16 * 8 + 8 * j + 8 ≤ 0x7E000 by omega)), heapPts]
  have hnext : ∀ i, i + 1 < 8 → addEax 0x1000 (0x76003 + 0x1000 * i, 0) =
      (0x76003 + 0x1000 * (i + 1), 0) := by
    intro i hi
    rw [addEax, Nat.mod_eq_of_lt (show 0x76003 + 0x1000 * i + 0x1000 < 2 ^ 32 by omega),
      Nat.mul_succ, Nat.add_assoc]
  have hv : ∀ i < 8, 0x76003 + 0x1000 * i < 2 ^ 32 ∧ 0 < 2 ^ 32 := fun i hi ↦ by omega
  exact word_putEntries (fun i ↦ (0x76003 + 0x1000 * i, 0)) (pdLoop (upperTables m)) hnext hv hj

/-- These tables are empty. -/
theorem word_heap_zero {a : Nat} (h : 0x76000 ≤ a) (h' : a + 8 ≤ 0x7E000) :
    (setupPaging m).word a = 0 := by
  rw [setupPaging, highPdptLoop, word_putEntries_apart _ _ (Or.inl h'), heapPts,
    word_putEntries_apart _ _ (Or.inr (show 0x72000 + 16 * 8 + 8 * 8 ≤ a by omega)), pdLoop,
    word_putEntries_apart _ _ (Or.inr (show 0x72000 + 8 * 2048 ≤ a by omega)), upperTables]
  rw [word_putEntry_apart, word_putEntry_apart, word_putEntry_apart, word_putEntry_apart,
    word_putEntry_apart, word_putEntry_apart, word_store_zeros m (by omega) (by omega)]
  all_goals simp only [Span.Apart, Span.stop]; omega

/-- The registers of the loop over the table for the second 512 GiB. -/
theorem addCarry_high {i : Nat} (hi : i < 512) :
    addCarry 0x40000000 (0x40000000 * (i % 4), 0x80 + i / 4) =
      (0x40000000 * ((i + 1) % 4), 0x80 + (i + 1) / 4) := by
  simp only [addCarry, Prod.mk.injEq]
  constructor
  · omega
  · by_cases hcarry : 0x40000000 * (i % 4) + 0x40000000 < 2 ^ 32
    · rw [if_pos hcarry]
      omega
    · rw [if_neg hcarry]
      omega

/-- Its entries are not present: they lack their flags. -/
theorem word_high {i : Nat} (hi : i < 512) :
    ¬Present ((setupPaging m).word (0x7E000 + 8 * i)) := by
  have hv : ∀ i < 512, 0x40000000 * (i % 4) < 2 ^ 32 ∧ 0x80 + i / 4 < 2 ^ 32 := by
    intro i hi
    omega
  have hstart : ((0, 0x80) : Nat × Nat) = (0x40000000 * (0 % 4), 0x80 + 0 / 4) := by decide
  rw [setupPaging, highPdptLoop, hstart,
    word_putEntries (fun i ↦ (0x40000000 * (i % 4), 0x80 + i / 4))
      (heapPts (pdLoop (upperTables m)))
      (fun i hi ↦ addCarry_high (by omega)) hv hi, value, Present]
  omega

/-- The tables of stage 2, whatever the tables of the heap window hold. -/
structure Tables (m : Memory) : Prop where
  root : m.word 0x70000 = 0x71003
  pdpt : ∀ i < 4, m.word (0x71000 + 8 * i) = 0x72003 + 0x1000 * i
  upper_zero : ∀ a, 0x70000 ≤ a → a + 8 ≤ 0x72000 →
    0x70010 ≤ a ∧ a + 8 ≤ 0x71000 ∨ 0x71020 ≤ a → m.word a = 0
  one : m.word 0x70008 = 0x7E003
  pd : ∀ j < 2048, j < 16 ∨ 24 ≤ j → m.word (0x72000 + 8 * j) = 0x83 + 0x200000 * j
  pd_heap : ∀ j < 8, m.word (0x72000 + 16 * 8 + 8 * j) = 0x76003 + 0x1000 * j
  high : ∀ i < 512, ¬Present (m.word (0x7E000 + 8 * i))

theorem tables_setupPaging : Tables (setupPaging m) :=
  ⟨word_root m, fun _ ↦ word_pdpt m, fun _ ↦ word_upper_zero m, word_one m, fun _ ↦ word_pd m,
    fun _ ↦ word_pd_heap m, fun _ ↦ word_high m⟩

variable {m}

/-- The tables stay when only those of the heap window change. -/
theorem Tables.transport {m' : Memory} (h : Tables m)
    (hw : ∀ a, a + 8 ≤ 0x76000 ∨ 0x7E000 ≤ a → m'.word a = m.word a) : Tables m' := by
  refine ⟨?_, ?_, ?_, ?_, ?_, ?_, ?_⟩
  · rw [hw _ (by decide), h.root]
  · intro i hi
    rw [hw _ (by omega), h.pdpt i hi]
  · intro a hlow hhigh ha
    rw [hw a (by omega), h.upper_zero a hlow hhigh ha]
  · rw [hw _ (by decide), h.one]
  · intro j hj hwin
    rw [hw _ (by omega), h.pd j hj hwin]
  · intro j hj
    rw [hw _ (by omega), h.pd_heap j hj]
  · intro i hi
    rw [hw _ (by omega)]
    exact h.high i hi

/-! ### Walks -/

namespace Tables

variable {v : Nat} (h : Tables m)

include h

theorem entry4_low (hv : v < 2 ^ 39) : m.entry4 pagingRoot v = 0x71003 := by
  have hidx : v / 2 ^ 39 % 512 = 0 := by omega
  rw [Memory.entry4, entryAddr, hidx]
  exact h.root

theorem entry3_low (hv : v < 2 ^ 39) :
    m.entry3 pagingRoot v = m.word (0x71000 + 8 * (v / 2 ^ 30)) := by
  have haddr : addrBits 12 0x71003 = 0x71000 := by decide
  have hidx : v / 2 ^ 30 % 512 = v / 2 ^ 30 := by omega
  rw [Memory.entry3, h.entry4_low hv, haddr, entryAddr, hidx]

theorem entry2_low (hv : v < 2 ^ 32) :
    m.entry2 pagingRoot v = m.word (0x72000 + 8 * (v / 2 ^ 21)) := by
  have haddr : addrBits 12 (0x72003 + 0x1000 * (v / 2 ^ 30)) = 0x72000 + 0x1000 * (v / 2 ^ 30) := by
    rw [addrBits]
    omega
  have hentry : 0x72000 + 0x1000 * (v / 2 ^ 30) + 8 * (v / 2 ^ 21 % 512) =
      0x72000 + 8 * (v / 2 ^ 21) := by
    omega
  rw [Memory.entry2, h.entry3_low (by omega), h.pdpt _ (by omega), haddr, entryAddr, hentry]

theorem reached_low (hv : v < 2 ^ 32) (hp : Present (m.entry2 pagingRoot v)) :
    m.Reached pagingRoot v := by
  refine ⟨Or.inl (by omega), ?_, ?_, ?_, hp⟩
  · rw [h.entry4_low (by omega)]
    decide
  · rw [h.entry3_low (by omega), h.pdpt _ (by omega), Present]
    omega
  · rw [h.entry3_low (by omega), h.pdpt _ (by omega), Large]
    omega

/-- Below 4 GiB an address outside of the heap window maps to itself. -/
theorem walk_identity (hv : v < 2 ^ 32) (hw : v < 0x2000000 ∨ 0x3000000 ≤ v) :
    m.walk pagingRoot v = some v := by
  have hentry : m.entry2 pagingRoot v = 0x83 + 0x200000 * (v / 2 ^ 21) := by
    rw [h.entry2_low hv, h.pd _ (by omega) (by omega)]
  have hpresent : Present (m.entry2 pagingRoot v) := by
    rw [hentry, Present]
    omega
  have hlarge : Large (m.entry2 pagingRoot v) := by
    rw [hentry, Large]
    omega
  have haddr : addrBits 21 (0x83 + 0x200000 * (v / 2 ^ 21)) + v % 2 ^ 21 = v := by
    rw [addrBits]
    omega
  rw [Memory.walk_of_large (h.reached_low hv hpresent) hlarge, hentry, haddr]

/-- An address of the heap window has its entry in one of the eight tables. -/
theorem entry2_window (hv : 0x2000000 ≤ v) (hv' : v < 0x3000000) :
    m.entry2 pagingRoot v = 0x76003 + 0x1000 * (v / 2 ^ 21 - 16) := by
  have haddr : 0x72000 + 8 * (v / 2 ^ 21) = 0x72000 + 16 * 8 + 8 * (v / 2 ^ 21 - 16) := by omega
  rw [h.entry2_low (by omega), haddr, h.pd_heap _ (by omega)]

theorem entryAddr1_window (hv : 0x2000000 ≤ v) (hv' : v < 0x3000000) :
    m.entryAddr1 pagingRoot v = 0x76000 + 8 * ((v - 0x2000000) / 4096) := by
  have haddr : addrBits 12 (0x76003 + 0x1000 * (v / 2 ^ 21 - 16)) =
      0x76000 + 0x1000 * (v / 2 ^ 21 - 16) := by
    rw [addrBits]
    omega
  rw [Memory.entryAddr1, h.entry2_window hv hv', haddr, entryAddr]
  omega

theorem reached_window (hv : 0x2000000 ≤ v) (hv' : v < 0x3000000) :
    m.Reached pagingRoot v ∧ ¬Large (m.entry2 pagingRoot v) := by
  have hpresent : Present (m.entry2 pagingRoot v) := by
    rw [h.entry2_window hv hv', Present]
    omega
  refine ⟨h.reached_low (by omega) hpresent, ?_⟩
  rw [h.entry2_window hv hv', Large]
  omega

/-- Where the first table has entries. -/
theorem lt_of_present4 (hcanon : Canonical v) (hp : Present (m.entry4 pagingRoot v)) :
    v < 2 ^ 40 := by
  rw [Canonical] at hcanon
  by_contra hhigh
  rw [Memory.entry4, entryAddr, pagingRoot, h.upper_zero _ (by omega) (by omega) (by omega)] at hp
  exact absurd hp (by decide)

/-- The second 512 GiB have a table of their own. -/
theorem entry4_high (hv : 2 ^ 39 ≤ v) (hv' : v < 2 ^ 40) : m.entry4 pagingRoot v = 0x7E003 := by
  have hidx : v / 2 ^ 39 % 512 = 1 := by omega
  rw [Memory.entry4, entryAddr, hidx]
  exact h.one

/-- Where the second tables have entries. -/
theorem lt_of_present3 (hcanon : Canonical v) (hp4 : Present (m.entry4 pagingRoot v))
    (hp3 : Present (m.entry3 pagingRoot v)) : v < 2 ^ 32 := by
  have hone := h.lt_of_present4 hcanon hp4
  by_contra hhigh
  by_cases hlow : v < 2 ^ 39
  · rw [h.entry3_low hlow, h.upper_zero _ (by omega) (by omega) (by omega)] at hp3
    exact absurd hp3 (by decide)
  · have haddr : addrBits 12 0x7E003 = 0x7E000 := by decide
    rw [Memory.entry3, h.entry4_high (by omega) hone, haddr, entryAddr] at hp3
    exact h.high _ (Nat.mod_lt _ (by decide)) hp3

/-- Nothing is mapped from 4 GiB on. -/
theorem walk_unmapped (hv : 2 ^ 32 ≤ v) : m.walk pagingRoot v = none := by
  by_cases hcanon : Canonical v
  · by_cases hp4 : Present (m.entry4 pagingRoot v)
    · apply Memory.walk_of_not_present3
      intro hp3
      have hlt := h.lt_of_present3 hcanon hp4 hp3
      omega
    · exact Memory.walk_of_not_present4 hp4
  · exact Memory.walk_of_not_canonical hcanon

end Tables

/-- Nothing is mapped in the heap window. -/
theorem walk_heapWindow (m : Memory) {v : Nat} (hv : 0x2000000 ≤ v) (hv' : v < 0x3000000) :
    (setupPaging m).walk pagingRoot v = none := by
  obtain ⟨hreached, hsmall⟩ := (tables_setupPaging m).reached_window hv hv'
  apply Memory.walk_of_not_present1 hreached hsmall
  rw [(tables_setupPaging m).entryAddr1_window hv hv', word_heap_zero m (by omega) (by omega)]
  decide

end SmallOs.Boot
