import SmallOs.Boot.SetupPaging

/-!
# The map that stage 2 is after

`bootloader/stage2/protected_mode/paging.asm` ends with a loop that is to map the second 512 GiB in
pages of 1 GiB. It lays addresses with 0x80 in their upper half, where 0x83 in the lower one would
be a page, so that the entries are not present. Everything else is as intended.
-/

namespace SmallOs.Boot

open SmallOs.Base

/-- The tables that walks read lie in the area that is cleared, each of them for one part of the
address space. -/
structure TablesApart (m : Memory) : Prop where
  zeroed : ∀ v level table, m.ReadsTable pagingRoot v level table →
    0x70000 ≤ table ∧ table + 0x1000 ≤ 0x80000
  single : ∀ v v' level level' table, m.ReadsTable pagingRoot v level table →
    m.ReadsTable pagingRoot v' level' table →
    level = level' ∧ tablePrefix level v = tablePrefix level v'

/-- Addresses below 4 GiB map to themselves, except those of the heap window, which are not mapped,
and the second 512 GiB map to the first ones. -/
structure ImplementsMap (m : Memory) : Prop extends TablesApart m where
  identity : ∀ v < 2 ^ 32, v < 0x2000000 ∨ 0x3000000 ≤ v → m.walk pagingRoot v = some v
  window : ∀ v, 0x2000000 ≤ v → v < 0x3000000 → m.walk pagingRoot v = none
  high : ∀ p < 2 ^ 39, m.walk pagingRoot (2 ^ 39 + p) = some p

/-- The tables, by what they are for. -/
def IsTable (v : Nat) : Nat → Nat → Prop
  | 4, table => table = 0x70000
  | 3, table => v < 2 ^ 39 ∧ table = 0x71000 ∨ (2 ^ 39 ≤ v ∧ v < 2 ^ 40) ∧ table = 0x7E000
  | 2, table => v < 2 ^ 32 ∧ table = 0x72000 + 0x1000 * (v / 2 ^ 30)
  | 1, table => (0x2000000 ≤ v ∧ v < 0x3000000) ∧ table = 0x76000 + 0x1000 * (v / 2 ^ 21 - 16)
  | _, _ => False

/-- A walk reads these tables only. -/
theorem Tables.isTable {m : Memory} (h : Tables m) {v level table : Nat}
    (hreads : m.ReadsTable pagingRoot v level table) : IsTable v level table := by
  cases hreads with
  | four hv => rfl
  | three hv h4 =>
    have hlt := h.lt_of_present4 hv h4
    by_cases hlow : v < 2 ^ 39
    · rw [h.entry4_low hlow]
      exact Or.inl ⟨hlow, by decide⟩
    · rw [h.entry4_high (by omega) hlt]
      exact Or.inr ⟨⟨by omega, hlt⟩, by decide⟩
  | two hv h4 h3 hs =>
    have hlt := h.lt_of_present3 hv h4 h3
    rw [h.entry3_low (by omega), h.pdpt _ (by omega)]
    refine ⟨hlt, ?_⟩
    rw [addrBits]
    omega
  | one hr hs =>
    have hlt := h.lt_of_present3 hr.canonical hr.present4 hr.present3
    have hwindow : 0x2000000 ≤ v ∧ v < 0x3000000 := by
      by_contra hout
      rw [h.entry2_low hlt, h.pd _ (by omega) (by omega), Large] at hs
      omega
    rw [h.entry2_window hwindow.1 hwindow.2]
    refine ⟨hwindow, ?_⟩
    rw [addrBits]
    omega

/-- What a page of the cleared area is for: a level, and what the addresses have in common. -/
def purpose (table : Nat) : Nat × Nat :=
  if table = 0x70000 then (4, 0)
  else if table = 0x71000 then (3, 0)
  else if table = 0x7E000 then (3, 1)
  else if table < 0x76000 then (2, (table - 0x72000) / 0x1000)
  else (1, 16 + (table - 0x76000) / 0x1000)

theorem purpose_of_isTable {v level table : Nat} (h : IsTable v level table) :
    purpose table = (level, tablePrefix level v) := by
  match level, h with
  | 4, h =>
    have hindex : tablePrefix 4 v = 0 := Nat.div_eq_of_lt (Nat.mod_lt v (by decide))
    rw [hindex, show table = 0x70000 from h]
    rfl
  | 3, h =>
    rw [tablePrefix]
    rcases h with ⟨hv, rfl⟩ | ⟨hv, rfl⟩
    · have hindex : v % 2 ^ 48 / 2 ^ (12 + 9 * 3) = 0 := by omega
      rw [hindex]
      rfl
    · have hindex : v % 2 ^ 48 / 2 ^ (12 + 9 * 3) = 1 := by omega
      rw [hindex]
      rfl
  | 2, h =>
    obtain ⟨hv, rfl⟩ := h
    rw [purpose, if_neg (by omega), if_neg (by omega), if_neg (by omega), if_pos (by omega),
      tablePrefix, Prod.mk.injEq]
    omega
  | 1, h =>
    obtain ⟨⟨hv, hv'⟩, rfl⟩ := h
    rw [purpose, if_neg (by omega), if_neg (by omega), if_neg (by omega), if_neg (by omega),
      tablePrefix, Prod.mk.injEq]
    omega

theorem zeroed_of_isTable {v level table : Nat} (h : IsTable v level table) :
    0x70000 ≤ table ∧ table + 0x1000 ≤ 0x80000 := by
  match level, h with
  | 4, h =>
    rw [show table = 0x70000 from h]
    decide
  | 3, h =>
    rcases h with ⟨-, rfl⟩ | ⟨-, rfl⟩
    · decide
    · decide
  | 2, h =>
    obtain ⟨hv, rfl⟩ := h
    omega
  | 1, h =>
    obtain ⟨⟨hv, hv'⟩, rfl⟩ := h
    omega

/-- Every table that walks read is one of the cleared pages, and serves one purpose. -/
theorem Tables.apart {m : Memory} (h : Tables m) : TablesApart m where
  zeroed v level table hreads := zeroed_of_isTable (h.isTable hreads)
  single v v' level level' table hreads hreads' := by
    have hsame := purpose_of_isTable (h.isTable hreads)
    rw [purpose_of_isTable (h.isTable hreads'), Prod.mk.injEq] at hsame
    obtain ⟨rfl, hindex⟩ := hsame
    exact ⟨rfl, hindex.symm⟩

/-- Outside of the second 512 GiB the tables are as intended. -/
theorem setupPaging_low (m : Memory) : TablesApart (setupPaging m) ∧
    (∀ v < 2 ^ 32, v < 0x2000000 ∨ 0x3000000 ≤ v → (setupPaging m).walk pagingRoot v = some v) ∧
    ∀ v, 0x2000000 ≤ v → v < 0x3000000 → (setupPaging m).walk pagingRoot v = none :=
  ⟨(tables_setupPaging m).apart, fun _ hv hw ↦ (tables_setupPaging m).walk_identity hv hw,
    fun _ hv hv' ↦ walk_heapWindow m hv hv'⟩

/-- In none of them is the second 512 GiB mapped. -/
theorem not_implementsMap (m : Memory) : ¬ImplementsMap (setupPaging m) := by
  intro h
  have hmapped := h.high 0 (by decide)
  rw [(tables_setupPaging m).walk_unmapped (by decide)] at hmapped
  cases hmapped

/-- From an empty memory the first address of the second 512 GiB is not mapped. -/
theorem not_implementsMap_blank : (setupPaging fun _ ↦ 0).walk pagingRoot (2 ^ 39) = none ∧
    ¬ImplementsMap (setupPaging fun _ ↦ 0) := by
  have hunmapped := (tables_setupPaging fun _ ↦ 0).walk_unmapped (show 2 ^ 32 ≤ 2 ^ 39 by decide)
  refine ⟨hunmapped, ?_⟩
  intro h
  have hmapped := h.high 0 (by decide)
  rw [Nat.add_zero, hunmapped] at hmapped
  cases hmapped

end SmallOs.Boot
