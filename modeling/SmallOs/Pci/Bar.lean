import SmallOs.Base.Lists
import SmallOs.Pci.Ecam

/-!
# Base address registers

`lib/hal/src/pci/bar.rs`: a base address register says how large its range is when it is overwritten
with ones. Registers of hardware keep the bits that are not theirs to change.
-/

namespace SmallOs.Pci

open SmallOs.Base ConfigSpace

/-- `lib/hal/src/pci/bar.rs:5–9`. -/
inductive Bar
  | memory (base size : UInt64) (prefetchable : Bool)
  | io (port : UInt16) (size : UInt64)
  | empty
  deriving DecidableEq

/-- The offset of a base address register, `lib/hal/src/pci/bar.rs:37`. -/
def barOffset (idx : Nat) : UInt16 := UInt16.ofNat (0x10 + idx * 4)

section Probe

variable {S : Type} [ConfigSpace S] (e : Ecam) (a : PciAddress)

/-- `lib/hal/src/pci/bar.rs:36–85`: what is found, the slots that it takes, and the registers
then. -/
def probe (s : S) (idx : Nat) : (Bar × Nat) × S :=
  let offset := barOffset idx
  let orig := read32 e s a offset
  if orig = 0 ∨ orig = 0xFFFFFFFF then ((.empty, 1), s)
  else if orig &&& 1 ≠ 0 then
    let s := write32 e s a offset 0xFFFFFFFF
    let mask := read32 e s a offset
    let s := write32 e s a offset orig
    let size := (~~~(mask &&& ~~~0xF) + 1).toUInt64
    ((.io (orig &&& 0xFFFC).toUInt16 size, 1), s)
  else
    let barType := (orig >>> 1) &&& 0x3
    let prefetchable := decide ((orig >>> 3) &&& 1 ≠ 0)
    if barType = 0x0 then
      let s := write32 e s a offset 0xFFFFFFFF
      let mask := read32 e s a offset
      let s := write32 e s a offset orig
      let size := (~~~(mask &&& ~~~0xF) + 1).toUInt64
      let base := orig.toUInt64 &&& ~~~0xF
      ((.memory base size prefetchable, 1), s)
    else if barType = 0x2 then
      let offsetHi := offset + 4
      let origHi := read32 e s a offsetHi
      let s := write32 e s a offset 0xFFFFFFFF
      let s := write32 e s a offsetHi 0xFFFFFFFF
      let maskLo := (read32 e s a offset).toUInt64
      let maskHi := (read32 e s a offsetHi).toUInt64
      let s := write32 e s a offset orig
      let s := write32 e s a offsetHi origHi
      let mask64 := (maskLo &&& ~~~0xF) ||| (maskHi <<< (32 : UInt64))
      let size := ~~~mask64 + 1
      let base := (orig.toUInt64 &&& ~~~0xF) ||| (origHi.toUInt64 <<< (32 : UInt64))
      ((.memory base size prefetchable, 2), s)
    else ((.empty, 1), s)

theorem probe_pos (s : S) (idx : Nat) : 1 ≤ (probe e a s idx).1.2 := by
  rw [probe]
  simp only
  repeat' split
  all_goals simp

/-- `lib/hal/src/pci/bar.rs:90–94`. -/
def parseAllLoop (i : Nat) (bars : List Bar) (s : S) : List Bar × S :=
  if i < 6 then
    let found := probe e a s i
    parseAllLoop (i + found.1.2) (bars.set i found.1.1) found.2
  else (bars, s)
termination_by 6 - i
decreasing_by
  have hpos := probe_pos e a s i
  omega

/-- `lib/hal/src/pci/bar.rs:87–96`. -/
def parseAll (s : S) : List Bar × S := parseAllLoop e a 0 (List.replicate 6 .empty) s

end Probe

/-! ### Registers -/

/-- Registers of which some bits can be written. -/
structure Registers where
  value : Nat → UInt32
  writable : Nat → UInt32

instance : ConfigSpace Registers where
  load r p := r.value p
  store r p v := { r with value := fun q ↦ if q = p then
    ⟨keep (r.value q).toBitVec v.toBitVec (r.writable q).toBitVec⟩ else r.value q }

section Restore

variable {e : Ecam} {r : Registers} {a : PciAddress} {off off' : UInt16} {v v' : UInt32}

/-- What a register holds after a store of ones. -/
def ones (orig writable : UInt32) : UInt32 :=
  ⟨keep orig.toBitVec (0xFFFFFFFF : UInt32).toBitVec writable.toBitVec⟩

theorem read32_write32_self : read32 e (write32 e r a off 0xFFFFFFFF) a off =
    ones (read32 e r a off) (r.writable (ecamPtr e a off)) := if_pos rfl

theorem read32_write32_of_ne (h : ecamPtr e a off' ≠ ecamPtr e a off) :
    read32 e (write32 e r a off v) a off' = read32 e r a off' := if_neg h

/-- A register is put back. -/
theorem write32_restore : write32 e (write32 e r a off v) a off (read32 e r a off) = r := by
  obtain ⟨value, writable⟩ := r
  change Registers.mk _ _ = _
  congr 1
  funext q
  by_cases hq : q = ecamPtr e a off
  · subst hq
    simp [read32, load, write32, store, keep_keep_self]
  · simp [write32, store, hq]

/-- Stores to two registers can be done in either order. -/
theorem write32_comm (h : ecamPtr e a off' ≠ ecamPtr e a off) :
    write32 e (write32 e r a off v) a off' v' = write32 e (write32 e r a off' v') a off v := by
  obtain ⟨value, writable⟩ := r
  change Registers.mk _ _ = Registers.mk _ _
  congr 1
  funext q
  by_cases hq : q = ecamPtr e a off
  · subst hq
    simp [write32, store, h.symm]
  · simp [write32, store, hq]

/-- Two registers are put back, the first one first. -/
theorem write32_restore_two (h : ecamPtr e a off' ≠ ecamPtr e a off) :
    write32 e (write32 e (write32 e (write32 e r a off v) a off' v') a off (read32 e r a off))
      a off' (read32 e r a off') = r := by
  have hfirst : write32 e (write32 e (write32 e r a off v) a off' v') a off (read32 e r a off) =
      write32 e r a off' v' := by
    rw [write32_comm h.symm, write32_restore]
  rw [hfirst, write32_restore]

end Restore

/-! ### Assignments -/

/-- The range that is assigned to a base address register of `bits` bits: a power of two of at least
`2 ^ least`, aligned to its size and not at zero. -/
structure Window (bits least : Nat) where
  order : Nat
  base : Nat
  least_le : least ≤ order
  aligned : 2 ^ order ∣ base
  base_pos : 0 < base
  base_lt : base < 2 ^ bits

/-- What a function implements with one register, or with two. -/
inductive Assigned
  | unimplemented
  | io (w : Window 32 2)
  | memory32 (w : Window 32 4) (prefetchable : Bool)
  | memory64 (w : Window 64 4) (prefetchable : Bool)

/-- All bits from bit `j` on. -/
def bitsFrom (j : Nat) : UInt32 := UInt32.ofNat (2 ^ 32 - 2 ^ j)

/-- The registers of an assignment, with the bits of each that can be written. The lowest bits say
of what kind it is; between them and the base, as many bits are zero as the size asks for. -/
def Assigned.registers : Assigned → List (UInt32 × UInt32)
  | unimplemented => [(0, 0)]
  | io w => [(UInt32.ofNat (w.base + 1), bitsFrom w.order)]
  | memory32 w prefetchable =>
      [(UInt32.ofNat (w.base + 8 * prefetchable.toNat), bitsFrom w.order)]
  | memory64 w prefetchable =>
      [(UInt32.ofNat (w.base % 2 ^ 32 + 4 + 8 * prefetchable.toNat), bitsFrom (min w.order 32)),
        (UInt32.ofNat (w.base / 2 ^ 32), bitsFrom (w.order - 32))]

/-- The base address registers from one on, with the bits of each that can be written. -/
def Implemented (e : Ecam) (a : PciAddress) (r : Registers) (idx : Nat)
    (xs : List (UInt32 × UInt32)) : Prop :=
  ∀ i x, xs[i]? = some x → read32 e r a (barOffset (idx + i)) = x.1 ∧
    r.writable (ecamPtr e a (barOffset (idx + i))) = x.2

/-- A function of type 0 with its six registers assigned. -/
structure Device (e : Ecam) where
  address : PciAddress
  layout : List Assigned
  slots : (layout.flatMap Assigned.registers).length = 6
  registers : Registers
  implemented : Implemented e address registers 0 (layout.flatMap Assigned.registers)

/-- What a bar says, in numbers. -/
inductive Range
  | memory (base size : Nat) (prefetchable : Bool)
  | io (base size : Nat)
  | empty
  deriving DecidableEq

def Bar.range : Bar → Range
  | memory base size prefetchable => .memory base.toNat size.toNat prefetchable
  | io port size => .io port.toNat size.toNat
  | empty => .empty

/-- What is to be said of an assignment, for each of its registers. -/
def Assigned.ranges : Assigned → List Range
  | unimplemented => [.empty]
  | io w => [.io w.base (2 ^ w.order)]
  | memory32 w prefetchable => [.memory w.base (2 ^ w.order) prefetchable]
  | memory64 w prefetchable => [.memory w.base (2 ^ w.order) prefetchable, .empty]

/-- All that is implemented is reported as it is assigned, and every register is left as it was. -/
def ProbesFaithfully {e : Ecam} (d : Device e) : Prop :=
  (parseAll e d.address d.registers).1.map Bar.range = d.layout.flatMap Assigned.ranges ∧
    (parseAll e d.address d.registers).2 = d.registers

/-! ### Decoding -/

section Windows

variable {bits least : Nat} (w : Window bits least)

theorem Window.order_lt : w.order < bits := by
  by_contra hle
  have hdvd : 2 ^ bits ∣ w.base := (Nat.pow_dvd_pow 2 (Nat.le_of_not_lt hle)).trans w.aligned
  exact absurd (Nat.le_of_dvd w.base_pos hdvd) (Nat.not_le_of_lt w.base_lt)

theorem Window.mod_eq_zero {k : Nat} (hk : k ≤ w.order) : w.base % 2 ^ k = 0 :=
  Nat.mod_eq_zero_of_dvd ((Nat.pow_dvd_pow 2 hk).trans w.aligned)

/-- Below the size of the range there is room for type bits. -/
theorem Window.add_mod {k t : Nat} (hk : k ≤ w.order) (ht : t < 2 ^ k) :
    (w.base + t) % 2 ^ k = t := by
  rw [Nat.add_mod, w.mod_eq_zero hk, Nat.zero_add, Nat.mod_mod, Nat.mod_eq_of_lt ht]

/-- The upper half of the base has what is left of the zeros. -/
theorem Window.div_mod_eq_zero : w.base / 2 ^ 32 % 2 ^ (w.order - 32) = 0 := by
  rcases Nat.le_total w.order 32 with hle | hle
  · rw [Nat.sub_eq_zero_of_le hle]
    exact Nat.mod_one _
  · have hsplit : 2 ^ 32 * 2 ^ (w.order - 32) = 2 ^ w.order := by
      rw [← Nat.pow_add, Nat.add_sub_cancel' hle]
    rw [← Nat.mod_mul_right_div_self, hsplit, w.mod_eq_zero (Nat.le_refl _)]
    exact Nat.zero_div _

end Windows

section Decode

variable {x lo hi : UInt32} {j k : Nat}

theorem and_one_ne_zero_iff : x &&& 1 ≠ 0 ↔ x.toNat % 2 = 1 := by
  have hbit : (x &&& 1).toNat = x.toNat % 2 := Nat.and_two_pow_sub_one_eq_mod _ 1
  rw [Ne, ← UInt32.toNat_inj, hbit]
  change ¬ x.toNat % 2 = 0 ↔ _
  omega

theorem barType_eq_iff {v : UInt32} : (x >>> 1) &&& 0x3 = v ↔ x.toNat / 2 % 4 = v.toNat := by
  have hshift : (x >>> 1).toNat = x.toNat / 2 := Nat.shiftRight_eq_div_pow _ 1
  have htype : ((x >>> 1) &&& 0x3).toNat = (x >>> 1).toNat % 4 :=
    Nat.and_two_pow_sub_one_eq_mod _ 2
  rw [← UInt32.toNat_inj, htype, hshift]

theorem prefetchable_iff : (x >>> 3) &&& 1 ≠ 0 ↔ x.toNat / 8 % 2 = 1 := by
  have hshift : (x >>> 3).toNat = x.toNat / 8 := Nat.shiftRight_eq_div_pow _ 3
  rw [and_one_ne_zero_iff, hshift]

theorem toNat_clear : (x &&& ~~~0xF).toNat = x.toNat / 2 ^ 4 * 2 ^ 4 := by
  have hand := and_upperMask (show 4 ≤ 32 by decide) x.toNat
  rw [Nat.mod_eq_of_lt x.toNat_lt] at hand
  exact hand

theorem toNat_clear64 : (x.toUInt64 &&& ~~~0xF).toNat = x.toNat / 2 ^ 4 * 2 ^ 4 := by
  have hand := and_upperMask (show 4 ≤ 64 by decide) x.toNat
  rw [Nat.mod_eq_of_lt (x.toNat_lt.trans (by decide))] at hand
  exact hand

/-- Two registers of a memory range, put together. -/
theorem toNat_join : ((lo.toUInt64 &&& ~~~0xF) ||| (hi.toUInt64 <<< (32 : UInt64))).toNat =
    lo.toNat / 2 ^ 4 * 2 ^ 4 + hi.toNat * 2 ^ 32 := by
  have hlo := lo.toNat_lt
  have hhi := hi.toNat_lt
  have hshift : (hi.toUInt64 <<< (32 : UInt64)).toNat = 2 ^ 32 * hi.toNat := by
    rw [UInt64.toNat_shiftLeft, UInt32.toNat_toUInt64, Nat.shiftLeft_eq]
    change hi.toNat * 2 ^ 32 % 2 ^ 64 = _
    omega
  rw [UInt64.toNat_or, toNat_clear64, hshift, Nat.or_comm,
    ← Nat.two_pow_add_eq_or_of_lt (by omega)]
  omega

/-- The masks of two registers, put together. -/
theorem upperMask_join (k : Nat) (hk : k < 64) :
    2 ^ 32 - 2 ^ min k 32 + (2 ^ 32 - 2 ^ (k - 32)) * 2 ^ 32 = 2 ^ 64 - 2 ^ k := by
  rcases Nat.le_total k 32 with hle | hle
  · have hlarge : 2 ^ k ≤ 2 ^ 32 := Nat.pow_le_pow_right (by decide) hle
    rw [Nat.min_eq_left hle, Nat.sub_eq_zero_of_le hle]
    omega
  · have hsplit : 2 ^ k = 2 ^ (k - 32) * 2 ^ 32 := by
      rw [← Nat.pow_add, Nat.sub_add_cancel hle]
    rw [Nat.min_eq_right hle, hsplit]
    omega

theorem toNat_bitsFrom (j : Nat) : (bitsFrom j).toNat = 2 ^ 32 - 2 ^ j := by
  have hpos : 0 < 2 ^ j := Nat.two_pow_pos j
  exact UInt32.toNat_ofNat_of_lt (show 2 ^ 32 - 2 ^ j < 2 ^ 32 by omega)

/-- What a register is after a store of ones. -/
theorem toNat_ones (hj : j ≤ 32) :
    (ones x (bitsFrom j)).toNat = x.toNat % 2 ^ j + (2 ^ 32 - 2 ^ j) :=
  toNat_keep_allOnes hj (toNat_bitsFrom j)

/-- The size of a range of which one register says all. -/
theorem toNat_size32 (hk : k < 32) (hx : x.toNat / 2 ^ 4 * 2 ^ 4 = 2 ^ 32 - 2 ^ k) :
    (~~~(x &&& ~~~0xF) + 1).toUInt64.toNat = 2 ^ k :=
  toNat_not_add_one hk (toNat_clear.trans hx)

/-- The size of a range of which two registers say all. -/
theorem toNat_size64 (hk : k < 64)
    (hx : lo.toNat / 2 ^ 4 * 2 ^ 4 + hi.toNat * 2 ^ 32 = 2 ^ 64 - 2 ^ k) :
    (~~~((lo.toUInt64 &&& ~~~0xF) ||| (hi.toUInt64 <<< (32 : UInt64))) + 1).toNat = 2 ^ k :=
  toNat_not_add_one hk (toNat_join.trans hx)

end Decode

/-! ### Probing one assignment -/

section Branches

variable {e : Ecam} {a : PciAddress} {r : Registers} {idx : Nat} {orig origHi w wHi : UInt32}

/-- What the last two bits of an implemented register tell. -/
theorem not_empty (hpos : orig ≠ 0) (hmod : orig.toNat % 4 ≠ 3) :
    ¬ (orig = 0 ∨ orig = 0xFFFFFFFF) := by
  rintro (rfl | rfl)
  · exact hpos rfl
  · exact hmod rfl

/-- A register with the lowest bit set. -/
theorem probe_io (horig : read32 e r a (barOffset idx) = orig)
    (hw : r.writable (ecamPtr e a (barOffset idx)) = w) (hmod : orig.toNat % 4 = 1) :
    probe e a r idx = ((.io (orig &&& 0xFFFC).toUInt16
      (~~~(ones orig w &&& ~~~0xF) + 1).toUInt64, 1), r) := by
  have hpos : orig ≠ 0 := by
    rintro rfl
    exact absurd hmod (by decide)
  have hempty := not_empty hpos (show orig.toNat % 4 ≠ 3 by omega)
  have hbit : orig &&& 1 ≠ 0 := and_one_ne_zero_iff.mpr (by omega)
  subst horig hw
  simp only [probe, if_neg hempty, if_pos hbit, read32_write32_self, write32_restore]

/-- A register of a memory range of 32 bits. -/
theorem probe_memory32 (horig : read32 e r a (barOffset idx) = orig)
    (hw : r.writable (ecamPtr e a (barOffset idx)) = w) (hpos : orig ≠ 0)
    (hmod : orig.toNat % 8 = 0) :
    probe e a r idx = ((.memory (orig.toUInt64 &&& ~~~0xF)
      (~~~(ones orig w &&& ~~~0xF) + 1).toUInt64 (decide ((orig >>> 3) &&& 1 ≠ 0)), 1), r) := by
  have hempty := not_empty hpos (by omega)
  have hbit : ¬ orig &&& 1 ≠ 0 := by
    rw [and_one_ne_zero_iff]
    omega
  have htype : (orig >>> 1) &&& 0x3 = 0x0 :=
    barType_eq_iff.mpr (show orig.toNat / 2 % 4 = 0 by omega)
  subst horig hw
  simp only [probe, if_neg hempty, if_neg hbit, if_pos htype, read32_write32_self, write32_restore]

/-- The two registers of a memory range of 64 bits. -/
theorem probe_memory64 (horig : read32 e r a (barOffset idx) = orig)
    (hw : r.writable (ecamPtr e a (barOffset idx)) = w)
    (horigHi : read32 e r a (barOffset idx + 4) = origHi)
    (hwHi : r.writable (ecamPtr e a (barOffset idx + 4)) = wHi)
    (hne : ecamPtr e a (barOffset idx + 4) ≠ ecamPtr e a (barOffset idx))
    (hmod : orig.toNat % 8 = 4) :
    probe e a r idx = ((.memory
      ((orig.toUInt64 &&& ~~~0xF) ||| (origHi.toUInt64 <<< (32 : UInt64)))
      (~~~(((ones orig w).toUInt64 &&& ~~~0xF) |||
        ((ones origHi wHi).toUInt64 <<< (32 : UInt64))) + 1)
      (decide ((orig >>> 3) &&& 1 ≠ 0)), 2), r) := by
  have hpos : orig ≠ 0 := by
    rintro rfl
    exact absurd hmod (by decide)
  have hempty := not_empty hpos (by omega)
  have hbit : ¬ orig &&& 1 ≠ 0 := by
    rw [and_one_ne_zero_iff]
    omega
  have htype : ¬ (orig >>> 1) &&& 0x3 = 0x0 := by
    rw [barType_eq_iff]
    change ¬ orig.toNat / 2 % 4 = 0
    omega
  have htype' : (orig >>> 1) &&& 0x3 = 0x2 :=
    barType_eq_iff.mpr (show orig.toNat / 2 % 4 = 2 by omega)
  have hlo : read32 e (write32 e (write32 e r a (barOffset idx) 0xFFFFFFFF) a (barOffset idx + 4)
      0xFFFFFFFF) a (barOffset idx) = ones orig w := by
    rw [read32_write32_of_ne hne.symm, read32_write32_self, horig, hw]
  have hhi : read32 e (write32 e (write32 e r a (barOffset idx) 0xFFFFFFFF) a (barOffset idx + 4)
      0xFFFFFFFF) a (barOffset idx + 4) = ones origHi wHi := by
    rw [write32_comm hne, read32_write32_of_ne hne, read32_write32_self, horigHi, hwHi]
  have hrestore := @write32_restore_two e r a (barOffset idx) (barOffset idx + 4) 0xFFFFFFFF
    0xFFFFFFFF hne
  rw [horig, horigHi] at hrestore
  simp only [probe, horig, horigHi, if_neg hempty, if_neg hbit, if_neg htype, if_pos htype', hlo,
    hhi, hrestore]

end Branches

section Assignments

variable {e : Ecam} {a : PciAddress} {r : Registers} {idx : Nat}

/-- What is found of an assignment: of an I/O range no less than 16 ports, and no more of its base
than 16 bits. -/
def Assigned.bar : Assigned → Bar
  | unimplemented => .empty
  | io w => .io (UInt16.ofNat w.base) (UInt64.ofNat (2 ^ max 4 w.order))
  | memory32 w prefetchable =>
      .memory (UInt64.ofNat w.base) (UInt64.ofNat (2 ^ w.order)) prefetchable
  | memory64 w prefetchable =>
      .memory (UInt64.ofNat w.base) (UInt64.ofNat (2 ^ w.order)) prefetchable

theorem toNat_ofNat_pow {k : Nat} (hk : k < 64) : (UInt64.ofNat (2 ^ k)).toNat = 2 ^ k :=
  UInt64.toNat_ofNat_of_lt (Nat.pow_lt_pow_right (by decide) hk)

theorem prefetchable_eq {x : UInt32} {b t : Nat} {p : Bool}
    (hx : x.toNat = b + t + 8 * p.toNat) (hb : b % 16 = 0) (ht : t < 8) :
    decide ((x >>> 3) &&& 1 ≠ 0) = p := by
  simp only [prefetchable_iff, hx]
  cases p
  · simp only [Bool.toNat_false, decide_eq_false_iff_not]
    omega
  · simp only [Bool.toNat_true, decide_eq_true_eq]
    omega

theorem Implemented.head {x : UInt32 × UInt32} {xs : List (UInt32 × UInt32)}
    (h : Implemented e a r idx (x :: xs)) : read32 e r a (barOffset idx) = x.1 ∧
      r.writable (ecamPtr e a (barOffset idx)) = x.2 := h 0 x rfl

/-- What follows some registers. -/
theorem Implemented.drop {xs ys : List (UInt32 × UInt32)}
    (h : Implemented e a r idx (xs ++ ys)) : Implemented e a r (idx + xs.length) ys := by
  intro i x hx
  rw [Nat.add_assoc]
  apply h
  rwa [List.getElem?_append_right (Nat.le_add_right _ _), Nat.add_sub_cancel_left]

theorem Implemented.take {xs ys : List (UInt32 × UInt32)}
    (h : Implemented e a r idx (xs ++ ys)) : Implemented e a r idx xs := by
  intro i x hx
  have hi : i < xs.length := (List.getElem?_eq_some_iff.mp hx).1
  apply h
  rwa [List.getElem?_append_left hi]

theorem probe_unimplemented (h : Implemented e a r idx Assigned.unimplemented.registers) :
    probe e a r idx = ((.empty, 1), r) := by
  have horig : read32 e r a (barOffset idx) = 0 := h.head.1
  simp [probe, horig]

theorem probe_io_window {w : Window 32 2}
    (h : Implemented e a r idx (Assigned.io w).registers) :
    probe e a r idx = (((Assigned.io w).bar, 1), r) := by
  obtain ⟨horig, hw⟩ := h.head
  have hbase := w.base_lt
  have hfour : w.base % 2 ^ 2 = 0 := w.mod_eq_zero w.least_le
  have horder := w.order_lt
  have htwo : 2 ^ 2 ≤ 2 ^ w.order := Nat.pow_le_pow_right (by decide) w.least_le
  have hvalue : (UInt32.ofNat (w.base + 1)).toNat = w.base + 1 :=
    UInt32.toNat_ofNat_of_lt (show w.base + 1 < 2 ^ 32 by omega)
  have hport : (UInt32.ofNat (w.base + 1) &&& 0xFFFC).toUInt16 = UInt16.ofNat w.base := by
    have hand := and_upperMask (show 2 ≤ 16 by decide) (w.base + 1)
    apply UInt16.toNat_inj.mp
    rw [UInt32.toNat_toUInt16, UInt32.toNat_and, hvalue, UInt16.toNat_ofNat']
    change (w.base + 1 &&& 2 ^ 16 - 2 ^ 2) % 2 ^ 16 = w.base % 2 ^ 16
    omega
  have hsize : (~~~(ones (UInt32.ofNat (w.base + 1)) (bitsFrom w.order) &&& ~~~0xF) + 1).toUInt64 =
      UInt64.ofNat (2 ^ max 4 w.order) := by
    have hlow : (w.base + 1) % 2 ^ w.order = 1 := w.add_mod (Nat.le_refl _) (by omega)
    have hmax : max 4 w.order < 32 := Nat.max_lt.mpr ⟨by decide, horder⟩
    apply UInt64.toNat_inj.mp
    rw [toNat_ofNat_pow (hmax.trans (by decide))]
    apply toNat_size32 hmax
    rw [toNat_ones horder.le, hvalue, hlow]
    exact clear_ones (by decide) (by omega) (by decide)
  rw [probe_io horig hw (by rw [hvalue]; omega), hport, hsize]
  rfl

theorem probe_memory32_window {w : Window 32 4} {p : Bool}
    (h : Implemented e a r idx (Assigned.memory32 w p).registers) :
    probe e a r idx = (((Assigned.memory32 w p).bar, 1), r) := by
  obtain ⟨horig, hw⟩ := h.head
  have hbase := w.base_lt
  have hpos := w.base_pos
  have hp : p.toNat ≤ 1 := p.toNat_le
  have hsixteen : w.base % 2 ^ 4 = 0 := w.mod_eq_zero w.least_le
  have horder := w.order_lt
  have hleast : 2 ^ 4 ≤ 2 ^ w.order := Nat.pow_le_pow_right (by decide) w.least_le
  have hvalue : (UInt32.ofNat (w.base + 8 * p.toNat)).toNat = w.base + 8 * p.toNat :=
    UInt32.toNat_ofNat_of_lt (show w.base + 8 * p.toNat < 2 ^ 32 by omega)
  have hne : UInt32.ofNat (w.base + 8 * p.toNat) ≠ 0 := by
    rw [Ne, ← UInt32.toNat_inj, hvalue]
    change ¬ w.base + 8 * p.toNat = 0
    omega
  have hrange : (UInt32.ofNat (w.base + 8 * p.toNat)).toUInt64 &&& ~~~0xF =
      UInt64.ofNat w.base := by
    apply UInt64.toNat_inj.mp
    rw [toNat_clear64, hvalue, UInt64.toNat_ofNat_of_lt' (hbase.trans (by decide))]
    omega
  have hsize : (~~~(ones (UInt32.ofNat (w.base + 8 * p.toNat)) (bitsFrom w.order) &&& ~~~0xF)
      + 1).toUInt64 = UInt64.ofNat (2 ^ w.order) := by
    have hlow : (w.base + 8 * p.toNat) % 2 ^ w.order = 8 * p.toNat :=
      w.add_mod (Nat.le_refl _) (by omega)
    apply UInt64.toNat_inj.mp
    rw [toNat_ofNat_pow (horder.trans (by decide))]
    apply toNat_size32 horder
    rw [toNat_ones horder.le, hvalue, hlow, clear_ones (by decide) (by omega) (by omega),
      Nat.max_eq_right w.least_le]
  have hflag := prefetchable_eq (t := 0) hvalue (by omega) (by decide)
  rw [probe_memory32 horig hw hne (by rw [hvalue]; omega), hrange, hsize, hflag]
  rfl

theorem toNat_barOffset (h : idx < 6) : (barOffset idx).toNat = 0x10 + idx * 4 :=
  UInt16.toNat_ofNat_of_lt (show 0x10 + idx * 4 < 2 ^ 16 by omega)

theorem barOffset_succ : barOffset idx + 4 = barOffset (idx + 1) := by
  rw [barOffset, barOffset, Nat.add_mul, ← Nat.add_assoc, UInt16.ofNat_add (0x10 + idx * 4)]
  rfl

theorem ecamPtr_succ_ne (h : idx + 1 < 6) :
    ecamPtr e a (barOffset idx + 4) ≠ ecamPtr e a (barOffset idx) := by
  have hoffset := toNat_barOffset (show idx < 6 by omega)
  have hoffset' := toNat_barOffset h
  rw [barOffset_succ, ecamPtr_eq, ecamPtr_eq, hoffset, hoffset']
  omega

theorem probe_memory64_window {w : Window 64 4} {p : Bool} (hidx : idx + 1 < 6)
    (h : Implemented e a r idx (Assigned.memory64 w p).registers) :
    probe e a r idx = (((Assigned.memory64 w p).bar, 2), r) := by
  obtain ⟨horig, hw⟩ := h.head
  obtain ⟨horigHi, hwHi⟩ := h 1 _ rfl
  rw [← barOffset_succ] at horigHi hwHi
  have hbase := w.base_lt
  have hp : p.toNat ≤ 1 := p.toNat_le
  have horder := w.order_lt
  have hleast := w.least_le
  have hsixteen : w.base % 2 ^ 4 = 0 := w.mod_eq_zero w.least_le
  have hvalue : (UInt32.ofNat (w.base % 2 ^ 32 + 4 + 8 * p.toNat)).toNat =
      w.base % 2 ^ 32 + 4 + 8 * p.toNat :=
    UInt32.toNat_ofNat_of_lt (show w.base % 2 ^ 32 + 4 + 8 * p.toNat < 2 ^ 32 by omega)
  have hvalueHi : (UInt32.ofNat (w.base / 2 ^ 32)).toNat = w.base / 2 ^ 32 :=
    UInt32.toNat_ofNat_of_lt (show w.base / 2 ^ 32 < 2 ^ 32 by omega)
  have hrange : ((UInt32.ofNat (w.base % 2 ^ 32 + 4 + 8 * p.toNat)).toUInt64 &&& ~~~0xF) |||
      ((UInt32.ofNat (w.base / 2 ^ 32)).toUInt64 <<< (32 : UInt64)) = UInt64.ofNat w.base := by
    apply UInt64.toNat_inj.mp
    rw [toNat_join, hvalue, hvalueHi, UInt64.toNat_ofNat_of_lt' hbase]
    omega
  have hsize : ~~~(((ones (UInt32.ofNat (w.base % 2 ^ 32 + 4 + 8 * p.toNat))
        (bitsFrom (min w.order 32))).toUInt64 &&& ~~~0xF) |||
      ((ones (UInt32.ofNat (w.base / 2 ^ 32)) (bitsFrom (w.order - 32))).toUInt64 <<<
        (32 : UInt64))) + 1 = UInt64.ofNat (2 ^ w.order) := by
    have hmin : min w.order 32 ≤ 32 := Nat.min_le_right _ _
    have hfour : 4 ≤ min w.order 32 := Nat.le_min.mpr ⟨hleast, by decide⟩
    have hpow : 2 ^ 4 ≤ 2 ^ min w.order 32 := Nat.pow_le_pow_right (by decide) hfour
    have hlow : (w.base % 2 ^ 32 + 4 + 8 * p.toNat) % 2 ^ min w.order 32 = 4 + 8 * p.toNat := by
      have hlow := w.add_mod (Nat.min_le_left w.order 32) (show 4 + 8 * p.toNat < _ by omega)
      rwa [Nat.add_mod, ← Nat.mod_mod_of_dvd w.base (Nat.pow_dvd_pow 2 hmin), ← Nat.add_mod,
        ← Nat.add_assoc] at hlow
    apply UInt64.toNat_inj.mp
    rw [toNat_ofNat_pow horder]
    apply toNat_size64 horder
    rw [toNat_ones hmin, toNat_ones (show w.order - 32 ≤ 32 by omega), hvalue, hvalueHi, hlow,
      w.div_mod_eq_zero, clear_ones (by decide) (by omega) (by omega), Nat.max_eq_right hfour,
      Nat.zero_add]
    exact upperMask_join w.order horder
  have hflag := prefetchable_eq (p := p) hvalue (by omega) (by decide)
  rw [probe_memory64 horig hw horigHi hwHi (ecamPtr_succ_ne hidx) (by rw [hvalue]; omega), hrange,
    hsize, hflag]
  rfl

/-- One round of the loop of the probe. -/
theorem probe_assigned {x : Assigned} (h : Implemented e a r idx x.registers)
    (hidx : idx + x.registers.length ≤ 6) :
    probe e a r idx = ((x.bar, x.registers.length), r) := by
  cases x with
  | unimplemented => exact probe_unimplemented h
  | io w => exact probe_io_window h
  | memory32 w prefetchable => exact probe_memory32_window h
  | memory64 w prefetchable => exact probe_memory64_window hidx h

end Assignments

/-! ### Probing all of them -/

section All

variable {e : Ecam} {a : PciAddress} {r : Registers} {x : Assigned} {xs : List Assigned}
  {front : List Bar}

/-- What is found of an assignment, for each of its registers. -/
def Assigned.bars (x : Assigned) : List Bar :=
  x.bar :: List.replicate (x.registers.length - 1) .empty

theorem Assigned.length_registers_pos : 0 < x.registers.length := by
  cases x <;> exact Nat.succ_pos _

theorem Assigned.length_bars : x.bars.length = x.registers.length := by
  rw [bars, List.length_cons, List.length_replicate]
  exact Nat.sub_add_cancel length_registers_pos

/-- A bar takes the place of the first empty one, and those after it that are its own stay empty. -/
theorem set_bar (front : List Bar) (x : Assigned) (n : Nat) :
    (front ++ List.replicate (x.registers.length + n) Bar.empty).set front.length x.bar =
      (front ++ x.bars) ++ List.replicate n Bar.empty := by
  have hlen : x.registers.length = x.registers.length - 1 + 1 :=
    (Nat.sub_add_cancel Assigned.length_registers_pos).symm
  rw [List.set_append_right _ _ (Nat.le_refl _), Nat.sub_self,
    ← List.replicate_append_replicate, hlen, List.replicate_succ, List.cons_append,
    List.set_cons_zero, List.append_assoc]
  rfl

/-- The loop, from an assignment on. -/
theorem parseAllLoop_eq
    (h : Implemented e a r front.length (xs.flatMap Assigned.registers))
    (hlen : front.length + (xs.flatMap Assigned.registers).length = 6) :
    parseAllLoop e a front.length
        (front ++ List.replicate (xs.flatMap Assigned.registers).length .empty) r =
      (front ++ xs.flatMap Assigned.bars, r) := by
  induction xs generalizing front with
  | nil =>
    have hsix : ¬ front.length < 6 := Nat.not_lt_of_le (Nat.le_of_eq hlen.symm)
    rw [parseAllLoop, if_neg hsix]
    rfl
  | cons x xs ih =>
    have hpos := x.length_registers_pos
    simp only [List.flatMap_cons, List.length_append] at h hlen ⊢
    have hprobe := probe_assigned h.take (by omega)
    have hnext : front.length + x.registers.length = (front ++ x.bars).length := by
      rw [List.length_append, Assigned.length_bars]
    rw [parseAllLoop, if_pos (by omega), hprobe]
    simp only
    rw [set_bar, hnext, ih (hnext ▸ h.drop) (by rw [← hnext]; omega), List.append_assoc]

/-- Everything that is probed. -/
theorem parseAll_eq (d : Device e) : parseAll e d.address d.registers =
    (d.layout.flatMap Assigned.bars, d.registers) := by
  have hloop := @parseAllLoop_eq e d.address d.registers d.layout [] d.implemented
    ((Nat.zero_add _).trans d.slots)
  rwa [d.slots] at hloop

/-- What an assignment needs to be reported as it is. -/
def Assigned.Exact : Assigned → Prop
  | io w => 4 ≤ w.order ∧ w.base < 2 ^ 16
  | _ => True

theorem Assigned.range_bars_iff : x.bars.map Bar.range = x.ranges ↔ x.Exact := by
  cases x with
  | unimplemented => exact iff_of_true rfl trivial
  | io w =>
    have hmax : max 4 w.order < 64 := Nat.max_lt.mpr ⟨by decide, w.order_lt.trans (by decide)⟩
    have hsize : 2 ^ max 4 w.order = 2 ^ w.order ↔ 4 ≤ w.order := by
      rw [Nat.pow_right_inj (by decide)]
      omega
    have hport : (UInt16.ofNat w.base).toNat = w.base ↔ w.base < 2 ^ 16 := by
      rw [UInt16.toNat_ofNat']
      exact Nat.mod_eq_iff_lt (by decide)
    simp only [bars, bar, registers, ranges, Exact, Bar.range, List.length_singleton, Nat.sub_self,
      List.replicate_zero, List.map_cons, List.map_nil, toNat_ofNat_pow hmax, List.cons.injEq,
      Range.io.injEq, and_true, hsize, hport]
    exact and_comm
  | memory32 w prefetchable =>
    have hsize := toNat_ofNat_pow (w.order_lt.trans (show 32 < 64 by decide))
    have hbase : (UInt64.ofNat w.base).toNat = w.base :=
      UInt64.toNat_ofNat_of_lt' (w.base_lt.trans (by decide))
    apply iff_of_true _ trivial
    simp [bars, bar, registers, ranges, Bar.range, hsize, hbase]
  | memory64 w prefetchable =>
    have hsize := toNat_ofNat_pow w.order_lt
    have hbase : (UInt64.ofNat w.base).toNat = w.base := UInt64.toNat_ofNat_of_lt' w.base_lt
    apply iff_of_true _ trivial
    simp [bars, bar, registers, ranges, Bar.range, hsize, hbase]

theorem Assigned.length_ranges : (x.bars.map Bar.range).length = x.ranges.length := by
  cases x <;> rfl

theorem range_flatMap_iff : (xs.flatMap Assigned.bars).map Bar.range = xs.flatMap Assigned.ranges ↔
    ∀ x ∈ xs, x.Exact := by
  rw [List.map_flatMap, flatMap_eq_flatMap_iff fun x _ ↦ x.length_ranges]
  simp only [Assigned.range_bars_iff]

/-- The probe is faithful if and only if every I/O range has at least 16 ports and lies below
`2 ^ 16`. -/
theorem probesFaithfully_iff (d : Device e) : ProbesFaithfully d ↔
    ∀ w, Assigned.io w ∈ d.layout → 4 ≤ w.order ∧ w.base < 2 ^ 16 := by
  rw [ProbesFaithfully, parseAll_eq, and_iff_left rfl, range_flatMap_iff]
  constructor
  · intro h w hw
    exact h _ hw
  · intro h x hx
    cases x with
    | io w => exact h w hx
    | unimplemented => trivial
    | memory32 w prefetchable => trivial
    | memory64 w prefetchable => trivial

end All

/-- A function with four ports at `0x1000`. -/
def fourPorts : Device ⟨0xB0000000, 0, by decide⟩ where
  address := ⟨0, 0, 0⟩
  layout := .io ⟨2, 0x1000, by decide, by decide, by decide, by decide⟩ ::
    List.replicate 5 .unimplemented
  slots := by decide
  registers :=
    { value := fun p ↦ if p = 0xB0000010 then 0x1001 else 0
      writable := fun p ↦ if p = 0xB0000010 then bitsFrom 2 else 0 }
  implemented := by
    intro i x hx
    obtain ⟨hi, rfl⟩ := List.getElem?_eq_some_iff.mp hx
    revert i
    decide

/-- Sixteen ports are reported. -/
theorem not_probesFaithfully_fourPorts :
    ¬ ∀ (e : Ecam) (d : Device e), ProbesFaithfully d := by
  intro h
  have hfour := (h _ fourPorts).1
  rw [parseAll_eq] at hfour
  exact absurd hfour (by decide)

end SmallOs.Pci
