import SmallOs.Base.Masks

/-!
# The configuration space

`lib/hal/src/pci/ecam.rs`: registers of 32 bits in a window of memory, and accesses to parts of them
by shifts and masks. What a register does with a store is left to the device behind it.
-/

namespace SmallOs.Pci

open SmallOs.Base

/-- `lib/hal/src/pci/mod.rs:11–16`. -/
structure PciAddress where
  bus : UInt8
  device : UInt8
  function : UInt8
  deriving DecidableEq

/-- A bus has 32 devices, and a device 8 functions. -/
structure PciAddress.Valid (a : PciAddress) : Prop where
  device : a.device.toNat < 32
  function : a.function.toNat < 8

/-- `lib/hal/src/pci/ecam.rs:3–9`: where the window is in physical memory, and where that is mapped.
The window of 256 MiB lies in the address space, so that no sum of an address overflows. -/
structure Ecam where
  physBase : Nat
  physOffset : Nat
  fits : physBase + physOffset + 2 ^ 28 ≤ 2 ^ 64

/-- Registers that are read and written at addresses. -/
class ConfigSpace (S : Type) where
  load : S → Nat → UInt32
  store : S → Nat → UInt32 → S

/-- Registers that keep what is stored. -/
abbrev Words := Nat → UInt32

instance : ConfigSpace Words where
  load words p := words p
  store words p v := fun q ↦ if q = p then v else words q

open ConfigSpace

section Access

variable {S : Type} [ConfigSpace S] (e : Ecam) (s : S) (a : PciAddress) (off : UInt16)

/-- `lib/hal/src/pci/ecam.rs:13–22`. -/
def ecamPtr : Nat :=
  let phys := e.physBase
    + (a.bus.toNat <<< 20)
    + (a.device.toNat <<< 15)
    + (a.function.toNat <<< 12)
    + (off.toNat &&& 0xFFC)
  phys + e.physOffset

/-- `lib/hal/src/pci/ecam.rs:26–28`. -/
def read32 : UInt32 := load s (ecamPtr e a off)

/-- `lib/hal/src/pci/ecam.rs:30–33`. -/
def read16 : UInt16 :=
  let w := read32 e s a (off &&& ~~~3)
  (w >>> ((off &&& 2) * 8).toUInt32).toUInt16

/-- `lib/hal/src/pci/ecam.rs:35–38`. -/
def read8 : UInt8 :=
  let w := read32 e s a (off &&& ~~~3)
  (w >>> ((off &&& 3) * 8).toUInt32).toUInt8

/-- `lib/hal/src/pci/ecam.rs:40–42`. -/
def write32 (val : UInt32) : S := store s (ecamPtr e a off) val

/-- `lib/hal/src/pci/ecam.rs:44–49`. -/
def write16 (val : UInt16) : S :=
  let cur := read32 e s a (off &&& ~~~3)
  let shift := ((off &&& 2) * 8).toUInt32
  let new := (cur &&& ~~~(0xFFFF <<< shift)) ||| (val.toUInt32 <<< shift)
  write32 e s a (off &&& ~~~3) new

/-- `lib/hal/src/pci/ecam.rs:51–56`. -/
def write8 (val : UInt8) : S :=
  let cur := read32 e s a (off &&& ~~~3)
  let shift := ((off &&& 3) * 8).toUInt32
  let new := (cur &&& ~~~(0xFF <<< shift)) ||| (val.toUInt32 <<< shift)
  write32 e s a (off &&& ~~~3) new

end Access

/-! ### Addresses -/

section Addresses

variable {e : Ecam} {a b : PciAddress} {off off' : UInt16}

theorem and_0xFFC (n : Nat) : n &&& 0xFFC = n / 4 % 1024 * 4 := by
  have hmask : n &&& 0xFFC = n % 2 ^ 12 / 2 ^ 2 * 2 ^ 2 :=
    and_upperMask (show 2 ≤ 12 by decide) n
  omega

/-- The address of the register that holds an offset is the register's own. -/
theorem ecamPtr_aligned : ecamPtr e a (off &&& ~~~3) = ecamPtr e a off := by
  have hmask : (off &&& ~~~3).toNat &&& 0xFFC = off.toNat &&& 0xFFC := by
    rw [UInt16.toNat_and, Nat.and_assoc]
    rfl
  rw [ecamPtr, ecamPtr, hmask]

theorem ecamPtr_eq : ecamPtr e a off = e.physBase + e.physOffset + a.bus.toNat * 2 ^ 20 +
    a.device.toNat * 2 ^ 15 + a.function.toNat * 2 ^ 12 + off.toNat / 4 % 1024 * 4 := by
  rw [ecamPtr, and_0xFFC, Nat.shiftLeft_eq, Nat.shiftLeft_eq, Nat.shiftLeft_eq]
  omega

/-- Every register lies in the window. -/
theorem ecamPtr_lt (ha : a.Valid) : ecamPtr e a off + 4 ≤ 2 ^ 64 := by
  have hbus := a.bus.toNat_lt
  have hdevice := ha.device
  have hfunction := ha.function
  have hfits := e.fits
  rw [ecamPtr_eq]
  omega

/-- Different registers have different addresses. -/
theorem ecamPtr_inj (ha : a.Valid) (hb : b.Valid) (hoff : off.toNat < 4096)
    (hoff' : off'.toNat < 4096) (h : ecamPtr e a off = ecamPtr e b off') :
    a = b ∧ off.toNat / 4 = off'.toNat / 4 := by
  obtain ⟨bus, device, function⟩ := a
  obtain ⟨bus', device', function'⟩ := b
  have hdevice : device.toNat < 32 := ha.device
  have hdevice' : device'.toNat < 32 := hb.device
  have hfunction : function.toNat < 8 := ha.function
  have hfunction' : function'.toNat < 8 := hb.function
  rw [ecamPtr_eq, ecamPtr_eq] at h
  simp only at h
  have hwords : off.toNat / 4 = off'.toNat / 4 := by omega
  have hfunctions : function.toNat = function'.toNat := by omega
  have hdevices : device.toNat = device'.toNat := by omega
  have hbuses : bus.toNat = bus'.toNat := by omega
  rw [UInt8.toNat_inj.mp hfunctions, UInt8.toNat_inj.mp hdevices, UInt8.toNat_inj.mp hbuses]
  exact ⟨rfl, hwords⟩

end Addresses

end SmallOs.Pci
