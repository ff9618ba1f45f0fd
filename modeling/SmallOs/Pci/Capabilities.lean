import Mathlib.Tactic.SplitIfs
import SmallOs.Pci.Ecam

/-!
# Lists of capabilities

`lib/bus/src/pci/caps.rs` lists the capabilities of a device, and the block driver looks for one of
its own along the same links. A link may lead anywhere: both give up after 48 capabilities.
-/

namespace SmallOs.Pci

/-- `lib/bus/src/pci/caps.rs:3–11`. -/
inductive CapabilityId
  | msi
  | msiX
  | pcie
  | vendorSpecific
  | powerManagement
  | unknown (v : UInt8)
  deriving DecidableEq

/-- `lib/bus/src/pci/caps.rs:14–23`. -/
def CapabilityId.fromU8 (v : UInt8) : CapabilityId :=
  if v = 0x01 then .powerManagement
  else if v = 0x05 then .msi
  else if v = 0x10 then .pcie
  else if v = 0x11 then .msiX
  else if v = 0x09 then .vendorSpecific
  else .unknown v

theorem CapabilityId.fromU8_eq_vendorSpecific {v : UInt8} :
    fromU8 v = .vendorSpecific ↔ v = 0x09 := by
  rw [fromU8]
  split_ifs with h₁ h₂ h₃ h₄ h₅
  all_goals simp_all

/-- `lib/bus/src/pci/caps.rs:26–30`. -/
structure Capability where
  id : CapabilityId
  offset : UInt16
  deriving DecidableEq

/-- `lib/driver/src/block/virtio/mod.rs:437–443`. -/
structure VirtioCapInfo where
  cfgType : UInt8
  bar : UInt8
  offset : UInt32
  length : UInt32
  capOffset : UInt16
  deriving DecidableEq

variable {S : Type} [ConfigSpace S] (e : Ecam) (s : S) (a : PciAddress)

/-- `lib/bus/src/pci/caps.rs:44–63`. -/
def parseCapabilitiesLoop : Nat → UInt16 → List Capability
  | 0, _ => []
  | rounds + 1, offset =>
      if offset < 0x40 ∨ offset > 0xFC then []
      else
        let id := read8 e s a offset
        let next := read8 e s a (offset + 1) &&& ~~~3
        let cap : Capability := ⟨CapabilityId.fromU8 id, offset⟩
        if next = 0 then [cap] else cap :: parseCapabilitiesLoop rounds next.toUInt16

/-- `lib/bus/src/pci/caps.rs:33–66`. -/
def parseCapabilities : List Capability :=
  let status := read16 e s a 0x06
  if status &&& ((1 : UInt16) <<< 4) = 0 then []
  else parseCapabilitiesLoop e s a 48 (read8 e s a 0x34 &&& ~~~3).toUInt16

/-- `lib/driver/src/block/virtio/mod.rs:107–131`. -/
def findVirtioCapLoop (cfgType : UInt8) : Nat → UInt16 → Option VirtioCapInfo
  | 0, _ => none
  | rounds + 1, ptr =>
      if ptr < 0x40 then none
      else
        let id := read8 e s a ptr
        let next := read8 e s a (ptr + 1) &&& ~~~3
        let t := read8 e s a (ptr + 3)
        if id = 0x09 ∧ t = cfgType then
          some ⟨t, read8 e s a (ptr + 4), read32 e s a (ptr + 8), read32 e s a (ptr + 12), ptr⟩
        else if next = 0 then none
        else findVirtioCapLoop cfgType rounds next.toUInt16

/-- `lib/driver/src/block/virtio/mod.rs:100–133`. -/
def findVirtioCap (cfgType : UInt8) : Option VirtioCapInfo :=
  let status := read16 e s a 0x06
  if status &&& 0x10 = 0 then none
  else findVirtioCapLoop e s a cfgType 48 (read8 e s a 0x34 &&& ~~~3).toUInt16

/-- The capabilities that the driver looks for. -/
def Capability.isVirtio (cfgType : UInt8) (cap : Capability) : Bool :=
  cap.id = .vendorSpecific ∧ read8 e s a (cap.offset + 3) = cfgType

/-- A link is a multiple of four below 256, so that one walk need not check what the other does. -/
theorem link_le (b : UInt8) : ¬ (b &&& ~~~3).toUInt16 > 0xFC := by
  have hle : b.toNat &&& 0xFC ≤ 0xFC := Nat.and_le_right
  rw [gt_iff_lt, UInt16.lt_iff_toNat_lt, Nat.not_lt, UInt8.toNat_toUInt16, UInt8.toNat_and]
  exact hle

variable {e s a} {cfgType : UInt8} {rounds : Nat} {offset : UInt16}

/-- One link of both walks. -/
theorem findVirtioCapLoop_eq (hoffset : ¬ offset > 0xFC) :
    (findVirtioCapLoop e s a cfgType rounds offset).map VirtioCapInfo.capOffset =
      ((parseCapabilitiesLoop e s a rounds offset).find? (Capability.isVirtio e s a cfgType)).map
        Capability.offset := by
  induction rounds generalizing offset with
  | zero => rfl
  | succ rounds ih =>
    rw [findVirtioCapLoop, parseCapabilitiesLoop]
    by_cases hlow : offset < 0x40
    · simp [hlow]
    · have hvirtio : Capability.isVirtio e s a cfgType
          ⟨CapabilityId.fromU8 (read8 e s a offset), offset⟩ =
            decide (read8 e s a offset = 0x09 ∧ read8 e s a (offset + 3) = cfgType) := by
        simp only [Capability.isVirtio, CapabilityId.fromU8_eq_vendorSpecific]
      have hinside : ¬ (offset < 0x40 ∨ offset > 0xFC) := not_or.mpr ⟨hlow, hoffset⟩
      simp only [if_neg hlow, if_neg hinside]
      by_cases hfound : read8 e s a offset = 0x09 ∧ read8 e s a (offset + 3) = cfgType
      · have hhead : Capability.isVirtio e s a cfgType
            ⟨CapabilityId.fromU8 (read8 e s a offset), offset⟩ = true :=
          hvirtio.trans (decide_eq_true hfound)
        rw [if_pos hfound]
        by_cases hnext : read8 e s a (offset + 1) &&& ~~~3 = 0
        · rw [if_pos hnext, List.find?_cons_of_pos hhead]
          rfl
        · rw [if_neg hnext, List.find?_cons_of_pos hhead]
          rfl
      · have hhead : ¬ Capability.isVirtio e s a cfgType
            ⟨CapabilityId.fromU8 (read8 e s a offset), offset⟩ = true := by
          rw [hvirtio, decide_eq_true_eq]
          exact hfound
        rw [if_neg hfound]
        by_cases hnext : read8 e s a (offset + 1) &&& ~~~3 = 0
        · rw [if_pos hnext, if_pos hnext, List.find?_cons_of_neg hhead]
          rfl
        · rw [if_neg hnext, if_neg hnext, List.find?_cons_of_neg hhead]
          exact ih (link_le _)

theorem length_parseCapabilitiesLoop :
    (parseCapabilitiesLoop e s a rounds offset).length ≤ rounds := by
  induction rounds generalizing offset with
  | zero => exact Nat.le_refl 0
  | succ rounds ih =>
    rw [parseCapabilitiesLoop]
    split
    · exact Nat.zero_le _
    · simp only
      split
      · exact Nat.succ_le_succ (Nat.zero_le _)
      · exact Nat.succ_le_succ ih

variable (e s a) in
/-- What the driver finds is the first of its capabilities in the list, and it finds one if there is
one. The list is as long as the number of rounds at most, however the links lead. -/
structure WalkersAgree (cfgType : UInt8) : Prop where
  isSome_iff : (findVirtioCap e s a cfgType).isSome ↔ ∃ cap ∈ parseCapabilities e s a,
    cap.id = .vendorSpecific ∧ read8 e s a (cap.offset + 3) = cfgType
  first : (findVirtioCap e s a cfgType).map VirtioCapInfo.capOffset =
    ((parseCapabilities e s a).find? (Capability.isVirtio e s a cfgType)).map Capability.offset
  bounded : (parseCapabilities e s a).length ≤ 48

theorem findVirtioCap_eq : (findVirtioCap e s a cfgType).map VirtioCapInfo.capOffset =
    ((parseCapabilities e s a).find? (Capability.isVirtio e s a cfgType)).map
      Capability.offset := by
  rw [findVirtioCap, parseCapabilities]
  have hbit : (1 : UInt16) <<< 4 = 0x10 := by decide
  rw [hbit]
  split
  · rfl
  · exact findVirtioCapLoop_eq (link_le _)

/-- The walk of the driver and the list of the bus agree on every content of the configuration
space. -/
theorem walkersAgree (e : Ecam) (s : S) (a : PciAddress) (cfgType : UInt8) :
    WalkersAgree e s a cfgType where
  isSome_iff := by
    have hfirst := congrArg Option.isSome (@findVirtioCap_eq S _ e s a cfgType)
    rw [Option.isSome_map, Option.isSome_map] at hfirst
    rw [hfirst, List.find?_isSome]
    simp [Capability.isVirtio]
  first := findVirtioCap_eq
  bounded := by
    rw [parseCapabilities]
    split
    · exact Nat.zero_le _
    · exact length_parseCapabilitiesLoop

end SmallOs.Pci
