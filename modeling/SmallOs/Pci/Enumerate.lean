import Mathlib.Data.List.Nodup
import SmallOs.Base.Outcome
import SmallOs.Pci.Bar

/-!
# Walking the bus

`lib/hal/src/pci/mod.rs`: every function of every device of every bus is looked at, and those that
answer are handed to a closure. The base address registers of a function are overwritten on the way;
the walk leaves all of them as they were.
-/

namespace SmallOs.Pci

open SmallOs.Base Outcome

/-- `lib/hal/src/pci/mod.rs:19–29`. -/
structure PciDeviceInfo where
  address : PciAddress
  vendorId : UInt16
  deviceId : UInt16
  cls : UInt8
  subclass : UInt8
  progIf : UInt8
  revision : UInt8
  bars : List Bar
  irqLine : Option UInt8
  deriving DecidableEq

/-- `lib/hal/src/pci/ecam.rs:11`. -/
def isReady (e : Ecam) : Bool := e.physBase ≠ 0

section Scan

variable {S τ : Type} [ConfigSpace S] (e : Ecam) (f : S × τ → PciDeviceInfo → S × τ)

/-- Nothing answers; `lib/hal/src/pci/mod.rs:89, 98`. -/
def absent (s : S) (a : PciAddress) : Prop := read32 e s a 0x00 &&& 0xFFFF = 0xFFFF

instance (s : S) (a : PciAddress) : Decidable (absent e s a) := inferInstanceAs (Decidable (_ = _))

/-- The base address registers of a function of type 0;
`lib/hal/src/pci/mod.rs:111–117`. -/
def readBars (s : S) (a : PciAddress) : List Bar × S :=
  let headerType := read8 e s a 0x0E &&& ~~~0x80
  if headerType = 0 then parseAll e a s else (List.replicate 6 .empty, s)

/-- What is handed out of a function, with the registers then;
`lib/hal/src/pci/mod.rs:102–134`. -/
def readInfo (s : S) (a : PciAddress) : PciDeviceInfo × S :=
  let val := read32 e s a 0x00
  let classDw := read32 e s a 0x08
  let (bars, s') := readBars e s a
  let v := read8 e s' a 0x3C
  (⟨a, (val &&& 0xFFFF).toUInt16, (val >>> 16).toUInt16, ((classDw >>> 24) &&& 0xFF).toUInt8,
    ((classDw >>> 16) &&& 0xFF).toUInt8, ((classDw >>> 8) &&& 0xFF).toUInt8,
    (classDw &&& 0xFF).toUInt8, bars, if v = 0xFF then none else some v⟩, s')

/-- One function; `lib/hal/src/pci/mod.rs:97–135`. -/
def scanFunction (s : S × τ) (a : PciAddress) : S × τ :=
  if absent e s.1 a then s
  else
    let (info, regs) := readInfo e s.1 a
    f (regs, s.2) info

/-- One device; `lib/hal/src/pci/mod.rs:87–136`. -/
def scanDevice (s : S × τ) (bus device : UInt8) : S × τ :=
  if absent e s.1 ⟨bus, device, 0⟩ then s
  else
    let ht0 := read8 e s.1 ⟨bus, device, 0⟩ 0x0E
    let funcs := if ht0 &&& 0x80 ≠ 0 then 8 else 1
    (List.range funcs).foldl (fun s func ↦ scanFunction e f s ⟨bus, device, UInt8.ofNat func⟩) s

/-- `lib/hal/src/pci/mod.rs:79–139`. -/
def enumerate (s : S × τ) : Outcome Empty (S × τ) := do
  assert (isReady e)
  return (List.range 256).foldl (fun s bus ↦ (List.range 32).foldl (fun s device ↦
    scanDevice e f s (UInt8.ofNat bus) (UInt8.ofNat device)) s) s

end Scan

/-! ### The registers afterwards -/

section Restored

variable {e : Ecam} {a : PciAddress} {r : Registers} {idx : Nat}

/-- Whatever a register holds, it is put back. -/
theorem probe_restores (h : idx < 6) : (probe e a r idx).2 = r := by
  have hlo := toNat_barOffset h
  have hhi : (barOffset idx + 4).toNat = 0x10 + (idx + 1) * 4 := by
    rw [barOffset_succ]
    exact UInt16.toNat_ofNat_of_lt (show 0x10 + (idx + 1) * 4 < 2 ^ 16 by omega)
  have hne : ecamPtr e a (barOffset idx + 4) ≠ ecamPtr e a (barOffset idx) := by
    rw [ecamPtr_eq, ecamPtr_eq, hlo, hhi]
    omega
  rw [probe]
  simp only
  split
  · rfl
  · split
    · exact write32_restore
    · split
      · exact write32_restore
      · split
        · exact write32_restore_two hne
        · rfl

theorem parseAllLoop_restores (i : Nat) (bars : List Bar) : (parseAllLoop e a i bars r).2 = r := by
  rw [parseAllLoop]
  split
  · next h =>
    have hpos := probe_pos e a r i
    simp only [probe_restores h]
    exact parseAllLoop_restores _ _
  · rfl
termination_by 6 - i

theorem readInfo_restores : (readInfo e r a).2 = r := by
  change (readBars e r a).2 = r
  unfold readBars
  simp only
  split
  · exact parseAllLoop_restores 0 _
  · rfl

end Restored

/-! ### The functions that are there -/

section Functions

variable (e : Ecam) (r : Registers)

/-- A function answers, function 0 of its device does, and where it is another one, function 0 says
that there are more. -/
structure Present (a : PciAddress) : Prop where
  answers : ¬ absent e r a
  first : ¬ absent e r ⟨a.bus, a.device, 0⟩
  multi : a.function = 0 ∨ read8 e r ⟨a.bus, a.device, 0⟩ 0x0E &&& 0x80 ≠ 0

instance (a : PciAddress) : Decidable (Present e r a) :=
  decidable_of_iff (¬ absent e r a ∧ ¬ absent e r ⟨a.bus, a.device, 0⟩ ∧
      (a.function = 0 ∨ read8 e r ⟨a.bus, a.device, 0⟩ 0x0E &&& 0x80 ≠ 0))
    ⟨fun ⟨h₁, h₂, h₃⟩ ↦ ⟨h₁, h₂, h₃⟩, fun ⟨h₁, h₂, h₃⟩ ↦ ⟨h₁, h₂, h₃⟩⟩

/-- The functions of a device. -/
def addressesOf (bus device : Nat) : List PciAddress :=
  (List.range 8).map fun func ↦ ⟨UInt8.ofNat bus, UInt8.ofNat device, UInt8.ofNat func⟩

/-- The functions of a device that are there. -/
def functionsOf (bus device : Nat) : List PciAddress :=
  (addressesOf bus device).filter fun a ↦ Present e r a

/-- All functions that are there, in the order of their addresses. -/
def functions : List PciAddress :=
  (List.range 256).flatMap fun bus ↦ (List.range 32).flatMap (functionsOf e r bus)

variable {e r}

theorem mem_addressesOf {a : PciAddress} {bus device : Nat} :
    a ∈ addressesOf bus device ↔ a.bus = UInt8.ofNat bus ∧ a.device = UInt8.ofNat device ∧
      a.function.toNat < 8 := by
  obtain ⟨b, d, f⟩ := a
  simp only [addressesOf, List.mem_map, List.mem_range, PciAddress.mk.injEq]
  constructor
  · rintro ⟨func, hlt, rfl, rfl, rfl⟩
    refine ⟨rfl, rfl, ?_⟩
    rwa [UInt8.toNat_ofNat_of_lt' (show func < 256 by omega)]
  · rintro ⟨rfl, rfl, hlt⟩
    exact ⟨f.toNat, hlt, rfl, rfl, UInt8.ofNat_toNat⟩

/-- Every function that is there is listed. -/
theorem mem_functions {a : PciAddress} : a ∈ functions e r ↔ a.Valid ∧ Present e r a := by
  simp only [functions, functionsOf, List.mem_flatMap, List.mem_range, List.mem_filter,
    mem_addressesOf, decide_eq_true_eq]
  constructor
  · rintro ⟨bus, hbus, device, hdevice, ⟨hb, hd, hfunction⟩, hpresent⟩
    refine ⟨⟨?_, hfunction⟩, hpresent⟩
    rwa [hd, UInt8.toNat_ofNat_of_lt' (show device < 256 by omega)]
  · rintro ⟨hvalid, hpresent⟩
    exact ⟨a.bus.toNat, a.bus.toNat_lt, a.device.toNat, hvalid.device,
      ⟨UInt8.ofNat_toNat.symm, UInt8.ofNat_toNat.symm, hvalid.function⟩, hpresent⟩

theorem ofNat_inj {m n : Nat} (hm : m < 256) (hn : n < 256) (h : UInt8.ofNat m = UInt8.ofNat n) :
    m = n := by
  have hnat := congrArg UInt8.toNat h
  rwa [UInt8.toNat_ofNat_of_lt' hm, UInt8.toNat_ofNat_of_lt' hn] at hnat

/-- None is listed twice. -/
theorem nodup_functions : (functions e r).Nodup := by
  have hdisjoint : ∀ {bus device bus' device' : Nat} {a : PciAddress},
      a ∈ functionsOf e r bus device → a ∈ functionsOf e r bus' device' →
      UInt8.ofNat bus = UInt8.ofNat bus' ∧ UInt8.ofNat device = UInt8.ofNat device' := by
    intro bus device bus' device' a ha ha'
    have h := mem_addressesOf.mp (List.mem_filter.mp ha).1
    have h' := mem_addressesOf.mp (List.mem_filter.mp ha').1
    exact ⟨h.1.symm.trans h'.1, h.2.1.symm.trans h'.2.1⟩
  have hdevice : ∀ bus device, (functionsOf e r bus device).Nodup := by
    intro bus device
    apply List.Nodup.filter
    apply List.Nodup.map_on _ List.nodup_range
    intro x hx y hy h
    have hx := List.mem_range.mp hx
    have hy := List.mem_range.mp hy
    exact ofNat_inj (by omega) (by omega) (PciAddress.mk.inj h).2.2
  apply List.nodup_flatMap.mpr
  refine ⟨?_, ?_⟩
  · intro bus _
    apply List.nodup_flatMap.mpr
    refine ⟨fun device _ ↦ hdevice bus device, ?_⟩
    apply List.Pairwise.imp_of_mem _ List.nodup_range
    intro x y hx hy hne a ha ha'
    have hx := List.mem_range.mp hx
    have hy := List.mem_range.mp hy
    exact hne (ofNat_inj (by omega) (by omega) (hdisjoint ha ha').2)
  · apply List.Pairwise.imp_of_mem _ List.nodup_range
    intro x y hx hy hne a ha ha'
    obtain ⟨d, -, ha⟩ := List.mem_flatMap.mp ha
    obtain ⟨d', -, ha'⟩ := List.mem_flatMap.mp ha'
    exact hne (ofNat_inj (List.mem_range.mp hx) (List.mem_range.mp hy) (hdisjoint ha ha').1)

end Functions

/-! ### The walk -/

section Walk

variable {τ : Type} {e : Ecam} {r : Registers} {f : Registers × τ → PciDeviceInfo → Registers × τ}
  {g : τ → PciDeviceInfo → τ}

theorem scanFunction_eq (hf : ∀ t info, f (r, t) info = (r, g t info)) (t : τ) (a : PciAddress) :
    scanFunction e f (r, t) a =
      (r, if absent e r a then t else g t (readInfo e r a).1) := by
  unfold scanFunction
  split
  · rfl
  · simp only
    rw [readInfo_restores, hf]

/-- One device: its functions that are there, in order. -/
theorem scanDevice_eq (hf : ∀ t info, f (r, t) info = (r, g t info)) (t : τ) (bus device : Nat) :
    scanDevice e f (r, t) (UInt8.ofNat bus) (UInt8.ofNat device) =
      (r, (functionsOf e r bus device).foldl (fun t a ↦ g t (readInfo e r a).1) t) := by
  have hscan : ∀ (fs : List Nat) (t : τ),
      fs.foldl (fun s func ↦ scanFunction e f s
          ⟨UInt8.ofNat bus, UInt8.ofNat device, UInt8.ofNat func⟩) (r, t) =
        (r, (fs.map fun func ↦ (⟨UInt8.ofNat bus, UInt8.ofNat device, UInt8.ofNat func⟩ :
          PciAddress)).foldl (fun t a ↦ if absent e r a then t else g t (readInfo e r a).1) t) := by
    intro fs
    induction fs with
    | nil => exact fun t ↦ rfl
    | cons func fs ih =>
      intro t
      rw [List.foldl_cons, scanFunction_eq hf, ih]
      rfl
  have hskip : ∀ (as : List PciAddress) (t : τ), (∀ a ∈ as, ¬ Present e r a) →
      (as.filter fun a ↦ Present e r a).foldl (fun t a ↦ g t (readInfo e r a).1) t = t := by
    intro as t h
    have hnone : (as.filter fun a ↦ Present e r a) = [] := by
      apply List.filter_eq_nil_iff.mpr
      intro a ha
      rw [decide_eq_true_eq]
      exact h a ha
    rw [hnone]
    rfl
  rw [scanDevice, functionsOf]
  split
  · next hfirst =>
    rw [hskip]
    intro a ha hpresent
    obtain ⟨hb, hd, -⟩ := mem_addressesOf.mp ha
    apply hpresent.first
    rw [hb, hd]
    exact hfirst
  · next hfirst =>
    simp only at hfirst ⊢
    split
    · next hmulti =>
      -- every function of the device is looked at
      rw [hscan, List.foldl_filter]
      congr 1
      apply List.foldl_ext
      intro t a ha
      obtain ⟨hb, hd, -⟩ := mem_addressesOf.mp ha
      by_cases habsent : absent e r a
      · rw [if_pos habsent, if_neg]
        rw [decide_eq_true_eq]
        exact fun h ↦ h.answers habsent
      · rw [if_neg habsent, if_pos]
        rw [decide_eq_true_eq]
        exact ⟨habsent, by rw [hb, hd]; exact hfirst, .inr (by rw [hb, hd]; exact hmulti)⟩
    · next hsingle =>
      -- only function 0 is
      have hsplit : addressesOf bus device = ⟨UInt8.ofNat bus, UInt8.ofNat device, 0⟩ ::
          (List.range' 1 7).map fun func ↦
            ⟨UInt8.ofNat bus, UInt8.ofNat device, UInt8.ofNat func⟩ := rfl
      have hzero : Present e r ⟨UInt8.ofNat bus, UInt8.ofNat device, 0⟩ :=
        ⟨hfirst, hfirst, .inl rfl⟩
      rw [hscan, hsplit, List.filter_cons, if_pos (decide_eq_true hzero), List.foldl_cons, hskip]
      · change (r, if absent e r ⟨UInt8.ofNat bus, UInt8.ofNat device, 0⟩ then t else _) = _
        rw [if_neg hfirst]
        rfl
      · intro a ha hpresent
        obtain ⟨func, hfunc, rfl⟩ := List.mem_map.mp ha
        have hrange := List.mem_range'_1.mp hfunc
        rcases hpresent.multi with hz | hmulti
        · have h := ofNat_inj (show func < 256 by omega) (show 0 < 256 by decide) hz
          omega
        · exact hsingle hmulti

/-- The closure is called for the functions that are there, in order, and each time it gets what
the registers say that were there before the walk. -/
theorem enumerate_eq (he : isReady e) (hf : ∀ t info, f (r, t) info = (r, g t info)) (t : τ) :
    enumerate e f (r, t) =
      .ok (r, (functions e r).foldl (fun t a ↦ g t (readInfo e r a).1) t) := by
  have hbus : ∀ (bus : Nat) (ds : List Nat) (t : τ),
      ds.foldl (fun s device ↦ scanDevice e f s (UInt8.ofNat bus) (UInt8.ofNat device)) (r, t) =
        (r, (ds.flatMap (functionsOf e r bus)).foldl (fun t a ↦ g t (readInfo e r a).1) t) := by
    intro bus ds
    induction ds with
    | nil => exact fun t ↦ rfl
    | cons d ds ih =>
      intro t
      rw [List.foldl_cons, scanDevice_eq hf, ih, List.flatMap_cons, List.foldl_append]
  have hall : ∀ (bs : List Nat) (t : τ),
      bs.foldl (fun s bus ↦ (List.range 32).foldl (fun s device ↦
          scanDevice e f s (UInt8.ofNat bus) (UInt8.ofNat device)) s) (r, t) =
        (r, (bs.flatMap fun bus ↦ (List.range 32).flatMap (functionsOf e r bus)).foldl
          (fun t a ↦ g t (readInfo e r a).1) t) := by
    intro bs
    induction bs with
    | nil => exact fun t ↦ rfl
    | cons b bs ih =>
      intro t
      rw [List.foldl_cons, hbus, ih, List.flatMap_cons, List.foldl_append]
  rw [enumerate, assert_of he, ok_bind, hall]
  rfl

end Walk

/-- A walk that collects what it is handed: every function that is there, each once, with what its
registers said before the walk, and they say it still. -/
theorem enumerate_once (e : Ecam) (he : isReady e) (r : Registers) :
    ∃ found, enumerate e (fun s info ↦ (s.1, s.2 ++ [info])) (r, []) = .ok (r, found) ∧
      (found.map PciDeviceInfo.address).Nodup ∧
      (∀ a, a ∈ found.map PciDeviceInfo.address ↔ a.Valid ∧ Present e r a) ∧
      ∀ info ∈ found, info = (readInfo e r info.address).1 := by
  have hcollect : ∀ (as : List PciAddress) (t : List PciDeviceInfo),
      as.foldl (fun t a ↦ t ++ [(readInfo e r a).1]) t =
        t ++ as.map fun a ↦ (readInfo e r a).1 := by
    intro as
    induction as with
    | nil => exact fun t ↦ (List.append_nil t).symm
    | cons a as ih =>
      intro t
      rw [List.foldl_cons, ih, List.append_assoc]
      rfl
  have haddress : ((functions e r).map fun a ↦ (readInfo e r a).1).map PciDeviceInfo.address =
      functions e r := by
    rw [List.map_map]
    exact List.map_id' _
  refine ⟨(functions e r).map fun a ↦ (readInfo e r a).1, ?_, ?_, ?_, ?_⟩
  · rw [enumerate_eq he (g := fun t info ↦ t ++ [info]) (fun t info ↦ rfl), hcollect]
    rfl
  · rw [haddress]
    exact nodup_functions
  · intro a
    rw [haddress]
    exact mem_functions
  · intro info hinfo
    obtain ⟨a, -, rfl⟩ := List.mem_map.mp hinfo
    rfl

/-- A machine with one block device. -/
def oneDisk : Registers where
  value p := if p = 0xB0008000 then 0x10421AF4 else if p = 0xB0008008 then 0x01000001
    else if p = 0xB000800C then 0 else 0xFFFFFFFF
  writable _ := 0

/-- Its block device is found. -/
theorem enumerate_once_disk : ∃ found,
    enumerate ⟨0xB0000000, 0, by decide⟩ (fun s info ↦ (s.1, s.2 ++ [info])) (oneDisk, []) =
      .ok (oneDisk, found) ∧ (⟨0, 1, 0⟩ : PciAddress) ∈ found.map PciDeviceInfo.address := by
  obtain ⟨found, hscan, -, hmem, -⟩ := enumerate_once ⟨0xB0000000, 0, by decide⟩ rfl oneDisk
  refine ⟨found, hscan, (hmem _).mpr ⟨⟨by decide, by decide⟩, ?_⟩⟩
  decide

end SmallOs.Pci
