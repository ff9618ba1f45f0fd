import SmallOs.Device.Ordered
import SmallOs.Pci.Capabilities
import SmallOs.Pci.Enumerate

/-!
# The PCI bus in the device registry

`lib/bus/src/pci`: what the walk over the bus hands out becomes a device under a name that its
address makes, and is registered.
-/

namespace SmallOs.Bus

open SmallOs.Base SmallOs.Device Outcome

open SmallOs.Pci hiding Device

/-- `lib/bus/src/error.rs:2–7`, of which a walk returns the first only. -/
inductive BusError
  | notInitialized
  | enumerationFailed
  | resourceConflict
  | deviceRegistrationFailed
  deriving DecidableEq

/-- `lib/bus/src/pci/device.rs:14–18`. -/
structure PciBusDevice where
  info : PciDeviceInfo
  name : String
  caps : List Capability
  deriving DecidableEq

/-- The format `02x`. -/
def hex2 (b : UInt8) : List Char := [Nat.digitChar (b.toNat / 16), Nat.digitChar (b.toNat % 16)]

/-- `lib/bus/src/pci/device.rs:22–27`. -/
def busName (a : PciAddress) : String :=
  String.ofList ("pci:".toList ++ (hex2 a.bus ++ (':' :: hex2 a.device ++
    ('.' :: Nat.toDigits 10 a.function.toNat))))

namespace PciBusDevice

/-- `lib/bus/src/pci/device.rs:21–30`. -/
def new {S : Type} [ConfigSpace S] (e : Ecam) (s : S) (info : PciDeviceInfo) : PciBusDevice :=
  ⟨info, busName info.address, parseCapabilities e s info.address⟩

/-- `lib/bus/src/pci/device.rs:59–64`. -/
def probe (d : PciBusDevice) : Except DeviceError Unit :=
  if d.info.vendorId = 0xFFFF then .error .probeFailed else .ok ()

end PciBusDevice

/-- `lib/bus/src/pci/device.rs:56–58`. -/
instance : Device PciBusDevice where
  name := PciBusDevice.name
  deviceType _ := .bus

/-- The closure of the walk; `lib/bus/src/pci/mod.rs:30–35`. -/
def registerInfo {S : Type} [ConfigSpace S] (e : Ecam) (s : S × Devices PciBusDevice)
    (info : PciDeviceInfo) : S × Devices PciBusDevice :=
  let dev := PciBusDevice.new e s.1 info
  (s.1, (s.2.register dev dev.probe).2)

/-- `lib/bus/src/pci/mod.rs:25–38`. -/
def PciBus.enumerate {S : Type} [ConfigSpace S] (e : Ecam) (s : S × Devices PciBusDevice) :
    Outcome BusError (S × Devices PciBusDevice) := do
  ensure (isReady e) .notInitialized
  (Pci.enumerate e (registerInfo e) s).mapErr Empty.elim

/-! ### Names -/

theorem digitChar_inj : ∀ m < 16, ∀ n < 16, Nat.digitChar m = Nat.digitChar n → m = n := by decide

theorem toDigits_inj : ∀ m < 8, ∀ n < 8, Nat.toDigits 10 m = Nat.toDigits 10 n → m = n := by
  decide

theorem hex2_inj {b c : UInt8} (h : hex2 b = hex2 c) : b = c := by
  have hb := b.toNat_lt
  have hc := c.toNat_lt
  obtain ⟨hhigh, hlow⟩ := List.cons.inj h
  have hhigh := digitChar_inj _ (by omega) _ (by omega) hhigh
  have hlow := digitChar_inj _ (by omega) _ (by omega) (List.cons.inj hlow).1
  apply UInt8.toNat_inj.mp
  omega

/-- Different functions have different names. -/
theorem busName_inj {a b : PciAddress} (ha : a.Valid) (hb : b.Valid) (h : busName a = busName b) :
    a = b := by
  obtain ⟨bus, device, function⟩ := a
  obtain ⟨bus', device', function'⟩ := b
  have hlist := List.append_cancel_left (String.ofList_injective h)
  obtain ⟨hbus, hrest⟩ := List.append_inj hlist rfl
  obtain ⟨hdevice, hdigits⟩ := List.append_inj hrest rfl
  have hdevice := hex2_inj (List.cons.inj hdevice).2
  have hfunction := toDigits_inj _ ha.function _ hb.function (List.cons.inj hdigits).2
  have hbus : bus = bus' := hex2_inj hbus
  have hdevice : device = device' := hdevice
  have hfunction : function = function' := UInt8.toNat_inj.mp hfunction
  rw [hbus, hdevice, hfunction]

/-! ### What is registered -/

section Registered

variable (e : Ecam) (r : Registers)

/-- The device of a function. -/
def deviceOf (a : PciAddress) : PciBusDevice := .new e r (readInfo e r a).1

/-- The devices of all functions that are there. -/
def discovered : List PciBusDevice := (functions e r).map (deviceOf e r)

variable {e r}

/-- A function that answers passes the probe of its device. -/
theorem probe_deviceOf {a : PciAddress} (h : Present e r a) : (deviceOf e r a).probe = .ok () := by
  have hanswers : (read32 e r a 0x00 &&& 0xFFFF).toUInt16 ≠ 0xFFFF := by
    intro he
    apply h.answers
    have hmask : (read32 e r a 0x00 &&& 0xFFFF).toNat < 2 ^ 16 := by
      rw [UInt32.toNat_and]
      exact Nat.and_lt_two_pow _ (by decide)
    have hnat := congrArg UInt16.toNat he
    rw [UInt32.toNat_toUInt16, Nat.mod_eq_of_lt hmask] at hnat
    exact UInt32.toNat_inj.mp hnat
  exact if_neg hanswers

theorem mem_discovered {d : PciBusDevice} : d ∈ discovered e r ↔
    ∃ a, (a.Valid ∧ Present e r a) ∧ deviceOf e r a = d := by
  simp only [discovered, List.mem_map, mem_functions]

/-- No two of them have one name. -/
theorem nodup_discovered : ((discovered e r).map Device.name).Nodup := by
  rw [discovered, List.map_map]
  apply List.Nodup.map_on _ nodup_functions
  intro a ha b hb h
  exact busName_inj (mem_functions.mp ha).1 (mem_functions.mp hb).1 h

theorem length_discovered : (discovered e r).length ≤ 2 ^ 16 := by
  have hflat : ∀ {α β : Type} (l : List α) (f : α → List β) (n : Nat),
      (∀ a, (f a).length ≤ n) → (l.flatMap f).length ≤ l.length * n := by
    intro α β l f n h
    induction l with
    | nil => simp
    | cons a l ih =>
      rw [List.flatMap_cons, List.length_append, List.length_cons, Nat.succ_mul, Nat.add_comm]
      exact Nat.add_le_add ih (h a)
  rw [discovered, List.length_map]
  apply (hflat _ _ (32 * 8) _).trans (by rw [List.length_range]; decide)
  intro bus
  apply (hflat _ _ 8 _).trans (by rw [List.length_range])
  intro device
  exact (List.length_filter_le _ _).trans (by rw [addressesOf, List.length_map, List.length_range])

/-- The walk registers the devices of all functions that are there. -/
theorem enumerate_eq_registerAll (he : isReady e) (s : Devices PciBusDevice) :
    PciBus.enumerate e (r, s) =
      .ok (r, (discovered e r).foldl (fun s d ↦ (s.register d (.ok ())).2) s) := by
  have hwalk := enumerate_eq (e := e) (r := r) (f := registerInfo e)
    (g := fun s info ↦ (s.register (.new e r info) (PciBusDevice.new e r info).probe).2) he
    (fun _ _ ↦ rfl) s
  have hfold : (functions e r).foldl (fun s a ↦ (s.register (.new e r (readInfo e r a).1)
      (PciBusDevice.new e r (readInfo e r a).1).probe).2) s =
        (discovered e r).foldl (fun s d ↦ (s.register d (.ok ())).2) s := by
    rw [discovered, List.foldl_map]
    apply List.foldl_ext
    intro s a ha
    rw [← probe_deviceOf (mem_functions.mp ha).2]
    rfl
  rw [PciBus.enumerate, ensure_of he, ok_bind, hwalk, hfold]
  rfl

/-- From an empty registry. -/
theorem holds_enumerate (he : isReady e) : ∃ s : Devices PciBusDevice,
    PciBus.enumerate e (r, Devices.new) = .ok (r, s) ∧ Holds (discovered e r) s := by
  refine ⟨_, enumerate_eq_registerAll he _, ?_⟩
  exact holds_new.registerAll (nodup_discovered (e := e)) (length_discovered.trans (by decide))

end Registered

/-- After the bus has been walked, the registry holds one device for every function that is there,
under the name of its address, and no other one; walking it again changes nothing. -/
theorem bus_registered (e : Ecam) (he : isReady e) (r : Registers) :
    ∃ s : Devices PciBusDevice, PciBus.enumerate e (r, Devices.new) = .ok (r, s) ∧
      (∀ a, a.Valid → Present e r a → s.registry.getByName (busName a) =
        some (PciBusDevice.new e r (readInfo e r a).1)) ∧
      (∀ id d, s.registry.get id = some d → ∃ a, (a.Valid ∧ Present e r a) ∧
        PciBusDevice.new e r (readInfo e r a).1 = d) ∧
      (∀ id id' d d', s.registry.get id = some d → s.registry.get id' = some d' →
        d.info.address = d'.info.address → id = id') ∧
      PciBus.enumerate e (r, s) = .ok (r, s) := by
  obtain ⟨s, hwalk, hs⟩ := holds_enumerate (r := r) he
  refine ⟨s, hwalk, ?_, ?_, ?_, ?_⟩
  · intro a hvalid hpresent
    exact hs.getByName (mem_discovered.mpr ⟨a, ⟨hvalid, hpresent⟩, rfl⟩)
  · intro id d hd
    obtain ⟨i, hi, -⟩ := (hs.get id d).mp hd
    exact mem_discovered.mp (List.mem_of_getElem? hi)
  · intro id id' d d' hd hd' haddress
    obtain ⟨i, hi, rfl⟩ := (hs.get id d).mp hd
    obtain ⟨j, hj, rfl⟩ := (hs.get id' d').mp hd'
    rw [discovered, List.getElem?_map] at hi hj
    obtain ⟨a, ha, rfl⟩ := Option.map_eq_some_iff.mp hi
    obtain ⟨b, hb, rfl⟩ := Option.map_eq_some_iff.mp hj
    have hab : a = b := haddress
    subst hab
    have hlt := (List.getElem?_eq_some_iff.mp ha).1
    rw [(List.getElem?_inj hlt nodup_functions).mp (ha.trans hb.symm)]
  · rw [enumerate_eq_registerAll he, hs.registerAll_again (List.Subset.refl _)]

/-- The block device of a machine with one. -/
theorem bus_registered_disk : ∃ s : Devices PciBusDevice,
    PciBus.enumerate ⟨0xB0000000, 0, by decide⟩ (oneDisk, Devices.new) = .ok (oneDisk, s) ∧
      (s.registry.getByName "pci:00:01.0").map (fun d ↦ d.info.vendorId) = some 0x1AF4 := by
  obtain ⟨s, hwalk, hname, -⟩ := bus_registered ⟨0xB0000000, 0, by decide⟩ rfl oneDisk
  have hdisk := hname ⟨0, 1, 0⟩ ⟨by decide, by decide⟩ (by decide)
  have hbus : busName ⟨0, 1, 0⟩ = "pci:00:01.0" := by decide
  rw [hbus] at hdisk
  refine ⟨s, hwalk, ?_⟩
  rw [hdisk]
  decide

end SmallOs.Bus
