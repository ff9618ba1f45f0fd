import SmallOs.Bus.Pci
import SmallOs.Driver.Stopped

/-!
# From the bus to the bindings

`lib/driver/src/registry.rs` binds a driver to every device that the bus has registered. The drivers
of the installer are registered in front of that, `installer/src/lib.rs`. What a driver finds at a
device is asked for by the id of the device.
-/

namespace SmallOs.Driver

open SmallOs.Base SmallOs.Device SmallOs.Bus

open SmallOs.Pci hiding Device

variable {H D : Type}

/-- What binding a device that is free comes to, for the drivers that are registered. -/
def bindOutcome (drivers : List Driver) (device : Option PciInfo) (hw : Hardware H) :
    Except DriverError (String × DriverState H) := do
  let driver ← (⟨drivers, ∅⟩ : DriverRegistry H).findDriver device
  let state ← driver.bind device hw
  return (driver.name, state)

/-- The name of the driver of a binding and the state that it has built. -/
def Binding.built (b : Binding H) : Option (String × DriverState H) :=
  b.state.map fun boxed ↦ (b.driverName, boxed.state)

namespace Drivers

/-- `lib/driver/src/registry.rs:21`. -/
def registerDriver (s : Drivers H) (driver : Driver) : Drivers H :=
  { s with registry := s.registry.registerDriver driver }

/-- The loop over the devices; `lib/driver/src/registry.rs:49–52`. -/
def bindEach (info : D → Option PciInfo) (hw : DeviceId → Hardware H) (s : Drivers H)
    (devices : List (DeviceId × D)) : Drivers H :=
  devices.foldl (fun s e ↦ (s.tryBind e.1 (info e.2) (hw e.1)).2) s

/-- `lib/driver/src/registry.rs:45–53`. -/
def bindAll [Device D] (info : D → Option PciInfo) (hw : DeviceId → Hardware H) (s : Drivers H)
    (devices : DeviceRegistry D) : Drivers H :=
  s.bindEach info hw (devices.byType .bus)

/-- `lib/driver/src/registry.rs:68`. -/
def boundCount (s : Drivers H) : Nat := s.registry.bindings.size

variable {s : Drivers H} {id : DeviceId} {device : Option PciInfo} {hw : Hardware H}

/-- A device that is bound keeps its binding. -/
theorem tryBind_of_bound {b : Binding H} (h : s.registry.bindings[id]? = some b) :
    (s.tryBind id device hw).2 = s := by
  have hc : s.registry.bindings.contains id = true := by
    rw [Std.TreeMap.contains_eq_isSome_getElem?, h]
    rfl
  rw [tryBind, if_pos hc]

/-- A device that is free gets what its driver builds, in a box of its own; where nothing is built,
nothing changes. -/
theorem tryBind_of_free (hfree : s.registry.bindings[id]? = none) :
    (s.tryBind id device hw).2 = match bindOutcome s.registry.drivers device hw with
      | .ok built => ⟨⟨s.registry.drivers, s.registry.bindings.insert id
          (.new id built.1 ⟨s.boxes, built.2⟩)⟩, s.boxes + 1⟩
      | .error _ => s := by
  have hc : ¬ s.registry.bindings.contains id = true := by
    rw [Std.TreeMap.contains_eq_isSome_getElem?, hfree]
    nofun
  have hfind : s.registry.findDriver device =
      (⟨s.registry.drivers, ∅⟩ : DriverRegistry H).findDriver device := rfl
  rw [tryBind, if_neg hc, hfind, bindOutcome]
  cases (⟨s.registry.drivers, ∅⟩ : DriverRegistry H).findDriver device with
  | error e => rfl
  | ok driver =>
    cases hbind : driver.bind device hw with
    | error e => simp only [bind, Except.bind, hbind]
    | ok state => simp only [bind, Except.bind, hbind, pure, Except.pure]

end Drivers

/-! ### Every device once -/

section All

variable {info : D → Option PciInfo} {hw : DeviceId → Hardware H} {s : Drivers H} {id : DeviceId}
  {entries : List (DeviceId × D)}

/-- What binding the devices of a list has done. -/
structure BoundEach (info : D → Option PciInfo) (hw : DeviceId → Hardware H)
    (entries : List (DeviceId × D)) (s s' : Drivers H) : Prop where
  drivers : s'.registry.drivers = s.registry.drivers
  kept : ∀ (id : DeviceId) (b : Binding H), s.registry.bindings[id]? = some b → s'.registry.bindings[id]? = some b
  others : ∀ id : DeviceId, id ∉ entries.map Prod.fst → s'.registry.bindings[id]? = s.registry.bindings[id]?
  built : ∀ e ∈ entries, s.registry.bindings[e.1]? = none →
    s'.registry.bindings[e.1]?.bind Binding.built =
      (bindOutcome s.registry.drivers (info e.2) (hw e.1)).toOption
  free : ∀ e ∈ entries, s'.registry.bindings[e.1]? = none →
    (bindOutcome s.registry.drivers (info e.2) (hw e.1)).toOption = none

/-- One device. -/
theorem boundEach_single (s : Drivers H) (e : DeviceId × D) :
    BoundEach info hw [e] s (s.tryBind e.1 (info e.2) (hw e.1)).2 := by
  cases hb : s.registry.bindings[e.1]? with
  | some b =>
    rw [Drivers.tryBind_of_bound hb]
    refine ⟨rfl, fun _ _ h ↦ h, fun _ _ ↦ rfl, ?_, ?_⟩
    · intro e' he' hnone
      rw [List.mem_singleton.mp he', hb] at hnone
      cases hnone
    · intro e' he' hnone
      rw [List.mem_singleton.mp he', hb] at hnone
      cases hnone
  | none =>
    rw [Drivers.tryBind_of_free hb]
    cases hbuilt : bindOutcome s.registry.drivers (info e.2) (hw e.1) with
    | error err =>
      refine ⟨rfl, fun _ _ h ↦ h, fun _ _ ↦ rfl, ?_, ?_⟩
      · intro e' he' _
        rw [List.mem_singleton.mp he', hbuilt]
        simp only [hb]
        rfl
      · intro e' he' _
        rw [List.mem_singleton.mp he', hbuilt]
        rfl
    | ok built =>
      refine ⟨rfl, ?_, ?_, ?_, ?_⟩
      · intro id b h
        have hne : e.1 ≠ id := by
          rintro rfl
          rw [hb] at h
          cases h
        simp only [getElem?_insert, if_neg hne, h]
      · intro id hid
        have hne : e.1 ≠ id := by
          rintro rfl
          exact hid List.mem_cons_self
        simp only [getElem?_insert, if_neg hne]
      · intro e' he' _
        rw [List.mem_singleton.mp he', hbuilt]
        simp only [getElem?_insert, if_pos]
        rfl
      · intro e' he' hnone
        rw [List.mem_singleton.mp he'] at hnone
        simp only [getElem?_insert, if_pos] at hnone
        cases hnone

/-- Devices of different ids. -/
theorem boundEach (s : Drivers H) (hids : (entries.map Prod.fst).Nodup) :
    BoundEach info hw entries s (s.bindEach info hw entries) := by
  induction entries generalizing s with
  | nil => exact ⟨rfl, fun _ _ h ↦ h, fun _ _ ↦ rfl, nofun, nofun⟩
  | cons e entries ih =>
    obtain ⟨hid, hids⟩ := List.nodup_cons.mp hids
    have hfirst := @boundEach_single H D info hw s e
    have hrest := ih (s.tryBind e.1 (info e.2) (hw e.1)).2 hids
    have hne : ∀ e' ∈ entries, e'.1 ∉ [e].map Prod.fst := by
      intro e' he' hmem
      rw [List.map_singleton, List.mem_singleton] at hmem
      rw [← hmem] at hid
      exact hid (List.mem_map_of_mem he')
    refine ⟨hrest.drivers.trans hfirst.drivers, ?_, ?_, ?_, ?_⟩
    · intro id b h
      exact hrest.kept id b (hfirst.kept id b h)
    · intro id hmem
      rw [List.map_cons, List.mem_cons, not_or] at hmem
      refine (hrest.others id hmem.2).trans (hfirst.others id ?_)
      rw [List.map_singleton, List.mem_singleton]
      exact hmem.1
    · intro e' he' hfree
      rcases List.mem_cons.mp he' with rfl | he'
      · rw [← hfirst.built _ List.mem_cons_self hfree]
        exact congrArg (·.bind Binding.built) (hrest.others _ hid)
      · rw [← hfirst.drivers]
        apply hrest.built e' he'
        rw [hfirst.others _ (hne e' he'), hfree]
    · intro e' he' hfree
      rcases List.mem_cons.mp he' with rfl | he'
      · apply hfirst.free _ List.mem_cons_self
        exact (hrest.others _ hid).symm.trans hfree
      · rw [← hfirst.drivers]
        exact hrest.free e' he' hfree

/-- Binding them again changes nothing. -/
theorem bindEach_again {s' : Drivers H} (h : BoundEach info hw entries s s') :
    s'.bindEach info hw entries = s' := by
  suffices hall : ∀ l ⊆ entries, s'.bindEach info hw l = s' from hall entries (List.Subset.refl _)
  intro l hl
  induction l with
  | nil => rfl
  | cons e l ih =>
    have he := hl List.mem_cons_self
    have hone : (s'.tryBind e.1 (info e.2) (hw e.1)).2 = s' := by
      cases hb : s'.registry.bindings[e.1]? with
      | some b => exact Drivers.tryBind_of_bound hb
      | none =>
        have hnone := h.free e he hb
        rw [← h.drivers] at hnone
        rw [Drivers.tryBind_of_free hb]
        cases hbuilt : bindOutcome s'.registry.drivers (info e.2) (hw e.1) with
        | error err => rfl
        | ok built =>
          rw [hbuilt] at hnone
          cases hnone
    rw [Drivers.bindEach, List.foldl_cons, hone]
    exact ih fun e' he' ↦ hl (List.mem_cons_of_mem _ he')

end All

/-! ### The drivers of the installer -/

/-- What the registry reads of a PCI device; `lib/driver/src/registry.rs:157–170`. -/
def pciInfo (d : PciBusDevice) : Option PciInfo :=
  some ⟨d.info.vendorId, d.info.deviceId, d.info.cls, d.info.subclass⟩

/-- `installer/src/lib.rs:162–164`. -/
def installerDrivers : Drivers H := (Drivers.new.registerDriver .virtioBlk).registerDriver .ahci

/-- A virtio block device, by its vendor and its number. -/
def IsVirtioBlk (d : PciBusDevice) : Prop :=
  d.info.vendorId = 0x1AF4 ∧ (d.info.deviceId = 0x1042 ∨ d.info.deviceId = 0x1001)

/-- An AHCI controller, by its class. -/
def IsAhci (d : PciBusDevice) : Prop := d.info.cls = 0x01 ∧ d.info.subclass = 0x06

instance (d : PciBusDevice) : Decidable (IsVirtioBlk d) := inferInstanceAs (Decidable (_ ∧ _))

instance (d : PciBusDevice) : Decidable (IsAhci d) := inferInstanceAs (Decidable (_ ∧ _))

/-- What is to be bound to a device: the virtio driver goes first, and where it fails no other
driver is tried. -/
def driven (d : PciBusDevice) (hw : Hardware H) : Option (String × DriverState H) :=
  if IsVirtioBlk d then hw.virtio.map fun state ↦ ("virtio-blk", .virtio state)
  else if IsAhci d then
    match hw.ahci with
    | some (port :: ports) => some ("ahci", .ahci ⟨port :: ports⟩)
    | _ => none
  else none

/-- What the rules of the two drivers ask for. -/
theorem matches_virtioBlk_iff (d : PciBusDevice) : Driver.virtioBlk.rules.any (MatchRule.matchesPci
    ⟨d.info.vendorId, d.info.deviceId, d.info.cls, d.info.subclass⟩) = true ↔ IsVirtioBlk d := by
  simp only [Driver.rules, List.any_cons, List.any_nil, MatchRule.matchesPci, Bool.or_false,
    Bool.or_eq_true, Bool.and_eq_true, beq_iff_eq, IsVirtioBlk]
  constructor
  · rintro (⟨hv, hd⟩ | ⟨hv, hd⟩)
    · exact ⟨hv.symm, .inl hd.symm⟩
    · exact ⟨hv.symm, .inr hd.symm⟩
  · rintro ⟨hv, hd | hd⟩
    · exact .inl ⟨hv.symm, hd.symm⟩
    · exact .inr ⟨hv.symm, hd.symm⟩

theorem matches_ahci_iff (d : PciBusDevice) : Driver.ahci.rules.any (MatchRule.matchesPci
    ⟨d.info.vendorId, d.info.deviceId, d.info.cls, d.info.subclass⟩) = true ↔ IsAhci d := by
  simp only [Driver.rules, List.any_cons, List.any_nil, MatchRule.matchesPci, Bool.or_false,
    Bool.and_eq_true, beq_iff_eq, IsAhci]
  exact and_congr eq_comm eq_comm

theorem findDriver_installer (d : PciBusDevice) :
    (⟨[.virtioBlk, .ahci], ∅⟩ : DriverRegistry H).findDriver (pciInfo d) =
      if IsVirtioBlk d then .ok .virtioBlk else if IsAhci d then .ok .ahci
      else .error .noDriverFound := by
  simp only [DriverRegistry.findDriver, pciInfo, List.foldl_cons, List.foldl_nil,
    DriverRegistry.consider, matches_virtioBlk_iff, matches_ahci_iff, Driver.priority]
  by_cases hv : IsVirtioBlk d
  · simp [hv]
  · by_cases ha : IsAhci d
    · simp [hv, ha]
    · simp [hv, ha]

theorem bindOutcome_installer (d : PciBusDevice) (hw : Hardware H) :
    (bindOutcome (installerDrivers : Drivers H).registry.drivers (pciInfo d) hw).toOption =
      driven d hw := by
  have hdrivers : (installerDrivers : Drivers H).registry.drivers = [.virtioBlk, .ahci] := rfl
  rw [hdrivers, bindOutcome, driven, findDriver_installer]
  split
  · obtain ⟨virtio, ahci⟩ := hw
    cases virtio with
    | none => rfl
    | some state => rfl
  · split
    · obtain ⟨virtio, ahci⟩ := hw
      rcases ahci with _ | ⟨_ | ⟨port, ports⟩⟩
      · rfl
      · rfl
      · rfl
    · rfl

/-- From registers to bindings: every function that is there gets the binding that its ids or its
class ask for, if its driver finds what it needs; nothing else is bound, and neither walking the bus
nor binding once more changes anything. -/
theorem discovery (e : Ecam) (he : isReady e) (r : Registers) (hw : DeviceId → Hardware H) :
    ∃ (s : Devices PciBusDevice) (drivers : Drivers H),
      PciBus.enumerate e (r, Devices.new) = .ok (r, s) ∧
      drivers = installerDrivers.bindAll pciInfo hw s.registry ∧
      (∀ a, a.Valid → Present e r a → ∃ id d,
        d = PciBusDevice.new e r (readInfo e r a).1 ∧ s.registry.get id = some d ∧
        drivers.registry.bindings[id]?.bind Binding.built = driven d (hw id)) ∧
      (∀ (id : DeviceId) (b : Binding H), drivers.registry.bindings[id]? = some b →
        ∃ a, (a.Valid ∧ Present e r a) ∧
          s.registry.get id = some (PciBusDevice.new e r (readInfo e r a).1)) ∧
      PciBus.enumerate e (r, s) = .ok (r, s) ∧
      drivers.bindAll pciInfo hw s.registry = drivers := by
  obtain ⟨s, hwalk, hs⟩ := holds_enumerate (r := r) he
  have hids : ((s.registry.byType .bus).map Prod.fst).Nodup := by
    rw [DeviceRegistry.byType, List.map_map]
    apply List.Nodup.sublist ((List.filter_sublist (l := s.registry.devices.toList)).map Prod.fst)
    rw [Std.TreeMap.map_fst_toList_eq_keys]
    exact s.registry.devices.nodup_keys
  have hbound := @boundEach H _ pciInfo hw (s.registry.byType .bus) installerDrivers hids
  have hmem : ∀ id d, (id, d) ∈ s.registry.byType .bus ↔ s.registry.get id = some d := by
    intro id d
    rw [DeviceRegistry.mem_byType]
    exact and_iff_left rfl
  refine ⟨s, _, hwalk, rfl, ?_, ?_, ?_, ?_⟩
  · intro a hvalid hpresent
    obtain ⟨i, hi⟩ := List.mem_iff_getElem?.mp (mem_discovered.mpr ⟨a, ⟨hvalid, hpresent⟩, rfl⟩)
    have hget := (hs.get (idAt i) _).mpr ⟨i, hi, rfl⟩
    refine ⟨idAt i, _, rfl, hget, ?_⟩
    rw [← bindOutcome_installer]
    exact hbound.built (idAt i, _) ((hmem _ _).mpr hget) rfl
  · intro id b hb
    have hin : id ∈ (s.registry.byType .bus).map Prod.fst := by
      by_contra hnot
      have hnone := hbound.others id hnot
      change _ = (∅ : Bindings H)[id]? at hnone
      rw [Std.TreeMap.getElem?_emptyc] at hnone
      have hsome := hb.symm.trans hnone
      cases hsome
    obtain ⟨⟨id, d⟩, hd, rfl⟩ := List.mem_map.mp hin
    have hget := (hmem id d).mp hd
    obtain ⟨i, hi, rfl⟩ := (hs.get id d).mp hget
    obtain ⟨a, ha, rfl⟩ := mem_discovered.mp (List.mem_of_getElem? hi)
    exact ⟨a, ha, hget⟩
  · rw [enumerate_eq_registerAll he, hs.registerAll_again (List.Subset.refl _)]
  · exact bindEach_again hbound

/-- The block device of a machine with one. -/
theorem discovery_disk : ∃ (s : Devices PciBusDevice) (drivers : Drivers Unit) (id : DeviceId),
    PciBus.enumerate ⟨0xB0000000, 0, by decide⟩ (oneDisk, Devices.new) = .ok (oneDisk, s) ∧
      drivers = installerDrivers.bindAll pciInfo (fun _ ↦ ⟨some ⟨(), 8⟩, none⟩) s.registry ∧
      drivers.registry.bindings[id]?.bind Binding.built =
        some ("virtio-blk", .virtio ⟨(), 8⟩) := by
  obtain ⟨s, drivers, hwalk, hdrivers, hbuilt, -⟩ := discovery ⟨0xB0000000, 0, by decide⟩ rfl
    oneDisk fun _ ↦ (⟨some ⟨(), 8⟩, none⟩ : Hardware Unit)
  obtain ⟨id, d, rfl, -, hid⟩ := hbuilt ⟨0, 1, 0⟩ ⟨by decide, by decide⟩ (by decide)
  exact ⟨s, drivers, id, hwalk, hdrivers, hid.trans (by
    rw [driven, if_pos (by decide)]
    rfl)⟩

end SmallOs.Driver
