import SmallOs.Base.Maps
import SmallOs.Base.Run
import SmallOs.Device.Registry
import SmallOs.Driver.Block

/-!
# The driver registry

`lib/driver/src/registry.rs` and `lib/driver/src/binding.rs`: which driver state is bound to
which device, and the ways a state leaves the registry again. A state is built in a box of its
own; the boxes are numbered in the order of allocation, so that one can be followed. A call
reports what it has done to boxes: `stop` was called, or the buffers of a device were released
with the value that held them.
-/

namespace SmallOs.Driver

open SmallOs.Base SmallOs.Device

/-- `lib/driver/src/error.rs:2–9`, without the error of a transfer. -/
inductive DriverError where
  | bindFailed
  | alreadyBound
  | notBound
  | noDriverFound
  | unsupported
  deriving Repr

/-- `lib/driver/src/match.rs:4–13`. -/
inductive MatchRule where
  | pciId (vendor device : UInt16)
  | pciClass (cls subclass : UInt8)
  | name (name : String)

/-- What the registry reads of a PCI device; `lib/hal/src/pci`. -/
structure PciInfo where
  vendorId : UInt16
  deviceId : UInt16
  cls : UInt8
  subclass : UInt8

/-- `lib/driver/src/match.rs:17–23`. -/
def MatchRule.matchesPci (info : PciInfo) : MatchRule → Bool
  | pciId vendor device => vendor == info.vendorId && device == info.deviceId
  | pciClass cls subclass => cls == info.cls && subclass == info.subclass
  | name _ => false

/-- The two drivers of `lib/driver/src/block`. -/
inductive Driver where
  | virtioBlk
  | ahci
  deriving DecidableEq

namespace Driver

/-- `lib/driver/src/block/virtio/mod.rs:28`, `lib/driver/src/block/ahci/mod.rs:25`. -/
def name : Driver → String
  | virtioBlk => "virtio-blk"
  | ahci => "ahci"

/-- `lib/driver/src/block/virtio/mod.rs:30–35`, `lib/driver/src/block/ahci/mod.rs:27`. -/
def rules : Driver → List MatchRule
  | virtioBlk => [.pciId 0x1AF4 0x1042, .pciId 0x1AF4 0x1001]
  | ahci => [.pciClass 0x01 0x06]

/-- `lib/driver/src/lib.rs:60–62`; both drivers keep the default. -/
def priority (_ : Driver) : Int := 0

end Driver

/-- `lib/driver/src/block/ahci/mod.rs:54–57`, without the address that only reaches registers. -/
structure AhciState (H : Type) where
  ports : List (AhciPortWrapper H)

/-- The implementors of the trait `DriverState`. -/
inductive DriverState (H : Type) where
  | virtio (state : VirtioBlkState H)
  | ahci (state : AhciState H)

/-- What a driver finds when it binds: the virtio device if it could be set up, and the usable
ports if the controller has its register window. -/
structure Hardware (H : Type) where
  virtio : Option (VirtioBlkState H)
  ahci : Option (List (AhciPortWrapper H))

variable {H : Type}

/-- `lib/driver/src/block/virtio/mod.rs:37–56` and `lib/driver/src/block/ahci/mod.rs:29–49`, with
the check of `init` that a controller has a usable port. -/
def Driver.bind (driver : Driver) (device : Option PciInfo) (hw : Hardware H) :
    Except DriverError (DriverState H) :=
  match driver, device with
  | _, none => .error .bindFailed
  | .virtioBlk, some _ =>
    match hw.virtio with
    | some state => .ok (.virtio state)
    | none => .error .bindFailed
  | .ahci, some _ =>
    match hw.ahci with
    | none => .error .bindFailed
    | some [] => .error .bindFailed
    | some ports => .ok (.ahci ⟨ports⟩)

/-- `Box<dyn DriverState>`, and the number of the box. -/
structure Boxed (H : Type) where
  box : Nat
  state : DriverState H

/-- A block device, and the number of the box that its state was built in. -/
structure Owned (H : Type) where
  box : Nat
  device : BlockDeviceEnum H

/-- What happens to a box: its state is stopped, or the buffers of a device in it are released. -/
inductive Event (H : Type) where
  | stop (box : Nat)
  | release (device : Owned H)

/-- The box that an event is about. -/
def Event.box : Event H → Nat
  | stop box => box
  | release device => device.box

namespace Boxed

/-- The devices whose buffers a state holds. -/
def devices (b : Boxed H) : List (Owned H) :=
  match b.state with
  | .virtio state => [⟨b.box, .virtio state⟩]
  | .ahci state => state.ports.map fun w ↦ ⟨b.box, .ahci w⟩

/-- Dropping a state releases its buffers. -/
def drop (b : Boxed H) : List (Event H) := b.devices.map .release

/-- `lib/driver/src/block/virtio/mod.rs:412–414` and `lib/driver/src/block/ahci/mod.rs:131`, which
leaves the state to be dropped. -/
def asBlockDevice (b : Boxed H) : Option (Owned H) × List (Event H) :=
  match b.state with
  | .virtio state => (some ⟨b.box, .virtio state⟩, [])
  | .ahci _ => (none, b.drop)

/-- `lib/driver/src/block/virtio/mod.rs:409–411` and `lib/driver/src/block/ahci/mod.rs:133–139`. -/
def intoBlockDevices (b : Boxed H) : List (Owned H) × List (Event H) :=
  match b.state with
  | .virtio _ =>
    let (dev, events) := b.asBlockDevice
    (dev.toList, events)
  | .ahci state =>
    let drained : Boxed H := { b with state := .ahci ⟨[]⟩ }
    (state.ports.map fun w ↦ ⟨b.box, .ahci w⟩, drained.drop)

/-- `lib/driver/src/block/virtio/mod.rs:420–422` and `lib/driver/src/block/ahci/mod.rs:145–147`. -/
def asBlockDevicePtr (b : Boxed H) : Option (Owned H) :=
  match b.state with
  | .virtio state => some ⟨b.box, .virtio state⟩
  | .ahci state => state.ports.head?.map fun w ↦ ⟨b.box, .ahci w⟩

end Boxed

/-- `lib/driver/src/binding.rs:31–36`, without the device, which nothing reads. -/
structure Binding (H : Type) where
  deviceId : DeviceId
  driverName : String
  state : Option (Boxed H)

namespace Binding

/-- `lib/driver/src/binding.rs:39–46`. -/
def new (deviceId : DeviceId) (driverName : String) (state : Boxed H) : Binding H :=
  ⟨deviceId, driverName, some state⟩

/-- `lib/driver/src/binding.rs:63–69`, and then the state goes out of scope. -/
def drop (b : Binding H) : List (Event H) :=
  match b.state with
  | some state => .stop state.box :: state.drop
  | none => []

/-- `lib/driver/src/binding.rs:48–51`; the binding is dropped without its state. -/
def intoBlockDevice (b : Binding H) : Option (Owned H) × List (Event H) :=
  let taken : Binding H := { b with state := none }
  match b.state with
  | none => (none, taken.drop)
  | some state =>
    let (dev, events) := state.asBlockDevice
    (dev, events ++ taken.drop)

/-- `lib/driver/src/binding.rs:53–58`. -/
def intoBlockDevices (b : Binding H) : List (Owned H) × List (Event H) :=
  let taken : Binding H := { b with state := none }
  match b.state with
  | some state =>
    let (devs, events) := state.intoBlockDevices
    (devs, events ++ taken.drop)
  | none => ([], taken.drop)

end Binding

/-- `bindings` of `lib/driver/src/registry.rs:9–12`. -/
abbrev Bindings (H : Type) := Std.TreeMap DeviceId (Binding H)

/-- `lib/driver/src/registry.rs:9–12`. -/
structure DriverRegistry (H : Type) where
  drivers : List Driver
  bindings : Bindings H

/-- The loop of `take_block_device` over the ids that were bound before it;
`lib/driver/src/registry.rs:76–87`. -/
def takeFirst : List DeviceId → Bindings H →
    Option (DeviceId × Owned H) × List (Event H) × Bindings H
  | [], bindings => (none, [], bindings)
  | id :: ids, bindings =>
    match bindings[id]? with
    | none => takeFirst ids bindings
    | some binding =>
      match binding.intoBlockDevice with
      | (some dev, events) => (some (id, dev), events, bindings.erase id)
      | (none, events) =>
        let (dev, later, rest) := takeFirst ids (bindings.erase id)
        (dev, events ++ later, rest)

/-- The loop of `take_all_block_devices`; `lib/driver/src/registry.rs:96–103`. -/
def takeEach : List DeviceId → Bindings H →
    List (DeviceId × Owned H) × List (Event H) × Bindings H
  | [], bindings => ([], [], bindings)
  | id :: ids, bindings =>
    match bindings[id]? with
    | none => takeEach ids bindings
    | some binding =>
      let (devs, events) := binding.intoBlockDevices
      let (result, later, rest) := takeEach ids (bindings.erase id)
      (devs.map (id, ·) ++ result, events ++ later, rest)

namespace DriverRegistry

/-- `lib/driver/src/registry.rs:16–18`. -/
def new : DriverRegistry H := ⟨[], ∅⟩

/-- `lib/driver/src/registry.rs:21`. -/
def registerDriver (r : DriverRegistry H) (driver : Driver) : DriverRegistry H :=
  { r with drivers := r.drivers ++ [driver] }

/-- One round of the loop: the best driver so far and its priority;
`lib/driver/src/registry.rs:172–182`. -/
def consider (info : PciInfo) (best : Option Driver × Int) (driver : Driver) :
    Option Driver × Int :=
  if driver.rules.any (MatchRule.matchesPci info) ∧ best.2 < driver.priority then
    (some driver, driver.priority)
  else best

/-- `lib/driver/src/registry.rs:152–186`; a device that is not on the PCI bus has no driver. -/
def findDriver (r : DriverRegistry H) (device : Option PciInfo) : Except DriverError Driver :=
  let best := match device with
    | some info => (r.drivers.foldl (consider info) (none, -2 ^ 31)).1
    | none => none
  match best with
  | some driver => .ok driver
  | none => .error .noDriverFound

/-- `lib/driver/src/registry.rs:56–60`. -/
def unbind (r : DriverRegistry H) (id : DeviceId) :
    Except DriverError Unit × List (Event H) × DriverRegistry H :=
  match r.bindings[id]? with
  | none => (.error .notBound, [], r)
  | some binding => (.ok (), binding.drop, { r with bindings := r.bindings.erase id })

/-- `lib/driver/src/registry.rs:72–88`. -/
def takeBlockDevice (r : DriverRegistry H) :
    Option (DeviceId × Owned H) × List (Event H) × DriverRegistry H :=
  let (dev, events, bindings) := takeFirst r.bindings.keys r.bindings
  (dev, events, { r with bindings })

/-- `lib/driver/src/registry.rs:91–105`. -/
def takeAllBlockDevices (r : DriverRegistry H) :
    List (DeviceId × Owned H) × List (Event H) × DriverRegistry H :=
  let (devs, events, bindings) := takeEach r.bindings.keys r.bindings
  (devs, events, { r with bindings })

/-- The calls of the closure, in order: the id, the driver's name and the device;
`lib/driver/src/registry.rs:108–148`. -/
def forEachBlock (r : DriverRegistry H) : List (DeviceId × String × Owned H) :=
  r.bindings.toList.filterMap fun e ↦
    (e.2.state.bind Boxed.asBlockDevicePtr).map fun dev ↦ (e.1, e.2.driverName, dev)

end DriverRegistry

/-- The registry, and the number of boxes that drivers have allocated. -/
structure Drivers (H : Type) where
  registry : DriverRegistry H
  boxes : Nat

namespace Drivers

/-- Nothing has been registered or bound. -/
def new : Drivers H := ⟨.new, 0⟩

/-- `lib/driver/src/registry.rs:25–41`. -/
def tryBind (s : Drivers H) (id : DeviceId) (device : Option PciInfo) (hw : Hardware H) :
    Except DriverError Unit × Drivers H :=
  if s.registry.bindings.contains id then (.error .alreadyBound, s)
  else
    match s.registry.findDriver device with
    | .error e => (.error e, s)
    | .ok driver =>
      match driver.bind device hw with
      | .error e => (.error e, s)
      | .ok state =>
        let binding := Binding.new id driver.name ⟨s.boxes, state⟩
        let bindings := s.registry.bindings.insert id binding
        (.ok (), ⟨{ s.registry with bindings }, s.boxes + 1⟩)

end Drivers

/-- A call of the registry. -/
inductive RegistryCall (H : Type) where
  | registerDriver (driver : Driver)
  | tryBind (id : DeviceId) (device : Option PciInfo) (hw : Hardware H)
  | unbind (id : DeviceId)
  | takeBlockDevice
  | takeAllBlockDevices

/-- What a call returns, and what it does to boxes. -/
structure Reply (H : Type) where
  result : Except DriverError (List (DeviceId × Owned H))
  events : List (Event H)

/-- The block devices in a reply. -/
def Reply.devices (r : Reply H) : List (Owned H) :=
  match r.result with
  | .ok devs => devs.map Prod.snd
  | .error _ => []

/-- Serve a call. -/
def Drivers.serve (s : Drivers H) : RegistryCall H → Reply H × Drivers H
  | .registerDriver driver =>
    (⟨.ok [], []⟩, { s with registry := s.registry.registerDriver driver })
  | .tryBind id device hw =>
    let (result, s) := s.tryBind id device hw
    (⟨result.map fun () ↦ [], []⟩, s)
  | .unbind id =>
    let (result, events, registry) := s.registry.unbind id
    (⟨result.map fun () ↦ [], events⟩, { s with registry })
  | .takeBlockDevice =>
    let (dev, events, registry) := s.registry.takeBlockDevice
    (⟨.ok dev.toList, events⟩, { s with registry })
  | .takeAllBlockDevices =>
    let (devs, events, registry) := s.registry.takeAllBlockDevices
    (⟨.ok devs, events⟩, { s with registry })

/-- The calls that the registry serves. -/
def Serves (x : Call (Drivers H) (RegistryCall H) (Reply H)) : Prop :=
  (x.output, x.after) = x.before.serve x.input

end SmallOs.Driver
