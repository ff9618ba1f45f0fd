import SmallOs.Base.Lists
import SmallOs.Driver.Registry

/-!
# What becomes of a driver state

Every call moves driver states between what is bound and what has left the registry, and loses
none of them on the way; the events and the devices of its reply are those of the states that
have left. A state leaves in one of three ways, and only one call can drop a state that still
runs: taking the first block device while a controller with ports of its own is bound first.
-/

namespace SmallOs.Driver

open SmallOs.Base SmallOs.Device

variable {H : Type}

/-- How a state leaves the registry: inside the devices of a reply, stopped and then dropped, or
dropped as it was. -/
inductive Fate where
  | handedOut
  | stopped
  | dropped
  deriving DecidableEq

/-- A state that has left, and how. -/
abbrev Gone (H : Type) := Boxed H × Fate

/-- What happens to the box of a state that leaves. -/
def Gone.events (g : Gone H) : List (Event H) :=
  match g.2 with
  | .handedOut => []
  | .stopped => .stop g.1.box :: g.1.drop
  | .dropped => g.1.drop

/-- What is handed out of a state that leaves. -/
def Gone.devices (g : Gone H) : List (Owned H) :=
  match g.2 with
  | .handedOut => g.1.devices
  | _ => []

theorem Boxed.box_of_mem_devices {b : Boxed H} {d : Owned H} (h : d ∈ b.devices) :
    d.box = b.box := by
  unfold devices at h
  cases hs : b.state with
  | virtio state =>
    rw [hs] at h
    rw [List.mem_singleton.mp h]
  | ahci state =>
    rw [hs] at h
    obtain ⟨w, -, rfl⟩ := List.mem_map.mp h
    rfl

theorem Gone.box_of_mem_events {g : Gone H} {e : Event H} (h : e ∈ g.events) :
    e.box = g.1.box := by
  have hdrop : ∀ {e : Event H}, e ∈ g.1.drop → e.box = g.1.box := by
    intro e he
    obtain ⟨d, hd, rfl⟩ := List.mem_map.mp he
    exact Boxed.box_of_mem_devices hd
  obtain ⟨b, fate⟩ := g
  cases fate with
  | handedOut => cases h
  | stopped =>
    rcases List.mem_cons.mp h with rfl | h
    · rfl
    · exact hdrop h
  | dropped => exact hdrop h

theorem Gone.box_of_mem_devices {g : Gone H} {d : Owned H} (h : d ∈ g.devices) :
    d.box = g.1.box := by
  obtain ⟨b, fate⟩ := g
  cases fate with
  | handedOut => exact Boxed.box_of_mem_devices h
  | stopped => cases h
  | dropped => cases h

/-! ### Bindings -/

/-- The states that are bound, in the order of their devices' ids. -/
def held (bindings : Bindings H) : List (Boxed H) :=
  bindings.toList.filterMap fun e ↦ e.2.state

theorem held_insert {bindings : Bindings H} {id : DeviceId} (h : bindings[id]? = none)
    (binding : Binding H) :
    (held (bindings.insert id binding)).Perm (binding.state.toList ++ held bindings) := by
  have hperm := (toList_insert_of_none h binding).filterMap fun e ↦ e.2.state
  unfold held
  cases hs : binding.state with
  | none => simpa [hs] using hperm
  | some b => simpa [hs] using hperm

theorem held_erase {bindings : Bindings H} {id : DeviceId} {binding : Binding H}
    (h : bindings[id]? = some binding) :
    (held bindings).Perm (binding.state.toList ++ held (bindings.erase id)) := by
  have hperm := (toList_of_getElem? h).filterMap fun e ↦ e.2.state
  unfold held
  cases hs : binding.state with
  | none => simpa [hs] using hperm
  | some b => simpa [hs] using hperm

/-- The states that leave on the way from some bindings to others account for the difference,
for every event and for every device that is handed out. -/
structure Leaves (before after : Bindings H) (events : List (Event H)) (devices : List (Owned H))
    (gone : List (Gone H)) : Prop where
  states : (held before).Perm (held after ++ gone.map Prod.fst)
  events : events = gone.flatMap Gone.events
  devices : devices = gone.flatMap Gone.devices

theorem Leaves.refl (bindings : Bindings H) : Leaves bindings bindings [] [] [] := by
  refine ⟨?_, rfl, rfl⟩
  rw [List.map_nil, List.append_nil]

/-- One binding is taken out first. -/
theorem Leaves.cons {before after : Bindings H} {id : DeviceId} {binding : Binding H}
    {events : List (Event H)} {devices : List (Owned H)} {gone : List (Gone H)} (fate : Fate)
    (h : before[id]? = some binding) (hrest : Leaves (before.erase id) after events devices gone) :
    Leaves before after
      ((binding.state.toList.map (·, fate)).flatMap Gone.events ++ events)
      ((binding.state.toList.map (·, fate)).flatMap Gone.devices ++ devices)
      (binding.state.toList.map (·, fate) ++ gone) := by
  constructor
  · rw [List.map_append, List.map_map]
    have hfst : (Prod.fst ∘ fun b : Boxed H ↦ (b, fate)) = fun b ↦ b := rfl
    rw [hfst, List.map_id']
    have hperm := (held_erase h).trans (hrest.states.append_left _)
    rw [← List.append_assoc] at hperm ⊢
    exact hperm.trans (List.perm_append_comm.append_right _)
  · rw [List.flatMap_append, hrest.events]
  · rw [List.flatMap_append, hrest.devices]

namespace Binding

/-- A binding that goes out of scope stops its state. -/
theorem drop_eq (b : Binding H) :
    b.drop = (b.state.toList.map (·, Fate.stopped)).flatMap Gone.events := by
  unfold drop
  cases b.state with
  | none => rfl
  | some state => simp [Gone.events]

/-- All devices of a binding are handed out. -/
theorem intoBlockDevices_eq (b : Binding H) :
    b.intoBlockDevices =
      ((b.state.toList.map (·, Fate.handedOut)).flatMap Gone.devices, []) := by
  unfold intoBlockDevices
  cases b.state with
  | none => rfl
  | some boxed =>
    obtain ⟨box, state⟩ := boxed
    cases state with
    | virtio state => rfl
    | ahci state =>
      simp [drop, Boxed.intoBlockDevices, Boxed.drop, Boxed.devices, Gone.devices]

end Binding

/-- The state of a virtio device. -/
def DriverState.IsVirtio (s : DriverState H) : Prop := ∃ v, s = .virtio v

/-- How a state leaves through `into_block_device`. -/
def DriverState.single : DriverState H → Fate
  | virtio _ => .handedOut
  | ahci _ => .dropped

/-- A virtio device is handed out; the ports of a controller are dropped. -/
theorem Binding.intoBlockDevice_eq {b : Binding H} {boxed : Boxed H} (h : b.state = some boxed) :
    b.intoBlockDevice = ((Gone.devices (boxed, boxed.state.single)).head?,
      Gone.events (boxed, boxed.state.single)) := by
  unfold intoBlockDevice
  rw [h]
  obtain ⟨box, state⟩ := boxed
  cases state with
  | virtio state => rfl
  | ahci state => simp [drop, Boxed.asBlockDevice, DriverState.single, Gone.devices, Gone.events]

/-! ### The loops -/

/-- `take_all_block_devices` hands out every state that it comes by. -/
theorem takeEach_leaves (ids : List DeviceId) (bindings : Bindings H) :
    ∃ gone : List (Gone H), (∀ g ∈ gone, g.2 = .handedOut) ∧
      Leaves bindings (takeEach ids bindings).2.2 (takeEach ids bindings).2.1
        ((takeEach ids bindings).1.map Prod.snd) gone := by
  induction ids generalizing bindings with
  | nil => exact ⟨[], nofun, .refl bindings⟩
  | cons id ids ih =>
    unfold takeEach
    cases hb : bindings[id]? with
    | none => exact ih bindings
    | some binding =>
      obtain ⟨gone, hfates, hleaves⟩ := ih (bindings.erase id)
      have hcons := Leaves.cons .handedOut hb hleaves
      refine ⟨binding.state.toList.map (·, .handedOut) ++ gone, ?_, ?_⟩
      · intro g hg
        rcases List.mem_append.mp hg with hg | hg
        · obtain ⟨b, -, rfl⟩ := List.mem_map.mp hg
          rfl
        · exact hfates g hg
      · have hnone : (binding.state.toList.map (·, Fate.handedOut)).flatMap Gone.events = [] := by
          cases binding.state <;> rfl
        rw [hnone] at hcons
        simpa [Binding.intoBlockDevices_eq, Function.comp_def] using hcons

theorem takeFirst_of_some {id : DeviceId} {ids : List DeviceId} {bindings : Bindings H}
    {binding : Binding H} {dev : Owned H} {events : List (Event H)}
    (hb : bindings[id]? = some binding) (hi : binding.intoBlockDevice = (some dev, events)) :
    takeFirst (id :: ids) bindings = (some (id, dev), events, bindings.erase id) := by
  simp only [takeFirst, hb, hi]

theorem takeFirst_of_none {id : DeviceId} {ids : List DeviceId} {bindings : Bindings H}
    {binding : Binding H} {events : List (Event H)}
    (hb : bindings[id]? = some binding) (hi : binding.intoBlockDevice = (none, events)) :
    takeFirst (id :: ids) bindings =
      ((takeFirst ids (bindings.erase id)).1, events ++ (takeFirst ids (bindings.erase id)).2.1,
        (takeFirst ids (bindings.erase id)).2.2) := by
  simp only [takeFirst, hb, hi]

/-- `take_block_device` drops the controllers that it comes by, and hands out the virtio device
that it finds first; it drops one unless the first state is that of a virtio device. -/
theorem takeFirst_leaves (entries : List (DeviceId × Binding H)) (bindings : Bindings H)
    (hentries : ∀ e ∈ entries, bindings[e.1]? = some e.2)
    (hkeys : (entries.map Prod.fst).Nodup) :
    ∃ gone : List (Gone H),
      Leaves bindings (takeFirst (entries.map Prod.fst) bindings).2.2
        (takeFirst (entries.map Prod.fst) bindings).2.1
        ((takeFirst (entries.map Prod.fst) bindings).1.toList.map Prod.snd) gone ∧
      (∀ g ∈ gone, g.2 ≠ .stopped) ∧
      ((∀ g ∈ gone, g.2 ≠ .dropped) ↔
        ∀ b, (entries.filterMap (·.2.state)).head? = some b → b.state.IsVirtio) := by
  induction entries generalizing bindings with
  | nil =>
    refine ⟨[], .refl bindings, nofun, ?_⟩
    simp
  | cons e entries ih =>
    obtain ⟨id, binding⟩ := e
    have hb : bindings[id]? = some binding := hentries _ List.mem_cons_self
    obtain ⟨hid, hkeys⟩ := List.nodup_cons.mp hkeys
    have hrest : ∀ e ∈ entries, (bindings.erase id)[e.1]? = some e.2 := by
      intro e he
      have hne : id ≠ e.1 := by
        rintro rfl
        exact hid (List.mem_map.mpr ⟨e, he, rfl⟩)
      rw [getElem?_erase, if_neg hne]
      exact hentries e (List.mem_cons_of_mem _ he)
    obtain ⟨gone, hleaves, hstopped, hiff⟩ := ih (bindings.erase id) hrest hkeys
    rw [List.map_cons]
    cases hs : binding.state with
    | none =>
      have hcons := Leaves.cons .dropped hb hleaves
      have hinto : binding.intoBlockDevice = (none, []) := by
        simp [Binding.intoBlockDevice, hs, Binding.drop]
      rw [takeFirst_of_none hb hinto]
      refine ⟨gone, ?_, hstopped, ?_⟩
      · simpa [hs] using hcons
      · simpa [hs] using hiff
    | some b =>
      have hinto := Binding.intoBlockDevice_eq hs
      obtain ⟨box, state⟩ := b
      cases state with
      | virtio state =>
        rw [takeFirst_of_some hb hinto]
        have hcons := Leaves.cons .handedOut hb (.refl _)
        refine ⟨[(⟨box, .virtio state⟩, .handedOut)], ?_, ?_, ?_⟩
        · simpa [hs, DriverState.single, Gone.events, Gone.devices, Boxed.devices] using hcons
        · simp
        · simp [hs, DriverState.IsVirtio]
      | ahci state =>
        rw [takeFirst_of_none hb hinto]
        have hcons := Leaves.cons .dropped hb hleaves
        refine ⟨(⟨box, .ahci state⟩, .dropped) :: gone, ?_, ?_, ?_⟩
        · simpa [hs, DriverState.single, Gone.events, Gone.devices] using hcons
        · intro g hg
          rcases List.mem_cons.mp hg with rfl | hg
          · intro hfate
            cases hfate
          · exact hstopped g hg
        · simp [hs, DriverState.IsVirtio]

/-! ### Calls -/

/-- The state that a call has bound. -/
def entered (x : Call (Drivers H) (RegistryCall H) (Reply H)) : List (Boxed H) :=
  match x.input, x.output.result with
  | .tryBind id _ _, .ok _ => (x.after.registry.bindings[id]?.bind Binding.state).toList
  | _, _ => []

/-- The first block device is taken when a virtio device comes first, or nothing is bound. -/
def TakesVirtio (x : Call (Drivers H) (RegistryCall H) (Reply H)) : Prop :=
  x.input = .takeBlockDevice →
    ∀ b, (held x.before.registry.bindings).head? = some b → b.state.IsVirtio

/-- What a call does: the state that it binds and those that leave account for the difference. -/
structure Effect (x : Call (Drivers H) (RegistryCall H) (Reply H)) (gone : List (Gone H)) :
    Prop where
  states : (held x.before.registry.bindings ++ entered x).Perm
    (held x.after.registry.bindings ++ gone.map Prod.fst)
  events : x.output.events = gone.flatMap Gone.events
  devices : x.output.devices = gone.flatMap Gone.devices
  boxes : (entered x).map Boxed.box = List.range' x.before.boxes (entered x).length
  next : x.after.boxes = x.before.boxes + (entered x).length
  full : ∀ b ∈ entered x, b.devices ≠ []
  dropped : (∀ g ∈ gone, g.2 ≠ .dropped) ↔ TakesVirtio x

/-- A call that binds nothing and is not the taking of the first device. -/
theorem Effect.of_leaves {x : Call (Drivers H) (RegistryCall H) (Reply H)} {gone : List (Gone H)}
    (hleaves : Leaves x.before.registry.bindings x.after.registry.bindings x.output.events
      x.output.devices gone)
    (hentered : entered x = []) (hnext : x.after.boxes = x.before.boxes)
    (hdropped : (∀ g ∈ gone, g.2 ≠ .dropped) ↔ TakesVirtio x) : Effect x gone := by
  constructor
  · rw [hentered, List.append_nil]
    exact hleaves.states
  · exact hleaves.events
  · exact hleaves.devices
  · rw [hentered]
    rfl
  · rw [hentered]
    exact hnext
  · rw [hentered]
    intro b hb
    cases hb
  · exact hdropped

/-- A call that changes nothing that is bound. -/
theorem Effect.idle {x : Call (Drivers H) (RegistryCall H) (Reply H)}
    (hbindings : x.after.registry.bindings = x.before.registry.bindings)
    (hevents : x.output.events = []) (hdevices : x.output.devices = [])
    (hentered : entered x = []) (hnext : x.after.boxes = x.before.boxes)
    (hinput : x.input ≠ .takeBlockDevice) : Effect x [] := by
  refine .of_leaves ?_ hentered hnext ?_
  · rw [hbindings, hevents, hdevices]
    exact .refl _
  · constructor
    · intro _ htake
      exact absurd htake hinput
    · intro _ g hg
      cases hg

/-- A call that binds a new box to a device that was free. -/
theorem Effect.bound {x : Call (Drivers H) (RegistryCall H) (Reply H)} {id : DeviceId}
    {binding : Binding H} {b : Boxed H} (hfree : x.before.registry.bindings[id]? = none)
    (hstate : binding.state = some b)
    (hbindings : x.after.registry.bindings = x.before.registry.bindings.insert id binding)
    (hevents : x.output.events = []) (hdevices : x.output.devices = [])
    (hentered : entered x = [b]) (hbox : b.box = x.before.boxes)
    (hnext : x.after.boxes = x.before.boxes + 1) (hfull : b.devices ≠ [])
    (hinput : x.input ≠ .takeBlockDevice) : Effect x [] := by
  constructor
  · have hperm := held_insert hfree binding
    rw [hstate, ← hbindings] at hperm
    rw [hentered, List.map_nil, List.append_nil]
    exact List.perm_append_comm.trans hperm.symm
  · exact hevents
  · exact hdevices
  · rw [hentered, List.map_singleton, hbox]
    rfl
  · rw [hentered]
    exact hnext
  · rw [hentered]
    intro b' hb'
    rw [List.mem_singleton.mp hb']
    exact hfull
  · constructor
    · intro _ htake
      exact absurd htake hinput
    · intro _ g hg
      cases hg

/-- A driver builds a state with something in it, or fails. -/
theorem Driver.devices_of_bind {driver : Driver} {device : Option PciInfo} {hw : Hardware H}
    {state : DriverState H} (h : driver.bind device hw = .ok state) (box : Nat) :
    (Boxed.mk box state).devices ≠ [] := by
  unfold bind at h
  split at h
  · cases h
  · split at h
    · cases h
      exact List.cons_ne_nil _ _
    · cases h
  · split at h
    · cases h
    · cases h
    · rename_i ports hports _
      cases h
      intro hnil
      exact hports (List.map_eq_nil_iff.mp hnil)

/-- What binding does: it fails and changes nothing, or binds a new box to a device that was
free. -/
theorem Drivers.tryBind_cases (s : Drivers H) (id : DeviceId) (device : Option PciInfo)
    (hw : Hardware H) :
    (∃ e, s.tryBind id device hw = (.error e, s)) ∨
      ∃ name state, s.registry.bindings[id]? = none ∧
        (Boxed.mk s.boxes state).devices ≠ [] ∧
        s.tryBind id device hw = (.ok (), ⟨⟨s.registry.drivers, s.registry.bindings.insert id
          (.new id name ⟨s.boxes, state⟩)⟩, s.boxes + 1⟩) := by
  unfold tryBind
  by_cases hc : s.registry.bindings.contains id
  · rw [if_pos hc]
    exact .inl ⟨_, rfl⟩
  · rw [if_neg hc]
    cases s.registry.findDriver device with
    | error e => exact .inl ⟨e, rfl⟩
    | ok driver =>
      cases hbind : driver.bind device hw with
      | error e => exact .inl ⟨e, by simp [hbind]⟩
      | ok state =>
        rw [Std.TreeMap.contains_eq_isSome_getElem?] at hc
        refine .inr ⟨driver.name, state, Option.not_isSome_iff_eq_none.mp hc,
          Driver.devices_of_bind hbind _, ?_⟩
        simp only [hbind]

theorem Serves.effect {x : Call (Drivers H) (RegistryCall H) (Reply H)} (h : Serves x) :
    ∃ gone, Effect x gone := by
  obtain ⟨before, input, output, after⟩ := x
  have houtput : output = (before.serve input).1 := congrArg Prod.fst h
  have hafter : after = (before.serve input).2 := congrArg Prod.snd h
  clear h
  subst houtput hafter
  cases input with
  | registerDriver driver => exact ⟨[], .idle rfl rfl rfl rfl rfl nofun⟩
  | tryBind id device hw =>
    rcases before.tryBind_cases id device hw with ⟨e, hbind⟩ | ⟨name, state, hfree, hfull, hbind⟩
    · simp only [Drivers.serve, hbind]
      exact ⟨[], .idle rfl rfl rfl rfl rfl nofun⟩
    · simp only [Drivers.serve, hbind]
      have hentered : ∀ output : Reply H, output.result = .ok [] →
          entered (H := H) ⟨before, .tryBind id device hw, output,
            ⟨⟨before.registry.drivers, before.registry.bindings.insert id
              (.new id name ⟨before.boxes, state⟩)⟩, before.boxes + 1⟩⟩ =
            [⟨before.boxes, state⟩] := by
        intro output houtput
        simp [entered, Binding.new, houtput]
      exact ⟨[], .bound hfree rfl rfl rfl rfl (hentered _ rfl) rfl rfl hfull nofun⟩
  | unbind id =>
    cases hb : before.registry.bindings[id]? with
    | none =>
      simp only [Drivers.serve, DriverRegistry.unbind, hb]
      exact ⟨[], .idle rfl rfl rfl rfl rfl nofun⟩
    | some binding =>
      simp only [Drivers.serve, DriverRegistry.unbind, hb]
      have hleaves := Leaves.cons .stopped hb (.refl _)
      rw [← binding.drop_eq, List.append_nil, List.append_nil] at hleaves
      have hdevices : (binding.state.toList.map (·, Fate.stopped)).flatMap Gone.devices = [] := by
        cases binding.state <;> rfl
      rw [hdevices] at hleaves
      refine ⟨_, .of_leaves hleaves rfl rfl ?_⟩
      constructor
      · intro _ htake
        cases htake
      · intro _ g hg
        rw [List.append_nil] at hg
        obtain ⟨b, -, rfl⟩ := List.mem_map.mp hg
        intro hfate
        cases hfate
  | takeBlockDevice =>
    have hentries : ∀ e ∈ before.registry.bindings.toList,
        before.registry.bindings[e.1]? = some e.2 := by
      intro e he
      exact Std.TreeMap.mem_toList_iff_getElem?_eq_some.mp he
    have hkeys := before.registry.bindings.nodup_keys
    rw [← Std.TreeMap.map_fst_toList_eq_keys] at hkeys
    obtain ⟨gone, hleaves, -, hdropped⟩ := takeFirst_leaves _ _ hentries hkeys
    rw [Std.TreeMap.map_fst_toList_eq_keys] at hleaves
    refine ⟨gone, .of_leaves hleaves rfl rfl ?_⟩
    rw [hdropped]
    constructor
    · intro hfirst _
      exact hfirst
    · intro htake
      exact htake rfl
  | takeAllBlockDevices =>
    obtain ⟨gone, hfates, hleaves⟩ :=
      takeEach_leaves before.registry.bindings.keys before.registry.bindings
    refine ⟨gone, .of_leaves hleaves rfl rfl ?_⟩
    constructor
    · intro _ htake
      cases htake
    · intro _ g hg hfate
      rw [hfates g hg] at hfate
      cases hfate

/-! ### Runs -/

variable {t : List (Call (Drivers H) (RegistryCall H) (Reply H))} {s : Drivers H}

/-- What the calls have done to a box. -/
def eventsOf (t : List (Call (Drivers H) (RegistryCall H) (Reply H))) (box : Nat) :
    List (Event H) :=
  (t.flatMap (·.output.events)).filter fun e ↦ e.box = box

/-- The devices out of a box that the calls have returned. -/
def devicesOf (t : List (Call (Drivers H) (RegistryCall H) (Reply H))) (box : Nat) :
    List (Owned H) :=
  (t.flatMap (·.output.devices)).filter fun d ↦ d.box = box

/-- A state is bound and untouched, or all of its devices have been handed out and it was never
stopped, or it was stopped once and its buffers were released after that. -/
inductive Accounted (t : List (Call (Drivers H) (RegistryCall H) (Reply H))) (s : Drivers H)
    (b : Boxed H) : Prop where
  | bound (mem : b ∈ held s.registry.bindings) (events : eventsOf t b.box = [])
      (devices : devicesOf t b.box = [])
  | handedOut (left : b ∉ held s.registry.bindings) (events : eventsOf t b.box = [])
      (devices : devicesOf t b.box = b.devices)
  | stopped (left : b ∉ held s.registry.bindings)
      (events : eventsOf t b.box = .stop b.box :: b.devices.map .release)
      (devices : devicesOf t b.box = [])

/-- What the calls so far say of the registry they have led to. -/
structure Tracks (t : List (Call (Drivers H) (RegistryCall H) (Reply H))) (s : Drivers H)
    (gone : List (Gone H)) : Prop where
  states : (t.flatMap entered).Perm (held s.registry.bindings ++ gone.map Prod.fst)
  events : t.flatMap (·.output.events) = gone.flatMap Gone.events
  devices : t.flatMap (·.output.devices) = gone.flatMap Gone.devices
  boxes : (t.flatMap entered).map Boxed.box = List.range s.boxes
  full : ∀ b ∈ t.flatMap entered, b.devices ≠ []
  dropped : (∀ g ∈ gone, g.2 ≠ .dropped) ↔ ∀ x ∈ t, TakesVirtio x

theorem tracks_new : Tracks [] (Drivers.new : Drivers H) [] := by
  refine ⟨?_, rfl, rfl, rfl, nofun, ?_⟩
  · simp [Drivers.new, DriverRegistry.new, held]
  · simp

/-- One call more. -/
theorem Tracks.step {x : Call (Drivers H) (RegistryCall H) (Reply H)} {gone more : List (Gone H)}
    (hx : Effect x more) (h : Tracks t x.before gone) :
    Tracks (t ++ [x]) x.after (gone ++ more) := by
  constructor
  · rw [List.flatMap_append, List.flatMap_singleton, List.map_append]
    have hbefore := h.states.append_right (entered x)
    rw [List.append_assoc] at hbefore
    have hcall := hx.states.append_right (gone.map Prod.fst)
    rw [List.append_assoc, List.append_assoc] at hcall
    refine hbefore.trans ((List.perm_append_comm.append_left _).trans (hcall.trans ?_))
    exact List.perm_append_comm.append_left _
  · rw [List.flatMap_append, List.flatMap_singleton, List.flatMap_append, h.events, hx.events]
  · rw [List.flatMap_append, List.flatMap_singleton, List.flatMap_append, h.devices, hx.devices]
  · rw [List.flatMap_append, List.flatMap_singleton, List.map_append, h.boxes, hx.boxes, hx.next,
      List.range_eq_range', List.range_eq_range']
    have happend : List.range' 0 x.before.boxes ++
        List.range' (0 + 1 * x.before.boxes) (entered x).length =
          List.range' 0 (x.before.boxes + (entered x).length) := List.range'_append
    rw [Nat.zero_add, Nat.one_mul] at happend
    exact happend
  · intro b hb
    rw [List.flatMap_append, List.flatMap_singleton] at hb
    rcases List.mem_append.mp hb with hb | hb
    · exact h.full b hb
    · exact hx.full b hb
  · simp only [List.forall_mem_append, h.dropped, hx.dropped, List.forall_mem_singleton]

theorem tracks_of_run (h : Run Serves (Drivers.new : Drivers H) t s) : ∃ gone, Tracks t s gone := by
  refine h.history (I := fun t s ↦ ∃ gone, Tracks t s gone) ?_ ⟨[], tracks_new⟩
  rintro t x hx ⟨gone, htracks⟩
  obtain ⟨more, heffect⟩ := hx.effect
  exact ⟨gone ++ more, htracks.step heffect⟩

namespace Tracks

variable {gone : List (Gone H)} {b : Boxed H}

/-- No two states that are bound or have left share a box. -/
theorem nodup (h : Tracks t s gone) :
    ((held s.registry.bindings ++ gone.map Prod.fst).map Boxed.box).Nodup := by
  rw [← (h.states.map Boxed.box).nodup_iff, h.boxes]
  exact List.nodup_range

theorem nodup_gone (h : Tracks t s gone) : (gone.map fun g ↦ g.1.box).Nodup := by
  have hall := h.nodup
  rw [List.map_append, List.map_map] at hall
  exact (List.nodup_append.mp hall).2.1

/-- The box of a bound state is that of no state that has left. -/
theorem box_of_held (h : Tracks t s gone) (hb : b ∈ held s.registry.bindings) :
    b.box ∉ gone.map fun g ↦ g.1.box := by
  have hall := h.nodup
  rw [List.map_append, List.map_map] at hall
  intro hgone
  exact (List.nodup_append.mp hall).2.2 _ (List.mem_map_of_mem hb) _ hgone rfl

theorem eventsOf_held (h : Tracks t s gone) (hb : b ∈ held s.registry.bindings) :
    eventsOf t b.box = [] := by
  rw [eventsOf, h.events]
  exact filter_flatMap_of_not_mem (fun _ _ ↦ Gone.box_of_mem_events) (h.box_of_held hb)

theorem devicesOf_held (h : Tracks t s gone) (hb : b ∈ held s.registry.bindings) :
    devicesOf t b.box = [] := by
  rw [devicesOf, h.devices]
  exact filter_flatMap_of_not_mem (fun _ _ ↦ Gone.box_of_mem_devices) (h.box_of_held hb)

theorem eventsOf_gone (h : Tracks t s gone) {g : Gone H} (hg : g ∈ gone) :
    eventsOf t g.1.box = g.events := by
  rw [eventsOf, h.events]
  exact filter_flatMap_of_mem (fun _ _ ↦ Gone.box_of_mem_events) h.nodup_gone hg

theorem devicesOf_gone (h : Tracks t s gone) {g : Gone H} (hg : g ∈ gone) :
    devicesOf t g.1.box = g.devices := by
  rw [devicesOf, h.devices]
  exact filter_flatMap_of_mem (fun _ _ ↦ Gone.box_of_mem_devices) h.nodup_gone hg

theorem not_held_of_gone (h : Tracks t s gone) {g : Gone H} (hg : g ∈ gone) :
    g.1 ∉ held s.registry.bindings := by
  intro hb
  exact h.box_of_held hb (List.mem_map.mpr ⟨g, hg, rfl⟩)

/-- A state that has left is accounted for unless it was dropped as it was. -/
theorem accounted_gone (h : Tracks t s gone) {g : Gone H} (hg : g ∈ gone) :
    Accounted t s g.1 ↔ g.2 ≠ .dropped := by
  have hevents := h.eventsOf_gone hg
  have hdevices := h.devicesOf_gone hg
  have hleft := h.not_held_of_gone hg
  obtain ⟨b, fate⟩ := g
  cases fate with
  | handedOut => exact iff_of_true (.handedOut hleft hevents hdevices) nofun
  | stopped => exact iff_of_true (.stopped hleft hevents hdevices) nofun
  | dropped =>
    have hentered : b ∈ t.flatMap entered :=
      h.states.mem_iff.mpr (List.mem_append_right _ (List.mem_map.mpr ⟨_, hg, rfl⟩))
    have hfull := h.full b hentered
    have hdrop : eventsOf t b.box = b.devices.map .release := hevents
    refine iff_of_false ?_ (fun hne ↦ hne rfl)
    intro haccounted
    cases haccounted with
    | bound mem _ _ => exact hleft mem
    | handedOut _ events _ =>
      rw [hdrop] at events
      exact hfull (List.map_eq_nil_iff.mp events)
    | stopped _ events _ =>
      rw [hdrop] at events
      have hlen := congrArg List.length events
      simp at hlen

end Tracks

/-- A run accounts for every state that it has bound exactly when the first block device is only
taken while nothing or a virtio device is bound first. -/
theorem accounted_iff (h : Run Serves (Drivers.new : Drivers H) t s) :
    (∀ b ∈ t.flatMap entered, Accounted t s b) ↔ ∀ x ∈ t, TakesVirtio x := by
  obtain ⟨gone, htracks⟩ := tracks_of_run h
  rw [← htracks.dropped]
  constructor
  · intro hall g hg
    have hentered : g.1 ∈ t.flatMap entered :=
      htracks.states.mem_iff.mpr (List.mem_append_right _ (List.mem_map.mpr ⟨g, hg, rfl⟩))
    exact (htracks.accounted_gone hg).mp (hall g.1 hentered)
  · intro hfates b hb
    rcases List.mem_append.mp (htracks.states.mem_iff.mp hb) with hheld | hgone
    · exact .bound hheld (htracks.eventsOf_held hheld) (htracks.devicesOf_held hheld)
    · obtain ⟨g, hg, rfl⟩ := List.mem_map.mp hgone
      exact (htracks.accounted_gone hg).mpr (hfates g hg)

/-- The device of the virtio driver that the examples bind. -/
def virtioCall : RegistryCall Unit :=
  .tryBind 1 (some ⟨0x1AF4, 0x1042, 0x01, 0x00⟩) ⟨some ⟨(), 8⟩, none⟩

/-- A controller with one port. -/
def ahciCall : RegistryCall Unit :=
  .tryBind 1 (some ⟨0x8086, 0x2922, 0x01, 0x06⟩) ⟨none, some [⟨0, ⟨()⟩, 8⟩]⟩

/-- A virtio device is bound and taken: its state is handed out and was never stopped. -/
theorem accounted_iff_virtio :
    Accounted (calls Drivers.serve Drivers.new
        [.registerDriver .virtioBlk, virtioCall, .takeBlockDevice])
      (callsEnd Drivers.serve Drivers.new
        [.registerDriver .virtioBlk, virtioCall, .takeBlockDevice])
      ⟨0, .virtio ⟨(), 8⟩⟩ := by
  refine (accounted_iff (run_calls _ _ _)).mpr ?_ _ List.mem_cons_self
  intro x hx htake b hb
  rcases List.mem_cons.mp hx with rfl | hx
  · cases htake
  rcases List.mem_cons.mp hx with rfl | hx
  · cases htake
  rw [List.mem_singleton.mp hx] at hb
  have hfirst : b = ⟨0, .virtio ⟨(), 8⟩⟩ := (Option.some.inj hb).symm
  rw [hfirst]
  exact ⟨_, rfl⟩

/-- A controller is bound and the first device taken: its state is dropped while it runs. -/
theorem not_accounted_ahci :
    ¬ ∀ (t : List (Call (Drivers Unit) (RegistryCall Unit) (Reply Unit))) (s : Drivers Unit),
      Run Serves Drivers.new t s → ∀ b ∈ t.flatMap entered, Accounted t s b := by
  intro hall
  have hb := hall _ _ (run_calls Drivers.serve Drivers.new
    [.registerDriver .ahci, ahciCall, .takeBlockDevice]) ⟨0, .ahci ⟨[⟨0, ⟨()⟩, 8⟩]⟩⟩
    List.mem_cons_self
  cases hb with
  | bound mem _ _ => cases mem
  | handedOut _ events _ => cases events
  | stopped _ events _ => cases events

end SmallOs.Driver
