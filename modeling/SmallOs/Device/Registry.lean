import SmallOs.Base.Maps
import SmallOs.Base.Run
import Mathlib.Data.List.Nodup

/-!
# The device registry

`lib/device/src/registry.rs`: devices under their ids, and an index from names to ids that is
written in a second step. An id comes from a counter of 64 bits that wraps, shared by the whole
program.
-/

namespace SmallOs.Device

open SmallOs.Base

/-- `lib/device/src/error.rs:4–10`, without the error of a transfer, which the registry never
returns. -/
inductive DeviceError where
  | alreadyRegistered
  | notFound
  | probeFailed
  | unsupported
  deriving DecidableEq, Repr

/-- `lib/device/src/lib.rs:19–28`. -/
inductive DeviceType where
  | block
  | character
  | network
  | display
  | bus
  | platform
  | unknown
  deriving DecidableEq, Repr

/-- `lib/device/src/lib.rs:32–48`; what `probe` answers is an input of the call that asks for it,
and what `remove` does stays inside the device. -/
class Device (D : Type) where
  name : D → String
  deviceType : D → DeviceType

/-- `lib/device/src/device_id.rs:6`. -/
abbrev DeviceId := UInt64

/-- `lib/device/src/registry.rs:7–10`. -/
structure Entry (D : Type) where
  name : String
  device : D

/-- `lib/device/src/lib.rs:52–55`. -/
structure DeviceHandle (D : Type) where
  id : DeviceId
  inner : D

/-- `lib/device/src/registry.rs:12–15`. -/
structure DeviceRegistry (D : Type) where
  devices : Std.TreeMap DeviceId (Entry D)
  nameIndex : Std.TreeMap String DeviceId

variable {D : Type}

namespace DeviceRegistry

/-- `lib/device/src/registry.rs:18–20`. -/
def new : DeviceRegistry D := ⟨∅, ∅⟩

/-- `lib/device/src/registry.rs:57–59`. -/
def get (r : DeviceRegistry D) (id : DeviceId) : Option D := r.devices[id]?.map Entry.device

/-- `lib/device/src/registry.rs:62–65`. -/
def getByName (r : DeviceRegistry D) (name : String) : Option D := do
  let id ← r.nameIndex[name]?
  r.get id

/-- `lib/device/src/registry.rs:68–75`. -/
def byType [Device D] (r : DeviceRegistry D) (ty : DeviceType) : List (DeviceId × D) :=
  (r.devices.toList.filter fun e ↦ Device.deviceType e.2.device = ty).map
    fun e ↦ (e.1, e.2.device)

/-- Both insertions of a registration. -/
def added [Device D] (r : DeviceRegistry D) (id : DeviceId) (device : D) : DeviceRegistry D :=
  let name := Device.name device
  ⟨r.devices.insert id ⟨name, device⟩, r.nameIndex.insert name id⟩

/-- Both removals of what is registered under an id. -/
def removed (r : DeviceRegistry D) (id : DeviceId) (entry : Entry D) : DeviceRegistry D :=
  ⟨r.devices.erase id, r.nameIndex.erase entry.name⟩

end DeviceRegistry

/-- The registry and the counter that ids come from. -/
structure Devices (D : Type) where
  registry : DeviceRegistry D
  nextId : UInt64

namespace Devices

/-- `lib/device/src/device_id.rs:3` with an empty registry. -/
def new : Devices D := ⟨.new, 1⟩

/-- `lib/device/src/device_id.rs:9`: `fetch_add` wraps around. -/
def allocate (s : Devices D) : DeviceId × Devices D :=
  (s.nextId, { s with nextId := s.nextId + 1 })

/-- `lib/device/src/registry.rs:24–46`. -/
def register [Device D] (s : Devices D) (device : D) (probe : Except DeviceError Unit) :
    Except DeviceError (DeviceHandle D) × Devices D :=
  if s.registry.nameIndex.contains (Device.name device) then (.error .alreadyRegistered, s)
  else
    match probe with
    | .error _ => (.error .probeFailed, s)
    | .ok () =>
      let (id, s) := s.allocate
      (.ok ⟨id, device⟩, { s with registry := s.registry.added id device })

/-- `lib/device/src/registry.rs:49–55`. -/
def unregister (s : Devices D) (id : DeviceId) : Except DeviceError Unit × Devices D :=
  match s.registry.devices[id]? with
  | none => (.error .notFound, s)
  | some entry => (.ok (), { s with registry := s.registry.removed id entry })

end Devices

/-- A call that changes the registry. -/
inductive Request (D : Type) where
  | register (device : D) (probe : Except DeviceError Unit)
  | unregister (id : DeviceId)

/-- What a call returns: an error, or the handle of the device that it has registered. -/
abbrev Reply (D : Type) := Except DeviceError (Option (DeviceHandle D))

/-- Serve a call. -/
def Devices.serve [Device D] (s : Devices D) : Request D → Reply D × Devices D
  | .register device probe =>
    let (reply, s) := s.register device probe
    (reply.map some, s)
  | .unregister id =>
    let (reply, s) := s.unregister id
    (reply.map fun () ↦ none, s)

/-- The calls that the registry serves. -/
def Serves [Device D] (x : Call (Devices D) (Request D) (Reply D)) : Prop :=
  (x.output, x.after) = x.before.serve x.input

/-- The handle that a call has handed out. -/
def handle (x : Call (Devices D) (Request D) (Reply D)) : Option (DeviceHandle D) :=
  match x.output with
  | .ok h => h
  | .error _ => none

/-- The handles that calls have handed out. -/
def handles (t : List (Call (Devices D) (Request D) (Reply D))) : List (DeviceHandle D) :=
  t.filterMap handle

theorem handles_append (t : List (Call (Devices D) (Request D) (Reply D)))
    (x : Call (Devices D) (Request D) (Reply D)) :
    handles (t ++ [x]) = handles t ++ (handle x).toList := by
  unfold handles
  rw [List.filterMap_append]
  cases h : handle x <;> simp [h]

theorem handles_length_le (t : List (Call (Devices D) (Request D) (Reply D)))
    (x : Call (Devices D) (Request D) (Reply D)) :
    (handles t).length ≤ (handles (t ++ [x])).length := by
  rw [handles_append, List.length_append]
  exact Nat.le_add_right _ _

/-- The device registered under a name, from the one before a call to the one behind it. -/
def latestStep [Device D] (name : String) (current : Option (DeviceHandle D))
    (x : Call (Devices D) (Request D) (Reply D)) : Option (DeviceHandle D) :=
  match x.input, x.output with
  | .register device _, .ok (some h) => if Device.name device = name then some h else current
  | .unregister id, .ok none => if current.map DeviceHandle.id = some id then none else current
  | _, _ => current

/-- The device most recently registered under a name and not unregistered since. -/
def latest [Device D] (name : String) (t : List (Call (Devices D) (Request D) (Reply D))) :
    Option (DeviceHandle D) :=
  t.foldl (latestStep name) none

namespace DeviceRegistry

section Maps

variable {r : DeviceRegistry D} {id id' : DeviceId} {name : String} {device : D} {entry : Entry D}

/-- The name that an id is registered under. -/
def nameOf (r : DeviceRegistry D) (id : DeviceId) : Option String := r.devices[id]?.map Entry.name

/-- The index leads from a name to an id exactly when the id is registered under the name. -/
def Consistent (r : DeviceRegistry D) : Prop := Inverse (fun name ↦ r.nameIndex[name]?) r.nameOf

/-- What the index finds under a name, with its id. -/
def find (r : DeviceRegistry D) (name : String) : Option (DeviceHandle D) :=
  r.nameIndex[name]?.bind fun id ↦ (r.get id).map fun device ↦ ⟨id, device⟩

theorem getByName_eq (r : DeviceRegistry D) (name : String) :
    r.getByName name = (r.find name).map DeviceHandle.inner := by
  unfold getByName find
  cases r.nameIndex[name]? with
  | none => rfl
  | some id => cases hget : r.get id <;> simp [hget]

theorem mem_byType [Device D] {ty : DeviceType} :
    (id, device) ∈ r.byType ty ↔ r.get id = some device ∧ Device.deviceType device = ty := by
  simp only [byType, List.mem_map, List.mem_filter, decide_eq_true_eq, Prod.mk.injEq, get,
    Option.map_eq_some_iff]
  constructor
  · rintro ⟨⟨i, e⟩, ⟨hmem, hty⟩, rfl, rfl⟩
    exact ⟨⟨e, Std.TreeMap.mem_toList_iff_getElem?_eq_some.mp hmem, rfl⟩, hty⟩
  · rintro ⟨⟨e, he, rfl⟩, hty⟩
    exact ⟨(id, e), ⟨Std.TreeMap.mem_toList_iff_getElem?_eq_some.mpr he, hty⟩, rfl, rfl⟩

theorem consistent_new : (new : DeviceRegistry D).Consistent := by
  intro name id
  simp [new, nameOf]

/-- What the index leads to is registered under the name. -/
theorem Consistent.nameOf_of_index (h : r.Consistent) (hi : r.nameIndex[name]? = some id) :
    r.nameOf id = some name := (h name id).mp hi

@[simp] theorem nameIndex_added [Device D] (other : String) :
    (r.added id device).nameIndex[other]? =
      if Device.name device = other then some id else r.nameIndex[other]? :=
  getElem?_insert _ _ _ _

@[simp] theorem nameOf_added [Device D] :
    (r.added id device).nameOf id' =
      if id = id' then some (Device.name device) else r.nameOf id' := by
  unfold nameOf added
  rw [getElem?_insert]
  split <;> rfl

@[simp] theorem get_added [Device D] :
    (r.added id device).get id' = if id = id' then some device else r.get id' := by
  unfold get added
  rw [getElem?_insert]
  split <;> rfl

@[simp] theorem nameIndex_removed (other : String) :
    (r.removed id entry).nameIndex[other]? =
      if entry.name = other then none else r.nameIndex[other]? :=
  getElem?_erase _ _ _

@[simp] theorem nameOf_removed :
    (r.removed id entry).nameOf id' = if id = id' then none else r.nameOf id' := by
  unfold nameOf removed
  rw [getElem?_erase]
  split <;> rfl

@[simp] theorem get_removed :
    (r.removed id entry).get id' = if id = id' then none else r.get id' := by
  unfold get removed
  rw [getElem?_erase]
  split <;> rfl

/-- A fresh id under a fresh name keeps the maps inverse. -/
theorem Consistent.added [Device D] (h : r.Consistent)
    (hname : r.nameIndex[Device.name device]? = none) (hid : r.nameOf id = none) :
    (r.added id device).Consistent := by
  have hboth := Inverse.insert h hname hid
  intro name' id'
  simp only [nameIndex_added, nameOf_added]
  exact hboth name' id'

/-- So does taking an entry out of both. -/
theorem Consistent.removed (h : r.Consistent) (he : r.devices[id]? = some entry) :
    (r.removed id entry).Consistent := by
  have hname : r.nameOf id = some entry.name := by rw [nameOf, he, Option.map_some]
  have hboth := Inverse.erase h ((h entry.name id).mpr hname)
  intro name' id'
  simp only [nameIndex_removed, nameOf_removed]
  exact hboth name' id'

/-- A name finds the device that has just been registered under it; other names find what they
found. -/
theorem Consistent.find_added [Device D] (h : r.Consistent) (hid : r.nameOf id = none) :
    (r.added id device).find name =
      if Device.name device = name then some ⟨id, device⟩ else r.find name := by
  unfold find
  rw [nameIndex_added]
  by_cases hn : Device.name device = name
  · simp [hn]
  · rw [if_neg hn, if_neg hn]
    cases hi : r.nameIndex[name]? with
    | none => rfl
    | some id' =>
      have hne : id ≠ id' := by
        rintro rfl
        rw [h.nameOf_of_index hi] at hid
        cases hid
      simp [hne]

/-- A name whose device has been unregistered finds nothing; other names find what they found. -/
theorem Consistent.find_removed (h : r.Consistent) (he : r.devices[id]? = some entry) :
    (r.removed id entry).find name =
      if (r.find name).map DeviceHandle.id = some id then none else r.find name := by
  have hname : r.nameOf id = some entry.name := by rw [nameOf, he, Option.map_some]
  have hindex := (h entry.name id).mpr hname
  unfold find
  rw [nameIndex_removed]
  by_cases hn : entry.name = name
  · subst hn
    simp [hindex, get, he]
  · rw [if_neg hn]
    cases hi : r.nameIndex[name]? with
    | none => rfl
    | some id' =>
      have hne : id ≠ id' := by
        rintro rfl
        exact hn (h.injective hindex hi)
      cases hget : r.get id' <;> simp [hne, hne.symm, hget]

end Maps

end DeviceRegistry

section Runs

variable [Device D] {x : Call (Devices D) (Request D) (Reply D)}
  {t : List (Call (Devices D) (Request D) (Reply D))} {s : Devices D}

/-- What a call can do: fail and change nothing, register a device under a name that was free,
or take a registered one out. -/
inductive Effect (x : Call (Devices D) (Request D) (Reply D)) : Prop where
  | failed (e : DeviceError) (output : x.output = .error e) (after : x.after = x.before)
  | registered (device : D) (input : x.input = .register device (.ok ()))
      (free : x.before.registry.nameIndex[Device.name device]? = none)
      (output : x.output = .ok (some ⟨x.before.nextId, device⟩))
      (after : x.after = ⟨x.before.registry.added x.before.nextId device, x.before.nextId + 1⟩)
  | unregistered (id : DeviceId) (entry : Entry D) (input : x.input = .unregister id)
      (held : x.before.registry.devices[id]? = some entry) (output : x.output = .ok none)
      (after : x.after = { x.before with registry := x.before.registry.removed id entry })

theorem Serves.effect (h : Serves x) : Effect x := by
  obtain ⟨before, input, output, after⟩ := x
  cases input with
  | register device probe =>
    by_cases hc : before.registry.nameIndex.contains (Device.name device)
    · simp only [Serves, Devices.serve, Devices.register, if_pos hc, Prod.mk.injEq] at h
      exact .failed _ h.1 h.2
    · cases probe with
      | error e =>
        simp only [Serves, Devices.serve, Devices.register, if_neg hc, Prod.mk.injEq] at h
        exact .failed _ h.1 h.2
      | ok u =>
        simp only [Serves, Devices.serve, Devices.register, if_neg hc, Prod.mk.injEq] at h
        have hfree : before.registry.nameIndex[Device.name device]? = none := by
          rw [Std.TreeMap.contains_eq_isSome_getElem?] at hc
          exact Option.not_isSome_iff_eq_none.mp hc
        exact .registered device rfl hfree h.1 h.2
  | unregister id =>
    cases he : before.registry.devices[id]? with
    | none =>
      simp only [Serves, Devices.serve, Devices.unregister, he, Prod.mk.injEq] at h
      exact .failed _ h.1 h.2
    | some entry =>
      simp only [Serves, Devices.serve, Devices.unregister, he, Prod.mk.injEq] at h
      exact .unregistered id entry rfl he h.1 h.2

/-- The id that the counter gives out after a number of others. -/
def idAt (n : Nat) : DeviceId := UInt64.ofNat (1 + n)

theorem idAt_succ (n : Nat) : idAt n + 1 = idAt (n + 1) := by
  unfold idAt
  rw [← Nat.add_assoc, UInt64.ofNat_add (1 + n) 1]
  rfl

/-- The counter does not repeat itself within its width. -/
theorem idAt_inj {m n : Nat} (hm : m < 2 ^ 64) (hn : n < 2 ^ 64) (h : idAt m = idAt n) : m = n := by
  have hmod := congrArg UInt64.toNat h
  simp only [idAt, UInt64.toNat_ofNat'] at hmod
  omega

/-- What the calls so far say of the registry they have led to. -/
structure Tracks (t : List (Call (Devices D) (Request D) (Reply D))) (s : Devices D) : Prop where
  consistent : s.registry.Consistent
  nextId : s.nextId = idAt (handles t).length
  ids : (handles t).map DeviceHandle.id = (List.range (handles t).length).map idAt
  issued : ∀ id name, s.registry.nameOf id = some name → id ∈ (handles t).map DeviceHandle.id
  latest : ∀ name, latest name t = s.registry.find name

theorem tracks_new : Tracks [] (Devices.new : Devices D) where
  consistent := DeviceRegistry.consistent_new
  nextId := rfl
  ids := rfl
  issued := by
    intro id name h
    simp [Devices.new, DeviceRegistry.new, DeviceRegistry.nameOf] at h
  latest := by
    intro name
    simp [Device.latest, Devices.new, DeviceRegistry.new, DeviceRegistry.find]

theorem latest_append (name : String) :
    latest name (t ++ [x]) = latestStep name (latest name t) x := by
  simp [latest]

/-- An id that the counter has not given out yet is held by no device. -/
theorem Tracks.fresh (h : Tracks t s) (hlen : (handles t).length < 2 ^ 64) :
    s.registry.nameOf s.nextId = none := by
  cases hn : s.registry.nameOf s.nextId with
  | none => rfl
  | some name =>
    have hmem := h.issued _ _ hn
    rw [h.ids, h.nextId] at hmem
    obtain ⟨j, hj, heq⟩ := List.mem_map.mp hmem
    have hjlt := List.mem_range.mp hj
    have := idAt_inj (by omega) hlen heq
    omega

/-- One call more. -/
theorem Tracks.step (hx : Serves x) (h : Tracks t x.before)
    (hlen : (handles (t ++ [x])).length ≤ 2 ^ 64) : Tracks (t ++ [x]) x.after := by
  cases hx.effect with
  | failed e output after =>
    have hh : handles (t ++ [x]) = handles t := by
      rw [handles_append, handle, output]
      exact List.append_nil _
    rw [after]
    refine ⟨h.consistent, hh ▸ h.nextId, hh ▸ h.ids, hh ▸ h.issued, ?_⟩
    intro name
    rw [latest_append, ← h.latest name, latestStep, output]
    cases x.input <;> rfl
  | registered device input free output after =>
    have hh : handles (t ++ [x]) = handles t ++ [⟨x.before.nextId, device⟩] := by
      rw [handles_append, handle, output]
      rfl
    have hcount : (handles (t ++ [x])).length = (handles t).length + 1 := by
      rw [hh, List.length_append, List.length_singleton]
    have hfresh := h.fresh (by omega)
    rw [after]
    constructor
    · exact h.consistent.added free hfresh
    · rw [hcount, ← idAt_succ, ← h.nextId]
    · rw [hcount, hh, List.map_append, h.ids, List.range_succ, List.map_append, h.nextId]
      rfl
    · intro id name hid
      rw [hh, List.map_append]
      rw [DeviceRegistry.nameOf_added] at hid
      by_cases hi : x.before.nextId = id
      · subst hi
        exact List.mem_append_right _ List.mem_cons_self
      · rw [if_neg hi] at hid
        exact List.mem_append_left _ (h.issued id name hid)
    · intro name
      rw [latest_append, latestStep, input, output, h.consistent.find_added hfresh, h.latest]
  | unregistered id entry input held output after =>
    have hh : handles (t ++ [x]) = handles t := by
      rw [handles_append, handle, output]
      exact List.append_nil _
    rw [after]
    refine ⟨h.consistent.removed held, hh ▸ h.nextId, hh ▸ h.ids, ?_, ?_⟩
    · intro id' name hid
      rw [DeviceRegistry.nameOf_removed] at hid
      by_cases hi : id = id'
      · rw [if_pos hi] at hid
        cases hid
      · rw [if_neg hi] at hid
        exact hh ▸ h.issued id' name hid
    · intro name
      rw [latest_append, latestStep, input, output, h.consistent.find_removed held, h.latest]

/-- Every run of calls. -/
theorem tracks_of_run (h : Run Serves (Devices.new : Devices D) t s)
    (hlen : (handles t).length ≤ 2 ^ 64) : Tracks t s := by
  refine h.history (I := fun t s ↦ (handles t).length ≤ 2 ^ 64 → Tracks t s) ?_ ?_ hlen
  · intro t x hx ih hlen
    exact (ih ((handles_length_le t x).trans hlen)).step hx hlen
  · exact fun _ ↦ tracks_new

/-- As long as the counter has not come around, the maps are inverse, a name finds the device
registered last under it and not unregistered since, ids are new, and a failed call changes
nothing. -/
theorem registry_consistent (h : Run Serves (Devices.new : Devices D) t s)
    (hlen : (handles t).length ≤ 2 ^ 64) :
    (∀ name id, s.registry.nameIndex[name]? = some id ↔
        ∃ device, s.registry.devices[id]? = some (Entry.mk name device)) ∧
      (∀ name, s.registry.getByName name = (latest name t).map DeviceHandle.inner) ∧
      ((handles t).map DeviceHandle.id).Nodup ∧
      ∀ x ∈ t, ∀ e, x.output = .error e → x.after = x.before := by
  have htracks := tracks_of_run h hlen
  refine ⟨?_, ?_, ?_, ?_⟩
  · intro name id
    rw [htracks.consistent name id, DeviceRegistry.nameOf, Option.map_eq_some_iff]
    constructor
    · rintro ⟨⟨name', device⟩, he, rfl⟩
      exact ⟨device, he⟩
    · rintro ⟨device, he⟩
      exact ⟨_, he, rfl⟩
  · intro name
    rw [DeviceRegistry.getByName_eq, htracks.latest]
  · rw [htracks.ids]
    apply List.Nodup.map_on _ List.nodup_range
    intro i hi j hj
    have hi' := List.mem_range.mp hi
    have hj' := List.mem_range.mp hj
    exact idAt_inj (by omega) (by omega)
  · intro x hx e he
    cases (h.mem hx).effect with
    | failed _ _ after => exact after
    | registered _ _ _ output _ =>
      rw [output] at he
      cases he
    | unregistered _ _ _ _ output _ =>
      rw [output] at he
      cases he

end Runs

section Reuse

/-- A device that is known by its name alone. -/
structure Named where
  name : String

instance : Device Named where
  name := Named.name
  deviceType _ := .unknown

/-- The device `name`, registered and unregistered again `n` times, gets the next `n` ids. -/
theorem run_cycles (device : Named) (n : Nat) (s : Devices Named)
    (hfree : s.registry.nameIndex[device.name]? = none) :
    ∃ t s', Run Serves s t s' ∧
      (handles t).map DeviceHandle.id =
        (List.range n).map fun i ↦ s.nextId + UInt64.ofNat i := by
  induction n generalizing s with
  | zero => exact ⟨[], s, .nil s, rfl⟩
  | succ n ih =>
    let s₁ : Devices Named := ⟨s.registry.added s.nextId device, s.nextId + 1⟩
    let entry : Entry Named := ⟨device.name, device⟩
    let s₂ : Devices Named := ⟨s₁.registry.removed s.nextId entry, s.nextId + 1⟩
    have hcontains : s.registry.nameIndex.contains (Device.name device) = false := by
      rw [Std.TreeMap.contains_eq_isSome_getElem?]
      exact congrArg Option.isSome hfree
    have hregister : Serves ⟨s, .register device (.ok ()), .ok (some ⟨s.nextId, device⟩), s₁⟩ := by
      simp only [Serves, Devices.serve, Devices.register, hcontains]
      rfl
    have hheld : s₁.registry.devices[s.nextId]? = some entry := Std.TreeMap.getElem?_insert_self
    have hunregister : Serves ⟨s₁, .unregister s.nextId, .ok none, s₂⟩ := by
      simp only [Serves, Devices.serve, Devices.unregister, hheld]
      rfl
    have hfree₂ : s₂.registry.nameIndex[device.name]? = none := by
      simp [s₂, entry]
    obtain ⟨t, s', hrun, hids⟩ := ih s₂ hfree₂
    refine ⟨_, s', .cons hregister (.cons hunregister hrun), ?_⟩
    have hhead : ∀ t', handles (⟨s, .register device (.ok ()), .ok (some ⟨s.nextId, device⟩), s₁⟩ ::
        ⟨s₁, .unregister s.nextId, .ok none, s₂⟩ :: t') = ⟨s.nextId, device⟩ :: handles t' :=
      fun _ ↦ rfl
    rw [hhead, List.map_cons, hids, List.range_succ_eq_map, List.map_cons, List.map_map]
    congr 1
    · simp
    · apply List.map_congr_left
      intro i _
      simp [s₂, UInt64.ofNat_add, UInt64.add_assoc, UInt64.add_comm 1]

/-- A device that has been registered is found under its name. -/
theorem registry_consistent_disk :
    ∃ (t : List (Call (Devices Named) (Request Named) (Reply Named))) (s : Devices Named),
      handles t = [⟨1, ⟨"disk"⟩⟩] ∧ Run Serves Devices.new t s ∧
        s.registry.getByName "disk" = some ⟨"disk"⟩ := by
  let x : Call (Devices Named) (Request Named) (Reply Named) :=
    ⟨.new, .register ⟨"disk"⟩ (.ok ()), .ok (some ⟨1, ⟨"disk"⟩⟩),
      (Devices.new.register ⟨"disk"⟩ (.ok ())).2⟩
  have hx : Serves x := rfl
  have hrun : Run Serves Devices.new [x] x.after := .cons hx (.nil _)
  have hlen : (handles [x]).length ≤ 2 ^ 64 := by
    change 1 ≤ 2 ^ 64
    omega
  exact ⟨[x], x.after, rfl, hrun, (registry_consistent hrun hlen).2.1 "disk"⟩

/-- After `2 ^ 64` registrations the first id comes back. -/
theorem id_reused : ∃ (t : List (Call (Devices Named) (Request Named) (Reply Named)))
    (s : Devices Named), Run Serves Devices.new t s ∧
      ¬ ((handles t).map DeviceHandle.id).Nodup := by
  obtain ⟨t, s, hrun, hids⟩ := run_cycles ⟨"disk"⟩ (2 ^ 64 + 1) Devices.new rfl
  refine ⟨t, s, hrun, fun hnodup ↦ ?_⟩
  rw [hids] at hnodup
  have hzero : 0 ∈ List.range (2 ^ 64 + 1) := List.mem_range.mpr (Nat.succ_pos _)
  have hlast : 2 ^ 64 ∈ List.range (2 ^ 64 + 1) := List.mem_range.mpr (Nat.lt_succ_self _)
  have hsame : (0 : Nat) = 2 ^ 64 := List.inj_on_of_nodup_map hnodup hzero hlast rfl
  omega

end Reuse

end SmallOs.Device
