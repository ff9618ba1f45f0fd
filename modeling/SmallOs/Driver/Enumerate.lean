import SmallOs.Driver.Stopped

/-!
# Enumerating the block devices

Three loops of the registry look at the same bindings: one hands out every device, one hands out
the first, and one shows each binding's first device to a closure. They agree on which devices
there are when no controller has a second port and no controller is bound first.
-/

namespace SmallOs.Driver

open SmallOs.Base SmallOs.Device

variable {H : Type}

/-- The devices of a state, as `into_block_devices` returns them, in front of their id. -/
def listed (e : DeviceId × Binding H) : List (DeviceId × Owned H) :=
  e.2.intoBlockDevices.1.map (e.1, ·)

/-- A controller has at most one port. -/
def DriverState.SinglePort : DriverState H → Prop
  | virtio _ => True
  | ahci state => state.ports.length ≤ 1

/-- The loop over all bindings lists the devices of each. -/
theorem takeEach_eq (entries : List (DeviceId × Binding H)) (bindings : Bindings H)
    (hentries : ∀ e ∈ entries, bindings[e.1]? = some e.2)
    (hkeys : (entries.map Prod.fst).Nodup) :
    (takeEach (entries.map Prod.fst) bindings).1 = entries.flatMap listed := by
  induction entries generalizing bindings with
  | nil => rfl
  | cons e entries ih =>
    obtain ⟨hid, hkeys⟩ := List.nodup_cons.mp hkeys
    have hrest : ∀ e' ∈ entries, (bindings.erase e.1)[e'.1]? = some e'.2 := by
      intro e' he'
      have hne : e.1 ≠ e'.1 := by
        intro heq
        exact hid (heq ▸ List.mem_map.mpr ⟨e', he', rfl⟩)
      rw [getElem?_erase, if_neg hne]
      exact hentries e' (List.mem_cons_of_mem _ he')
    simp only [List.map_cons, takeEach, hentries e List.mem_cons_self,
      ih (bindings.erase e.1) hrest hkeys, List.flatMap_cons, listed]

/-- The entries of the registry, as the loops over it come by them. -/
theorem lookup_entries (bindings : Bindings H) :
    (∀ e ∈ bindings.toList, bindings[e.1]? = some e.2) ∧
      (bindings.toList.map Prod.fst).Nodup := by
  constructor
  · intro e he
    exact Std.TreeMap.mem_toList_iff_getElem?_eq_some.mp he
  · rw [Std.TreeMap.map_fst_toList_eq_keys]
    exact bindings.nodup_keys

theorem takeAllBlockDevices_eq (r : DriverRegistry H) :
    r.takeAllBlockDevices.1 = r.bindings.toList.flatMap listed := by
  obtain ⟨hentries, hkeys⟩ := lookup_entries r.bindings
  rw [← takeEach_eq _ _ hentries hkeys, Std.TreeMap.map_fst_toList_eq_keys]
  rfl

/-- The closure sees the first device of each binding. -/
theorem forEachBlock_eq (r : DriverRegistry H) :
    r.forEachBlock.map (fun v ↦ (v.1, v.2.2)) =
      r.bindings.toList.flatMap fun e ↦ (listed e).take 1 := by
  unfold DriverRegistry.forEachBlock
  induction r.bindings.toList with
  | nil => rfl
  | cons e entries ih =>
    have hhead : (listed e).take 1 =
        ((e.2.state.bind Boxed.asBlockDevicePtr).map (e.1, ·)).toList := by
      obtain ⟨id, did, name, state⟩ := e
      cases state with
      | none => rfl
      | some b =>
        obtain ⟨box, state⟩ := b
        cases state with
        | virtio state => rfl
        | ahci state => cases hp : state.ports <;> simp [listed, Binding.intoBlockDevices,
            Boxed.intoBlockDevices, Boxed.asBlockDevicePtr, hp]
    rw [List.flatMap_cons, hhead, ← ih]
    rw [List.filterMap_cons]
    cases e.2.state.bind Boxed.asBlockDevicePtr <;> rfl

theorem length_listed_le (e : DeviceId × Binding H) :
    (listed e).length ≤ 1 ↔ ∀ b, e.2.state = some b → b.state.SinglePort := by
  obtain ⟨id, did, name, state⟩ := e
  cases state with
  | none => simp [listed, Binding.intoBlockDevices]
  | some b =>
    obtain ⟨box, state⟩ := b
    cases state with
    | virtio state => simp [listed, Binding.intoBlockDevices, Boxed.intoBlockDevices,
        Boxed.asBlockDevice, DriverState.SinglePort]
    | ahci state => simp [listed, Binding.intoBlockDevices, Boxed.intoBlockDevices,
        DriverState.SinglePort]

/-- The first of each list are all of them just when no list has a second item. -/
theorem perm_take_one_iff {α β : Type} (f : α → List β) (l : List α) :
    (l.flatMap fun a ↦ (f a).take 1).Perm (l.flatMap f) ↔ ∀ a ∈ l, (f a).length ≤ 1 := by
  constructor
  · intro hperm
    have hlength := hperm.length_eq
    clear hperm
    induction l with
    | nil => exact nofun
    | cons a l ih =>
      have hle : (l.flatMap fun a ↦ (f a).take 1).length ≤ (l.flatMap f).length := by
        clear hlength ih
        induction l with
        | nil => exact Nat.le_refl 0
        | cons a l ih =>
          simp only [List.flatMap_cons, List.length_append, List.length_take]
          omega
      simp only [List.flatMap_cons, List.length_append, List.length_take] at hlength
      intro b hb
      rcases List.mem_cons.mp hb with rfl | hb
      · omega
      · exact ih (by omega) b hb
  · intro hone
    have heq : (l.flatMap fun a ↦ (f a).take 1) = l.flatMap f := by
      apply List.flatMap_congr
      intro a ha
      exact List.take_of_length_le (hone a ha)
    rw [heq]

/-- A loop that only takes bindings out brings none back. -/
theorem takeFirst_absent (ids : List DeviceId) (bindings : Bindings H) {k : DeviceId}
    (hk : bindings[k]? = none) : (takeFirst ids bindings).2.2[k]? = none := by
  induction ids generalizing bindings with
  | nil => exact hk
  | cons id ids ih =>
    have herase : (bindings.erase id)[k]? = none := by
      rw [getElem?_erase, hk]
      exact ite_self _
    cases hb : bindings[id]? with
    | none =>
      simp only [takeFirst, hb]
      exact ih bindings hk
    | some binding =>
      cases hi : binding.intoBlockDevice with
      | mk dev events =>
        cases dev with
        | some dev =>
          rw [takeFirst_of_some hb hi]
          exact herase
        | none =>
          rw [takeFirst_of_none hb hi]
          exact ih _ herase

/-- A device that it returns is that of one of its ids. -/
theorem takeFirst_mem (ids : List DeviceId) (bindings : Bindings H) {k : DeviceId} {dev : Owned H}
    (h : (takeFirst ids bindings).1 = some (k, dev)) : k ∈ ids := by
  induction ids generalizing bindings with
  | nil => cases h
  | cons id ids ih =>
    cases hb : bindings[id]? with
    | none =>
      simp only [takeFirst, hb] at h
      exact List.mem_cons_of_mem _ (ih bindings h)
    | some binding =>
      cases hi : binding.intoBlockDevice with
      | mk dev' events =>
        cases dev' with
        | some dev' =>
          rw [takeFirst_of_some hb hi] at h
          obtain ⟨rfl, -⟩ := Prod.mk.inj (Option.some.inj h)
          exact List.mem_cons_self
        | none =>
          rw [takeFirst_of_none hb hi] at h
          exact List.mem_cons_of_mem _ (ih _ h)

/-- Every binding but the one whose device is returned stays. -/
def KeepsOthers (r : DriverRegistry H) : Prop :=
  ∀ id binding, r.bindings[id]? = some binding →
    r.takeBlockDevice.1.map Prod.fst ≠ some id →
    r.takeBlockDevice.2.2.bindings[id]? = some binding

/-- The binding with the least id, if there is one, is that of a virtio device. -/
def VirtioFirst (r : DriverRegistry H) : Prop :=
  ∀ e, r.bindings.toList.head? = some e → ∃ box v, e.2.state = some ⟨box, .virtio v⟩

theorem takeBlockDevice_virtio {r : DriverRegistry H} {id : DeviceId} {binding : Binding H}
    {rest : List (DeviceId × Binding H)} {box : Nat} {v : VirtioBlkState H}
    (hlist : r.bindings.toList = (id, binding) :: rest)
    (hs : binding.state = some ⟨box, .virtio v⟩) :
    r.takeBlockDevice = (some (id, ⟨box, .virtio v⟩), [],
      { r with bindings := r.bindings.erase id }) := by
  have hb : r.bindings[id]? = some binding := by
    apply (lookup_entries r.bindings).1 (id, binding)
    rw [hlist]
    exact List.mem_cons_self
  unfold DriverRegistry.takeBlockDevice
  rw [← Std.TreeMap.map_fst_toList_eq_keys, hlist, List.map_cons,
    takeFirst_of_some hb (Binding.intoBlockDevice_eq hs)]
  rfl

theorem takeBlockDevice_empty {r : DriverRegistry H} (hlist : r.bindings.toList = []) :
    r.takeBlockDevice = (none, [], r) := by
  unfold DriverRegistry.takeBlockDevice
  rw [← Std.TreeMap.map_fst_toList_eq_keys, hlist]
  rfl

/-- A first binding that yields no device is gone afterwards, and nothing was returned for it. -/
theorem takeBlockDevice_drops {r : DriverRegistry H} {id : DeviceId} {binding : Binding H}
    {rest : List (DeviceId × Binding H)} {events : List (Event H)}
    (hlist : r.bindings.toList = (id, binding) :: rest)
    (hi : binding.intoBlockDevice = (none, events)) :
    r.takeBlockDevice.1.map Prod.fst ≠ some id ∧ r.takeBlockDevice.2.2.bindings[id]? = none := by
  obtain ⟨hentries, hkeys⟩ := lookup_entries r.bindings
  rw [hlist] at hentries hkeys
  have hb := hentries _ List.mem_cons_self
  have htake : r.takeBlockDevice =
      ((takeFirst (rest.map Prod.fst) (r.bindings.erase id)).1,
        events ++ (takeFirst (rest.map Prod.fst) (r.bindings.erase id)).2.1,
        { r with bindings := (takeFirst (rest.map Prod.fst) (r.bindings.erase id)).2.2 }) := by
    unfold DriverRegistry.takeBlockDevice
    rw [← Std.TreeMap.map_fst_toList_eq_keys, hlist, List.map_cons, takeFirst_of_none hb hi]
  rw [htake]
  constructor
  · intro heq
    obtain ⟨⟨k, dev⟩, hdev, rfl⟩ := Option.map_eq_some_iff.mp heq
    exact (List.nodup_cons.mp hkeys).1 (takeFirst_mem _ _ hdev)
  · exact takeFirst_absent _ _ Std.TreeMap.getElem?_erase_self

/-- Taking the first device keeps the other bindings just when no other binding comes before
it. -/
theorem keepsOthers_iff (r : DriverRegistry H) : KeepsOthers r ↔ VirtioFirst r := by
  cases hlist : r.bindings.toList with
  | nil =>
    refine iff_of_true ?_ ?_
    · intro id binding hb _
      rw [takeBlockDevice_empty hlist]
      exact hb
    · intro e he
      rw [hlist] at he
      cases he
  | cons e rest =>
    obtain ⟨id, binding⟩ := e
    constructor
    · intro hkeeps e he
      rw [hlist] at he
      obtain rfl := Option.some.inj he
      have hb : r.bindings[id]? = some binding := by
        apply (lookup_entries r.bindings).1 (id, binding)
        rw [hlist]
        exact List.mem_cons_self
      have hgone : ∀ events, binding.intoBlockDevice ≠ (none, events) := by
        intro events hi
        obtain ⟨hne, hnone⟩ := takeBlockDevice_drops hlist hi
        rw [hkeeps id binding hb hne] at hnone
        cases hnone
      cases hs : binding.state with
      | none => exact absurd (by simp [Binding.intoBlockDevice, hs]; rfl) (hgone [])
      | some b =>
        obtain ⟨box, state⟩ := b
        cases state with
        | virtio v => exact ⟨box, v, rfl⟩
        | ahci state => exact absurd (Binding.intoBlockDevice_eq hs) (hgone _)
    · intro hfirst
      obtain ⟨box, v, hs⟩ := hfirst (id, binding) (by rw [hlist]; rfl)
      intro k other hk hne
      rw [takeBlockDevice_virtio hlist hs] at hne ⊢
      have hne' : id ≠ k := by
        rintro rfl
        exact hne rfl
      change (r.bindings.erase id)[k]? = some other
      rw [getElem?_erase, if_neg hne', hk]

/-- The enumerations agree: the closure sees what is handed out, a first device is returned when
there is one, and the other bindings stay. -/
def Agree (r : DriverRegistry H) : Prop :=
  (r.forEachBlock.map fun v ↦ (v.1, v.2.2)).Perm r.takeAllBlockDevices.1 ∧
    (r.takeBlockDevice.1.isSome ↔ r.takeAllBlockDevices.1 ≠ []) ∧ KeepsOthers r

/-- They agree just when no controller has a second port and none is bound first. -/
theorem enumerations_agree_iff (r : DriverRegistry H) :
    Agree r ↔ (∀ b ∈ held r.bindings, b.state.SinglePort) ∧ VirtioFirst r := by
  have hports : (r.forEachBlock.map fun v ↦ (v.1, v.2.2)).Perm r.takeAllBlockDevices.1 ↔
      ∀ b ∈ held r.bindings, b.state.SinglePort := by
    rw [forEachBlock_eq, takeAllBlockDevices_eq, perm_take_one_iff]
    simp only [length_listed_le, held, List.mem_filterMap]
    constructor
    · rintro hall b ⟨e, he, hs⟩
      exact hall e he b hs
    · intro hall e he b hs
      exact hall b ⟨e, he, hs⟩
  unfold Agree
  rw [hports, keepsOthers_iff]
  constructor
  · rintro ⟨hsingle, -, hfirst⟩
    exact ⟨hsingle, hfirst⟩
  · rintro ⟨hsingle, hfirst⟩
    refine ⟨hsingle, ?_, hfirst⟩
    rw [takeAllBlockDevices_eq]
    cases hlist : r.bindings.toList with
    | nil =>
      rw [takeBlockDevice_empty hlist]
      simp
    | cons e rest =>
      obtain ⟨id, binding⟩ := e
      obtain ⟨box, v, hs⟩ := hfirst (id, binding) (by rw [hlist]; rfl)
      have hlisted : listed (id, binding) = [(id, ⟨box, .virtio v⟩)] := by
        rw [listed, Binding.intoBlockDevices_eq, hs]
        rfl
      rw [takeBlockDevice_virtio hlist hs, List.flatMap_cons, hlisted]
      exact iff_of_true rfl (List.cons_ne_nil _ _)

/-- A controller with two ports: its second disk is never shown, and taking the first device
returns none and drops both. -/
theorem not_agree_ahci : ¬ ∀ r : DriverRegistry Unit, Agree r := by
  intro hall
  let ports : List (AhciPortWrapper Unit) := [⟨0, ⟨()⟩, 8⟩, ⟨1, ⟨()⟩, 8⟩]
  have hkeeps := (hall ⟨[], (∅ : Bindings Unit).insert 1
    (.new 1 "ahci" ⟨0, .ahci ⟨ports⟩⟩)⟩).2.2 1 _ rfl nofun
  cases hkeeps

end SmallOs.Driver
