import SmallOs.Device.Registry

/-!
# A registry that has only been added to

Devices that are registered one after the other, each under a name of its own, stay in the order of
their ids.
-/

namespace SmallOs.Device

open SmallOs.Base

variable {D : Type} [Device D] {ds : List D} {d : D} {s : Devices D} {id : DeviceId}
  {name : String}

/-- The registry holds the devices of a list, under the ids that follow one another. -/
structure Holds (ds : List D) (s : Devices D) : Prop where
  nextId : s.nextId = idAt ds.length
  get : ∀ id d, s.registry.get id = some d ↔ ∃ i : Nat, ds[i]? = some d ∧ id = idAt i
  index : ∀ name id, s.registry.nameIndex[name]? = some id ↔
    ∃ i : Nat, ds[i]?.map Device.name = some name ∧ id = idAt i

theorem holds_new : Holds [] (Devices.new : Devices D) where
  nextId := rfl
  get := by simp [Devices.new, DeviceRegistry.new, DeviceRegistry.get]
  index := by simp [Devices.new, DeviceRegistry.new]

/-- The name of a device is taken just when one of the list has it. -/
theorem Holds.contains_iff (h : Holds ds s) :
    s.registry.nameIndex.contains name = true ↔ name ∈ ds.map Device.name := by
  rw [Std.TreeMap.contains_eq_isSome_getElem?, Option.isSome_iff_exists, List.mem_iff_getElem?]
  simp only [h.index, List.getElem?_map]
  constructor
  · rintro ⟨id, i, hi, -⟩
    exact ⟨i, hi⟩
  · rintro ⟨i, hi⟩
    exact ⟨idAt i, i, hi, rfl⟩

/-- A device whose name is taken is not registered. -/
theorem Holds.register_again (h : Holds ds s) (hname : Device.name d ∈ ds.map Device.name)
    (probe : Except DeviceError Unit) : (s.register d probe).2 = s := by
  unfold Devices.register
  rw [if_pos (h.contains_iff.mpr hname)]

/-- Another one is, behind the last. -/
theorem Holds.register (h : Holds ds s) (hname : Device.name d ∉ ds.map Device.name)
    (hlen : ds.length < 2 ^ 64) : Holds (ds ++ [d]) (s.register d (.ok ())).2 := by
  have hnew : (s.register d (.ok ())).2 = ⟨s.registry.added s.nextId d, s.nextId + 1⟩ := by
    rw [Devices.register, if_neg (mt h.contains_iff.mp hname)]
    rfl
  have hlast : ∀ i : Nat, i < ds.length → idAt ds.length ≠ idAt i := by
    intro i hi he
    have := idAt_inj hlen (by omega) he
    omega
  rw [hnew]
  constructor
  · rw [h.nextId, idAt_succ, List.length_append, List.length_singleton]
  · intro id d'
    simp only [DeviceRegistry.get_added, h.nextId]
    by_cases hid : idAt ds.length = id
    · subst hid
      rw [if_pos rfl]
      constructor
      · rintro ⟨rfl⟩
        exact ⟨ds.length, List.getElem?_concat_length, rfl⟩
      · rintro ⟨i, hi, he⟩
        rcases Nat.lt_trichotomy i ds.length with hlt | rfl | hgt
        · exact absurd he (hlast i hlt)
        · rw [List.getElem?_concat_length] at hi
          exact hi
        · rw [List.getElem?_eq_none (by simp; omega)] at hi
          cases hi
    · rw [if_neg hid, h.get]
      constructor
      · rintro ⟨i, hi, rfl⟩
        have hlt := (List.getElem?_eq_some_iff.mp hi).1
        exact ⟨i, by rwa [List.getElem?_append_left hlt], rfl⟩
      · rintro ⟨i, hi, rfl⟩
        have hlt : i < ds.length := by
          have hle := (List.getElem?_eq_some_iff.mp hi).1
          rw [List.length_append, List.length_singleton] at hle
          have hne : i ≠ ds.length := by
            rintro rfl
            exact hid rfl
          omega
        exact ⟨i, by rwa [List.getElem?_append_left hlt] at hi, rfl⟩
  · intro name id
    simp only [DeviceRegistry.nameIndex_added, h.nextId]
    by_cases hn : Device.name d = name
    · subst hn
      rw [if_pos rfl]
      constructor
      · rintro ⟨rfl⟩
        refine ⟨ds.length, ?_, rfl⟩
        rw [List.getElem?_concat_length]
        rfl
      · rintro ⟨i, hi, rfl⟩
        have hlt := (List.getElem?_eq_some_iff.mp (Option.map_eq_some_iff.mp hi).choose_spec.1).1
        rw [List.length_append, List.length_singleton] at hlt
        by_cases hlast : i = ds.length
        · rw [hlast]
        · rw [List.getElem?_append_left (by omega), ← List.getElem?_map] at hi
          exact absurd (List.mem_of_getElem? hi) hname
    · rw [if_neg hn, h.index]
      constructor
      · rintro ⟨i, hi, rfl⟩
        have hlt := (List.getElem?_eq_some_iff.mp (Option.map_eq_some_iff.mp hi).choose_spec.1).1
        exact ⟨i, by rwa [List.getElem?_append_left hlt], rfl⟩
      · rintro ⟨i, hi, rfl⟩
        have hlt := (List.getElem?_eq_some_iff.mp (Option.map_eq_some_iff.mp hi).choose_spec.1).1
        rw [List.length_append, List.length_singleton] at hlt
        have hne : i ≠ ds.length := by
          rintro rfl
          rw [List.getElem?_concat_length] at hi
          exact hn (Option.some.inj hi)
        exact ⟨i, by rwa [List.getElem?_append_left (by omega)] at hi, rfl⟩

/-- Devices of different names are registered one after the other. -/
theorem Holds.registerAll {new : List D} (h : Holds ds s)
    (hnames : ((ds ++ new).map Device.name).Nodup) (hlen : (ds ++ new).length ≤ 2 ^ 64) :
    Holds (ds ++ new) (new.foldl (fun s d ↦ (s.register d (.ok ())).2) s) := by
  induction new generalizing ds s with
  | nil =>
    rw [List.append_nil]
    exact h
  | cons d new ih =>
    have hsplit : ds ++ d :: new = (ds ++ [d]) ++ new := by rw [List.append_assoc]; rfl
    rw [hsplit] at hnames hlen ⊢
    have hfirst : ((ds ++ [d]).map Device.name).Nodup := by
      rw [List.map_append] at hnames
      exact (List.nodup_append.mp hnames).1
    rw [List.map_append, List.nodup_append] at hfirst
    have hname : Device.name d ∉ ds.map Device.name := by
      intro hmem
      exact hfirst.2.2 _ hmem _ List.mem_cons_self rfl
    rw [List.length_append, List.length_append, List.length_singleton] at hlen
    rw [List.foldl_cons]
    apply ih (h.register hname (by omega)) hnames
    rw [List.length_append, List.length_append, List.length_singleton]
    exact hlen

/-- Once more they change nothing. -/
theorem Holds.registerAll_again {new : List D} (h : Holds ds s) (hnew : new ⊆ ds) :
    new.foldl (fun s d ↦ (s.register d (.ok ())).2) s = s := by
  induction new with
  | nil => rfl
  | cons d new ih =>
    have hd := hnew List.mem_cons_self
    rw [List.foldl_cons, h.register_again (List.mem_map_of_mem hd)]
    exact ih fun d' hd' ↦ hnew (List.mem_cons_of_mem _ hd')

/-- What is found under the name of a device of the list. -/
theorem Holds.getByName (h : Holds ds s) (hd : d ∈ ds) :
    s.registry.getByName (Device.name d) = some d := by
  obtain ⟨i, hi⟩ := List.mem_iff_getElem?.mp hd
  have hindex : s.registry.nameIndex[Device.name d]? = some (idAt i) :=
    (h.index _ _).mpr ⟨i, by rw [hi]; rfl, rfl⟩
  rw [DeviceRegistry.getByName, hindex]
  exact (h.get _ _).mpr ⟨i, hi, rfl⟩

end SmallOs.Device
