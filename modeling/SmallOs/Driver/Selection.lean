import Mathlib
import SmallOs.Base.FirstMax
import SmallOs.Driver.Registry

/-!
# The choice of a driver

`DriverRegistry::find_driver` over any drivers, with the rules and the priorities that they declare.
The loop starts from the smallest priority and asks for a greater one, so it never takes a driver
that declares that priority itself.
-/

namespace SmallOs.Driver

open SmallOs.Base

/-- What the choice reads of the trait; `lib/driver/src/lib.rs:37–62`. -/
class DriverTrait (D : Type) where
  rules : D → List MatchRule
  priority : D → Int32

/-- The drivers of `lib/driver/src/block` keep the default priority. -/
instance : DriverTrait Driver where
  rules := Driver.rules
  priority _ := 0

open DriverTrait

section Selection

variable {D : Type} [DriverTrait D]

/-- A rule of the driver matches the device; `lib/driver/src/registry.rs:173–176`. -/
def Candidate (info : PciInfo) (driver : D) : Prop :=
  (rules driver).any (MatchRule.matchesPci info) = true

instance (info : PciInfo) (driver : D) : Decidable (Candidate info driver) :=
  inferInstanceAs (Decidable (_ = true))

/-- One round of the loop; `lib/driver/src/registry.rs:172–182`. -/
def considerDriver (info : PciInfo) (best : Option D × Int32) (driver : D) : Option D × Int32 :=
  if Candidate info driver ∧ best.2 < priority driver then (some driver, priority driver) else best

/-- `lib/driver/src/registry.rs:152–186`, of the drivers that are registered. -/
def selectDriver (drivers : List D) (device : Option PciInfo) : Except DriverError D :=
  let best := match device with
    | some info => (drivers.foldl (considerDriver info) (none, Int32.minValue)).1
    | none => none
  match best with
  | some driver => .ok driver
  | none => .error .noDriverFound

/-- What the choice should be: the first of the matching drivers with the greatest priority, or an
error where no driver matches, and drivers that do not match make no difference. -/
structure SelectsArgmax (drivers : List D) (info : PciInfo) : Prop where
  first : ∀ driver, selectDriver drivers (some info) = .ok driver →
    FirstMax (Candidate info) (fun d ↦ (priority d).toInt) drivers driver
  none : selectDriver drivers (some info) = .error .noDriverFound ↔
    ∀ driver ∈ drivers, ¬ Candidate info driver
  others : ∀ front back driver, drivers = front ++ back → ¬ Candidate info driver →
    selectDriver (front ++ driver :: back) (some info) = selectDriver drivers (some info)

variable {info : PciInfo} {drivers : List D} {driver : D}

theorem eq_minValue_of_not_lt {x : Int32} (h : ¬ Int32.minValue < x) : x = Int32.minValue := by
  have hle := Int32.minValue_le_toInt x
  rw [Int32.lt_iff_toInt_lt] at h
  exact Int32.toInt_inj.mp (by omega)

/-- The best driver of those seen so far is the first of the greatest, and without one every
priority of a candidate is the smallest. -/
def BestSoFar (info : PciInfo) (drivers : List D) : Option D × Int32 → Prop
  | (none, top) => top = Int32.minValue ∧
      ∀ d ∈ drivers, Candidate info d → priority d = Int32.minValue
  | (some d, top) => top = priority d ∧ priority d ≠ Int32.minValue ∧
      FirstMax (Candidate info) (fun d ↦ (priority d).toInt) drivers d

/-- The loop keeps the best driver so far. -/
theorem foldl_considerDriver (info : PciInfo) (drivers : List D) :
    BestSoFar info drivers (drivers.foldl (considerDriver info) (none, Int32.minValue)) := by
  induction drivers using List.reverseRecOn with
  | nil => exact ⟨rfl, nofun⟩
  | append_singleton drivers d ih =>
    rw [List.foldl_append, List.foldl_cons, List.foldl_nil]
    generalize drivers.foldl (considerDriver info) (none, Int32.minValue) = state at ih ⊢
    obtain ⟨_ | best, top⟩ := state
    · obtain ⟨rfl, hall⟩ := ih
      rw [considerDriver]
      split
      · next htaken =>
        refine ⟨rfl, ?_, FirstMax.concat_of_lt ?_ htaken.1⟩
        · intro hmin
          rw [hmin] at htaken
          exact Int32.lt_irrefl htaken.2
        · intro c hc hcand
          rw [hall c hc hcand]
          exact Int32.lt_iff_toInt_lt.mp htaken.2
      · next hnot =>
        refine ⟨rfl, ?_⟩
        intro c hc hcand
        rcases List.mem_append.mp hc with hc | hc
        · exact hall c hc hcand
        · obtain rfl := List.mem_singleton.mp hc
          exact eq_minValue_of_not_lt fun hlt ↦ hnot ⟨hcand, hlt⟩
    · obtain ⟨rfl, hmin, hbest⟩ := ih
      rw [considerDriver]
      split
      · next htaken =>
        have hlt : (priority best).toInt < (priority d).toInt :=
          Int32.lt_iff_toInt_lt.mp htaken.2
        refine ⟨rfl, ?_, FirstMax.concat_of_lt ?_ htaken.1⟩
        · intro hmin
          rw [hmin] at hlt
          have hle := Int32.minValue_le_toInt (priority best)
          omega
        · intro c hc hcand
          exact lt_of_le_of_lt (hbest.le hc hcand) hlt
      · next hnot =>
        refine ⟨rfl, hmin, hbest.concat_of_le ?_⟩
        intro hcand
        apply Int.not_lt.mp
        intro hlt
        exact hnot ⟨hcand, Int32.lt_iff_toInt_lt.mpr hlt⟩

/-- A driver that is chosen is the first of the greatest; without one, all candidates have the
smallest priority. -/
theorem selectDriver_cases (info : PciInfo) (drivers : List D) :
    (selectDriver drivers (some info) = .error .noDriverFound ∧
        ∀ d ∈ drivers, Candidate info d → priority d = Int32.minValue) ∨
      ∃ d, selectDriver drivers (some info) = .ok d ∧ priority d ≠ Int32.minValue ∧
        FirstMax (Candidate info) (fun d ↦ (priority d).toInt) drivers d := by
  have hfold := foldl_considerDriver info drivers
  rw [selectDriver]
  generalize drivers.foldl (considerDriver info) (none, Int32.minValue) = state at hfold ⊢
  obtain ⟨_ | best, top⟩ := state
  · exact .inl ⟨rfl, hfold.2⟩
  · exact .inr ⟨best, rfl, hfold.2⟩

/-- A driver that does not match is passed over. -/
theorem selectDriver_insert {front back : List D} (h : ¬ Candidate info driver) :
    selectDriver (front ++ driver :: back) (some info) =
      selectDriver (front ++ back) (some info) := by
  have hstep : ∀ best, considerDriver info best driver = best := by
    intro best
    rw [considerDriver, if_neg fun hboth ↦ h hboth.1]
  simp only [selectDriver, List.foldl_append, List.foldl_cons, hstep]

/-- For every list of drivers and every device, the choice is as it should be exactly when no driver
matches, or one that matches declares a priority other than the smallest. -/
theorem selectsArgmax_iff (drivers : List D) (info : PciInfo) : SelectsArgmax drivers info ↔
    ((∃ d ∈ drivers, Candidate info d) →
      ∃ d ∈ drivers, Candidate info d ∧ priority d ≠ Int32.minValue) := by
  have hothers : ∀ front back driver, drivers = front ++ back → ¬ Candidate info driver →
      selectDriver (front ++ driver :: back) (some info) = selectDriver drivers (some info) := by
    intro front back driver hsplit hnot
    rw [selectDriver_insert hnot, hsplit]
  rcases selectDriver_cases info drivers with ⟨herror, hall⟩ | ⟨best, hbest, hmin, hfirst⟩
  · constructor
    · intro h hmatch
      obtain ⟨d, hd, hcand⟩ := hmatch
      exact absurd hcand (h.none.mp herror d hd)
    · intro h
      refine ⟨?_, ?_, hothers⟩
      · intro driver hok
        rw [herror] at hok
        cases hok
      · refine iff_of_true herror ?_
        intro d hd hcand
        obtain ⟨d', hd', hcand', hne⟩ := h ⟨d, hd, hcand⟩
        exact hne (hall d' hd' hcand')
  · refine iff_of_true ⟨?_, ?_, hothers⟩ fun _ ↦ ⟨best, hfirst.mem, hfirst.property, hmin⟩
    · intro driver hok
      rw [hbest] at hok
      cases hok
      exact hfirst
    · apply iff_of_false
      · rw [hbest]
        exact nofun
      · intro hnone
        exact hnone best hfirst.mem hfirst.property

end Selection

/-- The choice among the drivers of the registry. -/
theorem findDriver_eq {H : Type} (r : DriverRegistry H) (device : Option PciInfo) :
    r.findDriver device = selectDriver r.drivers device := by
  cases device with
  | none => rfl
  | some info =>
    have hfold : ∀ (drivers : List Driver) best (top : Int32),
        (drivers.foldl (DriverRegistry.consider info) (best, top.toInt)).1 =
          (drivers.foldl (considerDriver info) (best, top)).1 := by
      intro drivers
      induction drivers with
      | nil => exact fun best top ↦ rfl
      | cons d drivers ih =>
        intro best top
        rw [List.foldl_cons, List.foldl_cons, DriverRegistry.consider, considerDriver]
        by_cases htaken : Candidate info d ∧ top < priority d
        · have hint : top.toInt < d.priority := Int32.lt_iff_toInt_lt.mp htaken.2
          rw [if_pos ⟨htaken.1, hint⟩, if_pos htaken]
          exact ih (some d) 0
        · rw [if_neg fun h ↦ htaken ⟨h.1, Int32.lt_iff_toInt_lt.mpr h.2⟩, if_neg htaken]
          exact ih best top
    have hbest : (r.drivers.foldl (DriverRegistry.consider info) (none, -2 ^ 31)).1 =
        (r.drivers.foldl (considerDriver info) (none, Int32.minValue)).1 :=
      hfold r.drivers none Int32.minValue
    simp only [DriverRegistry.findDriver, selectDriver, hbest]
    cases (r.drivers.foldl (considerDriver info) (none, Int32.minValue)).1 with
    | none => rfl
    | some driver => rfl

/-- A driver by what it declares. -/
structure Declared where
  rules : List MatchRule
  priority : Int32

instance : DriverTrait Declared := ⟨Declared.rules, Declared.priority⟩

/-- A driver for the device that declares the smallest priority is not found. -/
theorem not_selectsArgmax_least :
    ¬ ∀ (drivers : List Declared) info, SelectsArgmax drivers info := by
  intro hall
  have h := (hall [⟨[.pciClass 1 6], Int32.minValue⟩] ⟨0x8086, 0x2922, 1, 6⟩).none.mp rfl
  exact h ⟨[.pciClass 1 6], Int32.minValue⟩ List.mem_cons_self rfl

end SmallOs.Driver
