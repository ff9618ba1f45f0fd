import Mathlib.Algebra.Group.Int.Defs
import Mathlib.Algebra.GroupWithZero.Nat
import Mathlib.Data.List.Infix
import Std.Data.TreeMap

/-!
# Partial maps

Two partial maps are inverse when each leads back along the other. Adding a pair of fresh keys
to both keeps them inverse, and so does taking a pair out of both. Ordered maps are partial maps
through their lookups; their entries form a list that an insertion or a removal changes by one.
-/

namespace SmallOs.Base

section Maps

variable {α β : Type} {f : α → Option β} {g : β → Option α} {a a' : α} {b : β}

/-- Each map leads back along the other. -/
def Inverse (f : α → Option β) (g : β → Option α) : Prop := ∀ a b, f a = some b ↔ g b = some a

/-- No two keys lead to the same value. -/
theorem Inverse.injective (h : Inverse f g) (ha : f a = some b) (ha' : f a' = some b) : a = a' := by
  have hb := (h a b).mp ha
  rw [(h a' b).mp ha'] at hb
  exact (Option.some.inj hb).symm

/-- A pair of fresh keys enters both maps. -/
theorem Inverse.insert [DecidableEq α] [DecidableEq β] (h : Inverse f g) (ha : f a = none)
    (hb : g b = none) :
    Inverse (fun x ↦ if a = x then some b else f x) fun y ↦ if b = y then some a else g y := by
  intro x y
  by_cases hx : a = x
  · subst hx
    by_cases hy : b = y
    · simp [hy]
    · have hya : g y ≠ some a := by
        intro hgy
        rw [(h a y).mpr hgy] at ha
        cases ha
      simp [hy, hya]
  · by_cases hy : b = y
    · subst hy
      have hxb : f x ≠ some b := by
        intro hfx
        rw [(h x b).mp hfx] at hb
        cases hb
      simp [hx, hxb]
    · simpa [hx, hy] using h x y

/-- A pair leaves both maps. -/
theorem Inverse.erase [DecidableEq α] [DecidableEq β] (h : Inverse f g) (ha : f a = some b) :
    Inverse (fun x ↦ if a = x then none else f x) fun y ↦ if b = y then none else g y := by
  have hb := (h a b).mp ha
  intro x y
  by_cases hx : a = x
  · subst hx
    by_cases hy : b = y
    · simp [hy]
    · have hya : g y ≠ some a := by
        intro hgy
        rw [(h a y).mpr hgy] at ha
        exact hy (Option.some.inj ha).symm
      simp [hy, hya]
  · by_cases hy : b = y
    · subst hy
      have hxb : f x ≠ some b := by
        intro hfx
        exact hx (h.injective ha hfx)
      simp [hx, hxb]
    · simpa [hx, hy] using h x y

end Maps

section Lookups

variable {κ ν : Type} [Ord κ] [Std.TransOrd κ] [Std.LawfulEqOrd κ] [DecidableEq κ]

/-- What a lookup finds after an insertion. -/
theorem getElem?_insert (t : Std.TreeMap κ ν) (k x : κ) (v : ν) :
    (t.insert k v)[x]? = if k = x then some v else t[x]? := by
  simp only [Std.TreeMap.getElem?_insert, Std.LawfulEqOrd.compare_eq_iff_eq]

/-- What a lookup finds after a removal. -/
theorem getElem?_erase (t : Std.TreeMap κ ν) (k x : κ) :
    (t.erase k)[x]? = if k = x then none else t[x]? := by
  simp only [Std.TreeMap.getElem?_erase, Std.LawfulEqOrd.compare_eq_iff_eq]

/-- The entries of a map with one key more. -/
theorem toList_insert_of_none {t : Std.TreeMap κ ν} {k : κ} (h : t[k]? = none) (v : ν) :
    (t.insert k v).toList.Perm ((k, v) :: t.toList) := by
  have hperm := Std.TreeMap.toList_insert_perm (t := t) (k := k) (v := v)
  rwa [List.filter_eq_self.mpr] at hperm
  intro e he
  have hlookup := Std.TreeMap.mem_toList_iff_getElem?_eq_some.mp he
  have hne : k ≠ e.1 := by
    intro hk
    rw [← hk, h] at hlookup
    cases hlookup
  simpa using hne

/-- The entries of a map with one key less. -/
theorem toList_of_getElem? {t : Std.TreeMap κ ν} {k : κ} {v : ν} (h : t[k]? = some v) :
    t.toList.Perm ((k, v) :: (t.erase k).toList) := by
  have hequiv : Std.TreeMap.Equiv ((t.erase k).insert k v) t := by
    apply Std.TreeMap.Equiv.of_forall_constGet?_eq
    intro x
    rw [getElem?_insert, getElem?_erase]
    by_cases hx : k = x
    · rw [if_pos hx, ← hx, h]
    · rw [if_neg hx, if_neg hx]
  rw [← hequiv.toList_eq]
  exact toList_insert_of_none Std.TreeMap.getElem?_erase_self v

omit [DecidableEq κ] in
/-- The keys of a map are the sorted list of its keys. -/
theorem keys_eq_of_sorted {t : Std.TreeMap κ ν} {l : List κ}
    (hsorted : l.Pairwise fun a b ↦ compare a b = .lt) (hmem : ∀ k, k ∈ t ↔ k ∈ l) : t.keys = l := by
  have hnodup : l.Nodup := by
    apply hsorted.imp
    intro a b hab heq
    rw [Std.LawfulEqOrd.compare_eq_iff_eq.mpr heq] at hab
    cases hab
  have hperm : t.keys.Perm l :=
    (List.perm_ext_iff_of_nodup Std.TreeMap.nodup_keys hnodup).mpr fun k ↦
      Std.TreeMap.mem_keys.trans (hmem k)
  apply hperm.eq_of_pairwise _ Std.TreeMap.ordered_keys hsorted
  intro a b _ _ hab hba
  rw [Std.OrientedOrd.eq_swap, hba] at hab
  cases hab

/-- What a lookup finds after insertions under other keys. -/
theorem getElem?_foldl_insert_of_notMem {α : Type} {key : α → κ} {value : α → ν} {l : List α}
    {k : κ} (t : Std.TreeMap κ ν) (h : ∀ a ∈ l, key a ≠ k) :
    (l.foldl (fun t a ↦ t.insert (key a) (value a)) t)[k]? = t[k]? := by
  induction l generalizing t with
  | nil => rfl
  | cons a l ih =>
    rw [List.foldl_cons, ih _ fun b hb ↦ h b (List.mem_cons_of_mem _ hb), getElem?_insert,
      if_neg (h a List.mem_cons_self)]

/-- What a lookup finds after insertions under different keys. -/
theorem getElem?_foldl_insert {α : Type} {key : α → κ} {value : α → ν} {l : List α}
    (t : Std.TreeMap κ ν) (hkeys : (l.map key).Nodup) {a : α} (ha : a ∈ l) :
    (l.foldl (fun t a ↦ t.insert (key a) (value a)) t)[key a]? = some (value a) := by
  induction l generalizing t with
  | nil => cases ha
  | cons b l ih =>
    obtain ⟨hb, hkeys⟩ := List.nodup_cons.mp hkeys
    rw [List.foldl_cons]
    rcases List.mem_cons.mp ha with rfl | ha
    · rw [getElem?_foldl_insert_of_notMem, getElem?_insert, if_pos rfl]
      intro c hc heq
      exact hb (heq ▸ List.mem_map_of_mem hc)
    · exact ih _ hkeys ha

/-- What is found after insertions was inserted or has been there before. -/
theorem exists_of_getElem?_foldl_insert {α : Type} {key : α → κ} {value : α → ν} {l : List α} {k : κ}
    {v : ν} {t : Std.TreeMap κ ν}
    (h : (l.foldl (fun t a ↦ t.insert (key a) (value a)) t)[k]? = some v) :
    (∃ a ∈ l, key a = k ∧ value a = v) ∨ t[k]? = some v := by
  induction l generalizing t with
  | nil => exact .inr h
  | cons a l ih =>
    rcases ih h with ⟨b, hb, hfound⟩ | hbefore
    · exact .inl ⟨b, List.mem_cons_of_mem _ hb, hfound⟩
    · rw [getElem?_insert] at hbefore
      split at hbefore
      · next hkey => exact .inl ⟨a, List.mem_cons_self, hkey, Option.some.inj hbefore⟩
      · exact .inr hbefore

end Lookups

end SmallOs.Base
