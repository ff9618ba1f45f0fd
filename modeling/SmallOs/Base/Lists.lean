import Mathlib.Algebra.Group.Int.Defs
import Mathlib.Algebra.GroupWithZero.Nat
import Mathlib.Data.List.Infix

/-!
# Lists

Relations between any two items of a list, lists that cover one another, what is taken from the
front of a list, vectors of a fixed capacity, and what is drawn from items with distinct keys.
-/

namespace SmallOs.Base

variable {α : Type}

/-- A symmetric relation between the items in order relates any two different ones. -/
theorem rel_of_ne {R : α → α → Prop} (symm : ∀ a b, R a b → R b a) {l : List α} (h : l.Pairwise R)
    {a b : α} (ha : a ∈ l) (hb : b ∈ l) (hne : a ≠ b) : R a b := by
  have hforward : l.Pairwise fun a b ↦ a = b ∨ R a b := h.imp Or.inr
  have hbackward : l.Pairwise (flip fun a b ↦ a = b ∨ R a b) := by
    apply h.imp
    intro a b hab
    exact Or.inr (symm a b hab)
  have hself : ∀ a ∈ l, a = a ∨ R a a := fun _ _ ↦ Or.inl rfl
  exact (List.Pairwise.forall_of_forall_of_flip hself hforward hbackward ha hb).resolve_left hne

/-- Distinct items of a list that is not longer are all of its items. -/
theorem subset_of_length_le {l l' : List α} (hn : l.Nodup) (hsub : l ⊆ l')
    (hlen : l'.length ≤ l.length) : l' ⊆ l := by
  intro a ha
  apply Classical.byContradiction
  intro hnot
  have hcons : (a :: l).Nodup := List.nodup_cons.mpr ⟨hnot, hn⟩
  have hle := hcons.length_le_of_subset (List.cons_subset.mpr ⟨ha, hsub⟩)
  rw [List.length_cons] at hle
  omega

/-- What is taken from the front lies before any item that stops it. -/
theorem mem_of_mem_takeWhile {p : α → Bool} {pre post : List α} {a b : α} (hb : p b = false)
    (h : a ∈ (pre ++ b :: post).takeWhile p) : a ∈ pre := by
  induction pre with
  | nil =>
    rw [List.nil_append, List.takeWhile_cons, hb] at h
    exact h
  | cons c pre ih =>
    rw [List.cons_append, List.takeWhile_cons] at h
    by_cases hc : p c = true
    · rw [if_pos hc] at h
      exact List.mem_cons.mpr ((List.mem_cons.mp h).imp_right ih)
    · rw [if_neg hc] at h
      cases h

/-- A list with an item in it is not empty. -/
theorem nil_ne_append_cons {l₁ l₂ : List α} {a : α} : [] ≠ l₁ ++ a :: l₂ := by
  intro h
  exact List.append_ne_nil_of_right_ne_nil l₁ (List.cons_ne_nil a l₂) h.symm

/-- A search stops in the front of a list where it stops in the whole list, when it stops there. -/
theorem find?_takeWhile_eq_iff {p q : α → Bool} {l : List α} :
    (l.takeWhile p).find? q = l.find? q ↔
      ∀ before a after, l = before ++ a :: after → q a = true → (∀ b ∈ before, q b = false) →
        p a = true ∧ ∀ b ∈ before, p b = true := by
  induction l with
  | nil =>
    refine iff_of_true rfl fun before a after h ↦ ?_
    exact absurd h nil_ne_append_cons
  | cons x l ih =>
    by_cases hq : q x = true
    · rw [List.find?_cons_of_pos hq]
      constructor
      · intro h before a after hsplit _ hbefore
        have hx : p x = true := by
          by_contra hp
          rw [List.takeWhile_cons, if_neg hp] at h
          cases h
        cases before with
        | nil =>
          obtain ⟨rfl, -⟩ := List.cons.inj hsplit
          exact ⟨hx, fun b hb ↦ absurd hb List.not_mem_nil⟩
        | cons b before =>
          obtain ⟨rfl, -⟩ := List.cons.inj hsplit
          rw [hbefore x List.mem_cons_self] at hq
          cases hq
      · intro h
        have hx := (h [] x l rfl hq fun b hb ↦ absurd hb List.not_mem_nil).1
        rw [List.takeWhile_cons, if_pos hx, List.find?_cons_of_pos hq]
    · rw [List.find?_cons_of_neg hq]
      by_cases hp : p x = true
      · rw [List.takeWhile_cons, if_pos hp, List.find?_cons_of_neg hq, ih]
        constructor
        · intro h before a after hsplit ha hbefore
          cases before with
          | nil =>
            obtain ⟨rfl, -⟩ := List.cons.inj hsplit
            exact absurd ha hq
          | cons b before =>
            obtain ⟨rfl, hrest⟩ := List.cons.inj hsplit
            obtain ⟨hpa, hall⟩ :=
              h before a after hrest ha fun b hb ↦ hbefore b (List.mem_cons_of_mem _ hb)
            exact ⟨hpa, List.forall_mem_cons.mpr ⟨hp, hall⟩⟩
        · intro h before a after hsplit ha hbefore
          obtain ⟨hpa, hall⟩ := h (x :: before) a after (by rw [hsplit]; rfl) ha
            (List.forall_mem_cons.mpr ⟨Bool.eq_false_iff.mpr hq, hbefore⟩)
          exact ⟨hpa, fun b hb ↦ hall b (List.mem_cons_of_mem _ hb)⟩
      · rw [List.takeWhile_cons, if_neg hp, List.find?_nil]
        constructor
        · intro h before a after hsplit ha _
          cases before with
          | nil =>
            obtain ⟨rfl, -⟩ := List.cons.inj hsplit
            exact absurd ha hq
          | cons b before =>
            obtain ⟨-, rfl⟩ := List.cons.inj hsplit
            have hmem : a ∈ before ++ a :: after := List.mem_append_right _ List.mem_cons_self
            exact absurd ha (List.find?_eq_none.mp h.symm a hmem)
        · intro h
          cases hfound : l.find? q with
          | none => rfl
          | some a =>
            obtain ⟨ha, before, after, hsplit, hbefore⟩ := List.find?_eq_some_iff_append.mp hfound
            have hfalse : ∀ b ∈ before, q b = false := fun b hb ↦ by simpa using hbefore b hb
            have hall := (h (x :: before) a after (by rw [hsplit]; rfl) ha
              (List.forall_mem_cons.mpr ⟨Bool.eq_false_iff.mpr hq, hfalse⟩)).2
            exact absurd (hall x List.mem_cons_self) hp

/-- Where a list stops having a property, both of its parts are known. -/
theorem takeWhile_dropWhile_append {p : α → Bool} {pre post : List α} (hpre : ∀ a ∈ pre, p a = true)
    (hpost : ∀ a, post.head? = some a → p a = false) :
    (pre ++ post).takeWhile p = pre ∧ (pre ++ post).dropWhile p = post := by
  rw [List.takeWhile_append_of_pos hpre, List.dropWhile_append_of_pos hpre]
  cases post with
  | nil => simp
  | cons a post =>
    have ha := hpost a rfl
    simp [ha]

/-- Push onto a vector of a fixed capacity; a full one stays as it is. -/
def pushWithin (capacity : Nat) (items : List α) (a : α) : List α :=
  if items.length < capacity then items ++ [a] else items

/-- Pushing keeps the front of what has been pushed in all. -/
theorem pushWithin_take {capacity : Nat} {items : List α} {a : α} :
    pushWithin capacity (items.take capacity) a = (items ++ [a]).take capacity := by
  unfold pushWithin
  rw [List.length_take]
  split
  · rw [List.take_of_length_le (by omega), List.take_of_length_le]
    rw [List.length_append, List.length_singleton]
    omega
  · rw [List.take_append_of_le_length (by omega)]

section Drawn

variable {β κ : Type} [DecidableEq κ] {f : α → List β} {key : α → κ} {of : β → κ}

/-- What is drawn from none of the items of a list is not among what is drawn from them. -/
theorem filter_flatMap_of_not_mem
    (hf : ∀ a, ∀ b ∈ f a, of b = key a) {l : List α} {k : κ} (h : k ∉ l.map key) :
    (l.flatMap f).filter (fun b ↦ of b = k) = [] := by
  apply List.filter_eq_nil_iff.mpr
  intro b hb
  obtain ⟨a, ha, hab⟩ := List.mem_flatMap.mp hb
  have hne : of b ≠ k := by
    rintro rfl
    exact h (List.mem_map.mpr ⟨a, ha, (hf a b hab).symm⟩)
  simpa using hne

/-- What is drawn from an item of its own key is drawn from that item. -/
theorem filter_flatMap_of_mem
    (hf : ∀ a, ∀ b ∈ f a, of b = key a) {l : List α} (hl : (l.map key).Nodup) {a : α}
    (ha : a ∈ l) : (l.flatMap f).filter (fun b ↦ of b = key a) = f a := by
  induction l with
  | nil => cases ha
  | cons c l ih =>
    obtain ⟨hc, hl⟩ := List.nodup_cons.mp hl
    rw [List.flatMap_cons, List.filter_append]
    rcases List.mem_cons.mp ha with rfl | ha
    · rw [filter_flatMap_of_not_mem hf hc, List.append_nil]
      apply List.filter_eq_self.mpr
      intro b hb
      simpa using hf a b hb
    · have hne : key c ≠ key a := by
        intro heq
        exact hc (heq ▸ List.mem_map_of_mem ha)
      rw [ih hl ha, List.filter_eq_nil_iff.mpr, List.nil_append]
      intro b hb
      rw [hf c b hb]
      simpa using hne

end Drawn

/-- Looking every item up by its key gives its own value exactly when equal keys have equal
values. -/
theorem find?_key_iff {β γ : Type} [DecidableEq β] {key : α → β} {value : α → γ} {l : List α} :
    (∀ a ∈ l, (l.find? fun b ↦ key b = key a).map value = some (value a)) ↔
      ∀ a ∈ l, ∀ b ∈ l, key a = key b → value a = value b := by
  constructor
  · intro h a ha b hb hkey
    have hfirst := h a ha
    rw [hkey, h b hb] at hfirst
    exact (Option.some.inj hfirst).symm
  · intro h a ha
    have hself : (l.find? fun b ↦ key b = key a).isSome = true :=
      List.find?_isSome.mpr ⟨a, ha, decide_eq_true rfl⟩
    obtain ⟨first, hfirst⟩ := Option.isSome_iff_exists.mp hself
    have hkey : key first = key a := of_decide_eq_true (List.find?_some hfirst :)
    rw [hfirst, Option.map_some, h first (List.mem_of_find?_eq_some hfirst) a ha hkey]

/-- Concatenations of parts of equal lengths are equal part by part. -/
theorem flatMap_eq_flatMap_iff {β : Type} {f g : α → List β} {l : List α}
    (hlen : ∀ a ∈ l, (f a).length = (g a).length) :
    l.flatMap f = l.flatMap g ↔ ∀ a ∈ l, f a = g a := by
  constructor
  · intro h
    induction l with
    | nil => nofun
    | cons a l ih =>
      rw [List.flatMap_cons, List.flatMap_cons] at h
      obtain ⟨ha, hl⟩ := List.append_inj h (hlen a List.mem_cons_self)
      intro b hb
      rcases List.mem_cons.mp hb with rfl | hb
      · exact ha
      · exact ih (fun c hc ↦ hlen c (List.mem_cons_of_mem _ hc)) hl b hb
  · intro h
    rw [List.flatMap_def, List.flatMap_def, List.map_congr_left h]

end SmallOs.Base
