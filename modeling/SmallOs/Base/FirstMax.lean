import Mathlib.Order.Basic

/-!
# The first of the greatest items

Of the items of a list with a property, the first one with the greatest value: how it changes with
one item more at the end, and that it is the only one.
-/

namespace SmallOs.Base

variable {α β : Type} [Preorder β] {p : α → Prop} {f : α → β} {l : List α} {a b : α}

/-- The item has the property; in front of it those with the property have smaller values, and
behind it none a greater one. -/
def FirstMax (p : α → Prop) (f : α → β) (l : List α) (a : α) : Prop :=
  ∃ front back, l = front ++ a :: back ∧ p a ∧ (∀ b ∈ front, p b → f b < f a) ∧
    ∀ b ∈ back, p b → f b ≤ f a

namespace FirstMax

theorem mem (h : FirstMax p f l a) : a ∈ l := by
  obtain ⟨front, back, rfl, -⟩ := h
  simp

theorem property (h : FirstMax p f l a) : p a := by
  obtain ⟨-, -, -, hp, -⟩ := h
  exact hp

/-- No item has a greater value. -/
theorem le (h : FirstMax p f l a) (hb : b ∈ l) (hp : p b) : f b ≤ f a := by
  obtain ⟨front, back, rfl, -, hfront, hback⟩ := h
  rw [List.mem_append, List.mem_cons] at hb
  rcases hb with hearlier | rfl | hlater
  · exact (hfront b hearlier hp).le
  · exact le_rfl
  · exact hback b hlater hp

/-- An item at the end with a greater value is the first of the greatest then. -/
theorem concat_of_lt (h : ∀ c ∈ l, p c → f c < f b) (hp : p b) : FirstMax p f (l ++ [b]) b :=
  ⟨l, [], rfl, hp, h, nofun⟩

/-- Any other item at the end changes nothing. -/
theorem concat_of_le (h : FirstMax p f l a) (hb : p b → f b ≤ f a) :
    FirstMax p f (l ++ [b]) a := by
  obtain ⟨front, back, rfl, hp, hfront, hback⟩ := h
  refine ⟨front, back ++ [b], by simp, hp, hfront, ?_⟩
  intro c hc
  rcases List.mem_append.mp hc with hc | hc
  · exact hback c hc
  · rw [List.mem_singleton.mp hc]
    exact hb

end FirstMax

end SmallOs.Base
