import SmallOs.Base.Bytes

/-!
# Loops that count

A loop over a range of numbers keeps an invariant that follows its counter. One that copies byte
after byte copies a window.
-/

namespace SmallOs.Base

variable {ε α β : Type}

namespace Outcome

/-- The invariant of a loop over the numbers from `a` on. -/
theorem returns_foldlM_range' {f : β → Nat → Outcome ε β} {P : Nat → β → Prop} {a n : Nat} {b : β}
    (hstep : ∀ i b, a ≤ i → i < a + n → P i b → Returns (f b i) (P (i + 1))) (hb : P a b) :
    Returns ((List.range' a n).foldlM f b) (P (a + n)) := by
  induction n generalizing a b with
  | zero => exact ⟨b, rfl, hb⟩
  | succ n ih =>
    rw [List.range'_succ, List.foldlM_cons]
    apply (hstep a b (Nat.le_refl a) (by omega) hb).bind
    intro b' hb'
    rw [Nat.add_comm n 1, ← Nat.add_assoc]
    apply ih _ hb'
    intro i b hi hi'
    exact hstep i b (by omega) (by omega)

/-- The invariant of a loop over the numbers from zero on. -/
theorem returns_foldlM_range {f : β → Nat → Outcome ε β} {P : Nat → β → Prop} {n : Nat} {b : β}
    (hstep : ∀ i b, i < n → P i b → Returns (f b i) (P (i + 1))) (hb : P 0 b) :
    Returns ((List.range n).foldlM f b) (P n) := by
  have hloop := @returns_foldlM_range' ε β f P 0 n b (by simpa using hstep) hb
  rwa [Nat.zero_add, ← List.range_eq_range'] at hloop

/-- The invariant of a loop over the items of a list with their places. -/
theorem returns_foldlM_zipIdx {f : β → α × Nat → Outcome ε β} {P : Nat → β → Prop} {l : List α}
    {b : β} (hstep : ∀ i b a, l[i]? = some a → P i b → Returns (f b (a, i)) (P (i + 1)))
    (hb : P 0 b) : Returns (l.zipIdx.foldlM f b) (P l.length) := by
  have hloop : ∀ (l' : List α) (k : Nat) (b : β),
      (∀ i b a, l'[i]? = some a → P (k + i) b → Returns (f b (a, k + i)) (P (k + i + 1))) →
      P k b → Returns ((l'.zipIdx k).foldlM f b) (P (k + l'.length)) := by
    intro l'
    induction l' with
    | nil => exact fun k b _ hb ↦ ⟨b, rfl, hb⟩
    | cons a l' ih =>
      intro k b hstep hb
      rw [List.zipIdx_cons, List.foldlM_cons]
      apply (hstep 0 b a rfl hb).bind
      intro b' hb'
      rw [List.length_cons, Nat.add_comm l'.length 1, ← Nat.add_assoc]
      apply ih _ _ _ hb'
      intro i b a' ha'
      rw [Nat.add_assoc k 1 i, Nat.add_comm 1 i]
      exact hstep (i + 1) b a' ha'
  have hall := hloop l 0 b
  simp only [Nat.zero_add] at hall
  exact hall hstep hb

/-- A fold beside one that cannot fail: what relates the two states, every step keeps. -/
theorem returns_foldlM_foldl {γ : Type} {f : β → α → Outcome ε β} {g : γ → α → γ}
    {R : β → γ → Prop} {l : List α} {b : β} {c : γ}
    (hstep : ∀ b c a, a ∈ l → R b c → Returns (f b a) fun b' ↦ R b' (g c a)) (hb : R b c) :
    Returns (l.foldlM f b) fun b' ↦ R b' (l.foldl g c) := by
  induction l generalizing b c with
  | nil => exact ⟨b, rfl, hb⟩
  | cons a l ih =>
    rw [List.foldlM_cons, List.foldl_cons]
    apply (hstep b c a List.mem_cons_self hb).bind
    intro b' hb'
    apply ih _ hb'
    intro b c a' ha'
    exact hstep b c a' (List.mem_cons_of_mem _ ha')

end Outcome

/-- Writing two windows side by side is writing one. -/
theorem splice_splice_next (b u v : List α) (off : Nat)
    (h : off + u.length + v.length ≤ b.length) :
    splice (splice b off u) (off + u.length) v = splice b off (u ++ v) := by
  have hu : off + u.length ≤ b.length := by omega
  have huv : off + (u ++ v).length ≤ b.length := by
    rw [List.length_append]
    omega
  apply List.ext_getElem?
  intro i
  rw [getElem?_splice _ _ _ _ (by rwa [length_splice _ _ _ hu]), getElem?_splice _ _ _ _ hu,
    getElem?_splice _ _ _ _ huv, List.length_append]
  by_cases hlow : off ≤ i ∧ i < off + u.length
  · have hin : off ≤ i ∧ i < off + (u.length + v.length) := by omega
    have hnot : ¬ (off + u.length ≤ i ∧ i < off + u.length + v.length) := by omega
    rw [if_neg hnot, if_pos hlow, if_pos hin, List.getElem?_append_left (by omega)]
  · rw [if_neg hlow]
    by_cases hhigh : off + u.length ≤ i ∧ i < off + u.length + v.length
    · have hin : off ≤ i ∧ i < off + (u.length + v.length) := by omega
      rw [if_pos hhigh, if_pos hin, List.getElem?_append_right (by omega), Nat.sub_sub]
    · have hnot : ¬ (off ≤ i ∧ i < off + (u.length + v.length)) := by omega
      rw [if_neg hhigh, if_neg hnot]

end SmallOs.Base
