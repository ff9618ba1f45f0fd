import Mathlib.Algebra.Group.Int.Defs
import Mathlib.Algebra.GroupWithZero.Nat
import Mathlib.Data.List.Infix

/-!
# Replacing a pattern in a list

Every occurrence of a pattern is replaced, from left to right and without overlaps. A list without
an occurrence stays as it is, and one with an occurrence loses what the replacement does not
bring back.
-/

namespace SmallOs.Base

variable {α : Type} [DecidableEq α]

/-- Go on behind the rest of a match, and replace each match of `pat` by `new`. -/
def replaceFrom (pat new : List α) : Nat → List α → List α
  | _, [] => []
  | skip + 1, _ :: s => replaceFrom pat new skip s
  | 0, a :: s =>
    if pat <+: a :: s then new ++ replaceFrom pat new (pat.length - 1) s
    else a :: replaceFrom pat new 0 s

/-- `str::replace`, for a pattern that is not empty. -/
def replace (pat new s : List α) : List α := replaceFrom pat new 0 s

variable {pat new s : List α} {a : α}

theorem replaceFrom_eq_drop (skip : Nat) :
    replaceFrom pat new skip s = replaceFrom pat new 0 (s.drop skip) := by
  induction skip generalizing s with
  | zero => rw [List.drop_zero]
  | succ skip ih =>
    cases s with
    | nil =>
      rw [List.drop_nil]
      rfl
    | cons b s => exact ih

/-- A list without an occurrence stays as it is. -/
theorem replace_of_not_infix (h : ¬ pat <:+: s) : replace pat new s = s := by
  induction s with
  | nil => rfl
  | cons b s ih =>
    rw [List.infix_cons_iff, not_or] at h
    rw [replace, replaceFrom, if_neg h.1]
    exact congrArg (b :: ·) (ih h.2)

/-- A match of the pattern at the front is replaced, and the rest is searched. -/
theorem replace_of_match {rest : List α} (hpat : pat ≠ []) :
    replace pat new (pat ++ rest) = new ++ replace pat new rest := by
  cases pat with
  | nil => exact absurd rfl hpat
  | cons b pat =>
    have hprefix : b :: pat <+: b :: (pat ++ rest) := List.prefix_append (b :: pat) rest
    rw [replace, List.cons_append, replaceFrom, if_pos hprefix, replaceFrom_eq_drop,
      List.length_cons, Nat.add_sub_cancel, List.drop_left]
    rfl

/-- Where the pattern holds an item more often than the replacement, the item gets no more
frequent, and rarer if the pattern occurs. -/
theorem count_replace (hpat : new.count a < pat.count a) (s : List α) :
    (replace pat new s).count a ≤ s.count a ∧
      (pat <:+: s → (replace pat new s).count a < s.count a) := by
  have hne : pat ≠ [] := by
    rintro rfl
    exact absurd hpat (Nat.not_lt_zero _)
  induction hlen : s.length using Nat.strongRecOn generalizing s with
  | ind n ih =>
  cases s with
  | nil => exact ⟨Nat.le_refl _, fun h ↦ absurd (List.infix_nil.mp h) hne⟩
  | cons b s =>
    by_cases hmatch : pat <+: b :: s
    · obtain ⟨rest, hrest⟩ := hmatch
      have hpos := List.length_pos_of_ne_nil hne
      have hshort : rest.length < n := by
        rw [← hlen, ← hrest, List.length_append]
        omega
      have hle := (ih _ hshort rest rfl).1
      rw [← hrest, replace_of_match hne, List.count_append, List.count_append]
      exact ⟨by omega, fun _ ↦ by omega⟩
    · have hreplace : replace pat new (b :: s) = b :: replace pat new s := by
        rw [replace, replaceFrom, if_neg hmatch]
        rfl
      have hshort : s.length < n := by
        rw [← hlen, List.length_cons]
        omega
      obtain ⟨hle, hlt⟩ := ih _ hshort s rfl
      rw [hreplace, List.count_cons, List.count_cons]
      refine ⟨by omega, ?_⟩
      intro hinfix
      have hinside := (List.infix_cons_iff.mp hinfix).resolve_left hmatch
      have := hlt hinside
      omega

end SmallOs.Base
