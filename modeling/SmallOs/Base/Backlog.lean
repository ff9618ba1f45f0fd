import Mathlib.Algebra.Group.Int.Defs
import Mathlib.Algebra.GroupWithZero.Nat
import Mathlib.Algebra.Ring.Int.Defs
import Mathlib.Data.List.Infix

/-!
# The backlog of a queue

How long a queue is after a sequence of changes, where taking from an empty queue changes
nothing. It is at most `n` exactly when no last stretch of the changes sums up to more.
-/

namespace SmallOs.Base

/-- The length of a queue of length `q` after changes by the given differences. -/
def backlog (q : Int) (changes : List Int) : Int := changes.foldl (fun q d ↦ max 0 (q + d)) q

@[simp] theorem backlog_nil {q : Int} : backlog q [] = q := rfl

@[simp] theorem backlog_cons {q d : Int} {changes : List Int} :
    backlog q (d :: changes) = backlog (max 0 (q + d)) changes := rfl

theorem backlog_append {q d : Int} {changes : List Int} :
    backlog q (changes ++ [d]) = max 0 (backlog q changes + d) := by
  simp [backlog]

/-- The backlog is at most `n` if all changes together, and every last stretch of them alone, lead
to at most `n`. -/
theorem backlog_le_iff {q n : Int} (hq : 0 ≤ q) {changes : List Int} :
    backlog q changes ≤ n ↔
      q + changes.sum ≤ n ∧ ∀ recent, recent <:+ changes → recent.sum ≤ n := by
  induction changes generalizing q with
  | nil =>
    simp only [backlog_nil, List.sum_nil, List.suffix_nil, forall_eq]
    omega
  | cons d changes ih =>
    rw [backlog_cons, ih (Int.le_max_left 0 _)]
    simp only [List.suffix_cons_iff, List.sum_cons]
    constructor
    · rintro ⟨hall, hrecent⟩
      refine ⟨by omega, ?_⟩
      rintro recent (rfl | hsuffix)
      · rw [List.sum_cons]
        omega
      · exact hrecent recent hsuffix
    · rintro ⟨hall, hrecent⟩
      have hrest := hrecent changes (.inr List.suffix_rfl)
      exact ⟨by omega, fun recent hsuffix ↦ hrecent recent (.inr hsuffix)⟩

/-- The backlog of a queue that starts empty. -/
theorem backlog_zero_le_iff {n : Int} {changes : List Int} :
    backlog 0 changes ≤ n ↔ ∀ recent, recent <:+ changes → recent.sum ≤ n := by
  rw [backlog_le_iff (Int.le_refl 0), Int.zero_add]
  constructor
  · rintro ⟨-, hrecent⟩
    exact hrecent
  · intro hrecent
    exact ⟨hrecent changes List.suffix_rfl, hrecent⟩

end SmallOs.Base
