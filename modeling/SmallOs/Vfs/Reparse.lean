import SmallOs.Vfs.Path

/-!
# Paths that are read back

The text of a path is the key of the mount table, and other parts of the system parse it again. It
determines the path, and it parses as that path unless it is empty: `parent` goes from a relative
path of one name to one without names, whose text `Path::new` does not accept.
-/

namespace SmallOs.Vfs

namespace Path

/-- The paths that programs can have: what `new` returns, and the parents of such paths. -/
inductive Reachable : Path → Prop
  | new {s : Text} {p : Path} (h : Path.new s = .ok p) : Reachable p
  | parent {p q : Path} (hp : Reachable p) (h : p.parent = some q) : Reachable q

/-- The text of a path parses, as a path with the same names and the same absoluteness. -/
def Reparses (p : Path) : Prop :=
  ∃ q, Path.new p.toString = .ok q ∧ q.components = p.components ∧ q.absolute = p.absolute

variable {p : Path}

theorem toString_eq_nil_iff : p.toString = [] ↔ p.absolute = false ∧ p.components = [] := by
  rw [toString]
  by_cases ha : p.absolute = true
  · simp [ha]
  · rw [if_neg ha]
    rw [Bool.not_eq_true] at ha
    simp only [ha, true_and]
    constructor
    · intro h
      by_contra hne
      exact join_ne_nil p.names hne h
    · intro h
      simp [h]

/-- A text that is not empty parses as the path that it is of. -/
theorem new_toString (h : p.toString ≠ []) : Path.new p.toString = .ok p := by
  rw [Path.new, if_neg h, Except.ok.injEq]
  apply Path.ext
  · exact split_toString p
  · have hhead := head?_toString p
    by_cases ha : p.absolute = true
    · simp [ha, hhead.mpr ha]
    · simp [ha, mt hhead.mp ha]

/-- A path is read back exactly when it is absolute or has a name. -/
theorem reparses_iff_named : Reparses p ↔ p.absolute = true ∨ p.components ≠ [] := by
  constructor
  · rintro ⟨r, hr, -⟩
    by_contra hcond
    rw [not_or, not_not, Bool.not_eq_true] at hcond
    rw [toString_eq_nil_iff.mpr hcond, Path.new, if_pos rfl] at hr
    cases hr
  · intro hcond
    refine ⟨p, new_toString ?_, rfl, rfl⟩
    intro hnil
    obtain ⟨ha, hc⟩ := toString_eq_nil_iff.mp hnil
    simp [ha, hc] at hcond

/-- So is every path that can be reached, and no other such path has the same text. -/
theorem reparses_iff (_hp : Reachable p) :
    (Reparses p ↔ p.absolute = true ∨ p.components ≠ []) ∧
      ∀ q, Reachable q → p.toString = q.toString → p = q := by
  constructor
  · exact reparses_iff_named
  · intro q _
    exact toString_inj

/-- The relative path of one name. -/
def oneName : Path := ⟨[['a']], false, by decide⟩

theorem reachable_oneName : Reachable oneName := .new (s := ['a']) rfl

/-- Such a path is read back. -/
theorem reparses_iff_oneName : Reparses oneName :=
  (reparses_iff reachable_oneName).1.mpr (Or.inr (by decide))

/-- Its parent is not. -/
theorem not_reparses_parent : ¬ ∀ p, Reachable p → Reparses p := by
  intro hall
  obtain ⟨q, hq, -⟩ := hall ⟨[], false, nofun⟩ (.parent reachable_oneName rfl)
  cases hq

end Path

end SmallOs.Vfs
