import SmallOs.Vfs.Path
import Std.Data.TreeMap

/-!
# The mount table

`lib/vfs/src/mount.rs`: filesystems under the texts of the paths they are mounted at, and two
walks over the table that keep the last entry that is at least as long as the best one so far.
-/

namespace SmallOs.Vfs

/-- `lib/vfs/src/mount.rs:11–13`; the filesystems are of any type. -/
structure MountTable (F : Type) where
  mounts : Std.TreeMap Text F

namespace MountTable

variable {F : Type}

/-- `lib/vfs/src/mount.rs:16`. -/
def new : MountTable F := ⟨∅⟩

/-- `lib/vfs/src/mount.rs:18–25`. -/
def mount (t : MountTable F) (fs : F) (path : Path) : Except FsError Unit × MountTable F :=
  let key := path.toString
  if t.mounts.contains key then (.error .mountFailed, t)
  else (.ok (), ⟨t.mounts.insert key fs⟩)

/-- `lib/vfs/src/mount.rs:27–30`. -/
def unmount (t : MountTable F) (path : Path) : Except FsError Unit × MountTable F :=
  if t.mounts.contains path.toString then (.ok (), ⟨t.mounts.erase path.toString⟩)
  else (.error .notFound, t)

/-- One round of the loop: the best match so far and its length. -/
def consider {β : Type} (keep : Text → F → β) (pathStr : Text) (best : Option β × Nat)
    (entry : Text × F) : Option β × Nat :=
  if entry.1.isPrefixOf pathStr ∧ best.2 ≤ Text.len entry.1 then
    (some (keep entry.1 entry.2), Text.len entry.1)
  else best

/-- The loop over the table, in the order of its keys; both lookups run it and keep something
else of the best match. -/
def bestMatch {β : Type} (t : MountTable F) (keep : Text → F → β) (pathStr : Text) : Option β :=
  (t.mounts.toList.foldl (consider keep pathStr) (none, 0)).1

/-- `lib/vfs/src/mount.rs:33–57`. -/
def resolve (t : MountTable F) (path : Path) : Except FsError (F × Path) := do
  let pathStr := path.toString
  match t.bestMatch Prod.mk pathStr with
  | none => throw .notFound
  | some (mountStr, fs) =>
    let relPath ← if Text.len mountStr < Text.len pathStr then
        Path.new (pathStr.drop mountStr.length)
      else Path.new ['/']
    return (fs, relPath)

/-- `lib/vfs/src/mount.rs:60–75`. -/
def findMount (t : MountTable F) (path : Path) : Except FsError F :=
  match t.bestMatch (fun _ fs ↦ fs) path.toString with
  | none => throw .notFound
  | some fs => return fs

/-! ### Tables that are built -/

/-- A table that a sequence of calls leaves behind. -/
inductive Built : MountTable F → Prop where
  | new : Built new
  | mount {t : MountTable F} (h : Built t) (fs : F) (path : Path) : Built (t.mount fs path).2
  | unmount {t : MountTable F} (h : Built t) (path : Path) : Built (t.unmount path).2

/-- A filesystem is mounted at a path. -/
def Mounted (t : MountTable F) (path : Path) (fs : F) : Prop :=
  t.mounts[path.toString]? = some fs

/-- Every key of a built table is the text of a path. -/
theorem Built.key {t : MountTable F} (h : Built t) {key : Text} {fs : F}
    (hk : t.mounts[key]? = some fs) : ∃ path : Path, path.toString = key := by
  induction h generalizing fs with
  | new =>
    rw [MountTable.new, Std.TreeMap.getElem?_emptyc] at hk
    cases hk
  | @mount t _ fs' path ih =>
    by_cases hc : t.mounts.contains path.toString = true
    · simp only [MountTable.mount, if_pos hc] at hk
      exact ih hk
    · simp only [MountTable.mount, if_neg hc, Std.TreeMap.getElem?_insert] at hk
      by_cases heq : compare path.toString key = .eq
      · exact ⟨path, Std.LawfulEqCmp.eq_of_compare heq⟩
      · rw [if_neg heq] at hk
        exact ih hk
  | @unmount t _ path ih =>
    by_cases hc : t.mounts.contains path.toString = true
    · simp only [MountTable.unmount, if_pos hc, Std.TreeMap.getElem?_erase] at hk
      by_cases heq : compare path.toString key = .eq
      · rw [if_pos heq] at hk
        cases hk
      · rw [if_neg heq] at hk
        exact ih hk
    · simp only [MountTable.unmount, if_neg hc] at hk
      exact ih hk

/-! ### The loop -/

/-- The loop has seen these entries: it holds a longest one that starts the path. -/
def Best (pathStr : Text) (seen : List (Text × F)) (best : Option (Text × F) × Nat) : Prop :=
  match best.1 with
  | none => best.2 = 0 ∧ ∀ e ∈ seen, ¬ e.1 <+: pathStr
  | some b => best.2 = Text.len b.1 ∧ b ∈ seen ∧ b.1 <+: pathStr ∧
      ∀ e ∈ seen, e.1 <+: pathStr → Text.len e.1 ≤ Text.len b.1

theorem forall_mem_concat {α : Type} {l : List α} {a : α} {P : α → Prop} (h : ∀ x ∈ l, P x)
    (ha : P a) : ∀ x ∈ l ++ [a], P x := by
  intro x hx
  rcases List.mem_append.mp hx with hx | hx
  · exact h x hx
  · rw [List.mem_singleton.mp hx]
    exact ha

/-- A round keeps the best of the entries seen. -/
theorem best_consider {pathStr : Text} {seen : List (Text × F)} {best : Option (Text × F) × Nat}
    (h : Best pathStr seen best) (e : Text × F) :
    Best pathStr (seen ++ [e]) (consider Prod.mk pathStr best e) := by
  obtain ⟨b, n⟩ := best
  unfold Best at h
  rw [consider]
  by_cases hp : e.1 <+: pathStr
  · by_cases hn : n ≤ Text.len e.1
    · rw [if_pos ⟨List.isPrefixOf_iff_prefix.mpr hp, hn⟩]
      refine ⟨rfl, List.mem_append_right _ List.mem_cons_self, hp, forall_mem_concat ?_ ?_⟩
      · intro x hx hpx
        cases b with
        | none => exact absurd hpx (h.2 x hx)
        | some b => exact Nat.le_trans (h.2.2.2 x hx hpx) (h.1 ▸ hn)
      · exact fun _ ↦ Nat.le_refl _
    · rw [if_neg (fun hc ↦ hn hc.2)]
      cases b with
      | none =>
        have hzero : n = 0 := h.1
        exact absurd (hzero ▸ Nat.zero_le _) hn
      | some b =>
        refine ⟨h.1, List.mem_append_left _ h.2.1, h.2.2.1, forall_mem_concat h.2.2.2 ?_⟩
        intro _
        rw [← h.1]
        exact Nat.le_of_not_le hn
  · rw [if_neg (fun hc ↦ hp (List.isPrefixOf_iff_prefix.mp hc.1))]
    cases b with
    | none => exact ⟨h.1, forall_mem_concat h.2 hp⟩
    | some b =>
      exact ⟨h.1, List.mem_append_left _ h.2.1, h.2.2.1,
        forall_mem_concat h.2.2.2 fun hc ↦ absurd hc hp⟩

theorem best_foldl {pathStr : Text} (entries seen : List (Text × F))
    {best : Option (Text × F) × Nat} (h : Best pathStr seen best) :
    Best pathStr (seen ++ entries) (entries.foldl (consider Prod.mk pathStr) best) := by
  induction entries generalizing seen best with
  | nil =>
    rw [List.append_nil]
    exact h
  | cons e entries ih =>
    rw [List.foldl_cons, List.append_cons]
    exact ih _ (best_consider h e)

/-- What the loop ends with. -/
theorem best_bestMatch (t : MountTable F) (pathStr : Text) :
    ∃ n, Best pathStr t.mounts.toList (t.bestMatch Prod.mk pathStr, n) := by
  have hstart : Best pathStr [] ((none : Option (Text × F)), 0) := ⟨rfl, nofun⟩
  have hbest := best_foldl t.mounts.toList [] hstart
  exact ⟨(t.mounts.toList.foldl (consider Prod.mk pathStr) (none, 0)).2, hbest⟩

/-- It ends without a match when no mounted text starts the path. -/
theorem not_prefix_of_bestMatch {t : MountTable F} {pathStr : Text}
    (h : t.bestMatch Prod.mk pathStr = none) {key : Text} {fs : F}
    (hk : t.mounts[key]? = some fs) : ¬ key <+: pathStr := by
  obtain ⟨n, hbest⟩ := best_bestMatch t pathStr
  rw [h] at hbest
  exact hbest.2 (key, fs) (Std.TreeMap.mem_toList_iff_getElem?_eq_some.mpr hk)

/-- Otherwise it ends with the longest one. -/
theorem longest_of_bestMatch {t : MountTable F} {pathStr key : Text} {fs : F}
    (h : t.bestMatch Prod.mk pathStr = some (key, fs)) :
    t.mounts[key]? = some fs ∧ key <+: pathStr ∧ ∀ {key' fs'}, t.mounts[key']? = some fs' →
      key' <+: pathStr → Text.len key' ≤ Text.len key := by
  obtain ⟨n, hbest⟩ := best_bestMatch t pathStr
  rw [h] at hbest
  obtain ⟨-, hmem, hp, hmax⟩ := hbest
  refine ⟨Std.TreeMap.mem_toList_iff_getElem?_eq_some.mp hmem, hp, ?_⟩
  intro key' fs' hk hp'
  exact hmax (key', fs') (Std.TreeMap.mem_toList_iff_getElem?_eq_some.mpr hk) hp'

/-- What a lookup keeps of the best match does not change which one it is. -/
theorem bestMatch_keep {β : Type} (t : MountTable F) (keep : Text → F → β) (pathStr : Text) :
    t.bestMatch keep pathStr = (t.bestMatch Prod.mk pathStr).map fun e ↦ keep e.1 e.2 := by
  have hround : ∀ (b : Option (Text × F)) n e,
      consider keep pathStr (b.map fun e ↦ keep e.1 e.2, n) e =
        ((consider Prod.mk pathStr (b, n) e).1.map fun e ↦ keep e.1 e.2,
          (consider Prod.mk pathStr (b, n) e).2) := by
    intro b n e
    rw [consider, consider]
    split <;> rfl
  have hloop : ∀ (entries : List (Text × F)) (b : Option (Text × F)) n,
      entries.foldl (consider keep pathStr) (b.map fun e ↦ keep e.1 e.2, n) =
        ((entries.foldl (consider Prod.mk pathStr) (b, n)).1.map fun e ↦ keep e.1 e.2,
          (entries.foldl (consider Prod.mk pathStr) (b, n)).2) := by
    intro entries
    induction entries with
    | nil => exact fun _ _ ↦ rfl
    | cons e entries ih =>
      intro b n
      rw [List.foldl_cons, List.foldl_cons, hround]
      exact ih _ _
  exact congrArg Prod.fst (hloop t.mounts.toList none 0)

end MountTable
end SmallOs.Vfs
