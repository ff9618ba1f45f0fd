import SmallOs.Ntfs.Driver
import SmallOs.Vfs.Path

/-!
# Opening a path of the driver

`lib/vfs/src/fs/ntfs/mod.rs`: `open` drops repeated and trailing slashes of a path and goes down
from the root by what is left. It goes by the names that `Path::new` finds in the path.
-/

namespace SmallOs.Ntfs

open SmallOs.Base SmallOs.Hal
open Vfs (Text Path)

/-- A round of the loop, on the result and whether the last character was a slash;
`lib/vfs/src/fs/ntfs/mod.rs:195–205`. -/
def normalizeStep (state : Text × Bool) (c : Char) : Text × Bool :=
  if c = '/' then
    if state.2 = false then (state.1 ++ [c], true) else state
  else (state.1 ++ [c], false)

/-- `lib/vfs/src/fs/ntfs/mod.rs:187–212`. -/
def normalizePath (path : Text) : Text :=
  if path = [] then ['/']
  else
    let result := (path.foldl normalizeStep ([], false)).1
    if 1 < result.len ∧ result.getLast? = some '/' then result.dropLast else result

/-- The names that the loop of `open` goes over; `lib/vfs/src/fs/ntfs/mod.rs:47–54`. -/
def pathComponents (path : Text) : List Text :=
  if normalizePath path = ['/'] ∨ normalizePath path = [] then []
  else ((normalizePath path).splitOn '/').filter (· ≠ [])

section Device

variable {D : Type} [BlockDevice D]

/-- `lib/vfs/src/fs/ntfs/mod.rs:42–44`. -/
def rootDirectory : Prog D NtfsError NtfsFile := pure { recordNumber := 5 }

/-- From a directory to the file of a name in it; `lib/vfs/src/fs/ntfs/mod.rs:54–68`. -/
def openChild (driver : NtfsDriver) (current : NtfsFile) (component : Text) :
    Prog D NtfsError NtfsFile :=
  if component = ['.', '.'] then Prog.fail .invalidInput
  else do
    let st ← stat driver current
    Prog.lift (Outcome.ensure st.isDirectory .notADirectory)
    let indexData ← getIndexData driver current st
    let child ← Prog.lift (findEntry indexData component)
    openFile driver child

/-- `lib/vfs/src/fs/ntfs/mod.rs:46–70`. -/
def openPath (driver : NtfsDriver) (path : Text) : Prog D NtfsError NtfsFile := do
  let normalized := normalizePath path
  if normalized = ['/'] ∨ normalized = [] then rootDirectory
  else
    let current ← rootDirectory
    ((normalized.splitOn '/').filter (· ≠ [])).foldlM (openChild driver) current

/-- `open` goes over these names. -/
theorem openPath_eq (driver : NtfsDriver) (path : Text) :
    (openPath driver path : Prog D NtfsError NtfsFile) =
      (pathComponents path).foldlM (openChild driver) ⟨5⟩ := by
  rw [openPath, pathComponents]
  split
  · rfl
  · rfl

end Device

/-! ### The loop -/

/-- No two slashes stand next to each other. -/
def Single (s : Text) : Prop := ¬ ['/', '/'] <:+: s

theorem single_concat {s : Text} {c : Char} :
    Single (s ++ [c]) ↔ Single s ∧ ¬ (c = '/' ∧ s.getLast? = some '/') := by
  have hsuffix : ['/', '/'] <:+ s ++ [c] ↔ c = '/' ∧ s.getLast? = some '/' := by
    constructor
    · rintro ⟨t, ht⟩
      have hends : (t ++ ['/']) ++ ['/'] = s ++ [c] := by simpa using ht
      obtain ⟨ht, hc⟩ := List.append_inj' hends rfl
      rw [← ht]
      exact ⟨(List.head_eq_of_cons_eq hc).symm, by simp⟩
    · rintro ⟨rfl, hlast⟩
      obtain ⟨t, rfl⟩ := List.getLast?_eq_some_iff.mp hlast
      exact ⟨t, by simp⟩
  rw [Single, List.infix_concat_iff, hsuffix, not_or, Single]
  exact And.comm

theorem Single.prefix {s t : Text} (h : Single (s ++ t)) : Single s :=
  fun hs ↦ h (hs.trans (List.infix_append' [] s t))

/-- A slash between two texts separates their names. -/
theorem split_append_slash (s t : Text) :
    Path.split (s ++ '/' :: t) = Path.split s ++ Path.split t := by
  rw [Path.split, List.splitOn_append_cons_self, List.filter_append, Path.split, Path.split]

/-- A text with single slashes goes through the loop as it is. -/
theorem foldl_normalizeStep {s : Text} (h : Single s) :
    s.foldl normalizeStep ([], false) = (s, decide (s.getLast? = some '/')) := by
  induction s using List.reverseRecOn with
  | nil => rfl
  | append_singleton s c ih =>
    obtain ⟨hs, hnot⟩ := single_concat.mp h
    rw [List.foldl_append, ih hs, List.foldl_cons, List.foldl_nil, normalizeStep]
    by_cases hc : c = '/'
    · simp [hc] at hnot
      simp [hc, hnot]
    · simp [hc]

/-- What has been read has the names of the result, whatever follows, and the result has no two
slashes in a row. -/
structure Collapsed (read : Text) (state : Text × Bool) : Prop where
  single : Single state.1
  last : state.2 = true ↔ state.1.getLast? = some '/'
  names : ∀ rest, Path.split (state.1 ++ rest) = Path.split (read ++ rest)
  nonempty : read ≠ [] → state.1 ≠ []

/-- A round keeps the result collapsed. -/
theorem Collapsed.step {read : Text} {state : Text × Bool} (h : Collapsed read state) (c : Char) :
    Collapsed (read ++ [c]) (normalizeStep state c) := by
  obtain ⟨result, prev⟩ := state
  have hnames : ∀ rest, Path.split (result ++ [c] ++ rest) = Path.split (read ++ [c] ++ rest) := by
    intro rest
    rw [List.append_assoc, h.names, List.append_assoc]
  rw [normalizeStep]
  by_cases hc : c = '/'
  · rw [if_pos hc]
    by_cases hprev : prev = false
    · rw [if_pos hprev]
      have hlast := mt h.last.mpr (by simp [hprev])
      exact ⟨single_concat.mpr ⟨h.single, fun h ↦ hlast h.2⟩, by simp [hc], hnames, by simp⟩
    · rw [if_neg hprev]
      rw [Bool.not_eq_false] at hprev
      obtain ⟨front, hfront⟩ := List.getLast?_eq_some_iff.mp (h.last.mp hprev)
      refine ⟨h.single, h.last, ?_, fun _ ↦ by simp [show result = front ++ ['/'] from hfront]⟩
      intro rest
      -- The second slash separates nothing from the names behind it.
      rw [← hnames, hc]
      have hresult : result = front ++ ['/'] := hfront
      rw [hresult, List.append_assoc, List.append_assoc, List.append_assoc]
      change Path.split (front ++ '/' :: rest) = Path.split (front ++ '/' :: '/' :: rest)
      rw [split_append_slash, split_append_slash, Path.split_slash]
  · rw [if_neg hc]
    exact ⟨single_concat.mpr ⟨h.single, fun h ↦ hc h.1⟩, by simp [hc], hnames, by simp⟩

theorem collapsed_foldl (s : Text) : Collapsed s (s.foldl normalizeStep ([], false)) := by
  induction s using List.reverseRecOn with
  | nil => exact ⟨fun h ↦ by simp at h, by simp, fun _ ↦ rfl, fun h ↦ absurd rfl h⟩
  | append_singleton s c ih =>
    rw [List.foldl_append]
    exact ih.step c

/-! ### The normal form -/

/-- A text without two slashes in a row and without one at its end, or the root. -/
structure Normal (s : Text) : Prop where
  single : Single s
  last : s ≠ ['/'] → s.getLast? ≠ some '/'
  nonempty : s ≠ []

theorem normal_root : Normal ['/'] where
  single h := by simpa using h.length_le
  last h := absurd rfl h
  nonempty := List.cons_ne_nil _ _

theorem len_le_one_of_last {s : Text} (hlen : ¬ 1 < s.len) (hlast : s.getLast? = some '/') :
    s = ['/'] := by
  obtain ⟨front, rfl⟩ := List.getLast?_eq_some_iff.mp hlast
  have hfront : front = [] := by
    by_contra hne
    have hpos := Text.len_pos hne
    have hone : Text.len ['/'] = 1 := rfl
    rw [Text.len_append] at hlen
    omega
  rw [hfront, List.nil_append]

/-- What is returned is in normal form and has the names of the path. -/
theorem normal_normalizePath (s : Text) :
    Normal (normalizePath s) ∧ Path.split (normalizePath s) = Path.split s := by
  by_cases hs : s = []
  · rw [normalizePath, if_pos hs, hs]
    exact ⟨normal_root, rfl⟩
  · have h := collapsed_foldl s
    have hnames := h.names []
    rw [normalizePath, if_neg hs]
    generalize s.foldl normalizeStep ([], false) = state at h hnames
    simp only [List.append_nil] at hnames
    dsimp only
    split
    · next hcut =>
      obtain ⟨hlen, hlast⟩ := hcut
      obtain ⟨front, hfront⟩ := List.getLast?_eq_some_iff.mp hlast
      rw [hfront] at hlen hnames ⊢
      have hsingle := h.single
      rw [hfront, single_concat] at hsingle
      rw [List.dropLast_concat]
      refine ⟨⟨hsingle.1, fun _ hend ↦ hsingle.2 ⟨rfl, hend⟩, ?_⟩, ?_⟩
      · rintro rfl
        exact absurd hlen (by decide)
      · rw [← hnames, split_append_slash]
        exact (List.append_nil _).symm
    · next hcut =>
      refine ⟨⟨h.single, ?_, h.nonempty hs⟩, hnames⟩
      intro hroot hlast
      exact hroot (len_le_one_of_last (fun hlen ↦ hcut ⟨hlen, hlast⟩) hlast)

/-- A text in normal form stays as it is. -/
theorem Normal.normalizePath {s : Text} (h : Normal s) : normalizePath s = s := by
  rw [Ntfs.normalizePath, if_neg h.nonempty, foldl_normalizeStep h.single]
  dsimp only
  apply if_neg
  rintro ⟨hlen, hlast⟩
  by_cases hroot : s = ['/']
  · rw [hroot] at hlen
    exact absurd hlen (by decide)
  · exact h.last hroot hlast

/-- The loop of `open` goes over the names in the path. -/
theorem pathComponents_eq (s : Text) : pathComponents s = Path.split s := by
  obtain ⟨-, hnames⟩ := normal_normalizePath s
  rw [pathComponents]
  split
  · next hroot =>
    rw [← hnames]
    rcases hroot with hroot | hroot
    · rw [hroot]
      rfl
    · rw [hroot]
      rfl
  · exact hnames

end SmallOs.Ntfs
