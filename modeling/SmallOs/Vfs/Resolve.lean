import SmallOs.Vfs.Mount

/-!
# Which filesystem a path belongs to

The lookups compare texts. A text may start another one although the names of its path do not:
a mount point then catches the paths of a sibling whose name it starts.
-/

namespace SmallOs.Vfs

namespace MountTable

variable {F : Type} {t : MountTable F} {p : Path}

/-- The filesystem is mounted at a longest path whose names start those of the given one. -/
def Longest (t : MountTable F) (p q : Path) (fs : F) : Prop :=
  t.Mounted q fs ∧ q.components <+: p.components ∧
    ∀ q' fs', t.Mounted q' fs' → q'.components <+: p.components →
      q'.components.length ≤ q.components.length

/-- Both lookups take the entry of a longest mounted path, or there is none and both say so. -/
def SelectsLongest (t : MountTable F) (p : Path) : Prop :=
  (∃ q fs, t.Longest p q fs ∧ t.bestMatch Prod.mk p.toString = some (q.toString, fs) ∧
    t.findMount p = .ok fs ∧ ∃ rel, t.resolve p = .ok (fs, rel)) ∨
  ((∀ q fs, t.Mounted q fs → ¬ q.components <+: p.components) ∧
    t.findMount p = .error .notFound ∧ t.resolve p = .error .notFound)

/-- An absolute mount point that the path lies under. -/
def Holds (t : MountTable F) (p q : Path) : Prop :=
  (∃ fs, t.Mounted q fs) ∧ q.absolute = true ∧ q.components <+: p.components

/-- No mount point takes the path from the one it belongs to: a sibling is shorter in text than a
mount point that holds the path, and a relative one is no longer. -/
structure Unshadowed (t : MountTable F) (p : Path) : Prop where
  sibling : ∀ q fs, t.Mounted q fs → q.absolute = true →
    Path.Sibling q.components p.components →
      ∃ q', t.Holds p q' ∧ Text.len q.toString < Text.len q'.toString
  relative : ∀ q fs, t.Mounted q fs → q.absolute = false → q.components ≠ [] →
    q.components <+: p.components →
    ∃ q', t.Holds p q' ∧ q.components.length ≤ q'.components.length

/-! ### The two lookups -/

theorem findMount_eq (t : MountTable F) (p : Path) :
    t.findMount p = match t.bestMatch Prod.mk p.toString with
      | none => .error .notFound
      | some e => .ok e.2 := by
  rw [findMount, bestMatch_keep]
  cases t.bestMatch Prod.mk p.toString with
  | none => rfl
  | some e => rfl

theorem resolve_of_none (h : t.bestMatch Prod.mk p.toString = none) :
    t.resolve p = .error .notFound := by
  rw [resolve, h]
  rfl

/-- What is left of the path's text behind its mount point. -/
theorem resolve_of_some {key : Text} {fs : F} (hkey : key <+: p.toString)
    (h : t.bestMatch Prod.mk p.toString = some (key, fs)) :
    ∃ rel, t.resolve p = .ok (fs, rel) ∧
      (key = p.toString ∧ rel.components = [] ∧ rel.absolute = true ∨
        p.toString ≠ key ∧ rel.components = Path.split (p.toString.drop key.length) ∧
          rel.absolute = decide ((p.toString.drop key.length).head? = some '/')) := by
  obtain ⟨rest, hrest⟩ := hkey
  have hdrop : p.toString.drop key.length = rest := by rw [← hrest, List.drop_left]
  by_cases hnil : rest = []
  · have heq : key = p.toString := by rw [← hrest, hnil, List.append_nil]
    refine ⟨⟨[], true, nofun⟩, ?_, Or.inl ⟨heq, rfl, rfl⟩⟩
    rw [resolve, h]
    simp only [heq, Nat.lt_irrefl, if_false]
    rfl
  · have hlen : Text.len key < Text.len p.toString := by
      rw [← hrest, Text.len_append]
      have := Text.len_pos hnil
      omega
    have hne : p.toString ≠ key := fun heq ↦ by
      rw [heq] at hlen
      exact absurd hlen (Nat.lt_irrefl _)
    refine ⟨⟨Path.split rest, decide (rest.head? = some '/'), Path.names_split rest⟩, ?_,
      Or.inr ⟨hne, by rw [hdrop], by rw [hdrop]⟩⟩
    rw [resolve, h]
    simp only [if_pos hlen, hdrop, Path.new, if_neg hnil]
    rfl

/-! ### Texts and names -/

theorem not_prefix_of_sibling {ms ps : List Text} (h : Path.Sibling ms ps) : ¬ ms <+: ps := by
  obtain ⟨init, last, c, tail, rfl, rfl, -, hne⟩ := h
  intro hp
  obtain ⟨hlast, -⟩ := List.cons_prefix_cons.mp ((List.prefix_append_right_inj init).mp hp)
  exact hne hlast

/-- A mount point that holds the path is seen by the lookups. -/
theorem Holds.text {q : Path} (hp : p.absolute = true) (h : t.Holds p q) :
    q.toString <+: p.toString :=
  (Path.toString_prefix_iff hp).mpr (Or.inl ⟨h.2.1, Or.inl h.2.2⟩)

/-- The text of an absolute path is not empty. -/
theorem len_pos_of_absolute {q : Path} (h : q.absolute = true) : 0 < Text.len q.toString := by
  apply Text.len_pos
  rw [Path.toString, if_pos h]
  exact List.cons_ne_nil _ _

/-- The text of an empty relative path is empty. -/
theorem len_eq_zero {q : Path} (h : q.absolute = false) (hc : q.components = []) :
    Text.len q.toString = 0 := by
  rw [Path.toString, h, hc]
  rfl

/-- Of two absolute paths that hold one path, the one of more names has the longer text. -/
theorem len_lt_of_holds {q q' : Path} (hp : p.absolute = true) (h : t.Holds p q)
    (h' : t.Holds p q') (hlt : q.components.length < q'.components.length) :
    Text.len q.toString < Text.len q'.toString := by
  apply Nat.lt_of_not_le
  intro hle
  have hcomp := List.prefix_of_prefix_length_le h.2.2 h'.2.2 (Nat.le_of_lt hlt)
  have htext : q.toString <+: q'.toString :=
    (Path.toString_prefix_iff h'.2.1).mpr (Or.inl ⟨h.2.1, Or.inl hcomp⟩)
  have hback := Text.prefix_of_len_le (h'.text hp) (h.text hp) hle
  have heq := Path.toString_inj
    (htext.eq_of_length (Nat.le_antisymm htext.length_le hback.length_le))
  rw [heq] at hlt
  exact absurd hlt (Nat.lt_irrefl _)

/-- With nothing in the way, an absolute entry of the longest text is one of the most names. -/
theorem Unshadowed.le {q : Path} (hu : t.Unshadowed p)
    (hlen : ∀ q', t.Holds p q' → q'.components.length ≤ q.components.length) :
    ∀ q' fs', t.Mounted q' fs' → q'.components <+: p.components →
      q'.components.length ≤ q.components.length := by
  intro q' fs' hm hc
  cases ha : q'.absolute with
  | true => exact hlen q' ⟨⟨fs', hm⟩, ha, hc⟩
  | false =>
    by_cases hn : q'.components = []
    · rw [hn]
      exact Nat.zero_le _
    · obtain ⟨q'', hholds, hle⟩ := hu.relative q' fs' hm ha hn hc
      exact Nat.le_trans hle (hlen q'' hholds)

/-- Unshadowed paths get the longest mounted path. -/
theorem Unshadowed.selectsLongest (hb : Built t) (hp : p.absolute = true) (hu : t.Unshadowed p) :
    t.SelectsLongest p := by
  have hfind := findMount_eq t p
  cases hbest : t.bestMatch Prod.mk p.toString with
  | none =>
    rw [hbest] at hfind
    refine Or.inr ⟨?_, hfind, resolve_of_none hbest⟩
    have hnone : ∀ q', ¬ t.Holds p q' := fun q' h ↦
      not_prefix_of_bestMatch hbest h.1.choose_spec (h.text hp)
    intro q fs hm hc
    cases ha : q.absolute with
    | true => exact hnone q ⟨⟨fs, hm⟩, ha, hc⟩
    | false =>
      by_cases hn : q.components = []
      · exact not_prefix_of_bestMatch hbest hm
          ((Path.toString_prefix_iff hp).mpr (Or.inr ⟨ha, hn⟩))
      · obtain ⟨q', hholds, -⟩ := hu.relative q fs hm ha hn hc
        exact hnone q' hholds
  | some e =>
    obtain ⟨key, fs⟩ := e
    obtain ⟨hmounted, hkey, hmax⟩ := longest_of_bestMatch hbest
    obtain ⟨q, rfl⟩ := hb.key hmounted
    obtain ⟨rel, hrel, -⟩ := resolve_of_some hkey hbest
    rw [hbest] at hfind
    have hcomp : q.components <+: p.components ∧
        ∀ q', t.Holds p q' → q'.components.length ≤ q.components.length := by
      rcases (Path.toString_prefix_iff hp).mp hkey with ⟨ha, hc | hs⟩ | ⟨ha, hn⟩
      · refine ⟨hc, fun q' h' ↦ Nat.le_of_not_lt fun hlt ↦ ?_⟩
        have hlen := len_lt_of_holds hp ⟨⟨fs, hmounted⟩, ha, hc⟩ h' hlt
        exact absurd (hmax h'.1.choose_spec (h'.text hp)) (Nat.not_le.mpr hlen)
      · obtain ⟨q', h', hlen⟩ := hu.sibling q fs hmounted ha hs
        exact absurd (hmax h'.1.choose_spec (h'.text hp)) (Nat.not_le.mpr hlen)
      · refine ⟨hn ▸ List.nil_prefix, fun q' h' ↦ ?_⟩
        have hle := hmax h'.1.choose_spec (h'.text hp)
        have hpos := len_pos_of_absolute h'.2.1
        rw [len_eq_zero ha hn] at hle
        exact absurd hpos (Nat.not_lt.mpr hle)
    exact Or.inl ⟨q, fs, ⟨hmounted, hcomp.1, hu.le hcomp.2⟩, hbest, hfind, rel, hrel⟩

/-- A longest mounted path that both lookups take is not shadowed. -/
theorem SelectsLongest.unshadowed (hp : p.absolute = true) (h : t.SelectsLongest p) :
    t.Unshadowed p := by
  rcases h with ⟨q, fs, ⟨hmounted, hcomp, hlongest⟩, hbest, -⟩ | ⟨hnone, hfind, -⟩
  · obtain ⟨-, hkey, hmax⟩ := longest_of_bestMatch hbest
    -- The entry that is taken holds the path, unless it is the empty relative path.
    have hholds : q.absolute = true → t.Holds p q := fun ha ↦ ⟨⟨fs, hmounted⟩, ha, hcomp⟩
    have hempty : q.absolute = false → Text.len q.toString = 0 ∧ q.components = [] := by
      intro ha
      rcases (Path.toString_prefix_iff hp).mp hkey with ⟨ha', -⟩ | ⟨-, hn⟩
      · rw [ha] at ha'
        cases ha'
      · exact ⟨len_eq_zero ha hn, hn⟩
    constructor
    · intro s fs' hm ha hs
      have htext := (Path.toString_prefix_iff hp).mpr (Or.inl ⟨ha, Or.inr hs⟩)
      have hle := hmax hm htext
      cases hq : q.absolute with
      | false =>
        rw [(hempty hq).1] at hle
        exact absurd (len_pos_of_absolute ha) (Nat.not_lt.mpr hle)
      | true =>
        refine ⟨q, hholds hq, Nat.lt_of_not_le fun hge ↦ ?_⟩
        have h₁ := Text.prefix_of_len_le htext hkey hle
        have h₂ := Text.prefix_of_len_le hkey htext hge
        have heq := Path.toString_inj (h₁.eq_of_length (Nat.le_antisymm h₁.length_le h₂.length_le))
        rw [heq] at hs
        exact not_prefix_of_sibling hs hcomp
    · intro r fs' hm _ hn hc
      have hle := hlongest r fs' hm hc
      cases hq : q.absolute with
      | false =>
        rw [(hempty hq).2] at hle
        exact absurd (List.eq_nil_of_length_eq_zero (Nat.le_zero.mp hle)) hn
      | true => exact ⟨q, hholds hq, hle⟩
  · have hbest : t.bestMatch Prod.mk p.toString = none := by
      rw [findMount_eq] at hfind
      cases hb : t.bestMatch Prod.mk p.toString with
      | none => rfl
      | some e =>
        rw [hb] at hfind
        cases hfind
    constructor
    · intro s fs' hm ha hs
      exact absurd ((Path.toString_prefix_iff hp).mpr (Or.inl ⟨ha, Or.inr hs⟩))
        (not_prefix_of_bestMatch hbest hm)
    · intro r fs' hm _ _ hc
      exact absurd hc (hnone r fs' hm)

/-- The lookups of a table that mount and unmount calls have built select the longest mounted
path exactly where nothing shadows it. -/
theorem selectsLongest_iff (hb : Built t) (hp : p.absolute = true) :
    t.SelectsLongest p ↔ t.Unshadowed p :=
  ⟨SelectsLongest.unshadowed hp, Unshadowed.selectsLongest hb hp⟩

/-- `/`. -/
def rootPath : Path := ⟨[], true, nofun⟩

/-- `/mnt`. -/
def mntPath : Path := ⟨["mnt".toList], true, by decide⟩

/-- `/mnt2/x`. -/
def siblingPath : Path := ⟨["mnt2".toList, "x".toList], true, by decide⟩

theorem mounted_mount {fs fs' : F} {q : Path} (hfree : t.mounts.contains p.toString = false)
    (h : (t.mount fs p).2.Mounted q fs') : q = p ∨ t.Mounted q fs' := by
  rw [Mounted, mount, if_neg (by rw [hfree]; exact Bool.false_ne_true)] at h
  change (t.mounts.insert p.toString fs)[q.toString]? = some fs' at h
  rw [Std.TreeMap.getElem?_insert] at h
  by_cases heq : compare p.toString q.toString = .eq
  · exact Or.inl (Path.toString_inj (Std.LawfulEqCmp.eq_of_compare heq)).symm
  · rw [if_neg heq] at h
    exact Or.inr h

theorem not_mounted_new {fs : F} {q : Path} : ¬ (new : MountTable F).Mounted q fs := by
  intro h
  rw [Mounted, new, Std.TreeMap.getElem?_emptyc] at h
  cases h

/-- With the root alone mounted, `/mnt2/x` belongs to it. -/
theorem selectsLongest_iff_root :
    ((new : MountTable Nat).mount 0 rootPath).2.SelectsLongest siblingPath := by
  have hroot : ∀ q fs, ((new : MountTable Nat).mount 0 rootPath).2.Mounted q fs → q = rootPath :=
    fun q fs h ↦ (mounted_mount (by decide) h).resolve_right not_mounted_new
  refine (selectsLongest_iff (.mount .new 0 rootPath) rfl).mpr ⟨?_, ?_⟩
  · intro q fs hm _ hs
    rw [hroot q fs hm] at hs
    exact absurd List.nil_prefix (not_prefix_of_sibling hs)
  · intro q fs hm ha
    rw [hroot q fs hm] at ha
    cases ha

/-- With `/mnt` mounted besides, that one takes `/mnt2/x`. -/
theorem not_selectsLongest_mnt :
    ∃ t : MountTable Nat, Built t ∧ siblingPath.absolute = true ∧
      ¬ t.SelectsLongest siblingPath := by
  refine ⟨(((new : MountTable Nat).mount 0 rootPath).2.mount 1 mntPath).2,
    .mount (.mount .new 0 rootPath) 1 mntPath, rfl, ?_⟩
  have hbest : (((new : MountTable Nat).mount 0 rootPath).2.mount 1 mntPath).2.bestMatch Prod.mk
      siblingPath.toString = some (mntPath.toString, 1) := by decide
  rintro (⟨q, fs, ⟨-, hc, -⟩, hq, -⟩ | ⟨hnone, -⟩)
  · rw [hbest] at hq
    rw [← Path.toString_inj (Prod.mk.inj (Option.some.inj hq)).1] at hc
    revert hc
    decide
  · have hroot : (((new : MountTable Nat).mount 0 rootPath).2.mount 1 mntPath).2.mounts[
        rootPath.toString]? = some 0 := by decide
    exact hnone rootPath 0 hroot List.nil_prefix

end MountTable
end SmallOs.Vfs
