import SmallOs.Base.Lists
import SmallOs.Vfs.File

/-!
# Paths

`lib/vfs/src/path.rs`: a path is a list of names, absolute or not. A text is a list of
characters; its length is that of its UTF-8 encoding.
-/

namespace SmallOs.Vfs

/-- The characters of a string. -/
abbrev Text := List Char

/-- `str::len`: bytes of the encoding. -/
def Text.len (s : Text) : Nat := (s.map Char.utf8Size).sum

theorem Text.len_append (s t : Text) : Text.len (s ++ t) = Text.len s + Text.len t := by
  rw [Text.len, List.map_append, List.sum_append]
  rfl

theorem Text.len_pos {s : Text} (h : s ≠ []) : 0 < Text.len s := by
  cases s with
  | nil => exact absurd rfl h
  | cons c s =>
    rw [Text.len, List.map_cons, List.sum_cons]
    have hc := c.utf8Size_pos
    omega

/-- Of two prefixes of one text, the one that is not longer is a prefix of the other. -/
theorem Text.prefix_of_len_le {s t u : Text} (hs : s <+: u) (ht : t <+: u)
    (h : Text.len s ≤ Text.len t) : s <+: t := by
  rcases List.prefix_or_prefix_of_prefix hs ht with hst | ⟨v, rfl⟩
  · exact hst
  · rw [Text.len_append] at h
    by_cases hv : v = []
    · exact ⟨[], by rw [hv, List.append_nil, List.append_nil]⟩
    · have := Text.len_pos hv
      omega

/-- The names are not empty and hold no separator. -/
@[ext] structure Path where
  components : List Text
  absolute : Bool
  names : ∀ c ∈ components, c ≠ [] ∧ '/' ∉ c

namespace Path

/-- The parts between the separators that are not empty. -/
def split (s : Text) : List Text := (s.splitOn '/').filter (· ≠ [])

/-- No part of a split holds the separator. -/
theorem not_mem_of_mem_splitOn {s w : Text} (h : w ∈ s.splitOn '/') : '/' ∉ w := by
  induction s generalizing w with
  | nil =>
    rw [List.splitOn_nil, List.mem_singleton] at h
    rw [h]
    exact List.not_mem_nil
  | cons c s ih =>
    rw [List.splitOn_cons_eq_if_modifyHead] at h
    by_cases hc : (c == '/') = true
    · rw [if_pos hc] at h
      rcases List.mem_cons.mp h with rfl | h
      · exact List.not_mem_nil
      · exact ih h
    · rw [if_neg hc] at h
      cases hparts : s.splitOn '/' with
      | nil => exact absurd hparts (List.splitOn_ne_nil _ _)
      | cons part parts =>
        rw [hparts] at h ih
        rcases List.mem_cons.mp h with rfl | h
        · intro hmem
          rcases List.mem_cons.mp hmem with hslash | hmem
          · exact hc (beq_iff_eq.mpr hslash.symm)
          · exact ih List.mem_cons_self hmem
        · exact ih (List.mem_cons_of_mem _ h)

theorem names_split (s : Text) : ∀ c ∈ split s, c ≠ [] ∧ '/' ∉ c := by
  intro c hc
  obtain ⟨hmem, hne⟩ := List.mem_filter.mp hc
  exact ⟨of_decide_eq_true hne, not_mem_of_mem_splitOn hmem⟩

/-- `lib/vfs/src/path.rs:14–23`. -/
def new (s : Text) : Except FsError Path :=
  if s = [] then .error .invalidPath
  else .ok ⟨split s, s.head? = some '/', names_split s⟩

/-- `lib/vfs/src/path.rs:29–36`. -/
def parent (p : Path) : Option Path :=
  if p.components = [] then none
  else some ⟨p.components.dropLast, p.absolute, fun c hc ↦ p.names c (List.dropLast_subset _ hc)⟩

/-- `lib/vfs/src/path.rs:40–46`. -/
def toString (p : Path) : Text :=
  if p.absolute then '/' :: ['/'].intercalate p.components else ['/'].intercalate p.components

/-- The names of a list keep their place in its text. -/
abbrev join (names : List Text) : Text := ['/'].intercalate names

theorem join_cons (c : Text) {names : List Text} (h : names ≠ []) :
    join (c :: names) = c ++ '/' :: join names := by
  rw [join, List.intercalate_cons_of_ne_nil h, List.append_assoc, List.singleton_append]

/-- A text is read back from its parts. -/
theorem split_join {names : List Text} (h : ∀ c ∈ names, c ≠ [] ∧ '/' ∉ c) :
    split (join names) = names := by
  by_cases hn : names = []
  · rw [hn]
    rfl
  · rw [split, List.splitOn_intercalate '/' (fun c hc ↦ (h c hc).2) hn, List.filter_eq_self]
    exact fun c hc ↦ decide_eq_true (h c hc).1

/-- A leading separator adds nothing. -/
theorem split_slash (s : Text) : split ('/' :: s) = split s := by
  rw [split, List.splitOn_cons_eq_if_modifyHead]
  exact List.filter_cons_of_neg (by decide)

/-- The names of a path are read back from its text. -/
theorem split_toString (p : Path) : split p.toString = p.components := by
  unfold toString
  by_cases ha : p.absolute = true
  · rw [if_pos ha, split_slash]
    exact split_join p.names
  · rw [if_neg ha]
    exact split_join p.names

/-- A relative path does not start with a separator. -/
theorem head?_toString (p : Path) : p.toString.head? = some '/' ↔ p.absolute = true := by
  unfold toString
  by_cases ha : p.absolute = true
  · rw [if_pos ha]
    exact iff_of_true rfl ha
  · rw [if_neg ha]
    apply iff_of_false _ ha
    cases hc : p.components with
    | nil => exact nofun
    | cons c names =>
      obtain ⟨hne, hslash⟩ := p.names c (hc ▸ List.mem_cons_self)
      cases c with
      | nil => exact absurd rfl hne
      | cons x c =>
        have hhead : (['/'].intercalate ((x :: c) :: names)).head? = some x := by
          cases names <;> rfl
        rw [hhead]
        intro hx
        exact hslash (Option.some.inj hx ▸ List.mem_cons_self)

/-- Paths of one text are one path. -/
theorem toString_inj {p q : Path} (h : p.toString = q.toString) : p = q := by
  have hc : p.components = q.components := by rw [← split_toString, h, split_toString]
  have ha : p.absolute = q.absolute := by
    rw [Bool.eq_iff_iff, ← head?_toString, h, head?_toString]
  exact Path.ext hc ha

/-! ### Prefixes -/

/-- All names but the last are the same, and the last one starts the other's name. -/
def Sibling (ms ps : List Text) : Prop :=
  ∃ init last c tail, ms = init ++ [last] ∧ ps = init ++ c :: tail ∧ last <+: c ∧ last ≠ c

theorem sibling_cons {m : Text} {ms ps : List Text} (h : Sibling ms ps) :
    Sibling (m :: ms) (m :: ps) := by
  obtain ⟨init, last, c, tail, rfl, rfl, hl⟩ := h
  exact ⟨m :: init, last, c, tail, rfl, rfl, hl⟩

/-- A name that ends at a separator is the name that it starts. -/
theorem eq_of_prefix {m c x y : Text} (hm : '/' ∉ m) (hc : '/' ∉ c)
    (hy : y = [] ∨ ∃ y', y = '/' :: y') (h : m ++ '/' :: x <+: c ++ y) :
    m = c ∧ '/' :: x <+: y := by
  induction m generalizing c with
  | nil =>
    cases c with
    | nil => exact ⟨rfl, h⟩
    | cons b c =>
      obtain ⟨rfl, -⟩ := List.cons_prefix_cons.mp h
      exact absurd List.mem_cons_self hc
  | cons a m ih =>
    cases c with
    | nil =>
      rcases hy with rfl | ⟨y', rfl⟩
      · exact absurd (List.prefix_nil.mp h) (List.cons_ne_nil _ _)
      · obtain ⟨rfl, -⟩ := List.cons_prefix_cons.mp h
        exact absurd List.mem_cons_self hm
    | cons b c =>
      rw [List.cons_append, List.cons_append, List.cons_prefix_cons] at h
      obtain ⟨rfl, h⟩ := h
      obtain ⟨rfl, hx⟩ := ih (fun h ↦ hm (List.mem_cons_of_mem _ h))
        (fun h ↦ hc (List.mem_cons_of_mem _ h)) h
      exact ⟨rfl, hx⟩

/-- A name without separators that starts a text starts its first name. -/
theorem prefix_of_prefix {m c y : Text} (hm : '/' ∉ m) (hy : y = [] ∨ ∃ y', y = '/' :: y')
    (h : m <+: c ++ y) : m <+: c := by
  rcases List.prefix_or_prefix_of_prefix h (List.prefix_append c y) with hmc | ⟨v, rfl⟩
  · exact hmc
  · have hv : v <+: y := List.prefix_append_right_inj c |>.mp h
    cases v with
    | nil => exact ⟨[], by rw [List.append_nil, List.append_nil]⟩
    | cons b v =>
      rcases hy with rfl | ⟨y', rfl⟩
      · exact absurd (List.prefix_nil.mp hv) (List.cons_ne_nil _ _)
      · obtain ⟨rfl, -⟩ := List.cons_prefix_cons.mp hv
        exact absurd (List.mem_append_right _ List.mem_cons_self) hm

theorem join_singleton (c : Text) : join [c] = c := by
  rw [join, List.intercalate_singleton]

/-- What follows the first name of a text. -/
theorem join_cons_eq (c : Text) (names : List Text) :
    ∃ y, join (c :: names) = c ++ y ∧
      (y = [] ∧ names = [] ∨ y = '/' :: join names ∧ names ≠ []) := by
  by_cases hn : names = []
  · subst hn
    exact ⟨[], by rw [join_singleton, List.append_nil], Or.inl ⟨rfl, rfl⟩⟩
  · exact ⟨'/' :: join names, join_cons c hn, Or.inr ⟨rfl, hn⟩⟩

theorem join_ne_nil {names : List Text} (h : ∀ c ∈ names, c ≠ [] ∧ '/' ∉ c) (hn : names ≠ []) :
    join names ≠ [] := by
  cases names with
  | nil => exact absurd rfl hn
  | cons c names =>
    obtain ⟨y, hy, -⟩ := join_cons_eq c names
    rw [hy]
    exact List.append_ne_nil_of_left_ne_nil (h c List.mem_cons_self).1 _

theorem sibling_singleton {m c : Text} {ps : List Text} :
    Sibling [m] (c :: ps) ↔ m <+: c ∧ m ≠ c := by
  constructor
  · rintro ⟨init, last, c', tail, hms, hps, hl⟩
    cases init with
    | nil =>
      obtain ⟨rfl, -⟩ := List.cons.inj hms
      obtain ⟨rfl, -⟩ := List.cons.inj hps
      exact hl
    | cons a init =>
      obtain ⟨-, hnil⟩ := List.cons.inj hms
      exact absurd hnil Base.nil_ne_append_cons
  · intro hl
    exact ⟨[], m, c, ps, rfl, rfl, hl⟩

theorem sibling_cons_iff {m c : Text} {ms ps : List Text} (hms : ms ≠ []) :
    Sibling (m :: ms) (c :: ps) ↔ m = c ∧ Sibling ms ps := by
  constructor
  · rintro ⟨init, last, c', tail, hm, hp, hl⟩
    cases init with
    | nil =>
      obtain ⟨-, hnil⟩ := List.cons.inj hm
      exact absurd hnil hms
    | cons a init =>
      obtain ⟨rfl, rfl⟩ := List.cons.inj hm
      obtain ⟨rfl, rfl⟩ := List.cons.inj hp
      exact ⟨rfl, init, last, c', tail, rfl, rfl, hl⟩
  · rintro ⟨rfl, h⟩
    exact sibling_cons h

/-- One joined list starts another exactly when its names do, or all but a last one that starts
a name of the other. -/
theorem join_prefix_iff {ms ps : List Text} (hm : ∀ c ∈ ms, c ≠ [] ∧ '/' ∉ c)
    (hp : ∀ c ∈ ps, c ≠ [] ∧ '/' ∉ c) : join ms <+: join ps ↔ ms <+: ps ∨ Sibling ms ps := by
  induction ms generalizing ps with
  | nil => exact iff_of_true List.nil_prefix (Or.inl List.nil_prefix)
  | cons m ms ih =>
    have hslash := (hm m List.mem_cons_self).2
    cases ps with
    | nil =>
      apply iff_of_false
      · intro h
        exact join_ne_nil hm (List.cons_ne_nil m ms) (List.prefix_nil.mp h)
      · rintro (h | ⟨init, last, c, tail, -, hps, -⟩)
        · exact absurd (List.prefix_nil.mp h) (List.cons_ne_nil _ _)
        · exact absurd hps Base.nil_ne_append_cons
    | cons c ps =>
      have hslashc := (hp c List.mem_cons_self).2
      obtain ⟨y, hy, hrest⟩ := join_cons_eq c ps
      have hy' : y = [] ∨ ∃ y', y = '/' :: y' := by
        rcases hrest with ⟨h, -⟩ | ⟨h, -⟩
        · exact Or.inl h
        · exact Or.inr ⟨_, h⟩
      rw [hy, List.cons_prefix_cons]
      by_cases hms : ms = []
      · subst hms
        rw [join_singleton, sibling_singleton]
        constructor
        · intro h
          have hmc := prefix_of_prefix hslash hy' h
          by_cases heq : m = c
          · exact Or.inl ⟨heq, List.nil_prefix⟩
          · exact Or.inr ⟨hmc, heq⟩
        · rintro (⟨rfl, -⟩ | ⟨hmc, -⟩)
          · exact List.prefix_append _ _
          · exact hmc.trans (List.prefix_append _ _)
      · have hnames : ∀ d ∈ ms, d ≠ [] ∧ '/' ∉ d := fun d hd ↦ hm d (List.mem_cons_of_mem _ hd)
        have hnames' : ∀ d ∈ ps, d ≠ [] ∧ '/' ∉ d := fun d hd ↦ hp d (List.mem_cons_of_mem _ hd)
        rw [join_cons m hms, sibling_cons_iff hms, ← and_or_left, ← ih hnames hnames']
        constructor
        · intro h
          obtain ⟨rfl, hx⟩ := eq_of_prefix hslash hslashc hy' h
          rcases hrest with ⟨rfl, -⟩ | ⟨rfl, -⟩
          · exact absurd (List.prefix_nil.mp hx) (List.cons_ne_nil _ _)
          · exact ⟨rfl, (List.cons_prefix_cons.mp hx).2⟩
        · rintro ⟨rfl, hx⟩
          rcases hrest with ⟨-, rfl⟩ | ⟨rfl, -⟩
          · exact absurd (List.prefix_nil.mp hx) (join_ne_nil hnames hms)
          · exact (List.prefix_append_right_inj m).mpr (List.cons_prefix_cons.mpr ⟨rfl, hx⟩)

/-- The text of a path starts that of an absolute one: its names do, or it is a sibling of one of
the other's parents, or it is the empty relative path. -/
theorem toString_prefix_iff {m p : Path} (hp : p.absolute = true) :
    m.toString <+: p.toString ↔
      (m.absolute = true ∧ (m.components <+: p.components ∨ Sibling m.components p.components)) ∨
        m.absolute = false ∧ m.components = [] := by
  have hslash : p.toString = '/' :: join p.components := by rw [toString, if_pos hp]
  rw [hslash]
  cases hm : m.absolute with
  | true =>
    have htext : m.toString = '/' :: join m.components := by rw [toString, if_pos hm]
    rw [htext, List.cons_prefix_cons, join_prefix_iff m.names p.names]
    simp only [true_and, Bool.true_eq_false, false_and, or_false]
  | false =>
    have hhead := mt (head?_toString m).mp (by rw [hm]; exact Bool.false_ne_true)
    simp only [Bool.false_eq_true, false_and, false_or, true_and]
    constructor
    · intro h
      by_cases hc : m.components = []
      · exact hc
      · have htext : m.toString = join m.components := by
          rw [toString, hm]
          rfl
        rw [htext] at h hhead
        cases hj : join m.components with
        | nil => exact absurd hj (join_ne_nil m.names hc)
        | cons a s =>
          rw [hj] at h hhead
          exact absurd (congrArg some (List.cons_prefix_cons.mp h).1) hhead
    · intro hc
      have htext : m.toString = [] := by
        rw [toString, hm, hc]
        rfl
      rw [htext]
      exact List.nil_prefix

end Path
end SmallOs.Vfs
