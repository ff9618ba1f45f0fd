import SmallOs.Vfs.Resolve

/-!
# Opening a file

`lib/vfs/src/lib.rs:27–93`: `Vfs::open` asks the mount table for a filesystem and hands it the
whole path. `resolve` is the lookup that also computes what is left behind the mount point; what
it returns depends on whether the mount point's text ends at a separator.
-/

namespace SmallOs.Vfs

open SmallOs.Base

/-- `lib/hal/src/fs/mod.rs`: a filesystem opens a file by a text, or fails. -/
class FileSystem (F : Type) (H : outParam Type) where
  openFile : F → Text → Option H

/-- `lib/vfs/src/lib.rs:27–31`. -/
structure Vfs (F H : Type) where
  mountTable : MountTable F
  fdTable : Std.TreeMap Nat H
  nextFd : Nat

namespace Vfs

variable {F H : Type}

/-- `lib/vfs/src/lib.rs:83–85`. -/
def findFsForPath (v : Vfs F H) (path : Path) : Except FsError F := v.mountTable.findMount path

/-- The call that `open` makes: a filesystem and the text it gets;
`lib/vfs/src/lib.rs:49–54`. -/
def openCall (v : Vfs F H) (path : Text) : Except FsError (F × Text) := do
  let path ← Path.new path
  let fs ← v.findFsForPath path
  return (fs, path.toString)

/-- `lib/vfs/src/lib.rs:87–92`. -/
def allocFd (v : Vfs F H) : Outcome FsError Nat × Vfs F H :=
  match (Outcome.addAt 64 v.nextFd 1 : Outcome FsError Nat) with
  | .ok next => (.ok v.nextFd, { v with nextFd := next })
  | .err e => (.err e, v)
  | .panic => (.panic, v)

/-- `lib/vfs/src/lib.rs:48–60`; the flags are not looked at. -/
def openFile [FileSystem F H] (v : Vfs F H) (path : Text) (_flags : OpenFlags) :
    Outcome FsError Nat × Vfs F H :=
  match v.openCall path with
  | .error e => (.err e, v)
  | .ok (fs, pathStr) =>
    match FileSystem.openFile fs pathStr with
    | none => (.err .notFound, v)
    | some file =>
      match v.allocFd with
      | (.ok fd, v) => (.ok fd, { v with fdTable := v.fdTable.insert fd file })
      | r => r

end Vfs

namespace Path

/-- Names in front of others, with a separator behind each. -/
theorem join_append (init : List Text) {names : List Text} (hn : names ≠ []) :
    join (init ++ names) = init.flatMap (· ++ ['/']) ++ join names := by
  induction init with
  | nil => rfl
  | cons c init ih =>
    rw [List.cons_append, join_cons c (List.append_ne_nil_of_right_ne_nil _ hn), ih,
      List.flatMap_cons, List.append_assoc, List.append_assoc]
    rfl

section Behind

variable {m p : Path}

/-- Behind the root, the text of a path goes on with its names. -/
theorem drop_root (hm : m.absolute = true) (hp : p.absolute = true) (hroot : m.components = []) :
    p.toString.drop m.toString.length = join p.components := by
  rw [toString, toString, if_pos hm, if_pos hp, hroot]
  rfl

/-- The text of the path behind that of one whose last name starts the path's name. -/
theorem drop_last (hm : m.absolute = true) (hp : p.absolute = true) {init tail : List Text}
    {last v : Text} (hmc : m.components = init ++ [last])
    (hpc : p.components = init ++ (last ++ v) :: tail) :
    p.toString.drop m.toString.length = v ++ if tail = [] then [] else '/' :: join tail := by
  have hmtext : m.toString = '/' :: (init.flatMap (· ++ ['/']) ++ last) := by
    rw [toString, if_pos hm, hmc]
    change '/' :: join (init ++ [last]) = _
    rw [join_append init (List.cons_ne_nil _ _), join_singleton]
  have hnames : join ((last ++ v) :: tail) =
      last ++ (v ++ if tail = [] then [] else '/' :: join tail) := by
    by_cases ht : tail = []
    · rw [ht, join_singleton, if_pos rfl, List.append_nil]
    · rw [join_cons _ ht, if_neg ht, List.append_assoc]
  have hptext : p.toString = m.toString ++ (v ++ if tail = [] then [] else '/' :: join tail) := by
    rw [toString, if_pos hp, hpc, hmtext]
    change '/' :: join (init ++ (last ++ v) :: tail) = _
    rw [join_append init (List.cons_ne_nil _ _), hnames, List.cons_append, List.append_assoc]
  rw [hptext, List.drop_left]

/-- Behind any other mount point that holds the path, it goes on with a separator, or ends. -/
theorem drop_holds (hm : m.absolute = true) (hp : p.absolute = true) {rs : List Text}
    (hne : m.components ≠ []) (h : m.components ++ rs = p.components) :
    p.toString.drop m.toString.length = if rs = [] then [] else '/' :: join rs := by
  have hsplit := List.dropLast_concat_getLast hne
  have hpc : p.components =
      m.components.dropLast ++ (m.components.getLast hne ++ []) :: rs := by
    rw [← h, List.append_nil, List.append_cons, hsplit]
  exact drop_last hm hp hsplit.symm hpc

/-- Behind a sibling, it goes on with the rest of a name. -/
theorem drop_sibling (hm : m.absolute = true) (hp : p.absolute = true)
    (h : Sibling m.components p.components) :
    ∃ a rest, p.toString.drop m.toString.length = a :: rest ∧ a ≠ '/' := by
  obtain ⟨init, last, c, tail, hmc, hpc, ⟨v, rfl⟩, hne⟩ := h
  rw [drop_last hm hp hmc hpc]
  cases v with
  | nil => exact absurd (List.append_nil last).symm hne
  | cons a v =>
    have hslash := (p.names (last ++ a :: v) (hpc ▸ List.mem_append_right _ List.mem_cons_self)).2
    refine ⟨a, _, rfl, ?_⟩
    rintro rfl
    exact hslash (List.mem_append_right _ List.mem_cons_self)

end Behind

end Path

section Relative

variable {F H : Type} {v : Vfs F H} {t : MountTable F} {s : Text} {p m : Path} {fs : F}

/-- What `resolve` returns behind each kind of mount point: the empty relative path, the path
itself, the root, another path that holds it, or a sibling. -/
inductive Behind (m p r : Path) : Prop where
  | empty (text : m.toString = []) (same : r = p)
  | whole (same : m = p) (absolute : m.absolute = true) (root : r = ⟨[], true, nofun⟩)
  | root (absolute : m.absolute = true) (mount : m.components = []) (below : p.components ≠ [])
      (relative : r.absolute = false)
  | below (absolute : m.absolute = true) (mount : m.components ≠ []) (rooted : r.absolute = true)
      (rest : m.components ++ r.components = p.components)
  | sibling (absolute : m.absolute = true) (names : Path.Sibling m.components p.components)
      (relative : r.absolute = false)

theorem head?_join_ne (p : Path) : (Path.join p.components).head? ≠ some '/' := by
  have hrel := Path.head?_toString ⟨p.components, false, p.names⟩
  exact fun h ↦ Bool.false_ne_true (hrel.mp h)

theorem MountTable.resolve_behind (hp : p.absolute = true)
    (hm : t.bestMatch Prod.mk p.toString = some (m.toString, fs)) :
    ∃ r, t.resolve p = .ok (fs, r) ∧ Behind m p r := by
  obtain ⟨-, hkey, -⟩ := longest_of_bestMatch hm
  obtain ⟨r, hr, hrest⟩ := resolve_of_some hkey hm
  refine ⟨r, hr, ?_⟩
  rcases (Path.toString_prefix_iff hp).mp hkey with ⟨ha, hc⟩ | ⟨ha, hn⟩
  · rcases hrest with ⟨htext, hcomp, habs⟩ | ⟨hne, hcomp, habs⟩
    · exact .whole (Path.toString_inj htext) ha (Path.ext hcomp habs)
    · rcases hc with ⟨rs, hrs⟩ | hs
      · by_cases hroot : m.components = []
        · rw [Path.drop_root ha hp hroot, decide_eq_false (head?_join_ne p)] at habs
          refine .root ha hroot (fun hnil ↦ hne ?_) habs
          rw [Path.ext (hroot.trans hnil.symm) (ha.trans hp.symm)]
        · have hdrop := Path.drop_holds ha hp hroot hrs
          have hrs' : rs ≠ [] := by
            rintro rfl
            rw [List.append_nil] at hrs
            exact hne (congrArg Path.toString (Path.ext hrs (ha.trans hp.symm))).symm
          have hnames : ∀ c ∈ rs, c ≠ [] ∧ '/' ∉ c := fun c hc ↦
            p.names c (hrs ▸ List.mem_append_right _ hc)
          rw [if_neg hrs'] at hdrop
          rw [hdrop, Path.split_slash, Path.split_join hnames] at hcomp
          rw [hdrop, List.head?_cons, decide_eq_true rfl] at habs
          exact .below ha hroot habs (by rw [hcomp, hrs])
      · obtain ⟨a, rest, hdrop, hslash⟩ := Path.drop_sibling ha hp hs
        have hhead : (a :: rest).head? ≠ some '/' := fun h ↦ hslash (Option.some.inj h)
        rw [hdrop, decide_eq_false hhead] at habs
        exact .sibling ha hs habs
  · have htext : m.toString = [] := by
      rw [Path.toString, ha, hn]
      rfl
    rw [htext] at hrest
    rcases hrest with ⟨h, -⟩ | ⟨-, hcomp, habs⟩
    · have hpos := MountTable.len_pos_of_absolute hp
      rw [← h] at hpos
      exact absurd hpos (Nat.lt_irrefl _)
    · rw [List.length_nil, List.drop_zero, Path.split_toString] at hcomp
      rw [List.length_nil, List.drop_zero, decide_eq_true ((Path.head?_toString p).mpr hp)] at habs
      exact .empty htext (Path.ext hcomp (habs.trans hp.symm))

/-- `resolve` returns an absolute path, and its names are what the path has behind the mount
point. -/
def ResolvesRelative (t : MountTable F) (p m : Path) (fs : F) : Prop :=
  ∃ r, t.resolve p = .ok (fs, r) ∧ r.absolute = true ∧ m.components ++ r.components = p.components

/-- That path is what the filesystem is asked to open. -/
def ReceivesRelative (v : Vfs F H) (s : Text) (p m : Path) (fs : F) : Prop :=
  ∃ r, v.mountTable.resolve p = .ok (fs, r) ∧ r.absolute = true ∧
    m.components ++ r.components = p.components ∧ v.openCall s = .ok (fs, r.toString)

/-- `open` hands over the whole path. -/
theorem openCall_eq (hs : Path.new s = .ok p)
    (hm : v.mountTable.bestMatch Prod.mk p.toString = some (m.toString, fs)) :
    v.openCall s = .ok (fs, p.toString) := by
  have hfind := MountTable.findMount_eq v.mountTable p
  rw [hm] at hfind
  rw [Vfs.openCall, hs]
  change (v.mountTable.findMount p >>= fun fs ↦ pure (fs, p.toString)) = _
  rw [hfind]
  rfl

theorem components_of_empty (h : m.toString = []) : m.components = [] := by
  rw [← Path.split_toString, h]
  rfl

theorem toString_ne_nil (h : m.absolute = true) : m.toString ≠ [] := by
  rw [Path.toString, if_pos h]
  exact List.cons_ne_nil _ _

/-- `resolve` does its part for every mount point that holds the path, the root apart. -/
theorem resolvesRelative_iff (hp : p.absolute = true)
    (hm : t.bestMatch Prod.mk p.toString = some (m.toString, fs)) :
    ResolvesRelative t p m fs ↔ m.components <+: p.components ∧
      (m.absolute = true → m.components = [] → p.components = []) := by
  obtain ⟨r, hr, hb⟩ := t.resolve_behind hp hm
  have hunique : ResolvesRelative t p m fs ↔
      r.absolute = true ∧ m.components ++ r.components = p.components := by
    rw [ResolvesRelative, hr]
    constructor
    · rintro ⟨r', ⟨⟩, h⟩
      exact h
    · exact fun h ↦ ⟨r, rfl, h⟩
  rw [hunique]
  cases hb with
  | empty text same =>
    subst same
    have hn := components_of_empty text
    exact iff_of_true ⟨hp, by rw [hn, List.nil_append]⟩ ⟨hn ▸ List.nil_prefix, fun ha _ ↦
      absurd text (toString_ne_nil ha)⟩
  | whole same ha root =>
    subst same root
    exact iff_of_true ⟨rfl, List.append_nil _⟩ ⟨List.prefix_rfl, fun _ h ↦ h⟩
  | root ha mount below relative =>
    apply iff_of_false
    · rintro ⟨h, -⟩
      exact Bool.false_ne_true (relative.symm.trans h)
    · exact fun h ↦ below (h.2 ha mount)
  | below ha mount rooted rest =>
    exact iff_of_true ⟨rooted, rest⟩ ⟨⟨_, rest⟩, fun _ h ↦ absurd h mount⟩
  | sibling ha names relative =>
    apply iff_of_false
    · rintro ⟨h, -⟩
      exact Bool.false_ne_true (relative.symm.trans h)
    · exact fun h ↦ MountTable.not_prefix_of_sibling names h.1

/-- A filesystem is asked for the path behind its mount point exactly when that is the whole
path. -/
theorem receivesRelative_iff (hp : p.absolute = true) (hs : Path.new s = .ok p)
    (hm : v.mountTable.bestMatch Prod.mk p.toString = some (m.toString, fs)) :
    ReceivesRelative v s p m fs ↔ m.toString = [] ∨ p.components = [] := by
  obtain ⟨r, hr, hb⟩ := v.mountTable.resolve_behind hp hm
  have hunique : ReceivesRelative v s p m fs ↔
      r = p ∧ r.absolute = true ∧ m.components ++ r.components = p.components := by
    rw [ReceivesRelative, hr, openCall_eq hs hm]
    constructor
    · rintro ⟨r', ⟨⟩, ha, hc, htext⟩
      exact ⟨(Path.toString_inj (Prod.mk.inj (Except.ok.inj htext)).2).symm, ha, hc⟩
    · rintro ⟨rfl, ha, hc⟩
      exact ⟨r, rfl, ha, hc, rfl⟩
  rw [hunique]
  cases hb with
  | empty text same =>
    exact iff_of_true ⟨same, same ▸ hp, by rw [components_of_empty text, same, List.nil_append]⟩
      (Or.inl text)
  | whole same ha root =>
    subst same
    rw [root]
    constructor
    · exact fun h ↦ Or.inr (congrArg Path.components h.1).symm
    · rintro (text | hn)
      · exact absurd text (toString_ne_nil ha)
      · exact ⟨Path.ext hn.symm ha.symm, rfl, List.append_nil _⟩
  | root ha mount below relative =>
    apply iff_of_false
    · rintro ⟨-, h, -⟩
      exact Bool.false_ne_true (relative.symm.trans h)
    · exact not_or.mpr ⟨toString_ne_nil ha, below⟩
  | below ha mount rooted rest =>
    apply iff_of_false
    · rintro ⟨rfl, -, h⟩
      exact mount (List.append_left_eq_self.mp h)
    · refine not_or.mpr ⟨toString_ne_nil ha, ?_⟩
      rw [← rest]
      exact List.append_ne_nil_of_left_ne_nil mount _
  | sibling ha names relative =>
    obtain ⟨init, last, c, tail, -, hpc, -⟩ := names
    apply iff_of_false
    · rintro ⟨-, h, -⟩
      exact Bool.false_ne_true (relative.symm.trans h)
    · refine not_or.mpr ⟨toString_ne_nil ha, ?_⟩
      rw [hpc]
      exact List.append_ne_nil_of_right_ne_nil _ (List.cons_ne_nil _ _)

end Relative

/-- One filesystem, mounted at a path. -/
def mountedAt (path : Path) : Vfs Unit Unit where
  mountTable := (MountTable.new.mount () path).2
  fdTable := ∅
  nextFd := 0

/-- A filesystem at the root gets the root. -/
theorem receivesRelative_iff_root :
    ReceivesRelative (mountedAt MountTable.rootPath) ['/'] MountTable.rootPath MountTable.rootPath
      () :=
  (receivesRelative_iff rfl rfl (by decide)).mpr (Or.inr rfl)

/-- A filesystem at `/mnt` is asked for `/mnt/a`. -/
theorem not_receivesRelative_mnt : ∃ p : Path, p.absolute = true ∧
    Path.new "/mnt/a".toList = .ok p ∧
    (mountedAt MountTable.mntPath).mountTable.bestMatch Prod.mk p.toString =
      some (MountTable.mntPath.toString, ()) ∧
    ¬ ReceivesRelative (mountedAt MountTable.mntPath) "/mnt/a".toList p MountTable.mntPath () := by
  have hs : Path.new "/mnt/a".toList =
      .ok ⟨["mnt".toList, "a".toList], true, by decide⟩ := by
    have hsplit : Path.split "/mnt/a".toList = ["mnt".toList, "a".toList] := by decide
    rw [Path.new, if_neg (by decide)]
    exact congrArg Except.ok (Path.ext hsplit (by decide))
  have hm : (mountedAt MountTable.mntPath).mountTable.bestMatch Prod.mk
      (Path.toString ⟨["mnt".toList, "a".toList], true, by decide⟩) =
        some (MountTable.mntPath.toString, ()) := by decide
  refine ⟨_, rfl, hs, hm, ?_⟩
  rintro ⟨r, -, -, hc, hopen⟩
  rw [openCall_eq hs hm] at hopen
  have hr := Path.toString_inj (Prod.mk.inj (Except.ok.inj hopen)).2
  rw [← hr] at hc
  exact absurd (List.append_left_eq_self.mp hc) (List.cons_ne_nil _ _)

end SmallOs.Vfs
