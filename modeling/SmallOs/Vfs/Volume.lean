import Mathlib.Data.Option.Basic
import SmallOs.Ntfs.Catalog
import SmallOs.Ntfs.OpenPath
import SmallOs.Vfs.Descriptors
import SmallOs.Vfs.SplitReads

/-!
# NTFS volumes behind descriptors

`NtfsFsAdapter` of `lib/vfs/src/fs/ntfs/vfs_adapter.rs`, mounted in the filesystem layer. Whatever
is opened, read, written and closed through descriptors, the layer answers over NTFS volumes as
it does over the catalogues that they hold.
-/

namespace SmallOs.Vfs

open SmallOs.Base SmallOs.Hal SmallOs.Ntfs

/-! ### Layers over related filesystems -/

section Alike

variable {F F' H H' : Type} {RF : F → F' → Prop} {RH : H → H' → Prop}

/-- Related filesystems are mounted at the same texts. -/
def MountTable.Alike (RF : F → F' → Prop) (t : MountTable F) (t' : MountTable F') : Prop :=
  List.Forall₂ (fun e e' ↦ e.1 = e'.1 ∧ RF e.2 e'.2) t.mounts.toList t'.mounts.toList

/-- Both fail with the same error, or both return, related values. -/
inductive SameResult {α β : Type} (R : α → β → Prop) : Except FsError α → Except FsError β → Prop where
  | error (e : FsError) : SameResult R (.error e) (.error e)
  | ok {a : α} {b : β} (h : R a b) : SameResult R (.ok a) (.ok b)

/-- A round on related entries. -/
theorem MountTable.consider_alike {pathStr : Text} {best : Option F × Nat} {best' : Option F' × Nat}
    {e : Text × F} {e' : Text × F'} (hbest : Option.Rel RF best.1 best'.1) (hlen : best.2 = best'.2)
    (hkey : e.1 = e'.1) (hfs : RF e.2 e'.2) :
    Option.Rel RF (consider (fun _ fs ↦ fs) pathStr best e).1
        (consider (fun _ fs ↦ fs) pathStr best' e').1 ∧
      (consider (fun _ fs ↦ fs) pathStr best e).2 =
        (consider (fun _ fs ↦ fs) pathStr best' e').2 := by
  rw [consider, consider, hlen, hkey]
  split
  · exact ⟨.some hfs, rfl⟩
  · exact ⟨hbest, hlen⟩

/-- The same mount point wins in both tables. -/
theorem MountTable.Alike.findMount {t : MountTable F} {t' : MountTable F'} (h : Alike RF t t')
    (p : Path) : SameResult RF (t.findMount p) (t'.findMount p) := by
  have hloop : ∀ {es : List (Text × F)} {es' : List (Text × F')}
      {best : Option F × Nat} {best' : Option F' × Nat},
      List.Forall₂ (fun e e' ↦ e.1 = e'.1 ∧ RF e.2 e'.2) es es' →
      Option.Rel RF best.1 best'.1 → best.2 = best'.2 →
      Option.Rel RF (es.foldl (consider (fun _ fs ↦ fs) p.toString) best).1
        (es'.foldl (consider (fun _ fs ↦ fs) p.toString) best').1 := by
    intro es es' best best' hes
    induction hes generalizing best best' with
    | nil => exact fun hbest _ ↦ hbest
    | cons he _ ih =>
      intro hbest hlen
      obtain ⟨hnext, hlen'⟩ := consider_alike hbest hlen he.1 he.2
      exact ih hnext hlen'
  have hbest : Option.Rel RF (t.bestMatch (fun _ fs ↦ fs) p.toString)
      (t'.bestMatch (fun _ fs ↦ fs) p.toString) :=
    hloop h .none rfl
  unfold MountTable.findMount
  generalize t.bestMatch (fun _ fs ↦ fs) p.toString = best at hbest
  generalize t'.bestMatch (fun _ fs ↦ fs) p.toString = best' at hbest
  cases hbest with
  | some hfs => exact .ok hfs
  | none => exact .error _

/-- Layers that cannot be told apart from outside. -/
structure Vfs.Alike (RF : F → F' → Prop) (RH : H → H' → Prop) (v : Vfs F H) (v' : Vfs F' H') :
    Prop where
  mounts : MountTable.Alike RF v.mountTable v'.mountTable
  files : ∀ fd : Nat, Option.Rel RH v.fdTable[fd]? v'.fdTable[fd]?
  nextFd : v.nextFd = v'.nextFd

variable {v : Vfs F H} {v' : Vfs F' H'}

theorem Vfs.alike_mounted {t : MountTable F} {t' : MountTable F'} (h : t.Alike RF t') :
    Alike RF RH (mounted t : Vfs F H) (mounted t' : Vfs F' H') := by
  refine ⟨h, ?_, rfl⟩
  intro fd
  simp [mounted]

/-- A related file in both tables. -/
theorem Vfs.Alike.insert (h : Alike RF RH v v') {file : H} {file' : H'} (hrel : RH file file')
    (fd next : Nat) :
    Alike RF RH ⟨v.mountTable, v.fdTable.insert fd file, next⟩
      ⟨v'.mountTable, v'.fdTable.insert fd file', next⟩ := by
  refine ⟨h.mounts, ?_, rfl⟩
  intro fd'
  rw [getElem?_insert, getElem?_insert]
  split
  · exact .some hrel
  · exact h.files fd'

section Open

variable [FileSystem F H] [FileSystem F' H']

/-- Opening goes by the file that the path leads to. -/
theorem Vfs.openFile_fileAt (v : Vfs F H) (path : Text) (flags : OpenFlags) :
    v.openFile path flags = match v.fileAt path with
      | .error e => (.err e, v)
      | .ok file =>
        match v.allocFd with
        | (.ok fd, v) => (.ok fd, { v with fdTable := v.fdTable.insert fd file })
        | r => r := by
  unfold openFile fileAt
  cases v.openCall path with
  | error e => rfl
  | ok call =>
    obtain ⟨fs, pathStr⟩ := call
    dsimp only
    cases FileSystem.openFile fs pathStr <;> rfl

/-- The file that a path leads to, behind the mount point that wins. -/
theorem Vfs.fileAt_of_new {path : Text} {p : Path} (hp : Path.new path = .ok p) :
    v.fileAt path = match v.mountTable.findMount p with
      | .error e => .error e
      | .ok fs =>
        match FileSystem.openFile fs p.toString with
        | none => .error .notFound
        | some file => .ok file := by
  have hcall : v.openCall path = (v.mountTable.findMount p).map (·, p.toString) := by
    rw [openCall, hp]
    change (v.mountTable.findMount p >>= fun fs ↦ pure (fs, p.toString)) = _
    cases v.mountTable.findMount p <;> rfl
  rw [fileAt, hcall]
  cases v.mountTable.findMount p <;> rfl

/-- Where the filesystems open related files, so do the layers. -/
theorem Vfs.Alike.fileAt (h : Alike RF RH v v') {path : Text}
    (hopen : ∀ {fs : F} {fs' : F'} {p : Path}, Path.new path = .ok p → RF fs fs' →
      v'.mountTable.findMount p = .ok fs' →
      Option.Rel RH (FileSystem.openFile fs p.toString) (FileSystem.openFile fs' p.toString)) :
    SameResult RH (v.fileAt path) (v'.fileAt path) := by
  cases hp : Path.new path with
  | error e =>
    unfold Vfs.fileAt openCall
    rw [hp]
    exact .error e
  | ok p =>
    rw [fileAt_of_new hp, fileAt_of_new hp]
    have hfind := h.mounts.findMount p
    generalize v.mountTable.findMount p = found at hfind ⊢
    generalize hfound : v'.mountTable.findMount p = found' at hfind ⊢
    cases hfind with
    | error e => exact .error e
    | @ok fs fs' hfs =>
      have hfile := hopen hp hfs hfound
      dsimp only
      generalize FileSystem.openFile fs p.toString = file at hfile ⊢
      generalize FileSystem.openFile fs' p.toString = file' at hfile ⊢
      cases hfile with
      | some hrel => exact .ok hrel
      | none => exact .error _

end Open

variable [FileSystem F H] [FileSystem F' H'] [Read H] [Read H']

/-- Reading related files returns the same, and leaves them related. -/
def ReadsAlike (RH : H → H' → Prop) : Prop :=
  ∀ {file : H} {file' : H'} (buf : List UInt8), RH file file' →
    (Read.read file buf).1 = (Read.read file' buf).1 ∧
      RH (Read.read file buf).2 (Read.read file' buf).2

omit [FileSystem F H] [FileSystem F' H'] in
/-- Related files by themselves return the same. -/
theorem FileCall.alone_alike (hread : ReadsAlike RH) (call : FileCall) {file : Option H}
    {file' : Option H'} (h : Option.Rel RH file file') :
    (call.alone file).1 = (call.alone file').1 ∧
      Option.Rel RH (call.alone file).2 (call.alone file').2 := by
  cases h with
  | none => exact ⟨rfl, .none⟩
  | @some file file' hrel =>
    cases call with
    | write buf => exact ⟨rfl, .some hrel⟩
    | close => exact ⟨rfl, .none⟩
    | read buf =>
      obtain ⟨hreply, hnext⟩ := hread buf hrel
      simp only [alone, FileHandle.read]
      generalize Read.read file buf = r at hreply hnext
      generalize Read.read file' buf = r' at hreply hnext
      obtain ⟨⟨n, out⟩, next⟩ := r
      obtain ⟨⟨n', out'⟩, next'⟩ := r'
      obtain ⟨rfl, rfl⟩ := Prod.mk.inj hreply
      cases n with
      | none => exact ⟨rfl, .some hnext⟩
      | some n => exact ⟨rfl, .some hnext⟩

/-- Layers answer a call alike where the files that it opens are related, and stay alike. -/
theorem Vfs.Alike.serve (h : Alike RF RH v v') (hread : ReadsAlike RH) (call : FdCall)
    (hfile : ∀ path flags, call = .openFile path flags →
      SameResult RH (v.fileAt path) (v'.fileAt path)) :
    (v.serve call).1 = (v'.serve call).1 ∧ Alike RF RH (v.serve call).2 (v'.serve call).2 := by
  cases call with
  | openFile path flags =>
    have hsame := hfile path flags rfl
    rw [Vfs.serve, Vfs.serve, openFile_fileAt, openFile_fileAt]
    generalize v.fileAt path = found at hsame
    generalize v'.fileAt path = found' at hsame
    cases hsame with
    | error e => exact ⟨rfl, h⟩
    | @ok file file' hrel =>
      dsimp only
      rw [allocFd, allocFd, h.nextFd]
      cases (Outcome.addAt 64 v'.nextFd 1 : Outcome FsError Nat) with
      | ok next => exact ⟨rfl, h.insert hrel _ _⟩
      | err e => exact ⟨rfl, h⟩
      | panic => exact ⟨rfl, h⟩
  | on fd call =>
    obtain ⟨hreply, hfd⟩ := v.serve_on fd call
    obtain ⟨hreply', hfd'⟩ := v'.serve_on fd call
    obtain ⟨hmounts, hnext⟩ := v.serve_on_rest fd call
    obtain ⟨hmounts', hnext'⟩ := v'.serve_on_rest fd call
    obtain ⟨hsame, hrel⟩ := call.alone_alike hread (h.files fd)
    refine ⟨by rw [hreply, hreply', hsame], ?_, ?_, by rw [hnext, hnext', h.nextFd]⟩
    · rw [hmounts, hmounts']
      exact h.mounts
    · intro other
      by_cases hne : fd = other
      · rw [← hne, hfd, hfd']
        exact hrel
      · rw [v.serve_on_other call hne, v'.serve_on_other call hne]
        exact h.files other

/-- No call mounts anything. -/
theorem Vfs.serve_mountTable (v : Vfs F H) (call : FdCall) :
    (v.serve call).2.mountTable = v.mountTable := by
  cases call with
  | on fd call => exact (v.serve_on_rest fd call).1
  | openFile path flags =>
    rw [serve, openFile_fileAt]
    cases v.fileAt path with
    | error e => rfl
    | ok file =>
      dsimp only
      rw [allocFd]
      cases (Outcome.addAt 64 v.nextFd 1 : Outcome FsError Nat) <;> rfl

end Alike

/-! ### A volume as a filesystem -/

/-- `lib/hal/src/fs/mod.rs:15–24`. -/
inductive HalFsError where
  | notFound
  | notAFile
  | notADirectory
  | io (e : IoError)
  | invalidPath
  | corrupted
  | other
  deriving DecidableEq, Repr

/-- `lib/vfs/src/fs/ntfs/vfs_adapter.rs:36–58`: the file with its cursor; its path is not kept. -/
def adapterOpen {D : Type} [BlockDevice D] (driver : NtfsDriver) (path : Text) :
    Prog D HalFsError (NtfsFile × NtfsFileImpl) := do
  let file ← Prog.mapErr (fun _ ↦ .notFound) (openPath driver path)
  let st ← Prog.mapErr (fun _ ↦ .io .other) (stat driver file)
  Prog.lift (Outcome.ensure (st.isDirectory = false) .notAFile)
  return (file, { offset := 0, size := UInt64.ofNat st.size })

/-- A mounted volume: the driver and the image behind its lock. -/
structure NtfsVolume where
  driver : NtfsDriver
  image : ByteStore

/-- An open file of a volume; `lib/vfs/src/fs/ntfs/hal_impl.rs:50–56`. No call on it changes the
image that it shares with the volume. -/
structure OpenNtfsFile where
  volume : NtfsVolume
  file : NtfsFile
  cursor : NtfsFileImpl

instance : FileSystem NtfsVolume OpenNtfsFile where
  openFile v path :=
    match adapterOpen v.driver path v.image with
    | (.ok (file, cursor), image) => some ⟨{ v with image }, file, cursor⟩
    | _ => none

instance : Read OpenNtfsFile where
  read f buf :=
    match halRead f.volume.driver f.file buf.length ⟨f.volume.image, f.cursor⟩ with
    | (.ok bytes, s) => ((some bytes.length, bytes ++ buf.drop bytes.length),
        { f with volume.image := s.device, cursor := s.file })
    | (_, s) => ((none, buf), { f with volume.image := s.device, cursor := s.file })

/-- The files of a catalogue, by the only name in a path. -/
instance : FileSystem Catalog (List UInt8) where
  openFile c path :=
    match Path.split path with
    | [name] => if name = ['.', '.'] then none else (c.find name).bind c.contents
    | _ => none

/-- The first name in the path is unknown to the catalogue, or that of a file. -/
def Known (c : Catalog) (path : Text) : Prop :=
  ∀ name rest n, Path.split path = name :: rest → c.find name = some n → (c.contents n).isSome

/-- The root directory of the volume holds the catalogue. -/
structure Shows (v : NtfsVolume) (c : Catalog) : Prop where
  holds : Holds v.driver ⟨5⟩ v.image c
  root : ∃ st, statAt v.driver v.image 5 = .ok st ∧ st.isDirectory = true

/-- What is left to read of an open file. -/
def LeftOf (f : OpenNtfsFile) (left : List UInt8) : Prop :=
  ∃ content, HasContent f.volume.driver f.file.recordNumber f.volume.image content ∧
    left = content.drop f.cursor.offset.toNat

theorem hasContent_of_stored {driver : NtfsDriver} {d : ByteStore} {n : Nat}
    {content : List UInt8} (h : Stored driver d n content) : HasContent driver n d content := by
  refine ⟨h.readFileAll, ?_⟩
  obtain ⟨record, a, st, hf, hu⟩ := h
  rw [hf.length_content hu]
  exact Nat.lt_trans (leAt_lt _ _ _) (by decide)

/-- A read takes from what is left. -/
theorem readsAlike_leftOf : ReadsAlike LeftOf := by
  rintro ⟨⟨driver, image⟩, file, cursor⟩ left buf ⟨content, hc, rfl⟩
  have hlength : content.length < 2 ^ 64 := hc.length_lt
  have hlt := cursor.offset.toNat_lt
  have hlen := length_slice_eq content cursor.offset.toNat buf.length
  have hread : halRead driver file buf.length ⟨image, cursor⟩ = _ :=
    halRead_byteStore (s := ⟨image, cursor⟩) hc buf.length
  simp only [Read.read, hread]
  refine ⟨?_, content, hc, ?_⟩
  · have hrest : buf.drop (slice content cursor.offset.toNat buf.length).length =
        buf.drop (content.length - cursor.offset.toNat) := by
      rw [hlen]
      rcases Nat.le_total buf.length (content.length - cursor.offset.toNat) with hle | hle
      · rw [Nat.min_eq_left hle, List.drop_length, List.drop_of_length_le hle]
      · rw [Nat.min_eq_right hle]
    rw [hrest, hlen, Nat.min_comm, List.length_drop]
    rfl
  · have hoffset := HalFile.toNat_offset_advance (s := ⟨image, cursor⟩)
      (n := (slice content cursor.offset.toNat buf.length).length) (by
        change cursor.offset.toNat + _ < 2 ^ 64
        omega)
    rw [hoffset, hlen, List.drop_drop]
    change content.drop (cursor.offset.toNat + buf.length) = _
    rcases Nat.le_total buf.length (content.length - cursor.offset.toNat) with hle | hle
    · rw [Nat.min_eq_left hle]
    · rw [Nat.min_eq_right hle, List.drop_of_length_le (by omega),
        List.drop_of_length_le (by change _ ≤ cursor.offset.toNat + _; omega)]

/-! ### Opening -/

section Opening

variable {driver : NtfsDriver} {d : ByteStore} {c : Catalog}

/-- One step from the root: the name is looked up in the catalogue. -/
theorem openChild_root (h : Shows ⟨driver, d⟩ c) {name : Text} (hdots : name ≠ ['.', '.']) :
    openChild driver ⟨5⟩ name d =
      match c.find name with
      | none => (.err .fileNotFound, d)
      | some n => ((fun _ ↦ ⟨n⟩) <$> recordAt driver d n, d) := by
  obtain ⟨st, hst, hdir⟩ := h.root
  have hstat : stat driver ⟨5⟩ d = (.ok st, d) := by
    rw [stat_byteStore]
    exact congrArg (·, d) hst
  have hlookup : (getIndexData driver ⟨5⟩ st >>= fun data ↦
      Prog.lift (findEntry data name)) d = (Outcome.ofOption .fileNotFound (c.find name), d) := by
    have hfind := h.holds.find_eq name
    rw [findInDirectory, directoryIndex, bind_assoc, Prog.bind_of_ok hstat] at hfind
    exact hfind
  rw [openChild, if_neg hdots, Prog.bind_of_ok hstat,
    Prog.bind_of_ok (Prog.lift_eq_ok.mpr ⟨Outcome.ensure_of hdir, rfl⟩), ← bind_assoc]
  cases hname : c.find name with
  | none =>
    rw [hname] at hlookup
    exact Prog.bind_of_err hlookup
  | some n =>
    rw [hname] at hlookup
    rw [Prog.bind_of_ok hlookup, openFile_byteStore]

theorem openPath_split (driver : NtfsDriver) (path : Text) :
    (openPath driver path : Prog ByteStore NtfsError NtfsFile) =
      (Path.split path).foldlM (openChild driver) ⟨5⟩ := by
  rw [openPath_eq, pathComponents_eq]

variable {v : NtfsVolume} {path : Text}

theorem openFile_of_openPath_err {e : NtfsError} (h : openPath v.driver path v.image = (.err e, v.image)) :
    (FileSystem.openFile v path : Option OpenNtfsFile) = none := by
  have hopen : Prog.mapErr (fun _ ↦ HalFsError.notFound) (openPath v.driver path) v.image =
      (.err .notFound, v.image) := by
    rw [Prog.mapErr, h]
    rfl
  have hadapter : adapterOpen v.driver path v.image = (.err .notFound, v.image) :=
    Prog.bind_of_err hopen
  simp only [FileSystem.openFile, hadapter]

theorem openFile_of_openPath_ok {file : NtfsFile} {st : NtfsStat}
    (h : openPath v.driver path v.image = (.ok file, v.image))
    (hst : statAt v.driver v.image file.recordNumber = .ok st) :
    (FileSystem.openFile v path : Option OpenNtfsFile) =
      if st.isDirectory = false then some ⟨v, file, ⟨0, UInt64.ofNat st.size⟩⟩ else none := by
  have hopen : Prog.mapErr (fun _ ↦ HalFsError.notFound) (openPath v.driver path) v.image =
      (.ok file, v.image) := by
    rw [Prog.mapErr, h]
    rfl
  have hstat : Prog.mapErr (fun _ ↦ HalFsError.io .other) (stat v.driver file) v.image =
      (.ok st, v.image) := by
    rw [Prog.mapErr, stat_byteStore, hst]
    rfl
  have hadapter : adapterOpen v.driver path v.image =
      (Prog.lift (Outcome.ensure (st.isDirectory = false) HalFsError.notAFile) >>= fun _ ↦
        pure (file, { offset := 0, size := UInt64.ofNat st.size })) v.image :=
    (Prog.bind_of_ok hopen).trans (Prog.bind_of_ok hstat)
  simp only [FileSystem.openFile, hadapter]
  split_ifs with hdir
  · rw [Prog.bind_of_ok (Prog.lift_eq_ok.mpr ⟨Outcome.ensure_of hdir, rfl⟩)]
    rfl
  · rw [Outcome.ensure_not hdir]
    rfl

/-- A step from a file is refused. -/
theorem openChild_file {n : Nat} {content : List UInt8} (h : Stored driver d n content)
    (name : Text) : ∃ e, openChild driver ⟨n⟩ name d = (.err e, d) := by
  obtain ⟨record, a, st, hf, -⟩ := h
  rw [openChild]
  split
  · exact ⟨_, rfl⟩
  · have hstat : stat driver ⟨n⟩ d = (.ok st, d) := by
      rw [stat_byteStore, statAt, hf.read, Outcome.ok_bind, hf.stat]
    have hdir : ¬ st.isDirectory = true := by
      rw [hf.file]
      exact Bool.false_ne_true
    rw [Prog.bind_of_ok hstat, Outcome.ensure_not hdir]
    exact ⟨_, rfl⟩

theorem openFile_catalog (c : Catalog) (path : Text) :
    (FileSystem.openFile c path : Option (List UInt8)) =
      match Path.split path with
      | [name] => if name = ['.', '.'] then none else (c.find name).bind c.contents
      | _ => none := rfl

/-- Under a path whose first name is that of a file or unknown, the volume opens what the
catalogue has. -/
theorem Shows.openFile_alike (h : Shows v c) (hknown : Known c path) :
    Option.Rel LeftOf (FileSystem.openFile v path) (FileSystem.openFile c path) := by
  obtain ⟨driver, d⟩ := v
  have hsplit := openPath_split driver path
  rw [openFile_catalog]
  cases hnames : Path.split path with
  | nil =>
    obtain ⟨st, hst, hdir⟩ := h.root
    rw [hnames] at hsplit
    have hopen : openPath driver path d = (.ok ⟨5⟩, d) := by
      rw [hsplit]
      rfl
    rw [openFile_of_openPath_ok (v := ⟨driver, d⟩) hopen hst, hdir]
    exact .none
  | cons name rest =>
    rw [hnames, List.foldlM_cons] at hsplit
    by_cases hdots : name = ['.', '.']
    · have hopen : openPath driver path d = (.err .invalidInput, d) := by
        rw [hsplit, openChild, if_pos hdots]
        rfl
      rw [openFile_of_openPath_err (v := ⟨driver, d⟩) hopen]
      cases rest with
      | nil => simp [hdots]
      | cons _ _ => exact .none
    have hroot := openChild_root h hdots
    cases hname : c.find name with
    | none =>
      rw [hname] at hroot
      have hopen : openPath driver path d = (.err .fileNotFound, d) := by
        rw [hsplit]
        exact Prog.bind_of_err hroot
      rw [openFile_of_openPath_err (v := ⟨driver, d⟩) hopen]
      cases rest with
      | nil => simp [hdots, hname]
      | cons _ _ => exact .none
    | some n =>
      obtain ⟨content, hcontent⟩ := Option.isSome_iff_exists.mp (hknown name rest n hnames hname)
      obtain ⟨-, hstored⟩ := h.holds.stored n content hcontent
      obtain ⟨record, a, st, hf, hu⟩ := id hstored
      have hread : recordAt driver d n = .ok record := hf.read
      have hchild : openChild driver ⟨5⟩ name d = (.ok ⟨n⟩, d) := by
        rw [hroot, hname]
        dsimp only
        rw [hread]
        rfl
      have hfirst : openPath driver path d =
          (rest.foldlM (openChild driver) ⟨n⟩ : Prog ByteStore NtfsError NtfsFile) d := by
        rw [hsplit]
        exact Prog.bind_of_ok hchild
      cases rest with
      | nil =>
        have hst : statAt driver d n = .ok st := by
          rw [statAt, hread, Outcome.ok_bind, hf.stat]
        rw [openFile_of_openPath_ok (v := ⟨driver, d⟩) hfirst hst, if_pos hf.file]
        have hfound : (c.find name).bind c.contents = some content := by
          rw [hname]
          exact hcontent
        simp only [if_neg hdots, hfound]
        exact .some ⟨content, hasContent_of_stored hstored, rfl⟩
      | cons next rest =>
        obtain ⟨e, hrefused⟩ := openChild_file hstored next
        have hopen : openPath driver path d = (.err e, d) := by
          rw [hfirst, List.foldlM_cons]
          exact Prog.bind_of_err hrefused
        rw [openFile_of_openPath_err (v := ⟨driver, d⟩) hopen]
        exact .none

end Opening

/-! ### Whole runs -/

/-- Only paths whose first name is that of a file or unknown are opened. -/
def OpensKnown (t : MountTable Catalog) (inputs : List FdCall) : Prop :=
  ∀ path flags p c, .openFile path flags ∈ inputs → Path.new path = .ok p →
    t.findMount p = .ok c → Known c p.toString

/-- Over volumes that hold catalogues, whatever is opened, read, written and closed through
descriptors is answered as over the catalogues, in which an open file is the bytes that are left
to read of it. -/
theorem volumes_as_catalogues {t : MountTable NtfsVolume} {t' : MountTable Catalog}
    (h : t.Alike Shows t') {inputs : List FdCall} (hknown : OpensKnown t' inputs) :
    replies Vfs.serve (Vfs.mounted t : Vfs NtfsVolume OpenNtfsFile) inputs =
      replies Vfs.serve (Vfs.mounted t' : Vfs Catalog (List UInt8)) inputs := by
  suffices hall : ∀ (v : Vfs NtfsVolume OpenNtfsFile) (v' : Vfs Catalog (List UInt8)),
      v.Alike Shows LeftOf v' → v'.mountTable = t' →
        replies Vfs.serve v inputs = replies Vfs.serve v' inputs from
    hall _ _ (Vfs.alike_mounted h) rfl
  induction inputs with
  | nil => exact fun _ _ _ _ ↦ rfl
  | cons call inputs ih =>
    intro v v' halike hmounts
    obtain ⟨hreply, hnext⟩ := halike.serve readsAlike_leftOf call (by
      rintro path flags rfl
      apply halike.fileAt
      intro fs fs' p hp hfs hfound
      rw [hmounts] at hfound
      exact hfs.openFile_alike (hknown path flags p fs' List.mem_cons_self hp hfound))
    rw [replies_cons, replies_cons, hreply]
    congr 1
    apply ih _ _ _ hnext ((v'.serve_mountTable call).trans hmounts)
    intro path flags p c hmem
    exact hknown path flags p c (List.mem_cons_of_mem _ hmem)

/-- The catalogue of a directory with one file. -/
def oneFileCatalog : Catalog := emptyCatalog.add ['a'] 16 (some [])

theorem shows_oneFile : ∃ image, Shows ⟨smallDriver, image⟩ oneFileCatalog := by
  obtain ⟨image, hcall, -⟩ := createFile_emptyDirectory
  have hheld := holds_emptyDirectory
  have hplain := plainDirectory_emptyDirectory
  generalize smallVolume (emptyDirectory 232) = d at hcall hheld hplain
  have hc : Completes smallDriver d (smallInput ['a']) 16 image := createFile_eq_ok.mp hcall
  have hname : PlainName ['a'] := by decide
  have hsize : 1024 ≤ smallDriver.mftRecordSize := by decide
  have hnew := hheld.create_ok rfl hsize hname (List.cons_ne_nil _ _) hc
  obtain ⟨w, hres⟩ := Outcome.isOk_iff.mp plan_isOk
  obtain ⟨r, hread, hgrown⟩ := hplain.grown hc hres
  have hrec : recordAt smallDriver image 5 = .ok r := hread
  obtain ⟨st, hst, hdir⟩ := parseStat_emptyDirectory
  obtain ⟨-, hst'⟩ := hgrown.parseStat_eq hplain.root.value hst
  refine ⟨image, hnew.2.2, st.withRoot (some (emptyRoot.reread r).root), ?_, hdir⟩
  rw [statAt, hrec, Outcome.ok_bind, hst']

theorem known_oneFile (path : Text) : Known oneFileCatalog path := by
  intro name rest n _ hname
  simp only [Catalog.find, oneFileCatalog, Catalog.add, emptyCatalog, List.nil_append,
    List.find?_cons, List.find?_nil] at hname
  split at hname
  · cases hname
    rfl
  · cases hname

/-- The file, which is empty, read through a descriptor. -/
theorem volumes_as_catalogues_oneFile : ∃ image,
    replies Vfs.serve (Vfs.mounted (MountTable.new.mount ⟨smallDriver, image⟩
        MountTable.rootPath).2 : Vfs NtfsVolume OpenNtfsFile)
      [.openFile ['/', 'a'] .READ, .on 0 (.read [7]), .on 0 .close, .on 0 (.read [7])] =
      [.opened (.ok 0), .read (.ok 0) [7], .closed (.ok ()), .read (.error .badFd) [7]] := by
  obtain ⟨image, hshows⟩ := shows_oneFile
  refine ⟨image, ?_⟩
  have hmounts : MountTable.Alike Shows
      (MountTable.new.mount (⟨smallDriver, image⟩ : NtfsVolume) MountTable.rootPath).2
      (MountTable.new.mount oneFileCatalog MountTable.rootPath).2 := .cons ⟨rfl, hshows⟩ .nil
  have hknown : OpensKnown (MountTable.new.mount oneFileCatalog MountTable.rootPath).2
      [.openFile ['/', 'a'] .READ, .on 0 (.read [7]), .on 0 .close, .on 0 (.read [7])] := by
    intro path flags p c hmem hp hfound
    simp only [List.mem_cons, FdCall.openFile.injEq, reduceCtorEq, List.not_mem_nil, or_false]
      at hmem
    obtain ⟨rfl, rfl⟩ := hmem
    cases hp
    obtain rfl : oneFileCatalog = c := Except.ok.inj hfound
    exact known_oneFile _
  rw [volumes_as_catalogues hmounts hknown]
  rfl

end SmallOs.Vfs
