import SmallOs.Ntfs.Resident
import SmallOs.Ntfs.Stored
import Mathlib.Logic.Function.Basic

/-!
# The volume as a catalogue

What a volume is for: a list of names with file numbers, and the contents of files. Every run
of `create_file`, `write_file`, `read_file_all`, `find_in_directory` and `list_directory` on a
directory that keeps its index in its record is a run of such a catalogue, with the same replies.
-/

namespace SmallOs.Ntfs

open SmallOs.Base SmallOs.Hal

/-- The names of a directory in their order, and the contents of files by their numbers. -/
structure Catalog where
  names : List (List Char × Nat)
  contents : Nat → Option (List UInt8)

namespace Catalog

/-- The number that goes by a name, whatever the case of its letters. -/
def find (c : Catalog) (name : List Char) : Option Nat :=
  (c.names.find? fun e ↦ eqIgnoreAsciiCase e.1 name).map (·.2)

/-- One more name, whose number has the content. -/
def add (c : Catalog) (name : List Char) (n : Nat) (content : Option (List UInt8)) : Catalog where
  names := c.names ++ [(name, n)]
  contents := Function.update c.contents n content

/-- Another content of a file. -/
def put (c : Catalog) (n : Nat) (data : List UInt8) : Catalog :=
  { c with contents := Function.update c.contents n (some data) }

variable {c : Catalog} {name : List Char} {n m : Nat}

@[simp] theorem contents_add_self (content : Option (List UInt8)) :
    (c.add name n content).contents n = content := by
  simp [add]

theorem contents_add_of_ne (h : m ≠ n) {content : Option (List UInt8)} :
    (c.add name n content).contents m = c.contents m := by
  simp [add, h]

@[simp] theorem contents_put_self (data : List UInt8) : (c.put n data).contents n = some data := by
  simp [put]

theorem contents_put_of_ne (h : m ≠ n) {data : List UInt8} :
    (c.put n data).contents m = c.contents m := by
  simp [put, h]

end Catalog

/-- A call of the driver on one directory. -/
inductive Request where
  | create (name : List Char) (options : CreateOptions)
  | write (n : Nat) (data : List UInt8)
  | read (n : Nat)
  | find (name : List Char)
  | list

/-- What a call returns. -/
inductive Reply where
  | created (r : Outcome NtfsError Nat)
  | written (r : Outcome NtfsError Unit)
  | content (r : Outcome NtfsError (List UInt8))
  | found (r : Outcome NtfsError Nat)
  | names (r : Outcome NtfsError (List (List Char)))

/-- The content of a new file; a directory has none. -/
def CreateOptions.content (options : CreateOptions) : Option (List UInt8) :=
  if options.isDirectory then none else some options.data

/-- How a catalogue answers. A creation may fail, which changes nothing; a new number is not in
use. A file that is not in the catalogue yet may be written or not. -/
inductive Answers : Call Catalog Request Reply → Prop where
  | created {c : Catalog} {name : List Char} {n : Nat} (options : CreateOptions) :
      c.find name = none → (∀ e ∈ c.names, e.2 ≠ n) → c.contents n = none →
      Answers ⟨c, .create name options, .created (.ok n), c.add name n options.content⟩
  | present {c : Catalog} {name : List Char} {n : Nat} (options : CreateOptions) :
      c.find name = some n →
      Answers ⟨c, .create name options, .created (.err .alreadyExists), c⟩
  | failed {c : Catalog} {name : List Char} {r : Outcome NtfsError Nat} (options : CreateOptions) :
      c.find name = none → (∀ n, r ≠ .ok n) →
      Answers ⟨c, .create name options, .created r, c⟩
  | written {c : Catalog} {n : Nat} {old data : List UInt8} :
      c.contents n = some old → data.length = old.length →
      Answers ⟨c, .write n data, .written (.ok ()), c.put n data⟩
  | refused {c : Catalog} {n : Nat} {old data : List UInt8} :
      c.contents n = some old → data.length ≠ old.length →
      Answers ⟨c, .write n data, .written (.err .invalidAttribute), c⟩
  | learned {c : Catalog} {n : Nat} (data : List UInt8) :
      c.contents n = none → Answers ⟨c, .write n data, .written (.ok ()), c.put n data⟩
  | elsewhere {c : Catalog} {n : Nat} {r : Outcome NtfsError Unit} (data : List UInt8) :
      c.contents n = none → r ≠ .ok () → Answers ⟨c, .write n data, .written r, c⟩
  | content {c : Catalog} {n : Nat} {data : List UInt8} :
      c.contents n = some data → Answers ⟨c, .read n, .content (.ok data), c⟩
  | unknown {c : Catalog} {n : Nat} (r : Outcome NtfsError (List UInt8)) :
      c.contents n = none → Answers ⟨c, .read n, .content r, c⟩
  | found (c : Catalog) (name : List Char) :
      Answers ⟨c, .find name, .found (Outcome.ofOption .fileNotFound (c.find name)), c⟩
  | names (c : Catalog) : Answers ⟨c, .list, .names (.ok (c.names.map Prod.fst)), c⟩

/-- The call gives a file its content. -/
def Gives {σ : Type} (n : Nat) (data : List UInt8) (x : Call σ Request Reply) : Prop :=
  (∃ name options, x.input = .create name options ∧ x.output = .created (.ok n) ∧
    options.content = some data) ∨ (x.input = .write n data ∧ x.output = .written (.ok ()))

/-- The call is a write of the file that goes through. -/
def Overwritten {σ : Type} (n : Nat) (x : Call σ Request Reply) : Prop :=
  ∃ data, x.input = .write n data ∧ x.output = .written (.ok ())

namespace Answers

variable {x : Call Catalog Request Reply} {n : Nat} {data : List UInt8}

theorem gives (h : Answers x) (hx : Gives n data x) : x.after.contents n = some data := by
  rcases hx with ⟨name, options, hin, hout, hcontent⟩ | ⟨hin, hout⟩
  · cases h <;> cases hin <;> cases hout
    · exact (Catalog.contents_add_self _).trans hcontent
    · next hno => exact absurd rfl (hno n)
  · cases h <;> cases hin <;> cases hout
    · exact Catalog.contents_put_self data
    · exact Catalog.contents_put_self data
    · next hno => exact absurd rfl hno

/-- Only a write of the file itself changes its content. -/
theorem kept (h : Answers x) (hx : ¬ Overwritten n x) (hn : x.before.contents n = some data) :
    x.after.contents n = some data := by
  cases h with
  | created options hfind hnew hnone =>
    rw [Catalog.contents_add_of_ne, hn]
    rintro rfl
    rw [hnone] at hn
    cases hn
  | written hold hl =>
    rw [Catalog.contents_put_of_ne, hn]
    rintro rfl
    exact hx ⟨_, rfl, rfl⟩
  | learned data hnone =>
    rw [Catalog.contents_put_of_ne, hn]
    rintro rfl
    exact hx ⟨_, rfl, rfl⟩
  | _ => exact hn

theorem read_eq (h : Answers x) (hx : x.input = .read n) (hn : x.before.contents n = some data) :
    x.output = .content (.ok data) := by
  cases h <;> cases hx
  · next hdata =>
    rw [hdata] at hn
    cases hn
    rfl
  · next hnone =>
    rw [hnone] at hn
    cases hn

end Answers

/-- The calls of the driver. -/
def serve {D : Type} [BlockDevice D] (driver : NtfsDriver) (dir : NtfsFile) (d : D) :
    Request → Reply × D
  | .create name options =>
    let (r, d') := createFile driver dir name options d
    (.created (NtfsFile.recordNumber <$> r), d')
  | .write n data =>
    let (r, d') := writeFile driver ⟨n⟩ data d
    (.written r, d')
  | .read n =>
    let (r, d') := readFileAll driver ⟨n⟩ d
    (.content r, d')
  | .find name =>
    let (r, d') := findInDirectory driver dir name d
    (.found r, d')
  | .list =>
    let (r, d') := listDirectory driver dir d
    (.names r, d')

theorem serve_create {D : Type} [BlockDevice D] {driver : NtfsDriver} {dir : NtfsFile} {d d' : D}
    {name : List Char} {options : CreateOptions} {r : Outcome NtfsError NtfsFile}
    (hcall : createFile driver dir name options d = (r, d')) :
    serve driver dir d (.create name options) = (.created (NtfsFile.recordNumber <$> r), d') := by
  simp only [serve, hcall]

/-- A call that asks for nothing strange: a new name is plain and not empty, and only stored files
are written. -/
def Proper (driver : NtfsDriver) (dir : NtfsFile) (d : ByteStore) : Request → Prop
  | .create name _ => PlainName name ∧ name ≠ []
  | .write n _ => n ≠ dir.recordNumber ∧ ∃ content, Stored driver d n content
  | _ => True

/-- The call is what the driver does, and a proper one. -/
def IsServed (driver : NtfsDriver) (dir : NtfsFile) (x : Call ByteStore Request Reply) : Prop :=
  serve driver dir x.before x.input = (x.output, x.after) ∧ Proper driver dir x.before x.input

/-- The names and numbers in an index. -/
def indexNames (data : List UInt8) : List (List Char × Nat) :=
  (indexEntries data).filterMap fun e ↦ e.name.map (·, e.fileRef % 2 ^ 48)

/-- The image holds the catalogue: the directory has its names, whose records are in use, and its
files are stored. -/
structure Holds (driver : NtfsDriver) (dir : NtfsFile) (d : ByteStore) (c : Catalog) : Prop where
  directory : ∃ record a, ResidentDirectory driver d dir record a ∧ indexNames a.root = c.names
  used : ∀ e ∈ c.names, SlotInUse driver d e.2
  stored : ∀ n content, c.contents n = some content →
    n ≠ dir.recordNumber ∧ Stored driver d n content

variable {driver : NtfsDriver} {dir : NtfsFile} {d d' : ByteStore} {c : Catalog}

/-! ### Looking up -/

theorem listEntries_eq_fst (data : List UInt8) :
    listEntries data = (indexNames data).map Prod.fst := by
  rw [listEntries, indexNames, List.map_filterMap]
  congr 1
  funext e
  cases e.name <;> rfl

/-- The lookup in an index is the lookup among its names. -/
theorem findEntry_eq (data : List UInt8) (name : List Char) :
    findEntry data name = Outcome.ofOption .fileNotFound
      (((indexNames data).find? fun e ↦ eqIgnoreAsciiCase e.1 name).map (·.2)) := by
  have hpred : (fun e : IndexEntry ↦ (e.name.map (·, e.fileRef % 2 ^ 48)).any
      fun p ↦ eqIgnoreAsciiCase p.1 name) = fun e ↦ e.name.any (eqIgnoreAsciiCase · name) := by
    funext e
    rw [Option.any_map]
  rw [findEntry, indexNames, List.find?_filterMap, hpred]
  split
  · next e he =>
    have hany := List.find?_some he
    rw [he]
    cases hname : e.name with
    | none =>
      rw [hname] at hany
      cases hany
    | some n =>
      simp only [Option.bind_some, hname]
      rfl
  · next he =>
    rw [he]
    rfl

namespace Holds

theorem inUse_dir (h : Holds driver dir d c) : SlotInUse driver d dir.recordNumber := by
  obtain ⟨record, a, hdir, -⟩ := h.directory
  obtain ⟨buf, hs, ho⟩ := recordAt_eq_ok.mp hdir.read
  obtain ⟨-, hsig, -⟩ := openRecord_eq_ok.mp ho
  exact ⟨buf, hs, .inl hsig⟩

theorem find_eq (h : Holds driver dir d c) (name : List Char) :
    findInDirectory driver dir name d =
      (Outcome.ofOption .fileNotFound (c.find name), d) := by
  obtain ⟨record, a, hdir, hnames⟩ := h.directory
  rw [findInDirectory_byteStore, hdir.indexAt_eq, Outcome.ok_bind, findEntry_eq, hnames]
  rfl

theorem list_eq (h : Holds driver dir d c) :
    listDirectory driver dir d = (.ok (c.names.map Prod.fst), d) := by
  obtain ⟨record, a, hdir, hnames⟩ := h.directory
  rw [listDirectory_byteStore, hdir.indexAt_eq, ← hnames, ← listEntries_eq_fst]
  rfl

/-- The slots that are in use count, and no others. -/
theorem frame (h : Holds driver dir d c)
    (hs : ∀ m, SlotInUse driver d m → slot driver d' m = slot driver d m) :
    Holds driver dir d' c := by
  obtain ⟨record, a, hdir, hnames⟩ := h.directory
  refine ⟨⟨record, a, hdir.congr (hs _ h.inUse_dir), hnames⟩, ?_, ?_⟩
  · intro e he
    obtain ⟨buf, hslot, hin⟩ := h.used e he
    exact ⟨buf, (hs _ (h.used e he)).trans hslot, hin⟩
  · intro n content hn
    obtain ⟨hne, hstored⟩ := h.stored n content hn
    exact ⟨hne, hstored.congr (hs n hstored.inUse)⟩

/-! ### Creating -/

theorem noAllocation (h : Holds driver dir d c) : NoAllocation driver d dir := by
  obtain ⟨record, a, hdir, -⟩ := h.directory
  rw [NoAllocation, hdir.read, Outcome.ok_bind]
  exact hdir.alone

/-- A name of the catalogue cannot be created. -/
theorem create_present (h : Holds driver dir d c) {name : List Char} {n : Nat}
    (hfind : c.find name = some n) (options : CreateOptions) :
    createFile driver dir name options d = (.err .alreadyExists, d) := by
  obtain ⟨record, a, hdir, hnames⟩ := h.directory
  apply createFile_again (n := n) hdir.isDirectoryAt_eq
  rw [hdir.indexAt_eq, Outcome.ok_bind, findEntry_eq, hnames]
  exact congrArg (Outcome.ofOption _) hfind

/-- A call that goes through adds the name, under a number that was not in use. -/
theorem create_ok (h512 : driver.sectorSize = 512) (hsize : 1024 ≤ driver.mftRecordSize)
    (h : Holds driver dir d c) {name : List Char} {options : CreateOptions} {n : Nat}
    (hplain : PlainName name) (hne : name ≠ [])
    (hc : Completes driver d ⟨dir, name, options⟩ n d') :
    (∀ e ∈ c.names, e.2 ≠ n) ∧ c.contents n = none ∧
      Holds driver dir d' (c.add name n options.content) := by
  obtain ⟨record, a, hdir, hnames⟩ := h.directory
  have hcall : IsCreate driver ⟨d, ⟨dir, name, options⟩, .ok ⟨n⟩, d'⟩ := createFile_eq_ok.mpr hc
  obtain ⟨h16, hfree, hin⟩ := created_spec hcall rfl
  obtain ⟨new, _, _, _, _, hplaced, hplan, hw, -⟩ := id hc
  have hslot := hdir.slot_new hplaced hplan hw
  have hprep := hplaced.prepared
  obtain ⟨hfirst, hparent⟩ := prepared_claims hprep
  have hkept : ∀ m, SlotInUse driver d m → SlotKept driver _ m :=
    fun m hm ↦ slotKept_of_isCreate h512 hcall h.noAllocation hm
  have hnumber : n % 2 ^ 48 = n := Nat.mod_eq_of_lt (by
    obtain ⟨-, hlt, -⟩ := hfirst
    omega)
  have hnew : ∀ e ∈ c.names, e.2 ≠ n := by
    rintro e he rfl
    exact hfree (h.used e he)
  refine ⟨hnew, ?_, ?_, ?_, ?_⟩
  · cases hn : c.contents n with
    | none => rfl
    | some content => exact absurd (h.stored n content hn).2.inUse hfree
  · obtain ⟨r, a', hdir', hentries⟩ := hdir.completes hc hne
    refine ⟨r, a', hdir', ?_⟩
    rw [indexNames, hentries, List.filterMap_append, shownName_eq_iff.mpr hplain]
    change indexNames a.root ++ [(name, n % 2 ^ 48)] = _
    rw [hnames, hnumber]
    rfl
  · intro e he
    rcases List.mem_append.mp he with he | he
    · rcases hkept e.2 (h.used e he) with hsame | ⟨-, buf, hbuf, hsig⟩
      · obtain ⟨buf, hbuf, hinUse⟩ := h.used e he
        exact ⟨buf, hsame.trans hbuf, hinUse⟩
      · exact ⟨buf, hbuf, hsig.inUse⟩
    · obtain rfl := List.mem_singleton.mp he
      exact hin
  · intro m content hm
    by_cases hmn : m = n
    · subst hmn
      refine ⟨hparent, ?_⟩
      obtain ⟨isDirectory, data⟩ := options
      rw [Catalog.contents_add_self] at hm
      cases isDirectory with
      | true => cases hm
      | false =>
        cases hm
        exact stored_of_prepared h512 hsize hplain hprep hslot
    · rw [Catalog.contents_add_of_ne hmn] at hm
      obtain ⟨hdirNe, hstored⟩ := h.stored m content hm
      refine ⟨hdirNe, hstored.congr ?_⟩
      rcases hkept m hstored.inUse with hsame | ⟨heq, -⟩
      · exact hsame
      · exact absurd heq hdirNe

/-- A record in a slot that was not in use leaves the catalogue as it is. -/
theorem placed (h : Holds driver dir d c) {name : List Char} {options : CreateOptions}
    {n off : Nat} {record : List UInt8}
    (hprep : prepared driver d dir name options = .ok (n, record))
    (hoff : driver.recordOffset n = .ok off) (hw : d.write off record = some d') :
    Holds driver dir d' c := by
  obtain ⟨hfirst, -⟩ := prepared_claims hprep
  have hlen := (prepared_placed hprep).1
  apply h.frame
  intro m hm
  apply slot_write_other hoff hlen hw
  rintro rfl
  exact hfirst.2.2.1.not_inUse hm

/-- How a creation under a new name answers, and what it leaves. -/
theorem create_absent (h512 : driver.sectorSize = 512) (h : Holds driver dir d c)
    {name : List Char} {options : CreateOptions} {r : Outcome NtfsError NtfsFile}
    (hcall : createFile driver dir name options d = (r, d')) :
    (∃ n, r = .ok ⟨n⟩ ∧ Completes driver d ⟨dir, name, options⟩ n d') ∨
      (∀ f, r ≠ .ok f) ∧ Holds driver dir d' c := by
  by_cases hok : ∃ f, r = .ok f
  · obtain ⟨f, hf⟩ := hok
    rw [hf] at hcall
    exact .inl ⟨f.recordNumber, hf, createFile_eq_ok.mp hcall⟩
  · refine .inr ⟨fun f hf ↦ hok ⟨f, hf⟩, ?_⟩
    rcases createFile_cases hcall with ⟨rfl, -⟩ | ⟨n, record, off, d₁, hprep, hoff, hw, hrest⟩
    · exact h
    rcases hrest with ⟨rfl, -⟩ | ⟨off', bytes, hplan, hw', hopen⟩
    · exact h.placed hprep hoff hw
    · -- The new record opens, so the call does not fail behind its last write.
      obtain ⟨_, _, hdir, -⟩ := h.directory
      obtain ⟨-, opened, hopened⟩ := prepared_opens h512 hprep
      have hplaced : Placed driver d ⟨dir, name, options⟩ n record d₁ := ⟨hprep, off, hoff, hw⟩
      have hslot : slot driver d' n = .ok record := hdir.slot_new hplaced hplan hw'
      rw [recordAt, hslot, Outcome.ok_bind, hopened] at hopen
      exact absurd ⟨_, hopen⟩ hok

/-! ### Writing -/

/-- Another content of a stored file is all that changes. -/
theorem write_ok (h512 : driver.sectorSize = 512) (h : Holds driver dir d c) {n : Nat}
    {old data : List UInt8} (hne : n ≠ dir.recordNumber) (hold : Stored driver d n old)
    (hl : data.length = old.length) :
    ∃ d', writeFile driver ⟨n⟩ data d = (.ok (), d') ∧ Holds driver dir d' (c.put n data) := by
  obtain ⟨d', hcall, hnew, hother⟩ := hold.writeFile_ok h512 hl
  refine ⟨d', hcall, ?_, ?_, ?_⟩
  · obtain ⟨record, a, hdir, hnames⟩ := h.directory
    exact ⟨record, a, hdir.congr (hother _ hne.symm), hnames⟩
  · intro e he
    by_cases hen : e.2 = n
    · rw [hen]
      exact hnew.inUse
    · obtain ⟨buf, hbuf, hin⟩ := h.used e he
      exact ⟨buf, (hother _ hen).trans hbuf, hin⟩
  · intro m content hm
    by_cases hmn : m = n
    · subst hmn
      rw [Catalog.contents_put_self] at hm
      cases hm
      exact ⟨hne, hnew⟩
    · rw [Catalog.contents_put_of_ne hmn] at hm
      obtain ⟨hdirNe, hstored⟩ := h.stored m content hm
      exact ⟨hdirNe, hstored.congr (hother m hmn)⟩

end Holds

/-! ### One call -/

/-- The call is answered as the catalogue answers it, and the image then holds what it leads to. -/
def Simulates (driver : NtfsDriver) (dir : NtfsFile) (d : ByteStore) (c : Catalog)
    (request : Request) : Prop :=
  ∃ c', Answers ⟨c, request, (serve driver dir d request).1, c'⟩ ∧
    Holds driver dir (serve driver dir d request).2 c'

namespace Holds

theorem simulates_create (h512 : driver.sectorSize = 512) (hsize : 1024 ≤ driver.mftRecordSize)
    (h : Holds driver dir d c) {name : List Char} (hplain : PlainName name) (hne : name ≠ [])
    (options : CreateOptions) : Simulates driver dir d c (.create name options) := by
  rcases hcall : createFile driver dir name options d with ⟨r, d'⟩
  rw [Simulates, serve_create hcall]
  cases hfind : c.find name with
  | some n =>
    rw [h.create_present hfind] at hcall
    cases hcall
    exact ⟨c, .present options hfind, h⟩
  | none =>
    rcases h.create_absent h512 hcall with ⟨n, rfl, hc⟩ | ⟨hno, hkept⟩
    · obtain ⟨hnew, hnone, hholds⟩ := h.create_ok h512 hsize hplain hne hc
      exact ⟨_, .created options hfind hnew hnone, hholds⟩
    · refine ⟨c, .failed options hfind ?_, hkept⟩
      intro n hn
      obtain ⟨f, hf, -⟩ := Outcome.map_eq_ok.mp hn
      exact hno f hf

theorem simulates_write (h512 : driver.sectorSize = 512) (h : Holds driver dir d c) {n : Nat}
    {content : List UInt8} (hne : n ≠ dir.recordNumber) (hstored : Stored driver d n content)
    (data : List UInt8) : Simulates driver dir d c (.write n data) := by
  unfold Simulates
  simp only [serve]
  cases hn : c.contents n with
  | some old =>
    obtain ⟨-, hold⟩ := h.stored n old hn
    by_cases hl : data.length = old.length
    · obtain ⟨d', hcall, hholds⟩ := h.write_ok h512 hne hold hl
      rw [hcall]
      exact ⟨_, .written hn hl, hholds⟩
    · rw [hold.writeFile_err hl]
      exact ⟨c, .refused hn hl, h⟩
  | none =>
    by_cases hl : data.length = content.length
    · obtain ⟨d', hcall, hholds⟩ := h.write_ok h512 hne hstored hl
      rw [hcall]
      exact ⟨_, .learned data hn, hholds⟩
    · rw [hstored.writeFile_err hl]
      exact ⟨c, .elsewhere data hn nofun, h⟩

theorem simulates_read (h : Holds driver dir d c) (n : Nat) :
    Simulates driver dir d c (.read n) := by
  unfold Simulates
  simp only [serve]
  cases hn : c.contents n with
  | some data =>
    obtain ⟨-, hstored⟩ := h.stored n data hn
    rw [hstored.readFileAll]
    exact ⟨c, .content hn, h⟩
  | none =>
    rw [← readFileAll_keeps ⟨n⟩ d]
    exact ⟨c, .unknown _ hn, h⟩

theorem simulates_find (h : Holds driver dir d c) (name : List Char) :
    Simulates driver dir d c (.find name) := by
  unfold Simulates
  simp only [serve]
  rw [h.find_eq]
  exact ⟨c, .found c name, h⟩

theorem simulates_list (h : Holds driver dir d c) : Simulates driver dir d c .list := by
  unfold Simulates
  simp only [serve]
  rw [h.list_eq]
  exact ⟨c, .names c, h⟩

end Holds

/-- Each proper call of the driver is answered as the catalogue answers it. -/
theorem step_catalog (h512 : driver.sectorSize = 512) (hsize : 1024 ≤ driver.mftRecordSize)
    {x : Call ByteStore Request Reply} (hx : IsServed driver dir x)
    (h : Holds driver dir x.before c) :
    ∃ c', Answers ⟨c, x.input, x.output, c'⟩ ∧ Holds driver dir x.after c' := by
  obtain ⟨d, request, output, d'⟩ := x
  obtain ⟨hserve, hproper⟩ := hx
  have hsim : Simulates driver dir d c request := by
    cases request with
    | create name options => exact h.simulates_create h512 hsize hproper.1 hproper.2 options
    | write n data =>
      obtain ⟨hne, content, hstored⟩ := hproper
      exact h.simulates_write h512 hne hstored data
    | read n => exact h.simulates_read n
    | find name => exact h.simulates_find name
    | list => exact h.simulates_list
  unfold Simulates at hsim
  rw [hserve] at hsim
  exact hsim

/-! ### Whole runs -/

/-- Every run of the driver on a directory that keeps its index in its record is a run of the
catalogue that the image holds, with the same requests and replies. -/
theorem run_catalog (h512 : driver.sectorSize = 512) (hsize : 1024 ≤ driver.mftRecordSize)
    {t : List (Call ByteStore Request Reply)} (ht : Run (IsServed driver dir) d t d')
    (h : Holds driver dir d c) :
    ∃ u c', Run Answers c u c' ∧
      u.map (fun y ↦ (y.input, y.output)) = t.map (fun x ↦ (x.input, x.output)) ∧
      Holds driver dir d' c' :=
  ht.simulate (fun _ hx _ hbefore ↦ step_catalog h512 hsize hx hbefore) h

/-- The catalogue of the empty directory. -/
def emptyCatalog : Catalog := { names := [], contents := fun _ ↦ none }

/-- The metadata of the empty directory are those of a directory. -/
theorem parseStat_emptyDirectory : ∃ st,
    parseStat (emptyDirectory 232) smallDriver.boot = .ok st ∧ st.isDirectory = true := by
  have hstat : NtfsStat.isDirectory <$> parseStat (emptyDirectory 232) smallDriver.boot =
      .ok true := by decide +kernel
  exact Outcome.map_eq_ok.mp hstat

theorem holds_emptyDirectory :
    Holds smallDriver ⟨5⟩ (smallVolume (emptyDirectory 232)) emptyCatalog where
  directory := by
    obtain ⟨-, -, hstart, -⟩ := emptyDirectory_layout
    obtain ⟨st, hst, -⟩ := parseStat_emptyDirectory
    refine ⟨emptyDirectory 232, emptyRoot, ⟨plainDirectory_emptyDirectory.read,
      plainRoot_emptyDirectory, emptyDirectory_takes.1, ?_, st, hst, .inl rfl⟩,
      by decide +kernel⟩
    rw [hstart]
    decide
  used := nofun
  stored := nofun

/-- A file is created, looked up, listed and read. -/
theorem run_catalog_small : ∃ d' u c', Run Answers emptyCatalog u c' ∧
    u.map Call.input = [.create ['a'] ⟨false, []⟩, .find ['a'], .list, .read 16] ∧
    Holds smallDriver ⟨5⟩ d' c' := by
  have hheld := holds_emptyDirectory
  generalize smallVolume (emptyDirectory 232) = d at hheld
  have hcalls := run_calls (serve smallDriver ⟨5⟩) d
    [.create ['a'] ⟨false, []⟩, .find ['a'], .list, .read 16]
  have hproper := hcalls.restrict (P := fun x ↦ Proper smallDriver ⟨5⟩ x.before x.input) (by
    intro x hx
    simp only [calls, List.mem_cons, List.not_mem_nil, or_false] at hx
    rcases hx with rfl | rfl | rfl | rfl
    · exact ⟨by decide, by decide⟩
    · trivial
    · trivial
    · trivial)
  obtain ⟨u, c', hrun, hmap, hholds⟩ := run_catalog rfl (by decide)
    (hproper.mono fun x ⟨hx, hp⟩ ↦ ⟨hx.symm, hp⟩) hheld
  refine ⟨_, u, c', hrun, ?_, hholds⟩
  have hinputs := congrArg (List.map Prod.fst) hmap
  rw [List.map_map, List.map_map] at hinputs
  exact hinputs

/-- A file reads as it was last created or written, whatever calls come in between. -/
theorem read_last_written (h512 : driver.sectorSize = 512) (hsize : 1024 ≤ driver.mftRecordSize)
    {t : List (Call ByteStore Request Reply)} {x : Call ByteStore Request Reply}
    (ht : Run (IsServed driver dir) d (t ++ [x]) d') (h : Holds driver dir d c) {n : Nat}
    {data : List UInt8} (hx : x.input = .read n) (hsince : Since (Gives n data) (Overwritten n) t) :
    x.output = .content (.ok data) := by
  obtain ⟨hrun, hread, -⟩ := ht.split
  -- Every call of the run starts from an image that holds some catalogue.
  have hheld := hrun.invariant (I := fun d ↦ ∃ c, Holds driver dir d c)
    (fun y hy ⟨c, hc⟩ ↦ by
      obtain ⟨c', -, hc'⟩ := step_catalog h512 hsize hy hc
      exact ⟨c', hc'⟩) ⟨c, h⟩
  have hrun' := hrun.restrict fun y hy ↦ (hheld.2 y hy).1
  obtain ⟨c₁, hc₁, hn⟩ := Run.since (J := fun d ↦ ∃ c, Holds driver dir d c ∧ c.contents n = some data)
    (fun y ⟨hy, c, hc⟩ hgives ↦ by
      obtain ⟨c', hans, hc'⟩ := step_catalog h512 hsize hy hc
      exact ⟨c', hc', hans.gives hgives⟩)
    (fun y ⟨hy, _⟩ hover ⟨c, hc, hn⟩ ↦ by
      obtain ⟨c', hans, hc'⟩ := step_catalog h512 hsize hy hc
      exact ⟨c', hc', hans.kept hover hn⟩) hrun' hsince
  obtain ⟨c₂, hans, -⟩ := step_catalog h512 hsize hread hc₁
  exact hans.read_eq hx hn

/-- The file reads as it was created. -/
theorem read_last_written_small : ∃ d₁, serve smallDriver ⟨5⟩ (smallVolume (emptyDirectory 232))
      (.create ['a'] ⟨false, []⟩) = (.created (.ok 16), d₁) ∧
    (serve smallDriver ⟨5⟩ d₁ (.read 16)).1 = .content (.ok []) := by
  obtain ⟨d₁, hcreate, -⟩ := createFile_emptyDirectory
  have hcall : createFile smallDriver ⟨5⟩ ['a'] ⟨false, []⟩ (smallVolume (emptyDirectory 232)) =
      (.ok ⟨16⟩, d₁) := hcreate
  have hholds := holds_emptyDirectory
  generalize smallVolume (emptyDirectory 232) = d at hcall hholds ⊢
  have hserve : serve smallDriver ⟨5⟩ d (.create ['a'] ⟨false, []⟩) = (.created (.ok 16), d₁) :=
    serve_create hcall
  refine ⟨d₁, hserve, ?_⟩
  rcases hread : serve smallDriver ⟨5⟩ d₁ (.read 16) with ⟨reply, d₂⟩
  let first : Call ByteStore Request Reply := ⟨d, .create ['a'] ⟨false, []⟩, .created (.ok 16), d₁⟩
  let second : Call ByteStore Request Reply := ⟨d₁, .read 16, reply, d₂⟩
  have hsecond : Run (IsServed smallDriver ⟨5⟩) d₁ [second] d₂ :=
    .cons (x := second) ⟨hread, trivial⟩ (.nil d₂)
  have hrun : Run (IsServed smallDriver ⟨5⟩) d ([first] ++ [second]) d₂ :=
    .cons (x := first) ⟨hserve, by decide, by decide⟩ hsecond
  have hsince : Since (Gives 16 []) (Overwritten 16) [first] :=
    ⟨[], first, [], rfl, .inl ⟨['a'], ⟨false, []⟩, rfl, rfl, rfl⟩, List.forall_mem_nil _⟩
  exact read_last_written rfl (by decide) hrun hholds rfl hsince

end SmallOs.Ntfs
