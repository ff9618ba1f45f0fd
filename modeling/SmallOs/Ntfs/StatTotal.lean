import SmallOs.Ntfs.RunList
import SmallOs.Ntfs.Torn
import SmallOs.Ntfs.Walkers

/-!
# The metadata of any record

`parse_stat` of `lib/vfs/src/fs/ntfs/attr.rs` on a record whose bytes are arbitrary. Every attribute
is cut out by the length in its own header, so it may be shorter than the fields that are read of
it.
-/

namespace SmallOs.Ntfs

open SmallOs.Base

/-- A run list whose decoding comes to no wide pair, and whose size fits into a word. -/
def RunsSafe (bytesPerCluster : Nat) (attrData : List UInt8) : Prop :=
  RunsRefused attrData ∨ ¬ ReachesWide 0 (diskPairs attrData) ∧ (StaysOn 0 (diskPairs attrData) →
    ((diskPairs attrData).map fun pair ↦ pair.length * bytesPerCluster).sum < 2 ^ 64)

namespace Attr

/-- A run list that the decoder refuses: the metadata ends there with an error. -/
def Refused (a : Attr) : Prop :=
  a.typ = .data ∧ a.isResident = false ∧ (RunsRefused a.data ∨ ¬ StaysOn 0 (diskPairs a.data))

/-- A name that the metadata takes. -/
def Names (a : Attr) : Prop :=
  a.typ = .fileName ∧ a.isResident = true ∧
    ∃ name, parseNameAndParent (a.data.drop 24) 0x42 = some name

/-- The attribute holds the fields that are read of it; `named` says that a name is known
already. -/
def Safe (bytesPerCluster : Nat) (named : Prop) (a : Attr) : Prop :=
  match a.typ with
  | .fileName => a.isResident = true → ¬ named → 24 ≤ a.data.length
  | .indexRoot => a.isResident = true → 22 ≤ a.data.length
  | .data => 10 ≤ a.data.length ∧ (a.isResident = false → RunsSafe bytesPerCluster a.data)
  | _ => True

end Attr

/-! ### One attribute -/

/-- What a step makes of an attribute. -/
inductive StepEnds (boot : BootSector) (stat : NtfsStat) (a : Attr) : Prop where
  | ok (st : NtfsStat) (step : statStep boot stat a = .ok st)
      (safe : a.Safe boot.bytesPerCluster (stat.name ≠ none)) (accepted : ¬ a.Refused)
      (named : st.name ≠ none ↔ stat.name ≠ none ∨ a.Names)
  | err (e : NtfsError) (step : statStep boot stat a = .err e)
      (safe : a.Safe boot.bytesPerCluster (stat.name ≠ none)) (refused : a.Refused)
  | panic (step : statStep boot stat a = .panic)
      (broken : ¬ a.Safe boot.bytesPerCluster (stat.name ≠ none))

theorem uintAt_panic {b : List UInt8} {off n : Nat} (h : b.length < off + n) :
    (uintAt b off n : Outcome NtfsError Nat) = .panic := by
  rw [uintAt, Outcome.assert_not (by omega)]
  rfl

/-- The name of the file stays when a stream is added. -/
theorem addStream_name (stat : NtfsStat) (attrData : List UInt8) (nameLength size : Nat)
    (run : DataRun) :
    (addStream stat attrData nameLength size run).name = stat.name := by
  unfold addStream
  split <;> rfl

theorem stepEnds_fileName {boot : BootSector} {stat : NtfsStat} {a : Attr} (h : a.typ = .fileName) :
    StepEnds boot stat a := by
  have hstep : statStep boot stat a = statFileName stat a := by rw [statStep, h]
  have haccepted : ¬ a.Refused := by
    rintro ⟨hdata, -⟩
    rw [h] at hdata
    cases hdata
  by_cases hread : a.isResident = true ∧ stat.name = none
  · by_cases hlong : 24 ≤ a.data.length
    · have hsafe : a.Safe boot.bytesPerCluster (stat.name ≠ none) := by
        rw [Attr.Safe, h]
        exact fun _ _ ↦ hlong
      cases hname : parseNameAndParent (a.data.drop 24) 0x42 with
      | none =>
        refine .ok stat ?_ hsafe haccepted ?_
        · rw [hstep, statFileName, if_pos hread, parseFilename, Outcome.assert_of hlong, hname]
          rfl
        · refine ⟨.inl, ?_⟩
          rintro (hnamed | ⟨-, -, name, hsome⟩)
          · exact hnamed
          · rw [hname] at hsome
            cases hsome
      | some name =>
        refine .ok { stat with name := some name.1 } ?_ hsafe haccepted ?_
        · rw [hstep, statFileName, if_pos hread, parseFilename, Outcome.assert_of hlong, hname]
          rfl
        · exact iff_of_true (Option.some_ne_none _) (.inr ⟨h, hread.1, name, hname⟩)
    · refine .panic ?_ ?_
      · rw [hstep, statFileName, if_pos hread, parseFilename, Outcome.assert_not hlong]
        rfl
      · rw [Attr.Safe, h]
        exact fun hsafe ↦ hlong (hsafe hread.1 (not_not_intro hread.2))
  · have hsafe : a.Safe boot.bytesPerCluster (stat.name ≠ none) := by
      rw [Attr.Safe, h]
      exact fun hresident hunnamed ↦ absurd ⟨hresident, not_not.mp hunnamed⟩ hread
    refine .ok stat ?_ hsafe haccepted ?_
    · rw [hstep, statFileName, if_neg hread]
      rfl
    · refine ⟨.inl, ?_⟩
      rintro (hnamed | ⟨-, hresident, -⟩)
      · exact hnamed
      · exact fun hnone ↦ hread ⟨hresident, hnone⟩

theorem stepEnds_indexRoot {boot : BootSector} {stat : NtfsStat} {a : Attr}
    (h : a.typ = .indexRoot) :
    StepEnds boot stat a := by
  have hstep : statStep boot stat a = statIndexRoot stat a := by rw [statStep, h]
  have haccepted : ¬ a.Refused := by
    rintro ⟨hdata, -⟩
    rw [h] at hdata
    cases hdata
  have hnames : ¬ a.Names := by
    rintro ⟨hname, -⟩
    rw [h] at hname
    cases hname
  by_cases hresident : a.isResident = true
  · by_cases hlong : 22 ≤ a.data.length
    · have hread : ∃ st, statIndexRoot stat a = .ok st ∧ st.name = stat.name := by
        rw [statIndexRoot, if_pos hresident, uintAt_of hlong, Outcome.ok_bind]
        exact ⟨_, rfl, rfl⟩
      obtain ⟨st, hst, hname⟩ := hread
      refine .ok st (hstep.trans hst) ?_ haccepted ?_
      · rw [Attr.Safe, h]
        exact fun _ ↦ hlong
      · rw [hname]
        exact (or_iff_left hnames).symm
    · refine .panic ?_ ?_
      · rw [hstep, statIndexRoot, if_pos hresident, uintAt_panic (by omega)]
        rfl
      · rw [Attr.Safe, h]
        exact fun hsafe ↦ hlong (hsafe hresident)
  · refine .ok stat ?_ ?_ haccepted (or_iff_left hnames).symm
    · rw [hstep, statIndexRoot, if_neg hresident]
      rfl
    · rw [Attr.Safe, h]
      exact fun h ↦ absurd h hresident

/-- The size of a list that is accepted is that of its pairs. -/
theorem sum_runsAt (prev : Int) (pairs : List DiskPair) (bytesPerCluster : Nat) :
    ((runsAt prev pairs).map fun run ↦ run.2 * bytesPerCluster).sum =
      (pairs.map fun pair ↦ pair.length * bytesPerCluster).sum := by
  have hlengths := congrArg (List.map (· * bytesPerCluster)) (map_length_runsAt prev pairs)
  rw [List.map_map, List.map_map] at hlengths
  exact congrArg List.sum hlengths

/-- How the decoding of a run list and the sum of its lengths end. -/
theorem runs_cases (bytesPerCluster : Nat) (attrData : List UInt8) :
    (∃ runs size, parseDataRuns attrData = .ok runs ∧ runsSize bytesPerCluster runs = .ok size ∧
        RunsSafe bytesPerCluster attrData ∧
        ¬ (RunsRefused attrData ∨ ¬ StaysOn 0 (diskPairs attrData))) ∨
      (∃ e, parseDataRuns attrData = .err e ∧ RunsSafe bytesPerCluster attrData ∧
        (RunsRefused attrData ∨ ¬ StaysOn 0 (diskPairs attrData))) ∨
      parseDataRuns attrData >>= runsSize bytesPerCluster = .panic ∧
        ¬ RunsSafe bytesPerCluster attrData := by
  rw [parseDataRuns_eq]
  by_cases hrefused : RunsRefused attrData
  · rw [if_pos hrefused]
    exact .inr (.inl ⟨_, rfl, .inl hrefused, .inl hrefused⟩)
  rw [if_neg hrefused]
  rcases decodePairs_cases 0 (diskPairs attrData) with ⟨hreach, hend⟩ | ⟨hreach, hstays, hend⟩ |
    ⟨hreach, hstays, hend⟩
  · rw [hend]
    refine .inr (.inr ⟨rfl, ?_⟩)
    rintro (hother | ⟨hnot, -⟩)
    · exact hrefused hother
    · exact hnot hreach
  · rw [hend]
    have hsum := runsSize_eq_ite bytesPerCluster (runsAt 0 (diskPairs attrData))
    rw [sum_runsAt] at hsum
    by_cases hsize :
        ((diskPairs attrData).map fun pair ↦ pair.length * bytesPerCluster).sum < 2 ^ 64
    · rw [if_pos hsize] at hsum
      refine .inl ⟨_, _, rfl, hsum, .inr ⟨hreach, fun _ ↦ hsize⟩, ?_⟩
      exact not_or.mpr ⟨hrefused, not_not_intro hstays⟩
    · rw [if_neg hsize] at hsum
      refine .inr (.inr ⟨hsum, ?_⟩)
      rintro (hother | ⟨-, hfits⟩)
      · exact hrefused hother
      · exact hsize (hfits hstays)
  · rw [hend]
    have hsafe : RunsSafe bytesPerCluster attrData :=
      .inr ⟨hreach, fun hother ↦ absurd hother hstays⟩
    exact .inr (.inl ⟨_, rfl, hsafe, .inr hstays⟩)

section Data

variable {boot : BootSector} {stat : NtfsStat} {a : Attr}

theorem safe_data_iff (h : a.typ = .data) : a.Safe boot.bytesPerCluster (stat.name ≠ none) ↔
    10 ≤ a.data.length ∧ (a.isResident = false → RunsSafe boot.bytesPerCluster a.data) := by
  rw [Attr.Safe, h]

/-- A stream names nothing. -/
theorem named_data_iff (h : a.typ = .data) {st : NtfsStat} (hname : st.name = stat.name) :
    st.name ≠ none ↔ stat.name ≠ none ∨ a.Names := by
  rw [hname]
  refine (or_iff_left ?_).symm
  rintro ⟨htyp, -⟩
  rw [h] at htyp
  cases htyp

/-- A resident stream is taken or passed over. -/
theorem stepEnds_resident (h : a.typ = .data) (hlong : 10 ≤ a.data.length)
    (hresident : a.isResident = true) : StepEnds boot stat a := by
  have hread : ∃ st, statData boot stat a = .ok st ∧ st.name = stat.name := by
    rw [statData, uintAt_of hlong, Outcome.ok_bind, if_pos hresident]
    split
    · exact ⟨stat, rfl, rfl⟩
    dsimp only
    split
    · exact ⟨stat, rfl, rfl⟩
    · exact ⟨_, rfl, addStream_name _ _ _ _ _⟩
  have hother : ¬ a.isResident = false := (Bool.not_eq_false _).mpr hresident
  obtain ⟨st, hst, hname⟩ := hread
  refine .ok st (by rw [statStep, h]; exact hst) ?_ (fun hrefused ↦ hother hrefused.2.1)
    (named_data_iff h hname)
  exact (safe_data_iff h).mpr ⟨hlong, fun hnon ↦ absurd hnon hother⟩

/-- A non-resident stream ends as its run list does. -/
theorem stepEnds_nonResident (h : a.typ = .data) (hlong : 10 ≤ a.data.length)
    (hnon : a.isResident = false) : StepEnds boot stat a := by
  have hrun : statStep boot stat a = parseDataRuns a.data >>= fun runs ↦
      runsSize boot.bytesPerCluster runs >>= fun size ↦
        pure (addStream stat a.data (leAt a.data 9 1) size (.nonResident runs)) := by
    rw [statStep, h]
    change statData boot stat a = _
    rw [statData, uintAt_of hlong, Outcome.ok_bind, hnon]
    rfl
  rcases runs_cases boot.bytesPerCluster a.data
    with ⟨runs, size, hparsed, hsize, hsafe, haccepted⟩ |
    ⟨e, hparsed, hsafe, hrefused⟩ | ⟨hpanic, hbroken⟩
  · rw [hparsed, Outcome.ok_bind, hsize] at hrun
    exact .ok _ hrun ((safe_data_iff h).mpr ⟨hlong, fun _ ↦ hsafe⟩)
      (fun hrefused ↦ haccepted hrefused.2.2) (named_data_iff h (addStream_name _ _ _ _ _))
  · rw [hparsed] at hrun
    exact .err e hrun ((safe_data_iff h).mpr ⟨hlong, fun _ ↦ hsafe⟩) ⟨h, hnon, hrefused⟩
  · refine .panic ?_ fun hall ↦ hbroken (((safe_data_iff h).mp hall).2 hnon)
    rw [hrun]
    cases hparsed : parseDataRuns a.data with
    | ok runs =>
      rw [hparsed, Outcome.ok_bind] at hpanic
      rw [Outcome.ok_bind, hpanic]
      rfl
    | err e =>
      rw [hparsed] at hpanic
      cases hpanic
    | panic => rfl

theorem stepEnds_data (h : a.typ = .data) : StepEnds boot stat a := by
  by_cases hlong : 10 ≤ a.data.length
  · cases hresident : a.isResident with
    | true => exact stepEnds_resident h hlong hresident
    | false => exact stepEnds_nonResident h hlong hresident
  · refine .panic ?_ fun hall ↦ hlong ((safe_data_iff h).mp hall).1
    rw [statStep, h]
    change statData boot stat a = _
    rw [statData, uintAt_panic (by omega)]
    rfl

end Data

/-- The attributes of the other types hold what is read of them, whatever their length. -/
theorem stepEnds_other {boot : BootSector} {stat : NtfsStat} {a : Attr} (hname : a.typ ≠ .fileName)
    (hindex : a.typ ≠ .indexRoot) (hdata : a.typ ≠ .data) : StepEnds boot stat a := by
  have hread : ∃ st, statStep boot stat a = .ok st ∧ st.name = stat.name := by
    unfold statStep
    cases htyp : a.typ with
    | fileName => exact absurd htyp hname
    | indexRoot => exact absurd htyp hindex
    | data => exact absurd htyp hdata
    | standardInformation | objectId | reparsePoint =>
      refine ⟨_, rfl, ?_⟩
      split <;> rfl
    | _ => exact ⟨_, rfl, rfl⟩
  have hsafe : a.Safe boot.bytesPerCluster (stat.name ≠ none) := by
    unfold Attr.Safe
    split
    · next htyp => exact absurd htyp hname
    · next htyp => exact absurd htyp hindex
    · next htyp => exact absurd htyp hdata
    · trivial
  obtain ⟨st, hst, hkept⟩ := hread
  refine .ok st hst hsafe (fun hrefused ↦ hdata hrefused.1) ?_
  rw [hkept]
  exact (or_iff_left fun hnames ↦ hname hnames.1).symm

/-- A step ends as the attribute says. -/
theorem stepEnds (boot : BootSector) (stat : NtfsStat) (a : Attr) : StepEnds boot stat a := by
  by_cases hname : a.typ = .fileName
  · exact stepEnds_fileName hname
  by_cases hindex : a.typ = .indexRoot
  · exact stepEnds_indexRoot hindex
  by_cases hdata : a.typ = .data
  · exact stepEnds_data hdata
  · exact stepEnds_other hname hindex hdata

/-! ### All attributes -/

/-- Every attribute that the metadata comes to is safe. -/
def AttrsSafe (bytesPerCluster : Nat) (named : Prop) (attrs : List Attr) : Prop :=
  ∀ before a after, attrs = before ++ a :: after → (∀ g ∈ before, ¬ g.Refused) →
    a.Safe bytesPerCluster (named ∨ ∃ g ∈ before, g.Names)

/-- Naming is all that a step leaves to the next ones. -/
theorem attrsSafe_cons {bytesPerCluster : Nat} {named : Prop} {a : Attr} {attrs : List Attr} :
    AttrsSafe bytesPerCluster named (a :: attrs) ↔ a.Safe bytesPerCluster named ∧
      (¬ a.Refused → AttrsSafe bytesPerCluster (named ∨ a.Names) attrs) := by
  have hnames : ∀ before : List Attr, (named ∨ ∃ g ∈ a :: before, g.Names) ↔
      ((named ∨ a.Names) ∨ ∃ g ∈ before, g.Names) := by
    intro before
    rw [List.exists_mem_cons_iff, or_assoc]
  constructor
  · intro h
    refine ⟨?_, ?_⟩
    · have hfirst := h [] a attrs rfl fun g hg ↦ absurd hg List.not_mem_nil
      have hnone : (named ∨ ∃ g ∈ ([] : List Attr), g.Names) ↔ named :=
        or_iff_left fun ⟨g, hg, _⟩ ↦ absurd hg List.not_mem_nil
      rwa [propext hnone] at hfirst
    · intro haccepted before b after hsplit hbefore
      have hnext := h (a :: before) b after (by rw [hsplit]; rfl)
        (List.forall_mem_cons.mpr ⟨haccepted, hbefore⟩)
      rwa [propext (hnames before)] at hnext
  · rintro ⟨hfirst, hrest⟩ before b after hsplit hbefore
    cases before with
    | nil =>
      obtain ⟨rfl, -⟩ := List.cons.inj hsplit
      have hnone : (named ∨ ∃ g ∈ ([] : List Attr), g.Names) ↔ named :=
        or_iff_left fun ⟨g, hg, _⟩ ↦ absurd hg List.not_mem_nil
      rwa [propext hnone]
    | cons g before =>
      obtain ⟨rfl, hattrs⟩ := List.cons.inj hsplit
      obtain ⟨haccepted, hbehind⟩ := List.forall_mem_cons.mp hbefore
      rw [propext (hnames before)]
      exact hrest haccepted before b after hattrs hbehind

/-- The steps end in one of three ways. -/
theorem foldlM_statStep_cases (boot : BootSector) (attrs : List Attr) (stat : NtfsStat) :
    ¬ AttrsSafe boot.bytesPerCluster (stat.name ≠ none) attrs ∧
        attrs.foldlM (statStep boot) stat = .panic ∨
      AttrsSafe boot.bytesPerCluster (stat.name ≠ none) attrs ∧
        ((∃ a ∈ attrs, a.Refused) ∧ (∃ e, attrs.foldlM (statStep boot) stat = .err e) ∨
          (∀ a ∈ attrs, ¬ a.Refused) ∧ ∃ st, attrs.foldlM (statStep boot) stat = .ok st) := by
  induction attrs generalizing stat with
  | nil =>
    refine .inr ⟨?_, .inr ⟨fun a ha ↦ absurd ha List.not_mem_nil, stat, rfl⟩⟩
    intro before a after h
    exact absurd h nil_ne_append_cons
  | cons a attrs ih =>
    rw [attrsSafe_cons, List.foldlM_cons]
    cases stepEnds boot stat a with
    | panic step broken =>
      rw [step]
      exact .inl ⟨fun h ↦ broken h.1, rfl⟩
    | err e step safe refused =>
      rw [step]
      exact .inr ⟨⟨safe, fun h ↦ absurd refused h⟩, .inl ⟨⟨a, List.mem_cons_self, refused⟩, e, rfl⟩⟩
    | ok st step safe accepted named =>
      rw [step, Outcome.ok_bind, ← propext named]
      rcases ih st with ⟨hbroken, hend⟩ | ⟨hsafe, ⟨⟨b, hb, hrefused⟩, hend⟩ | ⟨hall, hend⟩⟩
      · exact .inl ⟨fun h ↦ hbroken (h.2 accepted), hend⟩
      · exact .inr ⟨⟨safe, fun _ ↦ hsafe⟩, .inl ⟨⟨b, List.mem_cons_of_mem _ hb, hrefused⟩, hend⟩⟩
      · exact .inr ⟨⟨safe, fun _ ↦ hsafe⟩, .inr ⟨List.forall_mem_cons.mpr ⟨accepted, hall⟩, hend⟩⟩

/-! ### The end of the attributes -/

/-- The iterator panics on an attribute whose header ends with the record, and not before. -/
theorem nextAttr_eq_panic {record : List UInt8} {offset : Nat} :
    nextAttr record offset = .panic ↔
      ∃ h, headerAt record offset = some h ∧ h.Fits record ∧ h.offset + 8 = record.length := by
  constructor
  · intro hpanic
    unfold nextAttr at hpanic
    split at hpanic
    · cases hpanic
    split at hpanic
    · cases hpanic
    split at hpanic
    · cases hpanic
    next hlong hend hfit =>
    have hat : headerAt record offset =
        some ⟨offset, leAt record offset 4, leAt record (offset + 4) 4⟩ := by
      rw [headerAt, if_neg (by omega)]
    refine ⟨_, hat, ⟨by dsimp only; omega, by dsimp only; omega⟩, ?_⟩
    by_contra hlast
    dsimp only at hlast
    rw [uintAt_of (by omega), Outcome.ok_bind] at hpanic
    split at hpanic <;> cases hpanic
  · rintro ⟨h, hat, hfits, hlast⟩
    obtain ⟨hle, hend, rfl⟩ := headerAt_eq_some hat
    obtain ⟨hpos, hin⟩ := hfits
    dsimp only at hpos hin hlast
    rw [nextAttr, if_neg (by omega), if_neg hend, if_neg (by omega), uintAt_panic (by omega)]
    rfl

/-- The header of an attribute that the iterator comes to ends with the record. -/
def EndsShort (record : List UInt8) (offset : Nat) : Prop :=
  ∃ before h after, headersFrom record offset = before ++ h :: after ∧ (∀ g ∈ before, g.Known) ∧
    h.Fits record ∧ h.offset + 8 = record.length

theorem not_endsShort_of_none {record : List UInt8} {offset : Nat}
    (hat : headerAt record offset = none) : ¬ EndsShort record offset := by
  rintro ⟨before, h, after, hsplit, -⟩
  rw [headersFrom_nil hat] at hsplit
  exact absurd hsplit nil_ne_append_cons

/-- It is the first header or one behind it. -/
theorem endsShort_iff {record : List UInt8} {offset : Nat} {first : Header}
    (hat : headerAt record offset = some first) : EndsShort record offset ↔
      first.Fits record ∧ (first.offset + 8 = record.length ∨
        first.Known ∧ EndsShort record (offset + first.length)) := by
  constructor
  · rintro ⟨before, h, after, hsplit, hknown, hfits, hlast⟩
    cases before with
    | nil =>
      rw [headersFrom_cons hat] at hsplit
      obtain ⟨rfl, -⟩ := List.cons.inj hsplit
      exact ⟨hfits, .inl hlast⟩
    | cons g before =>
      have hfirst := fits_of_split hsplit g List.mem_cons_self
      rw [headersFrom_cons hat] at hsplit
      obtain ⟨rfl, hrest⟩ := List.cons.inj hsplit
      rw [if_pos hfirst] at hrest
      obtain ⟨hg, hknown⟩ := List.forall_mem_cons.mp hknown
      exact ⟨hfirst, .inr ⟨hg, before, h, after, hrest, hknown, hfits, hlast⟩⟩
  · rintro ⟨hfirst, hlast | ⟨hg, before, h, after, hrest, hknown, hfits, hlast⟩⟩
    · exact ⟨[], first, _, headersFrom_cons hat, fun g hg ↦ absurd hg List.not_mem_nil, hfirst,
        hlast⟩
    · refine ⟨first :: before, h, after, ?_, List.forall_mem_cons.mpr ⟨hg, hknown⟩, hfits, hlast⟩
      rw [headersFrom_cons hat, if_pos hfirst, hrest]
      rfl

/-- The iterator ends in a panic exactly there. -/
theorem attrsFrom_panic_iff {record : List UInt8} {offset : Nat} :
    (attrsFrom record offset).2 = .panic ↔ EndsShort record offset := by
  induction offset using attrsFrom.induct record with
  | case1 offset a ha ih =>
    obtain ⟨hle, hmarker, hpos, hfit, htyp, -, hdata, -⟩ := nextAttr_eq_some ha
    have hlen : a.data.length = leAt record (offset + 4) 4 := by
      rw [hdata, length_slice _ _ _ hfit]
    have hat : headerAt record offset =
        some ⟨offset, leAt record offset 4, leAt record (offset + 4) 4⟩ := by
      rw [headerAt, if_neg (by omega)]
    have hgood : Header.Fits record ⟨offset, leAt record offset 4, leAt record (offset + 4) 4⟩ :=
      ⟨hpos, hfit⟩
    have hknown : Header.Known ⟨offset, leAt record offset 4, leAt record (offset + 4) 4⟩ := by
      intro hnone
      rw [htyp] at hnone
      cases hnone
    rw [attrsFrom, ha]
    dsimp only
    rw [ih, endsShort_iff hat, and_iff_right hgood, and_iff_right hknown, hlen]
    refine (or_iff_right ?_).symm
    dsimp only
    omega
  | case2 offset ha =>
    rw [attrsFrom, ha]
    refine iff_of_false ?_ ?_
    · intro hpanic
      cases hpanic
    cases hat : headerAt record offset with
    | none => exact not_endsShort_of_none hat
    | some first =>
      rw [endsShort_iff hat]
      rintro ⟨hfirst, hlast | ⟨hknown, -⟩⟩
      · have hpanic := nextAttr_eq_panic.mpr ⟨first, hat, hfirst, hlast⟩
        rw [ha] at hpanic
        cases hpanic
      · exact headerAt_of_nextAttr_none ha first hat ⟨hfirst, hknown⟩
  | case3 offset e ha => exact absurd ha nextAttr_ne_err
  | case4 offset ha =>
    rw [attrsFrom, ha]
    obtain ⟨h, hat, hfits, hlast⟩ := nextAttr_eq_panic.mp ha
    exact iff_of_true rfl ((endsShort_iff hat).mpr ⟨hfits, .inl hlast⟩)

/-! ### The whole record -/

/-- Every attribute that the metadata comes to is safe, and when it refuses none of them, so is the
end of the record. -/
structure StatSafe (boot : BootSector) (record : List UInt8) : Prop where
  attrs : AttrsSafe boot.bytesPerCluster False (attrsFrom record (leAt record 20 2)).1
  ending : (∀ a ∈ (attrsFrom record (leAt record 20 2)).1, ¬ a.Refused) →
    ¬ EndsShort record (leAt record 20 2)

theorem parseStat_ne_panic_iff {boot : BootSector} {record : List UInt8}
    (hlong : 22 ≤ record.length) :
    parseStat record boot ≠ .panic ↔ StatSafe boot record := by
  rw [parseStat_eq, uintAt_of hlong, Outcome.ok_bind]
  have hnone : (({} : NtfsStat).name ≠ none) = False := propext ⟨fun h ↦ h rfl, False.elim⟩
  have hcases := foldlM_statStep_cases boot (attrsFrom record (leAt record 20 2)).1 {}
  rw [hnone] at hcases
  rcases hcases with ⟨hbroken, hend⟩ | ⟨hsafe, ⟨⟨a, ha, hrefused⟩, e, hend⟩ | ⟨hall, st, hend⟩⟩
  · rw [hend]
    exact iff_of_false (fun h ↦ h rfl) fun h ↦ hbroken h.attrs
  · rw [hend]
    refine iff_of_true ?_ ⟨hsafe, fun h ↦ absurd hrefused (h a ha)⟩
    intro hpanic
    cases hpanic
  · rw [hend, Outcome.ok_bind]
    have hending : (attrsFrom record (leAt record 20 2)).2 ≠ .panic ↔ StatSafe boot record := by
      rw [Ne, attrsFrom_panic_iff]
      exact ⟨fun h ↦ ⟨hsafe, fun _ ↦ h⟩, fun h ↦ h.ending hall⟩
    rw [← hending]
    cases (attrsFrom record (leAt record 20 2)).2 <;> simp

/-- What is known of a record before it is looked at. -/
structure Untrusted (boot : BootSector) (raw : List UInt8) : Prop where
  long : 1024 ≤ raw.length
  signature : slice raw 0 4 = fileSignature
  sector : boot.bytesPerSector = 512
  cluster : boot.bytesPerCluster ≤ 65536

/-- The metadata of a record whose fixups are undone first. -/
def restoredStat (boot : BootSector) (raw : List UInt8) : Outcome NtfsError NtfsStat := do
  let record ← applyFixups raw boot.bytesPerSector.toNat
  parseStat record boot

/-- The metadata is returned, or an error, exactly when the restored record is safe. -/
theorem restoredStat_returns_iff {boot : BootSector} {raw : List UInt8} (h : Untrusted boot raw) :
    restoredStat boot raw ≠ .panic ↔
      ∀ record, applyFixups raw boot.bytesPerSector.toNat = .ok record → StatSafe boot record := by
  have hsector : 2 ≤ boot.bytesPerSector.toNat := by
    rw [h.sector]
    decide
  have hlong := h.long
  have hends : (∃ record, applyFixups raw boot.bytesPerSector.toNat = .ok record) ∨
      applyFixups raw boot.bytesPerSector.toNat = .err .corruptedFilesystem := by
    by_cases hactive : ArrayActive raw
    · rcases applyFixups_active hsector (by omega) hactive with ⟨-, hok⟩ | ⟨-, herr⟩
      · exact .inl ⟨_, hok⟩
      · exact .inr herr
    · exact .inl ⟨raw, applyFixups_inactive (by omega) hactive⟩
  rw [restoredStat]
  rcases hends with ⟨record, hok⟩ | herr
  · have hlen := (applyFixups_untouched hok).1
    rw [hok, Outcome.ok_bind, parseStat_ne_panic_iff (by omega)]
    constructor
    · rintro hsafe other hother
      obtain rfl := Outcome.ok.inj hother
      exact hsafe
    · exact fun hall ↦ hall record rfl
  · rw [herr]
    refine iff_of_true ?_ ?_
    · intro hpanic
      cases hpanic
    · intro record hrecord
      cases hrecord

/-- A record with one attribute, a `$DATA` of the given length. -/
def dataRecord (length : Nat) : List UInt8 :=
  fileSignature ++ List.replicate 16 0 ++ leBytes 4 56 ++ List.replicate 32 0 ++ leBytes 4 0x80 ++
    leBytes 4 length ++ List.replicate 960 0

theorem restoredStat_returns_resident : StatSafe smallBoot (dataRecord 24) := by
  have hinput : Untrusted smallBoot (dataRecord 24) :=
    ⟨by decide +kernel, by decide, by decide, by decide⟩
  have hreturns : restoredStat smallBoot (dataRecord 24) ≠ .panic := by decide +kernel
  exact (restoredStat_returns_iff hinput).mp hreturns (dataRecord 24) (by decide +kernel)

/-- The length of the name stands behind an attribute of eight bytes. -/
theorem restoredStat_panics_short :
    Untrusted smallBoot (dataRecord 8) ∧ restoredStat smallBoot (dataRecord 8) = .panic :=
  ⟨⟨by decide +kernel, by decide, by decide, by decide⟩, by decide +kernel⟩

end SmallOs.Ntfs
