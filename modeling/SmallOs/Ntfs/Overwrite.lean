import SmallOs.Ntfs.Walk

/-!
# Overwriting a file

`write_file` checks the size against the unnamed stream that `parse_stat` found, and then
updates the `$DATA` attribute that the second walker finds, whatever its name. The two are
the same attribute, and the file then reads as written, exactly when the first `$DATA` of
the record is the unnamed one.
-/

namespace SmallOs.Ntfs

open SmallOs.Base SmallOs.Hal

variable {driver : NtfsDriver}

/-! ### Streams -/

/-- The metadata with other data runs. -/
def NtfsStat.withRuns (st : NtfsStat) (runs : List DataRun) : NtfsStat :=
  { st with dataRuns := runs }

/-- A stream of the file itself. -/
def Attr.isUnnamedData (a : Attr) : Bool := a.typ = .data && leAt a.data 9 1 = 0

/-- The attributes that are not streams of the file itself. -/
def otherAttributes (record : List UInt8) : Outcome NtfsError (List Attr) := do
  let (attrs, ending) ← parseAttributes record
  ending
  return attrs.filter (!·.isUnnamedData)

/-- The value that a resident attribute shows. -/
def Attr.value (a : Attr) : List UInt8 := slice a.data (leAt a.data 20 2) (leAt a.data 16 4)

/-- The attribute is resident, and its value lies behind its header. -/
structure ValueInside (a : Attr) : Prop where
  resident : a.isResident = true
  behind : 24 ≤ leAt a.data 20 2
  inside : leAt a.data 20 2 + leAt a.data 16 4 ≤ a.data.length

/-- Attributes of other types look at no data runs. -/
theorem statStep_of_ne_data {boot : BootSector} {a : Attr} (hd : a.typ ≠ .data) (st : NtfsStat)
    (runs : List DataRun) :
    statStep boot (st.withRuns runs) a = (·.withRuns runs) <$> statStep boot st a := by
  unfold statStep
  split
  · split <;> rfl
  · split <;> rfl
  · rfl
  · split <;> rfl
  · unfold statFileName
    change (if a.isResident = true ∧ st.name = none then _ else _) = _
    split
    · cases parseFilename a.data with
      | ok parsed => cases parsed <;> rfl
      | err e => rfl
      | panic => rfl
    · rfl
  · unfold statIndexRoot
    split
    · cases uintAt a.data 20 2 <;> rfl
    · rfl
  · next ht => exact absurd ht hd
  · rfl

theorem dataRuns_of_ne_data {boot : BootSector} {a : Attr} (hd : a.typ ≠ .data) {st st' : NtfsStat}
    (h : statStep boot st a = .ok st') : st'.dataRuns = st.dataRuns := by
  have hself : statStep boot (st.withRuns st.dataRuns) a = _ :=
    statStep_of_ne_data hd st st.dataRuns
  rw [show st.withRuns st.dataRuns = st from rfl, h] at hself
  rw [Outcome.ok.inj hself]
  rfl

/-- Each attribute adds data runs of its own, whatever runs are there. -/
theorem statStep_withRuns {boot : BootSector} {st st' : NtfsStat} {a : Attr}
    (h : statStep boot st a = .ok st') :
    ∃ extra, st'.dataRuns = st.dataRuns ++ extra ∧
      ∀ runs, statStep boot (st.withRuns runs) a = .ok (st'.withRuns (runs ++ extra)) := by
  by_cases hd : a.typ = .data
  · have hstep : ∀ st, statStep boot st a = statData boot st a := by
      intro st
      rw [statStep, hd]
    simp only [hstep] at h ⊢
    have hskip : st = st' → ∃ extra, st'.dataRuns = st.dataRuns ++ extra ∧
        ∀ runs, st.withRuns runs = st'.withRuns (runs ++ extra) := by
      rintro rfl
      refine ⟨[], (List.append_nil _).symm, ?_⟩
      intro runs
      rw [List.append_nil]
    have hadd : ∀ {nameLength size : Nat} {run : DataRun},
        addStream st a.data nameLength size run = st' →
        ∃ extra, st'.dataRuns = st.dataRuns ++ extra ∧ ∀ runs,
          addStream (st.withRuns runs) a.data nameLength size run =
            st'.withRuns (runs ++ extra) := by
      rintro nameLength size run rfl
      unfold addStream
      split
      · exact ⟨[run], rfl, fun runs ↦ rfl⟩
      · refine ⟨[], (List.append_nil _).symm, ?_⟩
        intro runs
        rw [List.append_nil]
        rfl
    unfold statData at h ⊢
    obtain ⟨nameLength, hname, h⟩ := Outcome.bind_eq_ok.mp h
    simp only [hname, Outcome.ok_bind]
    by_cases hres : a.isResident = true
    · simp only [hres, if_true] at h ⊢
      by_cases h₁ : a.data.length < 24
      · simp only [h₁, if_true] at h ⊢
        obtain ⟨extra, hruns, hany⟩ := hskip (Outcome.ok.inj h)
        exact ⟨extra, hruns, fun runs ↦ congrArg Outcome.ok (hany runs)⟩
      simp only [h₁, if_false] at h ⊢
      by_cases h₂ : a.data.length < leAt a.data 20 2 + leAt a.data 16 4
      · simp only [h₂, if_true] at h ⊢
        obtain ⟨extra, hruns, hany⟩ := hskip (Outcome.ok.inj h)
        exact ⟨extra, hruns, fun runs ↦ congrArg Outcome.ok (hany runs)⟩
      · simp only [h₂, if_false] at h ⊢
        obtain ⟨extra, hruns, hany⟩ := hadd (Outcome.ok.inj h)
        exact ⟨extra, hruns, fun runs ↦ congrArg Outcome.ok (hany runs)⟩
    · simp only [hres] at h ⊢
      obtain ⟨clusters, hclusters, h⟩ := Outcome.bind_eq_ok.mp h
      obtain ⟨size, hsize, h⟩ := Outcome.bind_eq_ok.mp h
      obtain ⟨extra, hruns, hany⟩ := hadd (Outcome.ok.inj h)
      refine ⟨extra, hruns, ?_⟩
      intro runs
      simp only [hclusters, hsize, Outcome.ok_bind]
      exact congrArg Outcome.ok (hany runs)
  · refine ⟨[], ?_, ?_⟩
    · rw [dataRuns_of_ne_data hd h, List.append_nil]
    · intro runs
      rw [statStep_of_ne_data hd, h, List.append_nil]
      rfl

/-- Runs that are there already stay in front of those that a record adds. -/
theorem foldlM_statStep_withRuns {boot : BootSector} {attrs : List Attr} {st st' : NtfsStat}
    (h : attrs.foldlM (statStep boot) st = .ok st') :
    ∃ extra, st'.dataRuns = st.dataRuns ++ extra ∧
      ∀ runs, attrs.foldlM (statStep boot) (st.withRuns runs) =
        .ok (st'.withRuns (runs ++ extra)) := by
  induction attrs generalizing st with
  | nil =>
    cases h
    refine ⟨[], (List.append_nil _).symm, ?_⟩
    intro runs
    rw [List.append_nil]
    rfl
  | cons a attrs ih =>
    rw [List.foldlM_cons, Outcome.bind_eq_ok] at h
    obtain ⟨st₁, hstep, h⟩ := h
    obtain ⟨extra₁, hruns₁, hany₁⟩ := statStep_withRuns hstep
    obtain ⟨extra₂, hruns₂, hany₂⟩ := ih h
    refine ⟨extra₁ ++ extra₂, ?_, ?_⟩
    · rw [hruns₂, hruns₁, List.append_assoc]
    · intro runs
      rw [List.foldlM_cons, hany₁, Outcome.ok_bind, hany₂, List.append_assoc]

theorem dataRuns_of_forall_ne_data {boot : BootSector} {attrs : List Attr} {st st' : NtfsStat}
    (hd : ∀ a ∈ attrs, a.typ ≠ .data) (h : attrs.foldlM (statStep boot) st = .ok st') :
    st'.dataRuns = st.dataRuns := by
  refine Outcome.foldlM_invariant (P := fun s : NtfsStat ↦ s.dataRuns = st.dataRuns) ?_ rfl h
  intro s a s' ha hs hstep
  rw [dataRuns_of_ne_data (hd a ha) hstep, hs]

/-- The unnamed stream becomes the file's size and a data run. -/
theorem statStep_unnamed {boot : BootSector} {a : Attr} (hu : a.isUnnamedData = true)
    (hv : ValueInside a) (st : NtfsStat) :
    statStep boot st a = .ok { st with
      size := leAt a.data 16 4
      dataRuns := st.dataRuns ++ [.resident a.value] } := by
  obtain ⟨hres, hbehind, hinside⟩ := hv
  simp only [Attr.isUnnamedData, Bool.and_eq_true, decide_eq_true_eq] at hu
  obtain ⟨htyp, hname⟩ := hu
  rw [statStep, htyp]
  change statData boot st a = _
  rw [statData, uintAt_of (by omega), Outcome.ok_bind, hname, if_pos hres, if_neg (by omega)]
  simp only [if_neg (show ¬ a.data.length < leAt a.data 20 2 + leAt a.data 16 4 by omega),
    addStream, if_pos]
  rfl

/-- Another value of the same size in the only unnamed stream is the only change. -/
theorem foldlM_statStep_replace {boot : BootSector} {l₁ l₂ : List Attr} {a a' : Attr}
    {st : NtfsStat}
    {content : List UInt8} (hfront : ∀ b ∈ l₁, b.typ ≠ .data) (hu : a.isUnnamedData = true)
    (hv : ValueInside a) (hu' : a'.isUnnamedData = true) (hv' : ValueInside a')
    (hsize : leAt a'.data 16 4 = leAt a.data 16 4)
    (h : (l₁ ++ a :: l₂).foldlM (statStep boot) {} = .ok st)
    (hone : st.dataRuns = [.resident content]) :
    (l₁ ++ a' :: l₂).foldlM (statStep boot) {} = .ok (st.withRuns [.resident a'.value]) := by
  rw [List.foldlM_append, Outcome.bind_eq_ok] at h
  obtain ⟨st₁, h₁, h₂⟩ := h
  have hnone : st₁.dataRuns = [] := dataRuns_of_forall_ne_data hfront h₁
  rw [List.foldlM_cons, statStep_unnamed hu hv, Outcome.ok_bind] at h₂
  obtain ⟨extra, hruns, hany⟩ := foldlM_statStep_withRuns h₂
  have hextra : extra = [] := by
    have hlen := congrArg List.length (hone.symm.trans hruns)
    simp only [hnone, List.length_cons, List.length_append, List.length_nil] at hlen
    exact List.length_eq_zero_iff.mp (by omega)
  rw [List.foldlM_append, h₁, Outcome.ok_bind, List.foldlM_cons, statStep_unnamed hu' hv',
    Outcome.ok_bind, hsize, hnone]
  have hany' := hany [.resident a'.value]
  rw [hextra, List.append_nil] at hany'
  exact hany'

/-! ### The updated record -/

/-- A record whose array stays clear of its attributes, and whose first `$DATA` is `a`, with
a value behind its header. -/
structure PlainRecord (driver : NtfsDriver) (record : List UInt8) (a : Attr) : Prop where
  signature : HasSignature record
  clear : ArrayClear record driver.sectorSize
  front : 48 ≤ leAt record 4 2 → leAt record 6 2 ≠ 0 →
    leAt record 4 2 + 2 * leAt record 6 2 ≤ leAt record 20 2
  first : (attrsFrom record (leAt record 20 2)).1.find? (fun a ↦ decide (a.typ = .data)) = some a
  value : ValueInside a

theorem not_saved_of_le {record : List UInt8} {p : Nat}
    (hfront : 48 ≤ leAt record 4 2 → leAt record 6 2 ≠ 0 →
      leAt record 4 2 + 2 * leAt record 6 2 ≤ leAt record 20 2)
    (hp : leAt record 20 2 ≤ p) : ¬ Saved record p := by
  rintro ⟨hactive, h₁, h₂⟩
  have h₃ := hfront hactive (by omega)
  omega

/-- The header of an attribute reads the same where the record is unchanged. -/
theorem leAt_reread {r r' : List UInt8} {off k n : Nat} {a : Attr} (ha : a ∈ (attrsFrom r off).1)
    (hlen : k + n ≤ a.data.length)
    (h : ∀ p, a.offset + k ≤ p → p < a.offset + (k + n) → r'[p]? = r[p]?) :
    leAt (a.reread r').data k n = leAt a.data k n := by
  obtain ⟨-, -, hnext⟩ := attrsFrom_mem ha
  obtain ⟨-, -, -, hfit, -, -, hdata, -⟩ := nextAttr_eq_some hnext
  have hl : a.data.length = leAt r (a.offset + 4) 4 := by
    rw [hdata, length_slice _ _ _ hfit]
  apply leAt_congr
  intro i h₁ h₂
  rw [hdata, Attr.reread, getElem?_slice, getElem?_slice, if_pos (by omega), if_pos (by omega)]
  exact h _ (by omega) (by omega)

/-- The value of an attribute as a window of a record. -/
theorem value_reread {r : List UInt8} {a : Attr}
    (h : leAt (a.reread r).data 20 2 + leAt (a.reread r).data 16 4 ≤ a.data.length) :
    (a.reread r).value =
      slice r (a.offset + leAt (a.reread r).data 20 2) (leAt (a.reread r).data 16 4) := by
  rw [Attr.value]
  exact slice_slice _ _ _ _ _ h

/-- What an update of the first `$DATA` leaves behind: the attributes around it, its header,
and the new value. -/
structure Updated (record r : List UInt8) (a : Attr) (data : List UInt8) : Prop where
  length : r.length = record.length
  start : leAt r 20 2 = leAt record 20 2
  attrs : ∃ l₁ l₂, (attrsFrom record (leAt record 20 2)).1 = l₁ ++ a :: l₂ ∧
    (∀ b ∈ l₁, b.typ ≠ .data) ∧
    attrsFrom r (leAt record 20 2) =
      (l₁ ++ a.reread r :: l₂, (attrsFrom record (leAt record 20 2)).2)
  header : ∀ k n, k + n ≤ 24 → leAt (a.reread r).data k n = leAt a.data k n
  value : (a.reread r).value = data
  inside : ValueInside (a.reread r)
  same : data = a.value → a.reread r = a

/-- The updated record, marked and opened again. -/
theorem updated_of_reapplyFixups {record marked data : List UInt8} {a : Attr}
    (hp : PlainRecord driver record a) (hlen : data.length = leAt a.data 16 4)
    (hm : reapplyFixups (splice record (a.offset + leAt a.data 20 2) data) driver.sectorSize =
      .ok marked) :
    ∃ r, openRecord driver marked = .ok r ∧ Updated record r a data := by
  obtain ⟨hsig, hclear, hfront, hfirst, hres, hbehind, hinside⟩ := hp
  obtain ⟨hdata, l₁, l₂, hsplit, hbefore⟩ := List.find?_eq_some_iff_append.mp hfirst
  have hmem : a ∈ (attrsFrom record (leAt record 20 2)).1 := by
    rw [hsplit]
    exact List.mem_append_right _ List.mem_cons_self
  obtain ⟨hge, hfit, -⟩ := attrsFrom_mem hmem
  generalize hstart : a.offset + leAt a.data 20 2 = start at *
  have hbytes : ∀ p, (splice record start data)[p]? =
      if start ≤ p ∧ p < start + data.length then data[p - start]? else record[p]? :=
    fun p ↦ getElem?_splice _ _ _ _ (by omega)
  obtain ⟨r, hopen, hrl, hr⟩ := openRecord_reapplyFixups hsig hclear
    (length_splice _ _ _ (by omega)) (by
      intro p hp
      rw [hbytes, if_neg (by omega)]) hm
  -- Outside the value, and apart from the saved words, the record is as before.
  have hkeep : ∀ p, ¬ Saved record p → ¬ (start ≤ p ∧ p < start + data.length) →
      r[p]? = record[p]? := by
    intro p hsaved hin
    rw [hr p hsaved, hbytes, if_neg hin]
  have hattr : ∀ p, leAt record 20 2 ≤ p → ¬ Saved record p :=
    fun p hp ↦ not_saved_of_le hfront hp
  have hheader : ∀ k n, k + n ≤ 24 → leAt (a.reread r).data k n = leAt a.data k n := by
    intro k n hk
    apply leAt_reread hmem (by omega)
    intro p h₁ h₂
    exact hkeep p (hattr p (by omega)) (by omega)
  have hvalue : (a.reread r).value = data := by
    have hoff := hheader 20 2 (by decide)
    have hsize := hheader 16 4 (by decide)
    rw [value_reread (by omega), hoff, hsize, hstart, ← hlen]
    apply Eq.trans _ (slice_splice_same record start data (by omega))
    apply slice_congr
    intro p h₁ h₂
    exact hr p (hattr p (by omega))
  refine ⟨r, hopen, hrl, ?_, ⟨l₁, l₂, hsplit, ?_, ?_⟩, hheader, hvalue, ?_, ?_⟩
  · apply leAt_congr
    intro p h₁ h₂
    apply hkeep
    · rintro ⟨h₃, h₄, -⟩
      omega
    · omega
  · intro b hb htyp
    have hno := hbefore b hb
    simp only [htyp, decide_true] at hno
    cases hno
  · apply attrsFrom_write hrl hsplit (show a.offset + 24 ≤ start by omega)
      (show start + data.length ≤ _ by omega)
    intro p h₁ h₂
    exact hkeep p (hattr p h₁) h₂
  · have hlen' : (a.reread r).data.length = a.data.length := length_slice _ _ _ (by omega)
    exact ⟨hres, by rw [hheader 20 2 (by decide)]; exact hbehind,
      by rw [hheader 20 2 (by decide), hheader 16 4 (by decide), hlen']; exact hinside⟩
  · intro hsame
    have hself := reread_of_mem hmem fun p _ _ ↦ rfl
    have hold : data = slice record start data.length := by
      rw [← hself] at hsame
      rw [hlen]
      rw [hsame, value_reread (by rw [hself]; exact hinside), hself, hstart]
    apply reread_of_mem hmem
    intro p h₁ h₂
    rw [hr p (hattr p (by omega)), hbytes]
    by_cases hin : start ≤ p ∧ p < start + data.length
    · rw [if_pos hin, hold, getElem?_slice, if_pos (by omega)]
      congr 1
      omega
    · rw [if_neg hin]

theorem parseStat_eq_ok {record : List UInt8} {boot : BootSector} {st : NtfsStat} :
    parseStat record boot = .ok st ↔ 22 ≤ record.length ∧
      (attrsFrom record (leAt record 20 2)).1.foldlM (statStep boot) {} = .ok st ∧
      (attrsFrom record (leAt record 20 2)).2 = .ok () := by
  simp only [parseStat_eq, Outcome.bind_eq_ok, uintAt_eq_ok, Outcome.pure_eq_ok, Outcome.ok.injEq]
  constructor
  · rintro ⟨_, ⟨h₁, rfl⟩, _, h₂, _, h₃, rfl⟩
    exact ⟨h₁, h₂, h₃⟩
  · rintro ⟨h₁, h₂, h₃⟩
    exact ⟨_, ⟨h₁, rfl⟩, st, h₂, (), h₃, rfl⟩

theorem otherAttributes_eq_ok {record : List UInt8} {attrs : List Attr} :
    otherAttributes record = .ok attrs ↔ 22 ≤ record.length ∧
      (attrsFrom record (leAt record 20 2)).2 = .ok () ∧
      (attrsFrom record (leAt record 20 2)).1.filter (!·.isUnnamedData) = attrs := by
  simp only [otherAttributes, parseAttributes, Outcome.bind_eq_ok, uintAt_eq_ok, Outcome.pure_eq_ok,
    Outcome.ok.injEq]
  constructor
  · rintro ⟨_, ⟨_, ⟨h₁, rfl⟩, rfl⟩, _, h₂, h₃⟩
    exact ⟨h₁, h₂, h₃⟩
  · rintro ⟨h₁, h₂, h₃⟩
    exact ⟨_, ⟨_, ⟨h₁, rfl⟩, rfl⟩, (), h₂, h₃⟩

namespace Updated

variable {record r data : List UInt8} {a : Attr}

theorem isUnnamedData (h : Updated record r a data) :
    (a.reread r).isUnnamedData = a.isUnnamedData := by
  rw [Attr.isUnnamedData, Attr.isUnnamedData, h.header 9 1 (by decide)]
  rfl

/-- An update of the unnamed stream shows in the metadata as the new content. -/
theorem parseStat_unnamed (h : Updated record r a data) (hv : ValueInside a)
    (hu : a.isUnnamedData = true) {boot : BootSector} {st : NtfsStat} {content : List UInt8}
    (hst : parseStat record boot = .ok st) (hone : st.dataRuns = [.resident content]) :
    parseStat r boot = .ok (st.withRuns [.resident data]) := by
  obtain ⟨hlen, hfold, hend⟩ := parseStat_eq_ok.mp hst
  obtain ⟨l₁, l₂, hsplit, hfront, hwalk⟩ := h.attrs
  rw [hsplit] at hfold
  have hnew := foldlM_statStep_replace hfront hu hv (h.isUnnamedData.trans hu) h.inside
    (h.header 16 4 (by decide)) hfold hone
  apply parseStat_eq_ok.mpr
  rw [h.start, hwalk, h.length]
  rw [h.value] at hnew
  exact ⟨hlen, hnew, hend⟩

/-- Where the walks agree apart from streams of the file, so do the other attributes. -/
theorem otherAttributes_eq (h : Updated record r a data)
    (hfilter : (attrsFrom r (leAt r 20 2)).1.filter (!·.isUnnamedData) =
      (attrsFrom record (leAt record 20 2)).1.filter (!·.isUnnamedData)) :
    otherAttributes r = otherAttributes record := by
  obtain ⟨l₁, l₂, -, -, hwalk⟩ := h.attrs
  have hend : (attrsFrom r (leAt r 20 2)).2 = (attrsFrom record (leAt record 20 2)).2 := by
    rw [h.start, hwalk]
  unfold otherAttributes parseAttributes uintAt
  rw [h.length]
  by_cases hlen : 20 + 2 ≤ record.length
  · simp only [Outcome.assert_of hlen, Outcome.ok_bind, Outcome.pure_eq_ok, hend, hfilter]
  · rw [Outcome.assert_not hlen]
    rfl

/-- An update of the unnamed stream leaves the other attributes as they are. -/
theorem otherAttributes_unnamed (h : Updated record r a data) (hu : a.isUnnamedData = true) :
    otherAttributes r = otherAttributes record := by
  obtain ⟨l₁, l₂, hsplit, -, hwalk⟩ := h.attrs
  apply h.otherAttributes_eq
  rw [h.start, hwalk, hsplit, List.filter_append, List.filter_append,
    List.filter_cons_of_neg (by simp [h.isUnnamedData.trans hu]),
    List.filter_cons_of_neg (by simp [hu])]

/-- A named first stream that is kept among the other attributes is kept as it is. -/
theorem reread_of_otherAttributes (h : Updated record r a data) {boot : BootSector}
    {st : NtfsStat} (hst : parseStat record boot = .ok st) (hu : ¬ a.isUnnamedData = true)
    (hothers : otherAttributes r = otherAttributes record) : a.reread r = a := by
  obtain ⟨hlen, -, hend⟩ := parseStat_eq_ok.mp hst
  obtain ⟨l₁, l₂, hsplit, -, hwalk⟩ := h.attrs
  rw [otherAttributes_eq_ok.mpr ⟨hlen, hend, rfl⟩] at hothers
  obtain ⟨-, -, hfilter⟩ := otherAttributes_eq_ok.mp hothers
  have hu' : ¬ (a.reread r).isUnnamedData = true := by rwa [h.isUnnamedData]
  rw [h.start, hwalk, hsplit, List.filter_append, List.filter_append,
    List.filter_cons_of_pos (by simpa using hu'), List.filter_cons_of_pos (by simpa using hu)]
    at hfilter
  exact (List.cons.inj (List.append_cancel_left hfilter)).1

/-- An update that writes what is there leaves the walk as it is. -/
theorem attrsFrom_same (h : Updated record r a data) (hsame : a.reread r = a) :
    attrsFrom r (leAt r 20 2) = attrsFrom record (leAt record 20 2) := by
  obtain ⟨l₁, l₂, hsplit, -, hwalk⟩ := h.attrs
  rw [h.start, hwalk, hsame, ← hsplit]

end Updated

/-! ### The call -/

/-- The write of a file's record with new data; compare `writeResidentFile`. -/
def writePlan (driver : NtfsDriver) (d : ByteStore) (n : Nat) (data : List UInt8) :
    Outcome NtfsError (Nat × List UInt8) := do
  let st ← statAt driver d n
  checkResident st data
  let record ← recordAt driver d n
  let record ← updateRecord driver record data
  let off ← driver.recordOffset n
  return (off, record)

theorem writeFile_byteStore (file : NtfsFile) (data : List UInt8) (d : ByteStore) :
    writeFile driver file data d = commit (writePlan driver d file.recordNumber data) d := by
  apply bind_commit (stat_byteStore file d)
  intro st
  apply bind_commit (Prog.lift_apply _ d)
  intro _
  apply bind_commit (readMftRecord_byteStore file.recordNumber d)
  intro record
  apply bind_commit (Prog.lift_apply _ d)
  intro record
  apply bind_commit (Prog.lift_apply _ d)
  intro off
  rfl

theorem checkResident_eq_ok {st : NtfsStat} {data : List UInt8} {u : Unit} :
    checkResident st data = .ok u ↔ ∃ existing rest, st.dataRuns = .resident existing :: rest ∧
      data.length = existing.length := by
  unfold checkResident
  split
  · next h => simp [h]
  · next existing rest h =>
    rw [Outcome.ensure_eq_ok]
    constructor
    · exact fun hl ↦ ⟨existing, rest, h, hl⟩
    · rintro ⟨existing', rest', h', hl⟩
      rw [h] at h'
      cases h'
      exact hl
  · next h => simp [h]

/-- What a planned write has passed. -/
theorem writePlan_eq_ok {d : ByteStore} {n off : Nat} {data bytes : List UInt8}
    (h : writePlan driver d n data = .ok (off, bytes)) :
    ∃ record st existing rest attr, recordAt driver d n = .ok record ∧
      parseStat record driver.boot = .ok st ∧ st.dataRuns = .resident existing :: rest ∧
      data.length = existing.length ∧ findDataAttributeOffset record = .ok attr ∧
      data.length = leAt record (attr + 16) 4 ∧
      reapplyFixups (splice record (attr + leAt record (attr + 20) 2) data) driver.sectorSize =
        .ok bytes ∧ attr + leAt record (attr + 20) 2 + data.length ≤ record.length ∧
      driver.recordOffset n = .ok off := by
  simp only [writePlan, statAt, updateRecord, updateResidentData, Outcome.bind_eq_ok,
    Outcome.ensure_eq_ok, Outcome.pure_eq_ok, Outcome.ok.injEq, Prod.mk.injEq, putAt_eq_ok,
    checkResident_eq_ok] at h
  obtain ⟨st, ⟨record, hrec, hst⟩, _, ⟨existing, rest, hruns, hl⟩, record', hrec', marked,
    ⟨attr, hattr, _, ⟨_, -, _, ⟨hlen, -⟩, hput, rfl⟩, hmark⟩, _, hoff, rfl, rfl⟩ := h
  rw [hrec] at hrec'
  cases hrec'
  exact ⟨record, st, existing, rest, attr, hrec, hst, hruns, hl, hattr, hlen, hmark, hput, hoff⟩

/-- A planned write covers the file's record. -/
theorem length_writePlan {d : ByteStore} {n off : Nat} {data bytes : List UInt8}
    (h : writePlan driver d n data = .ok (off, bytes)) : bytes.length = driver.mftRecordSize := by
  obtain ⟨record, -, -, -, attr, hrec, -, -, -, -, -, hmark, hput, -⟩ := writePlan_eq_ok h
  rw [(reapplyFixups_untouched hmark).1, length_splice _ _ _ hput, length_recordAt hrec]

/-- How `write_file` ends on a byte store: with the planned record in its slot, or with the
image as it was. -/
theorem writeFile_cases {d d' : ByteStore} {file : NtfsFile} {data : List UInt8}
    {r : Outcome NtfsError Unit} (h : writeFile driver file data d = (r, d')) :
    (r = .ok () ∧ ∃ off bytes, writePlan driver d file.recordNumber data = .ok (off, bytes) ∧
      d.write off bytes = some d') ∨ (r ≠ .ok () ∧ d' = d ∧
        ∀ w, writePlan driver d file.recordNumber data ≠ .ok w) := by
  rw [writeFile_byteStore] at h
  rcases commit_cases h with ⟨off, bytes, hplan, hw, hr⟩ | ⟨hd, hr, hnone⟩
  · exact .inl ⟨hr, off, bytes, hplan, hw⟩
  · refine .inr ⟨hr, hd, ?_⟩
    rintro ⟨off, bytes⟩ hplan
    -- The record was read where it is written.
    obtain ⟨record, -, -, -, -, hrec, -, -, -, -, -, -, -, hoff⟩ := writePlan_eq_ok hplan
    obtain ⟨buf, hs, -⟩ := recordAt_eq_ok.mp hrec
    obtain ⟨off', hoff', hread⟩ := slot_eq_ok.mp hs
    rw [hoff] at hoff'
    cases hoff'
    obtain ⟨hle, -⟩ := ByteStore.read_eq_some.mp hread
    obtain ⟨t, hw, -⟩ := ByteStore.write_of_le d off bytes (by rwa [length_writePlan hplan])
    rw [hnone off bytes hplan] at hw
    cases hw

/-- A file whose content is its one resident stream reads as that content. -/
theorem readFileAll_resident {d : ByteStore} {file : NtfsFile} {st : NtfsStat}
    {content : List UInt8}
    (hst : statAt driver d file.recordNumber = .ok st) (hfile : st.isDirectory = false)
    (hone : st.dataRuns = [.resident content]) :
    readFileAll driver file d = (.ok content, d) := by
  refine (Prog.bind_of_ok ((stat_byteStore file d).trans (by rw [hst]))).trans ?_
  refine (Prog.bind_of_ok (Prog.lift_eq_ok.mpr ⟨Outcome.ensure_of hfile, rfl⟩)).trans ?_
  rw [hone]
  change (Outcome.ok (content ++ []), d) = _
  rw [List.append_nil]

/-- What `write_file` is to do: on success the file reads as written, the other attributes and
the rest of the metadata stay, and so does every byte outside of the record; an error changes
nothing. -/
structure Overwrites (driver : NtfsDriver) (d : ByteStore) (file : NtfsFile) (data : List UInt8) :
    Prop where
  content : ∀ d', writeFile driver file data d = (.ok (), d') →
    readFileAll driver file d' = (.ok data, d')
  attributes : ∀ d', writeFile driver file data d = (.ok (), d') →
    (recordAt driver d' file.recordNumber >>= otherAttributes) =
      (recordAt driver d file.recordNumber >>= otherAttributes)
  metadata : ∀ d', writeFile driver file data d = (.ok (), d') →
    ∃ st runs, statAt driver d file.recordNumber = .ok st ∧
      statAt driver d' file.recordNumber = .ok (st.withRuns runs)
  outside : ∀ d', writeFile driver file data d = (.ok (), d') →
    ∀ off, driver.recordOffset file.recordNumber = .ok off →
      ∀ p, p < off ∨ off + driver.mftRecordSize ≤ p → d'.bytes[p]? = d.bytes[p]?
  error : ∀ e d', writeFile driver file data d = (.err e, d') → d' = d

/-- A file that is no directory, with a plain record and one resident stream of its own. -/
structure PlainFile (driver : NtfsDriver) (d : ByteStore) (file : NtfsFile) (record : List UInt8)
    (a : Attr) (st : NtfsStat) (content : List UInt8) : Prop where
  read : recordAt driver d file.recordNumber = .ok record
  plain : PlainRecord driver record a
  stat : parseStat record driver.boot = .ok st
  file : st.isDirectory = false
  one : st.dataRuns = [.resident content]

/-- The first `$DATA` is the unnamed stream, or the data is what both streams hold already. -/
def FirstIsUnnamed (a : Attr) (content data : List UInt8) : Prop :=
  a.isUnnamedData = true ∨ (a.value = data ∧ content = data)

/-- Whatever the record looks like, an error changes nothing and a success nothing else than
the record. -/
theorem writeFile_frame (driver : NtfsDriver) (d : ByteStore) (file : NtfsFile)
    (data : List UInt8) :
    (∀ d', writeFile driver file data d = (.ok (), d') →
      ∀ off, driver.recordOffset file.recordNumber = .ok off →
        ∀ p, p < off ∨ off + driver.mftRecordSize ≤ p → d'.bytes[p]? = d.bytes[p]?) ∧
    ∀ e d', writeFile driver file data d = (.err e, d') → d' = d := by
  constructor
  · intro d' hcall off hoff p hp
    rcases writeFile_cases hcall with ⟨-, off', bytes, hplan, hw⟩ | ⟨hne, -, -⟩
    · obtain ⟨-, -, -, -, -, -, -, -, -, -, -, -, -, hoff'⟩ := writePlan_eq_ok hplan
      rw [hoff] at hoff'
      cases hoff'
      apply ByteStore.getElem?_write hw
      rwa [length_writePlan hplan]
    · exact absurd rfl hne
  · intro e d' hcall
    rcases writeFile_cases hcall with ⟨hr, -⟩ | ⟨-, hd, -⟩
    · cases hr
    · exact hd

/-- After a success on a plain file, its record is the updated one. -/
theorem updated_of_writeFile {d d' : ByteStore} {file : NtfsFile} {data content record : List UInt8}
    {a : Attr} {st : NtfsStat} (hf : PlainFile driver d file record a st content)
    (hcall : writeFile driver file data d = (.ok (), d')) :
    ∃ r, recordAt driver d' file.recordNumber = .ok r ∧ Updated record r a data := by
  rcases writeFile_cases hcall with ⟨-, off, bytes, hplan, hw⟩ | ⟨hne, -⟩
  · obtain ⟨record', st', existing, rest, attr, hrec, hst, -, -, hattr, hlen, hmark, -, hoff⟩ :=
      writePlan_eq_ok hplan
    rw [hf.read] at hrec
    cases hrec
    have hfind : findDataAttributeOffset record = .ok a.offset := by
      obtain ⟨h22, -⟩ := parseStat_eq_ok.mp hf.stat
      rw [findDataAttributeOffset, uintAt_of h22, Outcome.ok_bind]
      exact findDataFrom_of_find hf.plain.first
    rw [hfind] at hattr
    cases hattr
    obtain ⟨-, l₁, l₂, hsplit, -⟩ := List.find?_eq_some_iff_append.mp hf.plain.first
    have hmem : a ∈ (attrsFrom record (leAt record 20 2)).1 := by
      rw [hsplit]
      exact List.mem_append_right _ List.mem_cons_self
    have hin := hf.plain.value.inside
    have hbehind := hf.plain.value.behind
    rw [leAt_attr hmem (k := 16) (n := 4) (by omega)] at hlen
    rw [leAt_attr hmem (k := 20) (n := 2) (by omega)] at hmark
    obtain ⟨r, hopen, hupdated⟩ := updated_of_reapplyFixups hf.plain hlen hmark
    refine ⟨r, recordAt_eq_ok.mpr ⟨bytes, ?_, hopen⟩, hupdated⟩
    exact slot_write_same hoff (length_writePlan hplan) hw
  · exact absurd rfl hne

/-- On a plain file, the call does what it is to do if and only if it is refused or the first
`$DATA` is the unnamed stream. -/
theorem overwrites_iff {d : ByteStore} {file : NtfsFile} {data content record : List UInt8}
    {a : Attr} {st : NtfsStat} (hf : PlainFile driver d file record a st content) :
    Overwrites driver d file data ↔
      (∀ w, writePlan driver d file.recordNumber data ≠ .ok w) ∨ FirstIsUnnamed a content data := by
  have hst : statAt driver d file.recordNumber = .ok st := by
    rw [statAt, hf.read, Outcome.ok_bind, hf.stat]
  -- An update that leaves the first stream as it is leaves the walk, and so the metadata.
  have hself : ∀ {d' : ByteStore} {r : List UInt8}, recordAt driver d' file.recordNumber = .ok r →
      Updated record r a data → a.reread r = a →
      statAt driver d' file.recordNumber = .ok st ∧ otherAttributes r = otherAttributes record := by
    intro d' r hrec hu hsame
    have hwalk := hu.attrsFrom_same hsame
    constructor
    · obtain ⟨hlen, hfold, hend⟩ := parseStat_eq_ok.mp hf.stat
      rw [statAt, hrec, Outcome.ok_bind]
      apply parseStat_eq_ok.mpr
      rw [hwalk, hu.length]
      exact ⟨hlen, hfold, hend⟩
    · apply hu.otherAttributes_eq
      rw [hwalk]
  constructor
  · intro h
    by_cases hplan : ∃ w, writePlan driver d file.recordNumber data = .ok w
    · right
      obtain ⟨w, hplan⟩ := hplan
      rcases hcall : writeFile driver file data d with ⟨res, d'⟩
      rcases writeFile_cases hcall with ⟨rfl, -⟩ | ⟨-, -, hnone⟩
      · obtain ⟨r, hrec, hu⟩ := updated_of_writeFile hf hcall
        by_cases hun : a.isUnnamedData = true
        · exact .inl hun
        -- A named first stream is one of the attributes that have to stay.
        have hothers := h.attributes d' hcall
        rw [hrec, hf.read, Outcome.ok_bind, Outcome.ok_bind] at hothers
        have hsame : a.reread r = a := hu.reread_of_otherAttributes hf.stat hun hothers
        obtain ⟨hst', -⟩ := hself hrec hu hsame
        have hread := h.content d' hcall
        rw [readFileAll_resident hst' hf.file hf.one] at hread
        refine .inr ⟨?_, Outcome.ok.inj (Prod.mk.inj hread).1⟩
        rw [← hu.value, hsame]
      · exact absurd hplan (hnone w)
    · left
      intro w hw
      exact hplan ⟨w, hw⟩
  · intro h
    have hframe := writeFile_frame driver d file data
    have key : ∀ d', writeFile driver file data d = (.ok (), d') →
        statAt driver d' file.recordNumber = .ok (st.withRuns [.resident data]) ∧
        (recordAt driver d' file.recordNumber >>= otherAttributes) =
          (recordAt driver d file.recordNumber >>= otherAttributes) := by
      intro d' hcall
      obtain ⟨r, hrec, hu⟩ := updated_of_writeFile hf hcall
      rw [hrec, hf.read, Outcome.ok_bind, Outcome.ok_bind]
      rcases h with hnone | hun | ⟨hvalue, hcontent⟩
      · rcases writeFile_cases hcall with ⟨-, off, bytes, hplan, -⟩ | ⟨hne, -⟩
        · exact absurd hplan (hnone _)
        · exact absurd rfl hne
      · refine ⟨?_, hu.otherAttributes_unnamed hun⟩
        rw [statAt, hrec, Outcome.ok_bind]
        exact hu.parseStat_unnamed hf.plain.value hun hf.stat hf.one
      · obtain ⟨hst', hothers⟩ := hself hrec hu (hu.same hvalue.symm)
        refine ⟨?_, hothers⟩
        rw [hst', ← hcontent, ← hf.one]
        rfl
    refine ⟨?_, fun d' hcall ↦ (key d' hcall).2, ?_, hframe.1, hframe.2⟩
    · intro d' hcall
      exact readFileAll_resident (key d' hcall).1 hf.file rfl
    · intro d' hcall
      exact ⟨st, _, hst, (key d' hcall).1⟩

/-- The stream `s` of three bytes. -/
def namedStream : List UInt8 :=
  leBytes 4 0x80 ++ (leBytes 4 40 ++
    (leBytes 1 0 ++ (leBytes 1 1 ++ (leBytes 2 24 ++ (leBytes 4 0 ++
    (leBytes 4 3 ++ (leBytes 2 32 ++ (leBytes 2 0 ++ (leBytes 2 0x73 ++ (List.replicate 6 0 ++
      ([1, 2, 3] ++ List.replicate 5 0)))))))))))

/-- The file's own stream of three bytes. -/
def ownStream : List UInt8 := residentHeader 0x80 32 3 0 ++ ([7, 8, 9] ++ List.replicate 5 0)

/-- A record with the two streams in the given order. -/
def twoStreams (ownFirst : Bool) : List UInt8 :=
  recordHeader 0 1024 136 ++ ((if ownFirst then ownStream ++ namedStream else
    namedStream ++ ownStream) ++ (leBytes 4 0xFFFFFFFF ++ List.replicate 892 0))

theorem length_twoStreams (ownFirst : Bool) : (twoStreams ownFirst).length = 1024 := by
  have hown : ownStream.length = 32 := by
    simp only [ownStream, List.length_append, length_residentHeader, List.length_replicate,
      List.length_cons, List.length_nil]
  have hnamed : namedStream.length = 40 := by
    simp only [namedStream, List.length_append, length_leBytes, List.length_replicate,
      List.length_cons, List.length_nil]
  simp only [twoStreams, List.length_append, length_recordHeader, length_leBytes,
    List.length_replicate]
  cases ownFirst with
  | true => rw [if_pos rfl, List.length_append, hown, hnamed]
  | false => rw [if_neg Bool.false_ne_true, List.length_append, hown, hnamed]

/-- The metadata of both records. -/
def twoStreamsStat : NtfsStat where
  size := 3
  dataRuns := [.resident [7, 8, 9]]
  alternateDataStreams := [{ name := ['s'], size := 3, data := .resident [1, 2, 3] }]

/-- The first attribute of the two. -/
def firstStream (ownFirst : Bool) : Attr where
  offset := 56
  typ := .data
  data := if ownFirst then ownStream else namedStream
  isResident := true

theorem plainFile_twoStreams (ownFirst : Bool) :
    PlainFile smallDriver (smallVolume (twoStreams ownFirst)) ⟨5⟩ (twoStreams ownFirst)
      (firstStream ownFirst) twoStreamsStat [7, 8, 9] where
  read := by
    have hl := length_twoStreams ownFirst
    rw [recordAt_smallVolume hl]
    have hzeros : List.replicate 892 0 <:+ twoStreams ownFirst := List.suffix_append_of_suffix
      (List.suffix_append_of_suffix (List.suffix_append _ _))
    exact openRecord_recordHeader rfl hl hzeros (by decide)
  plain := by
    constructor
    · unfold HasSignature
      cases ownFirst <;> decide
    · unfold ArrayClear
      cases ownFirst <;> decide
    · cases ownFirst <;> decide
    · cases ownFirst <;> decide +kernel
    · cases ownFirst <;> constructor <;> decide
  stat := by cases ownFirst <;> decide +kernel
  file := rfl
  one := rfl

end SmallOs.Ntfs
