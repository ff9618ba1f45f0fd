import SmallOs.Base.Lists
import SmallOs.Ntfs.Walk

/-!
# Three walkers over one chain

The headers of a record's attributes form a chain: each of them leads to the next one by its length.
The iterator of `lib/vfs/src/fs/ntfs/attr.rs` and the two searches by type code, there and in
`index.rs`, walk along this chain; they differ in what makes them stop.
-/

namespace SmallOs.Ntfs

open SmallOs.Base

/-! ### The chain -/

/-- What the searches read of an attribute. -/
structure Header where
  offset : Nat
  code : Nat
  length : Nat
  deriving DecidableEq, Repr

/-- The header at an offset; none behind the end of the record and at the end marker. -/
def headerAt (record : List UInt8) (offset : Nat) : Option Header :=
  if record.length < offset + 8 ∨ leAt record offset 4 = 0xFFFFFFFF then none
  else some ⟨offset, leAt record offset 4, leAt record (offset + 4) 4⟩

/-- The attribute is not empty and lies in the record. -/
def Header.Fits (record : List UInt8) (h : Header) : Prop :=
  0 < h.length ∧ h.offset + h.length ≤ record.length

instance (record : List UInt8) (h : Header) : Decidable (h.Fits record) :=
  inferInstanceAs (Decidable (_ ∧ _))

/-- The type code is one that the iterator knows. -/
def Header.Known (h : Header) : Prop := AttributeType.ofCode h.code ≠ none

instance (h : Header) : Decidable h.Known := inferInstanceAs (Decidable (_ ≠ _))

theorem headerAt_eq_some {record : List UInt8} {offset : Nat} {h : Header}
    (hat : headerAt record offset = some h) : offset + 8 ≤ record.length ∧
      leAt record offset 4 ≠ 0xFFFFFFFF ∧
        h = ⟨offset, leAt record offset 4, leAt record (offset + 4) 4⟩ := by
  unfold headerAt at hat
  split at hat
  · cases hat
  · cases hat
    exact ⟨by omega, by omega, rfl⟩

/-- The headers from an offset on. -/
def headersFrom (record : List UInt8) (offset : Nat) : List Header :=
  match _h : headerAt record offset with
  | none => []
  | some h => h :: if h.Fits record then headersFrom record (offset + h.length) else []
termination_by record.length - offset
decreasing_by
  obtain ⟨hle, -, rfl⟩ := headerAt_eq_some _h
  have hfits : _ ∧ _ := ‹Header.Fits _ _›
  dsimp only at hfits ⊢
  omega

theorem headersFrom_cons {record : List UInt8} {offset : Nat} {h : Header}
    (hat : headerAt record offset = some h) : headersFrom record offset =
      h :: if h.Fits record then headersFrom record (offset + h.length) else [] := by
  rw [headersFrom, hat]

theorem headersFrom_nil {record : List UInt8} {offset : Nat} (hat : headerAt record offset = none) :
    headersFrom record offset = [] := by
  rw [headersFrom, hat]

/-- Only the last header of the chain may fail to fit. -/
theorem fits_of_split {record : List UInt8} {offset : Nat} {before after : List Header} {h : Header}
    (hsplit : headersFrom record offset = before ++ h :: after) : ∀ g ∈ before, g.Fits record := by
  induction offset using headersFrom.induct record generalizing before with
  | case1 offset hnone =>
    rw [headersFrom_nil hnone] at hsplit
    exact absurd hsplit nil_ne_append_cons
  | case2 offset first hsome ih =>
    rw [headersFrom_cons hsome] at hsplit
    cases before with
    | nil => exact fun g hg ↦ absurd hg List.not_mem_nil
    | cons g before =>
      obtain ⟨rfl, hrest⟩ := List.cons.inj hsplit
      by_cases hfits : first.Fits record
      · rw [if_pos hfits] at hrest
        exact List.forall_mem_cons.mpr ⟨hfits, ih hfits hrest⟩
      · rw [if_neg hfits] at hrest
        exact absurd hrest nil_ne_append_cons

/-! ### The searches -/

/-- The search by type code finds the first header of that code. -/
theorem findAttributeFrom_eq (record : List UInt8) (code offset : Nat) :
    findAttributeFrom record code offset =
      Outcome.ofOption .invalidAttribute
        (((headersFrom record offset).find? (fun h ↦ decide (h.code = code))).map (·.offset)) := by
  induction offset using headersFrom.induct record with
  | case1 offset hnone =>
    rw [headersFrom_nil hnone, findAttributeFrom]
    unfold headerAt at hnone
    split at hnone
    · next hstop =>
      split
      · rw [if_pos (by omega)]
        rfl
      · rfl
    · cases hnone
  | case2 offset first hsome ih =>
    rw [headersFrom_cons hsome, findAttributeFrom]
    obtain ⟨hle, hend, hfirst⟩ := headerAt_eq_some hsome
    have hcode : leAt record offset 4 = first.code := by rw [hfirst]
    have hlength : leAt record (offset + 4) 4 = first.length := by rw [hfirst]
    have hoffset : offset = first.offset := by rw [hfirst]
    rw [dif_pos hle, if_neg hend, hcode, hlength]
    by_cases hsame : first.code = code
    · rw [if_pos hsame, List.find?_cons_of_pos (by simpa using hsame)]
      exact congrArg Outcome.ok hoffset
    rw [if_neg hsame, List.find?_cons_of_neg (by simpa using hsame)]
    by_cases hfits : first.Fits record
    · obtain ⟨hpos, hin⟩ := hfits
      rw [dif_neg (by omega), if_pos ⟨hpos, hin⟩]
      exact ih ⟨hpos, hin⟩
    · have hbad : first.length = 0 ∨ record.length < offset + first.length := by
        unfold Header.Fits at hfits
        omega
      rw [dif_pos hbad, if_neg hfits]
      rfl

/-- The search for `$DATA` is the search for its code. -/
theorem findDataFrom_eq (record : List UInt8) (offset : Nat) :
    findDataFrom record offset = findAttributeFrom record 0x80 offset := by
  induction offset using findDataFrom.induct record with
  | case1 offset hle hend =>
    rw [findDataFrom, findAttributeFrom, dif_pos hle, dif_pos hle, if_pos hend, if_pos hend]
  | case2 offset hle hend hcode =>
    rw [findDataFrom, findAttributeFrom, dif_pos hle, dif_pos hle, if_neg hend, if_neg hend,
      if_pos hcode, if_pos hcode]
  | case3 offset hle hend hcode hlen =>
    rw [findDataFrom, findAttributeFrom, dif_pos hle, dif_pos hle, if_neg hend, if_neg hend,
      if_neg hcode, if_neg hcode, dif_pos hlen, dif_pos (.inl hlen)]
  | case4 offset hle hend hcode hlen ih =>
    rw [findDataFrom, findAttributeFrom, dif_pos hle, dif_pos hle, if_neg hend, if_neg hend,
      if_neg hcode, if_neg hcode, dif_neg hlen, ih]
    split
    · next hstop =>
      rw [findAttributeFrom, dif_neg (by omega)]
    · rfl
  | case5 offset hle => rw [findDataFrom, findAttributeFrom, dif_neg hle, dif_neg hle]

/-- Where the iterator ends there is no header, or one that does not fit or is not known. -/
theorem headerAt_of_nextAttr_none {record : List UInt8} {offset : Nat}
    (ha : nextAttr record offset = .ok none) :
    ∀ h, headerAt record offset = some h → ¬ (h.Fits record ∧ h.Known) := by
  rintro h hat ⟨hfits, hknown⟩
  obtain ⟨hle, hend, rfl⟩ := headerAt_eq_some hat
  obtain ⟨hpos, hin⟩ := hfits
  unfold nextAttr at ha
  dsimp only at hpos hin
  rw [if_neg (by omega), if_neg hend, if_neg (by omega), Outcome.bind_eq_ok] at ha
  obtain ⟨flag, -, ha⟩ := ha
  split at ha
  · next hnone => exact hknown hnone
  · cases ha

/-- The iterator yields the headers up to the first that does not fit or is not known. -/
theorem map_offset_find?_attrsFrom {record : List UInt8} {offset code : Nat} {typ : AttributeType}
    (hcode : AttributeType.ofCode code = some typ) (hend : (attrsFrom record offset).2 ≠ .panic) :
    ((attrsFrom record offset).1.find? (fun a ↦ decide (a.typ = typ))).map (·.offset) =
      (((headersFrom record offset).takeWhile
        (fun h ↦ decide (h.Fits record ∧ h.Known))).find? (fun h ↦ decide (h.code = code))).map
          (·.offset) := by
  induction offset using attrsFrom.induct record with
  | case1 offset a ha ih =>
    obtain ⟨hle, hmarker, hpos, hfit, htyp, hoff, hdata, -⟩ := nextAttr_eq_some ha
    have hlen : a.data.length = leAt record (offset + 4) 4 := by
      rw [hdata, length_slice _ _ _ hfit]
    rw [attrsFrom, ha] at hend ⊢
    have hat : headerAt record offset =
        some ⟨offset, leAt record offset 4, leAt record (offset + 4) 4⟩ := by
      rw [headerAt, if_neg (by omega)]
    have hgood : Header.Fits record ⟨offset, leAt record offset 4, leAt record (offset + 4) 4⟩ :=
      ⟨hpos, hfit⟩
    have hknown : Header.Known ⟨offset, leAt record offset 4, leAt record (offset + 4) 4⟩ := by
      intro hnone
      rw [htyp] at hnone
      cases hnone
    rw [headersFrom_cons hat, List.takeWhile_cons, if_pos (decide_eq_true ⟨hgood, hknown⟩),
      if_pos hgood, ← hlen]
    by_cases hsame : leAt record offset 4 = code
    · have htypSame : a.typ = typ := by
        rw [hsame, hcode] at htyp
        exact (Option.some.inj htyp).symm
      rw [List.find?_cons_of_pos (by simpa using htypSame),
        List.find?_cons_of_pos (by simpa using hsame)]
      exact congrArg some hoff
    · have htypOther : a.typ ≠ typ := by
        rintro rfl
        exact hsame (AttributeType.ofCode_inj htyp hcode)
      rw [List.find?_cons_of_neg (by simpa using htypOther),
        List.find?_cons_of_neg (by simpa using hsame)]
      exact ih hend
  | case2 offset ha =>
    rw [attrsFrom, ha]
    have hstop := headerAt_of_nextAttr_none ha
    cases hat : headerAt record offset with
    | none =>
      rw [headersFrom_nil hat]
      rfl
    | some h =>
      rw [headersFrom_cons hat, List.takeWhile_cons, if_neg (by simpa using hstop h hat)]
      rfl
  | case3 offset e ha => exact absurd ha nextAttr_ne_err
  | case4 offset ha =>
    rw [attrsFrom, ha] at hend
    exact absurd rfl hend

/-! ### The agreement -/

/-- The searches find the first attribute of a type that the iterator yields. -/
structure WalkersAgree (record : List UInt8) (code : Nat) (typ : AttributeType) : Prop where
  found : ∀ attrs ending, parseAttributes record = .ok (attrs, ending) → ∀ o,
    findAttributeOffset record code = .ok o ↔
      ∃ a, attrs.find? (fun a ↦ decide (a.typ = typ)) = some a ∧ a.offset = o
  data : findDataAttributeOffset record = findAttributeOffset record 0x80

/-- The first attribute of the code fits, and no header in front of it has a code that the iterator
does not know. -/
def FirstReached (record : List UInt8) (code : Nat) : Prop :=
  ∀ before h after, headersFrom record (leAt record 20 2) = before ++ h :: after → h.code = code →
    (∀ g ∈ before, g.code ≠ code) → h.Fits record ∧ ∀ g ∈ before, g.Known

/-- The iterator comes to the first header of a code that it knows. -/
theorem firstReached_iff {record : List UInt8} {code : Nat} {typ : AttributeType}
    (hcode : AttributeType.ofCode code = some typ) :
    FirstReached record code ↔
      ((headersFrom record (leAt record 20 2)).takeWhile
          (fun h ↦ decide (h.Fits record ∧ h.Known))).find? (fun h ↦ decide (h.code = code)) =
        (headersFrom record (leAt record 20 2)).find? (fun h ↦ decide (h.code = code)) := by
  rw [find?_takeWhile_eq_iff]
  unfold FirstReached
  constructor
  · intro h before a after hsplit ha hbefore
    obtain ⟨hfits, hknown⟩ := h before a after hsplit (of_decide_eq_true ha)
      fun g hg ↦ of_decide_eq_false (hbefore g hg)
    have hcodeKnown : a.Known := by
      rw [Header.Known, of_decide_eq_true ha, hcode]
      exact Option.some_ne_none _
    exact ⟨decide_eq_true ⟨hfits, hcodeKnown⟩,
      fun g hg ↦ decide_eq_true ⟨fits_of_split hsplit g hg, hknown g hg⟩⟩
  · intro h before a after hsplit ha hbefore
    obtain ⟨hgood, hall⟩ := h before a after hsplit (decide_eq_true ha)
      fun g hg ↦ decide_eq_false (hbefore g hg)
    exact ⟨(of_decide_eq_true hgood).1, fun g hg ↦ (of_decide_eq_true (hall g hg)).2⟩

/-- Two searches for an offset that agree on every offset agree. -/
private theorem map_eq_iff_forall {α β : Type} {f : α → Nat} {g : β → Nat} {x : Option α}
    {y : Option β} :
    (∀ o, y.map g = some o ↔ ∃ a, x = some a ∧ f a = o) ↔ x.map f = y.map g := by
  rw [Option.ext_iff]
  refine forall_congr' fun o ↦ ?_
  rw [Option.map_eq_some_iff (x := x)]
  exact Iff.comm

/-- The three walkers agree exactly when the iterator comes to the first attribute of the code. -/
theorem walkersAgree_iff {record : List UInt8} {code : Nat} {typ : AttributeType}
    (hlong : 22 ≤ record.length) (hcode : AttributeType.ofCode code = some typ)
    (hend : ∀ attrs ending, parseAttributes record = .ok (attrs, ending) → ending ≠ .panic) :
    WalkersAgree record code typ ↔ FirstReached record code := by
  have hparse : parseAttributes record = .ok (attrsFrom record (leAt record 20 2)) := by
    rw [parseAttributes, uintAt_of hlong]
    rfl
  have hdata : findDataAttributeOffset record = findAttributeOffset record 0x80 := by
    rw [findDataAttributeOffset, findAttributeOffset, uintAt_of hlong, Outcome.ok_bind,
      Outcome.ensure_of hlong, Outcome.ok_bind, findDataFrom_eq]
  have hsearch : findAttributeOffset record code = Outcome.ofOption .invalidAttribute
      (((headersFrom record (leAt record 20 2)).find? (fun h ↦ decide (h.code = code))).map
        (·.offset)) := by
    rw [findAttributeOffset, Outcome.ensure_of hlong, Outcome.ok_bind, findAttributeFrom_eq]
  have hyield := map_offset_find?_attrsFrom hcode (hend _ _ hparse)
  have hfound : WalkersAgree record code typ ↔
      ((attrsFrom record (leAt record 20 2)).1.find? (fun a ↦ decide (a.typ = typ))).map
        (·.offset) =
        ((headersFrom record (leAt record 20 2)).find? (fun h ↦ decide (h.code = code))).map
          (·.offset) := by
    rw [← map_eq_iff_forall]
    constructor
    · intro h o
      rw [← h.found _ _ hparse o, hsearch, Outcome.ofOption_eq_ok]
    · intro h
      refine ⟨?_, hdata⟩
      intro attrs ending hattrs o
      obtain ⟨rfl, rfl⟩ := Prod.mk.inj (Outcome.ok.inj (hparse.symm.trans hattrs))
      rw [← h o, hsearch, Outcome.ofOption_eq_ok]
  rw [hfound, hyield, firstReached_iff hcode]
  constructor
  · intro h
    -- What is found in the front is what is found in the whole chain.
    cases hfront : ((headersFrom record (leAt record 20 2)).takeWhile
        (fun h ↦ decide (h.Fits record ∧ h.Known))).find? (fun h ↦ decide (h.code = code)) with
    | some g => exact ((List.takeWhile_prefix _).find?_eq_some hfront).symm
    | none =>
      rw [hfront] at h
      exact (Option.map_eq_none_iff.mp h.symm).symm
  · intro h
    rw [h]

/-- A record of two attributes of sixteen bytes, the second one `$DATA`. -/
def twoAttributes (code : Nat) : List UInt8 :=
  List.replicate 20 0 ++ leBytes 4 24 ++ leBytes 4 code ++ leBytes 4 16 ++ List.replicate 8 0 ++
    leBytes 4 0x80 ++ leBytes 4 16 ++ List.replicate 8 0 ++ leBytes 4 0xFFFFFFFF ++
    List.replicate 4 0

theorem walkersAgree_known : WalkersAgree (twoAttributes 0x10) 0x80 .data := by
  have hend : ∀ attrs ending, parseAttributes (twoAttributes 0x10) = .ok (attrs, ending) →
      ending ≠ .panic := by
    intro attrs ending hattrs
    have hparse : (fun x : List Attr × Outcome NtfsError Unit ↦ x.2) <$>
        parseAttributes (twoAttributes 0x10) = .ok (.ok ()) := by decide +kernel
    rw [hattrs] at hparse
    obtain rfl : ending = .ok () := Outcome.ok.inj hparse
    nofun
  refine (walkersAgree_iff (by decide) rfl hend).mpr ((firstReached_iff rfl).mpr ?_)
  decide +kernel

/-- Behind an attribute of a type that the iterator does not know it yields nothing. -/
theorem walkersAgree_unknown : 22 ≤ (twoAttributes 0xF0).length ∧
    parseAttributes (twoAttributes 0xF0) = .ok ([], .ok ()) ∧
    ¬ WalkersAgree (twoAttributes 0xF0) 0x80 .data := by
  have hparse : parseAttributes (twoAttributes 0xF0) = .ok ([], .ok ()) := by decide +kernel
  refine ⟨by decide, hparse, ?_⟩
  intro h
  obtain ⟨a, ha, -⟩ := (h.found _ _ hparse 40).mp (by decide +kernel)
  cases ha

end SmallOs.Ntfs
