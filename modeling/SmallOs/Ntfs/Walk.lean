import SmallOs.Ntfs.Slots

/-!
# Walks over a changed record

The attribute iterator reads the headers of the attributes only, so a record whose changes
stay inside attribute bodies is walked as before. The other walkers, which look for a type
code, stop at the attribute that the iterator yields first.
-/

namespace SmallOs.Ntfs

open SmallOs.Base

/-! ### The iterator on a changed record -/

/-- The attribute as it stands in another record of the same layout. -/
def Attr.reread (record : List UInt8) (a : Attr) : Attr :=
  { a with data := slice record a.offset a.data.length }

/-- The byte lies in the body of an attribute, behind the 24 bytes of its header. -/
def InBody (attrs : List Attr) (p : Nat) : Prop :=
  ∃ a ∈ attrs, a.offset + 24 ≤ p ∧ p < a.offset + a.data.length

/-- One step of the iterator depends on nine bytes, and on the window that it yields. -/
theorem nextAttr_congr {r r' : List UInt8} {off : Nat} (hl : r'.length = r.length)
    (h : ∀ p, off ≤ p → p < off + 9 → r'[p]? = r[p]?) :
    nextAttr r' off = Option.map (Attr.reread r') <$> nextAttr r off := by
  have hcode : leAt r' off 4 = leAt r off 4 := leAt_congr fun p h₁ h₂ ↦ h p h₁ (by omega)
  have hlen : leAt r' (off + 4) 4 = leAt r (off + 4) 4 :=
    leAt_congr fun p h₁ h₂ ↦ h p (by omega) (by omega)
  have hflag : leAt r' (off + 8) 1 = leAt r (off + 8) 1 :=
    leAt_congr fun p h₁ h₂ ↦ h p (by omega) (by omega)
  unfold nextAttr
  rw [hl, hcode, hlen]
  by_cases h₁ : r.length < off + 8
  · rw [if_pos h₁, if_pos h₁]
    rfl
  rw [if_neg h₁, if_neg h₁]
  by_cases h₂ : leAt r off 4 = 0xFFFFFFFF
  · rw [if_pos h₂, if_pos h₂]
    rfl
  rw [if_neg h₂, if_neg h₂]
  by_cases h₃ : leAt r (off + 4) 4 = 0 ∨ r.length < off + leAt r (off + 4) 4
  · rw [if_pos h₃, if_pos h₃]
    rfl
  rw [if_neg h₃, if_neg h₃]
  by_cases h₄ : off + 8 + 1 ≤ r.length
  · rw [uintAt_of (by omega), uintAt_of h₄, hflag, Outcome.ok_bind, Outcome.ok_bind]
    cases AttributeType.ofCode (leAt r off 4) with
    | none => rfl
    | some typ =>
      change Outcome.ok (some _) = Outcome.ok (some (Attr.reread r' _))
      rw [Attr.reread, length_slice r off _ (by omega)]
  · have hpanic : ∀ b : List UInt8, b.length = r.length →
        (uintAt b (off + 8) 1 : Outcome NtfsError Nat) = .panic := by
      intro b hb
      rw [uintAt, Outcome.assert_not (by omega)]
      rfl
    rw [hpanic r' hl, hpanic r rfl]
    rfl

/-- The iterator yields attributes in order, inside the record. -/
theorem attrsFrom_mem {r : List UInt8} {off : Nat} {a : Attr} (h : a ∈ (attrsFrom r off).1) :
    off ≤ a.offset ∧ a.offset + a.data.length ≤ r.length ∧
      nextAttr r a.offset = .ok (some a) := by
  induction off using attrsFrom.induct r with
  | case1 off b hb ih =>
    obtain ⟨-, -, -, -, -, hoff, -, -⟩ := nextAttr_eq_some hb
    obtain ⟨-, hle⟩ := nextAttr_length hb
    rw [attrsFrom, hb] at h
    rcases List.mem_cons.mp h with rfl | h
    · rw [hoff]
      exact ⟨Nat.le_refl _, hle, hb⟩
    · obtain ⟨h₁, h₂, h₃⟩ := ih h
      exact ⟨by omega, h₂, h₃⟩
  | case2 off hb =>
    rw [attrsFrom, hb] at h
    cases h
  | case3 off e hb =>
    rw [attrsFrom, hb] at h
    cases h
  | case4 off hb =>
    rw [attrsFrom, hb] at h
    cases h

/-- Changes inside the bodies leave the walk as it was. -/
theorem attrsFrom_congr {r r' : List UInt8} {off : Nat} (hl : r'.length = r.length)
    (h : ∀ p, off ≤ p → ¬ InBody (attrsFrom r off).1 p → r'[p]? = r[p]?) :
    attrsFrom r' off = ((attrsFrom r off).1.map (Attr.reread r'), (attrsFrom r off).2) := by
  -- Where the iterator stops there is no body to stay out of.
  have stop : ∀ {off : Nat} {x : Outcome NtfsError (Option Attr)}, nextAttr r off = x →
      (∀ p, off ≤ p → ¬ InBody [] p → r'[p]? = r[p]?) →
      nextAttr r' off = Option.map (Attr.reread r') <$> x := by
    intro off x hx h
    rw [← hx]
    apply nextAttr_congr hl
    intro p h₁ _
    exact h p h₁ (by rintro ⟨a, ha, -⟩; cases ha)
  induction off using attrsFrom.induct r with
  | case1 off a ha ih =>
    obtain ⟨hpos, hle⟩ := nextAttr_length ha
    obtain ⟨-, -, -, -, -, hoff, -, -⟩ := nextAttr_eq_some ha
    have hr : attrsFrom r off = (a :: (attrsFrom r (off + a.data.length)).1,
        (attrsFrom r (off + a.data.length)).2) := by
      rw [attrsFrom, ha]
    rw [hr] at h ⊢
    have hnext : nextAttr r' off = .ok (some (a.reread r')) := by
      rw [nextAttr_congr hl, ha]
      · rfl
      intro p h₁ h₂
      apply h p h₁
      rintro ⟨b, hb, hb₁, -⟩
      rcases List.mem_cons.mp hb with rfl | hb
      · omega
      · obtain ⟨hb₂, -⟩ := attrsFrom_mem hb
        omega
    have hlen : (a.reread r').data.length = a.data.length := by
      rw [Attr.reread, length_slice _ _ _ (by omega)]
    rw [attrsFrom, hnext]
    simp only [hlen]
    rw [ih]
    · rfl
    intro p h₁ h₂
    apply h p (by omega)
    rintro ⟨b, hb, hb₁, hb₂⟩
    rcases List.mem_cons.mp hb with rfl | hb
    · omega
    · exact h₂ ⟨b, hb, hb₁, hb₂⟩
  | case2 off hx =>
    have hr : attrsFrom r off = ([], .ok ()) := by rw [attrsFrom, hx]
    rw [hr] at h ⊢
    rw [attrsFrom, stop hx h]
    rfl
  | case3 off e hx =>
    have hr : attrsFrom r off = ([], .err e) := by rw [attrsFrom, hx]
    rw [hr] at h ⊢
    rw [attrsFrom, stop hx h]
    rfl
  | case4 off hx =>
    have hr : attrsFrom r off = ([], .panic) := by rw [attrsFrom, hx]
    rw [hr] at h ⊢
    rw [attrsFrom, stop hx h]
    rfl

/-- The attributes lie one behind the other. -/
theorem attrsFrom_pairwise (r : List UInt8) (off : Nat) :
    (attrsFrom r off).1.Pairwise fun a b ↦ a.offset + a.data.length ≤ b.offset := by
  induction off using attrsFrom.induct r with
  | case1 off a ha ih =>
    obtain ⟨-, -, -, -, -, hoff, -, -⟩ := nextAttr_eq_some ha
    rw [attrsFrom, ha]
    apply List.Pairwise.cons _ ih
    intro b hb
    rw [hoff]
    exact (attrsFrom_mem hb).1
  | case2 off ha =>
    rw [attrsFrom, ha]
    exact .nil
  | case3 off e ha =>
    rw [attrsFrom, ha]
    exact .nil
  | case4 off ha =>
    rw [attrsFrom, ha]
    exact .nil

/-- An attribute that shows the same bytes in another record is the same there. -/
theorem reread_of_mem {r r' : List UInt8} {off : Nat} {a : Attr} (ha : a ∈ (attrsFrom r off).1)
    (h : ∀ p, a.offset ≤ p → p < a.offset + a.data.length → r'[p]? = r[p]?) :
    a.reread r' = a := by
  obtain ⟨-, -, hnext⟩ := attrsFrom_mem ha
  obtain ⟨-, -, -, hfit, -, -, hdata, -⟩ := nextAttr_eq_some hnext
  have hlen : a.data.length = leAt r (a.offset + 4) 4 := by
    rw [hdata, length_slice _ _ _ hfit]
  have hsame : slice r' a.offset a.data.length = a.data := by
    rw [slice_congr h, hlen, ← hdata]
  rw [Attr.reread, hsame]

/-- The bytes of an attribute are those of its record. -/
theorem getElem?_attr {r : List UInt8} {off : Nat} {a : Attr} (ha : a ∈ (attrsFrom r off).1)
    {k : Nat} (hk : k < a.data.length) : a.data[k]? = r[a.offset + k]? := by
  have hself := reread_of_mem ha fun p _ _ ↦ rfl
  rw [← hself, Attr.reread, getElem?_slice, if_pos hk]

theorem leAt_attr {r : List UInt8} {off : Nat} {a : Attr} (ha : a ∈ (attrsFrom r off).1) {k n : Nat}
    (hk : k + n ≤ a.data.length) : leAt r (a.offset + k) n = leAt a.data k n := by
  have hself := reread_of_mem ha fun p _ _ ↦ rfl
  rw [← hself, Attr.reread, leAt, leAt, slice_slice _ _ _ _ _ hk]

/-- A change inside the body of one attribute changes that attribute alone. -/
theorem attrsFrom_write {r r' : List UInt8} {off lo hi : Nat} {a : Attr} {l₁ l₂ : List Attr}
    (hl : r'.length = r.length) (hsplit : (attrsFrom r off).1 = l₁ ++ a :: l₂)
    (hlo : a.offset + 24 ≤ lo) (hhi : hi ≤ a.offset + a.data.length)
    (h : ∀ p, off ≤ p → ¬ (lo ≤ p ∧ p < hi) → r'[p]? = r[p]?) :
    attrsFrom r' off = (l₁ ++ a.reread r' :: l₂, (attrsFrom r off).2) := by
  have hmem : ∀ {b : Attr}, b ∈ l₁ ++ a :: l₂ → b ∈ (attrsFrom r off).1 := fun hb ↦ hsplit ▸ hb
  have hpair := attrsFrom_pairwise r off
  rw [hsplit, List.pairwise_append, List.pairwise_cons] at hpair
  obtain ⟨-, ⟨hbehind, -⟩, hfront⟩ := hpair
  have hkept : ∀ b ∈ l₁ ++ a :: l₂, b.offset + b.data.length ≤ a.offset ∨
      a.offset + a.data.length ≤ b.offset → b.reread r' = b := by
    intro b hb hapart
    obtain ⟨hoff, -, -⟩ := attrsFrom_mem (hmem hb)
    apply reread_of_mem (hmem hb)
    intro p h₁ h₂
    exact h p (by omega) (by omega)
  have hmap₁ : l₁.map (Attr.reread r') = l₁.map id := by
    apply List.map_congr_left
    intro b hb
    exact hkept b (List.mem_append_left _ hb) (.inl (hfront b hb a List.mem_cons_self))
  have hmap₂ : l₂.map (Attr.reread r') = l₂.map id := by
    apply List.map_congr_left
    intro b hb
    exact hkept b (List.mem_append_right _ (List.mem_cons_of_mem _ hb)) (.inr (hbehind b hb))
  rw [attrsFrom_congr hl, hsplit, List.map_append, List.map_cons, hmap₁, hmap₂, List.map_id,
    List.map_id]
  · intro p hp hbody
    apply h p hp
    intro hin
    exact hbody ⟨a, hmem (List.mem_append_right _ List.mem_cons_self), by omega, by omega⟩

/-! ### The walkers by type code -/

/-- The code of a type. -/
theorem AttributeType.ofCode_inj {c c' : Nat} {typ : AttributeType}
    (h : AttributeType.ofCode c = some typ) (h' : AttributeType.ofCode c' = some typ) : c = c' := by
  unfold AttributeType.ofCode at h h'
  split at h <;> cases h <;> split at h' <;> first | rfl | cases h'

/-- The walker for `$DATA` stops at the first such attribute of the iterator. -/
theorem findDataFrom_of_find {r : List UInt8} {off : Nat} {a : Attr}
    (h : (attrsFrom r off).1.find? (fun a ↦ decide (a.typ = .data)) = some a) :
    findDataFrom r off = .ok a.offset := by
  induction off using attrsFrom.induct r with
  | case1 off b hb ih =>
    obtain ⟨hle, hend, hpos, hfit, htyp, hoff, hdata, -⟩ := nextAttr_eq_some hb
    rw [attrsFrom, hb] at h
    rw [findDataFrom, dif_pos (by omega), if_neg hend]
    by_cases hd : b.typ = .data
    · rw [List.find?_cons_of_pos (by simpa using hd)] at h
      cases h
      rw [hd] at htyp
      rw [if_pos (AttributeType.ofCode_inj htyp rfl), hoff]
    · rw [List.find?_cons_of_neg (by simpa using hd)] at h
      have hcode : leAt r off 4 ≠ 0x80 := by
        intro hc
        rw [hc] at htyp
        exact hd (Option.some.inj htyp).symm
      have hlen : b.data.length = leAt r (off + 4) 4 := by
        rw [hdata, length_slice _ _ _ (by omega)]
      rw [if_neg hcode, dif_neg (by omega), ← hlen]
      exact ih h
  | case2 off hb =>
    rw [attrsFrom, hb] at h
    cases h
  | case3 off e hb =>
    rw [attrsFrom, hb] at h
    cases h
  | case4 off hb =>
    rw [attrsFrom, hb] at h
    cases h

/-- The walker by type code stops at the first attribute of that type that the iterator yields. -/
theorem findAttributeFrom_of_find {r : List UInt8} {off code : Nat} {typ : AttributeType} {a : Attr}
    (hcode : AttributeType.ofCode code = some typ)
    (h : (attrsFrom r off).1.find? (fun a ↦ decide (a.typ = typ)) = some a) :
    findAttributeFrom r code off = .ok a.offset := by
  induction off using attrsFrom.induct r with
  | case1 off b hb ih =>
    obtain ⟨hle, hend, hpos, hfit, htyp, hoff, hdata, -⟩ := nextAttr_eq_some hb
    rw [attrsFrom, hb] at h
    rw [findAttributeFrom, dif_pos (by omega), if_neg hend]
    by_cases hd : b.typ = typ
    · rw [List.find?_cons_of_pos (by simpa using hd)] at h
      cases h
      rw [hd] at htyp
      rw [if_pos (AttributeType.ofCode_inj htyp hcode), hoff]
    · rw [List.find?_cons_of_neg (by simpa using hd)] at h
      have hother : leAt r off 4 ≠ code := by
        intro hc
        rw [hc, hcode] at htyp
        exact hd (Option.some.inj htyp).symm
      have hlen : b.data.length = leAt r (off + 4) 4 := by
        rw [hdata, length_slice _ _ _ (by omega)]
      rw [if_neg hother, dif_neg (by omega), ← hlen]
      exact ih h
  | case2 off hb =>
    rw [attrsFrom, hb] at h
    cases h
  | case3 off e hb =>
    rw [attrsFrom, hb] at h
    cases h
  | case4 off hb =>
    rw [attrsFrom, hb] at h
    cases h

/-! ### A record written back -/

/-- The byte belongs to a saved word of the record's active array. -/
def Saved (record : List UInt8) (p : Nat) : Prop :=
  48 ≤ leAt record 4 2 ∧ InArray (leAt record 4 2) (leAt record 6 2) p

/-- A record that is changed behind its header, marked and opened again shows the changed
bytes, its saved words apart. -/
theorem openRecord_reapplyFixups {driver : NtfsDriver} {record changed marked : List UInt8}
    (hs : HasSignature record) (hc : ArrayClear record driver.sectorSize)
    (hl : changed.length = record.length) (hlow : ∀ p, p < 24 → changed[p]? = record[p]?)
    (hm : reapplyFixups changed driver.sectorSize = .ok marked) :
    ∃ r, openRecord driver marked = .ok r ∧ r.length = record.length ∧
      ∀ p, ¬ Saved record p → r[p]? = changed[p]? := by
  have huso : leAt changed 4 2 = leAt record 4 2 := leAt_congr fun p _ hp ↦ hlow p (by omega)
  have husc : leAt changed 6 2 = leAt record 6 2 := leAt_congr fun p _ hp ↦ hlow p (by omega)
  have hc' : ArrayClear changed driver.sectorSize := by
    unfold ArrayClear at *
    rwa [huso, husc]
  obtain ⟨hlong, -⟩ := reapplyFixups_cases hm
  obtain ⟨hlen, hkeep⟩ := reapplyFixups_untouched hm
  obtain ⟨r, hopen, hrl, hr⟩ := applyFixups_reapplyFixups hm hc'
  refine ⟨r, ?_, by omega, ?_⟩
  · apply openRecord_eq_ok.mpr
    refine ⟨by omega, ?_, hopen⟩
    apply HasSignature.congr hs
    intro p hp
    rw [← hlow p (by omega)]
    apply hkeep
    intro hactive
    constructor
    · rintro ⟨hin, -⟩
      omega
    · rintro ⟨i, hi, hlt, hin, -⟩
      have hclear := hc' hactive (by omega)
      have hle := Nat.le_mul_of_pos_left driver.sectorSize hi
      omega
  · intro p hp
    apply hr
    intro hactive hin
    rw [huso] at hactive hin
    rw [husc] at hin
    exact hp ⟨hactive, hin⟩

end SmallOs.Ntfs
