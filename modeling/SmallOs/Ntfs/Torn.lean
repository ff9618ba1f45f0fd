import SmallOs.Ntfs.Records

/-!
# Torn records

What `read_mft_record` of `lib/vfs/src/fs/ntfs/mod.rs` makes of any image of a record. The offset
and the count of the update sequence array come from the image itself: the array may be switched
off, it may name fewer sectors than the record has, and it may lie on the ends of the sectors.
-/

namespace SmallOs.Ntfs

open SmallOs.Base SmallOs.Hal

/-- The number that every sector ends in; the image may end in front of it. -/
def sequenceNumber (raw : List UInt8) : List UInt8 := slice raw (leAt raw 4 2) 2

/-- The word that the array keeps for sector `i`. -/
def savedWord (raw : List UInt8) (i : Nat) : List UInt8 := slice raw (leAt raw 4 2 + i * 2) 2

/-- The last two bytes of sector `i`, counted from one. -/
def lastWord (sectorSize : Nat) (b : List UInt8) (i : Nat) : List UInt8 :=
  slice b (i * sectorSize - 2) 2

/-- The array is not switched off. -/
structure ArrayActive (raw : List UInt8) : Prop where
  behind : 48 ≤ leAt raw 4 2
  number : leAt raw 4 2 + 2 ≤ raw.length
  counted : leAt raw 6 2 ≠ 0

instance (raw : List UInt8) : Decidable (ArrayActive raw) :=
  decidable_of_iff (48 ≤ leAt raw 4 2 ∧ leAt raw 4 2 + 2 ≤ raw.length ∧ leAt raw 6 2 ≠ 0)
    ⟨fun h ↦ ⟨h.1, h.2.1, h.2.2⟩, fun h ↦ ⟨h.behind, h.number, h.counted⟩⟩

/-- An array that lies in the image, and every sector that it names lies there too and ends in the
number. -/
structure ArrayMatches (sectorSize : Nat) (raw : List UInt8) : Prop where
  fits : leAt raw 4 2 + 2 * leAt raw 6 2 ≤ raw.length
  inside : ∀ i, 1 ≤ i → i < leAt raw 6 2 → i * sectorSize ≤ raw.length
  whole : ∀ i, 1 ≤ i → i < leAt raw 6 2 → lastWord sectorSize raw i = sequenceNumber raw

/-! ### The pass -/

/-- The ends of the first `n` sectors, one after the other, from words at `uso`. -/
def restoreWords (uso sectorSize : Nat) (raw : List UInt8) : Nat → List UInt8
  | 0 => raw
  | n + 1 =>
    let b := restoreWords uso sectorSize raw n
    splice b ((n + 1) * sectorSize - 2) (slice b (uso + (n + 1) * 2) 2)

section Pass

variable {uso s n : Nat} {raw : List UInt8}

theorem length_restoreWords (hs : 2 ≤ s) (hfit : uso + 2 * (n + 1) ≤ raw.length)
    (hin : ∀ i, 1 ≤ i → i ≤ n → i * s ≤ raw.length) :
    (restoreWords uso s raw n).length = raw.length := by
  induction n with
  | zero => rfl
  | succ n ih =>
    have hbefore := ih (by omega) fun i h₁ h₂ ↦ hin i h₁ (by omega)
    have hlast := hin (n + 1) (by omega) (by omega)
    have hge : s ≤ (n + 1) * s := Nat.le_mul_of_pos_left s (Nat.succ_pos n)
    have hword : (slice (restoreWords uso s raw n) (uso + (n + 1) * 2) 2).length = 2 :=
      length_slice _ _ _ (by omega)
    rw [restoreWords, length_splice _ _ _ (by omega), hbefore]

/-- Bytes that belong to none of the ends stay. -/
theorem getElem?_restoreWords (hs : 2 ≤ s) (hfit : uso + 2 * (n + 1) ≤ raw.length)
    (hin : ∀ i, 1 ≤ i → i ≤ n → i * s ≤ raw.length) {p : Nat}
    (hp : ∀ i, 1 ≤ i → i ≤ n → ¬ (i * s ≤ p + 2 ∧ p < i * s)) :
    (restoreWords uso s raw n)[p]? = raw[p]? := by
  induction n with
  | zero => rfl
  | succ n ih =>
    have hbefore : (restoreWords uso s raw n).length = raw.length :=
      length_restoreWords hs (by omega) fun i h₁ h₂ ↦ hin i h₁ (by omega)
    have hlast := hin (n + 1) (by omega) (by omega)
    have hge : s ≤ (n + 1) * s := Nat.le_mul_of_pos_left s (Nat.succ_pos n)
    have hout := hp (n + 1) (by omega) (by omega)
    have hword : (slice (restoreWords uso s raw n) (uso + (n + 1) * 2) 2).length = 2 :=
      length_slice _ _ _ (by omega)
    rw [restoreWords, getElem?_splice _ _ _ _ (by omega), if_neg (by omega)]
    exact ih (by omega) (fun i h₁ h₂ ↦ hin i h₁ (by omega)) fun i h₁ h₂ ↦ hp i h₁ (by omega)

private theorem sector_lt {i j : Nat} (h : i < j) : i * s + s ≤ j * s := by
  have hle := Nat.mul_le_mul_right s (Nat.succ_le_of_lt h)
  rwa [Nat.succ_mul] at hle

/-- An end that the pass has not come to is as it was. -/
theorem lastWord_restoreWords (hs : 2 ≤ s) (hfit : uso + 2 * (n + 1) ≤ raw.length)
    (hin : ∀ i, 1 ≤ i → i ≤ n → i * s ≤ raw.length) {i : Nat} (hi : n < i) :
    lastWord s (restoreWords uso s raw n) i = lastWord s raw i := by
  apply slice_congr
  intro p hp₁ hp₂
  apply getElem?_restoreWords hs hfit hin
  intro j hj₁ hj₂ hj
  have hlt := sector_lt (s := s) (show j < i by omega)
  omega

/-- An end that the pass has come to is the word that it found for it. -/
theorem lastWord_restoreWords_of_le (hs : 2 ≤ s) (hfit : uso + 2 * (n + 1) ≤ raw.length)
    (hin : ∀ i, 1 ≤ i → i ≤ n → i * s ≤ raw.length) {i : Nat} (hi : i < n) :
    lastWord s (restoreWords uso s raw n) (i + 1) =
      slice (restoreWords uso s raw i) (uso + (i + 1) * 2) 2 := by
  induction n with
  | zero => omega
  | succ n ih =>
    have hbefore : (restoreWords uso s raw n).length = raw.length :=
      length_restoreWords hs (by omega) fun i h₁ h₂ ↦ hin i h₁ (by omega)
    have hlast := hin (n + 1) (by omega) (by omega)
    have hge : s ≤ (n + 1) * s := Nat.le_mul_of_pos_left s (Nat.succ_pos n)
    have hword : (slice (restoreWords uso s raw n) (uso + (n + 1) * 2) 2).length = 2 :=
      length_slice _ _ _ (by omega)
    rw [restoreWords]
    by_cases hsame : i = n
    · subst hsame
      have hback := slice_splice_same (restoreWords uso s raw i) ((i + 1) * s - 2)
        (slice (restoreWords uso s raw i) (uso + (i + 1) * 2) 2) (by omega)
      rwa [hword] at hback
    · have hlt := sector_lt (s := s) (show i + 1 < n + 1 by omega)
      have hge' : s ≤ (i + 1) * s := Nat.le_mul_of_pos_left s (Nat.succ_pos i)
      rw [lastWord, slice_splice_disjoint _ _ _ _ _ (by omega) (.inl (by omega))]
      exact ih (by omega) (fun i h₁ h₂ ↦ hin i h₁ (by omega)) (by omega)

theorem applyFixup_eq {uso seq s i : Nat} {buf : List UInt8} (hs : 2 ≤ i * s) :
    applyFixup uso seq s buf i =
      if i * s ≤ buf.length ∧ leAt buf (i * s - 2) 2 = seq then
        .ok (splice buf (i * s - 2) (slice buf (uso + i * 2) 2))
      else .err .corruptedFilesystem := by
  rw [applyFixup, sectorEnd, Outcome.sub, Outcome.assert_of hs, Outcome.ok_bind]
  by_cases hin : i * s ≤ buf.length
  swap
  · rw [if_neg fun h ↦ hin h.1, Outcome.pure_eq_ok, Outcome.ok_bind, Outcome.ensure_not (by omega)]
    rfl
  rw [Outcome.pure_eq_ok, Outcome.ok_bind, Outcome.ensure_of (by omega), Outcome.ok_bind]
  by_cases hseq : leAt buf (i * s - 2) 2 = seq
  · rw [if_pos ⟨hin, hseq⟩, Outcome.ensure_of hseq]
    rfl
  · rw [if_neg fun h ↦ hseq h.2, Outcome.ensure_not hseq]
    rfl

/-- The pass restores the sectors as long as they end in the number. -/
theorem foldlM_applyFixup (seq : Nat) (hs : 2 ≤ s) (hfit : uso + 2 * (n + 1) ≤ raw.length) :
    (∀ i, 1 ≤ i → i ≤ n → i * s ≤ raw.length ∧ leAt raw (i * s - 2) 2 = seq) ∧
        (List.range' 1 n).foldlM (applyFixup uso seq s) raw = .ok (restoreWords uso s raw n) ∨
      (¬ ∀ i, 1 ≤ i → i ≤ n → i * s ≤ raw.length ∧ leAt raw (i * s - 2) 2 = seq) ∧
        (List.range' 1 n).foldlM (applyFixup uso seq s) raw = .err .corruptedFilesystem := by
  induction n with
  | zero => exact .inl ⟨fun i h₁ h₂ ↦ by omega, rfl⟩
  | succ n ih =>
    rw [List.range'_1_concat, List.foldlM_append, Nat.add_comm 1 n]
    rcases ih (by omega) with ⟨hall, hfold⟩ | ⟨hnot, hfold⟩
    · have hlen : (restoreWords uso s raw n).length = raw.length :=
        length_restoreWords hs (by omega) fun i h₁ h₂ ↦ (hall i h₁ h₂).1
      have hsame : lastWord s (restoreWords uso s raw n) (n + 1) = lastWord s raw (n + 1) :=
        lastWord_restoreWords hs (by omega) (fun i h₁ h₂ ↦ (hall i h₁ h₂).1) (Nat.lt_succ_self n)
      have hge : s ≤ (n + 1) * s := Nat.le_mul_of_pos_left s (Nat.succ_pos n)
      have hvalue : leAt (restoreWords uso s raw n) ((n + 1) * s - 2) 2 =
          leAt raw ((n + 1) * s - 2) 2 :=
        congrArg leNat hsame
      rw [hfold, Outcome.ok_bind, List.foldlM_cons, applyFixup_eq (by omega), hlen, hvalue]
      by_cases hlast : (n + 1) * s ≤ raw.length ∧ leAt raw ((n + 1) * s - 2) 2 = seq
      · left
        rw [if_pos hlast]
        refine ⟨?_, rfl⟩
        intro i h₁ h₂
        rcases Nat.lt_or_eq_of_le h₂ with hlt | rfl
        · exact hall i h₁ (by omega)
        · exact hlast
      · right
        rw [if_neg hlast]
        exact ⟨fun hevery ↦ hlast (hevery (n + 1) (by omega) (by omega)), rfl⟩
    · right
      rw [hfold]
      exact ⟨fun hall ↦ hnot fun i h₁ h₂ ↦ hall i h₁ (by omega), rfl⟩

end Pass

theorem word_eq_iff {b : List UInt8} {i j : Nat} (hi : i + 2 ≤ b.length) (hj : j + 2 ≤ b.length) :
    leAt b i 2 = leAt b j 2 ↔ slice b i 2 = slice b j 2 := by
  refine ⟨fun h ↦ ?_, congrArg leNat⟩
  rw [← leBytes_leAt hi, ← leBytes_leAt hj, h]

/-- An image whose array is switched off is returned as it is. -/
theorem applyFixups_inactive {s : Nat} {raw : List UInt8} (h8 : 8 ≤ raw.length)
    (h : ¬ ArrayActive raw) : applyFixups raw s = .ok raw := by
  rw [applyFixups, uintAt_of (by omega), Outcome.ok_bind, uintAt_of (by omega), Outcome.ok_bind]
  by_cases hplace : leAt raw 4 2 < 48 ∨ raw.length < leAt raw 4 2 + 2
  · rw [if_pos hplace]
    rfl
  · have hzero : leAt raw 6 2 = 0 := by
      by_contra hne
      exact h ⟨by omega, by omega, hne⟩
    rw [if_neg hplace, if_pos hzero]
    rfl

/-- An image whose array is worked on is refused or restored. -/
theorem applyFixups_active {s : Nat} {raw : List UInt8} (hs : 2 ≤ s) (h8 : 8 ≤ raw.length)
    (h : ArrayActive raw) :
    ArrayMatches s raw ∧
        applyFixups raw s = .ok (restoreWords (leAt raw 4 2) s raw (leAt raw 6 2 - 1)) ∨
      ¬ ArrayMatches s raw ∧ applyFixups raw s = .err .corruptedFilesystem := by
  obtain ⟨hbehind, hnumber, hcounted⟩ := h
  rw [applyFixups, uintAt_of (by omega), Outcome.ok_bind, uintAt_of (by omega), Outcome.ok_bind,
    if_neg (by omega), if_neg hcounted]
  by_cases hfit : leAt raw 4 2 + 2 * leAt raw 6 2 ≤ raw.length
  swap
  · right
    rw [Outcome.ensure_not hfit]
    exact ⟨fun hmatch ↦ hfit hmatch.fits, rfl⟩
  rw [Outcome.ensure_of hfit, Outcome.ok_bind]
  have hend : ∀ i, 1 ≤ i → i * s ≤ raw.length →
      (leAt raw (i * s - 2) 2 = leAt raw (leAt raw 4 2) 2 ↔
        lastWord s raw i = sequenceNumber raw) := by
    intro i hi hin
    have hge := Nat.le_mul_of_pos_left s hi
    exact word_eq_iff (by omega) hnumber
  rcases foldlM_applyFixup (leAt raw (leAt raw 4 2) 2) hs
    (show leAt raw 4 2 + 2 * (leAt raw 6 2 - 1 + 1) ≤ raw.length by omega)
    with ⟨hall, hfold⟩ | ⟨hnot, hfold⟩
  · refine .inl ⟨⟨hfit, fun i h₁ h₂ ↦ (hall i h₁ (by omega)).1, ?_⟩, hfold⟩
    intro i h₁ h₂
    obtain ⟨hin, hword⟩ := hall i h₁ (by omega)
    exact (hend i h₁ hin).mp hword
  · refine .inr ⟨?_, hfold⟩
    rintro ⟨-, hinside, hwhole⟩
    refine hnot fun i h₁ h₂ ↦ ?_
    have hin := hinside i h₁ (by omega)
    exact ⟨hin, (hend i h₁ hin).mpr (hwhole i h₁ (by omega))⟩

/-! ### Whole and restored sectors -/

/-- Every sector of the image ended in the number, and ends in its saved word now. -/
def Restored (sectorSize : Nat) (raw r : List UInt8) : Prop :=
  ∀ i, 1 ≤ i → i * sectorSize ≤ raw.length →
    lastWord sectorSize raw i = sequenceNumber raw ∧ lastWord sectorSize r i = savedWord raw i

/-- Where the word of a named sector lies on the end of an earlier one, the bytes saved for the
earlier sector are those of its end. -/
def OverlapsAgree (sectorSize : Nat) (raw : List UInt8) : Prop :=
  ∀ i < leAt raw 6 2, ∀ j, 1 ≤ j → j < i → ∀ p, j * sectorSize ≤ p + 2 → p < j * sectorSize →
    leAt raw 4 2 + i * 2 ≤ p → p < leAt raw 4 2 + i * 2 + 2 →
      raw[leAt raw 4 2 + j * 2 + (p + 2 - j * sectorSize)]? = raw[p]?

/-- A byte of the end of a sector is a byte of its last word. -/
private theorem getElem?_of_lastWord {s uso i p : Nat} {b raw : List UInt8} (hi : 2 ≤ i * s)
    (h : lastWord s b i = slice raw (uso + i * 2) 2) (hp₁ : i * s ≤ p + 2) (hp₂ : p < i * s) :
    b[p]? = raw[uso + i * 2 + (p + 2 - i * s)]? := by
  have hbyte := congrArg (·[p + 2 - i * s]?) h
  have hpos : i * s - 2 + (p + 2 - i * s) = p := by omega
  simp only [lastWord] at hbyte
  rwa [getElem?_slice, getElem?_slice, if_pos (by omega), if_pos (by omega), hpos] at hbyte

/-- The pass puts the saved words back exactly when the overlaps agree. -/
theorem lastWord_restoreWords_iff {s : Nat} {raw : List UInt8} (hs : 2 ≤ s)
    (hactive : ArrayActive raw) (h : ArrayMatches s raw) :
    (∀ i, 1 ≤ i → i < leAt raw 6 2 →
      lastWord s (restoreWords (leAt raw 4 2) s raw (leAt raw 6 2 - 1)) i = savedWord raw i) ↔
    OverlapsAgree s raw := by
  obtain ⟨hfit, hinside, -⟩ := h
  have hcounted := hactive.counted
  unfold OverlapsAgree savedWord
  generalize leAt raw 4 2 = uso at *
  obtain ⟨n, hn⟩ : ∃ n, leAt raw 6 2 = n + 1 := ⟨leAt raw 6 2 - 1, by omega⟩
  rw [hn] at hfit hinside ⊢
  rw [Nat.add_sub_cancel]
  have hin : ∀ m ≤ n, ∀ i, 1 ≤ i → i ≤ m → i * s ≤ raw.length :=
    fun m hm i h₁ h₂ ↦ hinside i h₁ (by omega)
  have hread : ∀ m ≤ n, ∀ i < m, lastWord s (restoreWords uso s raw m) (i + 1) =
      slice (restoreWords uso s raw i) (uso + (i + 1) * 2) 2 :=
    fun m hm i hi ↦ lastWord_restoreWords_of_le hs (by omega) (hin m hm) hi
  have htwo : ∀ i, 1 ≤ i → 2 ≤ i * s := fun i hi ↦ Nat.le_trans hs (Nat.le_mul_of_pos_left s hi)
  constructor
  · intro hback i hi j hj₁ hj₂ p hp₁ hp₂ hp₃ hp₄
    obtain ⟨i, rfl⟩ : ∃ i', i = i' + 1 := ⟨i - 1, by omega⟩
    obtain ⟨j, rfl⟩ : ∃ j', j = j' + 1 := ⟨j - 1, by omega⟩
    have hword := (hread n (Nat.le_refl n) i (by omega)).symm.trans (hback (i + 1) (by omega) hi)
    have hend : lastWord s (restoreWords uso s raw i) (j + 1) =
        slice raw (uso + (j + 1) * 2) 2 := by
      rw [hread i (by omega) j (by omega), ← hread n (Nat.le_refl n) j (by omega)]
      exact hback (j + 1) (by omega) (by omega)
    rw [← getElem?_of_lastWord (htwo _ (by omega)) hend hp₁ hp₂]
    exact getElem?_of_slice_eq hword hp₃ hp₄
  · intro hagree
    -- By strong induction: the words of the earlier sectors were found unchanged.
    have hfound : ∀ i < n, slice (restoreWords uso s raw i) (uso + (i + 1) * 2) 2 =
        slice raw (uso + (i + 1) * 2) 2 := by
      intro i
      induction i using Nat.strongRecOn with
      | ind i ih =>
        intro hi
        apply slice_congr
        intro p hp₁ hp₂
        by_cases hover : ∃ j, 1 ≤ j ∧ j ≤ i ∧ j * s ≤ p + 2 ∧ p < j * s
        · obtain ⟨j, hj₁, hj₂, hp₃, hp₄⟩ := hover
          obtain ⟨j, rfl⟩ : ∃ j', j = j' + 1 := ⟨j - 1, by omega⟩
          have hend := (hread i (by omega) j (by omega)).trans (ih j (by omega) (by omega))
          rw [getElem?_of_lastWord (htwo _ hj₁) hend hp₃ hp₄]
          exact hagree (i + 1) (by omega) (j + 1) hj₁ (by omega) p hp₃ hp₄ hp₁ hp₂
        · exact getElem?_restoreWords hs (by omega) (hin i (by omega))
            fun j hj₁ hj₂ hp ↦ hover ⟨j, hj₁, hj₂, hp⟩
    intro i hi₁ hi₂
    obtain ⟨i, rfl⟩ : ∃ i', i = i' + 1 := ⟨i - 1, by omega⟩
    exact (hread n (Nat.le_refl n) i (by omega)).trans (hfound i (by omega))

/-- The image is refused: it is no record, or its array does not match it. -/
def ImageRefused (sectorSize : Nat) (raw : List UInt8) : Prop :=
  slice raw 0 4 ≠ fileSignature ∨ ArrayActive raw ∧ ¬ ArrayMatches sectorSize raw

/-- Every sector of the image ends in the number; where the array does not reach, so does the place
of the saved word; and where it does, its words do not spoil one another. -/
structure ImageGuarded (sectorSize : Nat) (raw : List UInt8) : Prop where
  whole : ∀ i, 1 ≤ i → i * sectorSize ≤ raw.length → lastWord sectorSize raw i = sequenceNumber raw
  beyond : ∀ i, 1 ≤ i → i * sectorSize ≤ raw.length → ¬ (ArrayActive raw ∧ i < leAt raw 6 2) →
    savedWord raw i = sequenceNumber raw
  overlaps : ArrayActive raw → OverlapsAgree sectorSize raw

/-- An image whose array is switched off passes as it is. -/
private theorem restored_self_iff {s : Nat} {raw : List UInt8} (h : ¬ ArrayActive raw) :
    Restored s raw raw ↔ ImageGuarded s raw := by
  constructor
  · intro hrestored
    refine ⟨fun i hi hin ↦ (hrestored i hi hin).1, ?_, fun hactive ↦ absurd hactive h⟩
    intro i hi hin _
    obtain ⟨hwhole, hsaved⟩ := hrestored i hi hin
    exact hsaved.symm.trans hwhole
  · rintro ⟨hwhole, hbeyond, -⟩ i hi hin
    have hend := hwhole i hi hin
    exact ⟨hend, hend.trans (hbeyond i hi hin fun hcovered ↦ h hcovered.1).symm⟩

/-- What the pass makes of a matching array. -/
private theorem restored_pass_iff {s : Nat} {raw : List UInt8} (hs : 2 ≤ s)
    (hactive : ArrayActive raw) (h : ArrayMatches s raw) :
    Restored s raw (restoreWords (leAt raw 4 2) s raw (leAt raw 6 2 - 1)) ↔ ImageGuarded s raw := by
  have hoverlaps := lastWord_restoreWords_iff hs hactive h
  have hcounted := hactive.counted
  obtain ⟨hfit, hinside, hmatch⟩ := h
  have hbehind : ∀ i, leAt raw 6 2 ≤ i →
      lastWord s (restoreWords (leAt raw 4 2) s raw (leAt raw 6 2 - 1)) i = lastWord s raw i :=
    fun i hi ↦ lastWord_restoreWords hs (by omega) (fun j h₁ h₂ ↦ hinside j h₁ (by omega))
      (by omega)
  constructor
  · intro hrestored
    refine ⟨fun i hi hin ↦ (hrestored i hi hin).1, ?_, fun _ ↦ hoverlaps.mp ?_⟩
    · intro i hi hin hout
      obtain ⟨hwhole, hsaved⟩ := hrestored i hi hin
      have hlast := hbehind i (Nat.le_of_not_lt fun hlt ↦ hout ⟨hactive, hlt⟩)
      exact hsaved.symm.trans (hlast.trans hwhole)
    · exact fun i h₁ h₂ ↦ (hrestored i h₁ (hinside i h₁ h₂)).2
  · rintro ⟨hwhole, hbeyond, hagree⟩ i hi hin
    have hend := hwhole i hi hin
    refine ⟨hend, ?_⟩
    by_cases hlt : i < leAt raw 6 2
    · exact hoverlaps.mpr (hagree hactive) i hi hlt
    · rw [hbehind i (Nat.le_of_not_lt hlt), hend]
      exact (hbeyond i hi hin fun hcovered ↦ hlt hcovered.2).symm

/-- The checks of the reader never panic, and what they pass has been restored, exactly when the
image is refused or guarded. -/
theorem openRecord_restored_iff {driver : NtfsDriver} {raw : List UInt8}
    (hs : 2 ≤ driver.sectorSize)
    (h8 : 8 ≤ raw.length) :
    (openRecord driver raw ≠ .panic ∧
        ∀ r, openRecord driver raw = .ok r → Restored driver.sectorSize raw r) ↔
      ImageRefused driver.sectorSize raw ∨ ImageGuarded driver.sectorSize raw := by
  by_cases hfile : slice raw 0 4 = fileSignature
  swap
  · have hopen : openRecord driver raw = .err .invalidMftRecord := by
      rw [openRecord, sliceAt_of (by omega), Outcome.ok_bind, Outcome.ensure_not hfile]
      rfl
    rw [hopen]
    exact iff_of_true Outcome.err_safe (.inl (.inl hfile))
  have hopen : openRecord driver raw = applyFixups raw driver.sectorSize := by
    rw [openRecord, sliceAt_of (by omega), Outcome.ok_bind, Outcome.ensure_of hfile,
      Outcome.ok_bind]
  rw [hopen]
  by_cases hactive : ArrayActive raw
  swap
  · have hrefused : ¬ ImageRefused driver.sectorSize raw := by
      rintro (hother | ⟨hon, -⟩)
      · exact hother hfile
      · exact hactive hon
    rw [applyFixups_inactive h8 hactive, or_iff_right hrefused, ← restored_self_iff hactive]
    exact Outcome.ok_safe_iff
  rcases applyFixups_active hs h8 hactive with ⟨hmatch, happly⟩ | ⟨hnot, happly⟩
  · have hrefused : ¬ ImageRefused driver.sectorSize raw := by
      rintro (hother | ⟨-, hnot⟩)
      · exact hother hfile
      · exact hnot hmatch
    rw [happly, or_iff_right hrefused, ← restored_pass_iff hs hactive hmatch]
    exact Outcome.ok_safe_iff
  · rw [happly]
    exact iff_of_true Outcome.err_safe (.inl (.inr ⟨hactive, hnot⟩))

/-! ### On a device -/

section Device

variable {D : Type} [BlockDevice D]

/-- The device gives `raw` for the record. -/
structure RecordImage (driver : NtfsDriver) (n : Nat) (d : D) (raw : List UInt8) : Prop where
  read : ∃ offset d', driver.recordOffset n = .ok offset ∧
    readBlocks offset driver.mftRecordSize d = (.ok raw, d')
  long : raw.length = driver.mftRecordSize

/-- A record is made of sectors of at least 512 bytes. -/
structure WholeSectors (driver : NtfsDriver) : Prop where
  sector : 512 ≤ driver.sectorSize
  divides : driver.sectorSize ∣ driver.mftRecordSize
  record : 0 < driver.mftRecordSize

/-- The record is given out restored, or refused with an error. -/
structure TornRejected (driver : NtfsDriver) (n : Nat) (d : D) (raw : List UInt8) : Prop where
  returns : (readMftRecord driver n d).1 ≠ .panic
  restored : ∀ r, (readMftRecord driver n d).1 = .ok r → Restored driver.sectorSize raw r

theorem readMftRecord_fst {driver : NtfsDriver} {n : Nat} {d : D} {raw : List UInt8}
    (h : RecordImage driver n d raw) : (readMftRecord driver n d).1 = openRecord driver raw := by
  obtain ⟨offset, d', hoffset, hread⟩ := h.read
  rw [readMftRecord, hoffset, Prog.bind_of_ok (Prog.lift_apply _ _), Prog.bind_of_ok hread,
    Prog.lift_apply]

/-- The reader gives out no torn record exactly when the image is refused or guarded. -/
theorem tornRejected_iff {driver : NtfsDriver} {n : Nat} {d : D} {raw : List UInt8}
    (himage : RecordImage driver n d raw) (hsectors : WholeSectors driver) :
    TornRejected driver n d raw ↔
      ImageRefused driver.sectorSize raw ∨ ImageGuarded driver.sectorSize raw := by
  obtain ⟨hsector, hdvd, hpos⟩ := hsectors
  have hle := Nat.le_of_dvd hpos hdvd
  have hlong := himage.long
  rw [← openRecord_restored_iff (by omega) (by omega), ← readMftRecord_fst himage]
  exact ⟨fun h ↦ ⟨h.returns, h.restored⟩, fun h ↦ ⟨h.1, h.2⟩⟩

end Device

/-- A record of two sectors that end in another word than the number of its array. -/
def tornRecord (usc : Nat) : List UInt8 :=
  fileSignature ++ leBytes 2 48 ++ leBytes 2 usc ++ List.replicate 40 0 ++ [7, 0] ++
    List.replicate 460 0 ++ [1, 1] ++ List.replicate 510 0 ++ [1, 1]

theorem length_tornRecord (usc : Nat) : (tornRecord usc).length = 1024 := by
  simp only [tornRecord, fileSignature, List.length_append, length_leBytes, List.length_replicate]
  rfl

/-- A device that holds this record alone. -/
def tornVolume (usc : Nat) : ByteStore where
  bytes := tornRecord usc
  blockSize := 512
  blockCount := 2
  length_bytes := length_tornRecord usc

/-- The driver of this device. -/
def tornDriver : NtfsDriver := { boot := smallBoot, mftRecordSize := 1024 }

theorem wholeSectors_tornDriver : WholeSectors tornDriver :=
  ⟨by decide, by decide, by decide⟩

theorem recordImage_tornVolume (usc : Nat) :
    RecordImage tornDriver 0 (tornVolume usc) (tornRecord usc) := by
  have hread : (tornVolume usc).read 0 1024 = some (tornRecord usc) := by
    refine ByteStore.read_eq_some.mpr ⟨?_, slice_all _ _ (length_tornRecord usc).symm⟩
    exact Nat.le_of_eq (length_tornRecord usc).symm
  refine ⟨⟨0, tornVolume usc, rfl, ?_⟩, length_tornRecord usc⟩
  rw [readBlocks_byteStore, tornDriver, hread]
  rfl

theorem tornRejected_three : TornRejected tornDriver 0 (tornVolume 3) (tornRecord 3) := by
  apply (tornRejected_iff (recordImage_tornVolume 3) wholeSectors_tornDriver).mpr
  refine .inl (.inr ⟨?_, ?_⟩)
  · decide +kernel
  · intro hmatch
    exact absurd (hmatch.whole 1 (by decide) (by decide)) (by decide +kernel)

/-- With a count of one the reader looks at no sector. -/
theorem tornRejected_one : RecordImage tornDriver 0 (tornVolume 1) (tornRecord 1) ∧
    WholeSectors tornDriver ∧ ¬ TornRejected tornDriver 0 (tornVolume 1) (tornRecord 1) := by
  refine ⟨recordImage_tornVolume 1, wholeSectors_tornDriver, ?_⟩
  intro h
  have hopen : openRecord tornDriver (tornRecord 1) = .ok (tornRecord 1) := by decide +kernel
  have hrestored := h.restored _ ((readMftRecord_fst (recordImage_tornVolume 1)).trans hopen)
  obtain ⟨hwhole, -⟩ := hrestored 1 (by decide) (by decide +kernel)
  exact absurd hwhole (by decide +kernel)

end SmallOs.Ntfs
