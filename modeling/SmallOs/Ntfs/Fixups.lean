import SmallOs.Ntfs.Types

/-!
# Fixups

`lib/vfs/src/fs/ntfs/attr.rs`: the update sequence array keeps the last two bytes of each
sector while the sector's end carries the sequence number.
-/

namespace SmallOs.Ntfs

open SmallOs.Base

/-- Offset of the last two bytes of sector `i`, counted from one; a sector size below two
bytes underflows. -/
def sectorEnd (sectorSize i : Nat) : Outcome NtfsError Nat := Outcome.sub (i * sectorSize) 2

/-- Put the stored bytes of sector `i` back; `lib/vfs/src/fs/ntfs/attr.rs:283–298`. -/
def applyFixup (uso seqNumber sectorSize : Nat) (buf : List UInt8) (i : Nat) :
    Outcome NtfsError (List UInt8) := do
  let fin ← sectorEnd sectorSize i
  Outcome.ensure (fin + 2 ≤ buf.length) .corruptedFilesystem
  Outcome.ensure (leAt buf fin 2 = seqNumber) .corruptedFilesystem
  return splice buf fin (slice buf (uso + i * 2) 2)

/-- `lib/vfs/src/fs/ntfs/attr.rs:263–302`. -/
def applyFixups (buf : List UInt8) (sectorSize : Nat) : Outcome NtfsError (List UInt8) := do
  let uso ← uintAt buf 4 2
  let usc ← uintAt buf 6 2
  if uso < 48 ∨ buf.length < uso + 2 then return buf
  if usc = 0 then return buf
  Outcome.ensure (uso + 2 * usc ≤ buf.length) .corruptedFilesystem
  (List.range' 1 (usc - 1)).foldlM (applyFixup uso (leAt buf uso 2) sectorSize) buf

/-- Save the last two bytes of sector `i` and mark the sector;
`lib/vfs/src/fs/ntfs/attr.rs:326–333`. -/
def reapplyFixup (uso : Nat) (seqNumber : List UInt8) (sectorSize : Nat) (buf : List UInt8)
    (i : Nat) : Outcome NtfsError (List UInt8) := do
  let fin ← sectorEnd sectorSize i
  Outcome.ensure (fin + 2 ≤ buf.length) .corruptedFilesystem
  return splice (splice buf (uso + i * 2) (slice buf fin 2)) fin seqNumber

/-- `lib/vfs/src/fs/ntfs/attr.rs:311–337`. -/
def reapplyFixups (buf : List UInt8) (sectorSize : Nat) : Outcome NtfsError (List UInt8) := do
  let uso ← uintAt buf 4 2
  let usc ← uintAt buf 6 2
  if uso < 48 ∨ usc = 0 then return buf
  Outcome.ensure (uso + 2 * usc ≤ buf.length) .corruptedFilesystem
  (List.range' 1 (usc - 1)).foldlM (reapplyFixup uso (slice buf uso 2) sectorSize) buf

/-! ### What the two passes keep -/

theorem sectorEnd_eq_ok {sectorSize i fin : Nat} :
    sectorEnd sectorSize i = .ok fin ↔ 2 ≤ i * sectorSize ∧ i * sectorSize - 2 = fin :=
  Outcome.sub_eq_ok

/-- A restored sector ends in the stored bytes. -/
theorem applyFixup_eq_ok {uso seqNumber sectorSize i : Nat} {buf r : List UInt8} :
    applyFixup uso seqNumber sectorSize buf i = .ok r ↔
      2 ≤ i * sectorSize ∧ i * sectorSize ≤ buf.length ∧
        leAt buf (i * sectorSize - 2) 2 = seqNumber ∧
        splice buf (i * sectorSize - 2) (slice buf (uso + i * 2) 2) = r := by
  simp only [applyFixup, Outcome.bind_eq_ok, sectorEnd_eq_ok, Outcome.ensure_eq_ok,
    Outcome.pure_eq_ok, Outcome.ok.injEq]
  constructor
  · rintro ⟨fin, ⟨h₁, rfl⟩, -, h₂, -, h₃, h₄⟩
    exact ⟨h₁, by omega, h₃, h₄⟩
  · rintro ⟨h₁, h₂, h₃, h₄⟩
    exact ⟨_, ⟨h₁, rfl⟩, (), by omega, (), h₃, h₄⟩

/-- Restoring a sector puts the saved word in the place of the mark. -/
theorem applyFixup_append {front mark word rest : List UInt8} {uso seqNumber sectorSize i : Nat}
    (hend : front.length + 2 = i * sectorSize) (hmark : mark.length = 2)
    (hseq : leNat mark = seqNumber) (hword : slice (front ++ (mark ++ rest)) (uso + i * 2) 2 = word)
    (hlen : word.length = 2) :
    applyFixup uso seqNumber sectorSize (front ++ (mark ++ rest)) i =
      .ok (front ++ (word ++ rest)) := by
  have hoff : i * sectorSize - 2 = front.length := by omega
  refine applyFixup_eq_ok.mpr ⟨by omega, ?_, ?_, ?_⟩
  · rw [List.length_append, List.length_append]
    omega
  · rw [hoff, leAt, slice_middle front mark rest rfl hmark, hseq]
  · rw [hoff, hword]
    exact splice_append _ _ _ _ (hlen.trans hmark.symm)

/-- A marked sector ends in the sequence number, its own last bytes in the array. -/
theorem reapplyFixup_eq_ok {uso sectorSize i : Nat} {seqNumber buf r : List UInt8} :
    reapplyFixup uso seqNumber sectorSize buf i = .ok r ↔
      2 ≤ i * sectorSize ∧ i * sectorSize ≤ buf.length ∧
        splice (splice buf (uso + i * 2) (slice buf (i * sectorSize - 2) 2))
          (i * sectorSize - 2) seqNumber = r := by
  simp only [reapplyFixup, Outcome.bind_eq_ok, sectorEnd_eq_ok, Outcome.ensure_eq_ok,
    Outcome.pure_eq_ok, Outcome.ok.injEq]
  constructor
  · rintro ⟨fin, ⟨h₁, rfl⟩, -, h₂, h₃⟩
    exact ⟨h₁, by omega, h₃⟩
  · rintro ⟨h₁, h₂, h₃⟩
    exact ⟨_, ⟨h₁, rfl⟩, (), by omega, h₃⟩

/-- Restoring the sectors of an array that fits keeps the length. -/
theorem length_foldlM_applyFixup {uso usc seqNumber sectorSize : Nat} {buf r : List UInt8}
    (hfit : uso + 2 * usc ≤ buf.length)
    (h : (List.range' 1 (usc - 1)).foldlM (applyFixup uso seqNumber sectorSize) buf = .ok r) :
    r.length = buf.length := by
  refine Outcome.foldlM_invariant (P := fun b : List UInt8 ↦ b.length = buf.length) ?_ rfl h
  intro b i b' hi hb hstep
  obtain ⟨h₁, h₂, -, rfl⟩ := applyFixup_eq_ok.mp hstep
  simp only [List.mem_range'_1] at hi
  have hword : (slice b (uso + i * 2) 2).length = 2 := length_slice _ _ _ (by omega)
  rw [length_splice _ _ _ (by omega), hb]

/-- Marking the sectors of an array that fits keeps the length. -/
theorem length_foldlM_reapplyFixup {uso usc sectorSize : Nat} {seqNumber buf r : List UInt8}
    (hseq : seqNumber.length = 2) (hfit : uso + 2 * usc ≤ buf.length)
    (h : (List.range' 1 (usc - 1)).foldlM (reapplyFixup uso seqNumber sectorSize) buf = .ok r) :
    r.length = buf.length := by
  refine Outcome.foldlM_invariant (P := fun b : List UInt8 ↦ b.length = buf.length) ?_ rfl h
  intro b i b' hi hb hstep
  obtain ⟨h₁, h₂, rfl⟩ := reapplyFixup_eq_ok.mp hstep
  simp only [List.mem_range'_1] at hi
  have hword : (slice b (i * sectorSize - 2) 2).length = 2 := length_slice _ _ _ (by omega)
  have hfirst : (splice b (uso + i * 2) (slice b (i * sectorSize - 2) 2)).length = b.length :=
    length_splice _ _ _ (by omega)
  rw [length_splice _ _ _ (by omega), hfirst, hb]

/-- The buffer has no active update sequence array, or one that its passes work on. -/
theorem reapplyFixups_cases {buf r : List UInt8} {sectorSize : Nat}
    (h : reapplyFixups buf sectorSize = .ok r) :
    8 ≤ buf.length ∧ ((leAt buf 4 2 < 48 ∨ leAt buf 6 2 = 0) ∧ r = buf ∨
      (48 ≤ leAt buf 4 2 ∧ leAt buf 6 2 ≠ 0 ∧
        leAt buf 4 2 + 2 * leAt buf 6 2 ≤ buf.length ∧
        (List.range' 1 (leAt buf 6 2 - 1)).foldlM
          (reapplyFixup (leAt buf 4 2) (slice buf (leAt buf 4 2) 2) sectorSize) buf = .ok r)) := by
  simp only [reapplyFixups, Outcome.bind_eq_ok, uintAt_eq_ok] at h
  obtain ⟨_, ⟨-, rfl⟩, _, ⟨hl, rfl⟩, h⟩ := h
  refine ⟨hl, ?_⟩
  split at h
  · next hoff =>
    cases h
    exact .inl ⟨hoff, rfl⟩
  · next hon =>
    rw [Outcome.bind_eq_ok] at h
    obtain ⟨_, hfit, h⟩ := h
    exact .inr ⟨by omega, by omega, Outcome.ensure_eq_ok.mp hfit, h⟩

/-- An array inside the buffer, whose sectors are in it too, is marked. -/
theorem reapplyFixups_returns {buf : List UInt8} {sectorSize : Nat} (h8 : 8 ≤ buf.length)
    (hs : 2 ≤ sectorSize) (hfit : leAt buf 4 2 + 2 * leAt buf 6 2 ≤ buf.length)
    (hsectors : (leAt buf 6 2 - 1) * sectorSize ≤ buf.length) :
    ∃ r, reapplyFixups buf sectorSize = .ok r := by
  rw [reapplyFixups, uintAt_of (by omega), Outcome.ok_bind, uintAt_of (by omega), Outcome.ok_bind]
  split
  · exact ⟨buf, rfl⟩
  next hactive =>
  rw [Outcome.ensure_of hfit, Outcome.ok_bind]
  have hseq : (slice buf (leAt buf 4 2) 2).length = 2 := length_slice _ _ _ (by omega)
  suffices h : Outcome.Returns ((List.range' 1 (leAt buf 6 2 - 1)).foldlM
      (reapplyFixup (leAt buf 4 2) (slice buf (leAt buf 4 2) 2) sectorSize) buf)
      (fun b ↦ b.length = buf.length) by
    obtain ⟨r, hr, -⟩ := h
    exact ⟨r, hr⟩
  refine Outcome.returns_foldlM (P := fun b : List UInt8 ↦ b.length = buf.length) ?_ rfl
  intro b i hi hb
  simp only [List.mem_range'_1] at hi
  have hge : sectorSize ≤ i * sectorSize := Nat.le_mul_of_pos_left _ (by omega)
  have hle : i * sectorSize ≤ (leAt buf 6 2 - 1) * sectorSize :=
    Nat.mul_le_mul_right _ (by omega)
  have hword : (slice b (i * sectorSize - 2) 2).length = 2 := length_slice _ _ _ (by omega)
  have hfirst : (splice b (leAt buf 4 2 + i * 2) (slice b (i * sectorSize - 2) 2)).length =
      b.length := length_splice _ _ _ (by omega)
  refine ⟨_, reapplyFixup_eq_ok.mpr ⟨by omega, by omega, rfl⟩, ?_⟩
  exact (length_splice _ _ _ (by omega)).trans (hfirst.trans hb)

theorem applyFixups_cases {buf r : List UInt8} {sectorSize : Nat}
    (h : applyFixups buf sectorSize = .ok r) :
    8 ≤ buf.length ∧
      ((leAt buf 4 2 < 48 ∨ buf.length < leAt buf 4 2 + 2 ∨ leAt buf 6 2 = 0) ∧ r = buf ∨
      (48 ≤ leAt buf 4 2 ∧ leAt buf 6 2 ≠ 0 ∧
        leAt buf 4 2 + 2 * leAt buf 6 2 ≤ buf.length ∧
        (List.range' 1 (leAt buf 6 2 - 1)).foldlM
          (applyFixup (leAt buf 4 2) (leAt buf (leAt buf 4 2) 2) sectorSize) buf = .ok r)) := by
  simp only [applyFixups, Outcome.bind_eq_ok, uintAt_eq_ok] at h
  obtain ⟨_, ⟨-, rfl⟩, _, ⟨hl, rfl⟩, h⟩ := h
  refine ⟨hl, ?_⟩
  split at h
  · next hoff =>
    cases h
    exact .inl ⟨by omega, rfl⟩
  · next hon =>
    split at h
    · next hzero =>
      cases h
      exact .inl ⟨by omega, rfl⟩
    · next hcount =>
      rw [Outcome.bind_eq_ok] at h
      obtain ⟨_, hfit, h⟩ := h
      exact .inr ⟨by omega, hcount, Outcome.ensure_eq_ok.mp hfit, h⟩

/-- Restoring sectors whose saved words are those at their ends changes nothing. -/
theorem foldlM_applyFixup_same {buf : List UInt8} {uso usc seqNumber sectorSize : Nat}
    (hs : 2 ≤ sectorSize) (hsectors : (usc - 1) * sectorSize ≤ buf.length)
    (hsame : ∀ i, 1 ≤ i → i < usc → leAt buf (i * sectorSize - 2) 2 = seqNumber ∧
      slice buf (uso + i * 2) 2 = slice buf (i * sectorSize - 2) 2) :
    (List.range' 1 (usc - 1)).foldlM (applyFixup uso seqNumber sectorSize) buf = .ok buf := by
  suffices h : Outcome.Returns ((List.range' 1 (usc - 1)).foldlM
      (applyFixup uso seqNumber sectorSize) buf) (· = buf) by
    obtain ⟨r, hr, rfl⟩ := h
    exact hr
  refine Outcome.returns_foldlM (P := (· = buf)) ?_ rfl
  rintro b i hi rfl
  simp only [List.mem_range'_1] at hi
  obtain ⟨hmark, hword⟩ := hsame i (by omega) (by omega)
  have hge : sectorSize ≤ i * sectorSize := Nat.le_mul_of_pos_left _ (by omega)
  have hle : i * sectorSize ≤ (usc - 1) * sectorSize := Nat.mul_le_mul_right _ (by omega)
  refine ⟨b, applyFixup_eq_ok.mpr ⟨by omega, by omega, hmark, ?_⟩, rfl⟩
  rw [hword]
  exact splice_slice _ _ _ (by omega)

theorem applyFixups_same {buf : List UInt8} {sectorSize : Nat} (h8 : 8 ≤ buf.length)
    (hs : 2 ≤ sectorSize) (hfit : leAt buf 4 2 + 2 * leAt buf 6 2 ≤ buf.length)
    (hsectors : (leAt buf 6 2 - 1) * sectorSize ≤ buf.length)
    (hsame : ∀ i, 1 ≤ i → i < leAt buf 6 2 →
      leAt buf (i * sectorSize - 2) 2 = leAt buf (leAt buf 4 2) 2 ∧
        slice buf (leAt buf 4 2 + i * 2) 2 = slice buf (i * sectorSize - 2) 2) :
    applyFixups buf sectorSize = .ok buf := by
  rw [applyFixups, uintAt_of (by omega), Outcome.ok_bind, uintAt_of (by omega), Outcome.ok_bind]
  split
  · rfl
  split
  · rfl
  rw [Outcome.ensure_of hfit, Outcome.ok_bind]
  exact foldlM_applyFixup_same hs hsectors hsame

/-- The position belongs to the end of a sector that the array covers. -/
def InSectorEnd (usc sectorSize p : Nat) : Prop :=
  ∃ i, 1 ≤ i ∧ i < usc ∧ i * sectorSize ≤ p + 2 ∧ p < i * sectorSize

/-- The position holds a saved word of the array. -/
def InArray (uso usc p : Nat) : Prop := uso + 2 ≤ p ∧ p < uso + 2 * usc

/-- Marking the sectors changes saved words and sector ends only. -/
theorem reapplyFixups_untouched {buf r : List UInt8} {sectorSize : Nat}
    (h : reapplyFixups buf sectorSize = .ok r) :
    r.length = buf.length ∧
      ∀ p, (48 ≤ leAt buf 4 2 → ¬ InArray (leAt buf 4 2) (leAt buf 6 2) p ∧
        ¬ InSectorEnd (leAt buf 6 2) sectorSize p) → r[p]? = buf[p]? := by
  obtain ⟨hl, ⟨-, rfl⟩ | ⟨huso, husc, hfit, h⟩⟩ := reapplyFixups_cases h
  · exact ⟨rfl, fun _ _ ↦ rfl⟩
  generalize leAt buf 4 2 = uso at *
  generalize leAt buf 6 2 = usc at *
  have hseq : (slice buf uso 2).length = 2 := length_slice _ _ _ (by omega)
  refine Outcome.foldlM_invariant (P := fun b : List UInt8 ↦ b.length = buf.length ∧
    ∀ p, (48 ≤ uso → ¬ InArray uso usc p ∧ ¬ InSectorEnd usc sectorSize p) → b[p]? = buf[p]?)
    ?_ ⟨rfl, fun _ _ ↦ rfl⟩ h
  rintro b i b' hi ⟨hb, hkeep⟩ hstep
  obtain ⟨h₁, h₂, rfl⟩ := reapplyFixup_eq_ok.mp hstep
  simp only [List.mem_range'_1] at hi
  have hword : (slice b (i * sectorSize - 2) 2).length = 2 := length_slice _ _ _ (by omega)
  have hfirst : (splice b (uso + i * 2) (slice b (i * sectorSize - 2) 2)).length = b.length :=
    length_splice _ _ _ (by omega)
  constructor
  · rw [length_splice _ _ _ (by omega), hfirst, hb]
  · intro p hp
    obtain ⟨hp₁, hp₂⟩ := hp huso
    have hend : ¬ (i * sectorSize - 2 ≤ p ∧ p < i * sectorSize - 2 + (slice buf uso 2).length) := by
      intro hin
      exact hp₂ ⟨i, hi.1, by omega, by omega, by omega⟩
    have harr : ¬ (uso + i * 2 ≤ p ∧
        p < uso + i * 2 + (slice b (i * sectorSize - 2) 2).length) := by
      intro hin
      exact hp₁ ⟨by omega, by omega⟩
    rw [getElem?_splice _ _ _ _ (by omega), if_neg hend, getElem?_splice _ _ _ _ (by omega),
      if_neg harr]
    exact hkeep p hp

/-- Restoring the sectors changes sector ends only. -/
theorem applyFixups_untouched {buf r : List UInt8} {sectorSize : Nat}
    (h : applyFixups buf sectorSize = .ok r) :
    r.length = buf.length ∧
      ∀ p, ¬ InSectorEnd (leAt buf 6 2) sectorSize p → r[p]? = buf[p]? := by
  obtain ⟨hl, ⟨-, rfl⟩ | ⟨huso, husc, hfit, h⟩⟩ := applyFixups_cases h
  · exact ⟨rfl, fun _ _ ↦ rfl⟩
  generalize leAt buf 4 2 = uso at *
  generalize leAt buf 6 2 = usc at *
  refine Outcome.foldlM_invariant (P := fun b : List UInt8 ↦ b.length = buf.length ∧
    ∀ p, ¬ InSectorEnd usc sectorSize p → b[p]? = buf[p]?) ?_ ⟨rfl, fun _ _ ↦ rfl⟩ h
  rintro b i b' hi ⟨hb, hkeep⟩ hstep
  obtain ⟨h₁, h₂, -, rfl⟩ := applyFixup_eq_ok.mp hstep
  simp only [List.mem_range'_1] at hi
  have hword : (slice b (uso + i * 2) 2).length = 2 := length_slice _ _ _ (by omega)
  constructor
  · rw [length_splice _ _ _ (by omega), hb]
  · intro p hp
    have hend : ¬ (i * sectorSize - 2 ≤ p ∧
        p < i * sectorSize - 2 + (slice b (uso + i * 2) 2).length) := by
      intro hin
      exact hp ⟨i, hi.1, by omega, by omega, by omega⟩
    rw [getElem?_splice _ _ _ _ (by omega), if_neg hend]
    exact hkeep p hp

/-- Bytes in front of the array and of every sector end are out of reach of the marking. -/
theorem reapplyFixups_low {buf r : List UInt8} {sectorSize : Nat}
    (h : reapplyFixups buf sectorSize = .ok r) {p : Nat} (h₁ : p < 48) (h₂ : p + 2 < sectorSize) :
    r[p]? = buf[p]? := by
  apply (reapplyFixups_untouched h).2
  intro huso
  constructor
  · rintro ⟨hp, -⟩
    omega
  · rintro ⟨i, hi, -, hp, -⟩
    have hle := Nat.le_mul_of_pos_left sectorSize hi
    omega

/-! ### Marking and restoring -/

private theorem sector_step {i j s : Nat} (h : i < j) : i * s + s ≤ j * s := by
  have hle := Nat.mul_le_mul_right s (Nat.succ_le_of_lt h)
  rwa [Nat.succ_mul] at hle

/-- After marking `n` sectors that lie behind the array, each saved word is a sector's own
end, each sector ends in the sequence number, and nothing else has changed. -/
private theorem mark_fold {uso s n : Nat} {seq buf r : List UInt8} (hseq : seq.length = 2)
    (hs : uso + 2 * (n + 1) + 2 ≤ s) (hfit : uso + 2 * (n + 1) ≤ buf.length)
    (h : (List.range' 1 n).foldlM (reapplyFixup uso seq s) buf = .ok r) :
    r.length = buf.length ∧
      (∀ p, (∀ i, 1 ≤ i → i ≤ n → ¬ (uso + i * 2 ≤ p ∧ p < uso + i * 2 + 2) ∧
        ¬ (i * s ≤ p + 2 ∧ p < i * s)) → r[p]? = buf[p]?) ∧
      ∀ i, 1 ≤ i → i ≤ n → i * s ≤ buf.length ∧
        slice r (uso + i * 2) 2 = slice buf (i * s - 2) 2 ∧ slice r (i * s - 2) 2 = seq := by
  induction n generalizing r with
  | zero =>
    cases h
    exact ⟨rfl, fun _ _ ↦ rfl, fun i h₁ h₂ ↦ by omega⟩
  | succ n ih =>
    rw [List.range'_1_concat, List.foldlM_append, Outcome.bind_eq_ok] at h
    obtain ⟨b, hb, h⟩ := h
    obtain ⟨hl, hkeep, hmark⟩ := ih (by omega) (by omega) hb
    simp only [List.foldlM_cons, List.foldlM_nil, bind_pure, reapplyFixup_eq_ok] at h
    obtain ⟨h₁, h₂, rfl⟩ := h
    rw [Nat.add_comm 1 n] at h₁ h₂ ⊢
    have hstep : s ≤ (n + 1) * s := Nat.le_mul_of_pos_left s (Nat.succ_pos n)
    have hword : slice b ((n + 1) * s - 2) 2 = slice buf ((n + 1) * s - 2) 2 := by
      apply slice_congr
      intro p hp₁ hp₂
      apply hkeep
      intro i hi₁ hi₂
      have hlt := sector_step (s := s) (show i < n + 1 by omega)
      exact ⟨by omega, by omega⟩
    rw [hword]
    generalize hw : slice buf ((n + 1) * s - 2) 2 = word
    have hwl : word.length = 2 := by
      rw [← hw]
      exact length_slice _ _ _ (by omega)
    have hfirst : (splice b (uso + (n + 1) * 2) word).length = b.length :=
      length_splice _ _ _ (by omega)
    refine ⟨by rw [length_splice _ _ _ (by omega), hfirst, hl], ?_, ?_⟩
    · intro p hp
      obtain ⟨hp₁, hp₂⟩ := hp (n + 1) (by omega) (by omega)
      rw [getElem?_splice _ _ _ _ (by omega), if_neg (by omega), getElem?_splice _ _ _ _ (by omega),
        if_neg (by omega)]
      exact hkeep p fun i hi₁ hi₂ ↦ hp i hi₁ (by omega)
    · intro i hi₁ hi₂
      by_cases hi : i = n + 1
      · subst hi
        have hsame := slice_splice_same b (uso + (n + 1) * 2) word (by omega)
        have hlast := slice_splice_same (splice b (uso + (n + 1) * 2) word) ((n + 1) * s - 2) seq
          (by omega)
        rw [hwl] at hsame
        rw [hseq] at hlast
        refine ⟨by omega, ?_, hlast⟩
        rw [slice_splice_disjoint _ _ _ _ _ (by omega) (.inl (by omega)), hsame, hw]
      · obtain ⟨hm₁, hm₂, hm₃⟩ := hmark i hi₁ (by omega)
        have hlt := sector_step (s := s) (show i < n + 1 by omega)
        have hge : s ≤ i * s := Nat.le_mul_of_pos_left s hi₁
        refine ⟨hm₁, ?_, ?_⟩
        · rw [slice_splice_disjoint _ _ _ _ _ (by omega) (.inl (by omega)),
            slice_splice_disjoint _ _ _ _ _ (by omega) (.inl (by omega)), hm₂]
        · rw [slice_splice_disjoint _ _ _ _ _ (by omega) (.inl (by omega)),
            slice_splice_disjoint _ _ _ _ _ (by omega) (.inr (by omega)), hm₃]

/-- Sectors that end in the sequence number are restored from their saved words. -/
private theorem restore_fold {uso s n : Nat} (seq : Nat) (buf : List UInt8)
    (hs : uso + 2 * (n + 1) + 2 ≤ s)
    (hfit : uso + 2 * (n + 1) ≤ buf.length)
    (hend : ∀ i, 1 ≤ i → i ≤ n → i * s ≤ buf.length ∧ leAt buf (i * s - 2) 2 = seq) :
    ∃ r, (List.range' 1 n).foldlM (applyFixup uso seq s) buf = .ok r ∧ r.length = buf.length ∧
      (∀ p, (∀ i, 1 ≤ i → i ≤ n → ¬ (i * s ≤ p + 2 ∧ p < i * s)) → r[p]? = buf[p]?) ∧
      ∀ i, 1 ≤ i → i ≤ n → slice r (i * s - 2) 2 = slice buf (uso + i * 2) 2 := by
  induction n with
  | zero => exact ⟨buf, rfl, rfl, fun _ _ ↦ rfl, fun i h₁ h₂ ↦ by omega⟩
  | succ n ih =>
    obtain ⟨b, hb, hl, hkeep, hback⟩ := ih (by omega) (by omega) fun i h₁ h₂ ↦ hend i h₁ (by omega)
    obtain ⟨hle, hseq⟩ := hend (n + 1) (by omega) (by omega)
    have hstep : s ≤ (n + 1) * s := Nat.le_mul_of_pos_left s (Nat.succ_pos n)
    have hbehind : ∀ p, ((n + 1) * s ≤ p + 2 ∨ p < uso + 2 * (n + 2)) → b[p]? = buf[p]? := by
      intro p hp
      apply hkeep
      intro i hi₁ hi₂
      have hlt := sector_step (s := s) (show i < n + 1 by omega)
      have hge : s ≤ i * s := Nat.le_mul_of_pos_left s hi₁
      omega
    have hcheck : leAt b ((n + 1) * s - 2) 2 = seq := by
      rw [← hseq]
      exact leAt_congr fun p hp₁ hp₂ ↦ hbehind p (.inl (by omega))
    have hword : slice b (uso + (n + 1) * 2) 2 = slice buf (uso + (n + 1) * 2) 2 :=
      slice_congr fun p hp₁ hp₂ ↦ hbehind p (.inr (by omega))
    have hwl : (slice buf (uso + (n + 1) * 2) 2).length = 2 := length_slice _ _ _ (by omega)
    refine ⟨splice b ((n + 1) * s - 2) (slice buf (uso + (n + 1) * 2) 2), ?_, ?_, ?_, ?_⟩
    · rw [List.range'_1_concat, List.foldlM_append, hb, Outcome.ok_bind, Nat.add_comm 1 n]
      simp only [List.foldlM_cons, List.foldlM_nil, bind_pure, applyFixup_eq_ok]
      exact ⟨by omega, by omega, hcheck, by rw [hword]⟩
    · rw [length_splice _ _ _ (by omega), hl]
    · intro p hp
      have hp' := hp (n + 1) (by omega) (by omega)
      rw [getElem?_splice _ _ _ _ (by omega), if_neg (by omega)]
      exact hkeep p fun i h₁ h₂ ↦ hp i h₁ (by omega)
    · intro i hi₁ hi₂
      by_cases hi : i = n + 1
      · subst hi
        have hsame := slice_splice_same b ((n + 1) * s - 2) (slice buf (uso + (n + 1) * 2) 2)
          (by omega)
        rwa [hwl] at hsame
      · have hlt := sector_step (s := s) (show i < n + 1 by omega)
        have hge : s ≤ i * s := Nat.le_mul_of_pos_left s hi₁
        rw [slice_splice_disjoint _ _ _ _ _ (by omega) (.inl (by omega))]
        exact hback i hi₁ (by omega)

/-- The array, when it is active, lies in front of the end of the first sector. -/
def ArrayClear (buf : List UInt8) (sectorSize : Nat) : Prop :=
  48 ≤ leAt buf 4 2 → leAt buf 6 2 ≠ 0 → leAt buf 4 2 + 2 * leAt buf 6 2 + 2 ≤ sectorSize

/-- Restoring what was marked gives the buffer back, its saved words apart. -/
theorem applyFixups_reapplyFixups {buf r : List UInt8} {sectorSize : Nat}
    (h : reapplyFixups buf sectorSize = .ok r) (hc : ArrayClear buf sectorSize) :
    ∃ b, applyFixups r sectorSize = .ok b ∧ b.length = buf.length ∧
      ∀ p, (48 ≤ leAt buf 4 2 → ¬ InArray (leAt buf 4 2) (leAt buf 6 2) p) → b[p]? = buf[p]? := by
  obtain ⟨hl, ⟨hoff, rfl⟩ | ⟨huso, husc, hfit, hmark⟩⟩ := reapplyFixups_cases h
  · refine ⟨r, ?_, rfl, fun _ _ ↦ rfl⟩
    rw [applyFixups, uintAt_of (by omega), Outcome.ok_bind, uintAt_of (by omega), Outcome.ok_bind]
    by_cases hlow : leAt r 4 2 < 48 ∨ r.length < leAt r 4 2 + 2
    · rw [if_pos hlow]
      rfl
    · rw [if_neg hlow, if_pos (by omega)]
      rfl
  have hclear := hc huso husc
  obtain ⟨hlen, -⟩ := reapplyFixups_untouched h
  have hlow : ∀ {p : Nat}, p < 48 → r[p]? = buf[p]? :=
    fun hp ↦ reapplyFixups_low h hp (by omega)
  have husoEq : leAt r 4 2 = leAt buf 4 2 := leAt_congr fun p _ hp ↦ hlow (by omega)
  have huscEq : leAt r 6 2 = leAt buf 6 2 := leAt_congr fun p _ hp ↦ hlow (by omega)
  generalize huso' : leAt buf 4 2 = uso at *
  generalize husc' : leAt buf 6 2 = usc at *
  obtain ⟨n, rfl⟩ : ∃ n, usc = n + 1 := ⟨usc - 1, by omega⟩
  rw [Nat.add_sub_cancel] at hmark
  have hseqLen : (slice buf uso 2).length = 2 := length_slice _ _ _ (by omega)
  obtain ⟨-, hkeep, hsaved⟩ := mark_fold hseqLen (by omega) (by omega) hmark
  have hseq : leAt r uso 2 = leAt buf uso 2 := by
    apply leAt_congr
    intro p hp₁ hp₂
    apply hkeep
    intro i hi₁ hi₂
    have hge : sectorSize ≤ i * sectorSize := Nat.le_mul_of_pos_left _ hi₁
    omega
  obtain ⟨b, hb, hbl, hbkeep, hback⟩ := restore_fold (leAt r uso 2) r
    (show uso + 2 * (n + 1) + 2 ≤ sectorSize by omega) (by omega) (by
      intro i hi₁ hi₂
      obtain ⟨h₁, -, h₃⟩ := hsaved i hi₁ hi₂
      refine ⟨by omega, ?_⟩
      rw [hseq, leAt, h₃, leAt])
  refine ⟨b, ?_, by omega, ?_⟩
  · rw [applyFixups, uintAt_of (by omega), Outcome.ok_bind, uintAt_of (by omega), Outcome.ok_bind,
      husoEq, huscEq, if_neg (by omega), if_neg (by omega), Outcome.ensure_of (by omega),
      Outcome.ok_bind, Nat.add_sub_cancel]
    exact hb
  · intro p hp
    by_cases hend : ∃ i, 1 ≤ i ∧ i ≤ n ∧ i * sectorSize ≤ p + 2 ∧ p < i * sectorSize
    · -- A sector's end comes back from its saved word.
      obtain ⟨i, hi₁, hi₂, hp₁, hp₂⟩ := hend
      obtain ⟨-, h₂, -⟩ := hsaved i hi₁ hi₂
      exact getElem?_of_slice_eq ((hback i hi₁ hi₂).trans h₂) (by omega) (by omega)
    · rw [hbkeep p fun i hi₁ hi₂ hin ↦ hend ⟨i, hi₁, hi₂, hin⟩]
      apply hkeep
      intro i hi₁ hi₂
      refine ⟨?_, fun hin ↦ hend ⟨i, hi₁, hi₂, hin⟩⟩
      intro hin
      exact hp (by omega) ⟨by omega, by omega⟩

/-! ### The passes as inverses -/

/-- The array is active and lies in the first sector, clear of its last two bytes. -/
structure ArrayInSector (buf : List UInt8) (sectorSize : Nat) : Prop where
  behind : 48 ≤ leAt buf 4 2
  counted : 1 ≤ leAt buf 6 2
  clear : leAt buf 4 2 + 2 * leAt buf 6 2 ≤ sectorSize - 2

/-- Every sector that is restored ended in the sequence number. -/
private theorem restored_fold {uso s n seq : Nat} {buf r : List UInt8}
    (hs : uso + 2 * (n + 1) + 2 ≤ s)
    (hfit : uso + 2 * (n + 1) ≤ buf.length)
    (h : (List.range' 1 n).foldlM (applyFixup uso seq s) buf = .ok r) :
    ∀ i, 1 ≤ i → i ≤ n → i * s ≤ buf.length ∧ leAt buf (i * s - 2) 2 = seq := by
  induction n generalizing r with
  | zero =>
    intro i h₁ h₂
    omega
  | succ n ih =>
    rw [List.range'_1_concat, List.foldlM_append, Outcome.bind_eq_ok] at h
    obtain ⟨b, hb, h⟩ := h
    have hbefore := ih (by omega) (by omega) hb
    obtain ⟨b', hb', hl, hkeep, -⟩ := restore_fold seq buf (show uso + 2 * (n + 1) + 2 ≤ s by omega)
      (by omega) hbefore
    obtain rfl := Outcome.ok.inj (hb.symm.trans hb')
    simp only [List.foldlM_cons, List.foldlM_nil, bind_pure, applyFixup_eq_ok] at h
    obtain ⟨h₁, h₂, hseq, -⟩ := h
    rw [Nat.add_comm 1 n] at h₁ h₂ hseq
    intro i hi₁ hi₂
    by_cases hi : i = n + 1
    · subst hi
      refine ⟨by omega, ?_⟩
      rw [← hseq]
      apply leAt_congr
      intro p hp₁ hp₂
      refine (hkeep p ?_).symm
      intro j hj₁ hj₂
      have hlt := sector_step (s := s) (show j < n + 1 by omega)
      omega
    · exact hbefore i hi₁ (by omega)

/-- Marking the sectors that were restored gives the buffer back. -/
private theorem mark_restored {uso s n : Nat} {buf r b : List UInt8}
    (hs : uso + 2 * (n + 1) + 2 ≤ s) (hfit : uso + 2 * (n + 1) ≤ buf.length)
    (hrestore : (List.range' 1 n).foldlM (applyFixup uso (leAt buf uso 2) s) buf = .ok r)
    (hmark : (List.range' 1 n).foldlM (reapplyFixup uso (slice buf uso 2) s) r = .ok b) :
    b = buf := by
  have hends := restored_fold hs hfit hrestore
  obtain ⟨r', hr', hlen, hkeep, hback⟩ := restore_fold (leAt buf uso 2) buf hs hfit hends
  obtain rfl := Outcome.ok.inj (hrestore.symm.trans hr')
  have hseqLen : (slice buf uso 2).length = 2 := length_slice _ _ _ (by omega)
  obtain ⟨hbl, hbkeep, hsaved⟩ := mark_fold hseqLen hs (by omega) hmark
  apply List.ext_getElem?
  intro p
  by_cases hend : ∃ i, 1 ≤ i ∧ i ≤ n ∧ i * s ≤ p + 2 ∧ p < i * s
  · -- The end of a sector held the sequence number.
    obtain ⟨i, hi₁, hi₂, hp₁, hp₂⟩ := hend
    obtain ⟨hle, hword⟩ := hends i hi₁ hi₂
    obtain ⟨-, -, hmarked⟩ := hsaved i hi₁ hi₂
    have hlast : leBytes 2 (leAt buf (i * s - 2) 2) = slice buf (i * s - 2) 2 :=
      leBytes_leAt (by omega)
    have hsame : slice buf (i * s - 2) 2 = slice buf uso 2 := by
      rw [← hlast, hword, leBytes_leAt (by omega)]
    exact getElem?_of_slice_eq (hmarked.trans hsame.symm) (by omega) (by omega)
  by_cases hsave : ∃ i, 1 ≤ i ∧ i ≤ n ∧ uso + i * 2 ≤ p ∧ p < uso + i * 2 + 2
  · -- A saved word is the restored end of its sector, which came from there.
    obtain ⟨i, hi₁, hi₂, hp₁, hp₂⟩ := hsave
    obtain ⟨-, hword, -⟩ := hsaved i hi₁ hi₂
    exact getElem?_of_slice_eq (hword.trans (hback i hi₁ hi₂)) (by omega) (by omega)
  · have hout : ∀ i, 1 ≤ i → i ≤ n → ¬ (i * s ≤ p + 2 ∧ p < i * s) :=
      fun i hi₁ hi₂ hin ↦ hend ⟨i, hi₁, hi₂, hin⟩
    rw [hbkeep p fun i hi₁ hi₂ ↦ ⟨fun hin ↦ hsave ⟨i, hi₁, hi₂, hin⟩, hout i hi₁ hi₂⟩, hkeep p hout]

/-- Marking what was restored gives the buffer back. -/
private theorem reapplyFixups_of_applyFixups {buf r : List UInt8} {sectorSize : Nat}
    (harray : ArrayInSector buf sectorSize) (hin : leAt buf 4 2 + 2 ≤ buf.length)
    (h : applyFixups buf sectorSize = .ok r) : reapplyFixups r sectorSize = .ok buf := by
  obtain ⟨huso, husc, hclear⟩ := harray
  obtain ⟨hl, ⟨hoff, -⟩ | ⟨-, -, hfit, hrestore⟩⟩ := applyFixups_cases h
  · omega
  obtain ⟨hlen, hlow⟩ := applyFixups_untouched h
  have hheader : ∀ p, p < 48 → r[p]? = buf[p]? := by
    intro p hp
    apply hlow
    rintro ⟨i, hi, -, hend, -⟩
    have hge := Nat.le_mul_of_pos_left sectorSize hi
    omega
  have husoEq : leAt r 4 2 = leAt buf 4 2 := leAt_congr fun p _ hp ↦ hheader p (by omega)
  have huscEq : leAt r 6 2 = leAt buf 6 2 := leAt_congr fun p _ hp ↦ hheader p (by omega)
  generalize huso' : leAt buf 4 2 = uso at *
  generalize husc' : leAt buf 6 2 = usc at *
  obtain ⟨n, rfl⟩ : ∃ n, usc = n + 1 := ⟨usc - 1, by omega⟩
  rw [Nat.add_sub_cancel] at hrestore
  have hends := restored_fold (by omega) hfit hrestore
  obtain ⟨r', hr', -, hkeep, -⟩ := restore_fold (leAt buf uso 2) buf
    (show uso + 2 * (n + 1) + 2 ≤ sectorSize by omega) hfit hends
  obtain rfl := Outcome.ok.inj (hrestore.symm.trans hr')
  have hsectors : n * sectorSize ≤ r.length := by
    by_cases hn : n = 0
    · rw [hn, Nat.zero_mul]
      exact Nat.zero_le _
    · rw [hlen]
      exact (hends n (by omega) (Nat.le_refl n)).1
  have hreturns : ∃ b, reapplyFixups r sectorSize = .ok b := by
    apply reapplyFixups_returns (by omega) (by omega) (by omega)
    rwa [huscEq, Nat.add_sub_cancel]
  obtain ⟨b, hb⟩ := hreturns
  obtain ⟨-, ⟨hoff, -⟩ | ⟨-, -, -, hmark⟩⟩ := reapplyFixups_cases hb
  · omega
  have hseq : slice r uso 2 = slice buf uso 2 := by
    apply slice_congr
    intro p _ hp
    apply hkeep
    intro i hi₁ hi₂ hend
    have hge := Nat.le_mul_of_pos_left sectorSize hi₁
    omega
  rw [husoEq, huscEq, Nat.add_sub_cancel, hseq] at hmark
  rw [hb, mark_restored (by omega) hfit hrestore hmark]

/-- A buffer that ends in front of its array passes the first pass as it is, and the second one
refuses it. -/
private theorem reapplyFixups_short {buf r : List UInt8} {sectorSize : Nat}
    (harray : ArrayInSector buf sectorSize) (hout : buf.length < leAt buf 4 2 + 2)
    (h : applyFixups buf sectorSize = .ok r) :
    r = buf ∧ reapplyFixups r sectorSize = .err .corruptedFilesystem := by
  obtain ⟨huso, husc, -⟩ := harray
  obtain ⟨hl, ⟨-, rfl⟩ | ⟨-, -, hfit, -⟩⟩ := applyFixups_cases h
  · refine ⟨rfl, ?_⟩
    rw [reapplyFixups, uintAt_of (by omega), Outcome.ok_bind, uintAt_of (by omega), Outcome.ok_bind,
      if_neg (by omega), Outcome.ensure_not (by omega)]
    rfl
  · omega

/-- Each pass undoes the other one, on a buffer that holds the number of its array. -/
theorem fixups_inverse {buf : List UInt8} {sectorSize : Nat}
    (harray : ArrayInSector buf sectorSize) :
    (∀ r, applyFixups buf sectorSize = .ok r →
      if leAt buf 4 2 + 2 ≤ buf.length then reapplyFixups r sectorSize = .ok buf
      else r = buf ∧ reapplyFixups r sectorSize = .err .corruptedFilesystem) ∧
    ∀ r, reapplyFixups buf sectorSize = .ok r →
      ∃ b, applyFixups r sectorSize = .ok b ∧ b.length = buf.length ∧
        ∀ p, ¬ (leAt buf 4 2 ≤ p ∧ p < leAt buf 4 2 + 2 * leAt buf 6 2) → b[p]? = buf[p]? := by
  constructor
  · intro r h
    split
    · next hin => exact reapplyFixups_of_applyFixups harray hin h
    · next hout => exact reapplyFixups_short harray (Nat.lt_of_not_le hout) h
  · intro r h
    have hclear : ArrayClear buf sectorSize := by
      intro huso husc
      have hfit := harray.clear
      omega
    obtain ⟨b, hb, hlen, hkeep⟩ := applyFixups_reapplyFixups h hclear
    refine ⟨b, hb, hlen, fun p hp ↦ hkeep p fun _ hin ↦ ?_⟩
    obtain ⟨hlow, hhigh⟩ := hin
    omega

/-- Two sectors of 64 bytes, an array of two words behind the header. -/
def markedBuffer : List UInt8 :=
  List.replicate 4 0 ++ leBytes 2 48 ++ leBytes 2 2 ++ List.replicate 40 0 ++ [7, 0, 1, 2] ++
    List.replicate 10 0 ++ [7, 0] ++ List.replicate 64 0

theorem fixups_inverse_marked :
    ∃ r, applyFixups markedBuffer 64 = .ok r ∧ reapplyFixups r 64 = .ok markedBuffer := by
  have harray : ArrayInSector markedBuffer 64 :=
    ⟨by decide, by decide, by decide⟩
  have hin : leAt markedBuffer 4 2 + 2 ≤ markedBuffer.length := by decide +kernel
  have h : applyFixups markedBuffer 64 = .ok (splice markedBuffer 62 [1, 2]) := by decide +kernel
  generalize markedBuffer = buf at *
  have hback := (fixups_inverse harray).1 _ h
  rw [if_pos hin] at hback
  exact ⟨_, h, hback⟩

/-- A header of eight bytes names an array behind the end of the buffer. -/
theorem fixups_inverse_short :
    ¬ ∀ (buf : List UInt8) (sectorSize : Nat), ArrayInSector buf sectorSize →
      ∀ r, applyFixups buf sectorSize = .ok r → reapplyFixups r sectorSize = .ok buf := by
  intro h
  have hback := h [0, 0, 0, 0, 48, 0, 1, 0] 512 ⟨by decide, by decide, by decide⟩
    [0, 0, 0, 0, 48, 0, 1, 0] (by decide)
  exact absurd hback (by decide)

end SmallOs.Ntfs
