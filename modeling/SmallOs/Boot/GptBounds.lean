import SmallOs.Boot.MbrTable

/-!
# The entries of a GPT that nothing checks

`probe_gpt` of `bootloader/stage3/src/disk_probe.c` divides by the entry size of the header and
lays an entry over a sector at a multiple of it. A read behind the buffer depends on the bytes in
front of it, since a comparison stops at the first difference.
-/

namespace SmallOs.Boot

open SmallOs.Base

/-- A comparison with the target runs out of bytes. -/
def RunsOut (target rest : List UInt8) : Prop := rest.length < target.length ∧ rest <+: target

instance (target rest : List UInt8) : Decidable (RunsOut target rest) :=
  inferInstanceAs (Decidable (_ ∧ _))

/-- An entry of which only the given bytes are in the buffer is read behind its end. -/
def ReadsBehind (rest : List UInt8) : Prop :=
  RunsOut (List.replicate 16 0) rest ∨ RunsOut basicDataGuid rest ∨
    basicDataGuid <+: rest ∧ rest.length < 40

instance (rest : List UInt8) : Decidable (ReadsBehind rest) :=
  inferInstanceAs (Decidable (_ ∨ _))

section Scan

variable (image : SectorImage)

/-- The entry is Basic Data with an NTFS boot sector, which ends the scan. -/
def SectorImage.EndsScan (rest : List UInt8) : Prop :=
  basicDataGuid <+: rest ∧ image.isNtfs (leAt rest 32 8)

instance (rest : List UInt8) : Decidable (image.EndsScan rest) :=
  inferInstanceAs (Decidable (_ ∧ _))

/-- `partition_entry_lba`, `partition_entry_size` and `num_partition_entries`, of which the probe
scans 128 at most. -/
def SectorImage.gptEntryLba : Nat := leAt (image.sector 1) 72 8

@[inherit_doc SectorImage.gptEntryLba]
def SectorImage.gptEntrySize : Nat := leAt (image.sector 1) 84 4

@[inherit_doc SectorImage.gptEntryLba]
def SectorImage.gptCount : Nat := min (leAt (image.sector 1) 80 4) 128

/-- The bytes from the place of an entry to the end of its sector. -/
def SectorImage.entryBytes (lba size perSector i : Nat) : List UInt8 :=
  (image.sector ((lba + i / perSector) % 2 ^ 64)).drop (i % perSector * size)

/-- The same for the entries of the header. -/
def SectorImage.gptEntry (i : Nat) : List UInt8 :=
  image.entryBytes image.gptEntryLba image.gptEntrySize (512 / image.gptEntrySize) i

/-- The disk has a protective MBR, and a header with the signature of a GPT. -/
structure TakesGpt : Prop where
  mark : leAt (image.sector 0) 510 2 = 0xAA55
  protective : leAt (image.sector 0) 450 1 = 0xEE
  signature : leAt (image.sector 1) 0 8 = 0x5452415020494645

/-- The entries have a size, a sector holds one at least, and those up to the one that ends the
scan are read within the buffer. -/
structure EntriesInBounds : Prop where
  size : image.gptEntrySize ≠ 0
  fits : image.gptCount = 0 ∨ image.gptEntrySize ≤ 512
  entries : ∀ i < image.gptCount, (∀ j < i, ¬image.EndsScan (image.gptEntry j)) →
    ¬ReadsBehind (image.gptEntry i)

end Scan

/-! ### One entry -/

theorem runsOut_nil (t : UInt8) (target : List UInt8) : RunsOut (t :: target) [] :=
  ⟨Nat.zero_lt_succ _, List.nil_prefix⟩

theorem runsOut_cons {b t : UInt8} {target rest : List UInt8} :
    RunsOut (t :: target) (b :: rest) ↔ b = t ∧ RunsOut target rest := by
  rw [RunsOut, RunsOut, List.cons_prefix_cons, List.length_cons, List.length_cons,
    Nat.add_lt_add_iff_right, and_left_comm]

/-- A comparison, in terms of the bytes from its place on. -/
theorem matchBytes_eq (target buf : List UInt8) (off : Nat) :
    matchBytes target buf off =
      if RunsOut target (buf.drop off) then .panic else .ok (decide (target <+: buf.drop off)) := by
  induction target generalizing off with
  | nil =>
    have hends : ¬RunsOut [] (buf.drop off) := fun h ↦ Nat.not_lt_zero _ h.1
    rw [matchBytes, if_neg hends, decide_eq_true List.nil_prefix]
    rfl
  | cons t target ih =>
    rw [matchBytes]
    by_cases hlt : off < buf.length
    · rw [Outcome.assert_of hlt, Outcome.ok_bind, List.getD_eq_getElem?_getD,
        List.getElem?_eq_getElem hlt, Option.getD_some, List.drop_eq_getElem_cons hlt, ih]
      by_cases hb : buf[off] = t
      · rw [if_pos hb]
        simp only [runsOut_cons, hb, true_and, List.cons_prefix_cons]
      · have hends : ¬RunsOut (t :: target) (buf[off] :: buf.drop (off + 1)) :=
          fun h ↦ hb (runsOut_cons.mp h).1
        have hdiffers : ¬t :: target <+: buf[off] :: buf.drop (off + 1) :=
          fun h ↦ hb (List.cons_prefix_cons.mp h).1.symm
        rw [if_neg hb, if_neg hends, decide_eq_false hdiffers]
        rfl
    · have hnone : buf.drop off = [] := List.drop_eq_nil_of_le (Nat.le_of_not_lt hlt)
      rw [Outcome.assert_not hlt, hnone, if_pos (runsOut_nil t target)]
      rfl

/-- No entry is both empty and Basic Data. -/
theorem not_basicData_of_zero {rest : List UInt8} (h : List.replicate 16 0 <+: rest) :
    ¬basicDataGuid <+: rest := by
  intro hguid
  have hsame := List.prefix_of_prefix_length_le h hguid (Nat.le_refl 16)
  exact absurd hsame (by decide)

theorem not_runsOut_of_prefix {target rest : List UInt8} (h : target <+: rest) :
    ¬RunsOut target rest := by
  intro hout
  exact Nat.not_lt_of_le h.length_le hout.1

theorem not_readsBehind_of_zero {rest : List UInt8} (h : List.replicate 16 0 <+: rest) :
    ¬ReadsBehind rest := by
  rintro (hout | hout | hshort)
  · exact not_runsOut_of_prefix h hout
  · exact Nat.not_lt_of_le h.length_le hout.1
  · exact not_basicData_of_zero h hshort.1

section Scan

variable {image : SectorImage} {lba size perSector : Nat}

/-- One entry of the loop. -/
theorem scanGpt_cons_reader (hper : 0 < perSector) (i : Nat) (indexes entryBuf gSector) :
    ∃ entryBuf' gSector', scanGpt image.reader lba size perSector (i :: indexes) entryBuf gSector =
      if ReadsBehind (image.entryBytes lba size perSector i) then .panic
      else if image.EndsScan (image.entryBytes lba size perSector i) then
        .ok (probePartition image.reader (leAt (image.entryBytes lba size perSector i) 32 8)
          (image.sector (leAt (image.entryBytes lba size perSector i) 32 8)))
      else scanGpt image.reader lba size perSector indexes entryBuf' gSector' := by
  have hbuf : image.reader ((lba + i / perSector) % 2 ^ 64) entryBuf =
      image.sector ((lba + i / perSector) % 2 ^ 64) := rfl
  have hlba : leAt (image.sector ((lba + i / perSector) % 2 ^ 64)) (i % perSector * size + 32) 8 =
      leAt (image.entryBytes lba size perSector i) 32 8 := by
    rw [leAt, leAt, slice, slice, SectorImage.entryBytes, List.drop_drop]
  have hlen : i % perSector * size + 40 ≤
        (image.sector ((lba + i / perSector) % 2 ^ 64)).length ↔
      ¬(image.entryBytes lba size perSector i).length < 40 := by
    rw [SectorImage.entryBytes, List.length_drop]
    omega
  rw [scanGpt, Outcome.assert_of hper, Outcome.ok_bind]
  dsimp only
  have hentry : (image.sector ((lba + i / perSector) % 2 ^ 64)).drop (i % perSector * size) =
      image.entryBytes lba size perSector i := rfl
  rw [hbuf, matchBytes_eq, matchBytes_eq, hlba, hentry]
  generalize image.entryBytes lba size perSector i = rest at *
  by_cases hzero : RunsOut (List.replicate 16 0) rest
  · refine ⟨entryBuf, gSector, ?_⟩
    have hbehind : ReadsBehind rest := Or.inl hzero
    rw [if_pos hzero, if_pos hbehind]
    rfl
  rw [if_neg hzero, Outcome.ok_bind]
  by_cases hempty : List.replicate 16 0 <+: rest
  · refine ⟨image.sector ((lba + i / perSector) % 2 ^ 64), gSector, ?_⟩
    rw [if_pos (decide_eq_true hempty), if_neg (not_readsBehind_of_zero hempty),
      if_neg fun h ↦ not_basicData_of_zero hempty h.1]
  rw [if_neg (by rw [decide_eq_false hempty]; exact Bool.false_ne_true)]
  by_cases hout : RunsOut basicDataGuid rest
  · refine ⟨entryBuf, gSector, ?_⟩
    have hbehind : ReadsBehind rest := Or.inr (Or.inl hout)
    rw [if_pos hout, if_pos hbehind]
    rfl
  rw [if_neg hout, Outcome.ok_bind]
  by_cases hbasic : basicDataGuid <+: rest
  · refine ⟨image.sector ((lba + i / perSector) % 2 ^ 64), image.sector (leAt rest 32 8), ?_⟩
    rw [if_pos (decide_eq_true hbasic)]
    by_cases hshort : rest.length < 40
    · have hbehind : ReadsBehind rest := Or.inr (Or.inr ⟨hbasic, hshort⟩)
      rw [Outcome.assert_not fun h ↦ hlen.mp h hshort, if_pos hbehind]
      rfl
    · have hwithin : ¬ReadsBehind rest := by
        rintro (h | h | h)
        · exact hzero h
        · exact hout h
        · exact hshort h.2
      have hends : image.EndsScan rest ↔ image.isNtfs (leAt rest 32 8) = true :=
        and_iff_right hbasic
      rw [Outcome.assert_of (hlen.mpr hshort), Outcome.ok_bind, if_neg hwithin]
      simp only [hends]
      rfl
  · refine ⟨image.sector ((lba + i / perSector) % 2 ^ 64), gSector, ?_⟩
    have hwithin : ¬ReadsBehind rest := by
      rintro (h | h | h)
      · exact hzero h
      · exact hout h
      · exact hbasic h.1
    rw [if_neg (by rw [decide_eq_false hbasic]; exact Bool.false_ne_true), if_neg hwithin,
      if_neg fun h ↦ hbasic h.1]

/-- The scan returns when no entry up to the one that ends it is read behind the buffer. -/
theorem scanGpt_ok_iff (hper : 0 < perSector) (n k : Nat) (entryBuf gSector : List UInt8) :
    (∃ r, scanGpt image.reader lba size perSector (List.range' k n) entryBuf gSector = .ok r) ↔
      ∀ i, k ≤ i → i < k + n →
        (∀ j, k ≤ j → j < i → ¬image.EndsScan (image.entryBytes lba size perSector j)) →
        ¬ReadsBehind (image.entryBytes lba size perSector i) := by
  induction n generalizing k entryBuf gSector with
  | zero =>
    apply iff_of_true
    · exact ⟨_, rfl⟩
    · intro i hlow hhigh
      omega
  | succ n ih =>
    obtain ⟨entryBuf', gSector', hstep⟩ := @scanGpt_cons_reader image lba size perSector hper k
      (List.range' (k + 1) n) entryBuf gSector
    rw [List.range'_succ, hstep]
    by_cases hout : ReadsBehind (image.entryBytes lba size perSector k)
    · rw [if_pos hout]
      apply iff_of_false
      · rintro ⟨r, hr⟩
        cases hr
      · intro hall
        exact hall k (Nat.le_refl k) (by omega) (fun j hlow hlt ↦ by omega) hout
    rw [if_neg hout]
    by_cases hends : image.EndsScan (image.entryBytes lba size perSector k)
    · rw [if_pos hends]
      apply iff_of_true
      · exact ⟨_, rfl⟩
      · intro i hlow hhigh hgo
        obtain rfl : i = k := by
          by_contra hne
          exact hgo k (Nat.le_refl k) (by omega) hends
        exact hout
    · rw [if_neg hends]
      refine (ih (k + 1) entryBuf' gSector').trans ?_
      constructor
      · intro hall i hlow hhigh hgo
        by_cases hi : i = k
        · rw [hi]
          exact hout
        · exact hall i (by omega) (by omega) fun j hlow hlt ↦ hgo j (by omega) hlt
      · intro hall i hlow hhigh hgo
        apply hall i (by omega) (by omega)
        intro j hlow' hlt
        by_cases hj : j = k
        · rw [hj]
          exact hends
        · exact hgo j (by omega) hlt

end Scan

/-! ### The probe -/

variable {image : SectorImage}

/-- With a GPT the probe divides by the entry size and scans. -/
theorem diskProbe_gpt (h : TakesGpt image) (buffers : Buffers) :
    diskProbe image.reader buffers = (do
      Outcome.assert (0 < image.gptEntrySize)
      scanGpt image.reader image.gptEntryLba image.gptEntrySize (512 / image.gptEntrySize)
        (List.range image.gptCount) buffers.entryBuf (image.sector 0)) := by
  have hsector : image.reader 0 buffers.gSector = image.sector 0 := rfl
  have hheader : image.reader 1 buffers.gGptSector = image.sector 1 := rfl
  have hzero : ¬(image.sector 0).all (· = 0) = true := by
    intro hall
    exact absurd (h.mark.symm.trans (leAt_of_zeros hall 510 2)) (by decide)
  simp only [diskProbe, probeGpt, hsector, hheader, if_neg hzero, if_neg (not_not_intro h.mark),
    if_pos h.protective, if_neg (not_not_intro h.signature)]
  rfl

/-- Without one it returns. -/
theorem diskProbe_of_not_takesGpt (h : ¬TakesGpt image) (buffers : Buffers) :
    ∃ r, diskProbe image.reader buffers = .ok r := by
  have hsector : image.reader 0 buffers.gSector = image.sector 0 := rfl
  have hheader : image.reader 1 buffers.gGptSector = image.sector 1 := rfl
  rw [diskProbe]
  simp only [probeGpt, hsector, hheader]
  by_cases hzero : (image.sector 0).all (· = 0) = true
  · rw [if_pos hzero]
    exact ⟨_, rfl⟩
  rw [if_neg hzero]
  by_cases hmark : leAt (image.sector 0) 510 2 = 0xAA55
  · rw [if_neg (not_not_intro hmark)]
    by_cases hprotective : leAt (image.sector 0) 450 1 = 0xEE
    · have hsignature : leAt (image.sector 1) 0 8 ≠ 0x5452415020494645 :=
        fun hsame ↦ h ⟨hmark, hprotective, hsame⟩
      rw [if_pos hprotective, if_pos hsignature]
      exact ⟨_, rfl⟩
    · rw [if_neg hprotective]
      exact ⟨_, rfl⟩
  · rw [if_pos hmark]
    exact ⟨_, rfl⟩

/-- Entries of at least 40 bytes, of which a sector holds one, are always read within it. -/
theorem entriesInBounds_of_size (hlow : 40 ≤ image.gptEntrySize)
    (hhigh : image.gptEntrySize ≤ 512) : EntriesInBounds image where
  size := by omega
  fits := Or.inr hhigh
  entries := by
    intro i _ _
    have hper : 0 < 512 / image.gptEntrySize := Nat.div_pos hhigh (by omega)
    have hplace : i % (512 / image.gptEntrySize) + 1 ≤ 512 / image.gptEntrySize :=
      Nat.mod_lt i hper
    have hend : (i % (512 / image.gptEntrySize) + 1) * image.gptEntrySize ≤ 512 :=
      Nat.le_trans (Nat.mul_le_mul_right _ hplace) (Nat.div_mul_le_self 512 image.gptEntrySize)
    have hlen : 40 ≤ (image.gptEntry i).length := by
      rw [Nat.add_mul, Nat.one_mul] at hend
      rw [SectorImage.gptEntry, SectorImage.entryBytes, List.length_drop, image.length_sector]
      omega
    rintro (hout | hout | hshort)
    · have hlt : (image.gptEntry i).length < 16 := hout.1
      omega
    · have hlt : (image.gptEntry i).length < 16 := hout.1
      omega
    · omega

/-- The probe returns on a disk exactly when it finds no GPT there, or one whose entries it can
read. -/
theorem diskProbe_ok_iff (image : SectorImage) (buffers : Buffers) :
    (∃ r, diskProbe image.reader buffers = .ok r) ↔ (TakesGpt image → EntriesInBounds image) := by
  by_cases hgpt : TakesGpt image
  · rw [diskProbe_gpt hgpt]
    by_cases hsize : image.gptEntrySize = 0
    · rw [Outcome.assert_not (by omega)]
      apply iff_of_false
      · rintro ⟨r, hr⟩
        cases hr
      · intro h
        exact (h hgpt).size hsize
    have hpos : 0 < image.gptEntrySize := Nat.pos_of_ne_zero hsize
    rw [Outcome.assert_of hpos, Outcome.ok_bind]
    by_cases hfits : image.gptEntrySize ≤ 512
    · have hper : 0 < 512 / image.gptEntrySize := Nat.div_pos hfits hpos
      rw [List.range_eq_range', scanGpt_ok_iff hper]
      constructor
      · intro hall _
        refine ⟨hsize, Or.inr hfits, ?_⟩
        intro i hi hgo
        exact hall i (Nat.zero_le i) (by omega) fun j _ hj ↦ hgo j hj
      · intro h i _ hi hgo
        exact (h hgpt).entries i (by omega) fun j hj ↦ hgo j (Nat.zero_le j) hj
    -- No entry of this size fits in a sector, and the first division is by zero.
    have hper : 512 / image.gptEntrySize = 0 := Nat.div_eq_of_lt (by omega)
    rw [hper]
    by_cases hcount : image.gptCount = 0
    · rw [hcount]
      apply iff_of_true
      · exact ⟨_, rfl⟩
      · intro _
        refine ⟨hsize, Or.inl hcount, ?_⟩
        intro i hi
        omega
    · obtain ⟨n, hn⟩ := Nat.exists_eq_succ_of_ne_zero hcount
      rw [hn, List.range_eq_range', List.range'_succ]
      apply iff_of_false
      · rintro ⟨r, hr⟩
        cases hr
      · intro h
        exact (h hgpt).fits.elim hcount hfits
  · exact iff_of_true (diskProbe_of_not_takesGpt hgpt buffers) fun h ↦ absurd h hgpt

/-- A disk with a protective MBR and a GPT header that says nothing behind the signature. -/
def sizelessGpt : SectorImage where
  sector
    | 0 => List.replicate 450 0 ++ ([0xEE] ++ (List.replicate 59 0 ++ [0x55, 0xAA]))
    | 1 => leBytes 8 0x5452415020494645 ++ List.replicate 504 0
    | _ => List.replicate 512 0
  length_sector
    | 0 => by simp only [List.length_append, List.length_replicate, List.length_cons,
        List.length_nil]
    | 1 => by simp only [List.length_append, List.length_replicate, length_leBytes]
    | _ + 2 => List.length_replicate

/-- The probe of such a disk divides by zero. -/
theorem diskProbe_sizelessGpt : diskProbe sizelessGpt.reader ⟨[], [], []⟩ = .panic := by
  have hgpt : TakesGpt sizelessGpt := ⟨by decide +kernel, by decide, by decide⟩
  have hsize : ¬0 < sizelessGpt.gptEntrySize := by decide
  rw [diskProbe_gpt hgpt, Outcome.assert_not hsize]
  rfl

end SmallOs.Boot
