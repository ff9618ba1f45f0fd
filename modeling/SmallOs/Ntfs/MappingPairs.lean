import SmallOs.Base.Signed
import SmallOs.Ntfs.Runs

/-!
# Mapping pairs

A run list on disk: for each run a byte with the widths of two fields, then the run's length and
the signed distance of its first cluster from that of the run before. `parseDataRuns` reads back
what is written so, for every choice of widths.
-/

namespace SmallOs.Ntfs

open SmallOs.Base

/-- A run and the widths of its two fields. -/
structure MappingPair where
  lcn : Nat
  length : Nat
  lengthSize : Nat
  offsetSize : Nat
  deriving DecidableEq, Repr

namespace MappingPair

/-- The run without its widths. -/
def run (pair : MappingPair) : Nat × Nat := (pair.lcn, pair.length)

/-- The fields of a run behind one that starts at `prev`. -/
def fields (prev : Nat) (pair : MappingPair) : List (List UInt8) :=
  [leBytes 1 (pair.lengthSize + 16 * pair.offsetSize), leBytes pair.lengthSize pair.length,
    leBytes pair.offsetSize (signedWord pair.offsetSize ((pair.lcn : Int) - prev))]

/-- The fields hold the run's length and its distance from `prev`. -/
structure Fits (prev : Nat) (pair : MappingPair) : Prop where
  lcn_lt : pair.lcn < 2 ^ 63
  lengthSize : 1 ≤ pair.lengthSize ∧ pair.lengthSize ≤ 8
  length_lt : pair.length < 256 ^ pair.lengthSize
  offsetSize : 1 ≤ pair.offsetSize ∧ pair.offsetSize ≤ 7
  offset : FitsSigned pair.offsetSize ((pair.lcn : Int) - prev)

end MappingPair

/-- Every run fits behind the one in front of it. -/
def AllFit : Nat → List MappingPair → Prop
  | _, [] => True
  | prev, pair :: pairs => pair.Fits prev ∧ AllFit pair.lcn pairs

/-- The runs one behind the other. -/
def encodePairs : Nat → List MappingPair → List UInt8
  | _, [] => []
  | prev, pair :: pairs => (pair.fields prev).flatten ++ encodePairs pair.lcn pairs

theorem MappingPair.length_fields (prev : Nat) (pair : MappingPair) :
    (pair.fields prev).flatten.length = 1 + pair.lengthSize + pair.offsetSize := by
  simp [fields]
  omega

/-- Fields of fewer than eight bytes are read with their sign. -/
theorem runOffset_eq {attrData : List UInt8} {off size : Nat} (h : size < 8) :
    runOffset attrData off size = .ok (signedValue size (leAt attrData off size)) := by
  unfold runOffset signedValue
  by_cases hneg : 0 < size ∧ 2 ^ (8 * size - 1) ≤ leAt attrData off size
  · rw [if_pos hneg, if_pos hneg, Outcome.assert_of h]
    rfl
  · rw [if_neg hneg, if_neg hneg]
    rfl

/-! ### Decoding -/

/-- What the decoder reads of a run. -/
structure ReadsRun (attrData : List UInt8) (off prev : Nat) (pair : MappingPair) : Prop where
  header : (attrData.getD off 0).toNat = pair.lengthSize + 16 * pair.offsetSize
  length : leAt attrData (off + 1) pair.lengthSize = pair.length
  offset : signedValue pair.offsetSize
    (leAt attrData (off + 1 + pair.lengthSize) pair.offsetSize) = (pair.lcn : Int) - prev
  fit : off + 1 + pair.lengthSize + pair.offsetSize ≤ attrData.length

section Decoding

variable {attrData rest : List UInt8} {off prev : Nat} {pair : MappingPair}

theorem readsRun_of_fields (h : HasFields attrData off (pair.fields prev))
    (hfits : pair.Fits prev) : ReadsRun attrData off prev pair := by
  obtain ⟨hlcn, hlength, hlt, hoffset, hsigned⟩ := hfits
  have hne : (pair.fields prev).flatten ≠ [] := by
    intro hnil
    have hlen := congrArg List.length hnil
    rw [MappingPair.length_fields, List.length_nil] at hlen
    omega
  have hfit := h.length_le hne
  rw [MappingPair.length_fields] at hfit
  have hheader : leAt attrData off 1 = pair.lengthSize + 16 * pair.offsetSize :=
    h.word (i := 0) (k := 0) rfl rfl (by omega)
  refine ⟨?_, ?_, ?_, by omega⟩
  · have hbyte := getElem?_of_leAt attrData off 1 (by decide) (by omega)
    rw [List.getD_eq_getElem?_getD, hbyte, hheader, Option.getD_some, UInt8.toNat_ofNat']
    omega
  · exact h.word (i := 1) rfl rfl hlt
  · have hword : leAt attrData (off + (1 + pair.lengthSize)) pair.offsetSize =
        signedWord pair.offsetSize ((pair.lcn : Int) - prev) := by
      apply h.word (i := 2) rfl _ (signedWord_lt _ _)
      simp [MappingPair.fields]
    rw [Nat.add_assoc, hword, signedValue_signedWord (by omega) hsigned]

/-- The decoder takes a run and goes on behind it. -/
theorem parseRunsFrom_run (hruns : ReadsRun attrData off prev pair) (hfits : pair.Fits prev) :
    parseRunsFrom attrData off prev =
      (pair.run :: ·) <$> parseRunsFrom attrData
        (off + 1 + pair.lengthSize + pair.offsetSize) pair.lcn := by
  obtain ⟨hheader, hlength, hoffset, hfit⟩ := hruns
  obtain ⟨hlcn, hlengthSize, -, hoffsetSize, -⟩ := hfits
  have hlow : (pair.lengthSize + 16 * pair.offsetSize) % 16 = pair.lengthSize := by omega
  have hhigh : (pair.lengthSize + 16 * pair.offsetSize) / 16 = pair.offsetSize := by omega
  have habs : (prev : Int) + ((pair.lcn : Int) - prev) = pair.lcn := by omega
  rw [parseRunsFrom, dif_pos (by omega)]
  simp only [hheader, hlow, hhigh]
  rw [if_neg (by omega), runOffset_eq (by omega), Outcome.ok_bind, hlength, hoffset]
  simp only [habs, Int.toNat_natCast]
  rw [Outcome.ensure_of (by exact_mod_cast hlcn), Outcome.ok_bind, Outcome.ensure_of (by omega),
    Outcome.ok_bind]
  cases parseRunsFrom attrData (off + 1 + pair.lengthSize + pair.offsetSize) pair.lcn <;> rfl

/-- The decoder stops at a zero byte and at the end of the attribute. -/
theorem parseRunsFrom_stop (h : (attrData.drop off).head? = some 0 ∨ attrData.length ≤ off) :
    parseRunsFrom attrData off prev = .ok [] := by
  rw [parseRunsFrom]
  rcases h with hzero | hend
  · rw [List.head?_drop] at hzero
    have hlt : off < attrData.length := (List.getElem?_eq_some_iff.mp hzero).1
    have hheader : (attrData.getD off 0).toNat = 0 := by
      rw [List.getD_eq_getElem?_getD, hzero]
      rfl
    rw [dif_pos hlt]
    simp only [hheader, true_or, if_true]
    rfl
  · rw [dif_neg (by omega)]
    rfl

theorem parseRunsFrom_encodePairs {pairs : List MappingPair} (hfit : AllFit prev pairs)
    (h : attrData.drop off = encodePairs prev pairs ++ rest)
    (hrest : rest = [] ∨ rest.head? = some 0) :
    parseRunsFrom attrData off prev = .ok (pairs.map MappingPair.run) := by
  induction pairs generalizing off prev with
  | nil =>
    rw [encodePairs, List.nil_append] at h
    apply parseRunsFrom_stop
    rcases hrest with rfl | hzero
    · exact .inr (List.drop_eq_nil_iff.mp h)
    · exact .inl (h ▸ hzero)
  | cons pair pairs ih =>
    obtain ⟨hfits, hfit⟩ := hfit
    rw [encodePairs, List.append_assoc] at h
    have hruns := readsRun_of_fields ⟨_, h⟩ hfits
    have hbehind : attrData.drop (off + 1 + pair.lengthSize + pair.offsetSize) =
        encodePairs pair.lcn pairs ++ rest := by
      have hlen : off + 1 + pair.lengthSize + pair.offsetSize =
          off + (pair.fields prev).flatten.length := by
        rw [MappingPair.length_fields]
        omega
      rw [hlen, ← List.drop_drop, h, List.drop_left]
    rw [parseRunsFrom_run hruns hfits, ih hfit hbehind]
    rfl

end Decoding

/-- A non-resident attribute with a run list: its header is valid, and the runs lie where it says,
followed by a zero byte or by the end of the attribute. -/
structure HoldsRuns (attrData : List UInt8) (pairs : List MappingPair) : Prop where
  long : 64 ≤ attrData.length
  nonResident : attrData.getD 8 0 = 1
  behind : 64 ≤ leAt attrData 32 2
  inside : leAt attrData 32 2 < attrData.length
  allocated : leAt attrData 40 8 = 0 → pairs = []
  runs : ∃ rest, attrData.drop (leAt attrData 32 2) = encodePairs 0 pairs ++ rest ∧
    (rest = [] ∨ rest.head? = some 0)

/-- The runs of an attribute are read back as they were written, whatever widths they have. -/
theorem parseDataRuns_encodePairs {attrData : List UInt8} {pairs : List MappingPair}
    (hfit : AllFit 0 pairs) (h : HoldsRuns attrData pairs) :
    parseDataRuns attrData = .ok (pairs.map MappingPair.run) := by
  obtain ⟨hlong, hflag, hbehind, hinside, hallocated, rest, hruns, hrest⟩ := h
  rw [parseDataRuns, Outcome.ensure_of hlong, Outcome.ok_bind, Outcome.ensure_of hflag,
    Outcome.ok_bind, if_neg (by omega), Outcome.ensure_of ⟨hbehind, hinside⟩, Outcome.ok_bind]
  by_cases hzero : leAt attrData 40 8 = 0
  · rw [if_pos hzero, hallocated hzero]
    rfl
  · rw [if_neg hzero]
    exact parseRunsFrom_encodePairs hfit hruns hrest

/-- Two runs, the second one in front of the first. -/
def backwardPairs : List MappingPair := [⟨300, 4, 1, 2⟩, ⟨100, 1000, 2, 2⟩]

/-- A header of 64 bytes and these runs, up to the end of the attribute. -/
def backwardRuns : List UInt8 :=
  List.replicate 8 0 ++ (leBytes 1 1 ++ (List.replicate 23 0 ++ (leBytes 2 64 ++
    (List.replicate 6 0 ++ (leBytes 8 4096 ++ (List.replicate 16 0 ++
      encodePairs 0 backwardPairs))))))

theorem parseDataRuns_encodePairs_backward :
    parseDataRuns backwardRuns = .ok [(300, 4), (100, 1000)] := by
  have hfit : AllFit 0 backwardPairs :=
    ⟨⟨by decide, by decide, by decide, by decide, by decide⟩,
      ⟨by decide, by decide, by decide, by decide, by decide⟩, trivial⟩
  have hruns : backwardRuns.drop (leAt backwardRuns 32 2) = encodePairs 0 backwardPairs ++ [] := by
    decide
  exact parseDataRuns_encodePairs hfit
    ⟨by decide, by decide, by decide, by decide,
      fun hzero ↦ absurd hzero (by decide), [], hruns, .inl rfl⟩

end SmallOs.Ntfs
