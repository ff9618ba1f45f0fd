import SmallOs.Base.Lists
import SmallOs.Ntfs.MappingPairs

/-!
# Run lists on disk

What the bytes of a run list say before any position is computed: pairs one behind the other, each
with a length and a signed jump. `parseDataRuns` adds the jumps up, and stops where the sum leaves
the numbers of clusters.
-/

namespace SmallOs.Ntfs

open SmallOs.Base

/-! ### The pairs -/

/-- A pair as its bytes give it. A jump field of no bytes is a jump of zero. -/
structure DiskPair where
  length : Nat
  offsetSize : Nat
  jump : Int
  deriving DecidableEq, Repr

/-- The jump fills eight bytes and has their sign bit set. -/
def DiskPair.Wide (pair : DiskPair) : Prop := pair.offsetSize = 8 ∧ pair.jump < 0

instance (pair : DiskPair) : Decidable pair.Wide := inferInstanceAs (Decidable (_ ∧ _))

/-- The pair at an offset and the offset behind it; none at a zero byte, at a width that is not one
and where the pair does not lie in the attribute. -/
def pairAt (attrData : List UInt8) (off : Nat) : Option (DiskPair × Nat) :=
  let header := (attrData.getD off 0).toNat
  let lenSize := header % 16
  let offsetSize := header / 16
  if attrData.length ≤ off ∨ lenSize = 0 ∨ 8 < lenSize ∨ 8 < offsetSize ∨
      attrData.length < off + 1 + lenSize + offsetSize then none
  else some ({
    length := leAt attrData (off + 1) lenSize
    offsetSize
    jump := signedValue offsetSize (leAt attrData (off + 1 + lenSize) offsetSize) },
    off + 1 + lenSize + offsetSize)

theorem pairAt_next {attrData : List UInt8} {off next : Nat} {pair : DiskPair}
    (h : pairAt attrData off = some (pair, next)) : off < next ∧ next ≤ attrData.length := by
  unfold pairAt at h
  dsimp only at h
  split at h
  · cases h
  · cases h
    omega

/-- The pairs from an offset on. -/
def pairsFrom (attrData : List UInt8) (off : Nat) : List DiskPair :=
  match _h : pairAt attrData off with
  | none => []
  | some (pair, next) => pair :: pairsFrom attrData next
termination_by attrData.length - off
decreasing_by
  have hnext := pairAt_next _h
  omega

/-- The attribute is a non-resident one whose header names a run list. -/
structure HasRunList (attrData : List UInt8) : Prop where
  long : 64 ≤ attrData.length
  nonResident : attrData.getD 8 0 = 1
  behind : 64 ≤ leAt attrData 32 2
  inside : leAt attrData 32 2 < attrData.length
  allocated : leAt attrData 40 8 ≠ 0

instance (attrData : List UInt8) : Decidable (HasRunList attrData) :=
  decidable_of_iff (64 ≤ attrData.length ∧ attrData.getD 8 0 = 1 ∧ 64 ≤ leAt attrData 32 2 ∧
    leAt attrData 32 2 < attrData.length ∧ leAt attrData 40 8 ≠ 0)
    ⟨fun h ↦ ⟨h.1, h.2.1, h.2.2.1, h.2.2.2.1, h.2.2.2.2⟩,
      fun h ↦ ⟨h.long, h.nonResident, h.behind, h.inside, h.allocated⟩⟩

/-- The pairs of an attribute. -/
def diskPairs (attrData : List UInt8) : List DiskPair :=
  if HasRunList attrData then pairsFrom attrData (leAt attrData 32 2) else []

/-! ### Adding up -/

/-- The number of a cluster. -/
def IsCluster (v : Int) : Prop := 0 ≤ v ∧ v < 2 ^ 63

instance (v : Int) : Decidable (IsCluster v) := inferInstanceAs (Decidable (_ ∧ _))

/-- Where the pairs lead from a position. -/
def position (prev : Int) (pairs : List DiskPair) : Int := prev + (pairs.map (·.jump)).sum

/-- Up to its end the list stays among the numbers of clusters. -/
def StaysOn (prev : Int) (pairs : List DiskPair) : Prop :=
  ∀ k < pairs.length, IsCluster (position prev (pairs.take (k + 1)))

/-- The runs at the positions that the pairs lead to. -/
def runsAt (prev : Int) : List DiskPair → List (Nat × Nat)
  | [] => []
  | pair :: pairs => ((prev + pair.jump).toNat, pair.length) :: runsAt (prev + pair.jump) pairs

/-- What the decoder makes of the pairs, one after the other. -/
def decodePairs (prev : Int) : List DiskPair → Outcome NtfsError (List (Nat × Nat))
  | [] => pure []
  | pair :: pairs => do
    Outcome.assert (¬ pair.Wide)
    Outcome.ensure (IsCluster (prev + pair.jump)) .corruptedFilesystem
    let runs ← decodePairs (prev + pair.jump) pairs
    return ((prev + pair.jump).toNat, pair.length) :: runs

theorem position_cons (prev : Int) (pair : DiskPair) (pairs : List DiskPair) :
    position prev (pair :: pairs) = position (prev + pair.jump) pairs := by
  rw [position, position, List.map_cons, List.sum_cons, Int.add_assoc]

theorem staysOn_cons {prev : Int} {pair : DiskPair} {pairs : List DiskPair} :
    StaysOn prev (pair :: pairs) ↔
      IsCluster (prev + pair.jump) ∧ StaysOn (prev + pair.jump) pairs := by
  constructor
  · intro h
    refine ⟨?_, ?_⟩
    · have hfirst := h 0 (Nat.zero_lt_succ _)
      rwa [List.take_succ_cons, List.take_zero, position_cons, position, List.map_nil, List.sum_nil,
        Int.add_zero] at hfirst
    · intro k hk
      have hnext := h (k + 1) (Nat.succ_lt_succ hk)
      rwa [List.take_succ_cons, position_cons] at hnext
  · rintro ⟨hfirst, hrest⟩ k hk
    rw [List.take_succ_cons, position_cons]
    cases k with
    | zero => rwa [List.take_zero, position, List.map_nil, List.sum_nil, Int.add_zero]
    | succ k => exact hrest k (Nat.lt_of_succ_lt_succ hk)

theorem map_length_runsAt (prev : Int) (pairs : List DiskPair) :
    (runsAt prev pairs).map Prod.snd = pairs.map (·.length) := by
  induction pairs generalizing prev with
  | nil => rfl
  | cons pair pairs ih => rw [runsAt, List.map_cons, List.map_cons, ih]

/-- The decoder returns when no pair is wide and the sums are numbers of clusters. -/
theorem decodePairs_eq_ok {prev : Int} {pairs : List DiskPair} {runs : List (Nat × Nat)} :
    decodePairs prev pairs = .ok runs ↔
      (∀ pair ∈ pairs, ¬ pair.Wide) ∧ StaysOn prev pairs ∧ runsAt prev pairs = runs := by
  induction pairs generalizing prev runs with
  | nil =>
    constructor
    · intro h
      exact ⟨nofun, nofun, Outcome.ok.inj h⟩
    · rintro ⟨-, -, h⟩
      exact congrArg Outcome.ok h
  | cons pair pairs ih =>
    simp only [decodePairs, Outcome.bind_eq_ok, Outcome.assert_eq_ok, Outcome.ensure_eq_ok, ih,
      Outcome.pure_eq_ok, Outcome.ok.injEq, staysOn_cons, List.forall_mem_cons]
    constructor
    · rintro ⟨-, hwide, -, hin, runs', ⟨hall, hstays, rfl⟩, rfl⟩
      exact ⟨⟨hwide, hall⟩, ⟨hin, hstays⟩, rfl⟩
    · rintro ⟨⟨hwide, hall⟩, ⟨hin, hstays⟩, rfl⟩
      exact ⟨(), hwide, (), hin, _, ⟨hall, hstays, rfl⟩, rfl⟩

/-- A wide pair that is reached while the sums are numbers of clusters. -/
def ReachesWide (prev : Int) (pairs : List DiskPair) : Prop :=
  ∃ before pair after, pairs = before ++ pair :: after ∧ pair.Wide ∧ StaysOn prev before

theorem reachesWide_cons {prev : Int} {pair : DiskPair} {pairs : List DiskPair} :
    ReachesWide prev (pair :: pairs) ↔
      pair.Wide ∨ IsCluster (prev + pair.jump) ∧ ReachesWide (prev + pair.jump) pairs := by
  constructor
  · rintro ⟨before, wide, after, hpairs, hwide, hstays⟩
    cases before with
    | nil =>
      obtain ⟨rfl, -⟩ := List.cons.inj hpairs
      exact .inl hwide
    | cons first before =>
      obtain ⟨rfl, rfl⟩ := List.cons.inj hpairs
      obtain ⟨hin, hstays⟩ := staysOn_cons.mp hstays
      exact .inr ⟨hin, before, wide, after, rfl, hwide, hstays⟩
  · rintro (hwide | ⟨hin, before, wide, after, rfl, hwide, hstays⟩)
    · exact ⟨[], pair, pairs, rfl, hwide, nofun⟩
    · exact ⟨pair :: before, wide, after, rfl, hwide, staysOn_cons.mpr ⟨hin, hstays⟩⟩

/-- The decoder panics exactly when it comes to a wide pair. -/
theorem decodePairs_eq_panic {prev : Int} {pairs : List DiskPair} :
    decodePairs prev pairs = .panic ↔ ReachesWide prev pairs := by
  induction pairs generalizing prev with
  | nil =>
    constructor
    · intro h
      cases h
    · rintro ⟨before, pair, after, h, -⟩
      exact absurd h nil_ne_append_cons
  | cons pair pairs ih =>
    rw [reachesWide_cons, decodePairs]
    by_cases hwide : pair.Wide
    · rw [Outcome.assert_not (not_not_intro hwide)]
      exact iff_of_true rfl (.inl hwide)
    rw [Outcome.assert_of hwide, Outcome.ok_bind, or_iff_right hwide]
    by_cases hin : IsCluster (prev + pair.jump)
    · rw [Outcome.ensure_of hin, Outcome.ok_bind, and_iff_right hin, ← ih]
      cases decodePairs (prev + pair.jump) pairs <;> simp
    · rw [Outcome.ensure_not hin]
      refine iff_of_false ?_ fun h ↦ hin h.1
      intro h
      cases h

/-- The three ends of the decoder. -/
theorem decodePairs_cases (prev : Int) (pairs : List DiskPair) :
    ReachesWide prev pairs ∧ decodePairs prev pairs = .panic ∨
      ¬ ReachesWide prev pairs ∧ StaysOn prev pairs ∧
        decodePairs prev pairs = .ok (runsAt prev pairs) ∨
      ¬ ReachesWide prev pairs ∧ ¬ StaysOn prev pairs ∧
        decodePairs prev pairs = .err .corruptedFilesystem := by
  induction pairs generalizing prev with
  | nil =>
    refine .inr (.inl ⟨?_, nofun, rfl⟩)
    rintro ⟨before, pair, after, h, -⟩
    exact absurd h nil_ne_append_cons
  | cons pair pairs ih =>
    rw [reachesWide_cons, staysOn_cons, decodePairs, runsAt]
    by_cases hwide : pair.Wide
    · rw [Outcome.assert_not (not_not_intro hwide)]
      exact .inl ⟨.inl hwide, rfl⟩
    rw [Outcome.assert_of hwide, Outcome.ok_bind, or_iff_right hwide]
    by_cases hin : IsCluster (prev + pair.jump)
    · rw [Outcome.ensure_of hin, Outcome.ok_bind, and_iff_right hin, and_iff_right hin]
      rcases ih (prev + pair.jump) with
        ⟨hreach, hend⟩ | ⟨hreach, hstays, hend⟩ | ⟨hreach, hstays, hend⟩
      · rw [hend]
        exact .inl ⟨hreach, rfl⟩
      · rw [hend]
        exact .inr (.inl ⟨hreach, hstays, rfl⟩)
      · rw [hend]
        exact .inr (.inr ⟨hreach, hstays, rfl⟩)
    · rw [Outcome.ensure_not hin]
      exact .inr (.inr ⟨fun h ↦ hin h.1, fun h ↦ hin h.1, rfl⟩)

/-! ### The decoder of the driver -/

/-- The signed field of at most eight bytes is read, unless the pair is wide. -/
theorem runOffset_eq_assert {attrData : List UInt8} {off size : Nat} (length : Nat) (h : size ≤ 8) :
    runOffset attrData off size =
      Outcome.assert (¬ DiskPair.Wide ⟨length, size, signedValue size (leAt attrData off size)⟩) >>=
        fun _ ↦ pure (signedValue size (leAt attrData off size)) := by
  by_cases hlt : size < 8
  · have hwide : ¬ DiskPair.Wide ⟨length, size, signedValue size (leAt attrData off size)⟩ :=
      fun hwide ↦ absurd hwide.1 (Nat.ne_of_lt hlt)
    rw [runOffset_eq hlt, Outcome.assert_of hwide]
    rfl
  obtain rfl : size = 8 := by omega
  have hraw := leAt_lt attrData off 8
  unfold runOffset signedValue
  by_cases hneg : 0 < 8 ∧ 2 ^ (8 * 8 - 1) ≤ leAt attrData off 8
  · have hwide : DiskPair.Wide ⟨length, 8, leAt attrData off 8 - 2 ^ (8 * 8)⟩ := by
      refine ⟨rfl, ?_⟩
      dsimp only
      omega
    rw [if_pos hneg, if_pos hneg, Outcome.assert_not (by decide), Outcome.assert,
      if_neg (not_not_intro hwide)]
  · have hwide : ¬ DiskPair.Wide ⟨length, 8, leAt attrData off 8⟩ :=
      fun hwide ↦ absurd hwide.2 (Int.not_lt.mpr (Int.natCast_nonneg _))
    rw [if_neg hneg, if_neg hneg, Outcome.assert_of hwide]
    rfl

theorem parseRunsFrom_eq (attrData : List UInt8) (off prev : Nat) :
    parseRunsFrom attrData off prev = decodePairs prev (pairsFrom attrData off) := by
  induction off using pairsFrom.induct attrData generalizing prev with
  | case1 off hnone =>
    rw [pairsFrom, hnone, parseRunsFrom]
    unfold pairAt at hnone
    dsimp only at hnone ⊢
    split at hnone
    · next hstop =>
      split
      · rw [if_pos (by omega)]
        rfl
      · rfl
    · cases hnone
  | case2 off pair next hsome ih =>
    rw [pairsFrom, hsome, parseRunsFrom]
    unfold pairAt at hsome
    dsimp only at hsome ⊢
    split at hsome
    · cases hsome
    next hgo =>
    cases hsome
    rw [dif_pos (by omega), if_neg (by omega), runOffset_eq_assert _ (by omega), bind_assoc,
      decodePairs]
    generalize hpair : DiskPair.mk _ _ _ = pair
    have hjump : signedValue ((attrData.getD off 0).toNat / 16) (leAt attrData
        (off + 1 + (attrData.getD off 0).toNat % 16) ((attrData.getD off 0).toNat / 16)) =
        pair.jump := by rw [← hpair]
    have hlength : leAt attrData (off + 1) ((attrData.getD off 0).toNat % 16) = pair.length := by
      rw [← hpair]
    rw [hjump, hlength]
    by_cases hwide : pair.Wide
    · rw [Outcome.assert_not (not_not_intro hwide)]
      rfl
    rw [Outcome.assert_of hwide]
    simp only [Outcome.ok_bind, Outcome.pure_eq_ok]
    by_cases hin : IsCluster (prev + pair.jump)
    · have hnat : ((prev + pair.jump).toNat : Int) = prev + pair.jump := Int.toNat_of_nonneg hin.1
      rw [Outcome.ensure_of hin.2, Outcome.ok_bind, Outcome.ensure_of hin.1, Outcome.ok_bind,
        Outcome.ensure_of hin, Outcome.ok_bind, ih, hnat]
    · rw [Outcome.ensure, Outcome.ensure, Outcome.ensure, if_neg hin]
      by_cases hlt : (prev : Int) + pair.jump < 2 ^ 63
      · rw [if_pos hlt, if_neg fun h ↦ hin ⟨h, hlt⟩]
        rfl
      · rw [if_neg hlt]
        rfl

/-- The header is refused. -/
def RunsRefused (attrData : List UInt8) : Prop :=
  attrData.length < 64 ∨ attrData.getD 8 0 ≠ 1 ∨ leAt attrData 32 2 ≠ 0 ∧
    (leAt attrData 32 2 < 64 ∨ attrData.length ≤ leAt attrData 32 2)

instance (attrData : List UInt8) : Decidable (RunsRefused attrData) :=
  inferInstanceAs (Decidable (_ ∨ _))

/-- Behind a header that is not refused the decoder adds up the pairs of the attribute. -/
theorem parseDataRuns_eq (attrData : List UInt8) :
    parseDataRuns attrData =
      if RunsRefused attrData then .err .invalidAttribute
      else decodePairs 0 (diskPairs attrData) := by
  unfold parseDataRuns
  dsimp only
  by_cases hrefused : RunsRefused attrData
  · rw [if_pos hrefused]
    by_cases hlong : 64 ≤ attrData.length
    swap
    · rw [Outcome.ensure_not hlong]
      rfl
    rw [Outcome.ensure_of hlong, Outcome.ok_bind]
    by_cases hflag : attrData.getD 8 0 = 1
    swap
    · rw [Outcome.ensure_not hflag]
      rfl
    obtain hshort | hother | ⟨hzero, hplace⟩ := hrefused
    · omega
    · exact absurd hflag hother
    rw [Outcome.ensure_of hflag, Outcome.ok_bind, if_neg hzero, Outcome.ensure_not (by omega)]
    rfl
  · rw [if_neg hrefused]
    obtain ⟨hlong, hother⟩ := not_or.mp hrefused
    obtain ⟨hflag, hplace⟩ := not_or.mp hother
    rw [Outcome.ensure_of (by omega), Outcome.ok_bind, Outcome.ensure_of (not_not.mp hflag),
      Outcome.ok_bind, diskPairs]
    by_cases hzero : leAt attrData 32 2 = 0
    · rw [if_pos hzero, if_neg fun h ↦ by have := h.behind; omega]
      rfl
    rw [if_neg hzero, Outcome.ensure_of (by omega), Outcome.ok_bind]
    by_cases hnone : leAt attrData 40 8 = 0
    · rw [if_pos hnone, if_neg fun h ↦ h.allocated hnone]
      rfl
    · rw [if_neg hnone, if_pos ⟨by omega, not_not.mp hflag, by omega, by omega, hnone⟩]
      exact parseRunsFrom_eq attrData _ 0

end SmallOs.Ntfs
