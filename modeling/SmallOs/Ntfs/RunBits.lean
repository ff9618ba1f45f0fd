import SmallOs.Ntfs.RunList

/-!
# The run list decoder, bit by bit

`parse_data_runs` of `lib/vfs/src/fs/ntfs/runs.rs` over words of 64 bits, with every index and every
shift amount checked. It computes what `parseDataRuns` says; its one way to panic is a jump of eight
bytes with the sign bit, whose mask is a shift by the width of the word.
-/

namespace SmallOs.Ntfs

open SmallOs.Base

namespace RunBits

/-- An index into the attribute; one out of range is a panic. -/
def byteAt (b : List UInt8) (i : Nat) : Outcome NtfsError UInt8 := do
  Outcome.assert (i < b.length)
  return b.getD i 0

/-- `<<` of a 64-bit word; an amount of 64 or more is a panic. -/
def shl (x : BitVec 64) (n : Nat) : Outcome NtfsError (BitVec 64) := do
  Outcome.assert (n < 64)
  return x <<< n

/-- `checked_add` of `i64`. -/
def checkedAdd (x y : BitVec 64) : Option (BitVec 64) :=
  if BitVec.saddOverflow x y then none else some (x + y)

/-- The bytes of a field, put together from the lowest on;
`lib/vfs/src/fs/ntfs/runs.rs:64–67,70–73`. -/
def orBytes (attrData : List UInt8) (off size : Nat) : Outcome NtfsError (BitVec 64) :=
  (List.range size).foldlM (fun word i ↦ do
    let byte ← byteAt attrData (off + i)
    let shifted ← shl (BitVec.ofNat 64 byte.toNat) (i * 8)
    return word ||| shifted) 0

/-- `lib/vfs/src/fs/ntfs/runs.rs:75–80`; the mask is a difference of `i64`. -/
def extendSign (attrData : List UInt8) (off size : Nat) (word : BitVec 64) :
    Outcome NtfsError (BitVec 64) :=
  if 0 < size then do
    let top ← byteAt attrData (off + size - 1)
    if top &&& 0x80 ≠ 0 then
      let bit ← shl 1#64 (size * 8)
      Outcome.assert (bit ≠ BitVec.intMin 64)
      return word ||| ~~~(bit - 1#64)
    else return word
  else pure word

/-- The loop; `lib/vfs/src/fs/ntfs/runs.rs:43–94`. -/
def parseRunsFrom (attrData : List UInt8) (currentOffset : Nat) (prevCluster : BitVec 64) :
    Outcome NtfsError (List (Nat × Nat)) :=
  if _hlt : currentOffset < attrData.length then do
    let header ← byteAt attrData currentOffset
    if header = 0 then return []
    let lenSize := (header &&& 0x0F).toNat
    let offsetSize := ((header >>> 4) &&& 0x0F).toNat
    if lenSize = 0 ∨ 8 < lenSize ∨ 8 < offsetSize then return []
    if attrData.length < currentOffset + 1 + lenSize + offsetSize then return []
    let length ← orBytes attrData (currentOffset + 1) lenSize
    let word ← orBytes attrData (currentOffset + 1 + lenSize) offsetSize
    let runOffsetSigned ← extendSign attrData (currentOffset + 1 + lenSize) offsetSize word
    let absoluteCluster ←
      Outcome.ofOption .corruptedFilesystem (checkedAdd prevCluster runOffsetSigned)
    Outcome.ensure (0 ≤ absoluteCluster.toInt) .corruptedFilesystem
    let runs ← parseRunsFrom attrData (currentOffset + 1 + lenSize + offsetSize) absoluteCluster
    return (absoluteCluster.toNat, length.toNat) :: runs
  else pure []
termination_by attrData.length - currentOffset

/-- `lib/vfs/src/fs/ntfs/runs.rs:12–97`. -/
def parseDataRuns (attrData : List UInt8) : Outcome NtfsError (List (Nat × Nat)) := do
  if attrData.length < 64 then Outcome.err .invalidAttribute
  let flag ← byteAt attrData 8
  if flag ≠ 1 then Outcome.err .invalidAttribute
  let runOffset ← uintAt attrData 32 2
  if runOffset = 0 then return []
  if runOffset < 64 ∨ attrData.length ≤ runOffset then Outcome.err .invalidAttribute
  let allocatedSize ← uintAt attrData 40 8
  if allocatedSize = 0 then return []
  parseRunsFrom attrData runOffset 0

/-! ### Fields -/

theorem byteAt_of {b : List UInt8} {i : Nat} (h : i < b.length) :
    byteAt b i = .ok (b.getD i 0) := by
  rw [byteAt, Outcome.assert_of h]
  rfl

theorem shl_of (x : BitVec 64) {n : Nat} (h : n < 64) : shl x n = .ok (x <<< n) := by
  rw [shl, Outcome.assert_of h]
  rfl

/-- A field of at most eight bytes is put together without a panic. -/
theorem orBytes_eq (attrData : List UInt8) (off : Nat) {size : Nat} (hsize : size ≤ 8)
    (hfit : off + size ≤ attrData.length) :
    ∃ word, orBytes attrData off size = .ok word ∧ word.toNat = leAt attrData off size := by
  unfold orBytes
  induction size with
  | zero => exact ⟨0, rfl, rfl⟩
  | succ size ih =>
    obtain ⟨word, hword, hvalue⟩ := ih (by omega) (by omega)
    have hlt := leAt_lt attrData off size
    rw [List.range_succ, List.foldlM_append, hword, Outcome.ok_bind, List.foldlM_cons,
      byteAt_of (by omega), Outcome.ok_bind, shl_of _ (by omega)]
    refine ⟨_, rfl, ?_⟩
    rw [toNat_or_shiftLeft (UInt8.toNat_lt _) (by omega) (by rw [hvalue]; exact hlt), hvalue,
      leAt_succ]

/-- The sign bit of a byte. -/
theorem and_signBit_ne_zero (b : UInt8) : b &&& 0x80 ≠ 0 ↔ 128 ≤ b.toNat := by
  have hall : ∀ n < 256, n &&& 128 = n / 128 * 128 := by decide +kernel
  have hand : (b &&& 0x80).toNat = b.toNat / 128 * 128 := by
    rw [UInt8.toNat_and]
    exact hall _ b.toNat_lt
  have hlt := b.toNat_lt
  rw [Ne, ← UInt8.toNat_inj, hand]
  change ¬ b.toNat / 128 * 128 = 0 ↔ _
  omega

theorem one_shiftLeft_ne_intMin {n : Nat} (h : n < 63) : 1#64 <<< n ≠ BitVec.intMin 64 := by
  intro heq
  have hnat := congrArg BitVec.toNat heq
  have hlt : 2 ^ n < 2 ^ 63 := Nat.pow_lt_pow_right (by decide) h
  rw [BitVec.toNat_shiftLeft, Nat.shiftLeft_eq, BitVec.toNat_ofNat, Nat.one_mod_two_pow (by decide),
    Nat.one_mul, Nat.mod_eq_of_lt (by omega)] at hnat
  change 2 ^ n = 2 ^ 63 at hnat
  omega

/-- A field with its sign bit set is extended by ones, unless it fills the word. -/
theorem extendSign_of_neg {attrData : List UInt8} {off size : Nat} (length : Nat) (hsize : size ≤ 8)
    (hfit : off + size ≤ attrData.length) {word : BitVec 64}
    (hword : word.toNat = leAt attrData off size)
    (hneg : 0 < size ∧ 2 ^ (8 * size - 1) ≤ leAt attrData off size) :
    ∃ jump : BitVec 64, jump.toInt = signedValue size (leAt attrData off size) ∧
      extendSign attrData off size word =
        Outcome.assert
          (¬ DiskPair.Wide ⟨length, size, signedValue size (leAt attrData off size)⟩) >>=
          fun _ ↦ pure jump := by
  have hraw := leAt_lt attrData off size
  have hpow : (256 : Nat) ^ size = 2 ^ (8 * size) := by rw [Nat.pow_mul]
  have hvalue : signedValue size (leAt attrData off size) =
      (leAt attrData off size : Int) - 2 ^ (8 * size) := by rw [signedValue, if_pos hneg]
  have htop : attrData.getD (off + size - 1) 0 &&& 0x80 ≠ 0 :=
    (and_signBit_ne_zero _).mpr ((half_le_leAt_iff attrData off hneg.1).mp hneg.2)
  rw [extendSign, if_pos hneg.1, byteAt_of (by omega), Outcome.ok_bind, if_pos htop]
  by_cases hlt : size < 8
  · have hwide : ¬ DiskPair.Wide ⟨length, size, signedValue size (leAt attrData off size)⟩ :=
      fun hwide ↦ absurd hwide.1 (Nat.ne_of_lt hlt)
    refine ⟨word ||| ~~~(1#64 <<< (8 * size) - 1#64), ?_, ?_⟩
    · rw [toInt_or_not_mask (by rw [hword, ← hpow]; exact hraw) (by omega), hword, hvalue]
    · have hbit : 1#64 <<< (size * 8) ≠ BitVec.intMin 64 := one_shiftLeft_ne_intMin (by omega)
      rw [Outcome.assert_of hwide, shl_of _ (by omega), Outcome.ok_bind, Outcome.assert_of hbit,
        Nat.mul_comm size]
  · obtain rfl : size = 8 := by omega
    have hwide : DiskPair.Wide ⟨length, 8, signedValue 8 (leAt attrData off 8)⟩ := by
      refine ⟨rfl, ?_⟩
      dsimp only
      omega
    refine ⟨BitVec.ofInt 64 (signedValue 8 (leAt attrData off 8)), ?_, ?_⟩
    · rw [BitVec.toInt_ofInt_eq_self (by decide)] <;> (rw [hvalue]; omega)
    · rw [shl, Outcome.assert_not (by decide), Outcome.assert_not (not_not_intro hwide)]
      rfl

/-- Any other field is its own value. -/
theorem extendSign_of_nonneg {attrData : List UInt8} {off size : Nat} (hsize : size ≤ 8)
    (hfit : off + size ≤ attrData.length) {word : BitVec 64}
    (hword : word.toNat = leAt attrData off size)
    (hneg : ¬ (0 < size ∧ 2 ^ (8 * size - 1) ≤ leAt attrData off size)) :
    word.toInt = leAt attrData off size ∧ extendSign attrData off size word = .ok word := by
  have hraw := leAt_lt attrData off size
  constructor
  · rw [← hword]
    apply BitVec.toInt_eq_toNat_of_lt
    rw [hword]
    by_cases hzero : 0 < size
    · have hhalf : 2 ^ (8 * size - 1) ≤ 2 ^ 63 := Nat.pow_le_pow_right (by decide) (by omega)
      omega
    · obtain rfl : size = 0 := by omega
      rw [Nat.pow_zero] at hraw
      omega
  · rw [extendSign]
    by_cases hzero : 0 < size
    · have htop : ¬ attrData.getD (off + size - 1) 0 &&& 0x80 ≠ 0 := fun h ↦
        hneg ⟨hzero, (half_le_leAt_iff attrData off hzero).mpr ((and_signBit_ne_zero _).mp h)⟩
      rw [if_pos hzero, byteAt_of (by omega), Outcome.ok_bind, if_neg htop]
      rfl
    · rw [if_neg hzero]
      rfl

/-- A jump is read with its sign, unless it is wide. -/
theorem extendSign_eq {attrData : List UInt8} {off size : Nat} (length : Nat) (hsize : size ≤ 8)
    (hfit : off + size ≤ attrData.length) {word : BitVec 64}
    (hword : word.toNat = leAt attrData off size) :
    ∃ jump : BitVec 64, jump.toInt = signedValue size (leAt attrData off size) ∧
      extendSign attrData off size word =
        Outcome.assert
          (¬ DiskPair.Wide ⟨length, size, signedValue size (leAt attrData off size)⟩) >>=
          fun _ ↦ pure jump := by
  by_cases hneg : 0 < size ∧ 2 ^ (8 * size - 1) ≤ leAt attrData off size
  · exact extendSign_of_neg length hsize hfit hword hneg
  · obtain ⟨hint, hextend⟩ := extendSign_of_nonneg hsize hfit hword hneg
    have hvalue : signedValue size (leAt attrData off size) = leAt attrData off size := by
      rw [signedValue, if_neg hneg]
    have hwide : ¬ DiskPair.Wide ⟨length, size, signedValue size (leAt attrData off size)⟩ := by
      rw [hvalue]
      exact fun hwide ↦ absurd hwide.2 (Int.not_lt.mpr (Int.natCast_nonneg _))
    refine ⟨word, hint.trans hvalue.symm, ?_⟩
    rw [Outcome.assert_of hwide, hextend]
    rfl

/-- A sum of words is the sum of their numbers, where it is not refused. -/
theorem checkedAdd_eq (x y : BitVec 64) :
    (∃ z, checkedAdd x y = some z ∧ z.toInt = x.toInt + y.toInt) ∨
      checkedAdd x y = none ∧ ¬ IsCluster (x.toInt + y.toInt) := by
  by_cases hover : BitVec.saddOverflow x y
  · right
    rw [checkedAdd, if_pos hover]
    refine ⟨rfl, ?_⟩
    rintro ⟨hlow, hhigh⟩
    rw [BitVec.saddOverflow, Bool.or_eq_true, decide_eq_true_iff, decide_eq_true_iff] at hover
    omega
  · left
    rw [checkedAdd, if_neg hover]
    exact ⟨_, rfl, BitVec.toInt_add_of_not_saddOverflow hover⟩

/-- The decoder goes on from a sum that is the number of a cluster, and refuses any other. -/
theorem addJump_eq {α : Type} (prev jump : BitVec 64) {f : BitVec 64 → Outcome NtfsError α}
    {rest : Outcome NtfsError α}
    (h : ∀ sum, sum.toInt = prev.toInt + jump.toInt → IsCluster sum.toInt → f sum = rest) :
    (Outcome.ofOption .corruptedFilesystem (checkedAdd prev jump) >>= fun sum ↦
        Outcome.ensure (0 ≤ sum.toInt) .corruptedFilesystem >>= fun _ ↦ f sum) =
      Outcome.ensure (IsCluster (prev.toInt + jump.toInt)) .corruptedFilesystem >>= fun _ ↦
        rest := by
  rcases checkedAdd_eq prev jump with ⟨sum, hsum, hvalue⟩ | ⟨hnone, hout⟩
  · rw [hsum, Outcome.ofOption, Outcome.ok_bind, ← hvalue]
    by_cases hnonneg : 0 ≤ sum.toInt
    · have hcluster : IsCluster sum.toInt := ⟨hnonneg, BitVec.toInt_lt⟩
      rw [Outcome.ensure_of hnonneg, Outcome.ensure_of hcluster, Outcome.ok_bind, Outcome.ok_bind,
        h sum hvalue hcluster]
    · rw [Outcome.ensure_not hnonneg, Outcome.ensure_not fun h ↦ hnonneg h.1]
      rfl
  · rw [hnone, Outcome.ensure_not hout]
    rfl

/-- The two halves of a header byte. -/
theorem nibbles (header : UInt8) :
    (header &&& 0x0F).toNat = header.toNat % 16 ∧
      ((header >>> 4) &&& 0x0F).toNat = header.toNat / 16 := by
  have hall : ∀ n < 256, n &&& 15 = n % 16 ∧ n >>> 4 &&& 15 = n / 16 := by decide +kernel
  rw [UInt8.toNat_and, UInt8.toNat_and, UInt8.toNat_shiftRight]
  exact hall _ header.toNat_lt

theorem parseRunsFrom_eq (attrData : List UInt8) (off : Nat) (prev : BitVec 64) :
    parseRunsFrom attrData off prev = decodePairs prev.toInt (pairsFrom attrData off) := by
  induction off using pairsFrom.induct attrData generalizing prev with
  | case1 off hnone =>
    rw [pairsFrom, hnone, parseRunsFrom]
    unfold pairAt at hnone
    dsimp only at hnone ⊢
    split at hnone
    · next hstop =>
      split
      · next hlt =>
        rw [byteAt_of hlt, Outcome.ok_bind, (nibbles _).1, (nibbles _).2]
        split
        · rfl
        by_cases hwidths : (attrData.getD off 0).toNat % 16 = 0 ∨
            8 < (attrData.getD off 0).toNat % 16 ∨ 8 < (attrData.getD off 0).toNat / 16
        · rw [if_pos hwidths]
          rfl
        · rw [if_neg hwidths, if_pos (by omega)]
          rfl
      · rfl
    · cases hnone
  | case2 off pair next hsome ih =>
    rw [pairsFrom, hsome, parseRunsFrom]
    unfold pairAt at hsome
    dsimp only at hsome ⊢
    split at hsome
    · cases hsome
    next hgo =>
    cases hsome
    have hheader : attrData.getD off 0 ≠ 0 := by
      intro hzero
      rw [hzero] at hgo
      exact hgo (.inr (.inl rfl))
    rw [dif_pos (by omega), byteAt_of (by omega), Outcome.ok_bind, if_neg hheader, (nibbles _).1,
      (nibbles _).2, if_neg (by omega), if_neg (by omega)]
    have hlenSize : (attrData.getD off 0).toNat % 16 ≤ 8 := by omega
    have hoffsetSize : (attrData.getD off 0).toNat / 16 ≤ 8 := by omega
    obtain ⟨length, hlength, hlengthValue⟩ := orBytes_eq attrData (off + 1) hlenSize (by omega)
    obtain ⟨word, hword, hwordValue⟩ := orBytes_eq attrData
      (off + 1 + (attrData.getD off 0).toNat % 16) hoffsetSize (by omega)
    obtain ⟨jump, hjump, hextend⟩ := extendSign_eq
      (leAt attrData (off + 1) ((attrData.getD off 0).toNat % 16)) (by omega) (by omega) hwordValue
    rw [hlength, Outcome.ok_bind, hword, Outcome.ok_bind, hextend, hlengthValue, bind_assoc,
      decodePairs]
    generalize hpair : DiskPair.mk _ _ _ = pair at *
    have hjumpPair : signedValue ((attrData.getD off 0).toNat / 16) (leAt attrData
        (off + 1 + (attrData.getD off 0).toNat % 16) ((attrData.getD off 0).toNat / 16)) =
        pair.jump := by rw [← hpair]
    have hlengthPair : leAt attrData (off + 1) ((attrData.getD off 0).toNat % 16) =
        pair.length := by
      rw [← hpair]
    rw [hlengthPair]
    rw [hjumpPair] at hjump
    by_cases hwide : pair.Wide
    · rw [Outcome.assert_not (not_not_intro hwide)]
      rfl
    rw [Outcome.assert_of hwide, Outcome.ok_bind, Outcome.pure_eq_ok, Outcome.ok_bind,
      Outcome.ok_bind]
    rw [← hjump]
    apply addJump_eq prev jump
    intro sum hvalue hcluster
    have hnat : sum.toInt.toNat = sum.toNat := by
      obtain ⟨hnonneg, -⟩ := hcluster
      have hlt := sum.isLt
      rw [BitVec.toInt_eq_toNat_cond] at hnonneg ⊢
      omega
    rw [ih, ← hvalue, hnat]

/-- The word-level decoder computes what `parseDataRuns` computes. -/
theorem parseDataRuns_eq (attrData : List UInt8) :
    parseDataRuns attrData = Ntfs.parseDataRuns attrData := by
  rw [parseDataRuns, Ntfs.parseDataRuns]
  by_cases hlong : attrData.length < 64
  · rw [if_pos hlong, Outcome.ensure_not (by omega)]
    rfl
  rw [if_neg hlong, Outcome.ensure_of (by omega), Outcome.ok_bind, byteAt_of (by omega),
    Outcome.ok_bind]
  by_cases hflag : attrData.getD 8 0 = 1
  swap
  · rw [if_pos hflag, Outcome.ensure_not hflag]
    rfl
  rw [if_neg (not_not_intro hflag), Outcome.ensure_of hflag, Outcome.ok_bind,
    uintAt_of (by omega), Outcome.ok_bind]
  dsimp only
  by_cases hzero : leAt attrData 32 2 = 0
  · rw [if_pos hzero, if_pos hzero]
  rw [if_neg hzero, if_neg hzero]
  by_cases hplace : leAt attrData 32 2 < 64 ∨ attrData.length ≤ leAt attrData 32 2
  · rw [if_pos hplace, Outcome.ensure_not (by omega)]
    rfl
  rw [if_neg hplace, Outcome.ensure_of (by omega), Outcome.ok_bind, uintAt_of (by omega),
    Outcome.ok_bind, parseRunsFrom_eq, Ntfs.parseRunsFrom_eq]
  rfl

end RunBits

/-! ### What the decoder accepts -/

/-- How far every run lies from the one in front of it. -/
def jumps (prev : Int) : List (Nat × Nat) → List Int
  | [] => []
  | run :: runs => (run.1 - prev) :: jumps run.1 runs

/-- On the accepted positions the jumps are those of the fields. -/
theorem jumps_runsAt {prev : Int} {pairs : List DiskPair} (h : StaysOn prev pairs) :
    jumps prev (runsAt prev pairs) = pairs.map (·.jump) := by
  induction pairs generalizing prev with
  | nil => rfl
  | cons pair pairs ih =>
    obtain ⟨hin, hrest⟩ := staysOn_cons.mp h
    have hnat : ((prev + pair.jump).toNat : Int) = prev + pair.jump := Int.toNat_of_nonneg hin.1
    have hjump : prev + pair.jump - prev = pair.jump := by omega
    rw [runsAt, jumps, hnat, ih hrest, hjump, List.map_cons]

/-- The decoder returns, and the jumps of what it accepts are the fields' signed values. -/
structure RunListTotal (attrData : List UInt8) : Prop where
  returns : RunBits.parseDataRuns attrData ≠ .panic
  jumps : ∀ runs, RunBits.parseDataRuns attrData = .ok runs →
    jumps 0 runs = (diskPairs attrData).map (·.jump)

/-- The decoder is total on the run lists in which it comes to no negative jump of eight bytes. -/
theorem runListTotal_iff (attrData : List UInt8) :
    RunListTotal attrData ↔ ¬ ReachesWide 0 (diskPairs attrData) := by
  have hdecode := (RunBits.parseDataRuns_eq attrData).trans (parseDataRuns_eq attrData)
  by_cases hrefused : RunsRefused attrData
  · rw [if_pos hrefused] at hdecode
    have hnone : diskPairs attrData = [] := by
      rw [diskPairs, if_neg]
      rintro ⟨hlong, hflag, hbehind, hinside, -⟩
      obtain hshort | hother | ⟨-, hplace⟩ := hrefused
      · omega
      · exact hother hflag
      · omega
    rw [hnone]
    refine iff_of_true ⟨?_, ?_⟩ ?_
    · rw [hdecode]
      intro hpanic
      cases hpanic
    · intro runs hruns
      rw [hdecode] at hruns
      cases hruns
    · rintro ⟨before, pair, after, h, -⟩
      exact absurd h nil_ne_append_cons
  · rw [if_neg hrefused] at hdecode
    constructor
    · intro h hwide
      exact h.returns (hdecode.trans (decodePairs_eq_panic.mpr hwide))
    · intro h
      refine ⟨?_, ?_⟩
      · rw [hdecode]
        exact fun hpanic ↦ h (decodePairs_eq_panic.mp hpanic)
      · intro runs hruns
        obtain ⟨-, hstays, rfl⟩ := decodePairs_eq_ok.mp (hdecode.symm.trans hruns)
        exact jumps_runsAt hstays

/-- Clusters from 300 on, and then clusters from 100 on; that distance is given in eight bytes. -/
def wideRunList : List UInt8 :=
  List.replicate 8 0 ++ [1] ++ List.replicate 23 0 ++ leBytes 2 64 ++ List.replicate 6 0 ++
    leBytes 8 4096 ++ List.replicate 16 0 ++ [0x21, 4] ++ leBytes 2 300 ++ [0x81, 2] ++
    leBytes 8 (2 ^ 64 - 200) ++ [0]

theorem wideRunList_panics : ¬ RunListTotal wideRunList :=
  fun h ↦ h.returns (by decide +kernel)

end SmallOs.Ntfs
