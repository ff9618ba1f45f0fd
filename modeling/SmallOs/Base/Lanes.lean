import Mathlib.Data.Nat.Init

/-!
# Lanes of a word

Some consecutive bits of a word, read by a shift and written under a mask: reading what was written,
reading beside it, and lanes put together.
-/

namespace SmallOs.Base

variable {n m k s t : Nat} {w : BitVec n} {v : BitVec m}

/-- The `m` bits from bit `s` on. -/
def lane (m : Nat) (w : BitVec n) (s : Nat) : BitVec m := (w >>> s).setWidth m

/-- The word with the bits from bit `s` on replaced. -/
def putLane (w : BitVec n) (s : Nat) (v : BitVec m) : BitVec n :=
  (w &&& ~~~((BitVec.allOnes m).setWidth n <<< s)) ||| (v.setWidth n <<< s)

theorem getLsbD_lane (w : BitVec n) (s i : Nat) :
    (lane m w s).getLsbD i = (decide (i < m) && w.getLsbD (s + i)) := by
  simp [lane]

/-- Bit by bit, the lane is replaced and all else is kept. -/
theorem getLsbD_putLane (w : BitVec n) (v : BitVec m) {s i : Nat} (hs : s + m ≤ n) :
    (putLane w s v).getLsbD i =
      if s ≤ i ∧ i < s + m then v.getLsbD (i - s) else w.getLsbD i := by
  by_cases hi : i < n
  · by_cases hlow : s ≤ i
    · have hnot : ¬ i < s := Nat.not_lt_of_le hlow
      by_cases hhigh : i < s + m
      · have hin : i - s < m := by omega
        simp [putLane, hi, hlow, hhigh, hin, hnot]
      · have hin : ¬ i - s < m := by omega
        simp [putLane, hi, hlow, hhigh, hin, BitVec.getLsbD_of_ge v _ (Nat.le_of_not_lt hin)]
    · simp [putLane, hi, hlow, Nat.lt_of_not_le hlow]
  · have hhigh : ¬ i < s + m := by omega
    simp [putLane, hhigh, BitVec.getLsbD_of_ge _ _ (Nat.le_of_not_lt hi)]

theorem lane_zero (w : BitVec n) : lane n w 0 = w := by
  simp [lane]

/-- A lane inside of what has been written. -/
theorem lane_putLane (hs : s + m ≤ n) (ht : t + k ≤ m) :
    lane k (putLane w s v) (s + t) = lane k v t := by
  apply BitVec.eq_of_getLsbD_eq
  intro i hi
  have hin : s ≤ s + t + i ∧ s + t + i < s + m := by omega
  have hsub : s + t + i - s = t + i := by omega
  rw [getLsbD_lane, getLsbD_putLane w v hs, if_pos hin, hsub, getLsbD_lane]

/-- What has been written is read back. -/
theorem lane_putLane_self (hs : s + m ≤ n) : lane m (putLane w s v) s = v := by
  have hread := @lane_putLane n m m s 0 w v hs (by omega)
  rwa [lane_zero] at hread

/-- A lane beside what has been written. -/
theorem lane_putLane_of_disjoint (hs : s + m ≤ n) (ht : t + k ≤ s ∨ s + m ≤ t) :
    lane k (putLane w s v) t = lane k w t := by
  apply BitVec.eq_of_getLsbD_eq
  intro i hi
  rw [getLsbD_lane, getLsbD_putLane w v hs, if_neg (by omega), getLsbD_lane]

/-- A lane is its lower and its upper part. -/
theorem lane_split (h : k ≤ m) : lane m w s =
    (lane k w s).setWidth m ||| (lane (m - k) w (s + k)).setWidth m <<< k := by
  apply BitVec.eq_of_getLsbD_eq
  intro i hi
  rw [BitVec.getLsbD_or, BitVec.getLsbD_setWidth, BitVec.getLsbD_shiftLeft,
    BitVec.getLsbD_setWidth, getLsbD_lane, getLsbD_lane, getLsbD_lane]
  by_cases hlow : i < k
  · simp [hi, hlow]
  · have hin : i - k < m - k := by omega
    have hpart : i - k < m := by omega
    have hsum : s + k + (i - k) = s + i := by omega
    simp [hi, hlow, hin, hpart, hsum]

/-- A word is its four bytes, the lowest one first. -/
theorem bytes_join (w : BitVec 32) : (lane 8 w 0).setWidth 32 ||| (lane 8 w 8).setWidth 32 <<< 8 |||
    (lane 8 w 16).setWidth 32 <<< 16 ||| (lane 8 w 24).setWidth 32 <<< 24 = w := by
  apply BitVec.eq_of_getLsbD_eq
  intro i hi
  simp only [BitVec.getLsbD_or, BitVec.getLsbD_shiftLeft, BitVec.getLsbD_setWidth, getLsbD_lane]
  rcases (by omega : i < 8 ∨ (8 ≤ i ∧ i < 16) ∨ (16 ≤ i ∧ i < 24) ∨ 24 ≤ i) with h | h | h | h
  · have h16 : i < 16 := by omega
    have h24 : i < 24 := by omega
    simp [hi, h, h16, h24]
  · have hlow : ¬ i < 8 := by omega
    have hpart : i - 8 < 8 := by omega
    have hsub : i - 8 < 32 := by omega
    have hsum : 8 + (i - 8) = i := by omega
    have h24 : i < 24 := by omega
    simp [hi, h.2, hlow, hpart, hsub, hsum, h24]
  · have hlow : ¬ i < 8 := by omega
    have hmid : ¬ i < 16 := by omega
    have hnot : ¬ i - 8 < 8 := by omega
    have hpart : i - 16 < 8 := by omega
    have hsub : i - 16 < 32 := by omega
    have hsum : 16 + (i - 16) = i := by omega
    simp [hi, h.2, hlow, hmid, hnot, hpart, hsub, hsum]
  · have hlow : ¬ i < 8 := by omega
    have hmid : ¬ i < 16 := by omega
    have hhigh : ¬ i < 24 := by omega
    have hnot : ¬ i - 8 < 8 := by omega
    have hnot' : ¬ i - 16 < 8 := by omega
    have hpart : i - 24 < 8 := by omega
    have hsub : i - 24 < 32 := by omega
    have hsum : 24 + (i - 24) = i := by omega
    simp [hi, hlow, hmid, hhigh, hnot, hnot', hpart, hsub, hsum]

end SmallOs.Base
