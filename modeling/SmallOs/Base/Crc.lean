import Mathlib.Algebra.Group.Int.Defs
import Mathlib.Algebra.GroupWithZero.Nat
import Mathlib.Data.List.Infix

/-!
# Cyclic redundancy checks

A reflected register of any width over any polynomial. The message goes in one bit
after the other, low bits first; `feedBits_bits` turns `k` message bits into `k` plain
shifts, and `shifts_split` replaces the shifts of the low bits by one table entry.
-/

namespace SmallOs.Base.Crc

section Register

variable {w : Nat} (poly : BitVec w)

/-- One step of the register without a message bit. -/
def shift (reg : BitVec w) : BitVec w :=
  if reg.getLsbD 0 then (reg >>> 1) ^^^ poly else reg >>> 1

/-- One step of the register that takes in a message bit. -/
def feed (reg : BitVec w) (bit : Bool) : BitVec w :=
  if reg.getLsbD 0 ^^ bit then (reg >>> 1) ^^^ poly else reg >>> 1

/-- The register after the message bits, the first bit first. -/
def feedBits (reg : BitVec w) (bits : List Bool) : BitVec w := bits.foldl (feed poly) reg

/-- `n` steps without a message bit. -/
def shifts : Nat → BitVec w → BitVec w
  | 0, reg => reg
  | n + 1, reg => shift poly (shifts n reg)

@[simp] theorem shifts_zero (reg : BitVec w) : shifts poly 0 reg = reg := rfl

theorem shifts_succ (n : Nat) (reg : BitVec w) :
    shifts poly (n + 1) reg = shift poly (shifts poly n reg) := rfl

@[simp] theorem feedBits_nil (reg : BitVec w) : feedBits poly reg [] = reg := rfl

theorem feedBits_append (reg : BitVec w) (bits more : List Bool) :
    feedBits poly reg (bits ++ more) = feedBits poly (feedBits poly reg bits) more :=
  List.foldl_append

/-- The low `k` bits of a word, low bits first. -/
def bits (k : Nat) (word : BitVec w) : List Bool := (List.range k).map word.getLsbD

theorem bits_succ (k : Nat) (word : BitVec w) :
    bits (k + 1) word = bits k word ++ [word.getLsbD k] := by
  simp [bits, List.range_succ]

/-- A word added to the register is its lowest bit fed in and the rest of it moved down. -/
theorem shift_xor (reg word : BitVec w) :
    shift poly (reg ^^^ word) = feed poly reg (word.getLsbD 0) ^^^ (word >>> 1) := by
  simp only [shift, feed, BitVec.getLsbD_xor, BitVec.ushiftRight_xor_distrib]
  split
  · ac_rfl
  · rfl

/-- After `k` steps the low `k` bits of the word are fed in, the rest waits at the bottom. -/
theorem shifts_xor (k : Nat) (reg word : BitVec w) :
    shifts poly k (reg ^^^ word) = feedBits poly reg (bits k word) ^^^ (word >>> k) := by
  induction k with
  | zero => simp [bits]
  | succ k ih =>
    have hbit : (word >>> k).getLsbD 0 = word.getLsbD k := by simp
    calc shifts poly (k + 1) (reg ^^^ word)
        = shift poly (feedBits poly reg (bits k word) ^^^ (word >>> k)) := by
          rw [shifts_succ, ih]
      _ = feed poly (feedBits poly reg (bits k word)) (word.getLsbD k)
            ^^^ (word >>> k) >>> 1 := by rw [shift_xor, hbit]
      _ = feedBits poly reg (bits (k + 1) word) ^^^ (word >>> (k + 1)) := by
          rw [bits_succ, feedBits_append, BitVec.shiftRight_add]
          rfl

/-- A message word of `k` bits goes in as `k` plain steps of the register it is added to. -/
theorem feedBits_bits {k : Nat} {word : BitVec w} (h : word >>> k = 0#w) (reg : BitVec w) :
    feedBits poly reg (bits k word) = shifts poly k (reg ^^^ word) := by
  rw [shifts_xor, h, BitVec.xor_zero]

/-- `k` steps of a word are those of its low `k` bits, a table entry, and the rest of it
moved down `k` places. -/
theorem shifts_split {k : Nat} {word low : BitVec w} (hbits : bits k low = bits k word)
    (hlow : low >>> k = 0#w) : shifts poly k word = shifts poly k low ^^^ (word >>> k) := by
  have hw := shifts_xor poly k 0#w word
  have hl := shifts_xor poly k 0#w low
  rw [BitVec.zero_xor] at hw hl
  rw [hw, hl, hbits, hlow, BitVec.xor_zero]

end Register

section Injective

variable {w : Nat} {poly : BitVec w}

/-- The top bit of a step says whether the polynomial went in. -/
theorem getLsbD_feed (hpoly : poly.getLsbD (w - 1) = true) (reg : BitVec w) (bit : Bool) :
    (feed poly reg bit).getLsbD (w - 1) = (reg.getLsbD 0 ^^ bit) := by
  have hshift : (reg >>> 1).getLsbD (w - 1) = false := by
    rw [BitVec.getLsbD_ushiftRight]
    exact BitVec.getLsbD_of_ge reg _ (by omega)
  rw [feed]
  split
  · next hin => rw [BitVec.getLsbD_xor, hshift, hpoly, hin, Bool.false_xor]
  · next hin => rw [hshift, Bool.eq_false_iff.mpr hin]

/-- Registers that differ still differ behind a message bit. -/
theorem feed_injective (hpoly : poly.getLsbD (w - 1) = true) {reg reg' : BitVec w} {bit : Bool}
    (h : feed poly reg bit = feed poly reg' bit) : reg = reg' := by
  have hin : (reg.getLsbD 0 ^^ bit) = (reg'.getLsbD 0 ^^ bit) := by
    rw [← getLsbD_feed hpoly, ← getLsbD_feed hpoly, h]
  have hshift : reg >>> 1 = reg' >>> 1 := by
    rw [feed, feed, hin] at h
    split at h
    · exact BitVec.xor_left_inj _ |>.mp h
    · exact h
  apply BitVec.eq_of_getLsbD_eq
  intro i hi
  cases i with
  | zero => exact Bool.xor_left_inj.mp hin
  | succ i =>
    have hbit := congrArg (·.getLsbD i) hshift
    simpa only [BitVec.getLsbD_ushiftRight, Nat.add_comm 1 i] using hbit

theorem feedBits_injective (hpoly : poly.getLsbD (w - 1) = true) {reg reg' : BitVec w}
    {bits : List Bool} (h : feedBits poly reg bits = feedBits poly reg' bits) : reg = reg' := by
  induction bits generalizing reg reg' with
  | nil => exact h
  | cons bit bits ih => exact feed_injective hpoly (ih h)

end Injective

end SmallOs.Base.Crc
