import SmallOs.Base.Outcome
import SmallOs.Base.Run

/-!
# The cursor of an open file

`impl Seek for NtfsFileImpl` of `lib/vfs/src/fs/ntfs/hal_impl.rs` and the trait of
`lib/hal/src/io/mod.rs`, beside the cursor that they stand for. The cast of a signed offset to an
unsigned one and the two additions are those of 64-bit words.
-/

namespace SmallOs.Ntfs

open SmallOs.Base

/-- `lib/hal/src/io/error.rs:1–13`. -/
inductive IoError where
  | unexpectedEof
  | invalidInput
  | invalidData
  | timedOut
  | interrupted
  | notFound
  | permissionDenied
  | outOfMemory
  | unsupported
  | other
  deriving DecidableEq, Repr

/-- `lib/hal/src/io/mod.rs:5–9`. -/
inductive SeekFrom where
  | start (n : UInt64)
  | current (n : Int64)
  | fromEnd (n : Int64)

/-- What the cursor of a file reads and changes; `lib/vfs/src/fs/ntfs/hal_impl.rs:50–56`. -/
structure NtfsFileImpl where
  offset : UInt64
  size : UInt64
  deriving DecidableEq, Repr

/-- `+` of two words; an overflow is a panic. -/
def addU64 (a b : UInt64) : Outcome IoError UInt64 := do
  Outcome.assert (a.toNat + b.toNat < 2 ^ 64)
  return a + b

/-- `u64::saturating_add`. -/
def saturatingAdd (a b : UInt64) : UInt64 :=
  if a.toNat + b.toNat < 2 ^ 64 then a + b else UInt64.ofNat (2 ^ 64 - 1)

namespace NtfsFileImpl

/-- `lib/vfs/src/fs/ntfs/hal_impl.rs:86–95`. -/
def seek (pos : SeekFrom) : Prog NtfsFileImpl IoError UInt64 := do
  let file ← Prog.get
  let offset ← match pos with
    | .start n => pure n
    | .current n => Prog.lift (addU64 file.offset n.toUInt64)
    | .fromEnd n => pure (saturatingAdd file.size n.toUInt64)
  Prog.set { file with offset }
  return offset

/-- `lib/hal/src/io/mod.rs:34`. -/
def streamPosition : Prog NtfsFileImpl IoError UInt64 := seek (.current 0)

end NtfsFileImpl

/-- A call of the trait. -/
inductive SeekCall where
  | seek (pos : SeekFrom)
  | streamPosition

/-- Carry out a call. -/
def NtfsFileImpl.serve (file : NtfsFileImpl) : SeekCall → Outcome IoError UInt64 × NtfsFileImpl
  | .seek pos => NtfsFileImpl.seek pos file
  | .streamPosition => NtfsFileImpl.streamPosition file

/-! ### The reference -/

/-- A position in a file of a size. -/
structure Cursor where
  pos : Nat
  size : Nat
  deriving DecidableEq, Repr

namespace Cursor

/-- Where a call leads to. -/
def target (cursor : Cursor) : SeekCall → Int
  | .seek (.start n) => n.toNat
  | .seek (.current n) => cursor.pos + n.toInt
  | .seek (.fromEnd n) => cursor.size + n.toInt
  | .streamPosition => cursor.pos

/-- A target that is a word is the new position; any other is refused. -/
def serve (cursor : Cursor) (call : SeekCall) : Option Nat × Cursor :=
  if 0 ≤ cursor.target call ∧ cursor.target call < 2 ^ 64 then
    (some (cursor.target call).toNat, { cursor with pos := (cursor.target call).toNat })
  else (none, cursor)

/-- The call does not go back, and not beyond the words. -/
def InRange (cursor : Cursor) : SeekCall → Prop
  | .seek (.current n) => 0 ≤ n.toInt ∧ cursor.pos + n.toInt < 2 ^ 64
  | .seek (.fromEnd n) => 0 ≤ n.toInt ∧ cursor.size + n.toInt < 2 ^ 64
  | _ => True

end Cursor

/-- The cursor of a file. -/
def NtfsFileImpl.cursor (file : NtfsFileImpl) : Cursor := ⟨file.offset.toNat, file.size.toNat⟩

/-- What a caller sees of a call: no answer after a panic, and no position with an error. -/
def answer : Outcome IoError UInt64 → Option (Option Nat)
  | .ok n => some (some n.toNat)
  | .err _ => some none
  | .panic => none

/-! ### One call -/

/-- A signed offset as an unsigned word. -/
theorem toNat_toUInt64 (n : Int64) :
    (n.toUInt64.toNat : Int) = if 0 ≤ n.toInt then n.toInt else n.toInt + 2 ^ 64 := by
  have hlt := n.toUInt64.toNat_lt
  have hint : n.toInt = n.toBitVec.toInt := rfl
  have hnat : n.toUInt64.toNat = n.toBitVec.toNat := rfl
  rw [hint, BitVec.toInt_eq_toNat_cond, ← hnat]
  split
  · rw [if_pos (by omega)]
  · rw [if_neg (by omega)]
    omega

/-- A sum of two words that is one. -/
theorem toNat_add_of_lt {a b : UInt64} (h : a.toNat + b.toNat < 2 ^ 64) :
    (a + b).toNat = a.toNat + b.toNat := by
  rw [UInt64.toNat_add, Nat.mod_eq_of_lt h]

theorem toNat_saturatingAdd (a b : UInt64) :
    (saturatingAdd a b).toNat = min (a.toNat + b.toNat) (2 ^ 64 - 1) := by
  rw [saturatingAdd]
  split
  · next h =>
    rw [toNat_add_of_lt h]
    omega
  · next h =>
    rw [UInt64.toNat_ofNat_of_lt' (by decide)]
    omega

namespace NtfsFileImpl

theorem serve_current (file : NtfsFileImpl) (n : Int64) :
    file.serve (.seek (.current n)) =
      if file.offset.toNat + n.toUInt64.toNat < 2 ^ 64 then
        (.ok (file.offset + n.toUInt64), { file with offset := file.offset + n.toUInt64 })
      else (.panic, file) := by
  rw [serve, seek]
  dsimp only
  rw [Prog.bind_of_ok (Prog.get_apply file)]
  by_cases h : file.offset.toNat + n.toUInt64.toNat < 2 ^ 64
  · rw [addU64, Outcome.assert_of h, if_pos h]
    rfl
  · rw [addU64, Outcome.assert_not h, if_neg h]
    rfl

theorem serve_fromEnd (file : NtfsFileImpl) (n : Int64) :
    file.serve (.seek (.fromEnd n)) = (.ok (saturatingAdd file.size n.toUInt64),
      { file with offset := saturatingAdd file.size n.toUInt64 }) := rfl

theorem serve_start (file : NtfsFileImpl) (n : UInt64) :
    file.serve (.seek (.start n)) = (.ok n, { file with offset := n }) := rfl

/-- What a caller sees, and the cursor afterwards. -/
def shows (x : Outcome IoError UInt64 × NtfsFileImpl) : Option (Option Nat) × Cursor :=
  (answer x.1, x.2.cursor)

end NtfsFileImpl

section Shows

variable (file : NtfsFileImpl)

/-- A target that is a word is the new position. -/
theorem serve_of_target {cursor : Cursor} {call : SeekCall} {v : Nat}
    (htarget : cursor.target call = v) (hv : v < 2 ^ 64) :
    cursor.serve call = (some v, { cursor with pos := v }) := by
  rw [Cursor.serve, htarget, if_pos (by omega), Int.toNat_natCast]

/-- A target that is no word is refused. -/
theorem serve_of_not_target {cursor : Cursor} {call : SeekCall}
    (h : ¬ (0 ≤ cursor.target call ∧ cursor.target call < 2 ^ 64)) :
    cursor.serve call = (none, cursor) := by
  rw [Cursor.serve, if_neg h]

/-- A forward move inside the words is the reference's; a backward one wraps around or panics. -/
theorem shows_current_iff (n : Int64) :
    NtfsFileImpl.shows (file.serve (.seek (.current n))) =
        (some (file.cursor.serve (.seek (.current n))).1,
          (file.cursor.serve (.seek (.current n))).2) ↔
      file.cursor.InRange (.seek (.current n)) := by
  have hvalue := toNat_toUInt64 n
  have htarget : file.cursor.target (.seek (.current n)) = file.offset.toNat + n.toInt := rfl
  have hrange : file.cursor.InRange (.seek (.current n)) ↔
      0 ≤ n.toInt ∧ file.offset.toNat + n.toInt < 2 ^ 64 := Iff.rfl
  rw [NtfsFileImpl.serve_current, hrange]
  by_cases hsum : file.offset.toNat + n.toUInt64.toNat < 2 ^ 64
  · rw [if_pos hsum, NtfsFileImpl.shows, answer, NtfsFileImpl.cursor, toNat_add_of_lt hsum]
    by_cases hforward : 0 ≤ n.toInt
    · rw [if_pos hforward] at hvalue
      rw [← hvalue] at htarget
      rw [serve_of_target (v := file.offset.toNat + n.toUInt64.toNat) htarget hsum]
      exact iff_of_true rfl ⟨hforward, by omega⟩
    · rw [if_neg hforward] at hvalue
      rw [serve_of_not_target (by rw [htarget]; omega)]
      refine iff_of_false ?_ fun h ↦ hforward h.1
      intro h
      cases (Prod.mk.inj h).1
  · rw [if_neg hsum]
    refine iff_of_false ?_ ?_
    · intro h
      cases (Prod.mk.inj h).1
    · rintro ⟨hforward, hlt⟩
      rw [if_pos hforward] at hvalue
      omega

/-- A place behind the end is the reference's; one in front of it, or no word, is not. -/
theorem shows_fromEnd_iff (n : Int64) :
    NtfsFileImpl.shows (file.serve (.seek (.fromEnd n))) =
        (some (file.cursor.serve (.seek (.fromEnd n))).1,
          (file.cursor.serve (.seek (.fromEnd n))).2) ↔
      file.cursor.InRange (.seek (.fromEnd n)) := by
  have hvalue := toNat_toUInt64 n
  have hsize := file.size.toNat_lt
  have htarget : file.cursor.target (.seek (.fromEnd n)) = file.size.toNat + n.toInt := rfl
  have hrange : file.cursor.InRange (.seek (.fromEnd n)) ↔
      0 ≤ n.toInt ∧ file.size.toNat + n.toInt < 2 ^ 64 := Iff.rfl
  rw [NtfsFileImpl.serve_fromEnd, hrange, NtfsFileImpl.shows, answer, NtfsFileImpl.cursor,
    toNat_saturatingAdd]
  by_cases hword : 0 ≤ (file.size.toNat : Int) + n.toInt ∧
      (file.size.toNat : Int) + n.toInt < 2 ^ 64
  · obtain ⟨v, hv⟩ := Int.eq_ofNat_of_zero_le hword.1
    rw [serve_of_target (v := v) (htarget.trans hv) (by omega)]
    by_cases hbehind : 0 ≤ n.toInt
    · rw [if_pos hbehind] at hvalue
      have hsame : min (file.size.toNat + n.toUInt64.toNat) (2 ^ 64 - 1) = v := by omega
      rw [hsame]
      exact iff_of_true rfl ⟨hbehind, hword.2⟩
    · rw [if_neg hbehind] at hvalue
      refine iff_of_false ?_ fun h ↦ hbehind h.1
      intro h
      have hsame := Option.some.inj (Option.some.inj (Prod.mk.inj h).1)
      omega
  · rw [serve_of_not_target (by rwa [htarget])]
    refine iff_of_false ?_ ?_
    · intro h
      cases (Prod.mk.inj h).1
    · rintro ⟨hbehind, hlt⟩
      omega

theorem shows_start (n : UInt64) :
    NtfsFileImpl.shows (file.serve (.seek (.start n))) =
      (some (file.cursor.serve (.seek (.start n))).1,
      (file.cursor.serve (.seek (.start n))).2) := by
  have htarget : file.cursor.target (.seek (.start n)) = n.toNat := rfl
  rw [NtfsFileImpl.serve_start, serve_of_target htarget n.toNat_lt]
  rfl

/-- Asking for the position is a move by zero. -/
theorem shows_streamPosition :
    NtfsFileImpl.shows (file.serve .streamPosition) =
      (some (file.cursor.serve .streamPosition).1, (file.cursor.serve .streamPosition).2) := by
  have hpos := file.offset.toNat_lt
  have htarget : file.cursor.target .streamPosition = file.offset.toNat := rfl
  have hzero : (Int64.toUInt64 0).toNat = 0 := rfl
  have hserve : file.serve .streamPosition = file.serve (.seek (.current 0)) := rfl
  rw [hserve, NtfsFileImpl.serve_current, hzero, Nat.add_zero, if_pos hpos, NtfsFileImpl.shows,
    answer, NtfsFileImpl.cursor, toNat_add_of_lt (by rw [hzero]; exact hpos), hzero,
    serve_of_target htarget hpos]
  rfl

end Shows

/-- One call of the file shows what the reference shows exactly when it is in range. -/
theorem shows_serve_iff (file : NtfsFileImpl) (call : SeekCall) :
    NtfsFileImpl.shows (file.serve call) =
        (some (file.cursor.serve call).1, (file.cursor.serve call).2) ↔
        file.cursor.InRange call := by
  cases call with
  | streamPosition => exact iff_of_true (shows_streamPosition file) trivial
  | seek pos =>
    cases pos with
    | start n => exact iff_of_true (shows_start file n) trivial
    | current n => exact shows_current_iff file n
    | fromEnd n => exact shows_fromEnd_iff file n

/-! ### Any number of calls -/

/-- The answers and the cursors of a file are those of the reference, call by call. -/
def FollowsReference (file : NtfsFileImpl) (requests : List SeekCall) : Prop :=
  (calls NtfsFileImpl.serve file requests).map (fun x ↦ NtfsFileImpl.shows (x.output, x.after)) =
    (calls Cursor.serve file.cursor requests).map fun x ↦ (some x.output, x.after)

instance (file : NtfsFileImpl) (requests : List SeekCall) :
    Decidable (FollowsReference file requests) :=
  inferInstanceAs (Decidable (_ = _))

/-- A file follows the reference exactly when every call of the reference's run is in range. -/
theorem followsReference_iff (file : NtfsFileImpl) (requests : List SeekCall) :
    FollowsReference file requests ↔
      ∀ x ∈ calls Cursor.serve file.cursor requests, x.before.InRange x.input := by
  induction requests generalizing file with
  | nil => exact iff_of_true rfl fun x hx ↦ absurd hx List.not_mem_nil
  | cons call requests ih =>
    rw [FollowsReference, calls, calls, List.map_cons, List.map_cons, List.forall_mem_cons,
      List.cons_eq_cons, shows_serve_iff]
    apply and_congr_right
    intro hrange
    have hnext := (Prod.mk.inj ((shows_serve_iff file call).mpr hrange)).2
    rw [← hnext]
    exact ih (file.serve call).2

/-- One step back from ten. -/
theorem followsReference_backward :
    ¬ FollowsReference ⟨10, 100⟩ [.seek (.current (-1)), .streamPosition] := by
  decide

end SmallOs.Ntfs
