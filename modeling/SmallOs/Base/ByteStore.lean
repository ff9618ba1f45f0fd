import SmallOs.Base.Bytes

/-!
# Byte-addressed stores

A store is a run of bytes made of whole blocks. A read or a write outside of it
is refused and leaves it alone. A write changes its own window and nothing else.
-/

namespace SmallOs.Base

/-- A run of bytes made of `blockCount` blocks of `blockSize` bytes. -/
structure ByteStore where
  bytes : List UInt8
  blockSize : Nat
  blockCount : UInt64
  length_bytes : bytes.length = blockSize * blockCount.toNat

namespace ByteStore

/-- A store of zeros. -/
def blank (blockSize : Nat) (blockCount : UInt64) : ByteStore where
  bytes := List.replicate (blockSize * blockCount.toNat) 0
  blockSize := blockSize
  blockCount := blockCount
  length_bytes := List.length_replicate

/-- Stores of equal content and geometry are equal. -/
@[ext] theorem ext {s t : ByteStore} (hb : s.bytes = t.bytes) (hs : s.blockSize = t.blockSize)
    (hc : s.blockCount = t.blockCount) : s = t := by
  cases s
  cases t
  cases hb
  cases hs
  cases hc
  rfl

/-- The last block ends where the store ends. -/
theorem length_last {s : ByteStore} (h : 0 < s.blockCount.toNat) :
    s.bytes.length = (s.blockCount.toNat - 1) * s.blockSize + s.blockSize := by
  rw [s.length_bytes, Nat.mul_comm, ← Nat.succ_mul, Nat.succ_eq_add_one, Nat.sub_add_cancel h]

/-- The size in bytes, from the geometry. -/
def size (s : ByteStore) : Nat := s.blockSize * s.blockCount.toNat

theorem length_eq_size (s : ByteStore) : s.bytes.length = s.size := s.length_bytes

/-- The window starting at byte `off`, when it lies inside the store. -/
def read (s : ByteStore) (off len : Nat) : Option (List UInt8) :=
  if off + len ≤ s.size then some (slice s.bytes off len) else none

/-- Overwrite the window starting at byte `off`, when it lies inside the store. -/
def write (s : ByteStore) (off : Nat) (data : List UInt8) : Option ByteStore :=
  if h : off + data.length ≤ s.size then
    some { s with
      bytes := splice s.bytes off data
      length_bytes := by rw [length_splice _ _ _ (s.length_eq_size ▸ h), s.length_bytes] }
  else none

theorem read_eq_some {s : ByteStore} {off len : Nat} {w : List UInt8} :
    s.read off len = some w ↔ off + len ≤ s.bytes.length ∧ slice s.bytes off len = w := by
  rw [length_eq_size, read]
  split <;> simp [*]

/-- A write succeeds exactly inside the store, and then changes its own window only. -/
theorem write_eq_some {s t : ByteStore} {off : Nat} {data : List UInt8} :
    s.write off data = some t ↔ off + data.length ≤ s.bytes.length ∧
      t.bytes = splice s.bytes off data ∧ t.blockSize = s.blockSize ∧
      t.blockCount = s.blockCount := by
  rw [length_eq_size, write]
  split
  · next h =>
    constructor
    · intro ht
      cases ht
      exact ⟨h, rfl, rfl, rfl⟩
    · rintro ⟨-, hb, hs, hc⟩
      exact congrArg some (ext hb.symm hs.symm hc.symm)
  · next h => simp [h]

/-- A store that serves a read of a window takes a write of it. -/
theorem write_of_le (s : ByteStore) (off : Nat) (data : List UInt8)
    (h : off + data.length ≤ s.bytes.length) :
    ∃ t, s.write off data = some t ∧ t.bytes = splice s.bytes off data ∧
      t.blockSize = s.blockSize ∧ t.blockCount = s.blockCount :=
  ⟨_, dif_pos (s.length_eq_size ▸ h), rfl, rfl, rfl⟩

theorem length_write {s t : ByteStore} {off : Nat} {data : List UInt8}
    (h : s.write off data = some t) : t.bytes.length = s.bytes.length := by
  obtain ⟨hl, hb, -, -⟩ := write_eq_some.mp h
  rw [hb, length_splice _ _ _ hl]

theorem size_write {s t : ByteStore} {off : Nat} {data : List UInt8}
    (h : s.write off data = some t) : t.size = s.size := by
  rw [← length_eq_size, length_write h, length_eq_size]

/-- A byte apart from the written window is unchanged. -/
theorem getElem?_write {s t : ByteStore} {off : Nat} {data : List UInt8}
    (h : s.write off data = some t) {p : Nat} (hp : p < off ∨ off + data.length ≤ p) :
    t.bytes[p]? = s.bytes[p]? := by
  obtain ⟨hl, hb, -, -⟩ := write_eq_some.mp h
  rw [hb, getElem?_splice _ _ _ _ hl, if_neg (by omega)]

/-- A read apart from the written window sees what it saw before. -/
theorem read_write_disjoint {s t : ByteStore} {off : Nat} {data : List UInt8}
    (h : s.write off data = some t) {off' len : Nat}
    (hd : off' + len ≤ off ∨ off + data.length ≤ off') : t.read off' len = s.read off' len := by
  obtain ⟨hl, hb, -, -⟩ := write_eq_some.mp h
  rw [read, read, size_write h, hb, slice_splice_disjoint _ _ _ _ _ hl hd]

/-- A read inside the written window sees what was written. -/
theorem read_write_inner {s t : ByteStore} {off : Nat} {data : List UInt8}
    (h : s.write off data = some t) {off' len : Nat} (h₁ : off ≤ off')
    (h₂ : off' + len ≤ off + data.length) :
    t.read off' len = some (slice data (off' - off) len) := by
  obtain ⟨hl, hb, -, -⟩ := write_eq_some.mp h
  rw [read, size_write h, if_pos (by rw [← length_eq_size]; omega), hb,
    slice_splice_inner _ _ _ _ _ hl h₁ h₂]

/-- The written window reads back. -/
theorem read_write_same {s t : ByteStore} {off : Nat} {data : List UInt8}
    (h : s.write off data = some t) : t.read off data.length = some data := by
  rw [read_write_inner h (Nat.le_refl _) (Nat.le_refl _), Nat.sub_self, slice_zero_length]

end ByteStore
end SmallOs.Base
