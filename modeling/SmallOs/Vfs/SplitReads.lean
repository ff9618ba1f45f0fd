import SmallOs.Ntfs.HalImpl
import SmallOs.Vfs.Positioned

/-!
# Reads and how they are split

`impl Read for NtfsFileImpl` of `lib/vfs/src/fs/ntfs/hal_impl.rs` and the default
`read_exact` of `lib/hal/src/io/mod.rs`. Every call reads the whole content again and hands out
the part behind the cursor, so that the parts of successive calls join.
-/

namespace SmallOs.Vfs

open SmallOs.Base SmallOs.Hal SmallOs.Ntfs

/-- What a file of this kind works on: the device behind the driver's lock, and its cursor. -/
structure HalFile (D : Type) where
  device : D
  file : NtfsFileImpl

section Read

variable {D : Type} [BlockDevice D]

/-- The driver under its lock; any of its errors is `IoError::Other`. -/
def underLock {α : Type} (x : Prog D NtfsError α) : Prog (HalFile D) IoError α := fun s ↦
  ((x s.device).1.mapErr fun _ ↦ .other, { s with device := (x s.device).2 })

/-- `lib/vfs/src/fs/ntfs/hal_impl.rs:65–84`. A read takes the length of the caller's buffer and
returns the bytes that were put at its front; their number is what the source returns. -/
def halRead (driver : NtfsDriver) (file : NtfsFile) (len : Nat) :
    Prog (HalFile D) IoError (List UInt8) := do
  let data ← underLock (readFileAll driver file)
  let s ← Prog.get
  let start := s.file.offset.toNat
  let available := data.length - start
  let toRead := min len available
  if 0 < toRead then do
    let bytes ← Prog.lift (sliceAt data start toRead)
    let offset ← Prog.lift (addU64 s.file.offset (UInt64.ofNat toRead))
    Prog.set { s with file := { s.file with offset } }
    return bytes
  else return []

end Read

/-- `lib/hal/src/io/mod.rs:15–24`, over any `read`. A `read` that claims more bytes than its buffer
has makes the slice behind them panic. -/
def readExact {σ : Type} (read : Nat → Prog σ IoError (List UInt8)) (len : Nat) :
    Prog σ IoError (List UInt8) :=
  if _ : len = 0 then pure []
  else do
    let bytes ← read len
    if _ : bytes.length = 0 then Prog.fail .unexpectedEof
    else do
      Prog.lift (Outcome.assert (bytes.length ≤ len))
      let rest ← readExact read (len - bytes.length)
      return bytes ++ rest
termination_by len

section Content

variable {driver : NtfsDriver} {ino : Nat} {s : HalFile ByteStore} {content : List UInt8}

/-- The cursor moved forward by this many bytes. -/
def HalFile.advance (s : HalFile ByteStore) (n : Nat) : HalFile ByteStore :=
  { s with file := { s.file with offset := s.file.offset + UInt64.ofNat n } }

@[simp] theorem HalFile.device_advance (s : HalFile ByteStore) (n : Nat) :
    (s.advance n).device = s.device := rfl

@[simp] theorem HalFile.advance_zero (s : HalFile ByteStore) : s.advance 0 = s := by
  simp [HalFile.advance]

theorem HalFile.toNat_offset_advance {n : Nat} (h : s.file.offset.toNat + n < 2 ^ 64) :
    (s.advance n).file.offset.toNat = s.file.offset.toNat + n := by
  have hlt : n < 2 ^ 64 := by omega
  have hn : (UInt64.ofNat n).toNat = n := UInt64.toNat_ofNat_of_lt' hlt
  rw [HalFile.advance, toNat_add_of_lt (by rwa [hn]), hn]

/-- The length of a part of the content. -/
theorem length_slice_eq (content : List UInt8) (off len : Nat) :
    (slice content off len).length = min len (content.length - off) := by
  simp [slice]

/-- A read returns the part of the content behind the cursor, and moves the cursor behind it. -/
theorem halRead_byteStore (h : HasContent driver ino s.device content) (len : Nat) :
    halRead driver (toNtfsFile ino) len s =
      (.ok (slice content s.file.offset.toNat len),
        s.advance (slice content s.file.offset.toNat len).length) := by
  have hread : underLock (readFileAll driver (toNtfsFile ino)) s = (.ok content, s) := by
    rw [underLock, h.reads]
    rfl
  have hlength := h.length_lt
  rw [length_slice_eq, halRead, Prog.bind_of_ok hread, Prog.bind_of_ok (Prog.get_apply s)]
  generalize hn : min len (content.length - s.file.offset.toNat) = n
  have hslice : slice content s.file.offset.toNat len = slice content s.file.offset.toNat n := by
    rw [slice, slice, ← hn, ← List.length_drop, ← List.take_eq_take_min]
  rw [hslice]
  by_cases hpos : 0 < n
  · have hlt : n < 2 ^ 64 := by omega
    have hword : (UInt64.ofNat n).toNat = n := UInt64.toNat_ofNat_of_lt' hlt
    have hsum : s.file.offset.toNat + (UInt64.ofNat n).toNat < 2 ^ 64 := by omega
    have hadd : addU64 s.file.offset (UInt64.ofNat n) = .ok (s.file.offset + UInt64.ofNat n) := by
      rw [addU64, Outcome.assert_of hsum]
      rfl
    have hbytes : sliceAt content s.file.offset.toNat n =
        (.ok (slice content s.file.offset.toNat n) : Outcome IoError (List UInt8)) :=
      sliceAt_of (by omega)
    simp only [if_pos hpos, hbytes, hadd]
    rfl
  · obtain rfl : n = 0 := by omega
    rw [slice_nil_of_zero, HalFile.advance_zero]
    rfl

/-! ### Successive reads -/

/-- The calls at a position return these parts: each is as long as its buffer or as what is left,
and the positioned read of the inode returns the same bytes at the same position. -/
inductive PartsOf (driver : NtfsDriver) (ino : Nat) (d : ByteStore) (content : List UInt8) :
    Nat → List Nat → List (List UInt8) → Prop where
  | nil (pos : Nat) : PartsOf driver ino d content pos [] []
  | cons {pos len : Nat} {part : List UInt8} {lens : List Nat} {parts : List (List UInt8)}
      (length : part.length = min len (content.length - pos)) (pos_lt : pos < 2 ^ 64)
      (readAt : ntfsReadAt driver ino (UInt64.ofNat pos) len d = (.ok part, d))
      (rest : PartsOf driver ino d content (pos + part.length) lens parts) :
      PartsOf driver ino d content pos (len :: lens) (part :: parts)

/-- Two parts of the content that follow one another join. -/
theorem slice_join (content : List UInt8) (off len more : Nat) :
    slice content off len ++ slice content (off + (slice content off len).length) more =
      slice content off (len + more) := by
  rw [slice_add]
  by_cases hle : off + len ≤ content.length
  · rw [length_slice _ _ _ hle]
  · have hdrop {k : Nat} (hk : content.length ≤ k) : slice content k more = [] := by
      rw [slice, List.drop_of_length_le hk, List.take_nil]
    have hlen := length_slice_eq content off len
    rw [hdrop (by omega), hdrop (by omega)]

/-- Successive reads return parts that join to the content from the cursor on. -/
theorem mapM_halRead (h : HasContent driver ino s.device content) (lens : List Nat) :
    ∃ parts s', lens.mapM (halRead driver (toNtfsFile ino)) s = (.ok parts, s') ∧
      s'.device = s.device ∧ parts.flatten = slice content s.file.offset.toNat lens.sum ∧
      PartsOf driver ino s.device content s.file.offset.toNat lens parts := by
  induction lens generalizing s with
  | nil => exact ⟨[], s, rfl, rfl, (slice_nil_of_zero _ _).symm, .nil _⟩
  | cons len lens ih =>
    have hread := halRead_byteStore h len
    have hlen := length_slice_eq content s.file.offset.toNat len
    have hlt := s.file.offset.toNat_lt
    have hlength := h.length_lt
    generalize hpart : slice content s.file.offset.toNat len = part at hread hlen
    have hoffset : (s.advance part.length).file.offset.toNat =
        s.file.offset.toNat + part.length := HalFile.toNat_offset_advance (by omega)
    obtain ⟨parts, s', hrun, hdevice, hjoin, hparts⟩ := ih (s := s.advance part.length) h
    rw [hoffset] at hjoin hparts
    refine ⟨part :: parts, s', ?_, hdevice, ?_, .cons hlen hlt ?_ hparts⟩
    · rw [List.mapM_cons, Prog.bind_of_ok hread]
      exact Prog.bind_of_ok hrun
    · rw [List.flatten_cons, hjoin, List.sum_cons, ← hpart, slice_join]
    · have hat := ntfsReadAt_byteStore h s.file.offset len
      rw [hpart] at hat
      rwa [UInt64.ofNat_toNat]

/-! ### Exact reads -/

/-- An exact read of no bytes returns at once. -/
theorem readExact_zero {σ : Type} (read : Nat → Prog σ IoError (List UInt8)) :
    readExact read 0 = pure [] := by
  rw [readExact]
  rfl

section Turns

variable {σ : Type} {read : Nat → Prog σ IoError (List UInt8)} {len : Nat} {bytes : List UInt8}
  {t t' : σ}

/-- A turn of an exact read that gets nothing ends it. -/
theorem readExact_eof (hlen : len ≠ 0) (h : read len t = (.ok [], t')) :
    readExact read len t = (.err .unexpectedEof, t') := by
  rw [readExact, dif_neg hlen, Prog.bind_of_ok h]
  rfl

/-- A turn that gets some of the bytes leaves the others to the turns behind it. -/
theorem readExact_turn (h : read len t = (.ok bytes, t')) (hpos : 0 < bytes.length)
    (hle : bytes.length ≤ len) : readExact read len t =
      ((bytes ++ ·) <$> (readExact read (len - bytes.length) t').1,
        (readExact read (len - bytes.length) t').2) := by
  rw [← Prog.map_apply, map_eq_pure_bind]
  rw [readExact, dif_neg (by omega), Prog.bind_of_ok h, dif_neg (by omega),
    Prog.bind_of_ok (Prog.lift_eq_ok.mpr ⟨Outcome.assert_of hle, rfl⟩)]

end Turns

/-- At the end of the content an exact read of some bytes fails. -/
theorem readExact_at_end (h : HasContent driver ino s.device content) {n : Nat} (hn : n ≠ 0)
    (hend : content.length ≤ s.file.offset.toNat) :
    (readExact (halRead driver (toNtfsFile ino)) n s).1 = .err .unexpectedEof := by
  have hread := halRead_byteStore h n
  have hnil : slice content s.file.offset.toNat n = [] := by
    rw [slice, List.drop_of_length_le hend, List.take_nil]
  rw [hnil] at hread
  rw [readExact_eof hn hread]

/-- An exact read of the content gets its bytes when there are so many, and fails otherwise. Reads
are as long as they can be: a turn that falls short has reached the end. -/
theorem readExact_halRead (h : HasContent driver ino s.device content) (n : Nat) :
    (readExact (halRead driver (toNtfsFile ino)) n s).1 =
      if n = 0 ∨ s.file.offset.toNat + n ≤ content.length then
        .ok (slice content s.file.offset.toNat n)
      else .err .unexpectedEof := by
  have hread := halRead_byteStore h n
  have hlen := length_slice_eq content s.file.offset.toNat n
  have hlt := s.file.offset.toNat_lt
  have hlength := h.length_lt
  by_cases hn : n = 0
  · rw [hn, readExact_zero, slice_nil_of_zero, if_pos (.inl rfl)]
    rfl
  by_cases hend : content.length ≤ s.file.offset.toNat
  · rw [readExact_at_end h hn hend, if_neg (by omega)]
  rw [readExact_turn hread (by omega) (by omega)]
  by_cases hfit : s.file.offset.toNat + n ≤ content.length
  · have hall : (slice content s.file.offset.toNat n).length = n := by omega
    rw [hall, Nat.sub_self, readExact_zero, if_pos (.inr hfit)]
    simp
  · have hoffset : (s.advance (slice content s.file.offset.toNat n).length).file.offset.toNat =
        content.length := by
      rw [HalFile.toNat_offset_advance (by omega)]
      omega
    have hrest := readExact_at_end (s := s.advance (slice content s.file.offset.toNat n).length)
      (n := n - (slice content s.file.offset.toNat n).length) h (by omega) (by omega)
    rw [hrest, if_neg (by omega)]
    rfl

end Content

/-- Reads are independent of how they are split: the parts of successive reads join to the content
behind the cursor, each is as long as it can be and the positioned read gives the same bytes, and
an exact read succeeds when it is empty or its bytes are there. -/
theorem reads_split {driver : NtfsDriver} {ino : Nat} {s : HalFile ByteStore}
    {content : List UInt8} (h : HasContent driver ino s.device content) :
    (∀ lens : List Nat, ∃ parts s',
      lens.mapM (halRead driver (toNtfsFile ino)) s = (.ok parts, s') ∧
        parts.flatten = slice content s.file.offset.toNat lens.sum ∧
        PartsOf driver ino s.device content s.file.offset.toNat lens parts) ∧
    ∀ n, (readExact (halRead driver (toNtfsFile ino)) n s).1 =
      if n = 0 ∨ s.file.offset.toNat + n ≤ content.length then
        .ok (slice content s.file.offset.toNat n)
      else .err .unexpectedEof := by
  constructor
  · intro lens
    obtain ⟨parts, s', hrun, -, hjoin, hparts⟩ := mapM_halRead h lens
    exact ⟨parts, s', hrun, hjoin, hparts⟩
  · exact readExact_halRead h

/-- A file of three bytes, read from its second byte on in parts of one, no and four bytes. -/
theorem reads_split_twoStreams : ∃ d, HasContent smallDriver 5 d [7, 8, 9] ∧
    ∃ parts s', [1, 0, 4].mapM (halRead smallDriver (toNtfsFile 5)) ⟨d, 1, 3⟩ = (.ok parts, s') ∧
      parts.flatten = [8, 9] := by
  obtain ⟨d, -, -, hc, -⟩ := writeAt_twoStreams 0
  obtain ⟨parts, s', hrun, hjoin, -⟩ := (reads_split (s := ⟨d, 1, 3⟩) hc).1 [1, 0, 4]
  exact ⟨d, hc, parts, s', hrun, hjoin⟩

/-- Behind the end of that file an exact read of no bytes succeeds. -/
theorem readExact_behind_end : ∃ d, HasContent smallDriver 5 d [7, 8, 9] ∧
    (readExact (halRead smallDriver (toNtfsFile 5)) 0 ⟨d, 4, 3⟩).1 = .ok [] ∧
      ¬((4 : UInt64).toNat + 0 ≤ [7, 8, 9].length) := by
  obtain ⟨d, -, -, hc, -⟩ := writeAt_twoStreams 0
  refine ⟨d, hc, ?_, by decide⟩
  rw [readExact_zero]
  rfl

end SmallOs.Vfs
