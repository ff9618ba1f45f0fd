import SmallOs.Vfs.File
import SmallOs.Ntfs.Overwrite

/-!
# Positioned reads and writes

An open file is meant to be an array of bytes with a cursor. The inode drops the offset of a
write and hands the bytes to `write_file` as the whole content, so a run of operations is one
of the byte array as long as each write is refused, starts at the beginning, or is empty.
-/

namespace SmallOs.Vfs

open SmallOs.Base SmallOs.Hal SmallOs.Ntfs

/-! ### Byte arrays with a cursor -/

/-- The content with the bytes at `off` replaced, extended where they reach behind its end. -/
def overwrite (content : List UInt8) (off : Nat) (buf : List UInt8) : List UInt8 :=
  if buf = [] then content
  else content.take off ++ (List.replicate (off - content.length) 0 ++
    (buf ++ content.drop (off + buf.length)))

/-- What was written reads back. -/
theorem slice_overwrite (content : List UInt8) (off : Nat) (buf : List UInt8) :
    slice (overwrite content off buf) off buf.length = buf := by
  unfold overwrite
  split
  · next h =>
    rw [h]
    exact slice_nil_of_zero _ _
  · have hl : (content.take off ++ List.replicate (off - content.length) (0 : UInt8)).length =
      off := by
      rw [List.length_append, List.length_take, List.length_replicate]
      omega
    rw [← List.append_assoc, slice_append_right _ _ _ _ (by omega), hl, Nat.sub_self,
      slice_append_left _ _ _ _ (by omega), slice_zero_length]

/-- Replacing all bytes from the start replaces the content. -/
theorem overwrite_zero {content buf : List UInt8} (h : buf.length = content.length) :
    overwrite content 0 buf = buf := by
  unfold overwrite
  split
  · next hb =>
    rw [hb] at h ⊢
    exact List.length_eq_zero_iff.mp h.symm
  · rw [List.take_zero, Nat.zero_sub, Nat.zero_add, h, List.drop_length, List.append_nil]
    rfl

theorem overwrite_nil (content : List UInt8) (off : Nat) : overwrite content off [] = content :=
  if_pos rfl

/-- An array of bytes with a cursor. -/
structure ByteFile where
  content : List UInt8
  cursor : Nat

/-- Where a write lands: at the old end in append mode, else at the cursor. -/
def ByteFile.position (s : ByteFile) (flags : OpenFlags) : Nat :=
  if flags.contains .APPEND then s.content.length else s.cursor

/-- What an operation on the byte array returns and does; a write may fail. -/
inductive ByteFile.Step (flags : OpenFlags) :
    Op → Outcome FsError Reply → ByteFile → ByteFile → Prop where
  | seek (pos : UInt64) (s : ByteFile) :
      Step flags (.seek pos) (.ok .done) s { s with cursor := pos.toNat }
  | read (len : Nat) (s : ByteFile) (h : flags.contains .READ) :
      Step flags (.read len) (.ok (.bytes (slice s.content s.cursor len))) s
        { s with cursor := s.cursor + (slice s.content s.cursor len).length }
  | readDenied (len : Nat) (s : ByteFile) (h : ¬ flags.contains .READ) :
      Step flags (.read len) (.err .permissionDenied) s s
  | readAt (offset : UInt64) (len : Nat) (s : ByteFile) :
      Step flags (.readAt offset len) (.ok (.bytes (slice s.content offset.toNat len))) s s
  | write (buf : List UInt8) (s : ByteFile) (h : flags.contains .WRITE) :
      Step flags (.write buf) (.ok (.count buf.length)) s
        ⟨overwrite s.content (s.position flags) buf, s.position flags + buf.length⟩
  | writeDenied (buf : List UInt8) (s : ByteFile) (h : ¬ flags.contains .WRITE) :
      Step flags (.write buf) (.err .permissionDenied) s s
  | writeFails (buf : List UInt8) (r : Outcome FsError Reply) (s : ByteFile)
      (h : flags.contains .WRITE) (hr : ∀ reply, r ≠ .ok reply) :
      Step flags (.write buf) r s { s with cursor := s.position flags }
  | writeAt (offset : UInt64) (buf : List UInt8) (s : ByteFile) :
      Step flags (.writeAt offset buf) (.ok (.count buf.length)) s
        { s with content := overwrite s.content offset.toNat buf }
  | writeAtFails (offset : UInt64) (buf : List UInt8) (r : Outcome FsError Reply) (s : ByteFile)
      (hr : ∀ reply, r ≠ .ok reply) : Step flags (.writeAt offset buf) r s s

/-! ### The content of an NTFS file -/

variable {driver : NtfsDriver} {ino : Nat}

/-- The file reads as the content. -/
structure HasContent (driver : NtfsDriver) (ino : Nat) (d : ByteStore) (content : List UInt8) :
    Prop where
  reads : readFileAll driver (toNtfsFile ino) d = (.ok content, d)
  length_lt : content.length < 2 ^ 64

theorem HasContent.unique {d : ByteStore} {content content' : List UInt8}
    (h : HasContent driver ino d content) (h' : HasContent driver ino d content') :
    content = content' := by
  have hsame := h.reads.symm.trans h'.reads
  exact Outcome.ok.inj (Prod.mk.inj hsame).1

/-- A read returns the part of the content that it asks for. -/
theorem ntfsReadAt_byteStore {d : ByteStore} {content : List UInt8}
    (h : HasContent driver ino d content) (offset : UInt64) (len : Nat) :
    ntfsReadAt driver ino offset len d = (.ok (slice content offset.toNat len), d) := by
  have hread : ntfsIo (readFileAll driver (toNtfsFile ino)) d = (.ok content, d) := by
    rw [ntfsIo, Prog.mapErr, h.reads]
    rfl
  refine (Prog.bind_of_ok hread).trans ?_
  have hslice : slice content offset.toNat (min len (content.length - offset.toNat)) =
      slice content offset.toNat len := by
    rw [slice, slice, ← List.length_drop, ← List.take_eq_take_min]
  change (Outcome.ok (slice content offset.toNat _), d) = _
  rw [hslice]

/-- A write at an offset ends as `write_file` does. -/
theorem ntfsWriteAt_cases {d d' : ByteStore} {offset : UInt64} {buf : List UInt8}
    {r : Outcome FsError Nat} (h : ntfsWriteAt driver ino offset buf d = (r, d')) :
    (r = .ok buf.length ∧ writeFile driver (toNtfsFile ino) buf d = (.ok (), d')) ∨
      ((∀ n, r ≠ .ok n) ∧ d' = d) := by
  rcases hcall : writeFile driver (toNtfsFile ino) buf d with ⟨res, d₁⟩
  have hio : ntfsIo (writeFile driver (toNtfsFile ino) buf) d =
      (res.mapErr fun _ ↦ .ioError, d₁) := by
    rw [ntfsIo, Prog.mapErr, hcall]
  cases res with
  | ok u =>
    rw [ntfsWriteAt, Prog.bind_of_ok hio] at h
    cases h
    exact .inl ⟨rfl, rfl⟩
  | err e =>
    rw [ntfsWriteAt, Prog.bind_of_err hio] at h
    cases h
    rcases writeFile_cases hcall with ⟨hr, -⟩ | ⟨-, hd, -⟩
    · cases hr
    · exact .inr ⟨nofun, hd⟩
  | panic =>
    rw [ntfsWriteAt, Prog.bind_of_panic hio] at h
    cases h
    rcases writeFile_cases hcall with ⟨hr, -⟩ | ⟨-, hd, -⟩
    · cases hr
    · exact .inr ⟨nofun, hd⟩

/-- The condition on a write at `off`: `write_file` refuses the bytes, or they go to the start
of a plain file whose first `$DATA` is its own stream, or there are none. -/
def WriteFits (driver : NtfsDriver) (ino : Nat) (d : ByteStore) (off : Nat) (buf : List UInt8) :
    Prop :=
  (∀ w, writePlan driver d ino buf ≠ .ok w) ∨ ((off = 0 ∨ buf = []) ∧
    ∃ record a st content, PlainFile driver d (toNtfsFile ino) record a st content ∧
      FirstIsUnnamed a content buf)

/-- A fitting write that returns has written its bytes at its offset. -/
theorem hasContent_of_writeAt {d d' : ByteStore} {content : List UInt8} {offset : UInt64}
    {buf : List UInt8} {n : Nat} (hc : HasContent driver ino d content)
    (hfit : WriteFits driver ino d offset.toNat buf)
    (hcall : ntfsWriteAt driver ino offset buf d = (.ok n, d')) :
    n = buf.length ∧ HasContent driver ino d' (overwrite content offset.toNat buf) ∧
      offset.toNat + n < 2 ^ 64 := by
  rcases ntfsWriteAt_cases hcall with ⟨hn, hwrite⟩ | ⟨hne, -⟩
  · cases hn
    rcases writeFile_cases hwrite with ⟨-, off, bytes, hplan, -⟩ | ⟨hne, -⟩
    · rcases hfit with hnone | ⟨hoff, record, a, st, content', hf, hfirst⟩
      · exact absurd hplan (hnone _)
      have hread := ((overwrites_iff hf).mpr (.inr hfirst)).content d' hwrite
      -- The file's content is its one stream, and the bytes are as many.
      have hst : statAt driver d (toNtfsFile ino).recordNumber = .ok st := by
        rw [statAt, hf.read, Outcome.ok_bind, hf.stat]
      have hsame : content' = content := by
        have hold := (readFileAll_resident hst hf.file hf.one).symm.trans hc.reads
        exact Outcome.ok.inj (Prod.mk.inj hold).1
      obtain ⟨_, _, existing, rest, _, hrec, hst', hruns, hlen, -⟩ := writePlan_eq_ok hplan
      rw [hf.read] at hrec
      cases hrec
      rw [hf.stat] at hst'
      cases hst'
      rw [hf.one, hsame] at hruns
      cases hruns
      have hlt := hc.length_lt
      refine ⟨rfl, ⟨?_, ?_⟩, ?_⟩
      · rcases hoff with hzero | hnil
        · rw [hzero, overwrite_zero hlen]
          exact hread
        · rw [hnil, overwrite_nil]
          have hempty : content = [] := List.length_eq_zero_iff.mp (by rw [← hlen, hnil]; rfl)
          rw [hempty, ← hnil]
          exact hread
      · rcases hoff with hzero | hnil
        · rw [hzero, overwrite_zero hlen]
          omega
        · rwa [hnil, overwrite_nil]
      · rcases hoff with hzero | hnil
        · omega
        · rw [hnil]
          exact offset.toNat_lt
    · exact absurd rfl hne
  · exact absurd rfl (hne n)

/-! ### Operations -/

/-- An operation between two states of an open file. -/
abbrev OpCall := Call (Cursor ByteStore) Op (Outcome FsError Reply)

/-- The call is what the code does on the NTFS file with the given flags. -/
def IsOp (driver : NtfsDriver) (ino : Nat) (flags : OpenFlags) (x : OpCall) : Prop :=
  File.perform ⟨ntfsInode driver ino, flags⟩ x.input x.before = (x.output, x.after)

/-- The state of the byte array that an open file stands for. -/
def Cursor.toByteFile (s : Cursor ByteStore) (content : List UInt8) : ByteFile :=
  ⟨content, s.offset.toNat⟩

/-- The condition on the state before an operation: a write fits where it lands, and in append
mode the size in the metadata is that of the content. -/
def Fits (driver : NtfsDriver) (ino : Nat) (flags : OpenFlags) (s : Cursor ByteStore) : Op → Prop
  | .write buf => flags.contains .WRITE → ∀ content, HasContent driver ino s.device content →
      (flags.contains .APPEND →
        ∀ st, statAt driver s.device ino = .ok st → st.size = content.length) ∧
      WriteFits driver ino s.device ((s.toByteFile content).position flags) buf
  | .writeAt offset buf => WriteFits driver ino s.device offset.toNat buf
  | _ => True

/-- The call wrote the bytes at the offset. -/
def Wrote (flags : OpenFlags) (x : OpCall) (content : List UInt8) (offset : UInt64)
    (buf : List UInt8) : Prop :=
  (x.input = .writeAt offset buf ∨ (x.input = .write buf ∧
    offset.toNat = (x.before.toByteFile content).position flags)) ∧
    x.output = .ok (.count buf.length)

/-- The call is one of the byte array; when it fails the device is as before, and what it wrote
reads back. -/
def Positioned (driver : NtfsDriver) (ino : Nat) (flags : OpenFlags) (x : OpCall) : Prop :=
  ∃ content content', HasContent driver ino x.before.device content ∧
    HasContent driver ino x.after.device content' ∧
    ByteFile.Step flags x.input x.output (x.before.toByteFile content)
      (x.after.toByteFile content') ∧
    ((∀ reply, x.output ≠ .ok reply) → x.after.device = x.before.device) ∧
    ∀ offset buf, Wrote flags x content offset buf →
      ntfsReadAt driver ino offset buf.length x.after.device = (.ok buf, x.after.device)

theorem onDevice_apply {D ε α : Type} {x : Prog D ε α} {s : Cursor D} {r : Outcome ε α} {d' : D}
    (h : x s.device = (r, d')) : onDevice x s = (r, { s with device := d' }) := by
  rw [onDevice, h]

/-- Advancing by as much as fits adds to the offset. -/
theorem advance_apply {D ε : Type} (n : Nat) (s : Cursor D) (h : s.offset.toNat + n < 2 ^ 64) :
    (advance n : Prog (Cursor D) ε Unit) s =
      (.ok (), { s with offset := UInt64.ofNat (s.offset.toNat + n) }) := by
  have hoff : s.offset + UInt64.ofNat n = UInt64.ofNat (s.offset.toNat + n) := by
    rw [UInt64.ofNat_add, UInt64.ofNat_toNat]
  refine (Prog.bind_of_ok (Prog.get_apply s)).trans ?_
  refine (Prog.bind_of_ok (Prog.lift_eq_ok.mpr ⟨Outcome.assert_of h, rfl⟩)).trans ?_
  rw [hoff]
  rfl

theorem toByteFile_ofNat {n : Nat} (h : n < 2 ^ 64) (d : ByteStore)
    (content : List UInt8) :
    Cursor.toByteFile ⟨UInt64.ofNat n, d⟩ content = ⟨content, n⟩ := by
  rw [Cursor.toByteFile, UInt64.toNat_ofNat_of_lt' h]

section Step

variable {flags : OpenFlags} {s s' : Cursor ByteStore} {content : List UInt8}

/-- A read returns its part of the content and moves the cursor behind it. -/
theorem read_byteStore (hc : HasContent driver ino s.device content) (len : Nat)
    (hflag : flags.contains .READ) :
    File.read ⟨ntfsInode driver ino, flags⟩ len s = (.ok (slice content s.offset.toNat len),
      { s with
        offset := UInt64.ofNat (s.offset.toNat + (slice content s.offset.toNat len).length) }) ∧
    s.offset.toNat + (slice content s.offset.toNat len).length < 2 ^ 64 := by
  have hlt := hc.length_lt
  have hoff := s.offset.toNat_lt
  have hfits : s.offset.toNat + (slice content s.offset.toNat len).length < 2 ^ 64 := by
    rw [slice, List.length_take, List.length_drop]
    omega
  refine ⟨?_, hfits⟩
  refine (Prog.bind_of_ok (Prog.lift_eq_ok.mpr ⟨Outcome.ensure_of hflag, rfl⟩)).trans ?_
  refine (Prog.bind_of_ok (Prog.get_apply s)).trans ?_
  refine (Prog.bind_of_ok (onDevice_apply (ntfsReadAt_byteStore hc s.offset len))).trans ?_
  exact (Prog.bind_of_ok (advance_apply _ _ hfits)).trans rfl

/-- The metadata of a file that reads. -/
theorem ntfsMetadata_byteStore {d : ByteStore} {st : NtfsStat}
    (h : statAt driver d ino = .ok st) :
    ∃ m, ntfsMetadata driver ino d = (.ok m, d) ∧ m.size = st.size := by
  have hstat : ntfsIo (Prog.attempt (stat driver (toNtfsFile ino))) d = (.ok (.ok st), d) := by
    rw [ntfsIo, Prog.mapErr, Prog.attempt_apply, stat_byteStore]
    change (Outcome.mapErr _ (statAt driver d ino).attempt, d) = _
    rw [h]
    rfl
  exact ⟨_, Prog.bind_of_ok hstat, rfl⟩

theorem statAt_of_hasContent {d : ByteStore} (h : HasContent driver ino d content) :
    ∃ st, statAt driver d ino = .ok st := by
  obtain ⟨st, d₁, hst, -⟩ := Prog.bind_eq_ok.mp h.reads
  rw [stat_byteStore] at hst
  exact ⟨st, (Prod.mk.inj hst).1⟩

/-- A write goes to its position, and moves the cursor behind what it wrote. -/
theorem write_byteStore (hc : HasContent driver ino s.device content) (buf : List UInt8)
    (hflag : flags.contains .WRITE)
    (hsize : flags.contains .APPEND → ∀ st, statAt driver s.device ino = .ok st →
      st.size = content.length) :
    ∃ offset : UInt64, offset.toNat = (s.toByteFile content).position flags ∧
      File.write ⟨ntfsInode driver ino, flags⟩ buf s =
        (do
          let bytes ← onDevice (ntfsWriteAt driver ino offset buf)
          advance bytes
          return bytes : Prog (Cursor ByteStore) FsError Nat) { s with offset } := by
  have hstart : File.write ⟨ntfsInode driver ino, flags⟩ buf s = _ :=
    Prog.bind_of_ok (Prog.lift_eq_ok.mpr ⟨Outcome.ensure_of hflag, rfl⟩)
  by_cases happend : flags.contains .APPEND
  · obtain ⟨st, hst⟩ := statAt_of_hasContent hc
    obtain ⟨m, hm, hmsize⟩ := ntfsMetadata_byteStore hst
    refine ⟨UInt64.ofNat m.size, ?_, ?_⟩
    · rw [ByteFile.position, if_pos happend, hmsize, hsize happend st hst,
        UInt64.toNat_ofNat_of_lt' hc.length_lt]
      rfl
    · rw [hstart]
      simp only [if_pos happend]
      refine (Prog.bind_of_ok (onDevice_apply hm)).trans ?_
      refine (Prog.bind_of_ok rfl).trans ?_
      exact Prog.bind_of_ok (Prog.get_apply _)
  · refine ⟨s.offset, ?_, ?_⟩
    · rw [ByteFile.position, if_neg happend]
      rfl
    · rw [hstart]
      simp only [if_neg happend]
      exact Prog.bind_of_ok (Prog.get_apply _)

/-- A fitting write either writes its bytes and moves the cursor, or leaves both alone. -/
theorem writeTail_byteStore {buf : List UInt8} {r : Outcome FsError Nat}
    (hc : HasContent driver ino s.device content)
    (hfit : WriteFits driver ino s.device s.offset.toNat buf)
    (h : (do
      let bytes ← onDevice (ntfsWriteAt driver ino s.offset buf)
      advance bytes
      return bytes : Prog (Cursor ByteStore) FsError Nat) s = (r, s')) :
    (r = .ok buf.length ∧ s'.offset.toNat = s.offset.toNat + buf.length ∧
      HasContent driver ino s'.device (overwrite content s.offset.toNat buf)) ∨
    ((∀ n, r ≠ .ok n) ∧ s' = s) := by
  rcases hcall : ntfsWriteAt driver ino s.offset buf s.device with ⟨res, d'⟩
  rcases ntfsWriteAt_cases hcall with ⟨rfl, -⟩ | ⟨hne, rfl⟩
  · obtain ⟨-, hafter, hlt⟩ := hasContent_of_writeAt hc hfit hcall
    have hdone := h.symm.trans ((Prog.bind_of_ok (onDevice_apply hcall)).trans
      (Prog.bind_of_ok (advance_apply _ { s with device := d' } hlt)))
    obtain ⟨rfl, rfl⟩ := Prod.mk.inj hdone
    exact .inl ⟨rfl, UInt64.toNat_ofNat_of_lt' hlt, hafter⟩
  · right
    cases res with
    | ok n => exact absurd rfl (hne n)
    | err e =>
      rw [Prog.bind_of_err (onDevice_apply hcall)] at h
      cases h
      exact ⟨nofun, rfl⟩
    | panic =>
      rw [Prog.bind_of_panic (onDevice_apply hcall)] at h
      cases h
      exact ⟨nofun, rfl⟩

/-- A call that keeps the device and has not written is positioned when the byte array can do it. -/
theorem positioned_of_kept {op : Op} {output : Outcome FsError Reply}
    (hc : HasContent driver ino s.device content) (hd : s'.device = s.device)
    (hstep : ByteFile.Step flags op output (s.toByteFile content) (s'.toByteFile content))
    (hno : ∀ offset buf, ¬ Wrote flags ⟨s, op, output, s'⟩ content offset buf) :
    Positioned driver ino flags ⟨s, op, output, s'⟩ := by
  have hc' : HasContent driver ino s'.device content := by rwa [hd]
  exact ⟨content, content, hc, hc', hstep, fun _ ↦ hd, fun offset buf hw ↦
    absurd hw (hno offset buf)⟩

theorem ne_ok_count {r : Outcome FsError Nat} (h : ∀ n, r ≠ .ok n) (reply : Reply) :
    (Reply.count <$> r) ≠ .ok reply := by
  intro hr
  obtain ⟨n, hn, -⟩ := Outcome.map_eq_ok.mp hr
  exact h n hn

theorem positioned_read {len : Nat} {output : Outcome FsError Reply}
    (hx : IsOp driver ino flags ⟨s, .read len, output, s'⟩)
    (hc : HasContent driver ino s.device content) :
    Positioned driver ino flags ⟨s, .read len, output, s'⟩ := by
  have hno : ∀ offset buf, ¬ Wrote flags ⟨s, .read len, output, s'⟩ content offset buf := by
    rintro offset buf ⟨h | ⟨h, -⟩, -⟩ <;> cases h
  change ((.bytes <$> File.read ⟨ntfsInode driver ino, flags⟩ len) s) = (output, s') at hx
  rw [Prog.map_apply] at hx
  by_cases hflag : flags.contains .READ
  · obtain ⟨hread, hlt⟩ := read_byteStore hc len hflag
    rw [hread] at hx
    obtain ⟨rfl, rfl⟩ := Prod.mk.inj hx
    refine positioned_of_kept hc rfl ?_ hno
    rw [toByteFile_ofNat hlt]
    exact .read len (s.toByteFile content) hflag
  · have hdenied : File.read ⟨ntfsInode driver ino, flags⟩ len s = (.err .permissionDenied, s) := by
      apply Prog.bind_of_err
      rw [Prog.lift_apply, Outcome.ensure_not hflag]
    rw [hdenied] at hx
    obtain ⟨rfl, rfl⟩ := Prod.mk.inj hx
    exact positioned_of_kept hc rfl (.readDenied len _ hflag) hno

theorem positioned_write {buf : List UInt8} {output : Outcome FsError Reply}
    (hx : IsOp driver ino flags ⟨s, .write buf, output, s'⟩)
    (hc : HasContent driver ino s.device content) (hfit : Fits driver ino flags s (.write buf)) :
    Positioned driver ino flags ⟨s, .write buf, output, s'⟩ := by
  change ((.count <$> File.write ⟨ntfsInode driver ino, flags⟩ buf) s) = (output, s') at hx
  rw [Prog.map_apply] at hx
  by_cases hflag : flags.contains .WRITE
  · obtain ⟨hsize, hwrite⟩ := hfit hflag content hc
    obtain ⟨offset, hoff, hcall⟩ := write_byteStore hc buf hflag hsize
    rcases htail : File.write ⟨ntfsInode driver ino, flags⟩ buf s with ⟨r, t⟩
    rw [htail] at hx
    obtain ⟨rfl, rfl⟩ := Prod.mk.inj hx
    rw [hcall] at htail
    rcases writeTail_byteStore (s := { s with offset }) hc (by rw [hoff]; exact hwrite) htail with
      ⟨rfl, hafter, hc'⟩ | ⟨hne, rfl⟩
    · refine ⟨content, _, hc, hc', ?_, fun h ↦ absurd rfl (h _), ?_⟩
      · rw [Cursor.toByteFile, Cursor.toByteFile, hafter, hoff]
        exact .write buf _ hflag
      · rintro offset' buf' ⟨⟨⟨⟩⟩ | ⟨⟨⟩, hoff'⟩, -⟩
        rw [← hoff] at hoff'
        change offset'.toNat = offset.toNat at hoff'
        rw [ntfsReadAt_byteStore hc', hoff', slice_overwrite]
    · refine ⟨content, content, hc, hc, ?_, fun _ ↦ rfl, ?_⟩
      · have hstep := ByteFile.Step.writeFails buf _ (s.toByteFile content) hflag (ne_ok_count hne)
        rw [← hoff] at hstep
        exact hstep
      · rintro offset' buf' ⟨-, h⟩
        exact absurd h (ne_ok_count hne _)
  · have hdenied : File.write ⟨ntfsInode driver ino, flags⟩ buf s =
        (.err .permissionDenied, s) := by
      apply Prog.bind_of_err
      rw [Prog.lift_apply, Outcome.ensure_not hflag]
    rw [hdenied] at hx
    obtain ⟨rfl, rfl⟩ := Prod.mk.inj hx
    refine positioned_of_kept hc rfl (.writeDenied buf _ hflag) ?_
    rintro offset buf ⟨-, h⟩
    cases h

theorem positioned_writeAt {offset : UInt64} {buf : List UInt8} {output : Outcome FsError Reply}
    (hx : IsOp driver ino flags ⟨s, .writeAt offset buf, output, s'⟩)
    (hc : HasContent driver ino s.device content)
    (hfit : WriteFits driver ino s.device offset.toNat buf) :
    Positioned driver ino flags ⟨s, .writeAt offset buf, output, s'⟩ := by
  change ((.count <$> onDevice (ntfsWriteAt driver ino offset buf)) s) = (output, s') at hx
  rcases hcall : ntfsWriteAt driver ino offset buf s.device with ⟨r, d'⟩
  rw [Prog.map_apply, onDevice_apply hcall] at hx
  obtain ⟨rfl, rfl⟩ := Prod.mk.inj hx
  rcases ntfsWriteAt_cases hcall with ⟨rfl, -⟩ | ⟨hne, rfl⟩
  · obtain ⟨-, hc', -⟩ := hasContent_of_writeAt hc hfit hcall
    refine ⟨content, _, hc, hc', .writeAt offset buf _, fun h ↦ absurd rfl (h _), ?_⟩
    rintro offset' buf' ⟨⟨⟨⟩⟩ | ⟨⟨⟩, -⟩, -⟩
    rw [ntfsReadAt_byteStore hc', slice_overwrite]
  · refine ⟨content, content, hc, hc, .writeAtFails offset buf _ _ (ne_ok_count hne),
      fun _ ↦ rfl, ?_⟩
    rintro offset' buf' ⟨-, h⟩
    exact absurd h (ne_ok_count hne _)

end Step

/-- An operation under the condition is one of the byte array. -/
theorem positioned_of_isOp {flags : OpenFlags} {x : OpCall} {content : List UInt8}
    (hx : IsOp driver ino flags x) (hc : HasContent driver ino x.before.device content)
    (hfit : Fits driver ino flags x.before x.input) : Positioned driver ino flags x := by
  obtain ⟨s, op, output, s'⟩ := x
  change HasContent driver ino s.device content at hc
  cases op with
  | seek pos =>
    change File.perform ⟨ntfsInode driver ino, flags⟩ (.seek pos) s = (output, s') at hx
    obtain ⟨rfl, rfl⟩ := Prod.mk.inj hx
    refine positioned_of_kept hc rfl (.seek pos _) ?_
    rintro offset buf ⟨h | ⟨h, -⟩, -⟩ <;> cases h
  | read len => exact positioned_read hx hc
  | readAt offset len =>
    change ((.bytes <$> onDevice (ntfsReadAt driver ino offset len)) s) = (output, s') at hx
    rw [Prog.map_apply, onDevice_apply (ntfsReadAt_byteStore hc offset len)] at hx
    obtain ⟨rfl, rfl⟩ := Prod.mk.inj hx
    refine positioned_of_kept hc rfl (.readAt offset len (s.toByteFile content)) ?_
    rintro offset buf ⟨h | ⟨h, -⟩, -⟩ <;> cases h
  | write buf => exact positioned_write hx hc hfit
  | writeAt offset buf => exact positioned_writeAt hx hc hfit

/-! ### Runs of operations -/

/-- In a run whose operations meet the condition, on a file that reads, every operation is one
of the byte array, and the file still reads at the end. -/
theorem run_perform {flags : OpenFlags} {s s' : Cursor ByteStore} {t : List OpCall}
    (hrun : Run (fun x ↦ IsOp driver ino flags x ∧ Fits driver ino flags x.before x.input) s t s')
    (hc : ∃ content, HasContent driver ino s.device content) :
    (∃ content, HasContent driver ino s'.device content) ∧
      ∀ x ∈ t, Positioned driver ino flags x := by
  have hkept := hrun.invariant (I := fun s ↦ ∃ content, HasContent driver ino s.device content) ?_
    hc
  · refine ⟨hkept.1, ?_⟩
    intro x hx
    obtain ⟨content, hc'⟩ := (hkept.2 x hx).1
    obtain ⟨hcall, hfit⟩ := hrun.mem hx
    exact positioned_of_isOp hcall hc' hfit
  · rintro x ⟨hcall, hfit⟩ ⟨content, hc'⟩
    obtain ⟨_, content', -, hafter, -⟩ := positioned_of_isOp hcall hc' hfit
    exact ⟨content', hafter⟩

/-- A file of three bytes: three other bytes become the content, whatever the offset. -/
theorem writeAt_twoStreams (offset : UInt64) :
    ∃ d d', d = smallVolume (twoStreams true) ∧ HasContent smallDriver 5 d [7, 8, 9] ∧
      WriteFits smallDriver 5 d 0 [4, 5, 6] ∧
      IsOp smallDriver 5 ⟨3⟩ ⟨⟨0, d⟩, .writeAt offset [4, 5, 6], .ok (.count 3), ⟨0, d'⟩⟩ ∧
      HasContent smallDriver 5 d' [4, 5, 6] := by
  have hf := plainFile_twoStreams true
  have hplan : (writePlan smallDriver (smallVolume (twoStreams true)) 5 [4, 5, 6]).isOk = true := by
    rw [writePlan, statAt, hf.read, Outcome.ok_bind, hf.stat]
    decide +kernel
  generalize smallVolume (twoStreams true) = d at *
  have hst : statAt smallDriver d 5 = .ok twoStreamsStat := by
    rw [statAt, hf.read, Outcome.ok_bind, hf.stat]
  have hfirst : FirstIsUnnamed (firstStream true) [7, 8, 9] [4, 5, 6] := .inl (by decide)
  obtain ⟨w, hw⟩ := Outcome.isOk_iff.mp hplan
  rcases hwrite : writeFile smallDriver ⟨5⟩ [4, 5, 6] d with ⟨r, d'⟩
  rcases writeFile_cases hwrite with ⟨rfl, -⟩ | ⟨-, -, hnone⟩
  · have hread := ((overwrites_iff hf).mpr (.inr hfirst)).content d' hwrite
    refine ⟨d, d', rfl, ⟨readFileAll_resident hst hf.file hf.one, by decide⟩,
      .inr ⟨.inl rfl, _, _, _, _, hf, hfirst⟩, ?_, hread, by decide⟩
    have hio : ntfsIo (writeFile smallDriver (toNtfsFile 5) [4, 5, 6]) d = (.ok (), d') := by
      rw [ntfsIo, Prog.mapErr, toNtfsFile, hwrite]
      rfl
    have hcall : ntfsWriteAt smallDriver 5 offset [4, 5, 6] d = (.ok 3, d') := Prog.bind_of_ok hio
    have hdevice := onDevice_apply (s := ⟨0, d⟩) hcall
    change (Reply.count <$> onDevice (ntfsWriteAt smallDriver 5 offset [4, 5, 6])) ⟨0, d⟩ = _
    rw [Prog.map_apply, hdevice]
    rfl
  · exact absurd hw (hnone w)

/-- A write at the start. -/
theorem run_perform_start :
    ∃ d x s', d = smallVolume (twoStreams true) ∧
      Run (fun x ↦ IsOp smallDriver 5 ⟨3⟩ x ∧ Fits smallDriver 5 ⟨3⟩ x.before x.input)
        ⟨0, d⟩ [x] s' ∧ x.output = .ok (.count 3) ∧
      (∃ content, HasContent smallDriver 5 s'.device content) ∧
      ∀ y ∈ [x], Positioned smallDriver 5 ⟨3⟩ y := by
  obtain ⟨d, d', hd, hc, hfit, hx, -⟩ := writeAt_twoStreams 0
  have hrun := Run.cons (R := fun x ↦ IsOp smallDriver 5 ⟨3⟩ x ∧
    Fits smallDriver 5 ⟨3⟩ x.before x.input) ⟨hx, hfit⟩ (.nil _)
  exact ⟨d, _, _, hd, hrun, rfl, run_perform hrun ⟨_, hc⟩⟩

/-- A write at offset one returns all its bytes, and they replace the content from the start. -/
theorem run_perform_inside :
    ∃ x : OpCall, x.before.device = smallVolume (twoStreams true) ∧ IsOp smallDriver 5 ⟨3⟩ x ∧
      x.input = .writeAt 1 [4, 5, 6] ∧ x.output = .ok (.count 3) ∧
      HasContent smallDriver 5 x.before.device [7, 8, 9] ∧
      HasContent smallDriver 5 x.after.device [4, 5, 6] ∧ ¬ Positioned smallDriver 5 ⟨3⟩ x := by
  obtain ⟨d, d', hd, hold, -, hx, hnew⟩ := writeAt_twoStreams 1
  refine ⟨_, hd, hx, rfl, rfl, hold, hnew, ?_⟩
  rintro ⟨content, content', hc, hc', hstep, -⟩
  generalize hs : Cursor.toByteFile _ content = b at hstep
  generalize hs' : Cursor.toByteFile _ content' = b' at hstep
  cases hstep with
  | writeAt =>
    have hwritten := congrArg ByteFile.content hs'
    rw [← hs] at hwritten
    change content' = overwrite content 1 [4, 5, 6] at hwritten
    rw [hc.unique hold, hc'.unique hnew] at hwritten
    exact absurd hwritten (by decide)
  | writeAtFails _ _ _ _ hr => exact hr _ rfl

end SmallOs.Vfs
