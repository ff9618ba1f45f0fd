import SmallOs.Ntfs.Write

/-!
# Open files

`lib/vfs/src/file.rs` and the inode of `lib/vfs/src/fs/ntfs/vfs_adapter.rs`: a file is an
inode with flags and a cursor, and an NTFS inode reads and writes whole files underneath.
-/

namespace SmallOs.Vfs

open SmallOs.Base SmallOs.Hal SmallOs.Ntfs

/-- `lib/vfs/src/lib.rs:95–106`. -/
inductive FsError where
  | notFound
  | notDir
  | isDir
  | permissionDenied
  | badFd
  | invalidPath
  | mountFailed
  | ioError
  | notImplemented
  deriving DecidableEq, Repr

/-- `lib/vfs/src/lib.rs:119–127`. -/
structure OpenFlags where
  bits : UInt32
  deriving DecidableEq, Repr

namespace OpenFlags

/-- `READ`. -/
def READ : OpenFlags := ⟨1⟩

/-- `WRITE`. -/
def WRITE : OpenFlags := ⟨2⟩

/-- `CREATE`. -/
def CREATE : OpenFlags := ⟨4⟩

/-- `APPEND`. -/
def APPEND : OpenFlags := ⟨8⟩

/-- `TRUNC`. -/
def TRUNC : OpenFlags := ⟨16⟩

/-- All bits of the other flags are set. -/
def contains (flags other : OpenFlags) : Prop := flags.bits &&& other.bits = other.bits

instance (flags other : OpenFlags) : Decidable (flags.contains other) :=
  inferInstanceAs (Decidable (_ = _))

end OpenFlags

/-- `lib/vfs/src/inode.rs:5–13`. -/
inductive InodeType where
  | file
  | directory
  | symlink
  | blockDevice
  | charDevice
  | socket
  deriving DecidableEq, Repr

/-- `lib/vfs/src/inode.rs:15–25`. -/
structure Metadata where
  inodeNum : Nat
  size : Nat
  typ : InodeType
  permissions : UInt16
  created : UInt64
  modified : UInt64
  accessed : UInt64
  links : UInt32
  deriving DecidableEq, Repr

/-- What an open file calls on its inode; `lib/vfs/src/inode.rs:27–48`. A read takes the
length of the caller's buffer and returns the bytes that were put at its front. -/
structure Inode (D : Type) where
  metadata : Prog D FsError Metadata
  readAt : UInt64 → Nat → Prog D FsError (List UInt8)
  writeAt : UInt64 → List UInt8 → Prog D FsError Nat

/-! ### The inode of an NTFS file -/

section NtfsInode

variable {D : Type} [BlockDevice D] (driver : NtfsDriver) (ino : Nat)

/-- `lib/vfs/src/fs/ntfs/vfs_adapter.rs:71`. -/
def toNtfsFile : NtfsFile := { recordNumber := ino }

/-- Any error of the driver is an I/O error. -/
def ntfsIo {α : Type} (x : Prog D NtfsError α) : Prog D FsError α :=
  Prog.mapErr (fun _ ↦ .ioError) x

/-- `lib/vfs/src/fs/ntfs/vfs_adapter.rs:75–89`; metadata that cannot be read is that of an
empty file. -/
def ntfsMetadata : Prog D FsError Metadata := do
  let found ← ntfsIo (Prog.attempt (stat driver (toNtfsFile ino)))
  let st := found.toOption.getD {}
  return {
    inodeNum := ino
    size := st.size
    typ := if st.isDirectory then .directory else .file
    permissions := 0o755
    created := 0
    modified := 0
    accessed := 0
    links := 1 }

/-- `lib/vfs/src/fs/ntfs/vfs_adapter.rs:111–128`. -/
def ntfsReadAt (offset : UInt64) (len : Nat) : Prog D FsError (List UInt8) := do
  let data ← ntfsIo (readFileAll driver (toNtfsFile ino))
  let start := offset.toNat
  let available := data.length - start
  let toRead := min len available
  return slice data start toRead

/-- `lib/vfs/src/fs/ntfs/vfs_adapter.rs:130–138`: the offset is not used. -/
def ntfsWriteAt (_offset : UInt64) (buf : List UInt8) : Prog D FsError Nat := do
  ntfsIo (writeFile driver (toNtfsFile ino) buf)
  return buf.length

/-- `lib/vfs/src/fs/ntfs/vfs_adapter.rs:62–66`. -/
def ntfsInode : Inode D where
  metadata := ntfsMetadata driver ino
  readAt := ntfsReadAt driver ino
  writeAt := ntfsWriteAt driver ino

end NtfsInode

/-! ### Files -/

/-- The fields of `File` that no call changes; `lib/vfs/src/file.rs:9–13`. -/
structure File (D : Type) where
  inode : Inode D
  flags : OpenFlags

/-- The device, with the offset of the open file. -/
structure Cursor (D : Type) where
  offset : UInt64
  device : D

variable {D : Type} {ε α : Type}

/-- A program of the inode, run on the device of an open file. -/
def onDevice (x : Prog D ε α) : Prog (Cursor D) ε α := fun s ↦
  ((x s.device).1, { s with device := (x s.device).2 })

/-- `lib/vfs/src/file.rs:39`. -/
def seek (pos : UInt64) : Prog (Cursor D) ε Unit := fun s ↦ (.ok (), { s with offset := pos })

/-- `self.offset += bytes as u64`; overflow is a panic. -/
def advance (bytes : Nat) : Prog (Cursor D) ε Unit := do
  let s ← Prog.get
  Prog.lift (Outcome.assert (s.offset.toNat + bytes < 2 ^ 64))
  seek (s.offset + UInt64.ofNat bytes)

namespace File

/-- `lib/vfs/src/file.rs:18–25`. -/
def read (file : File D) (len : Nat) : Prog (Cursor D) FsError (List UInt8) := do
  Prog.lift (Outcome.ensure (file.flags.contains .READ) .permissionDenied)
  let s ← Prog.get
  let bytes ← onDevice (file.inode.readAt s.offset len)
  advance bytes.length
  return bytes

/-- `lib/vfs/src/file.rs:27–37`. -/
def write (file : File D) (buf : List UInt8) : Prog (Cursor D) FsError Nat := do
  Prog.lift (Outcome.ensure (file.flags.contains .WRITE) .permissionDenied)
  if file.flags.contains .APPEND then
    let metadata ← onDevice file.inode.metadata
    seek (UInt64.ofNat metadata.size)
  let s ← Prog.get
  let bytes ← onDevice (file.inode.writeAt s.offset buf)
  advance bytes
  return bytes

end File

/-! ### Operations -/

/-- A call on an open file, or on its inode. -/
inductive Op where
  | seek (pos : UInt64)
  | read (len : Nat)
  | write (buf : List UInt8)
  | readAt (offset : UInt64) (len : Nat)
  | writeAt (offset : UInt64) (buf : List UInt8)
  deriving DecidableEq, Repr

/-- What a call returns. -/
inductive Reply where
  | done
  | bytes (data : List UInt8)
  | count (n : Nat)
  deriving DecidableEq, Repr

/-- Carry out one operation. -/
def File.perform (file : File D) : Op → Prog (Cursor D) FsError Reply
  | .seek pos => (fun _ ↦ .done) <$> Vfs.seek pos
  | .read len => .bytes <$> file.read len
  | .write buf => .count <$> file.write buf
  | .readAt offset len => .bytes <$> onDevice (file.inode.readAt offset len)
  | .writeAt offset buf => .count <$> onDevice (file.inode.writeAt offset buf)

end SmallOs.Vfs
