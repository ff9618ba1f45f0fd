import SmallOs.Base.Maps
import SmallOs.Base.Run
import SmallOs.Vfs.Open

/-!
# File descriptors

`lib/vfs/src/lib.rs:48–93`: the calls that go through a descriptor. An open file is a state
machine of its own, and the table runs one for each descriptor: what goes through one descriptor
is what the file behind it does by itself, whatever goes through the others.
-/

namespace SmallOs.Vfs

open SmallOs.Base

/-- `lib/hal/src/io/mod.rs`: a file reads into a buffer and returns how much, or fails. -/
class Read (H : Type) where
  read : H → List UInt8 → (Option Nat × List UInt8) × H

variable {F H : Type}

/-- `lib/vfs/src/file.rs:51–53`; every error becomes `FsError::IoError`. -/
def FileHandle.read [Read H] (file : H) (buf : List UInt8) :
    (Except FsError Nat × List UInt8) × H :=
  match Read.read file buf with
  | ((some n, buf), file) => ((.ok n, buf), file)
  | ((none, buf), file) => ((.error .ioError, buf), file)

/-- `lib/vfs/src/file.rs:55–57`: a handle cannot be written through. -/
def FileHandle.write (_file : H) (_buf : List UInt8) : Except FsError Nat := .error .ioError

namespace Vfs

/-- `lib/vfs/src/lib.rs:34–40`, with filesystems mounted. -/
def mounted (t : MountTable F) : Vfs F H := ⟨t, ∅, 0⟩

/-- `lib/vfs/src/lib.rs:63–67`. -/
def read [Read H] (v : Vfs F H) (fd : Nat) (buf : List UInt8) :
    (Except FsError Nat × List UInt8) × Vfs F H :=
  match v.fdTable[fd]? with
  | none => ((.error .badFd, buf), v)
  | some file =>
    let (result, file) := FileHandle.read file buf
    (result, { v with fdTable := v.fdTable.insert fd file })

/-- `lib/vfs/src/lib.rs:70–74`. -/
def write (v : Vfs F H) (fd : Nat) (buf : List UInt8) : Except FsError Nat × Vfs F H :=
  match v.fdTable[fd]? with
  | none => (.error .badFd, v)
  | some file => (FileHandle.write file buf, v)

/-- `lib/vfs/src/lib.rs:77–80`. -/
def close (v : Vfs F H) (fd : Nat) : Except FsError Unit × Vfs F H :=
  match v.fdTable[fd]? with
  | none => (.error .badFd, v)
  | some _ => (.ok (), { v with fdTable := v.fdTable.erase fd })

end Vfs

/-- What a caller does with an open file. -/
inductive FileCall where
  | read (buf : List UInt8)
  | write (buf : List UInt8)
  | close
  deriving DecidableEq

/-- A call of the filesystem layer. -/
inductive FdCall where
  | openFile (path : Text) (flags : OpenFlags)
  | on (fd : Nat) (call : FileCall)

/-- What a call returns; a read returns the caller's buffer too. -/
inductive FdReply where
  | opened (fd : Outcome FsError Nat)
  | read (result : Except FsError Nat) (buf : List UInt8)
  | wrote (result : Except FsError Nat)
  | closed (result : Except FsError Unit)

/-- Serve a call. -/
def Vfs.serve [FileSystem F H] [Read H] (v : Vfs F H) : FdCall → FdReply × Vfs F H
  | .openFile path flags =>
    let (fd, v) := v.openFile path flags
    (.opened fd, v)
  | .on fd (.read buf) =>
    let ((result, buf), v) := v.read fd buf
    (.read result buf, v)
  | .on fd (.write buf) =>
    let (result, v) := v.write fd buf
    (.wrote result, v)
  | .on fd .close =>
    let (result, v) := v.close fd
    (.closed result, v)

/-! ### A file by itself -/

/-- The reply to a call on a descriptor that is not open. -/
def FileCall.badFd : FileCall → FdReply
  | read buf => .read (.error .badFd) buf
  | write _ => .wrote (.error .badFd)
  | close => .closed (.error .badFd)

/-- A file as a state machine: it is open and has a state, or it is closed. -/
def FileCall.alone [Read H] (call : FileCall) : Option H → FdReply × Option H
  | none => (call.badFd, none)
  | some file =>
    match call with
    | read buf =>
      let ((result, buf), file) := FileHandle.read file buf
      (.read result buf, some file)
    | write buf => (.wrote (FileHandle.write file buf), some file)
    | close => (.closed (.ok ()), none)

/-- A closed file stays closed and knows no descriptor. -/
theorem FileCall.alone_none [Read H] (call : FileCall) :
    call.alone (none : Option H) = (call.badFd, none) := rfl

/-- A file is open afterwards if it was and the call does not close it. -/
theorem FileCall.isSome_alone [Read H] (call : FileCall) (file : Option H) :
    (call.alone file).2.isSome ↔ file.isSome ∧ call ≠ .close := by
  cases file with
  | none => simp [alone_none]
  | some file => cases call <;> simp [alone]

/-- No call on an open file returns a descriptor. -/
theorem FileCall.alone_ne_opened [Read H] (call : FileCall) (file : Option H)
    (fd : Outcome FsError Nat) : (call.alone file).1 ≠ .opened fd := by
  cases file <;> cases call <;> exact FdReply.noConfusion

namespace Vfs

variable [FileSystem F H] [Read H] {v w : Vfs F H} {fd fd' : Nat}

/-- The file that a path leads to, from the mount table alone. -/
def fileAt (v : Vfs F H) (path : Text) : Except FsError H :=
  match v.openCall path with
  | .error e => .error e
  | .ok (fs, pathStr) =>
    match FileSystem.openFile fs pathStr with
    | none => .error .notFound
    | some file => .ok file

omit [Read H] in
theorem fileAt_congr (h : v.mountTable = w.mountTable) (path : Text) :
    v.fileAt path = w.fileAt path := by
  have hcall : v.openCall path = w.openCall path := by
    unfold openCall findFsForPath
    rw [h]
  unfold fileAt
  rw [hcall]

omit [Read H] in
/-- While the counter has room, opening fails and changes nothing, or gives the file the next
descriptor. -/
theorem openFile_eq (hroom : v.nextFd + 1 < 2 ^ 64) (path : Text) (flags : OpenFlags) :
    v.openFile path flags =
      match v.fileAt path with
      | .error e => (.err e, v)
      | .ok file =>
        (.ok v.nextFd, ⟨v.mountTable, v.fdTable.insert v.nextFd file, v.nextFd + 1⟩) := by
  have halloc : v.allocFd = (.ok v.nextFd, { v with nextFd := v.nextFd + 1 }) := by
    have hadd : (Outcome.addAt 64 v.nextFd 1 : Outcome FsError Nat) = .ok (v.nextFd + 1) :=
      Outcome.addAt_of hroom
    rw [allocFd, hadd]
  unfold openFile fileAt
  cases v.openCall path with
  | error e => rfl
  | ok call =>
    obtain ⟨fs, pathStr⟩ := call
    cases hopen : FileSystem.openFile fs pathStr with
    | none => simp only [hopen]
    | some file => simp only [hopen, halloc]

/-- A descriptor that is not open is refused, and nothing changes. -/
theorem serve_on_closed (call : FileCall) (h : v.fdTable[fd]? = none) :
    v.serve (.on fd call) = (call.badFd, v) := by
  cases call <;> simp [serve, read, write, close, h, FileCall.badFd]

/-- A call on a descriptor is a call of the file behind it. -/
theorem serve_on (v : Vfs F H) (fd : Nat) (call : FileCall) :
    (v.serve (.on fd call)).1 = (call.alone v.fdTable[fd]?).1 ∧
      (v.serve (.on fd call)).2.fdTable[fd]? = (call.alone v.fdTable[fd]?).2 := by
  cases hfd : v.fdTable[fd]? with
  | none => simp [serve_on_closed call hfd, FileCall.alone_none, hfd]
  | some file =>
    cases call with
    | read buf => simp [serve, read, FileCall.alone, hfd]
    | write buf => simp [serve, write, FileCall.alone, hfd]
    | close => simp [serve, close, FileCall.alone, hfd]

/-- It leaves everything else as it was. -/
theorem serve_on_other (v : Vfs F H) (call : FileCall) (hne : fd ≠ fd') :
    (v.serve (.on fd call)).2.fdTable[fd']? = v.fdTable[fd']? := by
  cases hfd : v.fdTable[fd]? with
  | none => rw [serve_on_closed call hfd]
  | some file =>
    cases call with
    | read buf => simp [serve, read, hfd, Std.TreeMap.getElem?_insert, hne]
    | write buf => simp [serve, write, hfd]
    | close => simp [serve, close, hfd, Std.TreeMap.getElem?_erase, hne]

theorem serve_on_rest (v : Vfs F H) (fd : Nat) (call : FileCall) :
    (v.serve (.on fd call)).2.mountTable = v.mountTable ∧
      (v.serve (.on fd call)).2.nextFd = v.nextFd := by
  cases hfd : v.fdTable[fd]? with
  | none => simp [serve_on_closed call hfd]
  | some file => cases call <;> simp [serve, read, write, close, hfd]

/-- A call whose path leads to no file changes nothing, while the counter has room. -/
theorem serve_openFile_error {path : Text} {e : FsError} (hroom : v.nextFd + 1 < 2 ^ 64)
    (hfile : v.fileAt path = .error e) (flags : OpenFlags) :
    v.serve (.openFile path flags) = (.opened (.err e), v) := by
  simp [serve, openFile_eq hroom, hfile]

/-- A call whose path leads to a file gives it the next descriptor, while the counter has room. -/
theorem serve_openFile_ok {path : Text} {file : H} (hroom : v.nextFd + 1 < 2 ^ 64)
    (hfile : v.fileAt path = .ok file) (flags : OpenFlags) :
    v.serve (.openFile path flags) = (.opened (.ok v.nextFd),
      ⟨v.mountTable, v.fdTable.insert v.nextFd file, v.nextFd + 1⟩) := by
  simp [serve, openFile_eq hroom, hfile]

end Vfs

/-! ### Runs -/

section Runs

/-- A call opens a file. -/
def FdCall.isOpen : FdCall → Bool
  | openFile _ _ => true
  | on _ _ => false

/-- What a call does with the file behind a descriptor. -/
def FdCall.via (fd : Nat) : FdCall → Option FileCall
  | openFile _ _ => none
  | on fd' call => if fd' = fd then some call else none

/-- A call opens a file or goes through the descriptor. -/
def FdCall.keeps (fd : Nat) : FdCall → Bool
  | openFile _ _ => true
  | on fd' _ => fd' = fd

variable {F H : Type}

/-- The descriptor that a call has returned. -/
def openedFd (x : Call (Vfs F H) FdCall FdReply) : Option Nat :=
  match x.output with
  | .opened (.ok fd) => some fd
  | _ => none

/-- How many calls try to open a file. -/
def opens (t : List (Call (Vfs F H) FdCall FdReply)) : Nat := t.countP (·.input.isOpen)

/-- The calls through a descriptor. -/
def callsVia (fd : Nat) (t : List (Call (Vfs F H) FdCall FdReply)) : List FileCall :=
  t.filterMap fun x ↦ x.input.via fd

/-- The replies to the calls through a descriptor. -/
def repliesVia (fd : Nat) (t : List (Call (Vfs F H) FdCall FdReply)) : List FdReply :=
  t.filterMap fun x ↦ (x.input.via fd).map fun _ ↦ x.output

/-- The descriptor was returned by a call and not closed since. -/
def OpenSince (fd : Nat) (t : List (Call (Vfs F H) FdCall FdReply)) : Prop :=
  ∃ t₁ x t₂, t = t₁ ++ x :: t₂ ∧ openedFd x = some fd ∧ ∀ y ∈ t₂, y.input ≠ .on fd .close

/-- The replies of a file by itself. -/
def aloneReplies [Read H] (file : Option H) : List FileCall → List FdReply
  | [] => []
  | call :: calls => (call.alone file).1 :: aloneReplies (call.alone file).2 calls

theorem callsVia_cons (fd : Nat) (x : Call (Vfs F H) FdCall FdReply)
    (t : List (Call (Vfs F H) FdCall FdReply)) :
    callsVia fd (x :: t) = (x.input.via fd).toList ++ callsVia fd t := by
  rw [callsVia, List.filterMap_cons]
  cases x.input.via fd <;> rfl

theorem repliesVia_cons (fd : Nat) (x : Call (Vfs F H) FdCall FdReply)
    (t : List (Call (Vfs F H) FdCall FdReply)) :
    repliesVia fd (x :: t) =
      ((x.input.via fd).map fun _ ↦ x.output).toList ++ repliesVia fd t := by
  rw [repliesVia, List.filterMap_cons]
  cases x.input.via fd <;> rfl

/-- A call that does not go through the descriptor gives no reply through it. -/
theorem repliesVia_cons_none {fd : Nat} {x : Call (Vfs F H) FdCall FdReply}
    {t : List (Call (Vfs F H) FdCall FdReply)} (hvia : x.input.via fd = none) :
    repliesVia fd (x :: t) = repliesVia fd t ∧ callsVia fd (x :: t) = callsVia fd t := by
  rw [repliesVia_cons, callsVia_cons, hvia]
  exact ⟨rfl, rfl⟩

theorem repliesVia_cons_some {fd : Nat} {x : Call (Vfs F H) FdCall FdReply}
    {t : List (Call (Vfs F H) FdCall FdReply)} {call : FileCall}
    (hvia : x.input.via fd = some call) :
    repliesVia fd (x :: t) = x.output :: repliesVia fd t ∧
      callsVia fd (x :: t) = call :: callsVia fd t := by
  rw [repliesVia_cons, callsVia_cons, hvia]
  exact ⟨rfl, rfl⟩

theorem openSince_append {fd : Nat} {t : List (Call (Vfs F H) FdCall FdReply)}
    {x : Call (Vfs F H) FdCall FdReply} :
    OpenSince fd (t ++ [x]) ↔
      openedFd x = some fd ∨ OpenSince fd t ∧ x.input ≠ .on fd .close :=
  since_append

variable [FileSystem F H] [Read H] {v w s : Vfs F H}
  {t : List (Call (Vfs F H) FdCall FdReply)}

theorem repliesVia_calls_none {fd : Nat} {input : FdCall} {inputs : List FdCall}
    (hvia : input.via fd = none) :
    repliesVia fd (calls Vfs.serve w (input :: inputs)) =
      repliesVia fd (calls Vfs.serve (w.serve input).2 inputs) :=
  (repliesVia_cons_none hvia).1

theorem repliesVia_calls_some {fd : Nat} {input : FdCall} {inputs : List FdCall} {call : FileCall}
    (hvia : input.via fd = some call) :
    repliesVia fd (calls Vfs.serve w (input :: inputs)) =
      (w.serve input).1 :: repliesVia fd (calls Vfs.serve (w.serve input).2 inputs) :=
  (repliesVia_cons_some hvia).1

/-- The calls that the filesystem layer serves. -/
def Serves (x : Call (Vfs F H) FdCall FdReply) : Prop :=
  (x.output, x.after) = x.before.serve x.input

/-- What the calls so far say of the descriptors. -/
structure Tracks (mounts : MountTable F) (t : List (Call (Vfs F H) FdCall FdReply))
    (v : Vfs F H) : Prop where
  mounts : v.mountTable = mounts
  room : v.nextFd ≤ opens t
  fds : t.filterMap openedFd = List.range v.nextFd
  below : ∀ fd file, v.fdTable[fd]? = some file → fd < v.nextFd
  live : ∀ fd, v.fdTable[fd]?.isSome ↔ OpenSince fd t

omit [FileSystem F H] [Read H] in
theorem tracks_mounted (mounts : MountTable F) :
    Tracks mounts [] (Vfs.mounted mounts : Vfs F H) := by
  refine ⟨rfl, Nat.le_refl 0, rfl, ?_, ?_⟩
  · intro fd file h
    simp [Vfs.mounted] at h
  · intro fd
    exact iff_of_false (by simp [Vfs.mounted]) not_since_nil

/-- What a call does: it opens no file and changes nothing, gives a file the next descriptor, or
lets the file behind a descriptor do what it does by itself. -/
inductive Effect (x : Call (Vfs F H) FdCall FdReply) : Prop where
  | refused (path : Text) (flags : OpenFlags) (e : FsError)
      (input : x.input = .openFile path flags) (found : x.before.fileAt path = .error e)
      (output : x.output = .opened (.err e)) (after : x.after = x.before)
  | opened (path : Text) (flags : OpenFlags) (file : H)
      (input : x.input = .openFile path flags) (found : x.before.fileAt path = .ok file)
      (output : x.output = .opened (.ok x.before.nextFd))
      (after : x.after = ⟨x.before.mountTable, x.before.fdTable.insert x.before.nextFd file,
        x.before.nextFd + 1⟩)
  | via (fd : Nat) (call : FileCall) (input : x.input = .on fd call)
      (output : x.output = (call.alone x.before.fdTable[fd]?).1)
      (file : x.after.fdTable[fd]? = (call.alone x.before.fdTable[fd]?).2)
      (others : ∀ fd', fd ≠ fd' → x.after.fdTable[fd']? = x.before.fdTable[fd']?)
      (mounts : x.after.mountTable = x.before.mountTable)
      (nextFd : x.after.nextFd = x.before.nextFd)

theorem Serves.effect {x : Call (Vfs F H) FdCall FdReply} (hx : Serves x)
    (hroom : x.input.isOpen → x.before.nextFd + 1 < 2 ^ 64) : Effect x := by
  obtain ⟨before, input, output, after⟩ := x
  have houtput : output = (before.serve input).1 := congrArg Prod.fst hx
  have hafter : after = (before.serve input).2 := congrArg Prod.snd hx
  clear hx
  subst houtput hafter
  cases input with
  | openFile path flags =>
    cases hfile : before.fileAt path with
    | error e =>
      have hserve := Vfs.serve_openFile_error (hroom rfl) hfile flags
      exact .refused path flags e rfl hfile (congrArg Prod.fst hserve) (congrArg Prod.snd hserve)
    | ok file =>
      have hserve := Vfs.serve_openFile_ok (hroom rfl) hfile flags
      exact .opened path flags file rfl hfile (congrArg Prod.fst hserve)
        (congrArg Prod.snd hserve)
  | on fd call =>
    obtain ⟨hreply, hfile⟩ := before.serve_on fd call
    obtain ⟨hmounts, hnext⟩ := before.serve_on_rest fd call
    exact .via fd call rfl hreply hfile (fun _ hne ↦ before.serve_on_other call hne) hmounts hnext

omit [FileSystem F H] [Read H] in
theorem opens_append (t : List (Call (Vfs F H) FdCall FdReply))
    (x : Call (Vfs F H) FdCall FdReply) :
    opens (t ++ [x]) = opens t + if x.input.isOpen then 1 else 0 := by
  simp [opens, List.countP_append, List.countP_singleton]

/-- One call more. -/
theorem Tracks.step {mounts : MountTable F} {x : Call (Vfs F H) FdCall FdReply} (hx : Effect x)
    (h : Tracks mounts t x.before) : Tracks mounts (t ++ [x]) x.after := by
  have hroom := h.room
  cases hx with
  | refused path flags e input found output after =>
    have hfd : openedFd x = none := by rw [openedFd, output]
    rw [after]
    refine ⟨h.mounts, ?_, ?_, h.below, ?_⟩
    · rw [opens_append]
      omega
    · rw [List.filterMap_append, h.fds, List.filterMap_cons_none hfd]
      exact List.append_nil _
    · intro fd
      rw [openSince_append, hfd, h.live fd, input]
      simp
  | opened path flags file input found output after =>
    have hfd : openedFd x = some x.before.nextFd := by rw [openedFd, output]
    rw [after]
    refine ⟨h.mounts, ?_, ?_, ?_, ?_⟩
    · rw [opens_append, input]
      exact Nat.succ_le_succ hroom
    · rw [List.filterMap_append, h.fds, List.filterMap_cons_some hfd, List.range_succ]
      rfl
    · intro fd file' hfile
      change (x.before.fdTable.insert _ _)[fd]? = _ at hfile
      change fd < x.before.nextFd + 1
      rw [getElem?_insert] at hfile
      by_cases hne : x.before.nextFd = fd
      · omega
      · rw [if_neg hne] at hfile
        have := h.below fd file' hfile
        omega
    · intro fd
      change (x.before.fdTable.insert _ _)[fd]?.isSome ↔ _
      rw [openSince_append, hfd, ← h.live fd, input, getElem?_insert]
      by_cases hne : x.before.nextFd = fd
      · simp [hne]
      · simp [hne]
  | via fd call input output file others mountTable nextFd =>
    have hfd : openedFd x = none := by
      rw [openedFd, output]
      split
      · rename_i fd' heq
        exact absurd heq (call.alone_ne_opened _ _)
      · rfl
    refine ⟨mountTable.trans h.mounts, ?_, ?_, ?_, ?_⟩
    · rw [opens_append, nextFd]
      omega
    · rw [List.filterMap_append, h.fds, List.filterMap_cons_none hfd, nextFd]
      exact List.append_nil _
    · intro fd' file' hfile
      rw [nextFd]
      by_cases hne : fd = fd'
      · subst hne
        have hsome : (call.alone x.before.fdTable[fd]?).2.isSome := by
          rw [← file, hfile]
          rfl
        obtain ⟨old, hold⟩ := Option.isSome_iff_exists.mp ((call.isSome_alone _).mp hsome).1
        exact h.below fd old hold
      · rw [others fd' hne] at hfile
        exact h.below fd' file' hfile
    · intro fd'
      rw [openSince_append, hfd, ← h.live fd', input]
      by_cases hne : fd = fd'
      · subst hne
        rw [file, call.isSome_alone]
        simp
      · rw [others fd' hne]
        simp [hne]

/-- Every run of calls. -/
theorem tracks_of_run {mounts : MountTable F} (h : Run Serves (Vfs.mounted mounts) t s)
    (hroom : opens t < 2 ^ 64) : Tracks mounts t s := by
  refine h.history (I := fun t s ↦ opens t < 2 ^ 64 → Tracks mounts t s) ?_ ?_ hroom
  · intro t x hx ih hroom
    rw [opens_append] at hroom
    have hbefore := ih (by omega)
    have hnext := hbefore.room
    refine hbefore.step (hx.effect ?_)
    intro hopen
    rw [if_pos hopen] at hroom
    omega
  · exact fun _ ↦ tracks_mounted mounts

omit [FileSystem F H] [Read H] in
theorem opens_cons (x : Call (Vfs F H) FdCall FdReply)
    (t : List (Call (Vfs F H) FdCall FdReply)) :
    opens (x :: t) = opens t + if x.input.isOpen then 1 else 0 := by
  simp [opens, List.countP_cons]

/-- The first call of a run, while the counter has room for all of its calls. -/
theorem Serves.effect_head {x : Call (Vfs F H) FdCall FdReply} (hx : Serves x)
    (hroom : x.before.nextFd + opens (x :: t) < 2 ^ 64) :
    Effect x ∧ x.after.nextFd + opens t < 2 ^ 64 := by
  rw [opens_cons] at hroom
  have heffect : Effect x := by
    apply hx.effect
    intro hopen
    rw [if_pos hopen] at hroom
    omega
  refine ⟨heffect, ?_⟩
  cases heffect with
  | refused path flags e input found output after =>
    rw [after]
    omega
  | opened path flags file input found output after =>
    rw [input] at hroom
    rw [after]
    change x.before.nextFd + (opens t + 1) < 2 ^ 64 at hroom
    change x.before.nextFd + 1 + opens t < 2 ^ 64
    omega
  | via fd call input output file others mounts nextFd =>
    rw [nextFd]
    omega

/-- What goes through a descriptor that has been given out is what its file does by itself. -/
theorem repliesVia_eq {fd : Nat} (h : Run Serves v t s) (hroom : v.nextFd + opens t < 2 ^ 64)
    (hfd : fd < v.nextFd) :
    repliesVia fd t = aloneReplies v.fdTable[fd]? (callsVia fd t) := by
  induction h with
  | nil => rfl
  | @cons x t s head tail ih =>
    obtain ⟨heffect, hroom⟩ := head.effect_head hroom
    cases heffect with
    | refused path flags e input found output after =>
      have hvia : x.input.via fd = none := by rw [input, FdCall.via]
      rw [(repliesVia_cons_none hvia).1, (repliesVia_cons_none hvia).2]
      have hrest := ih hroom (after ▸ hfd)
      rw [after] at hrest
      exact hrest
    | opened path flags file input found output after =>
      have hvia : x.input.via fd = none := by rw [input, FdCall.via]
      rw [(repliesVia_cons_none hvia).1, (repliesVia_cons_none hvia).2]
      have hrest := ih hroom (by rw [after]; exact Nat.lt_succ_of_lt hfd)
      rw [after] at hrest
      rw [getElem?_insert, if_neg (Nat.ne_of_gt hfd)] at hrest
      exact hrest
    | via fd' call input output file others mounts nextFd =>
      have hrest := ih hroom (nextFd ▸ hfd)
      by_cases hne : fd' = fd
      · subst hne
        have hvia : x.input.via fd' = some call := by rw [input, FdCall.via, if_pos rfl]
        rw [(repliesVia_cons_some hvia).1, (repliesVia_cons_some hvia).2, aloneReplies, ← file,
          output]
        exact congrArg _ hrest
      · have hvia : x.input.via fd = none := by rw [input, FdCall.via, if_neg hne]
        rw [(repliesVia_cons_none hvia).1, (repliesVia_cons_none hvia).2]
        rw [others fd hne] at hrest
        exact hrest

/-- A descriptor that has been given out is not affected by what goes through the others: the
replies through it stay when those calls are left out. -/
theorem repliesVia_kept {fd : Nat} (h : Run Serves v t s) (hroom : v.nextFd + opens t < 2 ^ 64)
    (hmounts : w.mountTable = v.mountTable) (hnext : w.nextFd = v.nextFd)
    (hfile : w.fdTable[fd]? = v.fdTable[fd]?) :
    repliesVia fd (calls Vfs.serve w ((t.map Call.input).filter (FdCall.keeps fd))) =
      repliesVia fd t := by
  induction h generalizing w with
  | nil => rfl
  | @cons x t s head tail ih =>
    obtain ⟨heffect, hrest⟩ := head.effect_head hroom
    have hfileAt := Vfs.fileAt_congr hmounts
    have hnow : x.input.isOpen → w.nextFd + 1 < 2 ^ 64 := by
      intro hopen
      rw [opens_cons, if_pos hopen] at hroom
      omega
    rw [List.map_cons]
    cases heffect with
    | refused path flags e input found output after =>
      have hvia : x.input.via fd = none := by rw [input, FdCall.via]
      have hserve : w.serve x.input = (.opened (.err e), w) := by
        rw [input]
        exact Vfs.serve_openFile_error (hnow (input ▸ rfl)) ((hfileAt path).trans found) flags
      rw [List.filter_cons_of_pos (by rw [input, FdCall.keeps]), repliesVia_calls_none hvia,
        (repliesVia_cons_none hvia).1, hserve]
      rw [after] at ih hrest
      exact ih hrest hmounts hnext hfile
    | opened path flags file input found output after =>
      have hvia : x.input.via fd = none := by rw [input, FdCall.via]
      have hserve : w.serve x.input = (.opened (.ok w.nextFd),
          ⟨w.mountTable, w.fdTable.insert w.nextFd file, w.nextFd + 1⟩) := by
        rw [input]
        exact Vfs.serve_openFile_ok (hnow (input ▸ rfl)) ((hfileAt path).trans found) flags
      rw [List.filter_cons_of_pos (by rw [input, FdCall.keeps]), repliesVia_calls_none hvia,
        (repliesVia_cons_none hvia).1, hserve]
      rw [after] at ih hrest
      refine ih hrest hmounts (congrArg (· + 1) hnext) ?_
      rw [getElem?_insert, getElem?_insert, hnext, hfile]
    | via fd' call input output file others mounts nextFd =>
      by_cases hne : fd' = fd
      · subst hne
        have hvia : x.input.via fd' = some call := by rw [input, FdCall.via, if_pos rfl]
        obtain ⟨hreply, hafter⟩ := w.serve_on fd' call
        obtain ⟨hwm, hwn⟩ := w.serve_on_rest fd' call
        rw [List.filter_cons_of_pos (by simp [input, FdCall.keeps]), repliesVia_calls_some hvia,
          (repliesVia_cons_some hvia).1, input, hreply, hfile, ← output]
        refine congrArg _ (ih hrest ?_ ?_ ?_)
        · rw [hwm, hmounts, mounts]
        · rw [hwn, hnext, nextFd]
        · rw [hafter, hfile, file]
      · have hvia : x.input.via fd = none := by rw [input, FdCall.via, if_neg hne]
        rw [List.filter_cons_of_neg (by simp [input, FdCall.keeps, hne]),
          (repliesVia_cons_none hvia).1]
        exact ih hrest (hmounts.trans mounts.symm) (hnext.trans nextFd.symm)
          (hfile.trans (others fd hne).symm)

/-- The calls through a descriptor, made through another one. -/
theorem callsVia_calls (w : Vfs F H) (fd : Nat) (fileCalls : List FileCall) :
    callsVia fd (calls Vfs.serve w (fileCalls.map (.on fd))) = fileCalls := by
  induction fileCalls generalizing w with
  | nil => rfl
  | cons call fileCalls ih =>
    rw [List.map_cons, calls, callsVia, List.filterMap_cons, FdCall.via, if_pos rfl]
    exact congrArg _ (ih _)

theorem opens_calls (w : Vfs F H) (fd : Nat) (fileCalls : List FileCall) :
    opens (calls Vfs.serve w (fileCalls.map (.on fd))) = 0 := by
  induction fileCalls generalizing w with
  | nil => rfl
  | cons call fileCalls ih =>
    rw [List.map_cons, calls, opens_cons, ih]
    rfl

/-- A file that is opened and used alone, as descriptor 0, gives the replies that it gave in a
run among others. -/
theorem repliesVia_alone {mounts : MountTable F} {fd : Nat} {path : Text} {flags : OpenFlags}
    {x : Call (Vfs F H) FdCall FdReply} {t₁ t₂ : List (Call (Vfs F H) FdCall FdReply)}
    (h : Run Serves (Vfs.mounted mounts) (t₁ ++ x :: t₂) s)
    (hroom : opens (t₁ ++ x :: t₂) < 2 ^ 64) (hinput : x.input = .openFile path flags)
    (hfd : openedFd x = some fd) :
    repliesVia 0 (calls Vfs.serve (Vfs.mounted mounts : Vfs F H)
        (.openFile path flags :: (callsVia fd t₂).map (.on 0))) = repliesVia fd t₂ := by
  obtain ⟨hbefore, hx, hafter⟩ := h.split
  have hopens : opens (t₁ ++ x :: t₂) = opens t₁ + opens (x :: t₂) := List.countP_append
  have htracks := tracks_of_run hbefore (by omega)
  have hnext := htracks.room
  obtain ⟨heffect, hrest⟩ := hx.effect_head (t := t₂) (by omega)
  cases heffect with
  | refused _ _ e _ _ output _ =>
    rw [openedFd, output] at hfd
    cases hfd
  | via fd' call input _ _ _ _ _ =>
    rw [hinput] at input
    cases input
  | opened path' flags' file input found output after =>
    rw [hinput] at input
    obtain ⟨rfl, rfl⟩ := FdCall.openFile.inj input
    rw [openedFd, output] at hfd
    obtain rfl := Option.some.inj hfd
    rw [after] at hafter hrest
    have hown := repliesVia_eq hafter hrest (Nat.lt_succ_self _)
    rw [getElem?_insert, if_pos rfl] at hown
    have hzero : (Vfs.mounted mounts : Vfs F H).nextFd + 1 < 2 ^ 64 := by
      change 0 + 1 < 2 ^ 64
      omega
    have hok : (Vfs.mounted mounts : Vfs F H).fileAt path = .ok file :=
      (Vfs.fileAt_congr htracks.mounts path).symm.trans found
    rw [calls, Vfs.serve_openFile_ok hzero hok flags, hown]
    let first : Vfs F H := ⟨mounts, (∅ : Std.TreeMap Nat H).insert 0 file, 1⟩
    have hfew : first.nextFd +
        opens (calls Vfs.serve first ((callsVia x.before.nextFd t₂).map (.on 0))) < 2 ^ 64 := by
      rw [opens_calls]
      change 1 + 0 < 2 ^ 64
      omega
    have halone := repliesVia_eq (run_calls Vfs.serve first _) hfew Nat.one_pos
    rw [callsVia_calls, getElem?_insert, if_pos rfl] at halone
    exact halone

/-- Descriptors are returned once and stay open until they are closed. The replies through one of
them are those of a run without the calls through the others, and those of a run in which its
file is the only one. What goes through a descriptor that is not open is refused and changes
nothing. -/
theorem descriptors_isolated {mounts : MountTable F} (h : Run Serves (Vfs.mounted mounts) t s)
    (hopens : opens t < 2 ^ 64) :
    (t.filterMap openedFd).Nodup ∧
      (∀ fd, s.fdTable[fd]?.isSome ↔ OpenSince fd t) ∧
      (∀ fd, repliesVia fd (calls Vfs.serve (Vfs.mounted mounts : Vfs F H)
        ((t.map Call.input).filter (FdCall.keeps fd))) = repliesVia fd t) ∧
      (∀ t₁ x t₂ fd path flags, t = t₁ ++ x :: t₂ → x.input = .openFile path flags →
        openedFd x = some fd →
        repliesVia 0 (calls Vfs.serve (Vfs.mounted mounts : Vfs F H)
          (.openFile path flags :: (callsVia fd t₂).map (.on 0))) = repliesVia fd t₂) ∧
      ∀ t₁ x t₂ fd call, t = t₁ ++ x :: t₂ → x.input = .on fd call → ¬ OpenSince fd t₁ →
        x.output = call.badFd ∧ x.after = x.before := by
  have htracks := tracks_of_run h hopens
  refine ⟨?_, htracks.live, ?_, ?_, ?_⟩
  · rw [htracks.fds]
    exact List.nodup_range
  · intro fd
    apply repliesVia_kept h _ rfl rfl rfl
    change 0 + opens t < 2 ^ 64
    omega
  · intro t₁ x t₂ fd path flags ht hinput hfd
    subst ht
    exact repliesVia_alone h hopens hinput hfd
  · intro t₁ x t₂ fd call ht hinput hclosed
    subst ht
    obtain ⟨hbefore, hx, -⟩ := h.split
    have hsum : opens (t₁ ++ x :: t₂) = opens t₁ + opens (x :: t₂) := List.countP_append
    have hlive := (tracks_of_run hbefore (by omega)).live fd
    have hnone : x.before.fdTable[fd]? = none :=
      Option.not_isSome_iff_eq_none.mp (fun hsome ↦ hclosed (hlive.mp hsome))
    have hserve := x.before.serve_on_closed call hnone
    rw [Serves, hinput, hserve] at hx
    exact Prod.mk.inj hx

end Runs

section Pair

/-- A filesystem with one file under every path. -/
structure OneFile where
  data : List UInt8

instance : FileSystem OneFile (List UInt8) where
  openFile fs _ := some fs.data

/-- A file that is what is left to read of it. -/
instance : Read (List UInt8) where
  read file buf :=
    ((some (min file.length buf.length), file.take buf.length ++ buf.drop file.length),
      file.drop buf.length)

/-- The filesystem, mounted at the root. -/
def oneFileMounted : MountTable OneFile :=
  (MountTable.new.mount ⟨[7, 8, 9]⟩ ⟨Path.split [], true, Path.names_split []⟩).2

/-- Two descriptors on the same path, each with its own cursor: without the read through the
first, the second reads the same bytes. -/
theorem descriptors_isolated_pair :
    repliesVia 1 (calls Vfs.serve (Vfs.mounted oneFileMounted)
      [.openFile ['/', 'a'] .READ, .openFile ['/', 'a'] .READ, .on 1 (.read [0, 0])]) =
      [.read (.ok 2) [7, 8]] := by
  have hopens : opens (calls Vfs.serve (Vfs.mounted oneFileMounted)
      [.openFile ['/', 'a'] .READ, .openFile ['/', 'a'] .READ, .on 0 (.read [0]),
        .on 1 (.read [0, 0])]) < 2 ^ 64 := by
    change 2 < 2 ^ 64
    omega
  exact (descriptors_isolated (run_calls _ _ _) hopens).2.2.1 1

end Pair

end SmallOs.Vfs
