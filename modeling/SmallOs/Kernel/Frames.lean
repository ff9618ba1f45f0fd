import SmallOs.Base.Links
import SmallOs.Base.Outcome

/-!
# The frame allocator

`kernel/src/memory/mod.rs:64–132`: the memory map that the boot loader leaves is read once, and
every call walks its usable regions up to the next frame. Physical addresses and frames are those
of the `x86_64` crate, which is a parameter.
-/

namespace SmallOs.Kernel

open SmallOs.Base

/-- `x86_64::structures::paging::PhysFrame::containing_address` of a `PhysAddr::new`: the first
address of a frame. -/
class PhysFrame where
  containingAddress : ∀ {ε : Type}, Nat → Outcome ε Nat

/-- A physical address has 52 bits, and a frame starts at a multiple of its size. -/
structure PhysFrame.Lawful [PhysFrame] : Prop where
  containingAddress_eq : ∀ {ε : Type} (addr : Nat),
    (PhysFrame.containingAddress addr : Outcome ε Nat) =
      if addr < 2 ^ 52 then .ok (addr / 4096 * 4096) else .panic

/-- `lib/boot/src/lib.rs:53–65`. -/
inductive MemoryRegionKind where
  | unknown | usable | reserved | acpiReclaimable | acpiNvs | badMemory | bootloader | frameBuffer
  deriving DecidableEq, Repr

/-- `lib/boot/src/lib.rs:45–51`. -/
structure MemoryRegion where
  start : Nat
  end_ : Nat
  kind : MemoryRegionKind
  deriving DecidableEq, Repr

/-- The fields that are read of `lib/boot/src/lib.rs:16–23`. -/
structure E820Entry where
  base : Nat
  length : Nat
  entryType : Nat
  deriving DecidableEq, Repr

/-- `kernel/src/memory/mod.rs:92–99`. -/
def E820Entry.kind (e : E820Entry) : MemoryRegionKind :=
  match e.entryType with
  | 1 => .usable
  | 2 => .reserved
  | 3 => .acpiReclaimable
  | 4 => .acpiNvs
  | 5 => .badMemory
  | _ => .unknown

/-- `kernel/src/memory/mod.rs:64–67`. -/
structure BootInfoFrameAllocator where
  memoryMap : List MemoryRegion
  next : Nat
  deriving DecidableEq, Repr

namespace BootInfoFrameAllocator

variable {ε : Type}

/-- `kernel/src/memory/mod.rs:80–83`. -/
def readEntry (m : Memory) (ptr i : Nat) : Outcome ε E820Entry := do
  let base ← Outcome.addAt 64 ptr (← Outcome.mulAt 64 i 24)
  let length ← Outcome.addAt 64 base 8
  let entryType ← Outcome.addAt 64 base 16
  return ⟨m.word base, m.word length, leNat (m.load entryType 4)⟩

/-- `kernel/src/memory/mod.rs:79–105`: entries are kept until there are 256, and empty ones are
passed over. -/
def readRegions (m : Memory) (ptr : Nat) :
    List Nat → List MemoryRegion → Outcome ε (List MemoryRegion)
  | [], regions => .ok regions
  | i :: rest, regions => do
    let e ← readEntry m ptr i
    if 256 ≤ regions.length then return regions
    else if e.length = 0 then readRegions m ptr rest regions
    else
      let end_ ← Outcome.addAt 64 e.base e.length
      readRegions m ptr rest (regions ++ [⟨e.base, end_, e.kind⟩])

/-- `kernel/src/memory/mod.rs:74–108`. -/
def initFromRaw (m : Memory) (ptr len : Nat) : Outcome ε BootInfoFrameAllocator := do
  let regions ← readRegions m ptr (List.range len) []
  return ⟨regions, 0⟩

/-- `kernel/src/memory/mod.rs:112`. -/
def allocStart : Nat := 0x2000000

/-- The addresses of a region at which a frame is taken,
`kernel/src/memory/mod.rs:118–120`. -/
def addrs (r : MemoryRegion) : List Nat :=
  let start := max r.start allocStart
  if r.end_ ≤ start then []
  else (List.range ((r.end_ - start + 4095) / 4096)).map fun k ↦ start + 4096 * k

/-- The addresses of all usable regions, in the order of the map. -/
def usableAddrs (a : BootInfoFrameAllocator) : List Nat :=
  (a.memoryMap.filter fun r ↦ r.kind = .usable).flatMap addrs

/-- An item of a lazy iterator; the items before it are computed first. -/
def nth {α : Type} : List (Outcome ε α) → Nat → Outcome ε (Option α)
  | [], _ => .ok none
  | x :: _, 0 => some <$> x
  | x :: rest, n + 1 => do
    let _ ← x
    nth rest n

variable [PhysFrame]

/-- `kernel/src/memory/mod.rs:110–123`. -/
def usableFrames (a : BootInfoFrameAllocator) : List (Outcome ε Nat) :=
  a.usableAddrs.map PhysFrame.containingAddress

/-- `kernel/src/memory/mod.rs:127–131`. -/
def allocateFrame : Prog BootInfoFrameAllocator ε (Option Nat) := do
  let a ← Prog.get
  let frame ← Prog.lift (nth a.usableFrames a.next)
  Prog.set { a with next := a.next + 1 }
  return frame

end BootInfoFrameAllocator

/-! ### What a call does -/

/-- The first address of the frame that holds an address. -/
def frameOf (addr : Nat) : Nat := addr / 4096 * 4096

theorem frameOf_of_dvd {addr : Nat} (h : 4096 ∣ addr) : frameOf addr = addr :=
  Nat.div_mul_cancel h

namespace BootInfoFrameAllocator

variable {ε : Type}

theorem mem_addrs {r : MemoryRegion} {addr : Nat} :
    addr ∈ addrs r ↔ ∃ k, addr = max r.start allocStart + 4096 * k ∧ addr < r.end_ := by
  rw [addrs]
  by_cases hempty : r.end_ ≤ max r.start allocStart
  · simp only [if_pos hempty, List.not_mem_nil, false_iff]
    rintro ⟨k, rfl, hlt⟩
    omega
  · simp only [if_neg hempty, List.mem_map, List.mem_range]
    constructor
    · rintro ⟨k, hk, rfl⟩
      exact ⟨k, rfl, by omega⟩
    · rintro ⟨k, rfl, hlt⟩
      exact ⟨k, by omega, rfl⟩

variable [PhysFrame]

/-- An item is reached when all addresses up to it are physical addresses. -/
theorem nth_containingAddress (hl : PhysFrame.Lawful) (l : List Nat) (n : Nat) :
    (nth (l.map PhysFrame.containingAddress) n : Outcome ε (Option Nat)) =
      if ∀ addr ∈ l.take (n + 1), addr < 2 ^ 52 then .ok (l[n]?.map frameOf) else .panic := by
  induction l generalizing n with
  | nil =>
    rw [if_pos (by rw [List.take_nil]; nofun)]
    rfl
  | cons addr l ih =>
    rw [List.map_cons, hl.containingAddress_eq]
    by_cases haddr : addr < 2 ^ 52
    · rw [if_pos haddr]
      cases n with
      | zero =>
        rw [if_pos]
        · rfl
        · intro b hb
          rw [List.take_succ_cons, List.take_zero, List.mem_singleton] at hb
          rwa [hb]
      | succ n =>
        rw [nth, Outcome.ok_bind, ih n, List.getElem?_cons_succ, List.take_succ_cons]
        simp only [List.mem_cons, forall_eq_or_imp, haddr, true_and]
    · rw [if_neg haddr, if_neg]
      · cases n with
        | zero => rfl
        | succ n => rfl
      · intro hall
        rw [List.take_succ_cons] at hall
        exact haddr (hall addr List.mem_cons_self)

theorem allocateFrame_apply (a : BootInfoFrameAllocator) :
    (allocateFrame : Prog _ ε _) a = match (nth a.usableFrames a.next : Outcome ε (Option Nat)) with
      | .ok frame => (.ok frame, { a with next := a.next + 1 })
      | .err e => (.err e, a)
      | .panic => (.panic, a) := by
  rw [allocateFrame, Prog.bind_of_ok (Prog.get_apply a), Prog.bind_apply, Prog.lift_apply]
  cases (nth a.usableFrames a.next : Outcome ε (Option Nat)) with
  | ok frame => rfl
  | err e => rfl
  | panic => rfl

/-- A call takes the frame that is next in line, if there is one. -/
theorem allocateFrame_eq_ok (hl : PhysFrame.Lawful) {a s : BootInfoFrameAllocator}
    {frame : Option Nat} :
    (allocateFrame : Prog _ ε _) a = (.ok frame, s) ↔
      (∀ addr ∈ a.usableAddrs.take (a.next + 1), addr < 2 ^ 52) ∧
        frame = a.usableAddrs[a.next]?.map frameOf ∧ s = { a with next := a.next + 1 } := by
  rw [allocateFrame_apply, usableFrames, nth_containingAddress hl]
  by_cases hall : ∀ addr ∈ a.usableAddrs.take (a.next + 1), addr < 2 ^ 52
  · rw [if_pos hall]
    constructor
    · intro h
      obtain ⟨hframe, hs⟩ := Prod.mk.inj h
      exact ⟨hall, (Outcome.ok.inj hframe).symm, hs.symm⟩
    · rintro ⟨-, rfl, rfl⟩
      rfl
  · rw [if_neg hall]
    constructor
    · intro h
      cases (Prod.mk.inj h).1
    · exact fun h ↦ absurd h.1 hall

theorem allocateFrame_ne_err (hl : PhysFrame.Lawful) {a : BootInfoFrameAllocator} {e : ε} :
    ((allocateFrame : Prog _ ε _) a).1 ≠ .err e := by
  rw [allocateFrame_apply, usableFrames, nth_containingAddress hl]
  by_cases hall : ∀ addr ∈ a.usableAddrs.take (a.next + 1), addr < 2 ^ 52
  · rw [if_pos hall]
    nofun
  · rw [if_neg hall]
    nofun

end BootInfoFrameAllocator
end SmallOs.Kernel
