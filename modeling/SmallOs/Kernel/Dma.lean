import SmallOs.Kernel.FramesWhole

/-!
# Buffers for DMA

`kernel/src/memory/dma_alloc.rs`: a buffer takes its frames one by one from the frame allocator
that the kernel keeps, and is known by the first of them.
-/

namespace SmallOs.Kernel

open SmallOs.Base

/-- `lib/hal/src/dma/mod.rs:3–8`. -/
structure DmaBuffer where
  phys : Nat
  virt : Nat
  size : Nat
  deriving DecidableEq, Repr

/-- `kernel/src/memory/dma_alloc.rs:19–21`. -/
structure KernelDmaAllocator where
  physMemOffset : Nat
  deriving DecidableEq, Repr

/-- What a caller asks for: at least one byte, at an alignment that is a power of two. -/
structure DmaRequest where
  size : Nat
  align : Nat
  pos : 1 ≤ size
  power : ∃ k, align = 2 ^ k

namespace KernelDmaAllocator

open BootInfoFrameAllocator

/-- A call through `as_mut()?`: nothing is done where there is no value. -/
def asMut {σ α : Type} (x : Prog σ Unit α) : Prog (Option σ) Unit α
  | none => (.err (), none)
  | some s => ((x s).1, some (x s).2)

section Model

variable [PhysFrame]

/-- `kernel/src/memory/dma_alloc.rs:38–41`. -/
def takeFrames : Nat → List Nat → Prog BootInfoFrameAllocator Unit (List Nat)
  | 0, frames => pure frames
  | pages + 1, frames => do
    match ← allocateFrame with
    | none => Prog.fail ()
    | some frame => takeFrames pages (frames ++ [frame])

/-- `kernel/src/memory/dma_alloc.rs:43–45,55`: no frames at all have no first one. -/
def buffer (dma : KernelDmaAllocator) (frames : List Nat) (pages : Nat) :
    Outcome Unit DmaBuffer := do
  match frames with
  | [] => .panic
  | basePhys :: _ =>
    let virt ← Outcome.addAt 64 basePhys dma.physMemOffset
    let size ← Outcome.mulAt 64 pages 4096
    return ⟨basePhys, virt, size⟩

/-- `kernel/src/memory/dma_alloc.rs:31–56`. The second argument is not read. -/
def alloc (dma : KernelDmaAllocator) (size _align : Nat) :
    Prog (Option BootInfoFrameAllocator) Unit DmaBuffer := do
  let pages := (← Prog.lift (Outcome.addAt 64 size 4095)) / 4096
  let frames ← asMut (takeFrames pages [])
  Prog.lift (dma.buffer frames pages)

/-- A call of `alloc`, with the buffer that it returns or none. -/
abbrev DmaCall := Call (Option BootInfoFrameAllocator) DmaRequest (Option DmaBuffer)

/-- The call returns. -/
def Serves (dma : KernelDmaAllocator) (x : DmaCall) : Prop :=
  match x.output with
  | some b => dma.alloc x.input.size x.input.align x.before = (.ok b, x.after)
  | none => dma.alloc x.input.size x.input.align x.before = (.err (), x.after)

end Model

/-! ### What a call takes -/

/-- The pages of a request. -/
def pages (size : Nat) : Nat := (size + 4095) / 4096

/-- The addresses of the frames that are next in line. -/
def line (a : BootInfoFrameAllocator) : List Nat := a.usableAddrs.drop a.next

theorem line_advance (a : BootInfoFrameAllocator) (k : Nat) :
    line (advance a k) = (line a).drop k := by
  rw [line, line, List.drop_drop]
  rfl

theorem line_of_some {a : BootInfoFrameAllocator} {addr : Nat}
    (h : a.usableAddrs[a.next]? = some addr) : line a = addr :: line (advance a 1) := by
  obtain ⟨hlt, heq⟩ := List.getElem?_eq_some_iff.mp h
  rw [line, List.drop_eq_getElem_cons hlt, heq]
  rfl

theorem line_of_none {a : BootInfoFrameAllocator} (h : a.usableAddrs[a.next]? = none) :
    line a = [] :=
  List.drop_eq_nil_of_le (List.getElem?_eq_none_iff.mp h)

/-- The buffer begins at its first frame. -/
theorem buffer_eq_ok {dma : KernelDmaAllocator} {frames : List Nat} {n : Nat} {b : DmaBuffer}
    (h : dma.buffer frames n = .ok b) :
    frames.head? = some b.phys ∧ b.virt = b.phys + dma.physMemOffset ∧ b.size = n * 4096 := by
  cases frames with
  | nil => cases h
  | cons basePhys rest =>
    simp only [buffer, Outcome.bind_eq_ok, Outcome.addAt_eq_ok, Outcome.mulAt_eq_ok,
      Outcome.pure_eq_ok, Outcome.ok.injEq] at h
    obtain ⟨_, ⟨-, rfl⟩, _, ⟨-, rfl⟩, rfl⟩ := h
    exact ⟨rfl, rfl, rfl⟩

theorem buffer_ne_err {dma : KernelDmaAllocator} {frames : List Nat} {n : Nat} :
    dma.buffer frames n ≠ .err () := by
  cases frames with
  | nil => nofun
  | cons basePhys rest => simp [buffer, Outcome.bind_eq_err]

theorem pages_pos {size : Nat} (h : 1 ≤ size) : 0 < pages size := by
  rw [pages]
  omega

variable [PhysFrame]

/-- Frames are taken from the front of the line until there are enough or none are left. -/
theorem takeFrames_ends (hl : PhysFrame.Lawful) {n : Nat} {acc : List Nat}
    {a s : BootInfoFrameAllocator} {r : Outcome Unit (List Nat)}
    (h : takeFrames n acc a = (r, s)) (hr : r ≠ .panic) :
    ∃ t, Run Allocates a t s ∧
      ((n ≤ (line a).length ∧ r = .ok (acc ++ ((line a).take n).map frameOf) ∧ s = advance a n) ∨
        ((line a).length < n ∧ r = .err () ∧ s = advance a ((line a).length + 1))) := by
  induction n generalizing acc a with
  | zero =>
    obtain ⟨rfl, rfl⟩ := Prod.mk.inj h
    refine ⟨[], .nil a, Or.inl ⟨Nat.zero_le _, ?_, rfl⟩⟩
    rw [List.take_zero, List.map_nil, List.append_nil]
  | succ n ih =>
    rw [takeFrames, Prog.bind_apply] at h
    cases hcall : (allocateFrame : Prog _ Unit _) a with
    | mk out b =>
      rw [hcall] at h
      cases out with
      | ok frame =>
        obtain ⟨hvalid, hframe, hb⟩ := (allocateFrame_eq_ok hl).mp hcall
        have halloc : Allocates ⟨a, (), frame, b⟩ :=
          (allocateFrame_eq_ok hl).mpr ⟨hvalid, hframe, hb⟩
        have hnextState : b = advance a 1 := hb
        cases hnext : a.usableAddrs[a.next]? with
        | none =>
          rw [hnext] at hframe
          rw [hframe] at h
          obtain ⟨rfl, rfl⟩ := Prod.mk.inj h
          rw [line_of_none hnext]
          exact ⟨_, Run.cons halloc (.nil _), Or.inr ⟨Nat.succ_pos n, rfl, hb⟩⟩
        | some addr =>
          rw [hnext] at hframe
          rw [hframe] at h
          obtain ⟨t, hrun, hends⟩ := ih h
          rw [hnextState] at hends
          refine ⟨_, Run.cons halloc hrun, ?_⟩
          rw [line_of_some hnext, List.length_cons, List.take_succ_cons, List.map_cons]
          rcases hends with ⟨hle, hr', hs⟩ | ⟨hlt, hr', hs⟩
          · refine Or.inl ⟨Nat.succ_le_succ hle, ?_, ?_⟩
            · rw [hr', List.append_assoc]
              rfl
            · rw [hs, advance_advance, Nat.add_comm]
          · refine Or.inr ⟨Nat.succ_lt_succ hlt, hr', ?_⟩
            rw [hs, advance_advance, Nat.add_comm 1]
      | err e => exact absurd (congrArg Prod.fst hcall) (allocateFrame_ne_err hl)
      | panic =>
        obtain ⟨rfl, -⟩ := Prod.mk.inj h
        exact absurd rfl hr

/-- As many frames as there are in line are taken. -/
theorem takeFrames_of_le (hl : PhysFrame.Lawful) {n : Nat} {acc : List Nat}
    {a : BootInfoFrameAllocator} (hle : n ≤ (line a).length)
    (hvalid : ∀ addr ∈ a.usableAddrs.take (a.next + n), addr < 2 ^ 52) :
    takeFrames n acc a = (.ok (acc ++ ((line a).take n).map frameOf), advance a n) := by
  induction n generalizing acc a with
  | zero =>
    rw [List.take_zero, List.map_nil, List.append_nil]
    rfl
  | succ n ih =>
    cases hnext : a.usableAddrs[a.next]? with
    | none =>
      rw [line_of_none hnext] at hle
      cases hle
    | some addr =>
      have hfirst : ∀ b ∈ a.usableAddrs.take (a.next + 1), b < 2 ^ 52 :=
        fun b hb ↦ hvalid b (List.take_subset_take_left _ (by omega) hb)
      have hcall : (allocateFrame : Prog _ Unit _) a = (.ok (some (frameOf addr)), advance a 1) :=
        (allocateFrame_eq_ok hl).mpr ⟨hfirst, by rw [hnext]; rfl, rfl⟩
      have hrest : ∀ b ∈ (advance a 1).usableAddrs.take ((advance a 1).next + n), b < 2 ^ 52 := by
        intro b hb
        rw [advance, Nat.add_assoc, Nat.add_comm 1] at hb
        exact hvalid b hb
      rw [line_of_some hnext] at hle ⊢
      rw [takeFrames, Prog.bind_of_ok hcall, List.take_succ_cons, List.map_cons]
      refine (ih (Nat.le_of_succ_le_succ hle) hrest).trans ?_
      rw [List.append_assoc, advance_advance, Nat.add_comm 1]
      rfl

theorem alloc_apply (dma : KernelDmaAllocator) (size align : Nat)
    (g : Option BootInfoFrameAllocator) :
    dma.alloc size align g =
      if size + 4095 < 2 ^ 64 then
        (asMut (takeFrames (pages size) []) >>= fun frames ↦
          Prog.lift (dma.buffer frames (pages size))) g
      else (.panic, g) := by
  rw [alloc, Prog.bind_apply, Prog.lift_apply, Outcome.addAt, Outcome.assert]
  by_cases h : size + 4095 < 2 ^ 64
  · rw [if_pos h, if_pos h]
    rfl
  · rw [if_neg h, if_neg h]
    rfl

/-- A request for no more pages than there are in line gets its buffer at the first of them. -/
theorem alloc_of_line (hl : PhysFrame.Lawful) {dma : KernelDmaAllocator} {size align f : Nat}
    {a : BootInfoFrameAllocator} {rest : List Nat} (hline : line a = f :: rest)
    (hpos : 1 ≤ size) (hle : pages size ≤ (line a).length)
    (hvalid : ∀ addr ∈ a.usableAddrs.take (a.next + pages size), addr < 2 ^ 52)
    (hsize : size + 4095 < 2 ^ 64) (hvirt : frameOf f + dma.physMemOffset < 2 ^ 64) :
    dma.alloc size align (some a) =
      (.ok ⟨frameOf f, frameOf f + dma.physMemOffset, pages size * 4096⟩,
        some (a.advance (pages size))) := by
  have htake : asMut (takeFrames (pages size) []) (some a) =
      (.ok (((line a).take (pages size)).map frameOf), some (a.advance (pages size))) := by
    rw [asMut, takeFrames_of_le hl hle hvalid, List.nil_append]
  obtain ⟨n, hn⟩ := Nat.exists_eq_succ_of_ne_zero (Nat.ne_of_gt (pages_pos hpos))
  have hbytes : pages size * 4096 < 2 ^ 64 := by
    rw [pages]
    omega
  rw [alloc_apply, if_pos hsize, Prog.bind_of_ok htake, Prog.lift_apply, hline, hn,
    List.take_succ_cons, List.map_cons, ← hn, buffer, Outcome.addAt_of hvirt, Outcome.ok_bind,
    Outcome.mulAt_of hbytes, Outcome.ok_bind]
  rfl

/-- A call fails while the kernel keeps no allocator. Otherwise it takes the frames of its pages
and returns a buffer at the first of them, or takes all that are left and returns none. -/
theorem serves_cases (hl : PhysFrame.Lawful) {dma : KernelDmaAllocator} {x : DmaCall}
    (h : Serves dma x) :
    (x.before = none ∧ x.after = none ∧ x.output = none) ∨
      ∃ a t s, x.before = some a ∧ x.after = some s ∧ Run Allocates a t s ∧
        ((pages x.input.size ≤ (line a).length ∧ s = advance a (pages x.input.size) ∧
            ∃ b, x.output = some b ∧ (line a).head?.map frameOf = some b.phys ∧
              b.virt = b.phys + dma.physMemOffset ∧ b.size = pages x.input.size * 4096) ∨
          ((line a).length < pages x.input.size ∧ s = advance a ((line a).length + 1) ∧
            x.output = none)) := by
  have hends : (∃ b, dma.alloc x.input.size x.input.align x.before = (.ok b, x.after) ∧
      x.output = some b) ∨
        dma.alloc x.input.size x.input.align x.before = (.err (), x.after) ∧ x.output = none := by
    rw [Serves] at h
    cases hout : x.output with
    | some b =>
      rw [hout] at h
      exact Or.inl ⟨b, h, rfl⟩
    | none =>
      rw [hout] at h
      exact Or.inr ⟨h, rfl⟩
  rw [alloc_apply] at hends
  by_cases hsum : x.input.size + 4095 < 2 ^ 64
  · rw [if_pos hsum] at hends
    cases hb : x.before with
    | none =>
      rw [hb] at hends
      rcases hends with ⟨b, hcall, -⟩ | ⟨hcall, hout⟩
      · cases hcall
      · exact Or.inl ⟨rfl, (Prod.mk.inj hcall).2.symm, hout⟩
    | some a =>
      rw [hb] at hends
      cases htake : takeFrames (pages x.input.size) [] a with
      | mk r s =>
        have hasMut : asMut (takeFrames (pages x.input.size) []) (some a) = (r, some s) := by
          rw [asMut, htake]
        have hpos := pages_pos x.input.pos
        cases r with
        | ok frames =>
          obtain ⟨t, hrun, hcases⟩ := takeFrames_ends hl htake nofun
          rw [Prog.bind_of_ok hasMut, Prog.lift_apply] at hends
          rcases hcases with ⟨hle, hframes, hs⟩ | ⟨-, herr, -⟩
          · rcases hends with ⟨b, hcall, hout⟩ | ⟨hcall, -⟩
            · obtain ⟨hbuf, hafter⟩ := Prod.mk.inj hcall
              obtain ⟨hhead, hvirt, hsize⟩ := buffer_eq_ok hbuf
              refine Or.inr ⟨a, t, s, rfl, hafter.symm, hrun, Or.inl ⟨hle, hs, b, hout, ?_, hvirt,
                hsize⟩⟩
              rw [Outcome.ok.inj hframes, List.nil_append, List.head?_map, List.head?_take,
                if_neg (Nat.ne_of_gt hpos)] at hhead
              exact hhead
            · exact absurd (Prod.mk.inj hcall).1 buffer_ne_err
          · cases herr
        | err e =>
          obtain ⟨t, hrun, hcases⟩ := takeFrames_ends hl htake nofun
          rw [Prog.bind_of_err hasMut] at hends
          rcases hcases with ⟨-, hok, -⟩ | ⟨hlt, -, hs⟩
          · cases hok
          · rcases hends with ⟨b, hcall, -⟩ | ⟨hcall, hout⟩
            · cases (Prod.mk.inj hcall).1
            · exact Or.inr ⟨a, t, s, rfl, (Prod.mk.inj hcall).2.symm, hrun,
                Or.inr ⟨hlt, hs, hout⟩⟩
        | panic =>
          rw [Prog.bind_of_panic hasMut] at hends
          rcases hends with ⟨b, hcall, -⟩ | ⟨hcall, -⟩
          · cases (Prod.mk.inj hcall).1
          · cases (Prod.mk.inj hcall).1
  · rw [if_neg hsum] at hends
    rcases hends with ⟨b, hcall, -⟩ | ⟨hcall, -⟩
    · cases (Prod.mk.inj hcall).1
    · cases (Prod.mk.inj hcall).1

end KernelDmaAllocator
end SmallOs.Kernel
