import SmallOs.Kernel.LinkedList

/-!
# Regions and blocks of the linked-list allocator

In every run within the contract of `GlobalAlloc` the free regions and the blocks of callers are
packed into the heap. A block is cut out of a free region, with what is left behind it, and comes
back as a region.
-/

namespace SmallOs.Kernel.LinkedList

open SmallOs.Base

/-- What `init` is promised: the heap does not start at null, and its addresses do not overflow. -/
structure ValidHeap (heap : Span) : Prop where
  nonnull : heap.start ≠ 0
  bounded : heap.stop < 2 ^ 64

/-- A block that a layout is served with. -/
structure Serves (b : Nat × Layout) : Prop where
  aligned : max b.2.align 8 ∣ b.1
  padded : b.2.size + max b.2.align 8 ≤ 2 ^ 63

/-- The free regions of the list and the blocks of callers are packed into the heap. -/
structure Inv (heap : Span) (s : System) (regions : List Span) : Prop where
  linked : s.allocator.memory.Regions s.allocator.head regions
  packed : heap.Packed (regions ++ s.live.map block)
  free_fits : ∀ r ∈ regions, 8 ∣ r.start ∧ 16 ≤ r.len
  live_fits : ∀ b ∈ s.live, Serves b

/-! ### Cutting a block out of a region -/

section Takes

variable {alignUp : Nat → Nat → Option Nat} {size align start : Nat} {regions regions' : List Span}
variable {r : Span}

/-- A block and what is left of its region behind it. -/
theorem Fit.packed (h : Fit r size align start) :
    r.Packed (⟨start, size⟩ :: remainder r (start + size)) := by
  have hlow : r.start ≤ start := h.least.1.2
  by_cases hrest : start + size < r.stop
  · rw [remainder, if_pos hrest]
    have hend : start + size + (r.stop - (start + size)) = r.stop := Nat.add_sub_of_le h.le
    constructor
    · intro s hs
      rcases List.mem_cons.mp hs with rfl | hs
      · exact ⟨hlow, h.le⟩
      · rw [List.mem_singleton.mp hs]
        exact ⟨Nat.le_trans hlow (Nat.le_add_right _ _), Nat.le_of_eq hend⟩
    · exact List.pairwise_pair.mpr (Or.inl (Nat.le_refl _))
  · rw [remainder, if_neg hrest]
    constructor
    · intro s hs
      rw [List.mem_singleton.mp hs]
      exact ⟨hlow, h.le⟩
    · exact List.pairwise_singleton _ _

/-- A region falls apart into what lies in front of a block, the block, and what is left. -/
theorem Fit.total (h : Fit r size align start) :
    start - r.start + size + Span.total (remainder r (start + size)) = r.len := by
  have hlow : r.start ≤ start := h.least.1.2
  have hhigh := h.le
  rw [Span.stop] at hhigh
  by_cases hrest : start + size < r.stop
  · rw [remainder, if_pos hrest, Span.total_cons, Span.total_nil, Span.stop]
    dsimp only
    omega
  · rw [remainder, if_neg hrest, Span.total_nil]
    rw [Span.stop] at hrest
    omega

namespace Takes

/-- The block takes the place of its region among what is packed. -/
theorem packed (h : Takes alignUp size align regions r start regions') {heap : Span}
    {held : List Span} (hpacked : heap.Packed (regions ++ held)) :
    heap.Packed (regions' ++ ⟨start, size⟩ :: held) := by
  cases h with
  | @intro before after _ _ _ _ hfit =>
    have hfirst : (before ++ r :: after ++ held).Perm (r :: (before ++ after ++ held)) :=
      List.perm_middle.append_right held
    have hcut := (hpacked.perm hfirst).cut hfit.packed
    apply hcut.perm
    rw [List.cons_append, ← List.append_assoc]
    exact List.perm_middle.symm

theorem mem_remainder {e : Nat} {s : Span} (hs : s ∈ remainder r e) :
    e < r.stop ∧ s = ⟨e, r.stop - e⟩ := by
  rw [remainder] at hs
  by_cases hrest : e < r.stop
  · rw [if_pos hrest] at hs
    exact ⟨hrest, List.mem_singleton.mp hs⟩
  · rw [if_neg hrest] at hs
    cases hs

/-- The regions that stay are aligned and have room for their nodes. -/
theorem free_fits (h : Takes alignUp size align regions r start regions') (halign : 8 ∣ align)
    (hsize : 8 ∣ size) (hfits : ∀ s ∈ regions, 8 ∣ s.start ∧ 16 ≤ s.len) :
    ∀ s ∈ regions', 8 ∣ s.start ∧ 16 ≤ s.len := by
  cases h with
  | @intro before after _ _ _ _ hfit =>
    intro s hs
    rcases List.mem_append.mp hs with hs | hs
    · obtain ⟨hrest, rfl⟩ := mem_remainder hs
      refine ⟨Nat.dvd_add (Nat.dvd_trans halign hfit.least.1.1) hsize, ?_⟩
      have hroom := hfit.room
      dsimp only
      omega
    · apply hfits
      rcases List.mem_append.mp hs with hs | hs
      · exact List.mem_append_left _ hs
      · exact List.mem_append_right _ (List.mem_cons_of_mem r hs)

/-- What lies in front of the block is lost. -/
theorem total (h : Takes alignUp size align regions r start regions') :
    Span.total regions' + size + (start - r.start) = Span.total regions := by
  cases h with
  | @intro before after _ _ _ _ hfit =>
    have hparts := hfit.total
    simp only [Span.total_append, Span.total_cons]
    omega

/-- The block starts in its region. -/
theorem start_spec (h : Takes alignUp size align regions r start regions') :
    align ∣ start ∧ r.start ≤ start ∧ r ∈ regions := by
  cases h with
  | intro _ _ hfit =>
    exact ⟨hfit.least.1.1, hfit.least.1.2, List.mem_append_right _ List.mem_cons_self⟩

end Takes
end Takes

/-! ### The invariant -/

section Steps

variable {alignUp : Nat → Nat → Option Nat} {heap : Span} {s : System} {regions : List Span}
variable {layout : Layout}

/-- The list of what `init` makes is the heap. -/
theorem inv_init (halign : AlignsUp alignUp) (hvalid : ValidHeap heap) (haligned : 8 ∣ heap.start)
    (hlen : 16 ≤ heap.len) (memory : Memory) :
    ∃ a, LinkedListAllocator.init alignUp memory heap.start heap.len = .ok a ∧
      Inv heap ⟨a, []⟩ [heap] := by
  have hnil : (LinkedListAllocator.mk 0 memory).memory.Regions 0 [] := rfl
  obtain ⟨a, ha, hlinked⟩ :=
    addFreeRegion_ok halign hnil haligned hlen hvalid.nonnull hvalid.bounded nofun
  refine ⟨a, ha, hlinked, Span.Packed.single, ?_, nofun⟩
  intro r hr
  rw [List.mem_singleton.mp hr]
  exact ⟨haligned, hlen⟩

namespace Inv

theorem free_apart (h : Inv heap s regions) : regions.Pairwise Span.Apart :=
  (List.pairwise_append.mp h.packed.apart).1

/-- A block of a caller is apart from every node. -/
theorem node_apart (h : Inv heap s regions) {b : Nat × Layout} (hb : b ∈ s.live) {r : Span}
    (hr : r ∈ regions) : (Memory.node r).Apart (block b) := by
  have happart := (List.pairwise_append.mp h.packed.apart).2.2 r hr _ (List.mem_map_of_mem hb)
  exact happart.mono (Memory.node_within (h.free_fits r hr).2) (Span.Within.refl _)

/-- A block of a caller is aligned, lies in the heap, and has room for its layout and a node. -/
theorem live_spec (hvalid : ValidHeap heap) (h : Inv heap s regions) {b : Nat × Layout}
    (hb : b ∈ s.live) : 8 ∣ b.1 ∧ b.2.align ∣ b.1 ∧ b.1 ≠ 0 ∧ (block b).stop < 2 ^ 64 := by
  obtain ⟨-, hdvd, halign⟩ := max_align b.2
  have haligned := (h.live_fits b hb).aligned
  have hwithin := h.packed.within _ (List.mem_append_right regions (List.mem_map_of_mem hb))
  refine ⟨Nat.dvd_trans hdvd haligned, Nat.dvd_trans halign haligned, ?_, ?_⟩
  · exact Nat.ne_of_gt (Nat.lt_of_lt_of_le (Nat.pos_of_ne_zero hvalid.nonnull) hwithin.1)
  · exact Nat.lt_of_le_of_lt hwithin.2 hvalid.bounded

theorem length_lt (hvalid : ValidHeap heap) (h : Inv heap s regions) :
    regions.length < 2 ^ 61 := by
  have hsizes := Span.mul_length_le_total fun r hr ↦ (h.free_fits r hr).2
  have htotal := h.packed.total_le
  have hbounded := hvalid.bounded
  rw [Span.total_append] at htotal
  rw [Span.stop] at hbounded
  omega

/-- How a call of `alloc` ends. -/
theorem alloc_cases (halign : AlignsUp alignUp) (hvalid : ValidHeap heap) (h : Inv heap s regions)
    (layout : Layout) :
    s.allocator.alloc alignUp layout = .error .adjusting ∨
      s.allocator.alloc alignUp layout = .error .aligning ∨
      s.allocator.alloc alignUp layout = .ok (0, s.allocator) ∧
        (∀ r ∈ regions, Rejects alignUp (adjustedSize layout) (max layout.align 8) r) ∨
      ∃ r start regions' a', layout.size + max layout.align 8 ≤ 2 ^ 63 ∧
        s.allocator.alloc alignUp layout = .ok (start, a') ∧
        Takes alignUp (adjustedSize layout) (max layout.align 8) regions r start regions' ∧
        a'.memory.Regions a'.head regions' :=
  LinkedList.alloc_cases halign h.linked h.free_apart h.free_fits (h.length_lt hvalid) layout

/-- A block has been cut out of a region. -/
theorem served (h : Inv heap s regions) {r : Span} {start : Nat} {regions' : List Span}
    {a : LinkedListAllocator} (hsize : layout.size + max layout.align 8 ≤ 2 ^ 63)
    (htakes : Takes alignUp (adjustedSize layout) (max layout.align 8) regions r start regions')
    (hlinked : a.memory.Regions a.head regions') :
    Inv heap ⟨a, (start, layout) :: s.live⟩ regions' := by
  obtain ⟨-, hdvd, -⟩ := max_align layout
  obtain ⟨-, hsizeDvd, -⟩ := adjustedSize_spec layout
  refine ⟨hlinked, htakes.packed h.packed, htakes.free_fits hdvd hsizeDvd h.free_fits, ?_⟩
  intro b hb
  rcases List.mem_cons.mp hb with rfl | hb
  · exact ⟨htakes.start_spec.1, hsize⟩
  · exact h.live_fits b hb

/-- A block of a caller can be given back, and is a region again. -/
theorem dealloc (halign : AlignsUp alignUp) (hvalid : ValidHeap heap) (h : Inv heap s regions)
    {ptr : Nat} (hlive : (ptr, layout) ∈ s.live) :
    ∃ a, s.allocator.dealloc alignUp ptr layout = .ok a ∧
      Inv heap ⟨a, s.live.erase (ptr, layout)⟩ (block (ptr, layout) :: regions) := by
  obtain ⟨hdvd, -, hne, hstop⟩ := h.live_spec hvalid hlive
  obtain ⟨-, -, hmin⟩ := adjustedSize_spec layout
  have hnodes : ∀ r ∈ regions, (Memory.node r).Apart (Memory.node (block (ptr, layout))) :=
    fun r hr ↦ (h.node_apart hlive hr).mono (Span.Within.refl _) (Memory.node_within hmin)
  obtain ⟨a, hadd, hlinked⟩ := addFreeRegion_ok halign h.linked hdvd hmin hne hstop hnodes
  refine ⟨a, ?_, hlinked, ?_, ?_, fun b hb ↦ h.live_fits b (List.mem_of_mem_erase hb)⟩
  · rw [LinkedListAllocator.dealloc, sizeAlign, if_pos (h.live_fits _ hlive).padded]
    exact hadd
  · have hperm := (List.perm_cons_erase hlive).map block
    apply h.packed.perm
    exact (hperm.append_left regions).trans List.perm_middle
  · exact List.forall_mem_cons.mpr ⟨⟨hdvd, hmin⟩, h.free_fits⟩

/-- A caller's store stays within its block. -/
theorem store (h : Inv heap s regions) {ptr off : Nat} {data : List UInt8}
    (hlive : (ptr, layout) ∈ s.live) (hin : off + data.length ≤ layout.size) :
    Inv heap { s with allocator := { s.allocator with
      memory := s.allocator.memory.store (ptr + off) data } } regions := by
  refine ⟨h.linked.store ?_, h.packed, h.free_fits, h.live_fits⟩
  intro r hr
  have hsize := (adjustedSize_spec layout).1
  have hwithin : (Span.mk (ptr + off) data.length).Within (block (ptr, layout)) := by
    refine ⟨Nat.le_add_right _ _, ?_⟩
    rw [Span.stop, Span.stop, Nat.add_assoc]
    exact Nat.add_le_add_left (Nat.le_trans hin hsize) ptr
  exact (h.node_apart hlive hr).mono (Span.Within.refl _) hwithin

end Inv

/-- What an event does to the regions and to the blocks of callers. -/
inductive Change (alignUp : Nat → Nat → Option Nat) (s : System) (regions : List Span) :
    Event → Nat → System → List Span → Prop where
  | served {layout : Layout} {r : Span} {start : Nat} {regions' : List Span}
    (a : LinkedListAllocator)
    (takes : Takes alignUp (adjustedSize layout) (max layout.align 8) regions r start regions') :
    Change alignUp s regions (.alloc layout) start ⟨a, (start, layout) :: s.live⟩ regions'
  | refused {layout : Layout}
    (rejects : ∀ r ∈ regions, Rejects alignUp (adjustedSize layout) (max layout.align 8) r) :
    Change alignUp s regions (.alloc layout) 0 s regions
  | returned {ptr : Nat} {layout : Layout} (a : LinkedListAllocator)
    (live : (ptr, layout) ∈ s.live) :
    Change alignUp s regions (.dealloc ptr layout) 0 ⟨a, s.live.erase (ptr, layout)⟩
      (block (ptr, layout) :: regions)
  | stored (ptr : Nat) (layout : Layout) (off : Nat) (data : List UInt8) (memory : Memory) :
    Change alignUp s regions (.store ptr layout off data) 0
      { s with allocator := { s.allocator with memory } } regions

/-- Every event keeps the invariant. -/
theorem Inv.step (halign : AlignsUp alignUp) (hvalid : ValidHeap heap) (h : Inv heap s regions)
    {e : Event} {p : Nat} {s' : System} (hstep : s.step alignUp e = some (p, s')) :
    ∃ regions', Inv heap s' regions' ∧ Change alignUp s regions e p s' regions' := by
  cases e with
  | alloc layout =>
    rw [System.step] at hstep
    rcases h.alloc_cases halign hvalid layout with hpanic | hpanic | ⟨hnull, hall⟩ |
      ⟨r, start, regions', a, hsize, halloc, htakes, hlinked⟩
    · rw [hpanic] at hstep
      cases hstep
    · rw [hpanic] at hstep
      cases hstep
    · rw [hnull] at hstep
      cases hstep
      exact ⟨regions, h, .refused hall⟩
    · rw [halloc] at hstep
      have hne : start ≠ 0 := by
        obtain ⟨-, hle, hmem⟩ := htakes.start_spec
        have hpos := (h.linked.mem hmem).1
        omega
      dsimp only at hstep
      rw [if_neg hne] at hstep
      cases hstep
      exact ⟨regions', h.served hsize htakes hlinked, .served a htakes⟩
  | dealloc ptr layout =>
    rw [System.step] at hstep
    by_cases hlive : (ptr, layout) ∈ s.live
    · obtain ⟨a, hdealloc, hinv⟩ := h.dealloc halign hvalid hlive
      rw [if_pos hlive, hdealloc] at hstep
      cases hstep
      exact ⟨_, hinv, .returned a hlive⟩
    · rw [if_neg hlive] at hstep
      cases hstep
  | store ptr layout off data =>
    rw [System.step] at hstep
    by_cases hin : (ptr, layout) ∈ s.live ∧ off + data.length ≤ layout.size
    · rw [if_pos hin] at hstep
      cases hstep
      exact ⟨regions, h.store hin.1 hin.2, .stored ptr layout off data _⟩
    · rw [if_neg hin] at hstep
      cases hstep

/-! ### Safety -/

/-- What holds of the regions of the list and of the blocks of callers. -/
structure SafeWith (alignUp : Nat → Nat → Option Nat) (heap : Span) (s : System)
    (regions : List Span) : Prop where
  linked : s.allocator.memory.Regions s.allocator.head regions
  /-- They lie in the heap, and are pairwise apart. -/
  packed : heap.Packed (regions ++ s.live.map block)
  free_fits : ∀ r ∈ regions, 8 ∣ r.start ∧ 16 ≤ r.len
  live_fits : ∀ b ∈ s.live, b.1 ≠ 0 ∧ b.2.align ∣ b.1 ∧ b.2.size ≤ (block b).len
  /-- A request that does not return panics before a region is added. -/
  allocs : ∀ layout, (∃ r, s.allocator.alloc alignUp layout = .ok r) ∨
    s.allocator.alloc alignUp layout = .error .adjusting ∨
    s.allocator.alloc alignUp layout = .error .aligning
  returns : ∀ b ∈ s.live, ∃ a, s.allocator.dealloc alignUp b.1 b.2 = .ok a

/-- The free regions and the blocks of callers are as they should be. -/
def Safe (alignUp : Nat → Nat → Option Nat) (heap : Span) (s : System) : Prop :=
  ∃ regions, SafeWith alignUp heap s regions

theorem Inv.safe (halign : AlignsUp alignUp) (hvalid : ValidHeap heap) (h : Inv heap s regions) :
    Safe alignUp heap s := by
  refine ⟨regions, h.linked, h.packed, h.free_fits, ?_, ?_, ?_⟩
  · intro b hb
    obtain ⟨-, halign, hne, -⟩ := h.live_spec hvalid hb
    exact ⟨hne, halign, (adjustedSize_spec b.2).1⟩
  · intro layout
    rcases h.alloc_cases halign hvalid layout with hpanic | hpanic | ⟨hnull, -⟩ |
      ⟨-, start, -, a, -, halloc, -⟩
    · exact Or.inr (Or.inl hpanic)
    · exact Or.inr (Or.inr hpanic)
    · exact Or.inl ⟨_, hnull⟩
    · exact Or.inl ⟨_, halloc⟩
  · intro b hb
    obtain ⟨a, ha, -⟩ := h.dealloc halign hvalid hb
    exact ⟨a, ha⟩

/-- The regions of a run, whose first state is what `init` makes. -/
theorem Inv.run (halign : AlignsUp alignUp) (hvalid : ValidHeap heap) {s₀ s : System}
    (hinit : Inv heap s₀ [heap]) {t : List (Call System Event Nat)}
    (h : Run (fun x ↦ x.before.step alignUp x.input = some (x.output, x.after)) s₀ t s) :
    (∃ regions, Inv heap s regions) ∧
      ∀ x ∈ t, (∃ regions, Inv heap x.before regions) ∧ ∃ regions, Inv heap x.after regions := by
  apply h.invariant (I := fun s ↦ ∃ regions, Inv heap s regions)
  · rintro x hx ⟨regions, hinv⟩
    obtain ⟨regions', hinv', -⟩ := hinv.step halign hvalid hx
    exact ⟨regions', hinv'⟩
  · exact ⟨_, hinit⟩

/-- A heap of at least 16 bytes from an aligned address on is taken, and in every run of calls
within the contract every state is safe, and every pointer that is returned is held with its
layout. -/
theorem regions_safe (halign : AlignsUp alignUp) (hvalid : ValidHeap heap)
    (haligned : 8 ∣ heap.start) (hlen : 16 ≤ heap.len) (memory : Memory) :
    ∃ a, LinkedListAllocator.init alignUp memory heap.start heap.len = .ok a ∧
      ∀ (t : List (Call System Event Nat)) (s : System),
        Run (fun x ↦ x.before.step alignUp x.input = some (x.output, x.after)) ⟨a, []⟩ t s →
          Safe alignUp heap s ∧ ∀ x ∈ t, Safe alignUp heap x.before ∧ Safe alignUp heap x.after ∧
            ∀ layout, x.input = .alloc layout → x.output ≠ 0 →
              (x.output, layout) ∈ x.after.live := by
  obtain ⟨a, ha, hinit⟩ := inv_init halign hvalid haligned hlen memory
  refine ⟨a, ha, ?_⟩
  intro t s h
  obtain ⟨⟨regions, hlast⟩, hall⟩ := hinit.run halign hvalid h
  refine ⟨hlast.safe halign hvalid, ?_⟩
  intro x hx
  obtain ⟨⟨before, hbefore⟩, ⟨after, hafter⟩⟩ := hall x hx
  refine ⟨hbefore.safe halign hvalid, hafter.safe halign hvalid, ?_⟩
  intro layout hlayout hne
  obtain ⟨regions', -, hchange⟩ := hbefore.step halign hvalid (h.mem hx)
  obtain ⟨s₀, e, p, s₁⟩ := x
  dsimp only at hlayout hne hchange ⊢
  subst hlayout
  cases hchange with
  | served a htakes => exact List.mem_cons_self
  | refused hrejects => exact absurd rfl hne

end Steps

/-- Rounding up to a multiple, as far as there are addresses. -/
def roundUp (addr align : Nat) : Option Nat :=
  if padToAlign addr align < 2 ^ 64 then some (padToAlign addr align) else none

theorem alignsUp_roundUp : AlignsUp roundUp := by
  constructor
  intro addr align x k hk
  have hpos : 0 < align := hk ▸ Nat.two_pow_pos k
  have hleast : IsLeast {y | align ∣ y ∧ addr ≤ y} (padToAlign addr align) := by
    obtain ⟨hle, hdvd⟩ := padToAlign_spec addr hpos
    refine ⟨⟨hdvd, hle⟩, ?_⟩
    rintro y ⟨⟨c, rfl⟩, hy⟩
    rw [padToAlign, Nat.mul_comm align c]
    apply Nat.mul_le_mul_right
    apply Nat.le_of_lt_succ
    rw [Nat.div_lt_iff_lt_mul hpos, Nat.succ_mul, Nat.mul_comm c align]
    omega
  rw [roundUp]
  by_cases hlt : padToAlign addr align < 2 ^ 64
  · rw [if_pos hlt]
    constructor
    · intro h
      obtain rfl := Option.some.inj h
      exact ⟨hleast, hlt⟩
    · rintro ⟨hx, -⟩
      rw [hleast.unique hx]
  · rw [if_neg hlt]
    constructor
    · intro h
      cases h
    · rintro ⟨hx, hlt'⟩
      rw [hleast.unique hx] at hlt
      exact absurd hlt' hlt

/-- `HEAP_START` and `HEAP_SIZE`. -/
def kernelHeap : Span := ⟨0x2000000, 16 * 1024 * 1024⟩

theorem validHeap_kernelHeap : ValidHeap kernelHeap := ⟨by decide, by decide⟩

/-- The kernel's heap when `init` has taken it, in memory of zeros. -/
def kernelAllocator : LinkedListAllocator :=
  ⟨kernelHeap.start, Memory.storeNode (fun _ ↦ 0) kernelHeap.start kernelHeap.len 0⟩

theorem init_kernelHeap : LinkedListAllocator.init roundUp (fun _ ↦ 0) kernelHeap.start
    kernelHeap.len = .ok kernelAllocator := by
  rw [LinkedListAllocator.init, LinkedListAllocator.addFreeRegion, if_pos (by decide),
    if_pos (by decide), kernelAllocator]

/-- A layout of so many bytes at an alignment of `2 ^ k`. -/
def layoutOf (size k : Nat) : Layout := ⟨size, 2 ^ k, k, rfl⟩

/-- Three blocks are asked for, the first two come back, and one more is cut out of the second. -/
def threeBlocks : List Event :=
  [.alloc (layoutOf 24 3), .alloc (layoutOf 32 5), .store 0x2000020 (layoutOf 32 5) 8 [1, 2],
    .alloc (layoutOf 5 0), .dealloc 0x2000000 (layoutOf 24 3), .dealloc 0x2000020 (layoutOf 32 5),
    .alloc (layoutOf 10 1)]

theorem regions_safe_threeBlocks :
    LinkedListAllocator.init roundUp (fun _ ↦ 0) kernelHeap.start kernelHeap.len =
      .ok kernelAllocator ∧
    ∃ t s, trace (System.step roundUp) ⟨kernelAllocator, []⟩ threeBlocks = some (t, s) ∧
      t.map Call.output = [0x2000000, 0x2000020, 0, 0x2000040, 0, 0, 0x2000020] ∧
      Safe roundUp kernelHeap s := by
  obtain ⟨a, ha, hsafe⟩ :=
    regions_safe alignsUp_roundUp validHeap_kernelHeap (by decide) (by decide) fun _ ↦ 0
  obtain rfl := Except.ok.inj (init_kernelHeap.symm.trans ha)
  have hsome : (trace (System.step roundUp) ⟨kernelAllocator, []⟩ threeBlocks).map
      (fun r ↦ r.1.map Call.output) =
        some [0x2000000, 0x2000020, 0, 0x2000040, 0, 0, 0x2000020] := by
    decide
  obtain ⟨⟨t, s⟩, ht, houtputs⟩ := Option.map_eq_some_iff.mp hsome
  exact ⟨init_kernelHeap, t, s, ht, houtputs, (hsafe t s (run_trace ht)).1⟩

end SmallOs.Kernel.LinkedList
