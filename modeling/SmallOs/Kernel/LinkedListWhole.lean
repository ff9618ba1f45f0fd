import SmallOs.Kernel.LinkedListBlocks

/-!
# What the linked-list allocator keeps

The sizes of the free regions and of the blocks of callers add up to the heap as long as every
block starts where its region does. What lies in front of a block is in no region from then on, and
no call brings it back.
-/

namespace SmallOs.Kernel.LinkedList

open SmallOs.Base

/-- A region gives a block. -/
def gives (alignUp : Nat → Nat → Option Nat) (size align : Nat) (r : Span) : Bool :=
  match allocFromRegion alignUp r.start r.len size align with
  | .ok (some _) => true
  | _ => false

/-- The first region of the list that gives a block for a layout. -/
def firstFit (alignUp : Nat → Nat → Option Nat) (layout : Layout) (regions : List Span) :
    Option Span :=
  regions.find? (gives alignUp (adjustedSize layout) (max layout.align 8))

/-- The region that a request would be served from starts at the alignment. -/
def Snug (alignUp : Nat → Nat → Option Nat) (s : System) : Event → Prop
  | .alloc layout => ∀ regions r, s.allocator.memory.Regions s.allocator.head regions →
    firstFit alignUp layout regions = some r → max layout.align 8 ∣ r.start
  | _ => True

/-- The sizes of the blocks that callers hold. -/
def held (live : List (Nat × Layout)) : Nat := Span.total (live.map block)

/-- The sizes of the free regions and of the blocks of callers add up to the heap, and where there
are no such blocks the regions cover it. -/
def Conserves (heap : Span) (s : System) : Prop :=
  ∃ regions, s.allocator.memory.Regions s.allocator.head regions ∧
    Span.total regions + held s.live = heap.len ∧
    (s.live = [] → ∀ x, heap.start ≤ x → x < heap.stop → ∃ r ∈ regions, r.start ≤ x ∧ x < r.stop)

/-- At every point of a run. -/
def Conserved (heap : Span) (t : List (Call System Event Nat)) (s : System) : Prop :=
  Conserves heap s ∧ ∀ x ∈ t, Conserves heap x.before ∧ Conserves heap x.after

section Steps

variable {alignUp : Nat → Nat → Option Nat} {heap : Span} {s : System} {regions : List Span}
variable {layout : Layout}

theorem gives_of_rejects {size align : Nat} {r : Span} (h : Rejects alignUp size align r) :
    gives alignUp size align r = false := by
  rw [gives, show allocFromRegion alignUp r.start r.len size align = .ok none from h]

/-- A block is cut out of the first region that gives one. -/
theorem Takes.firstFit {r : Span} {start : Nat} {regions' : List Span}
    (h : Takes alignUp (adjustedSize layout) (max layout.align 8) regions r start regions') :
    firstFit alignUp layout regions = some r := by
  cases h with
  | @intro before after _ _ hpassed hfound _ =>
    apply List.find?_eq_some_iff_append.mpr
    refine ⟨?_, before, after, rfl, ?_⟩
    · rw [gives, hfound]
    · intro s hs
      rw [gives_of_rejects (hpassed s hs)]
      rfl

theorem firstFit_of_rejects
    (h : ∀ r ∈ regions, Rejects alignUp (adjustedSize layout) (max layout.align 8) r) :
    firstFit alignUp layout regions = none := by
  apply List.find?_eq_none.mpr
  intro r hr
  rw [gives_of_rejects (h r hr)]
  exact Bool.false_ne_true

/-- A block that starts at the alignment of its region loses nothing. -/
theorem Takes.start_eq_iff {size align start : Nat} {r : Span} {regions' : List Span}
    (h : Takes alignUp size align regions r start regions') :
    start = r.start ↔ align ∣ r.start := by
  obtain ⟨hdvd, -, -⟩ := h.start_spec
  constructor
  · rintro rfl
    exact hdvd
  · intro hr
    cases h with
    | intro _ _ hfit =>
      exact Nat.le_antisymm (hfit.least.2 ⟨hr, Nat.le_refl _⟩) hfit.least.1.2

theorem held_cons (ptr : Nat) (layout : Layout) (live : List (Nat × Layout)) :
    held ((ptr, layout) :: live) = adjustedSize layout + held live := by
  rw [held, List.map_cons, Span.total_cons, held]
  rfl

/-- An event never adds to the sizes, and keeps them exactly when it loses nothing. -/
theorem Change.total (h : Inv heap s regions) {e : Event} {p : Nat} {s' : System}
    {regions' : List Span} (hchange : Change alignUp s regions e p s' regions') :
    Span.total regions' + held s'.live ≤ Span.total regions + held s.live ∧
      (Span.total regions' + held s'.live = Span.total regions + held s.live ↔
        Snug alignUp s e) := by
  cases hchange with
  | @served layout r _ _ a htakes =>
    have htotal := htakes.total
    have hle := htakes.start_spec.2.1
    have hsnug : Snug alignUp s (.alloc layout) ↔ p = r.start := by
      rw [htakes.start_eq_iff]
      constructor
      · intro hsnug
        exact hsnug regions r h.linked htakes.firstFit
      · intro hdvd regions₁ r₁ hlinked hfirst
        rw [hlinked.unique h.linked, htakes.firstFit] at hfirst
        obtain rfl := Option.some.inj hfirst
        exact hdvd
    rw [hsnug, held_cons]
    omega
  | @refused layout hrejects =>
    refine ⟨Nat.le_refl _, iff_of_true rfl ?_⟩
    intro regions₁ r₁ hlinked hfirst
    rw [hlinked.unique h.linked, firstFit_of_rejects hrejects] at hfirst
    cases hfirst
  | @returned ptr layout a hlive =>
    have hperm := Span.total_perm ((List.perm_cons_erase hlive).map block)
    have hsum : Span.total (block (ptr, layout) :: regions) + held (s.live.erase (ptr, layout)) =
        Span.total regions + held s.live := by
      rw [List.map_cons, Span.total_cons] at hperm
      rw [held, held, hperm, Span.total_cons]
      omega
    exact ⟨Nat.le_of_eq hsum, iff_of_true hsum trivial⟩
  | stored ptr layout off data memory => exact ⟨Nat.le_refl _, iff_of_true rfl trivial⟩

/-- Regions and blocks that add up to the heap leave no gap. -/
theorem Inv.conserves (h : Inv heap s regions)
    (htotal : Span.total regions + held s.live = heap.len) : Conserves heap s := by
  refine ⟨regions, h.linked, htotal, ?_⟩
  intro hlive x hlow hhigh
  have hpacked := h.packed
  rw [hlive, List.map_nil, List.append_nil] at hpacked
  rw [hlive, held, List.map_nil, Span.total_nil, Nat.add_zero] at htotal
  exact hpacked.covers htotal hlow hhigh

/-- What `init` has taken is aligned and large enough. -/
theorem inv_of_init (halign : AlignsUp alignUp) (hvalid : ValidHeap heap) {memory : Memory}
    {a : LinkedListAllocator}
    (ha : LinkedListAllocator.init alignUp memory heap.start heap.len = .ok a) :
    Inv heap ⟨a, []⟩ [heap] := by
  have hparts : alignUp heap.start 8 = some heap.start ∧ 16 ≤ heap.len := by
    rw [LinkedListAllocator.init, LinkedListAllocator.addFreeRegion] at ha
    by_cases hup : alignUp heap.start 8 = some heap.start
    · by_cases hlen : 16 ≤ heap.len
      · exact ⟨hup, hlen⟩
      · rw [if_pos hup, if_neg hlen] at ha
        cases ha
    · rw [if_neg hup] at ha
      cases ha
  obtain ⟨hup, hlen⟩ := hparts
  obtain ⟨hleast, -⟩ := (halign.eq_some_iff (show 8 = 2 ^ 3 from rfl)).mp hup
  obtain ⟨a', ha', hinv⟩ := inv_init halign hvalid hleast.1.1 hlen memory
  obtain rfl := Except.ok.inj (ha.symm.trans ha')
  exact hinv

/-- In a run from `init` on the sizes add up to the heap at every point exactly when each request
is served from a region that starts at its alignment. -/
theorem conserved_iff (halign : AlignsUp alignUp) (hvalid : ValidHeap heap) {memory : Memory}
    {a : LinkedListAllocator}
    (ha : LinkedListAllocator.init alignUp memory heap.start heap.len = .ok a)
    {t : List (Call System Event Nat)}
    (h : Run (fun x ↦ x.before.step alignUp x.input = some (x.output, x.after)) ⟨a, []⟩ t s) :
    Conserved heap t s ↔ ∀ x ∈ t, Snug alignUp x.before x.input := by
  have hinit := inv_of_init halign hvalid ha
  constructor
  · rintro ⟨-, hall⟩ x hx
    obtain ⟨⟨before, hbefore⟩, -⟩ := (hinit.run halign hvalid h).2 x hx
    obtain ⟨after, hafter, hchange⟩ := hbefore.step halign hvalid (h.mem hx)
    obtain ⟨⟨before', hlinked, htotal, -⟩, ⟨after', hlinked', htotal', -⟩⟩ := hall x hx
    rw [hlinked.unique hbefore.linked] at htotal
    rw [hlinked'.unique hafter.linked] at htotal'
    exact (hchange.total hbefore).2.mp (htotal'.trans htotal.symm)
  · intro hsnug
    have hrun := (h.restrict hsnug).invariant
      (I := fun s ↦ ∃ regions, Inv heap s regions ∧ Span.total regions + held s.live = heap.len)
      (fun x ⟨hx, hsnug⟩ ⟨before, hbefore, htotal⟩ ↦ by
        obtain ⟨after, hafter, hchange⟩ := hbefore.step halign hvalid hx
        exact ⟨after, hafter, ((hchange.total hbefore).2.mpr hsnug).trans htotal⟩)
      ⟨[heap], hinit, rfl⟩
    obtain ⟨⟨last, hlast, htotal⟩, hall⟩ := hrun
    refine ⟨hlast.conserves htotal, ?_⟩
    intro x hx
    obtain ⟨⟨before, hbefore, htotal⟩, ⟨after, hafter, htotal'⟩⟩ := hall x hx
    exact ⟨hbefore.conserves htotal, hafter.conserves htotal'⟩

/-- Requests with an alignment of at most 8 lose nothing. -/
theorem Inv.snug (h : Inv heap s regions) {e : Event}
    (hsmall : ∀ layout, e = .alloc layout → layout.align ≤ 8) : Snug alignUp s e := by
  cases e with
  | alloc layout =>
    intro regions₁ r hlinked hfirst
    rw [hlinked.unique h.linked] at hfirst
    rw [Nat.max_eq_right (hsmall layout rfl)]
    exact (h.free_fits r (List.mem_of_find?_eq_some hfirst)).1
  | dealloc ptr layout => trivial
  | store ptr layout off data => trivial

end Steps

/-- Two blocks come and go. -/
def twoBlocks : List Event :=
  [.alloc (layoutOf 24 3), .alloc (layoutOf 5 0), .dealloc 0x2000000 (layoutOf 24 3),
    .dealloc 0x2000018 (layoutOf 5 0)]

theorem conserved_iff_twoBlocks : ∃ t s,
    trace (System.step roundUp) ⟨kernelAllocator, []⟩ twoBlocks = some (t, s) ∧
      s.live = [] ∧ Conserved kernelHeap t s := by
  have hsome : (trace (System.step roundUp) ⟨kernelAllocator, []⟩ twoBlocks).map
      (fun r ↦ r.2.live) = some [] := by
    decide
  obtain ⟨⟨t, s⟩, ht, hlive⟩ := Option.map_eq_some_iff.mp hsome
  refine ⟨t, s, ht, hlive, ?_⟩
  apply (conserved_iff alignsUp_roundUp validHeap_kernelHeap init_kernelHeap (run_trace ht)).mpr
  intro x hx
  have hinit := inv_of_init alignsUp_roundUp validHeap_kernelHeap init_kernelHeap
  obtain ⟨⟨regions, hinv⟩, -⟩ :=
    (hinit.run alignsUp_roundUp validHeap_kernelHeap (run_trace ht)).2 x hx
  apply hinv.snug
  have hmem : x.input ∈ twoBlocks := map_input_trace ht ▸ List.mem_map_of_mem hx
  have hsmall : ∀ e ∈ twoBlocks, ∀ layout, e = .alloc layout → layout.align ≤ 8 := by
    simp [twoBlocks, layoutOf]
  exact hsmall _ hmem

/-- A block at an alignment of 32 behind one of 24 bytes, and both come back. -/
def alignedBlock : List Event :=
  [.alloc (layoutOf 24 3), .alloc (layoutOf 32 5), .dealloc 0x2000020 (layoutOf 32 5),
    .dealloc 0x2000000 (layoutOf 24 3)]

/-- Eight bytes are in no region any more. -/
theorem not_conserved_alignedBlock : AlignsUp roundUp ∧ ValidHeap kernelHeap ∧
    LinkedListAllocator.init roundUp (fun _ ↦ 0) kernelHeap.start kernelHeap.len =
      .ok kernelAllocator ∧
    ∃ t s, trace (System.step roundUp) ⟨kernelAllocator, []⟩ alignedBlock = some (t, s) ∧
      s.live = [] ∧ ¬Conserved kernelHeap t s := by
  refine ⟨alignsUp_roundUp, validHeap_kernelHeap, init_kernelHeap, ?_⟩
  have hsome : (trace (System.step roundUp) ⟨kernelAllocator, []⟩ alignedBlock).map
      (fun r ↦ (r.2.live, decide (r.2.allocator.memory.Regions r.2.allocator.head
        [⟨0x2000000, 24⟩, ⟨0x2000020, 32⟩, ⟨0x2000040, kernelHeap.len - 64⟩]))) =
      some ([], true) := by
    decide
  obtain ⟨⟨t, s⟩, ht, hmap⟩ := Option.map_eq_some_iff.mp hsome
  obtain ⟨hlive, hlinked⟩ := Prod.mk.inj hmap
  refine ⟨t, s, ht, hlive, ?_⟩
  rintro ⟨⟨regions, hregions, htotal, -⟩, -⟩
  rw [hregions.unique (of_decide_eq_true hlinked), show s.live = [] from hlive] at htotal
  revert htotal
  decide

end SmallOs.Kernel.LinkedList
