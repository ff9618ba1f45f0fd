import SmallOs.Base.Regions
import SmallOs.Kernel.FixedSizeBlock

/-!
# The linked-list allocator

`kernel/src/memory/types/linked_list/mod.rs` and `alloc.rs`: one list of free regions, threaded
through the regions themselves. A node is the length of its region and the address of the next
node, and a null address ends the list. What is not a node of the list belongs to a caller, or to
nobody: a region is taken from its first aligned address on, and what lies in front is dropped.

`x86_64::align_up` is a parameter.
-/

namespace SmallOs.Kernel.LinkedList

open SmallOs.Base

/-- Why a call does not return: `align_to` fails, `align_up` overflows, an address overflows, an
assertion of `add_free_region` fails, or the list does not end. -/
inductive Panic where
  | adjusting
  | aligning
  | overflow
  | misaligned
  | small
  | endless
  deriving DecidableEq, Repr

/-- `Layout::pad_to_align`. -/
def padToAlign (size align : Nat) : Nat := (size + align - 1) / align * align

/-- The size of the block for a layout. -/
def adjustedSize (layout : Layout) : Nat := max (padToAlign layout.size (max layout.align 8)) 16

/-- `kernel/src/memory/types/linked_list/alloc.rs:50–57`. A layout is at most `isize::MAX` bytes
when it is padded. -/
def sizeAlign (layout : Layout) : Except Panic (Nat × Nat) :=
  if layout.size + max layout.align 8 ≤ 2 ^ 63 then
    .ok (adjustedSize layout, max layout.align 8)
  else .error .adjusting

/-- `ListNode::end_addr`, `kernel/src/memory/types/linked_list/mod.rs:13`. -/
def endAddr (start size : Nat) : Except Panic Nat :=
  if start + size < 2 ^ 64 then .ok (start + size) else .error .overflow

/-- The allocator: the `next` of its `head`, with the memory that the nodes lie in. -/
structure LinkedListAllocator where
  head : Nat
  memory : Memory

/-- The `next` of the head or of a node. -/
def LinkedListAllocator.next (a : LinkedListAllocator) : Option Nat → Nat
  | none => a.head
  | some node => a.memory.word (node + 8)

def LinkedListAllocator.setNext (a : LinkedListAllocator) (current : Option Nat) (next : Nat) :
    LinkedListAllocator :=
  match current with
  | none => { a with head := next }
  | some node => { a with memory := a.memory.storeWord (node + 8) next }

section Calls

variable (alignUp : Nat → Nat → Option Nat)

/-- `kernel/src/memory/types/linked_list/alloc.rs:114–128`. -/
def allocFromRegion (start regionSize size align : Nat) : Except Panic (Option Nat) :=
  match alignUp start align with
  | none => .error .aligning
  | some allocStart =>
    if allocStart + size < 2 ^ 64 then do
      let regionEnd ← endAddr start regionSize
      if regionEnd < allocStart + size then return none
      let excessSize := regionEnd - (allocStart + size)
      if 0 < excessSize ∧ excessSize < 16 then return none
      return some allocStart
    else .ok none

namespace LinkedListAllocator

/-- `kernel/src/memory/types/linked_list/alloc.rs:71–87`. -/
def addFreeRegion (a : LinkedListAllocator) (addr size : Nat) :
    Except Panic LinkedListAllocator :=
  if alignUp addr 8 = some addr then
    if 16 ≤ size then .ok ⟨addr, a.memory.storeNode addr size a.head⟩ else .error .small
  else .error .misaligned

/-- `kernel/src/memory/types/linked_list/alloc.rs:93–108`. The region is taken out of the list:
both `next` are emptied, and the one in front leads on. -/
def findRegion (a : LinkedListAllocator) (size align : Nat) : Nat → Option Nat →
    Except Panic (Option (Nat × Nat) × LinkedListAllocator)
  | 0, _ => .error .endless
  | fuel + 1, current =>
    let region := a.next current
    if region = 0 then .ok (none, a)
    else do
      match ← allocFromRegion alignUp region (a.memory.word region) size align with
      | some allocStart =>
        let next := a.memory.word (region + 8)
        let a := { a with memory := a.memory.storeWord (region + 8) 0 }
        return (some (region, allocStart), a.setNext current next)
      | none => findRegion a size align fuel (some region)

/-- `kernel/src/memory/types/linked_list/alloc.rs:11–28`. A list with more nodes than there are
aligned addresses does not end. -/
def alloc (a : LinkedListAllocator) (layout : Layout) : Except Panic (Nat × LinkedListAllocator) :=
  do
    let (size, align) ← sizeAlign layout
    match ← a.findRegion alignUp size align (2 ^ 61) none with
    | (some (region, allocStart), a) =>
      let allocEnd ← endAddr allocStart size
      let regionEnd ← endAddr region (a.memory.word region)
      if regionEnd < allocEnd then throw .overflow
      if 0 < regionEnd - allocEnd then
        let a ← a.addFreeRegion alignUp allocEnd (regionEnd - allocEnd)
        return (allocStart, a)
      return (allocStart, a)
    | (none, a) => return (0, a)

/-- `kernel/src/memory/types/linked_list/alloc.rs:30–35`. -/
def dealloc (a : LinkedListAllocator) (ptr : Nat) (layout : Layout) :
    Except Panic LinkedListAllocator := do
  let (size, _) ← sizeAlign layout
  a.addFreeRegion alignUp ptr size

/-- `LinkedListAllocator::new` and `init`, in whatever memory. -/
def init (memory : Memory) (heapStart heapSize : Nat) : Except Panic LinkedListAllocator :=
  addFreeRegion alignUp ⟨0, memory⟩ heapStart heapSize

end LinkedListAllocator

/-! ### The allocator and its callers -/

/-- The allocator, and the blocks that its callers hold with the layouts they asked for. -/
structure System where
  allocator : LinkedListAllocator
  live : List (Nat × Layout)

/-- A call of the allocator, or a store of a caller into a block that it holds. -/
inductive Event where
  | alloc (layout : Layout)
  | dealloc (ptr : Nat) (layout : Layout)
  | store (ptr : Nat) (layout : Layout) (off : Nat) (data : List UInt8)

instance decidableHeld (b : Nat × Layout) (live : List (Nat × Layout)) : Decidable (b ∈ live) :=
  decidable_of_iff (live.contains b = true) List.contains_iff_mem

/-- An event within the contract of `GlobalAlloc`, with the pointer that it returns. Pointers are
given back with the layout that they were asked for, and a caller stores within its layout. -/
def System.step (s : System) : Event → Option (Nat × System)
  | .alloc layout =>
    match s.allocator.alloc alignUp layout with
    | .ok (ptr, allocator) =>
      some (ptr, ⟨allocator, if ptr = 0 then s.live else (ptr, layout) :: s.live⟩)
    | .error _ => none
  | .dealloc ptr layout =>
    if (ptr, layout) ∈ s.live then
      match s.allocator.dealloc alignUp ptr layout with
      | .ok allocator => some (0, ⟨allocator, s.live.erase (ptr, layout)⟩)
      | .error _ => none
    else none
  | .store ptr layout off data =>
    if (ptr, layout) ∈ s.live ∧ off + data.length ≤ layout.size then
      some (0, { s with allocator := { s.allocator with
        memory := s.allocator.memory.store (ptr + off) data } })
    else none

end Calls

/-- The addresses of a block, with its adjusted size. -/
def block (b : Nat × Layout) : Span := ⟨b.1, adjustedSize b.2⟩

/-- What is assumed of `x86_64::align_up`, for alignments that are powers of two: it gives the
least multiple that is not below the address, unless that overflows. -/
structure AlignsUp (alignUp : Nat → Nat → Option Nat) : Prop where
  eq_some_iff : ∀ {addr align x k : Nat}, align = 2 ^ k →
    (alignUp addr align = some x ↔ IsLeast {y | align ∣ y ∧ addr ≤ y} x ∧ x < 2 ^ 64)

/-! ### Sizes and alignments -/

theorem padToAlign_spec (size : Nat) {align : Nat} (h : 0 < align) :
    size ≤ padToAlign size align ∧ align ∣ padToAlign size align := by
  refine ⟨?_, Nat.dvd_mul_left _ _⟩
  have hdiv := Nat.div_add_mod (size + align - 1) align
  have hmod := Nat.mod_lt (size + align - 1) h
  rw [Nat.mul_comm] at hdiv
  rw [padToAlign]
  omega

/-- The adjusted alignment is a power of two from 8 on, and the layout's divides it. -/
theorem max_align (layout : Layout) :
    (∃ k, max layout.align 8 = 2 ^ k) ∧ 8 ∣ max layout.align 8 ∧
      layout.align ∣ max layout.align 8 := by
  obtain ⟨k, hk⟩ := layout.power
  rw [hk]
  rcases Nat.le_total k 3 with hle | hle
  · have hpow : 2 ^ k ≤ 8 := Nat.pow_le_pow_right Nat.two_pos hle
    rw [Nat.max_eq_right hpow]
    exact ⟨⟨3, rfl⟩, Nat.dvd_refl 8, Nat.pow_dvd_pow 2 hle⟩
  · have hpow : 8 ≤ 2 ^ k := Nat.pow_le_pow_right Nat.two_pos hle
    rw [Nat.max_eq_left hpow]
    exact ⟨⟨k, rfl⟩, Nat.pow_dvd_pow 2 hle, Nat.dvd_refl _⟩

/-- A block has room for its layout and for a node, and its size is a multiple of 8. -/
theorem adjustedSize_spec (layout : Layout) :
    layout.size ≤ adjustedSize layout ∧ 8 ∣ adjustedSize layout ∧ 16 ≤ adjustedSize layout := by
  obtain ⟨-, hdvd, -⟩ := max_align layout
  have hpos : 0 < max layout.align 8 := Nat.lt_of_lt_of_le (by decide) (Nat.le_max_right _ _)
  obtain ⟨hle, hpad⟩ := padToAlign_spec layout.size hpos
  refine ⟨Nat.le_trans hle (Nat.le_max_left _ _), ?_, Nat.le_max_right _ _⟩
  rw [adjustedSize]
  rcases Nat.le_total (padToAlign layout.size (max layout.align 8)) 16 with hsmall | hlarge
  · rw [Nat.max_eq_right hsmall]
    decide
  · rw [Nat.max_eq_left hlarge]
    exact Nat.dvd_trans hdvd hpad

/-! ### The search -/

/-- A place in a region: its first aligned address, with nothing or room for a node behind. -/
structure Fit (r : Span) (size align start : Nat) : Prop where
  least : IsLeast {x | align ∣ x ∧ r.start ≤ x} start
  room : start + size = r.stop ∨ start + size + 16 ≤ r.stop

/-- A region is passed. -/
def Rejects (alignUp : Nat → Nat → Option Nat) (size align : Nat) (r : Span) : Prop :=
  allocFromRegion alignUp r.start r.len size align = .ok none

/-- The node that leads on when regions have been passed. -/
def passed (current : Option Nat) (before : List Span) : Option Nat :=
  before.foldl (fun _ r ↦ some r.start) current

theorem passed_concat (current : Option Nat) (before : List Span) (last : Span) :
    passed current (before ++ [last]) = some last.start := by
  rw [passed, List.foldl_append]
  rfl

section Search

variable {alignUp : Nat → Nat → Option Nat} (halign : AlignsUp alignUp)
variable {size align k : Nat} (hk : align = 2 ^ k)

include halign hk

theorem allocFromRegion_cases {r : Span} (hstop : r.stop < 2 ^ 64) :
    allocFromRegion alignUp r.start r.len size align = .error .aligning ∨
      allocFromRegion alignUp r.start r.len size align = .ok none ∨
      ∃ start, allocFromRegion alignUp r.start r.len size align = .ok (some start) ∧
        Fit r size align start := by
  have hend : endAddr r.start r.len = .ok r.stop := if_pos hstop
  rw [allocFromRegion, hend]
  cases hup : alignUp r.start align with
  | none => exact Or.inl rfl
  | some start =>
    obtain ⟨hleast, -⟩ := (halign.eq_some_iff hk).mp hup
    refine Or.inr ?_
    dsimp only
    by_cases hover : start + size < 2 ^ 64
    · rw [if_pos hover]
      by_cases hfits : r.stop < start + size
      · exact Or.inl (if_pos hfits)
      · by_cases hsmall : 0 < r.stop - (start + size) ∧ r.stop - (start + size) < 16
        · exact Or.inl ((if_neg hfits).trans (if_pos hsmall))
        · refine Or.inr ⟨start, (if_neg hfits).trans (if_neg hsmall), hleast, ?_⟩
          omega
    · exact Or.inl (if_neg hover)

/-- Where the search for a region ends. The regions `before` have been passed, and the last of them
leads to what is behind the region. -/
theorem findRegion_cases {regions : List Span} {a : LinkedListAllocator} {current : Option Nat}
    (h : a.memory.Regions (a.next current) regions) {fuel : Nat} (hfuel : regions.length < fuel) :
    a.findRegion alignUp size align fuel current = .error .aligning ∨
      a.findRegion alignUp size align fuel current = .ok (none, a) ∧
        (∀ r ∈ regions, Rejects alignUp size align r) ∨
      ∃ before r after start, regions = before ++ r :: after ∧
        (∀ s ∈ before, Rejects alignUp size align s) ∧
        allocFromRegion alignUp r.start r.len size align = .ok (some start) ∧
        Fit r size align start ∧
        a.findRegion alignUp size align fuel current = .ok (some (r.start, start),
          { a with memory := a.memory.storeWord (r.start + 8) 0 }.setNext
            (passed current before) (a.memory.word (r.start + 8))) := by
  induction regions generalizing current fuel with
  | nil =>
    obtain ⟨fuel, rfl⟩ := Nat.exists_eq_add_of_lt hfuel
    refine Or.inr (Or.inl ⟨?_, nofun⟩)
    exact if_pos h
  | cons r rest ih =>
    cases fuel with
    | zero => exact absurd hfuel (Nat.not_lt_zero _)
    | succ fuel =>
      obtain ⟨hhead, hne, hstop, hlen, hrest⟩ := h
      rw [LinkedListAllocator.findRegion, hhead, if_neg hne, hlen]
      rcases @allocFromRegion_cases alignUp halign size align k hk r hstop
        with hpanic | hnone | ⟨start, hsome, hfit⟩
      · rw [hpanic]
        exact Or.inl rfl
      · rw [hnone]
        have hnext : a.memory.Regions (a.next (some r.start)) rest := hrest
        rcases ih hnext (Nat.lt_of_succ_lt_succ hfuel) with hpanic | ⟨hfind, hall⟩ |
          ⟨before, r', after, start, rfl, hbefore, hr', hfit, hfind⟩
        · exact Or.inl hpanic
        · exact Or.inr (Or.inl ⟨hfind, List.forall_mem_cons.mpr ⟨hnone, hall⟩⟩)
        · refine Or.inr (Or.inr ⟨r :: before, r', after, start, rfl, ?_, hr', hfit, hfind⟩)
          exact List.forall_mem_cons.mpr ⟨hnone, hbefore⟩
      · rw [hsome]
        exact Or.inr (Or.inr ⟨[], r, rest, start, rfl, nofun, hsome, hfit, rfl⟩)

end Search

/-! ### What a call does -/

section Calls

variable {alignUp : Nat → Nat → Option Nat}

/-- Taking a region out of the list leaves its length where it was. -/
theorem unlinked {a : LinkedListAllocator} {before after : List Span} {r : Span}
    (h : a.memory.Regions a.head (before ++ r :: after))
    (hapart : (before ++ r :: after).Pairwise fun s t ↦ (Memory.node s).Apart (Memory.node t))
    {a' : LinkedListAllocator}
    (ha' : a' = { a with memory := a.memory.storeWord (r.start + 8) 0 }.setNext
      (passed none before) (a.memory.word (r.start + 8))) :
    a'.memory.Regions a'.head (before ++ after) ∧ a'.memory.word r.start = r.len := by
  subst ha'
  obtain ⟨-, -, hlen⟩ := h.mem (List.mem_append_right before List.mem_cons_self)
  have hwords : (Span.mk r.start 8).Apart ⟨r.start + 8, 8⟩ := Or.inl (Nat.le_refl _)
  have hword := (a.memory.word_storeWord_apart 0 hwords).trans hlen
  rcases List.eq_nil_or_concat before with rfl | ⟨before, last, rfl⟩
  · have hr := (List.pairwise_cons.mp hapart).1
    exact ⟨h.unlink_first fun s hs ↦ (hr s hs).symm, hword⟩
  · rw [List.concat_eq_append] at h hapart ⊢
    rw [passed_concat]
    rw [List.append_assoc, List.singleton_append] at h hapart ⊢
    refine ⟨h.unlink hapart, ?_⟩
    have hpair := (List.pairwise_append.mp hapart).2.1
    have hlast := (List.pairwise_cons.mp hpair).1 r List.mem_cons_self
    have hother := (hlast.mono (Memory.second_within last) (Memory.first_within r)).symm
    exact (Memory.word_storeWord_apart _ _ hother).trans hword

/-- The assertions hold for a region at an aligned address that is large enough. -/
theorem addFreeRegion_ok (halign : AlignsUp alignUp) {a : LinkedListAllocator}
    {regions : List Span} (h : a.memory.Regions a.head regions) {r : Span} (hdvd : 8 ∣ r.start)
    (hlen : 16 ≤ r.len) (hne : r.start ≠ 0) (hstop : r.stop < 2 ^ 64)
    (hapart : ∀ s ∈ regions, (Memory.node s).Apart (Memory.node r)) :
    ∃ a', a.addFreeRegion alignUp r.start r.len = .ok a' ∧
      a'.memory.Regions a'.head (r :: regions) := by
  have hleast : IsLeast {y | 8 ∣ y ∧ r.start ≤ y} r.start :=
    ⟨⟨hdvd, Nat.le_refl _⟩, fun y hy ↦ hy.2⟩
  have hlt : r.start < 2 ^ 64 := Nat.lt_of_le_of_lt (Nat.le_add_right _ _) hstop
  have hup : alignUp r.start 8 = some r.start :=
    (halign.eq_some_iff (show 8 = 2 ^ 3 from rfl)).mpr ⟨hleast, hlt⟩
  refine ⟨⟨r.start, a.memory.storeNode r.start r.len a.head⟩, ?_, h.push hne hstop hapart⟩
  rw [LinkedListAllocator.addFreeRegion, if_pos hup, if_pos hlen]

/-- What is left of a region behind a block. -/
def remainder (r : Span) (blockEnd : Nat) : List Span :=
  if blockEnd < r.stop then [⟨blockEnd, r.stop - blockEnd⟩] else []

/-- On the list of regions: the first one with a place gives it, and keeps what is behind. -/
inductive Takes (alignUp : Nat → Nat → Option Nat) (size align : Nat) :
    List Span → Span → Nat → List Span → Prop where
  | intro {before after : List Span} {r : Span} {start : Nat}
    (passed : ∀ s ∈ before, Rejects alignUp size align s)
    (found : allocFromRegion alignUp r.start r.len size align = .ok (some start))
    (fit : Fit r size align start) :
    Takes alignUp size align (before ++ r :: after) r start
      (remainder r (start + size) ++ (before ++ after))

theorem Fit.le {r : Span} {size align start : Nat} (h : Fit r size align start) :
    start + size ≤ r.stop := by
  rcases h.room with heq | hroom
  · exact Nat.le_of_eq heq
  · exact Nat.le_trans (Nat.le_add_right _ 16) hroom

/-- What is left of a region is put back, behind a block that ends at an aligned address. -/
theorem putBack (halign : AlignsUp alignUp) {a : LinkedListAllocator} {others : List Span}
    (h : a.memory.Regions a.head others) {r : Span} {size align start : Nat}
    (hplace : Fit r size align start) (hdvd : 8 ∣ start + size) (hne : start + size ≠ 0)
    (hstop : r.stop < 2 ^ 64) (hapart : ∀ s ∈ others, (Memory.node s).Apart r) :
    ∃ a', (if 0 < r.stop - (start + size) then do
        let a ← a.addFreeRegion alignUp (start + size) (r.stop - (start + size))
        return (start, a)
      else return (start, a)) = Except.ok (start, a') ∧
      a'.memory.Regions a'.head (remainder r (start + size) ++ others) := by
  by_cases hrest : start + size < r.stop
  · have hlen : 16 ≤ r.stop - (start + size) := by
      have hroom := hplace.room
      omega
    have hend : start + size + (r.stop - (start + size)) = r.stop := Nat.add_sub_of_le hplace.le
    have hwithin : (Span.mk (start + size) (r.stop - (start + size))).Within r :=
      ⟨Nat.le_trans hplace.least.1.2 (Nat.le_add_right _ _), Nat.le_of_eq hend⟩
    obtain ⟨a', hadd, hadded⟩ := addFreeRegion_ok halign h
      (r := ⟨start + size, r.stop - (start + size)⟩) hdvd hlen hne (hend.trans_lt hstop)
      fun s hs ↦ ((hapart s hs).mono (Span.Within.refl _) hwithin).mono (Span.Within.refl _)
        (Memory.node_within hlen)
    refine ⟨a', ?_, ?_⟩
    · rw [if_pos (Nat.sub_pos_of_lt hrest), hadd]
      rfl
    · rw [remainder, if_pos hrest]
      exact hadded
  · refine ⟨a, ?_, ?_⟩
    · rw [if_neg fun hpos ↦ hrest (Nat.lt_of_sub_pos hpos)]
      rfl
    · rw [remainder, if_neg hrest]
      exact h

/-- How a call of `alloc` ends. -/
theorem alloc_cases (halign : AlignsUp alignUp) {a : LinkedListAllocator} {regions : List Span}
    (h : a.memory.Regions a.head regions) (hapart : regions.Pairwise Span.Apart)
    (hfit : ∀ r ∈ regions, 8 ∣ r.start ∧ 16 ≤ r.len) (hcount : regions.length < 2 ^ 61)
    (layout : Layout) :
    a.alloc alignUp layout = .error .adjusting ∨ a.alloc alignUp layout = .error .aligning ∨
      a.alloc alignUp layout = .ok (0, a) ∧
        (∀ r ∈ regions, Rejects alignUp (adjustedSize layout) (max layout.align 8) r) ∨
      ∃ r start regions' a', layout.size + max layout.align 8 ≤ 2 ^ 63 ∧
        a.alloc alignUp layout = .ok (start, a') ∧
        Takes alignUp (adjustedSize layout) (max layout.align 8) regions r start regions' ∧
        a'.memory.Regions a'.head regions' := by
  by_cases hsize : layout.size + max layout.align 8 ≤ 2 ^ 63
  · have hadjust : sizeAlign layout = .ok (adjustedSize layout, max layout.align 8) := if_pos hsize
    obtain ⟨⟨k, hk⟩, hdvd, -⟩ := max_align layout
    obtain ⟨-, hsizeDvd, hmin⟩ := adjustedSize_spec layout
    refine Or.inr ?_
    rw [LinkedListAllocator.alloc, hadjust]
    dsimp only [bind, Except.bind]
    rcases @findRegion_cases alignUp halign (adjustedSize layout) _ k hk regions a none h _ hcount
      with hpanic | ⟨hnone, hall⟩ | ⟨before, r, after, start, rfl, hbefore, hr, hplace, hfind⟩
    · rw [hpanic]
      exact Or.inl rfl
    · rw [hnone]
      exact Or.inr (Or.inl ⟨rfl, hall⟩)
    · have hnodes : (before ++ r :: after).Pairwise
          fun s t ↦ (Memory.node s).Apart (Memory.node t) := by
        apply hapart.imp_of_mem
        intro s t hs ht hst
        exact hst.mono (Memory.node_within (hfit s hs).2) (Memory.node_within (hfit t ht).2)
      have hothers : ∀ s ∈ before ++ after, (Memory.node s).Apart r := by
        have hperm : (before ++ r :: after).Perm (r :: (before ++ after)) := List.perm_middle
        have hpairs := (hperm.pairwise_iff fun hst ↦ hst.symm).mp hapart
        intro s hs
        have hmin := (hfit s (hperm.mem_iff.mpr (List.mem_cons_of_mem r hs))).2
        exact ((List.pairwise_cons.mp hpairs).1 s hs).symm.mono (Memory.node_within hmin)
          (Span.Within.refl r)
      obtain ⟨hne, hstop, -⟩ := h.mem (List.mem_append_right before List.mem_cons_self)
      generalize ha₁ : LinkedListAllocator.setNext _ _ _ = a₁ at hfind
      obtain ⟨hlinked, hword⟩ := unlinked h hnodes ha₁.symm
      have hend : endAddr start (adjustedSize layout) = .ok (start + adjustedSize layout) :=
        if_pos (Nat.lt_of_le_of_lt hplace.le hstop)
      have hregion : endAddr r.start r.len = .ok r.stop := if_pos hstop
      have haligned : 8 ∣ start + adjustedSize layout :=
        Nat.dvd_add (Nat.dvd_trans hdvd hplace.least.1.1) hsizeDvd
      obtain ⟨a', hput, hadded⟩ := putBack halign hlinked hplace haligned (by omega) hstop hothers
      rw [hfind]
      dsimp only
      rw [hword, hend, hregion]
      dsimp only
      rw [if_neg (Nat.not_lt.mpr hplace.le)]
      exact Or.inr (Or.inr ⟨r, start, _, a', hsize, hput, .intro hbefore hr hplace, hadded⟩)
  · refine Or.inl ?_
    rw [LinkedListAllocator.alloc, sizeAlign, if_neg hsize]
    rfl

end Calls

end SmallOs.Kernel.LinkedList
