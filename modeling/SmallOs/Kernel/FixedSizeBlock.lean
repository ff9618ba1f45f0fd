import SmallOs.Base.Links
import SmallOs.Base.Run

/-!
# The fixed-size block allocator

`kernel/src/memory/types/fixed_size_block/mod.rs`: nine lists of free blocks, threaded through
the blocks themselves, over a fallback heap that is a parameter. A null pointer is address 0,
which is also how memory holds the end of a list.

Every block that the fallback heap has handed out is held by a caller or lies on the list of its
class. The blocks are apart, so a node is never overwritten while it is on a list.
-/

namespace SmallOs.Kernel

open SmallOs.Base

/-- `core::alloc::Layout`: a size and an alignment, which is a power of two. -/
structure Layout where
  size : Nat
  align : Nat
  power : ∃ k, align = 2 ^ k
  deriving DecidableEq

theorem Layout.align_pos (layout : Layout) : 0 < layout.align := by
  obtain ⟨k, hk⟩ := layout.power
  rw [hk]
  exact Nat.two_pow_pos k

/-- `linked_list_allocator::Heap`. -/
class Heap (H : Type) where
  allocateFirstFit : H → Layout → Option Nat × H
  deallocate : H → Nat → Layout → H

namespace FixedSizeBlock

/-- `kernel/src/memory/types/fixed_size_block/mod.rs:9`. -/
def blockSizes : Vector Nat 9 := #v[8, 16, 32, 64, 128, 256, 512, 1024, 2048]

/-- `kernel/src/memory/types/fixed_size_block/mod.rs:11–14`. -/
def listIndex (layout : Layout) : Option (Fin 9) :=
  (List.finRange 9).find? fun i ↦ max layout.size layout.align ≤ blockSizes[i]

theorem blockSizes_eq : ∀ i : Fin 9, blockSizes[i] = 2 ^ (i.val + 3) := by decide

/-- The layout of the blocks of a list. -/
def blockLayout (i : Fin 9) : Layout := ⟨blockSizes[i], blockSizes[i], i.val + 3, blockSizes_eq i⟩

/-- `kernel/src/memory/types/fixed_size_block/mod.rs:20–23`, with the memory that the nodes of the
lists lie in. -/
structure Allocator (H : Type) where
  listHeads : Vector Nat 9
  fallback : H
  memory : Memory

namespace Allocator

variable {H : Type} [Heap H]

/-- `kernel/src/memory/types/fixed_size_block/mod.rs:45–50`. -/
def fallbackAlloc (a : Allocator H) (layout : Layout) : Nat × Allocator H :=
  match Heap.allocateFirstFit a.fallback layout with
  | (some ptr, fallback) => (ptr, { a with fallback })
  | (none, fallback) => (0, { a with fallback })

/-- `kernel/src/memory/types/fixed_size_block/mod.rs:54–71`. The node that is taken from its list
keeps a null in its word. -/
def alloc (a : Allocator H) (layout : Layout) : Nat × Allocator H :=
  match listIndex layout with
  | some i =>
    let node := a.listHeads[i]
    if node = 0 then a.fallbackAlloc (blockLayout i)
    else (node, { a with
      listHeads := a.listHeads.set i (a.memory.word node)
      memory := a.memory.storeWord node 0 })
  | none => a.fallbackAlloc layout

/-- `kernel/src/memory/types/fixed_size_block/mod.rs:73–93`. A node takes eight bytes, so the
assertions hold for every list; a null pointer fails where it is unwrapped. -/
def dealloc (a : Allocator H) (ptr : Nat) (layout : Layout) : Option (Allocator H) :=
  match listIndex layout with
  | some i =>
    if 8 ≤ blockSizes[i] then
      some { a with
        listHeads := a.listHeads.set i ptr
        memory := a.memory.storeWord ptr a.listHeads[i] }
    else none
  | none =>
    if ptr = 0 then none
    else some { a with fallback := Heap.deallocate a.fallback ptr layout }

end Allocator

/-! ### The allocator and its callers -/

/-- A fallback heap with the blocks that it has handed out and not got back, and the requests
that it has ever served, latest first. -/
structure Recorded (H : Type) where
  heap : H
  handed : List (Nat × Layout)
  served : List (Nat × Layout)

instance {H : Type} [Heap H] : Heap (Recorded H) where
  allocateFirstFit r layout :=
    match Heap.allocateFirstFit r.heap layout with
    | (some ptr, heap) => (some ptr, ⟨heap, (ptr, layout) :: r.handed, (ptr, layout) :: r.served⟩)
    | (none, heap) => (none, { r with heap })
  deallocate r ptr layout :=
    { r with
      heap := Heap.deallocate r.heap ptr layout
      handed := r.handed.erase (ptr, layout) }

/-- The allocator, and the blocks that its callers hold with the layouts they asked for. -/
structure System (H : Type) where
  allocator : Allocator (Recorded H)
  live : List (Nat × Layout)

/-- A call of the allocator, or a store of a caller into a block that it holds. -/
inductive Event where
  | alloc (layout : Layout)
  | dealloc (ptr : Nat) (layout : Layout)
  | store (ptr : Nat) (layout : Layout) (off : Nat) (data : List UInt8)

section Steps

variable {H : Type} [Heap H]

/-- An event within the contract of `GlobalAlloc`, with the pointer that it returns. Pointers are
given back with the layout that they were asked for, and a caller stores within its layout. -/
def System.step (s : System H) : Event → Option (Nat × System H)
  | .alloc layout =>
    let (ptr, allocator) := s.allocator.alloc layout
    some (ptr, ⟨allocator, if ptr = 0 then s.live else (ptr, layout) :: s.live⟩)
  | .dealloc ptr layout =>
    if (ptr, layout) ∈ s.live then
      (s.allocator.dealloc ptr layout).map fun allocator ↦
        (0, ⟨allocator, s.live.erase (ptr, layout)⟩)
    else none
  | .store ptr layout off data =>
    if (ptr, layout) ∈ s.live ∧ off + data.length ≤ layout.size then
      some (0, { s with allocator := { s.allocator with
        memory := s.allocator.memory.store (ptr + off) data } })
    else none

/-- An allocator after `new` and `init`, in whatever memory. -/
def System.init (heap : H) (memory : Memory) : System H :=
  ⟨⟨Vector.replicate 9 0, ⟨heap, [], []⟩, memory⟩, []⟩

end Steps

/-! ### Safety -/

section Safety

variable {H : Type}

/-- The addresses of a block. -/
def span (b : Nat × Layout) : Span := ⟨b.1, b.2.size⟩

/-- What is assumed of the fallback heap, with the blocks that it has handed out and not got
back: what it returns fits the layout and is apart from all of them. -/
structure Sound [Heap H] (Good : H → List (Nat × Layout) → Prop) : Prop where
  alloc_some : ∀ {h h' bs layout ptr}, Good h bs →
    Heap.allocateFirstFit h layout = (some ptr, h') → Good h' ((ptr, layout) :: bs) ∧
      ptr ≠ 0 ∧ layout.align ∣ ptr ∧ ptr + layout.size ≤ 2 ^ 64 ∧
      ∀ b ∈ bs, (span (ptr, layout)).Apart (span b)
  alloc_none : ∀ {h h' bs layout}, Good h bs →
    Heap.allocateFirstFit h layout = (none, h') → Good h' bs
  dealloc : ∀ {h bs ptr layout}, Good h bs → (ptr, layout) ∈ bs →
    Good (Heap.deallocate h ptr layout) (bs.erase (ptr, layout))

/-! ### Classes -/

/-- The layout of the block that serves a request. -/
def backing (layout : Layout) : Layout :=
  match listIndex layout with
  | some i => blockLayout i
  | none => layout

/-- The block behind a pointer that a caller holds. -/
def backed (b : Nat × Layout) : Nat × Layout := (b.1, backing b.2)

theorem le_of_listIndex {layout : Layout} {i : Fin 9} (h : listIndex layout = some i) :
    layout.size ≤ blockSizes[i] ∧ layout.align ≤ blockSizes[i] := by
  have hfind := List.find?_some
    (p := fun i : Fin 9 ↦ decide (max layout.size layout.align ≤ blockSizes[i])) h
  exact Nat.max_le.mp (of_decide_eq_true hfind)

theorem listIndex_blockLayout : ∀ i, listIndex (blockLayout i) = some i := by
  decide

theorem backing_of_some {layout : Layout} {i : Fin 9} (h : listIndex layout = some i) :
    backing layout = blockLayout i := by
  rw [backing, h]

theorem backing_of_none {layout : Layout} (h : listIndex layout = none) :
    backing layout = layout := by
  rw [backing, h]

/-- A block serves its request: it is as large, and its alignment is a multiple. -/
theorem backing_fits (layout : Layout) :
    layout.size ≤ (backing layout).size ∧ layout.align ∣ (backing layout).align := by
  cases h : listIndex layout with
  | none =>
    rw [backing_of_none h]
    exact ⟨Nat.le_refl _, Nat.dvd_refl _⟩
  | some i =>
    rw [backing_of_some h]
    obtain ⟨hsize, halign⟩ := le_of_listIndex h
    obtain ⟨k, hk⟩ := layout.power
    refine ⟨hsize, ?_⟩
    change layout.align ∣ blockSizes[i]
    rw [blockSizes_eq, hk] at halign ⊢
    exact Nat.pow_dvd_pow 2 ((Nat.pow_le_pow_iff_right (by decide)).mp halign)

/-! ### Blocks on lists -/

/-- The list of one class replaced. -/
def setList (lists : Fin 9 → List Nat) (i : Fin 9) (nodes : List Nat) : Fin 9 → List Nat :=
  fun j ↦ if j = i then nodes else lists j

/-- All free blocks, with the layouts of their classes. -/
def freeBlocks (lists : Fin 9 → List Nat) : List (Nat × Layout) :=
  (List.finRange 9).flatMap fun i ↦ (lists i).map fun p ↦ (p, blockLayout i)

theorem mem_freeBlocks {lists : Fin 9 → List Nat} {b : Nat × Layout} :
    b ∈ freeBlocks lists ↔ ∃ i, ∃ p ∈ lists i, b = (p, blockLayout i) := by
  simp only [freeBlocks, List.mem_flatMap, List.mem_finRange, true_and, List.mem_map, eq_comm]

theorem setList_self (lists : Fin 9 → List Nat) (i : Fin 9) :
    setList lists i (lists i) = lists := by
  funext j
  by_cases h : j = i
  · rw [setList, if_pos h, h]
  · rw [setList, if_neg h]

/-- A node in front of a list is one more free block. -/
theorem freeBlocks_cons (lists : Fin 9 → List Nat) (i : Fin 9) (p : Nat) (nodes : List Nat) :
    (freeBlocks (setList lists i (p :: nodes))).Perm
      ((p, blockLayout i) :: freeBlocks (setList lists i nodes)) := by
  have hidx : ∀ idx : List (Fin 9), i ∈ idx → idx.Nodup →
      (idx.flatMap fun j ↦ (setList lists i (p :: nodes) j).map fun q ↦ (q, blockLayout j)).Perm
        ((p, blockLayout i) ::
          idx.flatMap fun j ↦ (setList lists i nodes j).map fun q ↦ (q, blockLayout j)) := by
    intro idx hi hn
    induction idx with
    | nil => cases hi
    | cons j idx ih =>
      obtain ⟨hj, hn⟩ := List.nodup_cons.mp hn
      rw [List.flatMap_cons, List.flatMap_cons]
      by_cases hji : j = i
      · subst hji
        have hrest : ∀ nodes, (idx.flatMap fun k ↦ (setList lists j nodes k).map
            fun q ↦ (q, blockLayout k)) =
              idx.flatMap fun k ↦ (lists k).map fun q ↦ (q, blockLayout k) := by
          intro nodes
          apply flatMap_congr_mem
          intro k hk
          have hne : k ≠ j := fun h ↦ hj (h ▸ hk)
          rw [setList, if_neg hne]
        rw [hrest, hrest, setList, setList, if_pos rfl, if_pos rfl, List.map_cons, List.cons_append]
      · have hother : ∀ nodes, setList lists i nodes j = lists j := fun _ ↦ if_neg hji
        rw [hother, hother]
        refine List.Perm.trans ?_ List.perm_middle
        apply List.Perm.append_left
        exact ih ((List.mem_cons.mp hi).resolve_left (Ne.symm hji)) hn
  exact hidx _ (List.mem_finRange i) (List.nodup_finRange 9)

/-! ### The invariant -/

/-- Every block that the fallback heap has handed out is held or free, and the free ones are
linked in memory. -/
structure Inv (Good : H → List (Nat × Layout) → Prop) (s : System H)
    (lists : Fin 9 → List Nat) : Prop where
  linked : ∀ i : Fin 9, s.allocator.memory.Linked s.allocator.listHeads[i] (lists i)
  handed : s.allocator.fallback.handed.Perm (s.live.map backed ++ freeBlocks lists)
  apart : s.allocator.fallback.handed.Pairwise fun b c ↦ (span b).Apart (span c)
  fits : ∀ b ∈ s.allocator.fallback.handed,
    b.1 ≠ 0 ∧ b.2.align ∣ b.1 ∧ b.1 + b.2.size ≤ 2 ^ 64
  good : Good s.allocator.fallback.heap s.allocator.fallback.handed
  served : ∀ p i, (p, blockLayout i) ∈ s.allocator.fallback.served →
    (p, blockLayout i) ∈ s.allocator.fallback.handed

variable {Good : H → List (Nat × Layout) → Prop} {s : System H} {lists : Fin 9 → List Nat}

theorem inv_init {heap : H} (memory : Memory) (hg : Good heap []) :
    Inv Good (System.init heap memory) fun _ ↦ [] := by
  refine ⟨?_, ?_, List.Pairwise.nil, nofun, hg, nofun⟩
  · intro i
    exact Vector.getElem_replicate _
  · exact List.Perm.nil

namespace Inv

/-- A held block is apart from every free one. -/
theorem live_free (h : Inv Good s lists) {b c : Nat × Layout} (hb : b ∈ s.live)
    (hc : c ∈ freeBlocks lists) : (span (backed b)).Apart (span c) := by
  have hall := (h.handed.pairwise_iff fun hbc ↦ hbc.symm).mp h.apart
  exact (List.pairwise_append.mp hall).2.2 _ (List.mem_map_of_mem hb) c hc

theorem mem_handed_live (h : Inv Good s lists) {b : Nat × Layout} (hb : b ∈ s.live) :
    backed b ∈ s.allocator.fallback.handed :=
  h.handed.mem_iff.mpr (List.mem_append_left _ (List.mem_map_of_mem hb))

theorem mem_handed_free (h : Inv Good s lists) {c : Nat × Layout} (hc : c ∈ freeBlocks lists) :
    c ∈ s.allocator.fallback.handed :=
  h.handed.mem_iff.mpr (List.mem_append_right _ hc)

/-- A node on a list is the start of its block. -/
theorem node_within (i : Fin 9) (p : Nat) : (Span.mk p 8).Within (span (p, blockLayout i)) := by
  have hmin : ∀ i : Fin 9, 8 ≤ (blockLayout i).size := by decide
  exact ⟨Nat.le_refl _, Nat.add_le_add_left (hmin i) p⟩

/-- The nodes on the lists are apart from whatever is apart from the free blocks. -/
theorem node_apart {t : Span} (ht : ∀ c ∈ freeBlocks lists, t.Apart (span c)) {i : Fin 9} {p : Nat}
    (hp : p ∈ lists i) : (Span.mk p 8).Apart t :=
  (ht _ (mem_freeBlocks.mpr ⟨i, p, hp, rfl⟩)).symm.mono (node_within i p) (Span.Within.refl t)

end Inv

theorem getElem_setHead (heads : Vector Nat 9) (i j : Fin 9) (p : Nat) :
    (heads.set i p)[j] = if j = i then p else heads[j] := by
  change (heads.set i.val p i.isLt)[j.val] = _
  rw [Vector.getElem_set]
  by_cases h : j = i
  · rw [if_pos h, if_pos (congrArg Fin.val h.symm)]
  · rw [if_neg h, if_neg fun hv ↦ h (Fin.ext hv.symm)]
    rfl

/-- A store apart from the free blocks leaves the lists alone. -/
theorem linked_store {m : Memory} {heads : Vector Nat 9}
    (hl : ∀ i : Fin 9, m.Linked heads[i] (lists i)) {off : Nat} {data : List UInt8}
    (ha : ∀ c ∈ freeBlocks lists, (Span.mk off data.length).Apart (span c)) (i : Fin 9) :
    (m.store off data).Linked heads[i] (lists i) := by
  apply (hl i).transport
  intro p hp
  exact m.word_store (Inv.node_apart ha hp)

/-- Taking the first node off a list. -/
theorem linked_pop {m : Memory} {heads : Vector Nat 9}
    (hl : ∀ i : Fin 9, m.Linked heads[i] (lists i)) {i : Fin 9} {rest : List Nat}
    (hrest : m.Linked (m.word heads[i]) rest)
    (ha : ∀ c ∈ freeBlocks (setList lists i rest), (Span.mk heads[i] 8).Apart (span c))
    (j : Fin 9) :
    (m.storeWord heads[i] 0).Linked (heads.set i (m.word heads[i]))[j]
    (setList lists i rest j) := by
  have hlists : ∀ j : Fin 9,
      m.Linked (heads.set i (m.word heads[i]))[j] (setList lists i rest j) := by
    intro j
    rw [getElem_setHead, setList]
    by_cases h : j = i
    · rw [if_pos h, if_pos h]
      exact hrest
    · rw [if_neg h, if_neg h]
      exact hl j
  apply linked_store hlists
  rw [length_leBytes]
  exact ha

/-- Putting a node in front of a list. -/
theorem linked_push {m : Memory} {heads : Vector Nat 9}
    (hl : ∀ i : Fin 9, m.Linked heads[i] (lists i)) {i : Fin 9} {p : Nat} (hne : p ≠ 0)
    (hlt : p < 2 ^ 64) (ha : ∀ c ∈ freeBlocks lists, (Span.mk p 8).Apart (span c)) (j : Fin 9) :
    (m.storeWord p heads[i]).Linked (heads.set i p)[j] (setList lists i (p :: lists i) j) := by
  rw [getElem_setHead, setList]
  by_cases h : j = i
  · rw [if_pos h, if_pos h]
    exact (hl i).push hne hlt fun a ha' ↦ Inv.node_apart ha ha'
  · rw [if_neg h, if_neg h]
    exact linked_store hl (by rw [length_leBytes]; exact ha) j

/-! ### The calls -/

section Calls

variable [Heap H]

/-- A call of `alloc` takes the first block of its class, or asks the fallback heap for one. -/
theorem alloc_cases (a : Allocator H) (layout : Layout) :
    (∃ i, listIndex layout = some i ∧ a.listHeads[i] ≠ 0 ∧ a.alloc layout =
      (a.listHeads[i], { a with
        listHeads := a.listHeads.set i (a.memory.word a.listHeads[i])
        memory := a.memory.storeWord a.listHeads[i] 0 })) ∨
    a.alloc layout = a.fallbackAlloc (backing layout) := by
  cases h : listIndex layout with
  | none =>
    right
    rw [Allocator.alloc, h, backing_of_none h]
  | some i =>
    rw [Allocator.alloc, h, backing_of_some h]
    by_cases hnode : a.listHeads[i] = 0
    · right
      simp only [hnode, if_true]
    · left
      refine ⟨i, rfl, hnode, ?_⟩
      simp only [hnode, if_false]

variable {layout : Layout}

omit [Heap H] in
/-- A block that is taken off its list is held. -/
theorem Inv.alloc_pop (h : Inv Good s lists) {i : Fin 9} (hi : listIndex layout = some i)
    (hne : s.allocator.listHeads[i] ≠ 0) :
    ∃ rest, Inv Good ⟨{ s.allocator with
        listHeads := s.allocator.listHeads.set i (s.allocator.memory.word s.allocator.listHeads[i])
        memory := s.allocator.memory.storeWord s.allocator.listHeads[i] 0 },
      (s.allocator.listHeads[i], layout) :: s.live⟩ (setList lists i rest) := by
  obtain ⟨rest, hlist, hrest⟩ := (h.linked i).exists_cons hne
  have hfree : (freeBlocks lists).Perm ((s.allocator.listHeads[i], blockLayout i) ::
      freeBlocks (setList lists i rest)) := by
    have hcons := freeBlocks_cons lists i s.allocator.listHeads[i] rest
    rwa [← hlist, setList_self] at hcons
  refine ⟨rest, linked_pop h.linked hrest ?_, ?_, h.apart, h.fits, h.good, h.served⟩
  · intro c hc
    have hall := (h.handed.pairwise_iff fun hbc ↦ hbc.symm).mp h.apart
    have hpairs := (hfree.pairwise_iff fun hbc ↦ hbc.symm).mp (List.pairwise_append.mp hall).2.1
    exact ((List.pairwise_cons.mp hpairs).1 c hc).mono (node_within i _) (Span.Within.refl _)
  · refine h.handed.trans ((List.Perm.append_left _ hfree).trans List.perm_middle |>.trans ?_)
    rw [List.map_cons, List.cons_append, backed, backing_of_some hi]

/-- A block of the fallback heap is held, and a refused request changes nothing. -/
theorem Inv.alloc_fallback (hsound : Sound Good) (h : Inv Good s lists) {p : Nat}
    {a : Allocator (Recorded H)} (ha : s.allocator.fallbackAlloc (backing layout) = (p, a)) :
    Inv Good ⟨a, if p = 0 then s.live else (p, layout) :: s.live⟩ lists := by
  rw [Allocator.fallbackAlloc] at ha
  simp only [Heap.allocateFirstFit] at ha
  rcases halloc : Heap.allocateFirstFit s.allocator.fallback.heap (backing layout)
    with ⟨_ | ptr, heap⟩
  · rw [halloc] at ha
    obtain ⟨rfl, rfl⟩ := Prod.mk.inj ha
    exact ⟨h.linked, h.handed, h.apart, h.fits, hsound.alloc_none h.good halloc, h.served⟩
  · rw [halloc] at ha
    obtain ⟨rfl, rfl⟩ := Prod.mk.inj ha
    obtain ⟨hgood, hne, halign, hend, hapart⟩ := hsound.alloc_some h.good halloc
    rw [if_neg hne]
    refine ⟨h.linked, h.handed.cons _, List.Pairwise.cons hapart h.apart, ?_, hgood, ?_⟩
    · intro b hb
      rcases List.mem_cons.mp hb with rfl | hb
      · exact ⟨hne, halign, hend⟩
      · exact h.fits b hb
    · intro q j hq
      rcases List.mem_cons.mp hq with heq | hq
      · rw [heq]
        exact List.mem_cons_self
      · exact List.mem_cons_of_mem _ (h.served q j hq)

/-- Giving a block back: it lies on its list again, or the fallback heap has it. -/
theorem Inv.dealloc (hsound : Sound Good) (h : Inv Good s lists) {p : Nat}
    (hlive : (p, layout) ∈ s.live) {a : Allocator (Recorded H)}
    (ha : s.allocator.dealloc p layout = some a) :
    ∃ lists', Inv Good ⟨a, s.live.erase (p, layout)⟩ lists' := by
  have hperm : (s.live.map backed).Perm
      (backed (p, layout) :: (s.live.erase (p, layout)).map backed) :=
    (List.perm_cons_erase hlive).map backed
  have hhanded := h.handed.trans (hperm.append_right _)
  obtain ⟨hne, -, hend⟩ := h.fits _ (h.mem_handed_live hlive)
  rw [Allocator.dealloc] at ha
  cases hi : listIndex layout with
  | some i =>
    rw [hi] at ha
    by_cases hsize : 8 ≤ blockSizes[i]
    · simp only [if_pos hsize, Option.some.injEq] at ha
      subst ha
      have hbacked : backed (p, layout) = (p, blockLayout i) := by
        rw [backed, backing_of_some hi]
      refine ⟨setList lists i (p :: lists i), linked_push h.linked hne ?_ ?_, ?_, h.apart, h.fits,
        h.good, h.served⟩
      · rw [hbacked] at hend
        have hwithin := (node_within i p).2
        have hlt : p < p + 8 := Nat.lt_add_of_pos_right (by decide)
        exact Nat.lt_of_lt_of_le hlt (Nat.le_trans hwithin hend)
      · intro c hc
        have hapart := h.live_free hlive hc
        rw [hbacked] at hapart
        exact hapart.mono (node_within i p) (Span.Within.refl _)
      · have hfree := freeBlocks_cons lists i p (lists i)
        rw [setList_self] at hfree
        rw [hbacked] at hhanded
        exact hhanded.trans (List.perm_middle.symm.trans (List.Perm.append_left _ hfree.symm))
    · simp only [if_neg hsize, reduceCtorEq] at ha
  | none =>
    rw [hi] at ha
    by_cases hzero : p = 0
    · simp only [if_pos hzero, reduceCtorEq] at ha
    · simp only [if_neg hzero, Option.some.injEq] at ha
      subst ha
      have hbacked : backed (p, layout) = (p, layout) := by
        rw [backed, backing_of_none hi]
      rw [hbacked] at hhanded
      have hmem := h.mem_handed_live hlive
      rw [hbacked] at hmem
      refine ⟨lists, h.linked, ?_, h.apart.sublist List.erase_sublist, ?_,
        hsound.dealloc h.good hmem, ?_⟩
      · have herase := hhanded.erase (p, layout)
        rwa [List.cons_append, List.erase_cons_head] at herase
      · exact fun b hb ↦ h.fits b (List.mem_of_mem_erase hb)
      · intro q j hq
        have hother : (q, blockLayout j) ≠ (p, layout) := by
          intro heq
          have hclass := listIndex_blockLayout j
          rw [(Prod.mk.inj heq).2, hi] at hclass
          cases hclass
        exact (List.mem_erase_of_ne hother).mpr (h.served q j hq)

omit [Heap H] in
/-- A caller's store stays within its block. -/
theorem Inv.store (h : Inv Good s lists) {p off : Nat} {data : List UInt8}
    (hlive : (p, layout) ∈ s.live) (hin : off + data.length ≤ layout.size) :
    Inv Good { s with allocator := { s.allocator with
      memory := s.allocator.memory.store (p + off) data } } lists := by
  refine ⟨linked_store h.linked ?_, h.handed, h.apart, h.fits, h.good, h.served⟩
  intro c hc
  have hsize := (backing_fits layout).1
  have hwithin : (Span.mk (p + off) data.length).Within (span (backed (p, layout))) := by
    refine ⟨Nat.le_add_right _ _, ?_⟩
    rw [Span.stop, Span.stop, Nat.add_assoc]
    exact Nat.add_le_add_left (Nat.le_trans hin hsize) p
  exact (h.live_free hlive hc).mono hwithin (Span.Within.refl _)

/-- Every event keeps the invariant. -/
theorem Inv.step (hsound : Sound Good) {e : Event} {p : Nat} {s' : System H}
    (hstep : s.step e = some (p, s')) (h : Inv Good s lists) : ∃ lists', Inv Good s' lists' := by
  cases e with
  | alloc layout =>
    simp only [System.step] at hstep
    cases halloc : s.allocator.alloc layout with
    | mk q a =>
      rw [halloc] at hstep
      obtain ⟨rfl, rfl⟩ := Prod.mk.inj (Option.some.inj hstep)
      rcases alloc_cases s.allocator layout with ⟨i, hi, hne, hpop⟩ | hfallback
      · obtain ⟨rest, hinv⟩ := h.alloc_pop hi hne
        rw [halloc] at hpop
        obtain ⟨rfl, rfl⟩ := Prod.mk.inj hpop
        refine ⟨setList lists i rest, ?_⟩
        rw [if_neg hne]
        exact hinv
      · exact ⟨lists, h.alloc_fallback hsound (hfallback.symm.trans halloc)⟩
  | dealloc ptr layout =>
    rw [System.step] at hstep
    by_cases hlive : (ptr, layout) ∈ s.live
    · rw [if_pos hlive] at hstep
      obtain ⟨a, ha, heq⟩ := Option.map_eq_some_iff.mp hstep
      obtain ⟨rfl, rfl⟩ := Prod.mk.inj heq
      exact h.dealloc hsound hlive ha
    · rw [if_neg hlive] at hstep
      cases hstep
  | store ptr layout off data =>
    rw [System.step] at hstep
    by_cases hin : (ptr, layout) ∈ s.live ∧ off + data.length ≤ layout.size
    · rw [if_pos hin] at hstep
      obtain ⟨rfl, rfl⟩ := Prod.mk.inj (Option.some.inj hstep)
      exact ⟨lists, h.store hin.1 hin.2⟩
    · rw [if_neg hin] at hstep
      cases hstep

/-- A block that is held can be given back. -/
theorem Inv.dealloc_isSome (h : Inv Good s lists) {p : Nat} (hlive : (p, layout) ∈ s.live) :
    (s.allocator.dealloc p layout).isSome := by
  have hmin : ∀ i : Fin 9, 8 ≤ blockSizes[i] := by decide
  have hne := (h.fits _ (h.mem_handed_live hlive)).1
  rw [Allocator.dealloc]
  cases listIndex layout with
  | some i =>
    simp only [if_pos (hmin i)]
    rfl
  | none =>
    simp only [if_neg (show ¬p = 0 from hne)]
    rfl

end Calls

/-! ### Safety -/

/-- What holds of the blocks, with the lists as they are linked in memory. -/
structure SafeWith [Heap H] (s : System H) (lists : Fin 9 → List Nat) : Prop where
  linked : ∀ i : Fin 9, s.allocator.memory.Linked s.allocator.listHeads[i] (lists i)
  live_aligned : ∀ b ∈ s.live, b.1 ≠ 0 ∧ b.2.align ∣ b.1
  live_sized : ∀ b ∈ s.live, b.2.size ≤ (backing b.2).size ∧
    (b.1, backing b.2) ∈ s.allocator.fallback.handed
  live_apart : s.live.Pairwise fun b c ↦ (span (backed b)).Apart (span (backed c))
  live_free : ∀ b ∈ s.live, ∀ i, ∀ p ∈ lists i, (span (backed b)).Apart ⟨p, blockSizes[i]⟩
  free_fits : ∀ i, ∀ p ∈ lists i, blockSizes[i] ∣ p ∧
    (p, blockLayout i) ∈ s.allocator.fallback.handed
  free_apart : (freeBlocks lists).Pairwise fun b c ↦ (span b).Apart (span c)
  nodup : ((List.finRange 9).flatMap lists).Nodup
  served : ∀ p i, (p, blockLayout i) ∈ s.allocator.fallback.served →
    p ∈ lists i ∨ ∃ layout, (p, layout) ∈ s.live ∧ listIndex layout = some i
  returns : ∀ b ∈ s.live, (s.allocator.dealloc b.1 b.2).isSome

/-- The blocks that callers hold and the free ones are as they should be. -/
def Safe [Heap H] (s : System H) : Prop := ∃ lists, SafeWith s lists

theorem blockLayout_inj {i j : Fin 9} (h : blockLayout i = blockLayout j) : i = j := by
  have hi := listIndex_blockLayout i
  rw [h, listIndex_blockLayout j] at hi
  exact (Option.some.inj hi).symm

theorem listIndex_of_backing {layout : Layout} {i : Fin 9} (h : backing layout = blockLayout i) :
    listIndex layout = some i := by
  cases hl : listIndex layout with
  | none =>
    rw [backing_of_none hl] at h
    rw [h, listIndex_blockLayout] at hl
    cases hl
  | some j =>
    rw [backing_of_some hl] at h
    rw [blockLayout_inj h]

/-- Blocks that are apart start at different addresses. -/
theorem nodup_of_apart (h : (freeBlocks lists).Pairwise fun b c ↦ (span b).Apart (span c)) :
    ((List.finRange 9).flatMap lists).Nodup := by
  have hmap : (List.finRange 9).flatMap lists = (freeBlocks lists).map Prod.fst := by
    rw [freeBlocks, List.map_flatMap]
    apply flatMap_congr_mem
    intro i _
    rw [List.map_map]
    exact (List.map_id _).symm
  rw [hmap]
  apply List.pairwise_map.mpr
  apply List.Pairwise.imp_of_mem ?_ h
  intro b c hb hc hapart heq
  obtain ⟨i, p, -, rfl⟩ := mem_freeBlocks.mp hb
  obtain ⟨j, q, -, rfl⟩ := mem_freeBlocks.mp hc
  have hnodes := hapart.mono (Inv.node_within i p) (Inv.node_within j q)
  rw [show q = p from heq.symm] at hnodes
  rcases hnodes with hle | hle
  · exact Nat.not_succ_le_self p (Nat.le_trans (Nat.add_le_add_left (show 1 ≤ 8 by decide) p) hle)
  · exact Nat.not_succ_le_self p (Nat.le_trans (Nat.add_le_add_left (show 1 ≤ 8 by decide) p) hle)

theorem Inv.safe [Heap H] (h : Inv Good s lists) : Safe s := by
  have hall := (h.handed.pairwise_iff fun hbc ↦ hbc.symm).mp h.apart
  obtain ⟨hlive, hfree, hboth⟩ := List.pairwise_append.mp hall
  have hheld : s.live.Pairwise fun b c ↦ (span (backed b)).Apart (span (backed c)) :=
    (List.pairwise_map (f := backed)).mp hlive
  refine ⟨lists, h.linked, ?_, ?_, hheld, ?_, ?_, hfree, nodup_of_apart hfree, ?_,
    fun b hb ↦ h.dealloc_isSome hb⟩
  · intro b hb
    obtain ⟨hne, hdvd, -⟩ := h.fits _ (h.mem_handed_live hb)
    exact ⟨hne, Nat.dvd_trans (backing_fits b.2).2 hdvd⟩
  · exact fun b hb ↦ ⟨(backing_fits b.2).1, h.mem_handed_live hb⟩
  · exact fun b hb i p hp ↦ h.live_free hb (mem_freeBlocks.mpr ⟨i, p, hp, rfl⟩)
  · intro i p hp
    have hmem := h.mem_handed_free (mem_freeBlocks.mpr ⟨i, p, hp, rfl⟩)
    exact ⟨(h.fits _ hmem).2.1, hmem⟩
  · intro p i hp
    rcases List.mem_append.mp (h.handed.mem_iff.mp (h.served p i hp)) with hmem | hmem
    · obtain ⟨⟨q, layout⟩, hq, heq⟩ := List.mem_map.mp hmem
      obtain ⟨rfl, hback⟩ := Prod.mk.inj heq
      exact Or.inr ⟨layout, hq, listIndex_of_backing hback⟩
    · obtain ⟨j, q, hq, heq⟩ := mem_freeBlocks.mp hmem
      obtain ⟨rfl, hlayout⟩ := Prod.mk.inj heq
      exact Or.inl (blockLayout_inj hlayout ▸ hq)

/-- In every run of calls within the contract every state is safe, and every pointer that is
returned is held with its layout. -/
theorem run_safe [Heap H] (hsound : Sound Good) {heap : H} (hg : Good heap []) {memory : Memory}
    {t : List (Call (System H) Event Nat)} {s : System H}
    (h : Run (fun x ↦ x.before.step x.input = some (x.output, x.after))
      (System.init heap memory) t s) :
    Safe s ∧ ∀ x ∈ t, Safe x.before ∧ Safe x.after ∧
      ∀ layout, x.input = .alloc layout → x.output ≠ 0 → (x.output, layout) ∈ x.after.live := by
  have hinit : ∃ lists, Inv Good (System.init heap memory) lists := ⟨_, inv_init memory hg⟩
  have hall := h.invariant (I := fun s ↦ ∃ lists, Inv Good s lists)
    (fun x hx ⟨_, hinv⟩ ↦ hinv.step hsound hx) hinit
  refine ⟨hall.1.choose_spec.safe, ?_⟩
  intro x hx
  obtain ⟨hbefore, hafter⟩ := hall.2 x hx
  refine ⟨hbefore.choose_spec.safe, hafter.choose_spec.safe, ?_⟩
  intro layout hlayout hne
  have hstep := h.mem hx
  rw [hlayout, System.step] at hstep
  obtain ⟨hptr, hstate⟩ := Prod.mk.inj (Option.some.inj hstep)
  rw [← hstate, hptr, if_neg hne]
  exact List.mem_cons_self

/-- A heap that only moves forward, up to 4 GiB. -/
structure Bump where
  next : Nat

instance : Heap Bump where
  allocateFirstFit h layout :=
    let start := (h.next + layout.align - 1) / layout.align * layout.align
    if start + layout.size ≤ 2 ^ 32 then (some start, ⟨start + layout.size⟩) else (none, h)
  deallocate h _ _ := h

/-- All blocks lie below the place of the next one. -/
def Bump.Below (h : Bump) (bs : List (Nat × Layout)) : Prop :=
  0 < h.next ∧ ∀ b ∈ bs, b.1 + b.2.size ≤ h.next

theorem sound_bump : Sound Bump.Below := by
  refine ⟨?_, ?_, ?_⟩
  · intro h h' bs layout ptr hgood halloc
    have hup : h.next ≤ (h.next + layout.align - 1) / layout.align * layout.align := by
      have hpos := layout.align_pos
      have hdiv := Nat.div_add_mod (h.next + layout.align - 1) layout.align
      have hmod := Nat.mod_lt (h.next + layout.align - 1) hpos
      rw [Nat.mul_comm] at hdiv
      omega
    simp only [Heap.allocateFirstFit] at halloc
    split at halloc
    · next hend =>
      obtain ⟨hptr, rfl⟩ := Prod.mk.inj halloc
      obtain rfl := Option.some.inj hptr
      have hpos := hgood.1
      refine ⟨⟨Nat.lt_of_lt_of_le hpos (Nat.le_trans hup (Nat.le_add_right _ _)), ?_⟩,
        Nat.ne_of_gt (Nat.lt_of_lt_of_le hpos hup), Nat.dvd_mul_left _ _,
        Nat.le_trans hend (by decide), ?_⟩
      · intro b hb
        rcases List.mem_cons.mp hb with rfl | hb
        · exact Nat.le_refl _
        · exact Nat.le_trans (hgood.2 b hb) (Nat.le_trans hup (Nat.le_add_right _ _))
      · exact fun b hb ↦ Or.inr (Nat.le_trans (hgood.2 b hb) hup)
    · cases halloc
  · intro h h' bs layout hgood halloc
    simp only [Heap.allocateFirstFit] at halloc
    split at halloc
    · cases halloc
    · obtain ⟨-, rfl⟩ := Prod.mk.inj halloc
      exact hgood
  · exact fun hgood _ ↦ ⟨hgood.1, fun b hb ↦ hgood.2 b (List.mem_of_mem_erase hb)⟩

/-- A block of 24 bytes is asked for, given back and handed out again. -/
def sampleEvents : List Event :=
  [.alloc ⟨24, 8, 3, rfl⟩, .store 4096 ⟨24, 8, 3, rfl⟩ 8 [1, 2, 3], .alloc ⟨4000, 4, 2, rfl⟩,
    .dealloc 4096 ⟨24, 8, 3, rfl⟩, .alloc ⟨30, 1, 0, rfl⟩]

theorem run_safe_sample :
    ∃ t s, trace System.step (System.init (Bump.mk 4090) fun _ ↦ 0) sampleEvents = some (t, s) ∧
      t.map Call.output = [4096, 0, 4128, 0, 4096] ∧ Safe s := by
  have hinit : Bump.Below ⟨4090⟩ [] := ⟨by decide, nofun⟩
  have hsome : (trace System.step (System.init (Bump.mk 4090) fun _ ↦ 0) sampleEvents).isSome := by
    decide
  obtain ⟨⟨t, s⟩, ht⟩ := Option.isSome_iff_exists.mp hsome
  have houtputs : (trace System.step (System.init (Bump.mk 4090) fun _ ↦ 0) sampleEvents).map
      (fun r ↦ r.1.map Call.output) = some [4096, 0, 4128, 0, 4096] := by
    decide
  rw [ht] at houtputs
  exact ⟨t, s, ht, Option.some.inj houtputs,
    (run_safe sound_bump hinit (run_trace ht)).1⟩

end Safety

end FixedSizeBlock
end SmallOs.Kernel
