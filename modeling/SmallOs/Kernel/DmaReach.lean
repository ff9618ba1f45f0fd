import SmallOs.Kernel.Heap

/-!
# Buffers behind the heap window

The kernel takes physical addresses for virtual ones. That holds below 4 GiB outside of the heap
window, whose pages map to whatever frames came first.
-/

namespace SmallOs.Kernel

open SmallOs.Base SmallOs.Boot BootInfoFrameAllocator KernelDmaAllocator

/-- Each virtual address of the buffer maps to its physical one. -/
def Reaches (m : Memory) (x : DmaCall) : Prop :=
  ∀ b, x.output = some b → ∀ i < b.size, m.walk pagingRoot (b.virt + i) = some (b.phys + i)

/-- The frame that is next in line begins a block behind the heap window and below 4 GiB. -/
def BehindWindow (g : Option BootInfoFrameAllocator) (req : DmaRequest) : Prop :=
  ∀ a, g = some a → pages req.size ≤ (line a).length → ∀ f, (line a).head? = some f →
    0x3000000 ≤ f ∧ f + pages req.size * 4096 ≤ 2 ^ 32

section Reach

variable [PhysFrame] [Mapper]

/-- After `init_heap` every buffer reaches its frames exactly when it lies behind the window. -/
theorem reaches_iff (hl : PhysFrame.Lawful) (hm : Mapper.Lawful) {m : Memory}
    {a : BootInfoFrameAllocator} (hmap : PageMap a) {s : Machine}
    (hheap : initHeap ⟨pagingRoot, 0⟩ ⟨setupPaging m, a⟩ = (.ok (), s)) {t : List DmaCall}
    {g : Option BootInfoFrameAllocator} (h : Run (Serves ⟨0⟩) (some s.frames) t g) :
    (∀ x ∈ t, Reaches s.memory x) ↔ ∀ x ∈ t, BehindWindow x.before x.input := by
  have htables := tables_setupPaging m
  have hempty := word_windowEntry m
  generalize setupPaging m = mem at hheap htables hempty
  obtain ⟨hframes, ht, hwindow⟩ :=
    initHeap_window (s := ⟨mem, a⟩) hl hm htables hempty hmap hheap
  have hstart : ∀ b, some s.frames = some b → PageMap b := by
    intro b hb
    rw [← Option.some.inj hb, hframes]
    exact hmap.advance 4096
  have hkept := run_pageMap hl hstart h
  have hforward := (run_forward hl hstart h).1
  constructor
  · intro hreach x hx b hb hle f hf
    obtain ⟨hserves, hpm⟩ := hkept.mem hx
    rcases serves_pageMap hl hserves hpm with ⟨hnone, -⟩ | ⟨b', k, hbefore, -, -, hcases⟩
    · rw [hnone] at hb
      cases hb
    rw [hbefore] at hb
    obtain rfl := Option.some.inj hb
    rcases hcases with ⟨-, buf, rest, hout, hline, -, hsize, hvirt⟩ | ⟨hlt, -⟩
    · rw [hline] at hf
      obtain rfl := Option.some.inj hf
      have hwalk := hreach x hx buf hout
      rw [hvirt] at hwalk
      have hpos : 0 < buf.size := by
        rw [hsize]
        exact Nat.mul_pos (pages_pos x.input.pos) (by decide)
      have hmem : buf.phys ∈ line b' := hline ▸ List.mem_cons_self
      have hstartAddr : 0x2000000 ≤ buf.phys := by
        obtain ⟨r, -, hr⟩ := List.mem_flatMap.mp (List.mem_of_mem_drop hmem)
        exact allocStart_le_of_mem_addrs hr
      obtain ⟨j, hj⟩ := hforward x hx s.frames rfl
      rw [hbefore, hframes] at hj
      rw [Option.some.inj hj] at hmem
      have hnew := hmap.not_mem_take hmem
      have hdvd : 4096 ∣ buf.phys := (hpm _ hbefore).dvd (hline ▸ List.mem_cons_self)
      have hlow : 0x3000000 ≤ buf.phys := by
        apply Nat.le_of_not_lt
        intro hlt
        obtain ⟨c, hc, hpage⟩ := hwindow buf.phys hstartAddr hlt
        have hsame := hwalk 0 hpos
        rw [Nat.add_zero, Nat.add_zero, hpage, Nat.mod_eq_zero_of_dvd hdvd, Nat.add_zero] at hsame
        rw [Option.some.inj hsame] at hc
        exact hnew hc
      refine ⟨hlow, ?_⟩
      apply Nat.le_of_not_lt
      intro hlt
      have hbeyond := hwalk (max buf.phys (2 ^ 32) - buf.phys) (by omega)
      rw [Nat.add_zero, ht.walk_unmapped (by omega)] at hbeyond
      cases hbeyond
    · exact absurd hle (Nat.not_le.mpr hlt)
  · intro hbehind x hx buf hout i hi
    obtain ⟨hserves, hpm⟩ := hkept.mem hx
    rcases serves_pageMap hl hserves hpm with ⟨-, -, hnone⟩ | ⟨b, k, hbefore, -, -, hcases⟩
    · rw [hnone] at hout
      cases hout
    rcases hcases with ⟨-, buf', rest, hout', hline, hle, hsize, hvirt⟩ | ⟨-, -, hnone⟩
    · rw [hout'] at hout
      obtain rfl := Option.some.inj hout
      obtain ⟨hlow, hhigh⟩ := hbehind x hx b hbefore hle buf'.phys (by rw [hline]; rfl)
      rw [hvirt, Nat.add_zero]
      apply ht.walk_identity
      · omega
      · exact Or.inr (Nat.le_trans hlow (Nat.le_add_right _ _))
    · rw [hnone] at hout
      cases hout

end Reach

/-- A mapper that never draws frames for tables. -/
@[reducible] def tableMapper : Mapper where
  mapTo table page frame flags s :=
    if Large (s.memory.entry3 table.level4 page) ∨ Large (s.memory.entry2 table.level4 page) then
      (.err .parentEntryHugePage, s)
    else if Opens (s.memory.entry4 table.level4 page) ∧ Opens (s.memory.entry3 table.level4 page) ∧
        Opens (s.memory.entry2 table.level4 page) then
      let addr := s.memory.entryAddr1 table.level4 page
      if s.memory.word addr = 0 then
        (.ok (), { s with memory := s.memory.storeWord addr (frame + flags) })
      else (.err (.pageAlreadyMapped (addrBits 12 (s.memory.word addr))), s)
    else (.err .frameAllocationFailed, s)

theorem tableMapper_lawful : @Mapper.Lawful tableMapper := by
  refine @Mapper.Lawful.mk tableMapper ?_
  intro root page frame flags s _ _ _ _ h4 h3 h2 hunused
  have hsmall : ¬(Large (s.memory.entry3 root page) ∨ Large (s.memory.entry2 root page)) :=
    not_or.mpr ⟨h3.2, h2.2⟩
  simp only [Mapper.mapTo, if_neg hsmall, if_pos (And.intro h4 (And.intro h3 h2)), if_pos hunused]

/-- Addresses of low regions are physical ones. -/
theorem lt_of_low {a : BootInfoFrameAllocator} (h : ∀ r ∈ a.usableRegions, r.end_ ≤ 2 ^ 52)
    (k : Nat) :
    ∀ addr ∈ a.usableAddrs.take k, addr < 2 ^ 52 := by
  intro addr haddr
  obtain ⟨r, hr, hmem⟩ := List.mem_flatMap.mp (List.mem_of_mem_take haddr)
  exact Nat.lt_of_lt_of_le (belongs_of_mem_addrs hmem).2 (h r hr)

/-- The window and two pages behind it. -/
def windowMap : BootInfoFrameAllocator := ⟨[⟨0x2000000, 0x3002000, .usable⟩], 0⟩

/-- As many pages as the window has, but elsewhere, and then its first page. -/
def swappedMap : BootInfoFrameAllocator :=
  ⟨[⟨0x4000000, 0x5000000, .usable⟩, ⟨0x2000000, 0x2001000, .usable⟩], 0⟩

theorem pageMap_windowMap : PageMap windowMap := ⟨by decide, List.pairwise_singleton _ _⟩

theorem pageMap_swappedMap : PageMap swappedMap := by
  refine ⟨by decide, List.Pairwise.cons ?_ (List.pairwise_singleton _ _)⟩
  intro r hr
  rw [List.mem_singleton.mp hr]
  exact fun x ⟨hlow, _, _, hhigh⟩ ↦ Nat.not_lt.mpr hlow (Nat.lt_trans hhigh (by decide))

theorem line_windowMap : line windowMap = addrs ⟨0x2000000, 0x3002000, .usable⟩ := by
  have hregions : windowMap.usableRegions = [⟨0x2000000, 0x3002000, .usable⟩] := rfl
  rw [line, usableAddrs_eq, hregions, List.flatMap_singleton]
  rfl

theorem line_swappedMap : line swappedMap =
    addrs ⟨0x4000000, 0x5000000, .usable⟩ ++ addrs ⟨0x2000000, 0x2001000, .usable⟩ := by
  have hregions : swappedMap.usableRegions =
      [⟨0x4000000, 0x5000000, .usable⟩, ⟨0x2000000, 0x2001000, .usable⟩] := rfl
  rw [line, usableAddrs_eq, hregions, List.flatMap_cons, List.flatMap_singleton]
  rfl

/-- The heap leaves the two pages behind the window. -/
theorem line_advance_windowMap : line (windowMap.advance 4096) = [0x3000000, 0x3001000] := by
  rw [line_advance, line_windowMap, drop_addrs (by decide)]
  decide

/-- The heap leaves the first page of the window. -/
theorem line_advance_swappedMap : line (swappedMap.advance 4096) = [0x2000000] := by
  have hlen : (addrs ⟨0x4000000, 0x5000000, .usable⟩).length = 4096 := length_addrs _
  rw [line_advance, line_swappedMap, List.drop_left' hlen]
  decide

theorem enough_windowMap : 4096 ≤ (line windowMap).length := by
  rw [line_windowMap, length_addrs]
  decide

theorem enough_swappedMap : 4096 ≤ (line swappedMap).length := by
  rw [line_swappedMap, List.length_append, length_addrs, length_addrs]
  decide

/-- The heap of a low map with enough frames. -/
theorem exists_booted {a : BootInfoFrameAllocator} (hmap : PageMap a)
    (hlow : ∀ r ∈ a.usableRegions, r.end_ ≤ 2 ^ 52) (hlen : 4096 ≤ (line a).length) :
    ∃ s, @initHeap frames4K tableMapper ⟨pagingRoot, 0⟩ ⟨setupPaging fun _ ↦ 0, a⟩ = (.ok (), s) ∧
      s.frames = a.advance 4096 ∧ ∀ v, 0x2000000 ≤ v → v < 0x3000000 →
        ∃ f ∈ (line a).take 4096, s.memory.walk pagingRoot v = some (f + v % 4096) := by
  have htables := tables_setupPaging fun _ ↦ 0
  have hempty := word_windowEntry fun _ ↦ 0
  generalize setupPaging (fun _ ↦ 0) = mem at htables hempty ⊢
  obtain ⟨s, hs⟩ := @exists_initHeap frames4K tableMapper frames4K_lawful tableMapper_lawful
    ⟨mem, a⟩
    htables hempty hmap (lt_of_low hlow _) hlen
  obtain ⟨hframes, -, hwindow⟩ := @initHeap_window frames4K tableMapper frames4K_lawful
    tableMapper_lawful ⟨mem, a⟩ s htables hempty hmap hs
  exact ⟨s, hs, hframes, hwindow⟩

theorem reaches_iff_window :
    ∃ s t g, @initHeap frames4K tableMapper ⟨pagingRoot, 0⟩ ⟨setupPaging fun _ ↦ 0, windowMap⟩ =
        (.ok (), s) ∧
      @Run _ _ _ (@Serves frames4K ⟨0⟩) (some s.frames) t g ∧
      t.map Call.output = [some ⟨0x3000000, 0x3000000, 8192⟩] ∧ ∀ x ∈ t, Reaches s.memory x := by
  have hlow : ∀ r ∈ windowMap.usableRegions, r.end_ ≤ 2 ^ 52 := by decide
  obtain ⟨s, hheap, hframes, -⟩ := exists_booted pageMap_windowMap hlow enough_windowMap
  have hcall : @Serves frames4K ⟨0⟩ ⟨some s.frames, pagesRequest 2 (by decide),
      some ⟨0x3000000, 0x3000000, 8192⟩, some (s.frames.advance 2)⟩ := by
    rw [hframes]
    exact @alloc_of_line frames4K frames4K_lawful _ 8192 4096 _ _ _ line_advance_windowMap
      (by decide) (by rw [line_advance_windowMap]; decide) (lt_of_low hlow _) (by decide)
      (by decide)
  have hrun := Run.cons hcall (.nil _)
  refine ⟨s, _, _, hheap, hrun, rfl, ?_⟩
  apply (@reaches_iff frames4K tableMapper frames4K_lawful tableMapper_lawful _ _ pageMap_windowMap
    _ hheap _ _ hrun).mpr
  intro x hx a ha _ f hf
  rw [List.mem_singleton.mp hx] at ha ⊢
  have hstate : a = windowMap.advance 4096 := by
    rw [← hframes]
    exact (Option.some.inj ha).symm
  rw [hstate] at hf
  rw [line_advance_windowMap] at hf
  obtain rfl : 0x3000000 = f := Option.some.inj hf
  exact show 0x3000000 ≤ 0x3000000 ∧ 0x3000000 + pages 8192 * 4096 ≤ 2 ^ 32 by decide

/-- The window is mapped to the first region, and a buffer lies where the window is. -/
theorem not_reaches_swapped :
    PageMap swappedMap ∧ ∃ s t g,
      @initHeap frames4K tableMapper ⟨pagingRoot, 0⟩ ⟨setupPaging fun _ ↦ 0, swappedMap⟩ =
        (.ok (), s) ∧
      @Run _ _ _ (@Serves frames4K ⟨0⟩) (some s.frames) t g ∧ ¬∀ x ∈ t, Reaches s.memory x := by
  have hlow : ∀ r ∈ swappedMap.usableRegions, r.end_ ≤ 2 ^ 52 := by decide
  obtain ⟨s, hheap, hframes, hwindow⟩ := exists_booted pageMap_swappedMap hlow enough_swappedMap
  have hcall : @Serves frames4K ⟨0⟩ ⟨some s.frames, pagesRequest 1 (by decide),
      some ⟨0x2000000, 0x2000000, 4096⟩, some (s.frames.advance 1)⟩ := by
    rw [hframes]
    exact @alloc_of_line frames4K frames4K_lawful _ 4096 4096 _ _ _ line_advance_swappedMap
      (by decide) (by rw [line_advance_swappedMap]; decide) (lt_of_low hlow _) (by decide)
      (by decide)
  refine ⟨pageMap_swappedMap, s, _, _, hheap, Run.cons hcall (.nil _), ?_⟩
  intro hall
  have hwalk := hall _ List.mem_cons_self _ rfl 0 (by decide)
  obtain ⟨f, hf, hpage⟩ := hwindow 0x2000000 (Nat.le_refl _) (by decide)
  have hsame : f = 0x2000000 := Option.some.inj (hpage.symm.trans hwalk)
  have hnext : 0x2000000 ∈ line ((swappedMap.advance 4096).advance 0) := by
    rw [line_advance, line_advance_swappedMap]
    exact List.mem_cons_self
  rw [hsame] at hf
  exact pageMap_swappedMap.not_mem_take hnext hf

end SmallOs.Kernel
