import SmallOs.Boot.SetupPaging
import SmallOs.Kernel.DmaExclusive

/-!
# The heap window

`kernel/src/memory/alloc.rs:72–96`: the pages of the heap are mapped one by one to frames as the
frame allocator returns them. The mapper is that of the `x86_64` crate, which is a parameter.
-/

namespace SmallOs.Kernel

open SmallOs.Base SmallOs.Boot BootInfoFrameAllocator KernelDmaAllocator

/-- `x86_64::structures::paging::mapper::MapToError`. -/
inductive MapToError where
  | frameAllocationFailed
  | parentEntryHugePage
  | pageAlreadyMapped (frame : Nat)
  deriving DecidableEq, Repr

/-- Memory, and the frame allocator that a mapper may draw from. -/
structure Machine where
  memory : Memory
  frames : BootInfoFrameAllocator

/-- `x86_64::structures::paging::OffsetPageTable`. -/
structure OffsetPageTable where
  level4 : Nat
  physOffset : Nat

/-- `x86_64::structures::paging::Mapper` over 4 KiB: the page, the frame and the flags of
`map_to`. -/
class Mapper where
  mapTo : OffsetPageTable → Nat → Nat → Nat → Prog Machine MapToError Unit

/-- An entry for a table that pages are mapped in: present, writable and no large page. -/
def Opens (e : Nat) : Prop := e % 4 = 3 ∧ ¬Large e

instance (e : Nat) : Decidable (Opens e) := inferInstanceAs (Decidable (_ ∧ _))

/-- Where all tables of a page are there and its entry is unused, `map_to` lays the entry. -/
structure Mapper.Lawful [Mapper] : Prop where
  mapTo_eq : ∀ {root page frame flags : Nat} {s : Machine}, Canonical page → 4096 ∣ page →
    4096 ∣ frame → flags < 4 → Opens (s.memory.entry4 root page) →
    Opens (s.memory.entry3 root page) → Opens (s.memory.entry2 root page) →
    s.memory.word (s.memory.entryAddr1 root page) = 0 →
    Mapper.mapTo ⟨root, 0⟩ page frame flags s = (.ok (),
      { s with memory := s.memory.storeWord (s.memory.entryAddr1 root page) (frame + flags) })

/-- `kernel/src/memory/alloc.rs:21–22`. -/
def heapStart : Nat := 0x2000000

def heapSize : Nat := 16 * 1024 * 1024

/-- `kernel/src/memory/alloc.rs:76–82`. -/
def heapPages : List Nat :=
  let first := heapStart / 4096
  let last := (heapStart + heapSize - 1) / 4096
  (List.range' first (last + 1 - first)).map fun k ↦ 4096 * k

section Model

variable [PhysFrame] [Mapper]

/-- A call of `allocate_frame` on the machine. -/
def Machine.allocateFrame : Prog Machine MapToError (Option Nat) := fun s ↦
  let (frame, frames) := (BootInfoFrameAllocator.allocateFrame : Prog _ MapToError _) s.frames
  (frame, { s with frames })

/-- `kernel/src/memory/alloc.rs:84–89`; the flags are `PRESENT` and `WRITABLE`. -/
def mapPages (table : OffsetPageTable) : List Nat → Prog Machine MapToError Unit
  | [] => pure ()
  | page :: rest => do
    let frame ← Machine.allocateFrame
    let frame ← Prog.lift (Outcome.ofOption .frameAllocationFailed frame)
    Mapper.mapTo table page frame 3
    mapPages table rest

/-- `kernel/src/memory/alloc.rs:72–96`. -/
def initHeap (table : OffsetPageTable) : Prog Machine MapToError Unit := mapPages table heapPages

end Model

/-! ### What the window maps to -/

/-- A page of the window. -/
def windowPage (k : Nat) : Nat := 0x2000000 + 4096 * k

theorem heapPages_eq : heapPages = (List.range' 0 4096).map windowPage := by
  have hshift : List.range' (heapStart / 4096) ((heapStart + heapSize - 1) / 4096 + 1 -
      heapStart / 4096) = (List.range' 0 4096).map (heapStart / 4096 + ·) := by
    rw [List.map_add_range', Nat.add_zero]
    rfl
  rw [heapPages, hshift, List.map_map]
  apply List.map_congr_left
  intro k _
  rw [Function.comp_apply, windowPage, Nat.mul_add]
  rfl

/-- The entry of a window page. -/
def windowEntry (k : Nat) : Nat := 0x76000 + 8 * k

theorem entryAddr1_windowPage {m : Memory} (h : Tables m) {k : Nat} (hk : k < 4096) :
    m.entryAddr1 pagingRoot (windowPage k) = windowEntry k := by
  rw [h.entryAddr1_window (by rw [windowPage]; omega) (by rw [windowPage]; omega), windowPage,
    windowEntry]
  omega

theorem opens_windowPage {m : Memory} (h : Tables m) {k : Nat} (hk : k < 4096) :
    Opens (m.entry4 pagingRoot (windowPage k)) ∧ Opens (m.entry3 pagingRoot (windowPage k)) ∧
      Opens (m.entry2 pagingRoot (windowPage k)) := by
  have hlow : 0x2000000 ≤ windowPage k := Nat.le_add_right _ _
  have hhigh : windowPage k < 0x3000000 := by
    rw [windowPage]
    omega
  refine ⟨?_, ?_, ?_⟩
  · rw [h.entry4_low (by omega)]
    decide
  · rw [h.entry3_low (by omega), h.pdpt _ (by omega), Opens, Large]
    omega
  · rw [h.entry2_window hlow hhigh, Opens, Large]
    omega

theorem windowEntry_le {i j : Nat} (h : i ≤ j) : windowEntry i ≤ windowEntry j := by
  rw [windowEntry, windowEntry]
  omega

theorem windowEntry_succ (i : Nat) : windowEntry (i + 1) = windowEntry i + 8 := by
  rw [windowEntry, windowEntry, Nat.mul_succ, Nat.add_assoc]

/-- The entry of one page is laid: the tables stay, and so do all other words. -/
theorem storeWord_windowEntry {m : Memory} (ht : Tables m) {k v : Nat} (hk : k < 4096)
    (hv : v < 2 ^ 64) :
    Tables (m.storeWord (windowEntry k) v) ∧
      (m.storeWord (windowEntry k) v).word (windowEntry k) = v ∧
      ∀ a, a + 8 ≤ windowEntry k ∨ windowEntry (k + 1) ≤ a →
        (m.storeWord (windowEntry k) v).word a = m.word a := by
  have hother : ∀ a, a + 8 ≤ windowEntry k ∨ windowEntry (k + 1) ≤ a →
      (m.storeWord (windowEntry k) v).word a = m.word a := by
    intro a ha
    apply m.word_store
    rw [length_leBytes]
    rw [windowEntry_succ] at ha
    exact ha
  refine ⟨ht.transport ?_, m.word_storeWord _ hv, hother⟩
  intro a ha
  apply hother
  rw [windowEntry, windowEntry]
  omega

/-- The frame that is first in line is taken off it by the next call. -/
theorem line_of_head {a : BootInfoFrameAllocator} {f : Nat} (h : (line a).head? = some f) :
    line a = f :: line (a.advance 1) := by
  rw [line, List.head?_drop] at h
  exact line_of_some h

theorem lt_of_head {a : BootInfoFrameAllocator} {f : Nat}
    (hvalid : ∀ addr ∈ a.usableAddrs.take (a.next + 1), addr < 2 ^ 52)
    (h : (line a).head? = some f) : f < 2 ^ 52 := by
  rw [line, List.head?_drop] at h
  apply hvalid f
  apply List.mem_of_getElem? (i := a.next)
  rw [List.getElem?_take, if_pos (Nat.lt_succ_self _), h]

section Map

variable [PhysFrame] [Mapper]

omit [Mapper] in
/-- A frame that the machine takes is the first in line. -/
theorem machine_allocateFrame (hl : PhysFrame.Lawful) {s s' : Machine} {f : Nat}
    (hmap : PageMap s.frames) :
    Machine.allocateFrame s = (.ok (some f), s') ↔
      (∀ addr ∈ s.frames.usableAddrs.take (s.frames.next + 1), addr < 2 ^ 52) ∧
        (line s.frames).head? = some f ∧ s' = { s with frames := s.frames.advance 1 } := by
  have hcall : Machine.allocateFrame s = (.ok (some f), s') ↔
      (BootInfoFrameAllocator.allocateFrame : Prog _ MapToError _) s.frames =
        (.ok (some f), s'.frames) ∧ s' = { s with frames := s'.frames } := by
    cases hx : (BootInfoFrameAllocator.allocateFrame : Prog _ MapToError _) s.frames with
    | mk frame frames =>
      simp only [Machine.allocateFrame, hx, Prod.mk.injEq]
      constructor
      · rintro ⟨rfl, rfl⟩
        exact ⟨⟨rfl, rfl⟩, rfl⟩
      · rintro ⟨⟨rfl, rfl⟩, hs⟩
        exact ⟨rfl, hs.symm⟩
  have hhead : some f = s.frames.usableAddrs[s.frames.next]?.map frameOf ↔
      (line s.frames).head? = some f := by
    rw [line, List.head?_drop]
    cases hnext : s.frames.usableAddrs[s.frames.next]? with
    | none => simp only [Option.map_none, reduceCtorEq]
    | some addr =>
      have hdvd : 4096 ∣ addr := hmap.dvd (line_of_some hnext ▸ List.mem_cons_self)
      rw [Option.map_some, frameOf_of_dvd hdvd]
      exact eq_comm
  rw [hcall, allocateFrame_eq_ok hl, hhead]
  constructor
  · rintro ⟨⟨hvalid, hf, hframes⟩, hs⟩
    exact ⟨hvalid, hf, by rw [hs, hframes]; rfl⟩
  · rintro ⟨hvalid, hf, rfl⟩
    exact ⟨⟨hvalid, hf, rfl⟩, rfl⟩

/-- A page of the window is mapped to the first frame in line. -/
theorem mapPages_cons (hl : PhysFrame.Lawful) (hm : Mapper.Lawful) {s : Machine} {k f : Nat}
    {rest : List Nat} (hk : k < 4096) (ht : Tables s.memory)
    (hunused : s.memory.word (windowEntry k) = 0) (hmap : PageMap s.frames)
    (hvalid : ∀ addr ∈ s.frames.usableAddrs.take (s.frames.next + 1), addr < 2 ^ 52)
    (hf : (line s.frames).head? = some f) :
    mapPages ⟨pagingRoot, 0⟩ (windowPage k :: rest) s = mapPages ⟨pagingRoot, 0⟩ rest
      ⟨s.memory.storeWord (windowEntry k) (f + 3), s.frames.advance 1⟩ := by
  have hcall := (machine_allocateFrame (f := f) hl hmap).mpr ⟨hvalid, hf, rfl⟩
  have hdvd : 4096 ∣ f := hmap.dvd (List.mem_of_head? hf)
  obtain ⟨h4, h3, h2⟩ := opens_windowPage ht hk
  have hentry := entryAddr1_windowPage ht hk
  have hcanon : Canonical (windowPage k) := by
    left
    rw [windowPage]
    omega
  have hpage : 4096 ∣ windowPage k := by
    rw [windowPage]
    omega
  have hmapTo := hm.mapTo_eq (s := ⟨s.memory, s.frames.advance 1⟩) hcanon hpage hdvd
    (show 3 < 4 by decide) h4 h3 h2 (hentry ▸ hunused)
  rw [hentry] at hmapTo
  rw [mapPages, Prog.bind_of_ok hcall]
  refine (Prog.bind_of_ok (Prog.lift_apply _ _)).trans ?_
  exact Prog.bind_of_ok hmapTo

/-- Pages of the window are mapped to the frames that are next in line, and nothing else
changes. -/
theorem mapPages_window (hl : PhysFrame.Lawful) (hm : Mapper.Lawful) {k n : Nat}
    (hk : k + n ≤ 4096) {s s' : Machine} (ht : Tables s.memory)
    (hempty : ∀ i, k ≤ i → i < 4096 → s.memory.word (windowEntry i) = 0) (hmap : PageMap s.frames)
    (h : mapPages ⟨pagingRoot, 0⟩ ((List.range' k n).map windowPage) s = (.ok (), s')) :
    s'.frames = s.frames.advance n ∧ Tables s'.memory ∧
      (∀ i < n, ∃ f, (line s.frames)[i]? = some f ∧ f < 2 ^ 52 ∧
        s'.memory.word (windowEntry (k + i)) = f + 3) ∧
      ∀ a, a + 8 ≤ windowEntry k ∨ windowEntry (k + n) ≤ a →
        s'.memory.word a = s.memory.word a := by
  induction n generalizing k s with
  | zero =>
    obtain ⟨-, rfl⟩ := Prod.mk.inj h
    exact ⟨rfl, ht, nofun, fun _ _ ↦ rfl⟩
  | succ n ih =>
    rw [List.range'_succ, List.map_cons] at h
    obtain ⟨f, hvalid, hf⟩ : ∃ f, (∀ addr ∈ s.frames.usableAddrs.take (s.frames.next + 1),
        addr < 2 ^ 52) ∧ (line s.frames).head? = some f := by
      rw [mapPages] at h
      obtain ⟨frame, s₁, hcall, h⟩ := Prog.bind_eq_ok.mp h
      obtain ⟨f, s₂, hframe, -⟩ := Prog.bind_eq_ok.mp h
      obtain rfl := Outcome.ofOption_eq_ok.mp (Prog.lift_eq_ok.mp hframe).1
      obtain ⟨hvalid, hf, -⟩ := (machine_allocateFrame hl hmap).mp hcall
      exact ⟨f, hvalid, hf⟩
    have hk' : k < 4096 := by omega
    rw [mapPages_cons hl hm hk' ht (hempty k (Nat.le_refl k) hk') hmap hvalid hf] at h
    have hline := line_of_head hf
    have hlt := lt_of_head hvalid hf
    obtain ⟨ht', hsame, hother⟩ := storeWord_windowEntry ht (v := f + 3) hk' (by omega)
    have hempty' : ∀ i, k + 1 ≤ i → i < 4096 →
        (s.memory.storeWord (windowEntry k) (f + 3)).word (windowEntry i) = 0 := by
      intro i hi hlt
      rw [hother _ (Or.inr (windowEntry_le hi))]
      exact hempty i (Nat.le_of_succ_le hi) hlt
    have hk'' : k + 1 + n ≤ 4096 := by omega
    obtain ⟨hframes, htables, hentries, hrest⟩ := ih hk''
      (s := ⟨s.memory.storeWord (windowEntry k) (f + 3), s.frames.advance 1⟩) ht' hempty'
      (hmap.advance 1) h
    refine ⟨?_, htables, ?_, ?_⟩
    · rw [hframes, advance_advance, Nat.add_comm]
    · intro i hi
      cases i with
      | zero =>
        refine ⟨f, by rw [hline]; rfl, hlt, ?_⟩
        have hbelow : windowEntry k + 8 ≤ windowEntry (k + 1) :=
          Nat.le_of_eq (windowEntry_succ k).symm
        rw [Nat.add_zero, hrest _ (Or.inl hbelow)]
        exact hsame
      | succ i =>
        obtain ⟨g, hg, hlt, hword⟩ := hentries i (Nat.lt_of_succ_lt_succ hi)
        refine ⟨g, ?_, hlt, ?_⟩
        · rw [hline, List.getElem?_cons_succ]
          exact hg
        · rw [← hword, Nat.add_right_comm, Nat.add_assoc]
    · intro a ha
      rw [hrest a, hother a]
      · exact ha.imp_right fun h ↦ Nat.le_trans (windowEntry_le (by omega)) h
      · rw [windowEntry_succ]
        rw [show k + 1 + n = k + (n + 1) by omega]
        exact ha.imp_left fun h ↦ Nat.le_trans h (Nat.le_add_right _ _)

/-- With enough frames in line, all pages are mapped. -/
theorem exists_mapPages (hl : PhysFrame.Lawful) (hm : Mapper.Lawful) {k n : Nat}
    (hk : k + n ≤ 4096) {s : Machine} (ht : Tables s.memory)
    (hempty : ∀ i, k ≤ i → i < 4096 → s.memory.word (windowEntry i) = 0) (hmap : PageMap s.frames)
    (hvalid : ∀ addr ∈ s.frames.usableAddrs.take (s.frames.next + n), addr < 2 ^ 52)
    (hlen : n ≤ (line s.frames).length) :
    ∃ s', mapPages ⟨pagingRoot, 0⟩ ((List.range' k n).map windowPage) s = (.ok (), s') := by
  induction n generalizing k s with
  | zero => exact ⟨s, rfl⟩
  | succ n ih =>
    rw [List.range'_succ, List.map_cons]
    cases hline : line s.frames with
    | nil =>
      rw [hline] at hlen
      exact absurd hlen (Nat.not_succ_le_zero n)
    | cons f rest =>
      have hf : (line s.frames).head? = some f := by
        rw [hline]
        rfl
      have hk' : k < 4096 := by omega
      have hfirst : ∀ addr ∈ s.frames.usableAddrs.take (s.frames.next + 1), addr < 2 ^ 52 := by
        intro addr haddr
        exact hvalid addr (List.take_subset_take_left _ (by omega) haddr)
      have hlt := lt_of_head hfirst hf
      obtain ⟨ht', -, hother⟩ := storeWord_windowEntry ht (v := f + 3) hk' (by omega)
      rw [mapPages_cons hl hm hk' ht (hempty k (Nat.le_refl k) hk') hmap hfirst hf]
      have hk'' : k + 1 + n ≤ 4096 := by omega
      apply ih hk'' (s := ⟨s.memory.storeWord (windowEntry k) (f + 3), s.frames.advance 1⟩) ht'
      · intro i hi hlt
        rw [hother _ (Or.inr (windowEntry_le hi))]
        exact hempty i (Nat.le_of_succ_le hi) hlt
      · exact hmap.advance 1
      · intro addr haddr
        have hmem : addr ∈ s.frames.usableAddrs.take (s.frames.next + 1 + n) := haddr
        rw [Nat.add_right_comm, Nat.add_assoc] at hmem
        exact hvalid addr hmem
      · have hrest := line_of_head hf
        rw [hrest, List.length_cons] at hlen
        exact Nat.le_of_succ_le_succ hlen

/-- After `init_heap` an address of the window maps to the frame of its page. -/
theorem initHeap_window (hl : PhysFrame.Lawful) (hm : Mapper.Lawful) {s s' : Machine}
    (ht : Tables s.memory) (hempty : ∀ i < 4096, s.memory.word (windowEntry i) = 0)
    (hmap : PageMap s.frames) (h : initHeap ⟨pagingRoot, 0⟩ s = (.ok (), s')) :
    s'.frames = s.frames.advance 4096 ∧ Tables s'.memory ∧
      ∀ v, 0x2000000 ≤ v → v < 0x3000000 → ∃ f ∈ (line s.frames).take 4096,
        s'.memory.walk pagingRoot v = some (f + v % 4096) := by
  rw [initHeap, heapPages_eq] at h
  have hk : 0 + 4096 ≤ 4096 := Nat.le_of_eq (Nat.zero_add 4096)
  obtain ⟨hframes, ht, hentries, -⟩ := mapPages_window hl hm hk ht (fun i _ ↦ hempty i) hmap h
  refine ⟨hframes, ht, ?_⟩
  intro v hlow hhigh
  obtain ⟨f, hf, hlt, hword⟩ := hentries ((v - 0x2000000) / 4096) (by omega)
  have hmem : f ∈ line s.frames := List.mem_of_getElem? hf
  have hdvd : 4096 ∣ f := hmap.dvd hmem
  obtain ⟨hreached, hsmall⟩ := ht.reached_window hlow hhigh
  have hentry : s'.memory.word (s'.memory.entryAddr1 pagingRoot v) = f + 3 := by
    rw [ht.entryAddr1_window hlow hhigh, ← hword, windowEntry, Nat.zero_add]
  have hpresent : Present (s'.memory.word (s'.memory.entryAddr1 pagingRoot v)) := by
    rw [hentry, Present]
    omega
  refine ⟨f, ?_, ?_⟩
  · apply List.mem_of_getElem? (i := (v - 0x2000000) / 4096)
    rw [List.getElem?_take, if_pos (by omega)]
    exact hf
  · have haddr : addrBits 12 (f + 3) = f := by
      rw [addrBits]
      omega
    have hwalk := Memory.walk_of_small hreached hsmall hpresent
    rw [hentry, haddr] at hwalk
    exact hwalk

theorem exists_initHeap (hl : PhysFrame.Lawful) (hm : Mapper.Lawful) {s : Machine}
    (ht : Tables s.memory) (hempty : ∀ i < 4096, s.memory.word (windowEntry i) = 0)
    (hmap : PageMap s.frames)
    (hvalid : ∀ addr ∈ s.frames.usableAddrs.take (s.frames.next + 4096), addr < 2 ^ 52)
    (hlen : 4096 ≤ (line s.frames).length) :
    ∃ s', initHeap ⟨pagingRoot, 0⟩ s = (.ok (), s') := by
  rw [initHeap, heapPages_eq]
  have hk : 0 + 4096 ≤ 4096 := Nat.le_of_eq (Nat.zero_add 4096)
  exact exists_mapPages hl hm hk ht (fun i _ ↦ hempty i) hmap hvalid hlen

end Map

/-- The tables of the window are empty when stage 2 is done. -/
theorem word_windowEntry (m : Memory) : ∀ i < 4096, (setupPaging m).word (windowEntry i) = 0 := by
  intro i hi
  apply word_heap_zero m
  · rw [windowEntry]
    omega
  · rw [windowEntry]
    omega

end SmallOs.Kernel
