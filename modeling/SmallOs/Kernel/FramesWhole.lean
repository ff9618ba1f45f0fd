import SmallOs.Kernel.Frames
import SmallOs.Base.Lists
import SmallOs.Base.Run

/-!
# Which frames are handed out

A frame is taken at every 4096 bytes of a usable region and begins at the multiple of 4096 below.
The frames lie within their regions exactly when the regions begin and end at such multiples.
-/

namespace SmallOs.Kernel

open SmallOs.Base

/-- No address belongs to both regions. -/
def MemoryRegion.Disjoint (r s : MemoryRegion) : Prop :=
  ∀ x, ¬(r.start ≤ x ∧ x < r.end_ ∧ s.start ≤ x ∧ x < s.end_)

theorem MemoryRegion.Disjoint.symm {r s : MemoryRegion} (h : r.Disjoint s) : s.Disjoint r :=
  fun x ⟨hs, hs', hr, hr'⟩ ↦ h x ⟨hr, hr', hs, hs'⟩

/-- An address belongs to one of disjoint regions only. -/
theorem eq_of_disjoint {rs : List MemoryRegion} (h : rs.Pairwise MemoryRegion.Disjoint)
    {r s : MemoryRegion} (hr : r ∈ rs) (hs : s ∈ rs) {x : Nat} (hxr : r.start ≤ x ∧ x < r.end_)
    (hxs : s.start ≤ x ∧ x < s.end_) : r = s := by
  apply Classical.byContradiction
  intro hne
  exact rel_of_ne (fun _ _ hd ↦ hd.symm) h hr hs hne x ⟨hxr.1, hxr.2, hxs.1, hxs.2⟩

namespace BootInfoFrameAllocator

/-! ### Calls one after another -/

/-- A call of `allocate_frame`. -/
abbrev FrameCall := Call BootInfoFrameAllocator Unit (Option Nat)

/-- The usable regions of the memory map. -/
def usableRegions (a : BootInfoFrameAllocator) : List MemoryRegion :=
  a.memoryMap.filter fun r ↦ r.kind = .usable

theorem usableAddrs_eq (a : BootInfoFrameAllocator) :
    a.usableAddrs = a.usableRegions.flatMap addrs := rfl

/-- The allocator after some more calls. -/
def advance (a : BootInfoFrameAllocator) (k : Nat) : BootInfoFrameAllocator :=
  { a with next := a.next + k }

@[simp] theorem advance_advance (a : BootInfoFrameAllocator) (j k : Nat) :
    advance (advance a j) k = advance a (j + k) := by
  rw [advance, advance, advance, Nat.add_assoc]

section Calls

variable [PhysFrame]

/-- The call returns. -/
def Allocates (x : FrameCall) : Prop :=
  (allocateFrame : Prog _ Empty _) x.before = (.ok x.output, x.after)

/-- A run returns the frames that are next in line. -/
theorem run_allocates (hl : PhysFrame.Lawful) {a s : BootInfoFrameAllocator} {t : List FrameCall}
    (h : Run Allocates a t s) :
    t.filterMap Call.output = ((a.usableAddrs.drop a.next).take t.length).map frameOf ∧
      ((∀ addr ∈ a.usableAddrs.take a.next, addr < 2 ^ 52) →
        ∀ addr ∈ a.usableAddrs.take (a.next + t.length), addr < 2 ^ 52) := by
  induction h with
  | nil a => exact ⟨rfl, id⟩
  | @cons x t s head tail ih =>
    obtain ⟨hvalid, hout, hafter⟩ := (allocateFrame_eq_ok hl).mp head
    rw [hafter] at ih
    have ihout : t.filterMap Call.output =
        ((x.before.usableAddrs.drop (x.before.next + 1)).take t.length).map frameOf := ih.1
    constructor
    · rw [List.length_cons]
      cases hget : x.before.usableAddrs[x.before.next]? with
      | none =>
        have hlen := List.getElem?_eq_none_iff.mp hget
        rw [hget] at hout
        rw [List.filterMap_cons_none hout, ihout, List.drop_eq_nil_of_le hlen,
          List.drop_eq_nil_of_le (Nat.le_trans hlen (Nat.le_succ _)), List.take_nil, List.take_nil]
      | some addr =>
        rw [hget] at hout
        obtain ⟨hlt, heq⟩ := List.getElem?_eq_some_iff.mp hget
        rw [List.filterMap_cons_some hout, ihout, List.drop_eq_getElem_cons hlt, heq,
          List.take_succ_cons, List.map_cons]
    · intro _
      have hall := ih.2 hvalid
      rwa [Nat.add_right_comm] at hall

/-- A run takes as many frames as it has calls. -/
theorem run_advance (hl : PhysFrame.Lawful) {a s : BootInfoFrameAllocator} {t : List FrameCall}
    (h : Run Allocates a t s) : s = advance a t.length := by
  induction h with
  | nil a => rfl
  | @cons x t s head tail ih =>
    have hafter : x.after = advance x.before 1 := ((allocateFrame_eq_ok hl).mp head).2.2
    rw [ih, hafter, advance_advance, List.length_cons, Nat.add_comm]

/-- There is a run of any length up to an address that is none. -/
theorem exists_run (hl : PhysFrame.Lawful) (a : BootInfoFrameAllocator) (k : Nat)
    (h : ∀ addr ∈ a.usableAddrs.take (a.next + k), addr < 2 ^ 52) :
    ∃ t s, Run Allocates a t s ∧ t.length = k := by
  induction k generalizing a with
  | zero => exact ⟨[], a, .nil a, rfl⟩
  | succ k ih =>
    let s : BootInfoFrameAllocator := { a with next := a.next + 1 }
    have hrest : ∀ addr ∈ s.usableAddrs.take (s.next + k), addr < 2 ^ 52 := by
      intro addr haddr
      have hmem : addr ∈ a.usableAddrs.take (a.next + 1 + k) := haddr
      rw [Nat.add_right_comm, Nat.add_assoc] at hmem
      exact h addr hmem
    have hfirst : ∀ addr ∈ a.usableAddrs.take (a.next + 1), addr < 2 ^ 52 := by
      intro addr haddr
      exact h addr (List.take_subset_take_left _ (by omega) haddr)
    obtain ⟨t, u, hrun, hlen⟩ := ih s hrest
    have hcall : Allocates ⟨a, (), a.usableAddrs[a.next]?.map frameOf, s⟩ :=
      (allocateFrame_eq_ok hl).mpr ⟨hfirst, rfl, rfl⟩
    exact ⟨_, u, Run.cons hcall hrun, by rw [List.length_cons, hlen]⟩

end Calls

/-! ### Addresses of regions -/

theorem addrs_eq (r : MemoryRegion) :
    addrs r = (List.range ((r.end_ - max r.start allocStart + 4095) / 4096)).map fun k ↦
      max r.start allocStart + 4096 * k := by
  simp only [addrs]
  by_cases hempty : r.end_ ≤ max r.start allocStart
  · rw [if_pos hempty, Nat.sub_eq_zero_of_le hempty]
    rfl
  · rw [if_neg hempty]

theorem length_addrs (r : MemoryRegion) :
    (addrs r).length = (r.end_ - max r.start allocStart + 4095) / 4096 := by
  rw [addrs_eq, List.length_map, List.length_range]

/-- Behind its first frames a region is a shorter one. -/
theorem drop_addrs {r : MemoryRegion} (h : allocStart ≤ r.start) (k : Nat) :
    (addrs r).drop k = addrs { r with start := r.start + 4096 * k } := by
  have hcount : (r.end_ - r.start + 4095) / 4096 - k =
      (r.end_ - (r.start + 4096 * k) + 4095) / 4096 := by omega
  rw [addrs_eq, addrs_eq, Nat.max_eq_left h, Nat.max_eq_left (Nat.le_add_right_of_le h),
    ← List.map_drop, List.range_eq_range', List.drop_range', List.range'_eq_map_range,
    List.map_map, hcount]
  apply List.map_congr_left
  intro i _
  simp only [Function.comp_apply]
  omega

theorem allocStart_le_of_mem_addrs {r : MemoryRegion} {addr : Nat} (h : addr ∈ addrs r) :
    allocStart ≤ addr := by
  obtain ⟨k, rfl, -⟩ := mem_addrs.mp h
  exact Nat.le_trans (Nat.le_max_right _ _) (Nat.le_add_right _ _)

/-- An address at which a frame is taken belongs to its region. -/
theorem belongs_of_mem_addrs {r : MemoryRegion} {addr : Nat} (h : addr ∈ addrs r) :
    r.start ≤ addr ∧ addr < r.end_ := by
  obtain ⟨k, rfl, hlt⟩ := mem_addrs.mp h
  exact ⟨Nat.le_trans (Nat.le_max_left _ _) (Nat.le_add_right _ _), hlt⟩

theorem nodup_addrs (r : MemoryRegion) : (addrs r).Nodup := by
  rw [addrs]
  by_cases hempty : r.end_ ≤ max r.start allocStart
  · rw [if_pos hempty]
    exact List.nodup_nil
  · rw [if_neg hempty]
    apply List.pairwise_map.mpr
    apply List.nodup_range.imp
    intro i j hne
    omega

/-- Disjoint regions have no address twice. -/
theorem nodup_flatMap_addrs {rs : List MemoryRegion} (h : rs.Pairwise MemoryRegion.Disjoint) :
    (rs.flatMap addrs).Nodup := by
  apply List.pairwise_flatMap.mpr
  refine ⟨fun r _ ↦ nodup_addrs r, ?_⟩
  apply h.imp
  intro r s hrs x hx y hy heq
  have hr := belongs_of_mem_addrs hx
  have hs := belongs_of_mem_addrs hy
  rw [← heq] at hs
  exact hrs x ⟨hr.1, hr.2, hs.1, hs.2⟩

/-- The regions up to the first one that goes beyond the physical addresses, which is cut. -/
def reachable : List MemoryRegion → List MemoryRegion
  | [] => []
  | r :: rest => if r.end_ ≤ 2 ^ 52 then r :: reachable rest else [{ r with end_ := 2 ^ 52 }]

/-- A region holds no frame, or begins and ends at a multiple of the frame size. -/
def PageAligned (r : MemoryRegion) : Prop :=
  r.end_ ≤ max r.start allocStart ∨ 4096 ∣ max r.start allocStart ∧ 4096 ∣ r.end_

instance (r : MemoryRegion) : Decidable (PageAligned r) := inferInstanceAs (Decidable (_ ∨ _))

theorem end_le_of_mem_reachable {rs : List MemoryRegion} {r : MemoryRegion}
    (h : r ∈ reachable rs) : r.end_ ≤ 2 ^ 52 := by
  induction rs with
  | nil => cases h
  | cons s rs ih =>
    rw [reachable] at h
    by_cases hend : s.end_ ≤ 2 ^ 52
    · rw [if_pos hend] at h
      rcases List.mem_cons.mp h with rfl | h'
      · exact hend
      · exact ih h'
    · rw [if_neg hend, List.mem_singleton] at h
      exact Nat.le_of_eq (congrArg MemoryRegion.end_ h)

/-- A reachable region is one of the regions, or such a region cut. -/
theorem exists_of_mem_reachable {rs : List MemoryRegion} {r : MemoryRegion}
    (h : r ∈ reachable rs) :
    ∃ s ∈ rs, s.start = r.start ∧ r.end_ ≤ s.end_ ∧ (r = s ∨ 4096 ∣ r.end_) := by
  induction rs with
  | nil => cases h
  | cons s rs ih =>
    rw [reachable] at h
    by_cases hend : s.end_ ≤ 2 ^ 52
    · rw [if_pos hend] at h
      rcases List.mem_cons.mp h with rfl | h'
      · exact ⟨r, List.mem_cons_self, rfl, Nat.le_refl _, Or.inl rfl⟩
      · obtain ⟨q, hq, hqr⟩ := ih h'
        exact ⟨q, List.mem_cons_of_mem _ hq, hqr⟩
    · rw [if_neg hend, List.mem_singleton] at h
      subst h
      exact ⟨s, List.mem_cons_self, rfl, Nat.le_of_not_le hend,
        Or.inr (show 4096 ∣ 2 ^ 52 by decide)⟩

/-- A region cut short loses addresses at its end only. -/
theorem addrs_cut_isPrefix (r : MemoryRegion) {e : Nat} (h : e ≤ r.end_) :
    addrs { r with end_ := e } <+: addrs r := by
  rw [addrs, addrs]
  by_cases hcut : e ≤ max r.start allocStart
  · simp only [if_pos hcut]
    exact List.nil_prefix
  · have hfull : ¬r.end_ ≤ max r.start allocStart := by omega
    simp only [if_neg hcut, if_neg hfull]
    apply List.IsPrefix.map
    apply List.prefix_iff_eq_take.mpr
    rw [List.length_range, List.take_range, Nat.min_eq_left (by omega)]

/-- The addresses of the reachable regions come first. -/
theorem reachable_isPrefix (rs : List MemoryRegion) :
    (reachable rs).flatMap addrs <+: rs.flatMap addrs := by
  induction rs with
  | nil => exact List.prefix_rfl
  | cons r rs ih =>
    rw [reachable]
    by_cases hend : r.end_ ≤ 2 ^ 52
    · rw [if_pos hend, List.flatMap_cons, List.flatMap_cons]
      exact (List.prefix_append_right_inj _).mpr ih
    · rw [if_neg hend, List.flatMap_cons, List.flatMap_nil, List.append_nil, List.flatMap_cons]
      exact (addrs_cut_isPrefix r (Nat.le_of_not_le hend)).trans (List.prefix_append _ _)

/-- A region that goes beyond the physical addresses, and is aligned up to them, has an address
beyond them. -/
theorem exists_beyond {r : MemoryRegion} (hne : r.start < r.end_) (hend : 2 ^ 52 < r.end_)
    (h : PageAligned { r with end_ := 2 ^ 52 }) : ∃ addr ∈ addrs r, 2 ^ 52 ≤ addr := by
  have hstart : allocStart < 2 ^ 52 := by decide
  by_cases hbeyond : 2 ^ 52 ≤ r.start
  · refine ⟨r.start, mem_addrs.mpr ⟨0, ?_, hne⟩, hbeyond⟩
    rw [Nat.max_eq_left (by omega)]
    rfl
  · have hlt : max r.start allocStart < 2 ^ 52 := by omega
    obtain ⟨hdvd, -⟩ := h.resolve_left (Nat.not_le.mpr hlt)
    refine ⟨2 ^ 52, mem_addrs.mpr ⟨(2 ^ 52 - max r.start allocStart) / 4096, ?_, hend⟩,
      Nat.le_refl _⟩
    have hrest : 4096 ∣ 2 ^ 52 - max r.start allocStart := Nat.dvd_sub (by decide) hdvd
    rw [Nat.mul_div_cancel' hrest]
    omega

/-- An address is a physical address. -/
def physical (addr : Nat) : Bool := decide (addr < 2 ^ 52)

theorem physical_iff {addr : Nat} : physical addr = true ↔ addr < 2 ^ 52 := decide_eq_true_iff

/-- Addresses that are reached are addresses of reachable regions. -/
theorem mem_reachable {rs : List MemoryRegion} (hne : ∀ r ∈ rs, r.start < r.end_)
    (h : ∀ r ∈ reachable rs, PageAligned r) {addr : Nat}
    (hmem : addr ∈ (rs.flatMap addrs).takeWhile physical) :
    addr ∈ (reachable rs).flatMap addrs := by
  induction rs with
  | nil => exact hmem
  | cons r rs ih =>
    rw [List.flatMap_cons] at hmem
    rw [reachable] at h ⊢
    by_cases hend : r.end_ ≤ 2 ^ 52
    · rw [if_pos hend] at h ⊢
      rw [List.takeWhile_append_of_pos] at hmem
      · rw [List.flatMap_cons]
        apply List.mem_append.mpr
        apply (List.mem_append.mp hmem).imp_right
        exact ih (fun r hr ↦ hne r (List.mem_cons_of_mem _ hr))
          (fun r hr ↦ h r (List.mem_cons_of_mem _ hr))
      · intro b hb
        exact physical_iff.mpr (Nat.lt_of_lt_of_le (belongs_of_mem_addrs hb).2 hend)
    · rw [if_neg hend] at h ⊢
      obtain ⟨b, hb, hbeyond⟩ := exists_beyond (hne r List.mem_cons_self) (Nat.lt_of_not_le hend)
        (h _ List.mem_cons_self)
      obtain ⟨pre, post, hsplit⟩ := List.append_of_mem hb
      have hphys := physical_iff.mp (List.all_eq_true.mp List.all_takeWhile addr hmem)
      have hstop : physical b = false := decide_eq_false (Nat.not_lt.mpr hbeyond)
      rw [hsplit, List.append_assoc, List.cons_append] at hmem
      have hpre := mem_of_mem_takeWhile hstop hmem
      have haddr : addr ∈ addrs r := by
        rw [hsplit]
        exact List.mem_append_left _ hpre
      obtain ⟨k, hk, -⟩ := mem_addrs.mp haddr
      rw [List.flatMap_cons, List.flatMap_nil, List.append_nil]
      exact mem_addrs.mpr ⟨k, hk, hphys⟩

/-! ### Whole frames -/

/-- The frames are distinct, and each lies within one region and above the first 32 MiB. -/
def Whole (rs : List MemoryRegion) (frames : List Nat) : Prop :=
  frames.Nodup ∧ ∀ f ∈ frames, allocStart ≤ f ∧ ∃ r ∈ rs, r.start ≤ f ∧ f + 4096 ≤ r.end_

/-- At the addresses of an aligned region there are frames within it. -/
theorem PageAligned.frame {r : MemoryRegion} (h : PageAligned r) {addr : Nat}
    (haddr : addr ∈ addrs r) : 4096 ∣ addr ∧ addr + 4096 ≤ r.end_ := by
  obtain ⟨k, rfl, hlt⟩ := mem_addrs.mp haddr
  obtain ⟨hstart, hend⟩ := h.resolve_left (by omega)
  have hdvd : 4096 ∣ max r.start allocStart + 4096 * k :=
    Nat.dvd_add hstart (Nat.dvd_mul_right _ _)
  refine ⟨hdvd, ?_⟩
  obtain ⟨i, hi⟩ := hdvd
  obtain ⟨j, hj⟩ := hend
  rw [hi, hj] at hlt ⊢
  omega

/-- The frames at reached addresses of aligned regions are whole. -/
theorem whole_of_aligned {rs : List MemoryRegion} (hne : ∀ r ∈ rs, r.start < r.end_)
    (hd : rs.Pairwise MemoryRegion.Disjoint) (h : ∀ r ∈ reachable rs, PageAligned r) {k : Nat}
    (hk : ∀ addr ∈ (rs.flatMap addrs).take k, addr < 2 ^ 52) :
    Whole rs (((rs.flatMap addrs).take k).map frameOf) := by
  have hframe : ∀ addr ∈ (rs.flatMap addrs).take k, ∃ r ∈ reachable rs,
      addr ∈ addrs r ∧ 4096 ∣ addr ∧ addr + 4096 ≤ r.end_ := by
    intro addr haddr
    have htake : addr ∈ (rs.flatMap addrs).takeWhile physical := by
      have hall : ((rs.flatMap addrs).take k).takeWhile physical = (rs.flatMap addrs).take k := by
        have happend : ((rs.flatMap addrs).take k ++ []).takeWhile physical =
            (rs.flatMap addrs).take k ++ [].takeWhile physical :=
          List.takeWhile_append_of_pos fun b hb ↦ physical_iff.mpr (hk b hb)
        rwa [List.takeWhile_nil, List.append_nil] at happend
      rw [← hall, ← List.take_takeWhile] at haddr
      exact List.mem_of_mem_take haddr
    obtain ⟨r, hr, hmem⟩ := List.mem_flatMap.mp (mem_reachable hne h htake)
    exact ⟨r, hr, hmem, (h r hr).frame hmem⟩
  have hmap : ((rs.flatMap addrs).take k).map frameOf = (rs.flatMap addrs).take k := by
    refine (List.map_congr_left ?_).trans (List.map_id _)
    intro addr haddr
    obtain ⟨-, -, -, hdvd, -⟩ := hframe addr haddr
    exact frameOf_of_dvd hdvd
  rw [hmap]
  refine ⟨(nodup_flatMap_addrs hd).sublist (List.take_sublist _ _), ?_⟩
  intro f hf
  obtain ⟨r, hr, hmem, -, hend⟩ := hframe f hf
  obtain ⟨s, hs, hstart, hle, -⟩ := exists_of_mem_reachable hr
  refine ⟨allocStart_le_of_mem_addrs hmem, s, hs, ?_, Nat.le_trans hend hle⟩
  rw [hstart]
  exact (belongs_of_mem_addrs hmem).1

/-- A region that is not aligned has a frame that no region holds. -/
theorem PageAligned.of_whole {rs : List MemoryRegion} (hd : rs.Pairwise MemoryRegion.Disjoint)
    {r : MemoryRegion} (hr : r ∈ reachable rs)
    (h : ∀ addr ∈ addrs r, ∃ s ∈ rs, s.start ≤ frameOf addr ∧ frameOf addr + 4096 ≤ s.end_) :
    PageAligned r := by
  by_cases hempty : r.end_ ≤ max r.start allocStart
  · exact Or.inl hempty
  obtain ⟨q, hq, hstart, hle, hcut⟩ := exists_of_mem_reachable hr
  have hwithin : ∀ addr ∈ addrs r, q.start ≤ frameOf addr ∧ frameOf addr + 4096 ≤ q.end_ := by
    intro addr haddr
    obtain ⟨s, hs, hlow, hhigh⟩ := h addr haddr
    have hbelongs := belongs_of_mem_addrs haddr
    have hround : frameOf addr ≤ addr ∧ addr < frameOf addr + 4096 := by
      rw [frameOf]
      omega
    have heq : s = q := by
      apply eq_of_disjoint hd hs hq (x := addr)
      · exact ⟨Nat.le_trans hlow hround.1, Nat.lt_of_lt_of_le hround.2 hhigh⟩
      · exact ⟨hstart ▸ hbelongs.1, Nat.lt_of_lt_of_le hbelongs.2 hle⟩
    rw [← heq]
    exact ⟨hlow, hhigh⟩
  have hfirst : 4096 ∣ max r.start allocStart := by
    by_cases hlow : r.start ≤ allocStart
    · rw [Nat.max_eq_right hlow]
      decide
    · have hmax : max r.start allocStart = r.start := Nat.max_eq_left (Nat.le_of_not_le hlow)
      have hmem : r.start ∈ addrs r := by
        apply mem_addrs.mpr
        refine ⟨0, hmax.symm, ?_⟩
        rw [hmax] at hempty
        exact Nat.lt_of_not_le hempty
      have hin := (hwithin _ hmem).1
      rw [hmax]
      rw [hstart, frameOf] at hin
      omega
  refine Or.inr ⟨hfirst, ?_⟩
  rcases hcut with rfl | hdvd
  · apply Decidable.byContradiction
    intro hnot
    obtain ⟨i, hi⟩ := hfirst
    have hmem : frameOf r.end_ ∈ addrs r := by
      apply mem_addrs.mpr
      refine ⟨r.end_ / 4096 - i, ?_, ?_⟩
      · rw [frameOf]
        omega
      · rw [frameOf]
        omega
    have hin := (hwithin _ hmem).2
    have hround : frameOf (frameOf r.end_) = frameOf r.end_ :=
      frameOf_of_dvd (Nat.dvd_mul_left _ _)
    rw [hround, frameOf] at hin
    omega
  · exact hdvd

/-! ### The table of the boot loader -/

/-- An entry as it lies in memory. -/
def entry (m : Memory) (ptr i : Nat) : E820Entry :=
  ⟨m.word (ptr + i * 24), m.word (ptr + i * 24 + 8), leNat (m.load (ptr + i * 24 + 16) 4)⟩

/-- The table at an address. -/
def entries (m : Memory) (ptr len : Nat) : List E820Entry := (List.range len).map (entry m ptr)

/-- The region of an entry. -/
def regionOf (e : E820Entry) : MemoryRegion := ⟨e.base, e.base + e.length, e.kind⟩

/-- The regions of the usable entries. -/
def usableEntries (es : List E820Entry) : List MemoryRegion :=
  (es.filter fun e ↦ e.kind = .usable ∧ e.length ≠ 0).map regionOf

theorem readEntry_eq_ok {ε : Type} {m : Memory} {ptr i : Nat} {e : E820Entry}
    (h : (readEntry m ptr i : Outcome ε E820Entry) = .ok e) : e = entry m ptr i := by
  simp only [readEntry, Outcome.bind_eq_ok, Outcome.mulAt_eq_ok, Outcome.addAt_eq_ok,
    Outcome.pure_eq_ok, Outcome.ok.injEq] at h
  obtain ⟨_, ⟨-, rfl⟩, _, ⟨-, rfl⟩, _, ⟨-, rfl⟩, _, ⟨-, rfl⟩, rfl⟩ := h
  rfl

/-- Short tables are kept whole. -/
theorem readRegions_eq_ok {ε : Type} {m : Memory} {ptr : Nat} {idx : List Nat}
    {regions out : List MemoryRegion}
    (h : (readRegions m ptr idx regions : Outcome ε _) = .ok out)
    (hcount : regions.length + ((idx.map (entry m ptr)).filter (·.length ≠ 0)).length < 256) :
    out = regions ++ ((idx.map (entry m ptr)).filter (·.length ≠ 0)).map regionOf := by
  induction idx generalizing regions with
  | nil =>
    rw [← Outcome.ok.inj h]
    exact (List.append_nil _).symm
  | cons i idx ih =>
    rw [readRegions, Outcome.bind_eq_ok] at h
    obtain ⟨e, he, h⟩ := h
    obtain rfl := readEntry_eq_ok he
    rw [List.map_cons, List.filter_cons] at hcount ⊢
    have hroom : ¬256 ≤ regions.length := by omega
    rw [if_neg hroom] at h
    by_cases hlen : (entry m ptr i).length = 0
    · have hskip : decide ((entry m ptr i).length ≠ 0) = false := by
        rw [hlen]
        rfl
      rw [if_pos hlen] at h
      simp only [hskip, Bool.false_eq_true, if_false] at hcount ⊢
      exact ih h hcount
    · have hkeep : decide ((entry m ptr i).length ≠ 0) = true := decide_eq_true hlen
      rw [if_neg hlen, Outcome.bind_eq_ok] at h
      obtain ⟨end_, hend, h⟩ := h
      obtain ⟨-, rfl⟩ := Outcome.addAt_eq_ok.mp hend
      simp only [hkeep, if_true] at hcount ⊢
      rw [List.length_cons] at hcount
      have hrest := ih h (by rw [List.length_append, List.length_singleton]; omega)
      rw [hrest, List.append_assoc, List.map_cons]
      rfl

theorem usableRegions_init {ε : Type} {m : Memory} {ptr len : Nat} {a : BootInfoFrameAllocator}
    (h : (initFromRaw m ptr len : Outcome ε _) = .ok a)
    (hcount : ((entries m ptr len).filter (·.length ≠ 0)).length < 256) :
    a.next = 0 ∧ a.usableRegions = usableEntries (entries m ptr len) := by
  rw [initFromRaw, Outcome.bind_eq_ok] at h
  obtain ⟨regions, hregions, ha⟩ := h
  have hread := readRegions_eq_ok hregions (by rw [List.length_nil, Nat.zero_add]; exact hcount)
  rw [← Outcome.ok.inj ha]
  refine ⟨rfl, ?_⟩
  rw [usableRegions, usableEntries, hread, List.nil_append, List.filter_map, List.filter_filter]
  congr 1
  apply List.filter_congr
  intro e _
  rw [Bool.decide_and]
  rfl

theorem start_lt_end {es : List E820Entry} {r : MemoryRegion} (h : r ∈ usableEntries es) :
    r.start < r.end_ := by
  obtain ⟨e, he, rfl⟩ := List.mem_map.mp h
  have hne := (of_decide_eq_true (List.mem_filter.mp he).2).2
  exact Nat.lt_add_of_pos_right (Nat.pos_of_ne_zero hne)

/-- However often a frame is taken, the frames are whole ones of the usable entries. -/
def HandsOutWhole [PhysFrame] (es : List E820Entry) (a : BootInfoFrameAllocator) : Prop :=
  ∀ t s, Run Allocates a t s → Whole (usableEntries es) (t.filterMap Call.output)

/-- Frames are whole exactly when the reachable usable entries begin and end at pages. -/
theorem handsOutWhole_iff [PhysFrame] (hl : PhysFrame.Lawful) {m : Memory} {ptr len : Nat}
    {a : BootInfoFrameAllocator} (hinit : (initFromRaw m ptr len : Outcome Empty _) = .ok a)
    (hcount : ((entries m ptr len).filter (·.length ≠ 0)).length < 256)
    (hd : (usableEntries (entries m ptr len)).Pairwise MemoryRegion.Disjoint) :
    HandsOutWhole (entries m ptr len) a ↔
      ∀ r ∈ reachable (usableEntries (entries m ptr len)), PageAligned r := by
  obtain ⟨hnext, hregions⟩ := usableRegions_init hinit hcount
  have haddrs : a.usableAddrs = (usableEntries (entries m ptr len)).flatMap addrs := by
    rw [usableAddrs_eq, hregions]
  constructor
  · intro h r hr
    apply PageAligned.of_whole hd hr
    intro addr haddr
    have hfront := List.prefix_iff_eq_take.mp
      (reachable_isPrefix (usableEntries (entries m ptr len)))
    have hphys : ∀ b ∈ a.usableAddrs.take (a.next +
        ((reachable (usableEntries (entries m ptr len))).flatMap addrs).length), b < 2 ^ 52 := by
      intro b hb
      rw [haddrs, hnext, Nat.zero_add, ← hfront] at hb
      obtain ⟨q, hq, hmem⟩ := List.mem_flatMap.mp hb
      exact Nat.lt_of_lt_of_le (belongs_of_mem_addrs hmem).2 (end_le_of_mem_reachable hq)
    obtain ⟨t, s, hrun, hlen⟩ := exists_run hl a _ hphys
    have hout := (run_allocates hl hrun).1
    rw [hnext, List.drop_zero, haddrs, hlen, ← hfront] at hout
    have hwhole := (h t s hrun).2 (frameOf addr)
    rw [hout] at hwhole
    exact (hwhole (List.mem_map_of_mem (List.mem_flatMap.mpr ⟨r, hr, haddr⟩))).2
  · intro h t s hrun
    obtain ⟨hout, hphys⟩ := run_allocates hl hrun
    rw [hnext, List.take_zero] at hphys
    have hvalid := hphys nofun
    rw [hnext, List.drop_zero, haddrs] at hout
    rw [Nat.zero_add, haddrs] at hvalid
    rw [hout]
    exact whole_of_aligned (fun r hr ↦ start_lt_end hr) hd h hvalid

/-- Frames of 4 KiB below 2 to the 52. -/
@[reducible] def frames4K : PhysFrame where
  containingAddress addr := if addr < 2 ^ 52 then .ok (addr / 4096 * 4096) else .panic

theorem frames4K_lawful : @PhysFrame.Lawful frames4K := @PhysFrame.Lawful.mk frames4K fun _ ↦ rfl

/-- Memory with a table of two usable entries around the first 32 MiB at address `0x8000`. -/
def sampleTable (base length : Nat) : Memory :=
  Memory.store (fun _ ↦ 0) 0x8000
    (leBytes 8 0 ++ leBytes 8 0x9fc00 ++ leBytes 8 1 ++
      (leBytes 8 base ++ leBytes 8 length ++ leBytes 8 1))

theorem entries_sampleTable :
    entries (sampleTable 0x2000000 0x3000) 0x8000 2 = [⟨0, 0x9fc00, 1⟩, ⟨0x2000000, 0x3000, 1⟩] ∧
      entries (sampleTable 0x2000800 0x2000) 0x8000 2 =
        [⟨0, 0x9fc00, 1⟩, ⟨0x2000800, 0x2000, 1⟩] := by
  decide

/-- Disjointness of a list of two regions. -/
theorem pairwise_pair {r s : MemoryRegion} (h : r.end_ ≤ s.start) :
    [r, s].Pairwise MemoryRegion.Disjoint := by
  refine List.Pairwise.cons ?_ (List.pairwise_singleton _ _)
  intro q hq x ⟨_, hr, hs, _⟩
  rw [List.mem_singleton.mp hq] at hs
  exact Nat.lt_irrefl x (Nat.lt_of_lt_of_le hr (Nat.le_trans h hs))

theorem handsOutWhole_iff_aligned :
    @HandsOutWhole frames4K (entries (sampleTable 0x2000000 0x3000) 0x8000 2)
      ⟨[⟨0, 0x9fc00, .usable⟩, ⟨0x2000000, 0x2003000, .usable⟩], 0⟩ := by
  have hinit : (initFromRaw (sampleTable 0x2000000 0x3000) 0x8000 2 : Outcome Empty _) =
      .ok ⟨[⟨0, 0x9fc00, .usable⟩, ⟨0x2000000, 0x2003000, .usable⟩], 0⟩ := by
    decide
  have hcount : ((entries (sampleTable 0x2000000 0x3000) 0x8000 2).filter
      (·.length ≠ 0)).length < 256 := by
    rw [entries_sampleTable.1]
    decide
  have hregions : usableEntries (entries (sampleTable 0x2000000 0x3000) 0x8000 2) =
      [⟨0, 0x9fc00, .usable⟩, ⟨0x2000000, 0x2003000, .usable⟩] := by
    rw [entries_sampleTable.1]
    decide
  have hd : (usableEntries (entries (sampleTable 0x2000000 0x3000) 0x8000 2)).Pairwise
      MemoryRegion.Disjoint := by
    rw [hregions]
    exact pairwise_pair (by decide)
  apply (@handsOutWhole_iff frames4K frames4K_lawful _ _ _ _ hinit hcount hd).mpr
  rw [hregions]
  decide

/-- A usable entry that begins within a page: its first frame begins below it. -/
theorem not_handsOutWhole_unaligned :
    ∃ a, (initFromRaw (sampleTable 0x2000800 0x2000) 0x8000 2 : Outcome Empty _) = .ok a ∧
      ((entries (sampleTable 0x2000800 0x2000) 0x8000 2).filter (·.length ≠ 0)).length < 256 ∧
      (usableEntries (entries (sampleTable 0x2000800 0x2000) 0x8000 2)).Pairwise
        MemoryRegion.Disjoint ∧
      ¬@HandsOutWhole frames4K (entries (sampleTable 0x2000800 0x2000) 0x8000 2) a := by
  have hregions : usableEntries (entries (sampleTable 0x2000800 0x2000) 0x8000 2) =
      [⟨0, 0x9fc00, .usable⟩, ⟨0x2000800, 0x2002800, .usable⟩] := by
    rw [entries_sampleTable.2]
    decide
  refine ⟨⟨[⟨0, 0x9fc00, .usable⟩, ⟨0x2000800, 0x2002800, .usable⟩], 0⟩, by decide, ?_, ?_,
    ?_⟩
  · rw [entries_sampleTable.2]
    decide
  · rw [hregions]
    exact pairwise_pair (by decide)
  · intro h
    have hcall : @Allocates frames4K ⟨⟨[⟨0, 0x9fc00, .usable⟩, ⟨0x2000800, 0x2002800, .usable⟩], 0⟩,
        (), some 0x2000000, ⟨[⟨0, 0x9fc00, .usable⟩, ⟨0x2000800, 0x2002800, .usable⟩], 1⟩⟩ :=
      (@allocateFrame_eq_ok Empty frames4K frames4K_lawful _ _ _).mpr
        ⟨by decide, by decide, rfl⟩
    obtain ⟨-, hwithin⟩ := h _ _ (Run.cons hcall (.nil _))
    rw [hregions] at hwithin
    revert hwithin
    decide

end BootInfoFrameAllocator
end SmallOs.Kernel
