import SmallOs.Kernel.Dma

/-!
# Exclusive buffers

A buffer is the block from its first frame on, but its frames are whatever is next in line. The
two agree exactly when no gap and no end of the line falls into a request.
-/

namespace SmallOs.Kernel.KernelDmaAllocator

open SmallOs.Base BootInfoFrameAllocator

/-- The addresses of a buffer. -/
def span (b : DmaBuffer) : Span := ⟨b.phys, b.size⟩

/-- The usable regions are whole pages and disjoint. -/
structure PageMap (a : BootInfoFrameAllocator) : Prop where
  aligned : ∀ r ∈ a.usableRegions, 4096 ∣ r.start ∧ 4096 ∣ r.end_
  disjoint : a.usableRegions.Pairwise MemoryRegion.Disjoint

/-- The line is empty, or it holds the frames of the request, the first of them is aligned, and
none of them lies outside the block that the first one begins. -/
def Fits (g : Option BootInfoFrameAllocator) (req : DmaRequest) : Prop :=
  ∀ a, g = some a → line a = [] ∨ pages req.size ≤ (line a).length ∧ ∀ f, (line a).head? = some f →
    req.align ∣ f ∧
      ∀ c ∈ (line a).take (pages req.size), f ≤ c ∧ c < f + pages req.size * 4096

theorem PageMap.advance {a : BootInfoFrameAllocator} (h : PageMap a) (k : Nat) :
    PageMap (a.advance k) := ⟨h.aligned, h.disjoint⟩

theorem PageMap.nodup_line {a : BootInfoFrameAllocator} (h : PageMap a) : (line a).Nodup :=
  (nodup_flatMap_addrs h.disjoint).sublist (List.drop_sublist _ _)

/-- A frame that has been taken off the line does not come back. -/
theorem PageMap.not_mem_take {a : BootInfoFrameAllocator} (h : PageMap a) {j k f : Nat}
    (hf : f ∈ line ((a.advance k).advance j)) : f ∉ (line a).take k := by
  have hnodup := h.nodup_line
  rw [← List.take_append_drop k (line a)] at hnodup
  have hlater : f ∈ (line a).drop k := by
    rw [line_advance, line_advance] at hf
    exact List.mem_of_mem_drop hf
  exact fun htake ↦ (List.nodup_append.mp hnodup).2.2 f htake f hlater rfl

/-- Frames begin where they are taken. -/
theorem PageMap.dvd {a : BootInfoFrameAllocator} (h : PageMap a) {addr : Nat}
    (haddr : addr ∈ line a) : 4096 ∣ addr := by
  obtain ⟨r, hr, hmem⟩ := List.mem_flatMap.mp (List.mem_of_mem_drop haddr)
  obtain ⟨k, rfl, -⟩ := mem_addrs.mp hmem
  apply Nat.dvd_add _ (Nat.dvd_mul_right _ _)
  rcases Nat.le_total r.start allocStart with hle | hle
  · rw [Nat.max_eq_right hle]
    decide
  · rw [Nat.max_eq_left hle]
    exact (h.aligned r hr).1

theorem PageMap.map_frameOf {a : BootInfoFrameAllocator} (h : PageMap a) {l : List Nat}
    (hl : l ⊆ line a) : l.map frameOf = l := by
  refine (List.map_congr_left ?_).trans (List.map_id l)
  intro addr haddr
  exact frameOf_of_dvd (h.dvd (hl haddr))

/-- As many distinct frames as a block has are within it exactly when they are all of its
frames. -/
theorem within_iff_covers {l : List Nat} {f n : Nat} (hn : l.Nodup) (hd : ∀ c ∈ l, 4096 ∣ c)
    (hf : 4096 ∣ f) (hlen : l.length = n) :
    (∀ c ∈ l, f ≤ c ∧ c < f + n * 4096) ↔ ∀ i < n, f + 4096 * i ∈ l := by
  have hblock : ∀ c, c ∈ (List.range n).map (fun i ↦ f + 4096 * i) ↔ ∃ i < n, f + 4096 * i = c := by
    intro c
    simp only [List.mem_map, List.mem_range]
  have hlength : ((List.range n).map fun i ↦ f + 4096 * i).length = n := by
    rw [List.length_map, List.length_range]
  constructor
  · intro h i hi
    have hsub : l ⊆ (List.range n).map fun i ↦ f + 4096 * i := by
      intro c hc
      obtain ⟨hle, hlt⟩ := h c hc
      obtain ⟨j, rfl⟩ := hf
      obtain ⟨k, rfl⟩ := hd c hc
      exact (hblock _).mpr ⟨k - j, by omega, by omega⟩
    have hall := subset_of_length_le hn hsub (Nat.le_of_eq (hlength.trans hlen.symm))
    exact hall ((hblock _).mpr ⟨i, hi, rfl⟩)
  · intro h c hc
    have hnodup : ((List.range n).map fun i ↦ f + 4096 * i).Nodup := by
      apply List.pairwise_map.mpr
      apply List.nodup_range.imp
      intro i j hne
      omega
    have hsub : (List.range n).map (fun i ↦ f + 4096 * i) ⊆ l := by
      intro c hc
      obtain ⟨i, hi, rfl⟩ := (hblock c).mp hc
      exact h i hi
    have hall := subset_of_length_le hnodup hsub (Nat.le_of_eq (hlen.trans hlength.symm))
    obtain ⟨i, hi, rfl⟩ := (hblock c).mp (hall hc)
    omega

section Draws

variable [PhysFrame]

/-- The frames that the frame allocator returned during a call. -/
def Draws (x : DmaCall) (frames : List Nat) : Prop :=
  ∃ a t s, x.before = some a ∧ x.after = some s ∧ Run Allocates a t s ∧
    frames = t.filterMap Call.output

/-- Buffers and their frames after some calls. -/
structure Exclusive (t : List DmaCall) : Prop where
  own : ∀ x ∈ t, ∀ b, x.output = some b → ∀ frames, Draws x frames →
    ∀ p, b.phys ≤ p → p < b.phys + b.size → frameOf p ∈ frames
  aligned : ∀ x ∈ t, ∀ b, x.output = some b → x.input.align ∣ b.phys
  apart : (t.filterMap Call.output).Pairwise fun b c ↦ (span b).Apart (span c)
  accounted : ∀ x ∈ t, x.output = none → ∀ frames, Draws x frames → ∀ f ∈ frames,
    ∃ y ∈ t, ∃ b, y.output = some b ∧ b.phys ≤ f ∧ f < b.phys + b.size

/-- A call that moves the allocator on by `k` frames draws those. -/
theorem draws_iff (hl : PhysFrame.Lawful) {x : DmaCall} {a : BootInfoFrameAllocator} {k : Nat}
    {t : List FrameCall} (hbefore : x.before = some a) (hafter : x.after = some (a.advance k))
    (hrun : Run Allocates a t (a.advance k)) (hmap : PageMap a) {frames : List Nat} :
    Draws x frames ↔ frames = (line a).take k := by
  have hall : ∀ u, Run Allocates a u (a.advance k) → u.filterMap Call.output = (line a).take k := by
    intro u hu
    have hlen : k = u.length := by
      have hnext := congrArg BootInfoFrameAllocator.next (run_advance hl hu)
      exact Nat.add_left_cancel hnext
    rw [(run_allocates hl hu).1, ← hlen]
    exact hmap.map_frameOf (List.take_subset _ _)
  constructor
  · rintro ⟨a', u, s, ha', hs, hu, rfl⟩
    rw [hbefore] at ha'
    rw [hafter] at hs
    obtain rfl := Option.some.inj ha'
    obtain rfl := Option.some.inj hs
    exact hall u hu
  · intro h
    exact ⟨a, t, _, hbefore, hafter, hrun, h.trans (hall t hrun).symm⟩

/-- What a call takes from the line of a page map, and what it returns. -/
theorem serves_pageMap (hl : PhysFrame.Lawful) {dma : KernelDmaAllocator} {x : DmaCall}
    (h : Serves dma x) (hmap : ∀ a, x.before = some a → PageMap a) :
    (x.before = none ∧ x.after = none ∧ x.output = none) ∨
      ∃ a k, x.before = some a ∧ x.after = some (a.advance k) ∧
        (∀ frames, Draws x frames ↔ frames = (line a).take k) ∧
        ((k = pages x.input.size ∧ ∃ b rest, x.output = some b ∧ line a = b.phys :: rest ∧
            pages x.input.size ≤ (line a).length ∧ b.size = pages x.input.size * 4096 ∧
            b.virt = b.phys + dma.physMemOffset) ∨
          ((line a).length < pages x.input.size ∧ (line a).length ≤ k ∧ x.output = none)) := by
  rcases serves_cases hl h with hnone | ⟨a, t, s, hbefore, hafter, hrun, hcases⟩
  · exact Or.inl hnone
  have hm := hmap a hbefore
  rcases hcases with ⟨hle, rfl, b, hout, hhead, hvirt, hsize⟩ | ⟨hlt, rfl, hout⟩
  · refine Or.inr ⟨a, _, hbefore, hafter, fun _ ↦ draws_iff hl hbefore hafter hrun hm,
      Or.inl ⟨rfl, b, ?_⟩⟩
    cases hline : line a with
    | nil =>
      rw [hline] at hhead
      cases hhead
    | cons f rest =>
      rw [hline] at hhead hle
      have hf : frameOf f = f := frameOf_of_dvd (hm.dvd (hline ▸ List.mem_cons_self))
      have hphys : frameOf f = b.phys := Option.some.inj hhead
      exact ⟨rest, hout, by rw [← hphys, hf], hle, hsize, hvirt⟩
  · exact Or.inr ⟨a, _, hbefore, hafter, fun _ ↦ draws_iff hl hbefore hafter hrun hm,
      Or.inr ⟨hlt, Nat.le_succ _, hout⟩⟩

theorem frameOf_of_draws (hl : PhysFrame.Lawful) {x : DmaCall} {frames : List Nat}
    (h : Draws x frames) {f : Nat} (hf : f ∈ frames) : frameOf f = f := by
  obtain ⟨a, t, s, -, -, hrun, rfl⟩ := h
  rw [(run_allocates hl hrun).1] at hf
  obtain ⟨addr, -, rfl⟩ := List.mem_map.mp hf
  exact frameOf_of_dvd (Nat.dvd_mul_left _ _)

/-- No frame is drawn by two calls. -/
def DrawApart (x y : DmaCall) : Prop :=
  ∀ xs ys, Draws x xs → Draws y ys → ∀ f ∈ xs, f ∉ ys

theorem DrawApart.symm {x y : DmaCall} (h : DrawApart x y) : DrawApart y x :=
  fun ys xs hy hx f hf hf' ↦ h xs ys hx hy f hf' hf

section Runs

variable {dma : KernelDmaAllocator} {g g' : Option BootInfoFrameAllocator} {t : List DmaCall}

/-- The regions stay as they are. -/
theorem run_pageMap (hl : PhysFrame.Lawful) (hmap : ∀ a, g = some a → PageMap a)
    (h : Run (Serves dma) g t g') :
    Run (fun x ↦ Serves dma x ∧ ∀ a, x.before = some a → PageMap a) g t g' := by
  have hmaps := h.invariant (I := fun g ↦ ∀ a, g = some a → PageMap a) (by
    intro x hx hm s hs
    rcases serves_pageMap hl hx hm with ⟨-, hafter, -⟩ | ⟨a, k, hbefore, hafter, -⟩
    · rw [hafter] at hs
      cases hs
    · rw [hafter] at hs
      rw [← Option.some.inj hs]
      exact (hm a hbefore).advance k) hmap
  exact h.restrict fun x hx ↦ (hmaps.2 x hx).1

/-- Calls only take frames off the line. -/
def Forward (g g' : Option BootInfoFrameAllocator) : Prop :=
  ∀ a, g = some a → ∃ k, g' = some (a.advance k)

theorem run_forward (hl : PhysFrame.Lawful) (hmap : ∀ a, g = some a → PageMap a)
    (h : Run (Serves dma) g t g') :
    (∀ x ∈ t, Forward g x.before) ∧ t.Pairwise fun x y ↦ Forward x.after y.before := by
  apply (run_pageMap hl hmap h).pairwise_forward
  · exact fun s a ha ↦ ⟨0, ha⟩
  · intro s t u hst htu a ha
    obtain ⟨j, hj⟩ := hst a ha
    obtain ⟨k, hk⟩ := htu _ hj
    exact ⟨j + k, by rw [hk, advance_advance]⟩
  · rintro x ⟨hx, hm⟩ a ha
    rcases serves_pageMap hl hx hm with ⟨hnone, -⟩ | ⟨b, k, hbefore, hafter, -⟩
    · rw [hnone] at ha
      cases ha
    · rw [hbefore] at ha
      rw [← Option.some.inj ha]
      exact ⟨k, hafter⟩

/-- A frame of an earlier call is no longer in the line. -/
theorem run_drawApart (hl : PhysFrame.Lawful) (hmap : ∀ a, g = some a → PageMap a)
    (h : Run (Serves dma) g t g') : t.Pairwise DrawApart := by
  have hkept := run_pageMap hl hmap h
  apply List.Pairwise.imp_of_mem ?_ (run_forward hl hmap h).2
  intro x y hx hy hxy xs ys hdx hdy f hf hf'
  obtain ⟨hserves, hm⟩ := hkept.mem hx
  obtain ⟨hserves', hm'⟩ := hkept.mem hy
  rcases serves_pageMap hl hserves hm with ⟨hnone, -⟩ | ⟨a, k, hbefore, hafter, hdraws, -⟩
  · obtain ⟨a, -, -, ha, -⟩ := hdx
    rw [hnone] at ha
    cases ha
  rcases serves_pageMap hl hserves' hm' with ⟨hnone, -⟩ | ⟨b, k', hbefore', -, hdraws', -⟩
  · obtain ⟨a, -, -, ha, -⟩ := hdy
    rw [hnone] at ha
    cases ha
  obtain ⟨j, hj⟩ := hxy _ hafter
  rw [hbefore'] at hj
  rw [(hdraws xs).mp hdx] at hf
  rw [(hdraws' ys).mp hdy, Option.some.inj hj] at hf'
  exact (hm a hbefore).not_mem_take (List.mem_of_mem_take hf') hf

end Runs

section Calls

variable {dma : KernelDmaAllocator} {x : DmaCall}

/-- Every page of a buffer is a frame of its call exactly when the request fits. -/
theorem fits_iff_own (hl : PhysFrame.Lawful) (h : Serves dma x)
    (hm : ∀ a, x.before = some a → PageMap a) {b : DmaBuffer} (hout : x.output = some b) :
    Fits x.before x.input ↔ x.input.align ∣ b.phys ∧
      ∀ frames, Draws x frames → ∀ p, b.phys ≤ p → p < b.phys + b.size → frameOf p ∈ frames := by
  rcases serves_pageMap hl h hm with ⟨-, -, hnone⟩ | ⟨a, k, hbefore, hafter, hdraws, hcases⟩
  · rw [hnone] at hout
    cases hout
  rcases hcases with ⟨rfl, c, rest, hout', hline, hle, hsize, -⟩ | ⟨-, -, hnone⟩
  · rw [hout'] at hout
    obtain rfl := Option.some.inj hout
    have hdvd : ∀ q ∈ (line a).take (pages x.input.size), 4096 ∣ q :=
      fun q hq ↦ (hm a hbefore).dvd (List.mem_of_mem_take hq)
    have hphys : 4096 ∣ c.phys := (hm a hbefore).dvd (hline ▸ List.mem_cons_self)
    have hiff := within_iff_covers
      ((hm a hbefore).nodup_line.sublist (List.take_sublist (pages x.input.size) _)) hdvd hphys
      (List.length_take_of_le hle)
    have hpages : (∀ frames, Draws x frames → ∀ p, c.phys ≤ p → p < c.phys + c.size →
        frameOf p ∈ frames) ↔
          ∀ i < pages x.input.size, c.phys + 4096 * i ∈ (line a).take (pages x.input.size) := by
      constructor
      · intro hown i hi
        have hframe : frameOf (c.phys + 4096 * i) = c.phys + 4096 * i :=
          frameOf_of_dvd (Nat.dvd_add hphys (Nat.dvd_mul_right _ _))
        have hin := hown _ ((hdraws _).mpr rfl) (c.phys + 4096 * i) (Nat.le_add_right _ _)
          (by rw [hsize]; omega)
        rwa [hframe] at hin
      · intro hall frames hd p hlow hhigh
        rw [(hdraws frames).mp hd]
        rw [hsize] at hhigh
        have hframe : frameOf p = c.phys + 4096 * ((p - c.phys) / 4096) := by
          obtain ⟨j, hj⟩ := hphys
          rw [frameOf]
          omega
        rw [hframe]
        exact hall _ (by omega)
    rw [hpages, ← hiff]
    constructor
    · intro hfits
      rcases hfits a hbefore with hnil | ⟨-, hhead⟩
      · rw [hline] at hnil
        cases hnil
      · exact hhead c.phys (by rw [hline]; rfl)
    · intro hboth a' ha'
      rw [hbefore] at ha'
      obtain rfl := Option.some.inj ha'
      refine Or.inr ⟨hle, ?_⟩
      intro f hf
      rw [hline] at hf
      obtain rfl := Option.some.inj hf
      exact hboth
  · rw [hnone] at hout
    cases hout

/-- A call that returns no buffer draws no frame exactly when the request fits. -/
theorem fits_iff_none (hl : PhysFrame.Lawful) (h : Serves dma x)
    (hm : ∀ a, x.before = some a → PageMap a) (hout : x.output = none) :
    Fits x.before x.input ↔ ∀ frames, Draws x frames → frames = [] := by
  rcases serves_pageMap hl h hm with ⟨hnone, -⟩ | ⟨a, k, hbefore, hafter, hdraws, hcases⟩
  · constructor
    · rintro - frames ⟨a, -, -, ha, -⟩
      rw [hnone] at ha
      cases ha
    · intro _ a ha
      rw [hnone] at ha
      cases ha
  rcases hcases with ⟨-, c, rest, hout', -⟩ | ⟨hlt, hk, -⟩
  · rw [hout'] at hout
    cases hout
  have htake : (line a).take k = line a := List.take_of_length_le hk
  constructor
  · intro hfits frames hd
    rw [(hdraws frames).mp hd, htake]
    exact (hfits a hbefore).resolve_right fun hle ↦ Nat.not_le.mpr hlt hle.1
  · intro hall a' ha'
    rw [hbefore] at ha'
    obtain rfl := Option.some.inj ha'
    have hnil := hall _ ((hdraws _).mpr rfl)
    rw [htake] at hnil
    exact Or.inl hnil

/-- A buffer is not empty, and frames were drawn for it. -/
theorem exists_draws (hl : PhysFrame.Lawful) (h : Serves dma x)
    (hm : ∀ a, x.before = some a → PageMap a) {b : DmaBuffer} (hout : x.output = some b) :
    0 < b.size ∧ ∃ frames, Draws x frames := by
  rcases serves_pageMap hl h hm with ⟨-, -, hnone⟩ | ⟨a, k, -, -, hdraws, hcases⟩
  · rw [hnone] at hout
    cases hout
  refine ⟨?_, _, (hdraws _).mpr rfl⟩
  rcases hcases with ⟨-, c, -, hout', -, -, hsize, -⟩ | ⟨-, -, hnone⟩
  · rw [hout'] at hout
    rw [← Option.some.inj hout, hsize]
    exact Nat.mul_pos (pages_pos x.input.pos) (by decide)
  · rw [hnone] at hout
    cases hout

end Calls

/-- Buffers are exclusive exactly when every request fits. -/
theorem exclusive_iff (hl : PhysFrame.Lawful) {dma : KernelDmaAllocator}
    {g g' : Option BootInfoFrameAllocator} (hmap : ∀ a, g = some a → PageMap a) {t : List DmaCall}
    (h : Run (Serves dma) g t g') : Exclusive t ↔ ∀ x ∈ t, Fits x.before x.input := by
  have hkept := run_pageMap hl hmap h
  have hdrawn := run_drawApart hl hmap h
  constructor
  · intro hex x hx
    obtain ⟨hserves, hm⟩ := hkept.mem hx
    cases hout : x.output with
    | some b =>
      exact (fits_iff_own hl hserves hm hout).mpr ⟨hex.aligned x hx b hout, hex.own x hx b hout⟩
    | none =>
      apply (fits_iff_none hl hserves hm hout).mpr
      intro frames hd
      apply List.eq_nil_iff_forall_not_mem.mpr
      intro f hf
      obtain ⟨y, hy, b, hout', hlow, hhigh⟩ := hex.accounted x hx hout frames hd f hf
      obtain ⟨hserves', hm'⟩ := hkept.mem hy
      obtain ⟨-, ys, hys⟩ := exists_draws hl hserves' hm' hout'
      have hin := hex.own y hy b hout' ys hys f hlow hhigh
      rw [frameOf_of_draws hl hd hf] at hin
      have hne : x ≠ y := by
        rintro rfl
        rw [hout] at hout'
        cases hout'
      exact rel_of_ne (fun _ _ hxy ↦ hxy.symm) hdrawn hx hy hne frames ys hd hys f hf hin
  · intro hfits
    refine ⟨?_, ?_, ?_, ?_⟩
    · intro x hx b hout
      obtain ⟨hserves, hm⟩ := hkept.mem hx
      exact ((fits_iff_own hl hserves hm hout).mp (hfits x hx)).2
    · intro x hx b hout
      obtain ⟨hserves, hm⟩ := hkept.mem hx
      exact ((fits_iff_own hl hserves hm hout).mp (hfits x hx)).1
    · apply List.pairwise_filterMap.mpr
      apply List.Pairwise.imp_of_mem ?_ hdrawn
      intro x y hx hy hxy b hb c hc
      obtain ⟨hserves, hm⟩ := hkept.mem hx
      obtain ⟨hserves', hm'⟩ := hkept.mem hy
      obtain ⟨hpos, xs, hxs⟩ := exists_draws hl hserves hm hb
      obtain ⟨hpos', ys, hys⟩ := exists_draws hl hserves' hm' hc
      have hown := ((fits_iff_own hl hserves hm hb).mp (hfits x hx)).2 xs hxs
      have hown' := ((fits_iff_own hl hserves' hm' hc).mp (hfits y hy)).2 ys hys
      apply Decidable.byContradiction
      intro hmeet
      -- an address of both buffers would lie in a frame of both calls
      have hboth : ∃ p, (b.phys ≤ p ∧ p < b.phys + b.size) ∧ c.phys ≤ p ∧ p < c.phys + c.size := by
        simp only [Span.Apart, Span.stop, span, not_or, Nat.not_le] at hmeet
        exact ⟨max b.phys c.phys, by omega⟩
      obtain ⟨p, hp, hp'⟩ := hboth
      exact hxy xs ys hxs hys (frameOf p) (hown p hp.1 hp.2) (hown' p hp'.1 hp'.2)
    · intro x hx hout frames hd f hf
      obtain ⟨hserves, hm⟩ := hkept.mem hx
      rw [(fits_iff_none hl hserves hm hout).mp (hfits x hx) frames hd] at hf
      cases hf

end Draws

/-- Two pages above 32 MiB, and three pages behind a gap of one. -/
def gapMap : BootInfoFrameAllocator :=
  ⟨[⟨0x2000000, 0x2002000, .usable⟩, ⟨0x2003000, 0x2006000, .usable⟩], 0⟩

theorem pageMap_gapMap : PageMap gapMap := ⟨by decide, pairwise_pair (by decide)⟩

/-- A request for some pages. -/
def pagesRequest (k : Nat) (h : 1 ≤ k * 4096) : DmaRequest := ⟨k * 4096, 4096, h, 12, rfl⟩

theorem exclusive_iff_twoCalls :
    ∃ t g, @Run _ _ _ (@Serves frames4K ⟨0⟩) (some gapMap) t g ∧
      t.map Call.output = [some ⟨0x2000000, 0x2000000, 8192⟩, some ⟨0x2003000, 0x2003000, 4096⟩] ∧
      @Exclusive frames4K t := by
  have hfirst : @Serves frames4K ⟨0⟩ ⟨some gapMap, pagesRequest 2 (by decide),
      some ⟨0x2000000, 0x2000000, 8192⟩, some (gapMap.advance 2)⟩ :=
    show @alloc frames4K ⟨0⟩ 8192 4096 (some gapMap) =
      (.ok ⟨0x2000000, 0x2000000, 8192⟩, some (gapMap.advance 2)) by decide
  have hsecond : @Serves frames4K ⟨0⟩ ⟨some (gapMap.advance 2), pagesRequest 1 (by decide),
      some ⟨0x2003000, 0x2003000, 4096⟩, some (gapMap.advance 3)⟩ :=
    show @alloc frames4K ⟨0⟩ 4096 4096 (some (gapMap.advance 2)) =
      (.ok ⟨0x2003000, 0x2003000, 4096⟩, some (gapMap.advance 3)) by decide
  have hrun := Run.cons hfirst (Run.cons hsecond (.nil _))
  have hmap : ∀ a, some gapMap = some a → PageMap a := by
    intro a ha
    rw [← Option.some.inj ha]
    exact pageMap_gapMap
  refine ⟨_, _, hrun, rfl, (@exclusive_iff frames4K frames4K_lawful _ _ _ hmap _ hrun).mpr ?_⟩
  intro x hx a ha
  right
  rcases List.mem_cons.mp hx with rfl | hx
  · obtain rfl := Option.some.inj ha
    refine ⟨by decide, ?_⟩
    intro f hf
    obtain rfl : 0x2000000 = f := Option.some.inj hf
    exact ⟨by decide, by decide⟩
  · rw [List.mem_singleton.mp hx] at ha ⊢
    obtain rfl := Option.some.inj ha
    refine ⟨by decide, ?_⟩
    intro f hf
    obtain rfl : 0x2003000 = f := Option.some.inj hf
    exact ⟨by decide, by decide⟩

/-- A request for three pages takes two before the gap and one behind it. -/
theorem not_exclusive_gap :
    ∃ t g, @Run _ _ _ (@Serves frames4K ⟨0⟩) (some gapMap) t g ∧ PageMap gapMap ∧
      ¬@Exclusive frames4K t := by
  have hcall : @Serves frames4K ⟨0⟩ ⟨some gapMap, pagesRequest 3 (by decide),
      some ⟨0x2000000, 0x2000000, 12288⟩, some (gapMap.advance 3)⟩ :=
    show @alloc frames4K ⟨0⟩ 12288 4096 (some gapMap) =
      (.ok ⟨0x2000000, 0x2000000, 12288⟩, some (gapMap.advance 3)) by decide
  refine ⟨_, _, Run.cons hcall (.nil _), pageMap_gapMap, ?_⟩
  intro hex
  obtain ⟨u, s, hrun, hlen⟩ := @exists_run frames4K frames4K_lawful gapMap 3 (by decide)
  have hend := @run_advance frames4K frames4K_lawful _ _ _ hrun
  have hframes := (@run_allocates frames4K frames4K_lawful _ _ _ hrun).1
  rw [hlen] at hend hframes
  have hin := @Exclusive.own frames4K _ hex _ List.mem_cons_self _ rfl _
    ⟨gapMap, u, s, rfl, by rw [hend], hrun, rfl⟩ 0x2002000 (by decide) (by decide)
  rw [hframes] at hin
  revert hin
  decide

end SmallOs.Kernel.KernelDmaAllocator
