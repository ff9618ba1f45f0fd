import SmallOs.Driver.Virtqueue

/-!
# Runs of the virtio driver

The wait loop only asks whether `used.idx` is zero, and nothing looks at the status byte. A call
gets what it asked for in runs that enter the loop with an index of zero, or with nothing left to
serve.
-/

namespace SmallOs.Driver.Virtio

open SmallOs.Base SmallOs.Hal

/-! ### What a call lays into memory -/

theorem length_header (c : BlkCall) : c.header.length = 16 := by
  simp only [BlkCall.header, List.length_append, length_leBytes]

/-- The device finds the request of the call in its header. -/
theorem request_header (c : BlkCall) (len : Nat) :
    (⟨leAt c.header 0 4 = 1, leAt c.header 8 8, len⟩ : Request) =
      ⟨c.isWrite, c.lba.toNat, len⟩ := by
  have htype : leAt c.header 0 4 = if c.isWrite then 1 else 0 := by
    rw [BlkCall.header, leAt_append_left _ _ _ _ (Nat.le_of_eq (length_leBytes 4 _).symm), leAt,
      slice, List.drop_zero, List.take_of_length_le (Nat.le_of_eq (length_leBytes 4 _)),
      leNat_leBytes]
    cases c.isWrite <;> rfl
  have hsector : leAt c.header 8 8 = c.lba.toNat := by
    rw [BlkCall.header, leAt, slice_append_right _ _ _ _ (by rw [length_leBytes]; decide),
      slice_append_right _ _ _ _ (by simp only [length_leBytes]; decide)]
    simp only [length_leBytes, Nat.reduceSub]
    rw [slice, List.drop_zero, List.take_of_length_le (Nat.le_of_eq (length_leBytes 8 _)),
      leNat_leBytes_of_lt c.lba.toNat_lt]
  rw [htype, hsector]
  cases c.isWrite <;> rfl

/-- The memory holds the request of a call and, for a write, its data. -/
structure Laid (s : State) (c : BlkCall) : Prop where
  desc : s.desc = c.descriptors
  header : s.dma.load 0 16 = c.header
  data : c.isWrite = true → s.dma.load 512 c.buf.length = c.buf

theorem laid_fill (s : State) (c : BlkCall) :
    Laid { s with phase := .prepared c, dma := c.fill s.dma, desc := c.descriptors } c := by
  have hlen := length_header c
  refine ⟨rfl, ?_, ?_⟩
  · cases c with
    | readSectors lba buf => exact hlen ▸ Memory.load_store_same s.dma 0 _
    | writeSectors lba buf => exact hlen ▸ Memory.load_store_same (s.dma.store 512 buf) 0 _
  · intro hw
    cases c with
    | readSectors lba buf => cases hw
    | writeSectors lba buf =>
      have hbefore : 0 + (BlkCall.writeSectors lba buf).header.length ≤ 512 := by
        rw [hlen]
        decide
      exact (Memory.load_store_disjoint _ (Or.inr hbefore)).trans
        (Memory.load_store_same s.dma 512 buf)

/-! ### The invariant -/

/-- The call's chain is published and not served. -/
structure Open (s : State) (c : BlkCall) (n : Nat) : Prop where
  published : s.published = n + 1
  completions : s.completions.length = n
  laid : Laid s c
  fits : c.buf.length ≤ 3584

/-- The call's chain is served, and memory holds what the device did. -/
structure Done (s : State) (c : BlkCall) (n : Nat) : Prop where
  published : s.published = n + 1
  completions : s.completions.length = n + 1
  completion : ∃ done, s.completions[n]? = some done ∧ done.request = c.request ∧
    done.status = 0 ∧ (c.isWrite = true → done.data.take c.buf.length = c.buf) ∧
    (c.isWrite = false → s.dma.load 512 c.buf.length = done.data.take c.buf.length)

/-- What is known of the call that the driver is in. -/
def InPhase (s : State) : Prop :=
  match s.phase with
  | .idle => s.completions.length = s.published
  | .prepared c => s.completions.length = s.published ∧ Laid s c ∧ c.buf.length ≤ 3584
  | .published c n => Open s c n ∨ Done s c n
  | .waiting c n => Open s c n ∧ s.usedIdx = 0 ∨ Done s c n

/-- The indices count the publications and the completions, and at most one chain is open. -/
structure Inv (s : State) : Prop where
  availIdx : s.availIdx = s.published % 2 ^ 16
  usedIdx : s.usedIdx = s.completions.length % 2 ^ 16
  ring : ∀ i, s.ring i = 0
  inPhase : InPhase s

/-- The turns of a run in which the defects are not reached: the data fits its page, the wait
loop is entered with an index of zero or with nothing left to serve, and the device reports no
error and lays no data under its status byte. -/
def Meets (x : Call State Event (Option Returned)) : Prop :=
  match x.input with
  | .call c => c.buf.length ≤ 3584
  | .notify => x.before.usedIdx = 0 ∨ x.before.Quiet
  | .serve data status => status = 0 ∧ data.getD 512 0 = 0
  | .publish | .ret => True

theorem inv_init (dma : Memory) (queueSize : Nat) : Inv (init dma queueSize) :=
  ⟨rfl, rfl, fun _ ↦ rfl, rfl⟩

/-- With every chain served there is no turn of the device. -/
theorem serve_of_quiet {s : State} (h : s.Quiet) (data : List UInt8) (status : UInt8) :
    s.serve data status = none := by
  rw [State.serve]
  exact if_pos (Or.inl h)

theorem Inv.quiet {s : State} (h : Inv s) (hp : s.completions.length = s.published) : s.Quiet := by
  rw [State.Quiet, h.availIdx, h.usedIdx, hp]

theorem Inv.not_quiet {s : State} (h : Inv s) {c : BlkCall} {n : Nat} (ho : Open s c n) :
    ¬ s.Quiet := by
  rw [State.Quiet, h.availIdx, h.usedIdx, ho.published, ho.completions]
  omega

/-! ### The device's turn -/

/-- What the device does for a call that lies in memory. -/
theorem serve_eq_some {s s' : State} {c : BlkCall} {data : List UInt8} {status : UInt8}
    (hr : ∀ i, s.ring i = 0) (hl : Laid s c) (h : s.serve data status = some s') :
    data.length = (if c.isWrite then 0 else virtioBytes c.buf.length) ∧
      s' = { s with
        dma := (s.dma.store 512 data).store 1024 [status]
        usedIdx := (s.usedIdx + 1) % 2 ^ 16
        completions := s.completions ++ [⟨c.request,
          if c.isWrite then s.dma.load 512 (virtioBytes c.buf.length) else data, status⟩] } := by
  have hchain : chainFrom s.desc (s.ring (s.usedIdx % s.queueSize)) =
      (⟨0, 16, 1, 1⟩, ⟨512, virtioBytes c.buf.length, (if c.isWrite then 0 else 2) ||| 1, 2⟩,
        ⟨1024, 1, 2, 0⟩) := by
    rw [hr, hl.desc]
    rfl
  have hwritable : VirtqDesc.writable
      ⟨512, virtioBytes c.buf.length, (if c.isWrite then 0 else 2) ||| 1, 2⟩ = !c.isWrite := by
    have hflags : ∀ w : Bool, decide (((if w then 0 else 2) ||| 1) / 2 % 2 = 1) = !w := by decide
    exact hflags c.isWrite
  simp only [State.serve, hchain, hl.header, request_header, hwritable] at h
  by_cases hno : s.Quiet ∨
      data.length ≠ if (!c.isWrite) = true then virtioBytes c.buf.length else 0
  · rw [if_pos hno] at h
    cases h
  · rw [if_neg hno] at h
    obtain ⟨-, hlen⟩ := not_or.mp hno
    obtain rfl := Option.some.inj h
    cases hw : c.isWrite with
    | true =>
      rw [hw] at hlen
      exact ⟨Decidable.not_not.mp hlen, by rw [BlkCall.request, hw]; rfl⟩
    | false =>
      rw [hw] at hlen
      exact ⟨Decidable.not_not.mp hlen, by rw [BlkCall.request, hw]; rfl⟩

/-- Data that fits the page is not cut by the width of a descriptor. -/
theorem le_virtioBytes {len : Nat} (h : len ≤ 3584) : len ≤ virtioBytes len := by
  rw [virtioBytes, Nat.mod_eq_of_lt (by omega)]
  omega

/-- The status byte leaves data alone that has a zero under it. -/
theorem load_under_status (m : Memory) {data : List UInt8} {len : Nat} (hlen : len ≤ data.length)
    (h : data.getD 512 0 = 0) :
    ((m.store 512 data).store 1024 [0]).load 512 len = data.take len := by
  rw [← Memory.load_store_take m 512 data hlen]
  apply Memory.load_congr
  intro p hp₁ hp₂
  by_cases hp : p = 1024
  · subst hp
    have hi : 512 < data.length := by omega
    have hover := Memory.store_inside (m.store 512 data) 1024 [0] 0 (by decide)
    have hunder := Memory.store_inside m 512 data 512 hi
    rw [List.getD_eq_getElem?_getD, List.getElem?_eq_getElem hi, Option.getD_some] at h
    exact hover.trans (h.symm.trans hunder.symm)
  · exact Memory.store_outside _ (by simp only [List.length_cons, List.length_nil]; omega)

/-- The device's turn completes the open call. -/
theorem done_of_serve {s s' : State} {c : BlkCall} {n : Nat} {data : List UInt8} {status : UInt8}
    (hr : ∀ i, s.ring i = 0) (ho : Open s c n) (hm : status = 0 ∧ data.getD 512 0 = 0)
    (h : s.serve data status = some s') : Done s' c n := by
  obtain ⟨hlen, rfl⟩ := serve_eq_some hr ho.laid h
  obtain ⟨rfl, hzero⟩ := hm
  have hfits := le_virtioBytes ho.fits
  refine ⟨ho.published, ?_, ⟨c.request,
    if c.isWrite then s.dma.load 512 (virtioBytes c.buf.length) else data, 0⟩, ?_, rfl, rfl, ?_, ?_⟩
  · rw [List.length_append, ho.completions]
    rfl
  · rw [← ho.completions, List.getElem?_concat_length]
  · intro hw
    simp only [hw, if_true]
    rw [Memory.take_load _ _ hfits, ho.laid.data hw]
  · intro hw
    rw [hw] at hlen
    simp only [hw, Bool.false_eq_true, if_false]
    exact load_under_status s.dma (by rw [hlen]; exact hfits) hzero

/-- The completion of the open call keeps the invariant. -/
theorem Inv.serve_open {s s' : State} {c : BlkCall} {n : Nat} {data : List UInt8} {status : UInt8}
    (hi : Inv s) (hm : status = 0 ∧ data.getD 512 0 = 0) (ho : Open s c n)
    (hp : s.phase = .published c n ∨ s.phase = .waiting c n)
    (h : s.serve data status = some s') : Inv s' := by
  have hd := done_of_serve hi.ring ho hm h
  have hused : s'.usedIdx = s'.completions.length % 2 ^ 16 := by
    rw [hd.completions, ← ho.completions, (serve_eq_some hi.ring ho.laid h).2]
    change (s.usedIdx + 1) % 2 ^ 16 = _
    rw [hi.usedIdx, Nat.mod_add_mod]
  have hphase : InPhase s' := by
    have hkept : s'.phase = s.phase := by rw [(serve_eq_some hi.ring ho.laid h).2]
    unfold InPhase
    rcases hp with hp | hp
    · rw [hkept, hp]
      exact Or.inr hd
    · rw [hkept, hp]
      exact Or.inr hd
  obtain ⟨-, rfl⟩ := serve_eq_some hi.ring ho.laid h
  exact ⟨hi.availIdx, hused, hi.ring, hphase⟩

/-- A turn of the device keeps the invariant: there is none but the completion of an open call. -/
theorem Inv.serve {s s' : State} {data : List UInt8} {status : UInt8} (hi : Inv s)
    (hm : status = 0 ∧ data.getD 512 0 = 0) (h : s.serve data status = some s') : Inv s' := by
  have hbusy : ¬ s.Quiet := fun hq ↦ by
    rw [serve_of_quiet hq] at h
    cases h
  have hphase := hi.inPhase
  unfold InPhase at hphase
  cases hs : s.phase with
  | idle =>
    rw [hs] at hphase
    exact absurd (hi.quiet hphase) hbusy
  | prepared c =>
    rw [hs] at hphase
    exact absurd (hi.quiet hphase.1) hbusy
  | published c n =>
    rw [hs] at hphase
    rcases hphase with ho | hd
    · exact hi.serve_open hm ho (Or.inl hs) h
    · exact absurd (hi.quiet (hd.completions.trans hd.published.symm)) hbusy
  | waiting c n =>
    rw [hs] at hphase
    rcases hphase with ⟨ho, -⟩ | hd
    · exact hi.serve_open hm ho (Or.inr hs) h
    · exact absurd (hi.quiet (hd.completions.trans hd.published.symm)) hbusy

/-! ### The driver's turns -/

/-- Every turn that meets the conditions keeps the invariant. -/
theorem Inv.step {x : Call State Event (Option Returned)} (hx : Turn x) (hm : Meets x)
    (hi : Inv x.before) : Inv x.after := by
  obtain ⟨s, e, o, s'⟩ := x
  simp only [Turn, Meets, State.step] at hx hm hi ⊢
  have hphase := hi.inPhase
  unfold InPhase at hphase
  cases e with
  | call c =>
    cases hs : s.phase with
    | idle =>
      simp only [hs, Option.some.injEq, Prod.mk.injEq] at hx hphase
      obtain ⟨-, rfl⟩ := hx
      exact ⟨hi.availIdx, hi.usedIdx, hi.ring, hphase, laid_fill s c, hm⟩
    | prepared | published | waiting => simp only [hs, reduceCtorEq] at hx
  | publish =>
    cases hs : s.phase with
    | prepared c =>
      simp only [hs, Option.some.injEq, Prod.mk.injEq] at hx hphase
      obtain ⟨-, rfl⟩ := hx
      obtain ⟨hcount, hlaid, hfits⟩ := hphase
      refine ⟨?_, hi.usedIdx, ?_,
        Or.inl ⟨rfl, hcount, ⟨hlaid.desc, hlaid.header, hlaid.data⟩, hfits⟩⟩
      · change (s.availIdx + 1) % 2 ^ 16 = (s.published + 1) % 2 ^ 16
        rw [hi.availIdx, Nat.mod_add_mod]
      · intro i
        by_cases hslot : i = s.availIdx % s.queueSize
        · exact if_pos hslot
        · exact (if_neg hslot).trans (hi.ring i)
    | idle | published | waiting => simp only [hs, reduceCtorEq] at hx
  | notify =>
    cases hs : s.phase with
    | published c n =>
      simp only [hs, Option.some.injEq, Prod.mk.injEq] at hx hphase
      obtain ⟨-, rfl⟩ := hx
      refine ⟨hi.availIdx, hi.usedIdx, hi.ring, ?_⟩
      rcases hphase with ho | hd
      · have hzero := hm.resolve_right (hi.not_quiet ho)
        exact Or.inl ⟨⟨ho.published, ho.completions,
          ⟨ho.laid.desc, ho.laid.header, ho.laid.data⟩, ho.fits⟩, hzero⟩
      · exact Or.inr ⟨hd.published, hd.completions, hd.completion⟩
    | idle | prepared | waiting => simp only [hs, reduceCtorEq] at hx
  | ret =>
    cases hs : s.phase with
    | waiting c n =>
      simp only [hs] at hx hphase
      by_cases hzero : s.usedIdx = 0
      · rw [if_pos hzero] at hx
        cases hx
      · rw [if_neg hzero] at hx
        simp only [Option.some.injEq, Prod.mk.injEq] at hx
        obtain ⟨-, rfl⟩ := hx
        rcases hphase with ⟨-, hz⟩ | hd
        · exact absurd hz hzero
        · exact ⟨hi.availIdx, hi.usedIdx, hi.ring, hd.completions.trans hd.published.symm⟩
    | idle | prepared | published => simp only [hs, reduceCtorEq] at hx
  | serve data status =>
    obtain ⟨t, ht, heq⟩ := Option.map_eq_some_iff.mp hx
    obtain ⟨-, rfl⟩ := Prod.mk.inj heq
    exact hi.serve hm ht

/-- A call whose buffer fits gets the data area back, over its whole buffer. -/
theorem copyBack_readSectors {c : BlkCall} (hr : c.isWrite = false) (dma : Memory) :
    c.copyBack dma = dma.load 512 c.buf.length := by
  cases c with
  | writeSectors lba buf => cases hr
  | readSectors lba buf =>
    have hmin : min buf.length ((buf.length + 511) / 512 * 512) = buf.length := by omega
    rw [BlkCall.copyBack, hmin, copyFront, List.drop_length, List.append_nil]
    rfl

/-- Only leaving the wait loop ends a call, and it takes an index that is not zero. -/
theorem step_returned {s s' : State} {e : Event} {r : Returned}
    (h : s.step e = some (some r, s')) : ∃ c n, s.phase = .waiting c n ∧ s.usedIdx ≠ 0 ∧
      r = ⟨c, n, .ok (c.copyBack s.dma)⟩ := by
  unfold State.step at h
  split at h
  · simp only [Option.some.injEq, Prod.mk.injEq, reduceCtorEq, false_and] at h
  · simp only [Option.some.injEq, Prod.mk.injEq, reduceCtorEq, false_and] at h
  · simp only [Option.some.injEq, Prod.mk.injEq, reduceCtorEq, false_and] at h
  · next c n hp =>
    by_cases hzero : s.usedIdx = 0
    · rw [if_pos hzero] at h
      cases h
    · rw [if_neg hzero] at h
      simp only [Option.some.injEq, Prod.mk.injEq] at h
      exact ⟨c, n, hp, hzero, h.1.symm⟩
  · obtain ⟨t, -, heq⟩ := Option.map_eq_some_iff.mp h
    cases heq
  · cases h

/-- In a state of the invariant, a call returns with its own data. -/
theorem Inv.ownData {x : Call State Event (Option Returned)} (hx : Turn x) (hi : Inv x.before) :
    OwnData x := by
  intro r hr
  rw [Turn, hr] at hx
  obtain ⟨c, n, hp, hused, rfl⟩ := step_returned hx
  have hphase := hi.inPhase
  rw [InPhase, hp] at hphase
  rcases hphase with ⟨-, hzero⟩ | hd
  · exact absurd hzero hused
  · obtain ⟨done, hdone, hrequest, hstatus, hwrite, hread⟩ := hd.completion
    refine ⟨done, hdone, hrequest, hwrite, ?_⟩
    rintro buf ⟨⟩
    exact ⟨hstatus, fun hw ↦ (copyBack_readSectors hw _).trans (hread hw)⟩

/-- In a run whose turns meet the conditions, every call returns with its own data: whatever the
calls are, however many, and whenever the device gets its turns. -/
theorem run_ownData {dma : Memory} {queueSize : Nat} {t : List (Call State Event (Option Returned))}
    {s : State} (h : Run Turn (init dma queueSize) t s) (hm : ∀ x ∈ t, Meets x) :
    ∀ x ∈ t, OwnData x := by
  have hrun := h.restrict hm
  have hinv := (hrun.invariant (I := Inv) (fun x hx ↦ Inv.step hx.1 hx.2)
    (inv_init dma queueSize)).2
  intro x hx
  exact Inv.ownData (h.mem hx) (hinv x hx).1

/-- Where the loop is entered otherwise, the driver can leave it before its chain is served. -/
theorem ret_early {s : State} {c : BlkCall} {n : Nat} (hp : s.phase = .waiting c n)
    (hused : s.usedIdx ≠ 0) (hopen : s.completions.length ≤ n) :
    ∃ x : Call State Event (Option Returned), x.before = s ∧ Turn x ∧ ¬ OwnData x := by
  refine ⟨⟨s, .ret, some ⟨c, n, .ok (c.copyBack s.dma)⟩, { s with phase := .idle }⟩, rfl, ?_, ?_⟩
  · simp only [Turn, State.step, hp, if_neg hused]
  · intro hown
    obtain ⟨done, hdone, -⟩ := hown _ rfl
    have hlt := (List.getElem?_eq_some_iff.mp hdone).1
    exact absurd hlt (Nat.not_lt.mpr hopen)

instance : (x : Call State Event (Option Returned)) → Decidable (Meets x)
  | ⟨_, .call c, _, _⟩ => inferInstanceAs (Decidable (c.buf.length ≤ 3584))
  | ⟨s, .notify, _, _⟩ => inferInstanceAs (Decidable (s.usedIdx = 0 ∨ s.Quiet))
  | ⟨_, .serve data status, _, _⟩ =>
    inferInstanceAs (Decidable (status = 0 ∧ data.getD 512 0 = 0))
  | ⟨_, .publish, _, _⟩ | ⟨_, .ret, _, _⟩ => inferInstanceAs (Decidable True)

/-- The run of one read that the device serves at once. -/
def oneRead : List Event :=
  [.call (.readSectors 0 [0]), .publish, .notify, .serve (List.replicate 512 7) 0, .ret]

theorem run_ownData_oneRead : ∃ t s, trace State.step (init (fun _ ↦ 0) 64) oneRead = some (t, s) ∧
    t.length = 5 ∧ ∀ x ∈ t, OwnData x := by
  obtain ⟨⟨t, s⟩, htrace⟩ : ∃ p, trace State.step (init (fun _ ↦ 0) 64) oneRead = some p :=
    Option.isSome_iff_exists.mp (by decide +kernel)
  have hlen : (trace State.step (init (fun _ ↦ 0) 64) oneRead).map (fun p ↦ p.1.length) =
      some 5 := by decide +kernel
  have hmeets : ((trace State.step (init (fun _ ↦ 0) 64) oneRead).map fun p ↦
      p.1.all fun x ↦ Meets x) = some true := by decide +kernel
  rw [htrace] at hlen hmeets
  refine ⟨t, s, htrace, Option.some.inj hlen, run_ownData (run_trace htrace) ?_⟩
  intro x hx
  exact of_decide_eq_true (List.all_eq_true.mp (Option.some.inj hmeets) x hx)

/-- Two reads, the second of which the device never gets to. -/
def twoReads : List Event :=
  oneRead ++ [.call (.readSectors 1 [0]), .publish, .notify, .ret]

/-- The second read returns with the data of the first. -/
theorem not_ownData_twoReads : ∃ t s, Run Turn (init (fun _ ↦ 0) 64) t s ∧
    ¬ ∀ x ∈ t, OwnData x := by
  obtain ⟨⟨t, s⟩, htrace⟩ : ∃ p, trace State.step (init (fun _ ↦ 0) 64) twoReads = some p :=
    Option.isSome_iff_exists.mp (by decide +kernel)
  have hlate : ((trace State.step (init (fun _ ↦ 0) 64) twoReads).map fun p ↦
      p.1.any fun x ↦ x.output.any fun r ↦ x.before.completions.length ≤ r.number) =
      some true := by decide +kernel
  rw [htrace] at hlate
  refine ⟨t, s, run_trace htrace, ?_⟩
  intro hown
  obtain ⟨x, hx, hr⟩ := List.any_eq_true.mp (Option.some.inj hlate)
  cases hout : x.output with
  | none =>
    rw [hout, Option.any_none] at hr
    cases hr
  | some r =>
    rw [hout, Option.any_some] at hr
    obtain ⟨done, hdone, -⟩ := hown x hx r hout
    have hlt := (List.getElem?_eq_some_iff.mp hdone).1
    exact absurd hlt (Nat.not_lt.mpr (of_decide_eq_true hr))

end SmallOs.Driver.Virtio
