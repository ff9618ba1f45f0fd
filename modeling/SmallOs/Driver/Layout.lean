import SmallOs.Driver.VirtioRuns

/-!
# Where a request lies in its page

`lib/driver/src/block/virtio/mod.rs:279–388`: header, data and status byte at fixed offsets of
`dma_buf`. The data starts at 512 and the status byte is at 1024, so that a second sector runs
over it.
-/

namespace SmallOs.Driver.Virtio

open SmallOs.Base SmallOs.Hal

/-- The size of `dma_buf`; `lib/driver/src/block/virtio/mod.rs:205`. -/
def dmaBytes : Nat := 4096

/-- The buffers of the two descriptors have no byte in common. -/
def Apart (d e : VirtqDesc) : Prop := d.addr + d.len ≤ e.addr ∨ e.addr + e.len ≤ d.addr

/-- The bytes that a call copies between the caller's buffer and offset 512;
`lib/driver/src/block/virtio/mod.rs:308–312` and `324–328`. -/
def copied : BlkCall → Nat
  | .readSectors _ buf => min buf.length ((buf.length + 511) / 512 * 512)
  | .writeSectors _ buf => buf.length

theorem copied_eq (c : BlkCall) : copied c = c.buf.length := by
  cases c with
  | readSectors lba buf =>
    simp only [copied, BlkCall.buf]
    omega
  | writeSectors lba buf => rfl

/-- The three buffers of a call lie apart and inside the page, and so does the copy; a read that
the device has served returns the data that it stored. -/
structure WellLaid (c : BlkCall) : Prop where
  apart : c.descriptors.Pairwise Apart
  inside : ∀ d ∈ c.descriptors, d.addr + d.len ≤ dmaBytes
  copy : 512 + copied c ≤ dmaBytes
  returned : c.isWrite = false → ∀ s s' data status, (∀ i, s.ring i = 0) → Laid s c →
    s.serve data status = some s' → c.copyBack s'.dma = data.take c.buf.length

section Layout

variable {c : BlkCall}

/-- The data lies apart from the status byte as long as it is one sector at most. -/
theorem pairwise_descriptors :
    c.descriptors.Pairwise Apart ↔ virtioBytes c.buf.length ≤ 512 := by
  simp only [BlkCall.descriptors, List.pairwise_cons, List.mem_cons, List.not_mem_nil, Apart,
    or_false, forall_eq_or_imp, forall_eq, false_imp_iff, implies_true, List.Pairwise.nil,
    and_true]
  omega

theorem virtioBytes_le {len : Nat} (h : len ≤ 512) : virtioBytes len ≤ 512 := by
  rw [virtioBytes]
  omega

/-- Data of one sector ends in front of the status byte, which leaves it as the device stored
it. -/
theorem copyBack_serve {s s' : State} {data : List UInt8} {status : UInt8}
    (hread : c.isWrite = false) (hlen : c.buf.length ≤ 512) (hring : ∀ i, s.ring i = 0)
    (hlaid : Laid s c) (h : s.serve data status = some s') :
    c.copyBack s'.dma = data.take c.buf.length := by
  obtain ⟨hdata, rfl⟩ := serve_eq_some hring hlaid h
  rw [hread] at hdata
  have hbytes : data.length = virtioBytes c.buf.length := hdata
  have hle := virtioBytes_le hlen
  have hfits : c.buf.length ≤ data.length := by
    rw [hbytes]
    exact le_virtioBytes (Nat.le_trans hlen (by decide))
  rw [copyBack_readSectors hread]
  change ((s.dma.store 512 data).store 1024 [status]).load 512 c.buf.length = _
  rw [Memory.load_store_disjoint _ (.inl (by omega)), Memory.load_store_take _ _ _ hfits]

end Layout

/-- The layout of a call is sound exactly when its buffer is one sector at most. -/
theorem wellLaid_iff (c : BlkCall) : WellLaid c ↔ c.buf.length ≤ 512 := by
  constructor
  · intro h
    have hbytes := pairwise_descriptors.mp h.apart
    have hcopy := h.copy
    rw [copied_eq, dmaBytes] at hcopy
    have hle : c.buf.length ≤ virtioBytes c.buf.length := le_virtioBytes (by omega)
    omega
  · intro h
    have hbytes := virtioBytes_le h
    constructor
    · exact pairwise_descriptors.mpr hbytes
    · simp only [BlkCall.descriptors, List.mem_cons, List.not_mem_nil, or_false, forall_eq_or_imp,
        forall_eq, dmaBytes]
      omega
    · rw [copied_eq, dmaBytes]
      omega
    · intro hread s s' data status hring hlaid hserve
      exact copyBack_serve hread h hring hlaid hserve

/-- A read of an MFT record of 1024 bytes. -/
def recordRead : BlkCall := .readSectors 0 (List.replicate 1024 0)

/-- The driver has published the read of a record. -/
def recordPublished : State :=
  { init (fun _ ↦ 0) 64 with
    phase := .published recordRead 0
    dma := recordRead.fill fun _ ↦ 0
    desc := recordRead.descriptors
    availIdx := 1
    published := 1 }

/-- The status byte of a served record lies on the first byte of its second sector, and the
caller gets it in place of the device's data. -/
theorem not_wellLaid_recordRead : ¬WellLaid recordRead ∧
    ∃ s', recordPublished.serve (List.replicate 1024 7) 0 = some s' ∧
      recordRead.copyBack s'.dma ≠ List.replicate 1024 7 := by
  have hlength : recordRead.buf.length = 1024 := List.length_replicate
  have hapart : ¬recordRead.descriptors.Pairwise Apart := by
    rw [pairwise_descriptors, hlength]
    decide
  have hlaid : Laid recordPublished recordRead :=
    have h := laid_fill (init (fun _ ↦ 0) 64) recordRead
    ⟨h.desc, h.header, h.data⟩
  obtain ⟨s', hs'⟩ : ∃ s', recordPublished.serve (List.replicate 1024 7) 0 = some s' :=
    Option.isSome_iff_exists.mp (by decide +kernel)
  refine ⟨fun h ↦ hapart h.apart, s', hs', ?_⟩
  have hdma : s'.dma = (recordPublished.dma.store 512 (List.replicate 1024 7)).store 1024 [0] :=
    congrArg State.dma (serve_eq_some (fun _ ↦ rfl) hlaid hs').2
  rw [copyBack_readSectors rfl, hdma, hlength]
  intro heq
  have hstatus : (recordPublished.dma.store 512 (List.replicate 1024 7)).store 1024 [0]
      (512 + 512) = 0 := Memory.store_inside _ 1024 [0] 0 (by decide)
  have hbyte := congrArg (·[512]?) heq
  simp only [Memory.getElem?_load, hstatus, List.getElem?_replicate] at hbyte
  exact absurd hbyte (by decide)

end SmallOs.Driver.Virtio
