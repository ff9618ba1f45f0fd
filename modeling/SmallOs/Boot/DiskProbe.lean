import SmallOs.Base.Bytes

/-!
# The boot loader's disk probe

`bootloader/stage3/src/disk_probe.c`. The packed structures that the C code lays over a sector
are reads of little-endian words at their offsets; an access outside of a buffer and a division
by zero have no meaning in C and are panics here. The static buffers are passed along.
-/

namespace SmallOs.Boot

open SmallOs.Base

/-- `ReadSectorFn`: the sector number and the buffer, which comes back changed or as it was. -/
abbrev ReadSectorFn := Nat → List UInt8 → List UInt8

/-- `bootloader/stage3/src/disk_probe.h:76–82`. -/
inductive ProbeResult where
  | noDisk
  | noTable
  | noNtfs
  | noKernel
  | found
  deriving DecidableEq, Repr

/-- `bootloader/stage3/src/disk_probe.h:84–87`. -/
structure DiskProbe where
  result : ProbeResult
  ntfsLba : Nat
  deriving DecidableEq, Repr

/-- What the buffers hold when the probe starts. -/
structure Buffers where
  gSector : List UInt8
  gGptSector : List UInt8
  entryBuf : List UInt8

/-- `"NTFS    "`. -/
def ntfsSig : List UInt8 := [0x4E, 0x54, 0x46, 0x53, 0x20, 0x20, 0x20, 0x20]

/-- `"KERNEL.ELF"` in UTF-16LE; `bootloader/stage3/src/disk_probe.c:39–42`. -/
def kernelU16 : List UInt8 :=
  [0x4B, 0, 0x45, 0, 0x52, 0, 0x4E, 0, 0x45, 0, 0x4C, 0, 0x2E, 0, 0x45, 0, 0x4C, 0, 0x46, 0]

/-- `bootloader/stage3/src/disk_probe.c:108–114`. -/
def basicDataGuid : List UInt8 :=
  [0xA2, 0xA0, 0xD0, 0xEB, 0xE5, 0xB9, 0x33, 0x44, 0x87, 0xC0, 0x68, 0xB6, 0xB7, 0x26, 0x99, 0xC7]

/-- `bootloader/stage3/src/disk_probe.c:15–23`; the sector stays in the buffer. -/
def isNtfsBoot (fn : ReadSectorFn) (partLba : Nat) (gSector : List UInt8) :
    Bool × List UInt8 :=
  let gSector := fn partLba gSector
  (slice gSector 3 8 = ntfsSig, gSector)

/-- The search of one sector; `bootloader/stage3/src/disk_probe.c:48–62`. -/
def sectorHasKernel (gSector : List UInt8) : Bool :=
  (List.range (512 - kernelU16.length + 1)).any fun i ↦ slice gSector i kernelU16.length = kernelU16

/-- The scan of the given sectors of a partition; the sector number wraps. -/
def scanKernel (fn : ReadSectorFn) (partLba : Nat) : List Nat → List UInt8 → Bool
  | [], _ => false
  | s :: sectors, gSector =>
    let gSector := fn ((partLba + s) % 2 ^ 64) gSector
    sectorHasKernel gSector || scanKernel fn partLba sectors gSector

/-- `bootloader/stage3/src/disk_probe.c:37–65`. -/
def ntfsHasKernel (fn : ReadSectorFn) (partLba : Nat) (gSector : List UInt8) : Bool :=
  scanKernel fn partLba (List.range 512) gSector

/-- The result for a partition that carries the signature. -/
def probePartition (fn : ReadSectorFn) (lba : Nat) (gSector : List UInt8) : DiskProbe where
  result := if ntfsHasKernel fn lba gSector then .found else .noKernel
  ntfsLba := lba

/-- The loop of `probe_mbr` over the given table slots; `bootloader/stage3/src/disk_probe.c:76–97`.
The table lies in the buffer that `is_ntfs_boot` reads into. -/
def scanMbr (fn : ReadSectorFn) : List Nat → List UInt8 → DiskProbe
  | [], _ => ⟨.noNtfs, 0⟩
  | i :: slots, gSector =>
    let type := leAt gSector (446 + 16 * i + 4) 1
    let lba := leAt gSector (446 + 16 * i + 8) 4
    if type = 0x00 ∨ lba = 0 ∨ type ≠ 0x07 then scanMbr fn slots gSector
    else
      let (ntfs, gSector) := isNtfsBoot fn lba gSector
      if ntfs then probePartition fn lba gSector else scanMbr fn slots gSector

/-- `bootloader/stage3/src/disk_probe.c:71–100`. -/
def probeMbr (fn : ReadSectorFn) (gSector : List UInt8) : DiskProbe :=
  scanMbr fn (List.range 4) gSector

/-- A comparison of bytes from an offset on, which ends at the first difference: the test for an
empty entry and `guid_match`; `bootloader/stage3/src/disk_probe.c:116–121` and `159–165`. -/
def matchBytes : List UInt8 → List UInt8 → Nat → Outcome Empty Bool
  | [], _, _ => pure true
  | t :: target, buf, off => do
    Outcome.assert (off < buf.length)
    if buf.getD off 0 = t then matchBytes target buf (off + 1) else pure false

/-- The loop of `probe_gpt` over the given entries; `bootloader/stage3/src/disk_probe.c:150–182`.
An entry is read byte by byte, as far as its type asks for it. -/
def scanGpt (fn : ReadSectorFn) (entryLba entrySize entriesPerSector : Nat) :
    List Nat → List UInt8 → List UInt8 → Outcome Empty DiskProbe
  | [], _, _ => pure ⟨.noNtfs, 0⟩
  | i :: indexes, entryBuf, gSector => do
    Outcome.assert (0 < entriesPerSector)
    let sectorIdx := i / entriesPerSector
    let sectorOff := i % entriesPerSector * entrySize
    let entryBuf := fn ((entryLba + sectorIdx) % 2 ^ 64) entryBuf
    let allZero ← matchBytes (List.replicate 16 0) entryBuf sectorOff
    if allZero then scanGpt fn entryLba entrySize entriesPerSector indexes entryBuf gSector
    else do
      let basicData ← matchBytes basicDataGuid entryBuf sectorOff
      if basicData then do
        Outcome.assert (sectorOff + 40 ≤ entryBuf.length)
        let lba := leAt entryBuf (sectorOff + 32) 8
        let (ntfs, gSector) := isNtfsBoot fn lba gSector
        if ntfs then pure (probePartition fn lba gSector)
        else scanGpt fn entryLba entrySize entriesPerSector indexes entryBuf gSector
      else scanGpt fn entryLba entrySize entriesPerSector indexes entryBuf gSector

/-- `bootloader/stage3/src/disk_probe.c:125–185`. -/
def probeGpt (fn : ReadSectorFn) (buffers : Buffers) (gSector : List UInt8) :
    Outcome Empty DiskProbe := do
  let hdr := fn 1 buffers.gGptSector
  if leAt hdr 0 8 ≠ 0x5452415020494645 then
    return ⟨.noTable, 0⟩
  let entryLba := leAt hdr 72 8
  let entrySize := leAt hdr 84 4
  let count := min (leAt hdr 80 4) 128
  Outcome.assert (0 < entrySize)
  scanGpt fn entryLba entrySize (512 / entrySize) (List.range count) buffers.entryBuf gSector

/-- `bootloader/stage3/src/disk_probe.c:191–228`. -/
def diskProbe (fn : ReadSectorFn) (buffers : Buffers) : Outcome Empty DiskProbe :=
  let gSector := fn 0 buffers.gSector
  if gSector.all (· = 0) then pure ⟨.noDisk, 0⟩
  else if leAt gSector 510 2 ≠ 0xAA55 then pure ⟨.noTable, 0⟩
  else if leAt gSector 450 1 = 0xEE then probeGpt fn buffers gSector
  else pure (probeMbr fn gSector)

/-! ### Results and comparisons -/

theorem probePartition_result (fn : ReadSectorFn) (lba : Nat) (gSector : List UInt8) :
    (probePartition fn lba gSector).result = .found ∨
      (probePartition fn lba gSector).result = .noKernel := by
  unfold probePartition
  cases ntfsHasKernel fn lba gSector with
  | true => exact Or.inl rfl
  | false => exact Or.inr rfl

/-- A comparison of bytes that are all there says whether they are equal. -/
theorem matchBytes_of_le {target buf : List UInt8} {off : Nat}
    (h : off + target.length ≤ buf.length) :
    matchBytes target buf off = .ok (decide (slice buf off target.length = target)) := by
  induction target generalizing off with
  | nil => rfl
  | cons t target ih =>
    rw [List.length_cons] at h
    have hlt : off < buf.length := by omega
    have hslice : slice buf off (target.length + 1) =
        buf[off] :: slice buf (off + 1) target.length := by
      rw [slice, List.drop_eq_getElem_cons hlt, List.take_succ_cons, slice]
    rw [matchBytes, Outcome.assert_of hlt, Outcome.ok_bind, List.length_cons, hslice,
      List.getD_eq_getElem?_getD, List.getElem?_eq_getElem hlt, Option.getD_some]
    by_cases hb : buf[off] = t
    · rw [if_pos hb, ih (by omega)]
      simp only [hb, List.cons.injEq, true_and]
    · rw [if_neg hb]
      simp only [List.cons.injEq, hb, false_and, decide_false]
      rfl

end SmallOs.Boot
