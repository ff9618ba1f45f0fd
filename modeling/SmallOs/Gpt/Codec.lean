import SmallOs.Gpt.Write
import SmallOs.Gpt.Read

/-!
# What the reader decodes from what the writer encodes

A sealed header parses to the fields it was built from and passes its own checks; a
serialized entry parses to itself. Both hold for every field value.
-/

namespace SmallOs.Gpt

open SmallOs.Base SmallOs.Hal

/-! ### Fixed-size fields -/

/-- A fixed-size array reads back from a window that holds it. -/
theorem bytesArray_of_slice {n : Nat} {raw : List UInt8} {off : Nat} {v : Vector UInt8 n}
    (h : slice raw off n = v.toList) : bytesArray raw off n = v := by
  apply Vector.ext
  intro i hi
  have hg := congrArg (fun l ↦ l[i]?) h
  simp only [getElem?_slice, hi, if_true] at hg
  have hv : v.toList[i]? = some v[i] := by simp [hi]
  simp [bytesArray, List.getD_eq_getElem?_getD, hg, hv]

/-- A window holds the fixed-size array that was read from it. -/
theorem slice_of_bytesArray {n : Nat} {raw : List UInt8} {off : Nat} {v : Vector UInt8 n}
    (hl : off + n ≤ raw.length) (h : bytesArray raw off n = v) : slice raw off n = v.toList := by
  have hs := length_slice raw off n hl
  apply List.ext_getElem
  · rw [hs, Vector.length_toList]
  · intro i h₁ h₂
    have hg := getElem?_slice raw off n i
    rw [if_pos (by omega), List.getElem?_eq_getElem h₁,
      List.getElem?_eq_getElem (by omega : off + i < raw.length)] at hg
    simp only [← h, bytesArray, Vector.getElem_toList, Vector.getElem_ofFn,
      List.getD_eq_getElem?_getD, List.getElem?_eq_getElem (by omega : off + i < raw.length)]
    exact Option.some.inj hg

/-! ### Headers -/

/-- The fields that follow the checksum, with the values the writer gives them. -/
structure HeaderFields where
  myLba : Nat
  alternateLba : Nat
  partitionEntryLba : Nat
  entryArrayCrc : UInt32
  lastLba : Nat
  diskGuid : Vector UInt8 16
  numEntries : Nat

namespace HeaderFields

/-- Every LBA fits a `u64` and the entry count fits a `u32`. -/
structure InRange (f : HeaderFields) : Prop where
  myLba : f.myLba < 2 ^ 64
  alternateLba : f.alternateLba < 2 ^ 64
  partitionEntryLba : f.partitionEntryLba < 2 ^ 64
  lastLba : f.lastLba < 2 ^ 64
  numEntries : f.numEntries < 2 ^ 32

/-- The bytes behind the checksum field. -/
def suffix (f : HeaderFields) : List UInt8 :=
  headerSuffix f.myLba f.alternateLba f.partitionEntryLba f.entryArrayCrc f.lastLba f.diskGuid
    f.numEntries

/-- The checksum that the writer stores: over the header with a zeroed checksum field. -/
def checksum (f : HeaderFields) : UInt32 := crc32 (headerPrefix ++ (leBytes 4 0 ++ f.suffix))

/-- The header block with the given checksum field. -/
def block (f : HeaderFields) (crc : List UInt8) (sector : Nat) : List UInt8 :=
  headerPrefix ++ (crc ++ (f.suffix ++ List.replicate (sector - gptHeaderSize) 0))

/-- The header block as it is written. -/
def sealedBlock (f : HeaderFields) (sector : Nat) : List UInt8 :=
  f.block (leBytes 4 f.checksum.toNat) sector

/-- The header that a reader decodes from the sealed block. -/
def decoded (f : HeaderFields) : GptHeader where
  signature := gptSignature
  revision := gptRevision
  headerSize := UInt32.ofNat gptHeaderSize
  headerCrc32 := f.checksum
  reserved := 0
  myLba := UInt64.ofNat f.myLba
  alternateLba := UInt64.ofNat f.alternateLba
  firstUsableLba := UInt64.ofNat gptFirstUsableLba
  lastUsableLba := UInt64.ofNat (f.lastLba - gptReservedLbas)
  diskGuid := f.diskGuid
  partitionEntryLba := UInt64.ofNat f.partitionEntryLba
  numPartitionEntries := UInt32.ofNat f.numEntries
  partitionEntrySize := UInt32.ofNat gptEntrySize
  partitionArrayCrc32 := f.entryArrayCrc

theorem length_suffix (f : HeaderFields) : f.suffix.length = 72 := by
  simp [suffix, headerSuffix]

theorem length_headerPrefix : headerPrefix.length = 16 := by
  simp [headerPrefix]

theorem length_block (f : HeaderFields) (crc : List UInt8) (sector : Nat) (hc : crc.length = 4)
    (hs : gptHeaderSize ≤ sector) : (f.block crc sector).length = sector := by
  simp only [block, List.length_append, length_headerPrefix, hc, length_suffix,
    List.length_replicate, gptHeaderSize] at hs ⊢
  omega

theorem length_sealedBlock (f : HeaderFields) (sector : Nat) (hs : gptHeaderSize ≤ sector) :
    (f.sealedBlock sector).length = sector :=
  f.length_block _ sector (length_leBytes _ _) hs

/-- The builder returns the block with a zeroed checksum field. -/
theorem buildHeader_eq_ok {f : HeaderFields} {sector : Nat} {h : List UInt8} :
    buildHeader f.myLba f.alternateLba f.partitionEntryLba f.entryArrayCrc f.lastLba sector
        f.diskGuid f.numEntries = .ok h ↔
      gptHeaderSize ≤ sector ∧ f.block (leBytes 4 0) sector = h := by
  simp [buildHeader, Outcome.bind_eq_ok, block, suffix]

/-- Replacing the checksum field of a block. -/
theorem splice_block (f : HeaderFields) (crc crc' : List UInt8) (sector : Nat)
    (hc : crc.length = 4) (hc' : crc'.length = 4) :
    splice (f.block crc sector) 16 crc' = f.block crc' sector := by
  have h := splice_append headerPrefix crc
    (f.suffix ++ List.replicate (sector - gptHeaderSize) 0) crc' (by rw [hc, hc'])
  rwa [length_headerPrefix] at h

/-- The header proper is the block without its padding. -/
theorem slice_block (f : HeaderFields) (crc : List UInt8) (sector : Nat) (hc : crc.length = 4) :
    slice (f.block crc sector) 0 gptHeaderSize = headerPrefix ++ (crc ++ f.suffix) := by
  have hl : (headerPrefix ++ (crc ++ f.suffix)).length = gptHeaderSize := by
    simp only [List.length_append, length_headerPrefix, hc, length_suffix, gptHeaderSize]
  have hb : f.block crc sector = (headerPrefix ++ (crc ++ f.suffix)) ++
      List.replicate (sector - gptHeaderSize) 0 := by
    simp only [block, List.append_assoc]
  rw [hb, slice_append_left _ _ _ _ (by omega), slice_all _ _ hl.symm]

/-- Finalizing the built block seals it. -/
theorem finalizeHeaderCrc_block (f : HeaderFields) (sector : Nat) :
    finalizeHeaderCrc (f.block (leBytes 4 0) sector) = f.sealedBlock sector := by
  rw [finalizeHeaderCrc, f.splice_block _ _ _ (length_leBytes _ _) (length_leBytes _ _),
    f.slice_block _ _ (length_leBytes _ _)]
  exact f.splice_block _ _ _ (length_leBytes _ _) (length_leBytes _ _)

/-- The fields of a sealed block in their order. -/
def fields (f : HeaderFields) (sector : Nat) : List (List UInt8) :=
  [gptSignature.toList, gptRevision.toList, leBytes 4 gptHeaderSize, leBytes 4 f.checksum.toNat,
    leBytes 4 0, leBytes 8 f.myLba, leBytes 8 f.alternateLba, leBytes 8 gptFirstUsableLba,
    leBytes 8 (f.lastLba - gptReservedLbas), f.diskGuid.toList, leBytes 8 f.partitionEntryLba,
    leBytes 4 f.numEntries, leBytes 4 gptEntrySize, leBytes 4 f.entryArrayCrc.toNat,
    List.replicate (sector - gptHeaderSize) 0]

theorem sealedBlock_eq (f : HeaderFields) (sector : Nat) :
    f.sealedBlock sector = (f.fields sector).flatten := by
  simp [sealedBlock, block, headerPrefix, suffix, headerSuffix, fields]

/-- The sealed block starts with the signature that the raw read asks for. -/
theorem slice_signature (f : HeaderFields) (sector : Nat) :
    slice (f.sealedBlock sector) 0 8 = gptSignature.toList :=
  slice_of_fields (f.sealedBlock_eq sector) (i := 0) rfl rfl Vector.length_toList

/-- Every field of a sealed block decodes to the value it was built from. -/
theorem parseHeader_sealedBlock (f : HeaderFields) (sector : Nat) (hf : f.InRange)
    (hs : gptHeaderSize ≤ sector) : parseHeader (f.sealedBlock sector) = .ok f.decoded := by
  have hlast : f.lastLba - gptReservedLbas < 256 ^ 8 :=
    Nat.lt_of_le_of_lt (Nat.sub_le _ _) hf.lastLba
  have hblock := f.sealedBlock_eq sector
  have hoff : ∀ i, (((f.fields sector).take i).map List.length).sum =
      ([8, 4, 4, 4, 4, 8, 8, 8, 8, 16, 8, 4, 4, 4, sector - gptHeaderSize].take i).sum := by
    intro i
    rw [List.map_take]
    simp [fields]
  have hcrc : leAt (f.sealedBlock sector) 16 4 = f.checksum.toNat :=
    leAt_of_fields hblock (i := 3) rfl (hoff 3) f.checksum.toNat_lt
  have harr : leAt (f.sealedBlock sector) 88 4 = f.entryArrayCrc.toNat :=
    leAt_of_fields hblock (i := 13) rfl ((hoff 13).trans (by simp)) f.entryArrayCrc.toNat_lt
  rw [parseHeader, Outcome.ensure_of (by rwa [f.length_sealedBlock sector hs]), Outcome.ok_bind]
  simp only [Outcome.pure_eq_ok, decoded, Outcome.ok.injEq, GptHeader.mk.injEq]
  refine ⟨bytesArray_of_slice ?_, bytesArray_of_slice ?_, ?_, ?_, ?_, ?_, ?_, ?_, ?_,
    bytesArray_of_slice ?_, ?_, ?_, ?_, ?_⟩
  · exact f.slice_signature sector
  · exact slice_of_fields hblock (i := 1) rfl (hoff 1) Vector.length_toList
  · exact congrArg UInt32.ofNat (leAt_of_fields hblock (i := 2) rfl (hoff 2) (by decide))
  · rw [hcrc, UInt32.ofNat_toNat]
  · exact congrArg UInt32.ofNat (leAt_of_fields hblock (i := 4) rfl (hoff 4) (by decide))
  · exact congrArg UInt64.ofNat (leAt_of_fields hblock (i := 5) rfl (hoff 5) hf.myLba)
  · exact congrArg UInt64.ofNat (leAt_of_fields hblock (i := 6) rfl (hoff 6) hf.alternateLba)
  · exact congrArg UInt64.ofNat (leAt_of_fields hblock (i := 7) rfl (hoff 7) (by decide))
  · exact congrArg UInt64.ofNat (leAt_of_fields hblock (i := 8) rfl (hoff 8) hlast)
  · exact slice_of_fields hblock (i := 9) rfl (hoff 9) Vector.length_toList
  · exact congrArg UInt64.ofNat (leAt_of_fields hblock (i := 10) rfl (hoff 10) hf.partitionEntryLba)
  · exact congrArg UInt32.ofNat
      (leAt_of_fields hblock (i := 11) rfl ((hoff 11).trans (by simp)) hf.numEntries)
  · exact congrArg UInt32.ofNat
      (leAt_of_fields hblock (i := 12) rfl ((hoff 12).trans (by simp)) (by decide))
  · rw [harr, UInt32.ofNat_toNat]

/-- A sealed block passes the checks that the reader makes on a header. -/
theorem validateHeader_decoded (f : HeaderFields) : validateHeader f.decoded = .ok () := by
  have hh : (UInt32.ofNat gptHeaderSize).toNat = gptHeaderSize := by decide
  have he : (UInt32.ofNat gptEntrySize).toNat = gptEntrySize := by decide
  simp [validateHeader, decoded, hh, he]

/-- A sealed block parses and verifies: the checksum was taken with its field zeroed. -/
theorem parseAndVerifyHeader_sealedBlock (f : HeaderFields) (sector : Nat) (hf : f.InRange)
    (hs : gptHeaderSize ≤ sector) :
    parseAndVerifyHeader (f.sealedBlock sector) = .ok (f.sealedBlock sector, f.decoded) := by
  have hl := f.length_sealedBlock sector hs
  have hh : f.decoded.headerSize.toNat = gptHeaderSize := by
    change (UInt32.ofNat gptHeaderSize).toNat = gptHeaderSize
    decide
  have hw : slice (f.sealedBlock sector) 0 gptHeaderSize =
      headerPrefix ++ (leBytes 4 f.checksum.toNat ++ f.suffix) :=
    f.slice_block _ sector (length_leBytes _ _)
  have hz : splice (headerPrefix ++ (leBytes 4 f.checksum.toNat ++ f.suffix)) 16 (leBytes 4 0) =
      headerPrefix ++ (leBytes 4 0 ++ f.suffix) := by
    have h := splice_append headerPrefix (leBytes 4 f.checksum.toNat) f.suffix (leBytes 4 0)
      (by simp)
    rwa [length_headerPrefix] at h
  have hn : (headerPrefix ++ (leBytes 4 f.checksum.toNat ++ f.suffix)).length = 92 := by
    simp only [List.length_append, length_headerPrefix, length_leBytes, length_suffix]
  rw [parseAndVerifyHeader, Outcome.ensure_of (by rwa [hl]), Outcome.ok_bind,
    f.parseHeader_sealedBlock sector hf hs, Outcome.ok_bind, f.validateHeader_decoded,
    Outcome.ok_bind, hh, sliceAt_of (by rwa [hl, Nat.zero_add]), Outcome.ok_bind, hw,
    putAt_of (by rw [hn]; decide), Outcome.ok_bind, hz,
    Outcome.ensure_of (show crc32 _ = f.decoded.headerCrc32 from rfl)]
  rfl

end HeaderFields

/-! ### Entries -/

/-- A serialized entry parses to itself. -/
theorem parseGptEntry_serializeEntry (e : GptEntry) : parseGptEntry (serializeEntry e) = .ok e := by
  have hn : ∀ unit : UInt16, (leBytes 2 unit.toNat).length = 2 := fun _ ↦ length_leBytes _ _
  have hname : (e.name.toList.flatMap fun unit ↦ leBytes 2 unit.toNat).length = 72 := by
    rw [length_flatMap_const _ 2 hn, Vector.length_toList]
  have hstart : e.startLba.toNat < 256 ^ 8 := e.startLba.toNat_lt
  have hend : e.endLba.toNat < 256 ^ 8 := e.endLba.toNat_lt
  have hattr : e.attributes.toNat < 256 ^ 8 := e.attributes.toNat_lt
  have units : parseUtf16le (e.name.toList.flatMap fun unit ↦ leBytes 2 unit.toNat) = e.name := by
    apply Vector.ext
    intro i hi
    have hs := slice_flatMap (fun unit : UInt16 ↦ leBytes 2 unit.toNat) 2 hn e.name.toList i
      (by simpa using hi)
    rw [Nat.mul_comm] at hs
    simp only [parseUtf16le, Vector.getElem_ofFn]
    rw [leAt_of_slice hs (UInt16.toNat_lt _), UInt16.ofNat_toNat, Vector.getElem_toList]
  have hentry : serializeEntry e = [e.typeGuid.toList, e.uniqueGuid.toList,
      leBytes 8 e.startLba.toNat, leBytes 8 e.endLba.toNat, leBytes 8 e.attributes.toNat,
      e.name.toList.flatMap fun unit ↦ leBytes 2 unit.toNat].flatten := by
    simp [serializeEntry]
  rw [parseGptEntry, Outcome.ensure_of (Nat.le_of_eq (length_serializeEntry e).symm),
    Outcome.ok_bind]
  obtain ⟨typeGuid, uniqueGuid, startLba, endLba, attributes, name⟩ := e
  simp only [Outcome.pure_eq_ok, Outcome.ok.injEq, GptEntry.mk.injEq]
  refine ⟨bytesArray_of_slice ?_, bytesArray_of_slice ?_, ?_, ?_, ?_, ?_⟩
  · exact slice_of_fields hentry (i := 0) rfl rfl Vector.length_toList
  · exact slice_of_fields hentry (i := 1) rfl (by simp) Vector.length_toList
  · rw [leAt_of_fields hentry (i := 2) rfl (by simp) hstart, UInt64.ofNat_toNat]
  · rw [leAt_of_fields hentry (i := 3) rfl (by simp) hend, UInt64.ofNat_toNat]
  · rw [leAt_of_fields hentry (i := 4) rfl (by simp) hattr, UInt64.ofNat_toNat]
  · rw [slice_of_fields hentry (i := 5) rfl (by simp) hname]
    exact units

/-- Parsing a serialized entry array chunk by chunk gives back the entries. -/
theorem mapM_parseGptEntry_serializeEntries (entries : List GptEntry) :
    (chunksExact gptEntrySize (serializeEntries entries)).mapM parseGptEntry = .ok entries := by
  rw [serializeEntries, chunksExact_flatMap _ _ (by decide) length_serializeEntry]
  induction entries with
  | nil => rfl
  | cons e entries ih =>
    rw [List.map_cons, List.mapM_cons, parseGptEntry_serializeEntry, Outcome.ok_bind, ih]
    rfl

/-- An entry serializes back to the bytes that it was parsed from. -/
theorem serializeEntry_of_parse {e : List UInt8} {g : GptEntry} (hl : e.length = gptEntrySize)
    (h : parseGptEntry e = .ok g) : serializeEntry g = e := by
  have hword : ∀ off, off + 8 ≤ e.length →
      leBytes 8 (UInt64.ofNat (leAt e off 8)).toNat = slice e off 8 := by
    intro off ho
    rw [UInt64.toNat_ofNat_of_lt' (leAt_lt e off 8), leBytes_leAt ho]
  have hname : ((parseUtf16le (slice e 56 72)).toList.flatMap fun unit ↦ leBytes 2 unit.toNat) =
      slice e 56 72 := by
    have hn : (slice e 56 72).length = 72 := length_slice _ _ _ (by rw [hl]; decide)
    rw [parseUtf16le, Vector.toList_ofFn,
      flatMap_ofFn 36 (fun i ↦ UInt16.ofNat (leAt (slice e 56 72) (2 * i) 2))]
    have hunit : ∀ i ∈ List.range 36,
      leBytes 2 (UInt16.ofNat (leAt (slice e 56 72) (2 * i) 2)).toNat =
        slice (slice e 56 72) (i * 2) 2 := by
      intro i hi
      rw [List.mem_range] at hi
      rw [UInt16.toNat_ofNat_of_lt' (leAt_lt _ _ 2), leBytes_leAt (by omega), Nat.mul_comm]
    rw [flatMap_congr_mem hunit, flatMap_slice, slice_all _ _ hn.symm]
  rw [parseGptEntry, Outcome.ensure_of (Nat.le_of_eq hl.symm), Outcome.ok_bind] at h
  obtain rfl := Outcome.ok.inj h
  simp only [gptEntrySize] at hl
  rw [serializeEntry]
  simp only
  rw [hname, hword 32 (by omega), hword 40 (by omega), hword 48 (by omega),
    ← slice_of_bytesArray (show 0 + 16 ≤ e.length by omega) rfl,
    ← slice_of_bytesArray (show 16 + 16 ≤ e.length by omega) rfl]
  rw [← slice_add e 48 8 72, ← slice_add e 40 8 80, ← slice_add e 32 8 88, ← slice_add e 16 16 96,
    ← slice_add e 0 16 112, slice_all _ _ hl.symm]

/-- Entries serialize back to the array that they were parsed from. -/
theorem serializeEntries_of_parse {buf : List UInt8} {entries : List GptEntry} {k : Nat}
    (hl : buf.length = k * gptEntrySize)
    (h : (chunksExact gptEntrySize buf).mapM parseGptEntry = .ok entries) :
    serializeEntries entries = buf := by
  have hback : ∀ (l : List (List UInt8)) (es : List GptEntry), (∀ e ∈ l, e.length = gptEntrySize) →
      l.mapM parseGptEntry = Outcome.ok es → serializeEntries es = l.flatten := by
    intro l
    induction l with
    | nil =>
      intro es _ hes
      cases hes
      rfl
    | cons e l ih =>
      intro es hall hes
      rw [List.mapM_cons] at hes
      obtain ⟨g, hg, hes⟩ := Outcome.bind_eq_ok.mp hes
      obtain ⟨gs, hgs, hes⟩ := Outcome.bind_eq_ok.mp hes
      cases hes
      have hrest := ih gs (fun e he ↦ hall e (List.mem_cons_of_mem _ he)) hgs
      rw [List.flatten_cons, ← hrest, ← serializeEntry_of_parse (hall e List.mem_cons_self) hg]
      rfl
  have hk : buf.length / gptEntrySize = k := by rw [hl, Nat.mul_div_cancel _ (by decide)]
  rw [hback _ entries _ h, chunksExact, hk, ← List.flatMap_def, flatMap_slice,
    slice_all _ _ hl.symm]
  intro e he
  simp only [chunksExact, hk, List.mem_map, List.mem_range] at he
  obtain ⟨i, hi, rfl⟩ := he
  apply length_slice
  rw [hl, ← Nat.succ_mul]
  exact Nat.mul_le_mul_right _ hi

/-- An entry array has one reading. -/
theorem serializeEntries_inj {es fs : List GptEntry}
    (h : serializeEntries es = serializeEntries fs) : es = fs := by
  have hp := mapM_parseGptEntry_serializeEntries es
  rw [h, mapM_parseGptEntry_serializeEntries fs] at hp
  exact (Outcome.ok.inj hp).symm

end SmallOs.Gpt
