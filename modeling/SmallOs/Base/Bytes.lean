import SmallOs.Base.Outcome

/-!
# Windows of a buffer and little-endian words

A buffer is a list; `slice` reads a window of it and `splice` overwrites one.
`leNat` and `leBytes` read and write an unsigned little-endian word of any width.
`sliceAt`, `uintAt` and `putAt` are the bounds-checked accesses of a language
whose out-of-range index is a panic.
-/

namespace SmallOs.Base

variable {α ε : Type}

/-- The window of `len` elements starting at `off`. -/
def slice (b : List α) (off len : Nat) : List α := (b.drop off).take len

/-- Overwrite the window starting at `off` with `data`. -/
def splice (b : List α) (off : Nat) (data : List α) : List α :=
  b.take off ++ data ++ b.drop (off + data.length)

/-! ### Windows -/

theorem length_slice (b : List α) (off len : Nat) (h : off + len ≤ b.length) :
    (slice b off len).length = len := by
  simp only [slice, List.length_take, List.length_drop]
  omega

theorem length_slice_le (b : List α) (off len : Nat) : (slice b off len).length ≤ len := by
  simp only [slice, List.length_take]
  omega

@[simp] theorem length_splice (b : List α) (off : Nat) (data : List α)
    (h : off + data.length ≤ b.length) : (splice b off data).length = b.length := by
  simp only [splice, List.length_append, List.length_take, List.length_drop]
  omega

theorem getElem?_slice (b : List α) (off len i : Nat) :
    (slice b off len)[i]? = if i < len then b[off + i]? else none := by
  rw [slice, List.getElem?_take]
  split
  · rw [List.getElem?_drop]
  · rfl

theorem getElem?_splice (b : List α) (off : Nat) (data : List α) (i : Nat)
    (h : off + data.length ≤ b.length) :
    (splice b off data)[i]? =
      if off ≤ i ∧ i < off + data.length then data[i - off]? else b[i]? := by
  have hl : (b.take off ++ data).length = off + data.length := by
    simp only [List.length_append, List.length_take]
    omega
  rw [splice, List.getElem?_append, hl]
  by_cases hi : i < off + data.length
  · rw [if_pos hi, List.getElem?_append, List.length_take, Nat.min_eq_left (by omega)]
    by_cases ho : i < off
    · rw [if_pos ho, if_neg (by omega), List.getElem?_take, if_pos ho]
    · rw [if_neg ho, if_pos ⟨by omega, hi⟩]
  · rw [if_neg hi, if_neg (by omega), List.getElem?_drop]
    congr 1
    omega

/-- Two windows agree when the buffers agree at each of their positions. -/
theorem slice_congr {b b' : List α} {off len : Nat}
    (h : ∀ i, off ≤ i → i < off + len → b[i]? = b'[i]?) : slice b off len = slice b' off len := by
  apply List.ext_getElem?
  intro i
  rw [getElem?_slice, getElem?_slice]
  split
  · exact h _ (by omega) (by omega)
  · rfl

/-- Equal windows agree at each of their positions. -/
theorem getElem?_of_slice_eq {b b' : List α} {off len : Nat}
    (h : slice b off len = slice b' off len)
    {i : Nat} (h₁ : off ≤ i) (h₂ : i < off + len) : b[i]? = b'[i]? := by
  have hi := congrArg (fun l ↦ l[i - off]?) h
  simp only [getElem?_slice, show i - off < len by omega, if_true] at hi
  rwa [show off + (i - off) = i by omega] at hi

/-- A window inside a window is a window. -/
theorem slice_slice (b : List α) (off len off' len' : Nat) (h : off' + len' ≤ len) :
    slice (slice b off len) off' len' = slice b (off + off') len' := by
  apply List.ext_getElem?
  intro i
  simp only [getElem?_slice]
  split
  · rw [if_pos (by omega), Nat.add_assoc]
  · rfl

/-- A part of a known window. -/
theorem slice_of_slice {b w : List α} {off len k n : Nat} (h : slice b off len = w)
    (hk : k + n ≤ len) : slice b (off + k) n = slice w k n := by
  rw [← h, slice_slice _ _ _ _ _ hk]

theorem slice_zero_length (b : List α) : slice b 0 b.length = b := by
  simp [slice]

/-- The whole of a buffer is one of its windows. -/
theorem slice_all (b : List UInt8) (n : Nat) (h : n = b.length) : slice b 0 n = b := by
  rw [h, slice_zero_length]

/-- The written window reads back. -/
theorem slice_splice_same (b : List α) (off : Nat) (data : List α)
    (h : off + data.length ≤ b.length) : slice (splice b off data) off data.length = data := by
  apply List.ext_getElem?
  intro i
  rw [getElem?_slice]
  split
  · rw [getElem?_splice _ _ _ _ h, if_pos (by omega), Nat.add_sub_cancel_left]
  · rw [List.getElem?_eq_none (by omega)]

/-- A part of the written window reads back. -/
theorem slice_splice_inner (b : List α) (off : Nat) (data : List α) (off' len : Nat)
    (h : off + data.length ≤ b.length) (h₁ : off ≤ off') (h₂ : off' + len ≤ off + data.length) :
    slice (splice b off data) off' len = slice data (off' - off) len := by
  apply List.ext_getElem?
  intro i
  rw [getElem?_slice, getElem?_slice]
  split
  · rw [getElem?_splice _ _ _ _ h, if_pos (by omega)]
    congr 1
    omega
  · rfl

/-- A window apart from the written one is unchanged. -/
theorem slice_splice_disjoint (b : List α) (off : Nat) (data : List α) (off' len : Nat)
    (h : off + data.length ≤ b.length) (hd : off' + len ≤ off ∨ off + data.length ≤ off') :
    slice (splice b off data) off' len = slice b off' len := by
  apply slice_congr
  intro i h₁ h₂
  rw [getElem?_splice _ _ _ _ h, if_neg (by omega)]

/-- Overwriting inside a window overwrites inside what the window shows. -/
theorem slice_splice_outer (b : List α) (off : Nat) (data : List α) (off' len : Nat)
    (h : off' + len ≤ b.length) (h₁ : off' ≤ off) (h₂ : off + data.length ≤ off' + len) :
    slice (splice b off data) off' len = splice (slice b off' len) (off - off') data := by
  have hl := length_slice b off' len h
  apply List.ext_getElem?
  intro i
  rw [getElem?_slice, getElem?_splice _ _ _ _ (by omega), getElem?_splice _ _ _ _ (by omega),
    getElem?_slice]
  by_cases hi : i < len
  · rw [if_pos hi, if_pos hi]
    by_cases hw : off - off' ≤ i ∧ i < off - off' + data.length
    · rw [if_pos hw, if_pos (by omega), show off' + i - off = i - (off - off') by omega]
    · rw [if_neg hw, if_neg (by omega)]
  · rw [if_neg hi, if_neg hi, if_neg (by omega)]

/-- Writing back what a window holds changes nothing. -/
theorem splice_slice (b : List α) (off len : Nat) (h : off + len ≤ b.length) :
    splice b off (slice b off len) = b := by
  have hl := length_slice b off len h
  apply List.ext_getElem?
  intro i
  rw [getElem?_splice _ _ _ _ (by omega), hl]
  split
  · rw [getElem?_slice, if_pos (by omega)]
    congr 1
    omega
  · rfl

theorem slice_nil_of_zero (b : List α) (off : Nat) : slice b off 0 = [] := by
  simp [slice]

/-- A window splits at any inner position. -/
theorem slice_add (b : List α) (off m n : Nat) :
    slice b off (m + n) = slice b off m ++ slice b (off + m) n := by
  rw [slice, slice, slice, List.take_add, List.drop_drop]

theorem slice_append_left (b c : List α) (off len : Nat) (h : off + len ≤ b.length) :
    slice (b ++ c) off len = slice b off len := by
  apply slice_congr
  intro i _ h₂
  rw [List.getElem?_append_left (by omega)]

theorem slice_append_right (b c : List α) (off len : Nat) (h : b.length ≤ off) :
    slice (b ++ c) off len = slice c (off - b.length) len := by
  apply List.ext_getElem?
  intro i
  rw [getElem?_slice, getElem?_slice, List.getElem?_append_right (by omega)]
  split
  · congr 1
    omega
  · rfl

/-- The middle of a concatenation is one of its windows. -/
theorem slice_middle (a b c : List α) {off len : Nat} (hoff : a.length = off)
    (hlen : b.length = len) : slice (a ++ (b ++ c)) off len = b := by
  subst hoff hlen
  rw [slice_append_right _ _ _ _ (Nat.le_refl _), Nat.sub_self,
    slice_append_left _ _ _ _ (Nat.le_of_eq (Nat.zero_add _)), slice_zero_length]

/-- A window in a constant tail. -/
theorem slice_of_suffix {b : List α} {x : α} {k off len : Nat} (h : List.replicate k x <:+ b)
    (h₁ : b.length ≤ off + k) (h₂ : off + len ≤ b.length) :
    slice b off len = List.replicate len x := by
  obtain ⟨front, rfl⟩ := h
  rw [List.length_append, List.length_replicate] at h₁ h₂
  rw [slice_append_right _ _ _ _ (by omega), slice, List.drop_replicate, List.take_replicate]
  congr 1
  omega

/-- A field of a layout is the window behind the fields in front of it. -/
theorem slice_flatten {fields : List (List α)} {field : List α} {i : Nat}
    (h : fields[i]? = some field) :
    slice fields.flatten ((fields.take i).map List.length).sum field.length = field := by
  obtain ⟨hi, hfield⟩ := List.getElem?_eq_some_iff.mp h
  have hsplit : fields.flatten =
      (fields.take i).flatten ++ (field ++ (fields.drop (i + 1)).flatten) := by
    rw [← List.flatten_cons, ← hfield, List.cons_getElem_drop_succ, ← List.flatten_append,
      List.take_append_drop]
  rw [hsplit]
  exact slice_middle _ _ _ List.length_flatten rfl

/-- Writing over the middle of a concatenation replaces that part. -/
theorem splice_append (a b c data : List α) (h : data.length = b.length) :
    splice (a ++ (b ++ c)) a.length data = a ++ (data ++ c) := by
  simp [splice, h]

/-! ### Arrays of fixed-width items -/

/-- The consecutive windows of `n` elements, leaving out an incomplete last one. -/
def chunksExact (n : Nat) (b : List α) : List (List α) :=
  (List.range (b.length / n)).map fun i ↦ slice b (i * n) n

theorem length_flatMap_const {β : Type} (f : α → List β) (w : Nat) (h : ∀ a, (f a).length = w)
    (items : List α) : (items.flatMap f).length = items.length * w := by
  induction items with
  | nil => simp
  | cons a items ih =>
    rw [List.flatMap_cons, List.length_append, ih, h, List.length_cons, Nat.succ_mul, Nat.add_comm]

/-- The window of one item of a packed array is that item's encoding. -/
theorem slice_flatMap {β : Type} (f : α → List β) (w : Nat) (h : ∀ a, (f a).length = w)
    (items : List α) (i : Nat) (hi : i < items.length) :
    slice (items.flatMap f) (i * w) w = f items[i] := by
  induction items generalizing i with
  | nil => simp at hi
  | cons a items ih =>
    rw [List.flatMap_cons]
    cases i with
    | zero =>
      have hw := slice_append_left (f a) (items.flatMap f) 0 w (by rw [h]; omega)
      rw [Nat.zero_mul, hw, ← h a, slice_zero_length]
      rfl
    | succ i =>
      rw [slice_append_right _ _ _ _ (by rw [h, Nat.succ_mul]; omega), h, Nat.succ_mul,
        Nat.add_sub_cancel]
      exact ih i (by simpa using hi)

/-- Cutting a packed array into chunks gives back the encodings. -/
theorem chunksExact_flatMap {β : Type} (f : α → List β) (w : Nat) (hw : 0 < w)
    (h : ∀ a, (f a).length = w) (items : List α) :
    chunksExact w (items.flatMap f) = items.map f := by
  apply List.ext_getElem
  · rw [chunksExact, List.length_map, List.length_range, length_flatMap_const f w h,
      Nat.mul_div_cancel _ hw, List.length_map]
  · intro i h₁ h₂
    rw [List.length_map] at h₂
    simp only [chunksExact, List.getElem_map, List.getElem_range]
    exact slice_flatMap f w h items i h₂

/-- Consecutive windows of one width are one window. -/
theorem flatMap_slice (b : List α) (w k : Nat) :
    ((List.range k).flatMap fun i ↦ slice b (i * w) w) = slice b 0 (k * w) := by
  induction k with
  | zero => rw [Nat.zero_mul, slice_nil_of_zero, List.range_zero, List.flatMap_nil]
  | succ k ih =>
    rw [List.range_succ, List.flatMap_append, ih, List.flatMap_singleton, Nat.succ_mul,
      slice_add b 0 (k * w) w, Nat.zero_add]

theorem flatMap_congr_mem {β : Type} {f g : α → List β} {l : List α} (h : ∀ a ∈ l, f a = g a) :
    l.flatMap f = l.flatMap g := by
  rw [List.flatMap_def, List.flatMap_def, List.map_congr_left h]

theorem flatMap_ofFn {β : Type} (n : Nat) (f : Nat → α) (g : α → List β) :
    (List.ofFn fun i : Fin n ↦ f i.val).flatMap g = (List.range n).flatMap fun i ↦ g (f i) := by
  rw [List.flatMap_def, List.flatMap_def]
  congr 1
  apply List.ext_getElem
  · simp
  · simp

/-! ### Little-endian words -/

/-- The natural with the given bytes, least significant first. -/
def leNat : List UInt8 → Nat
  | [] => 0
  | b :: bs => b.toNat + 256 * leNat bs

/-- The `n` low bytes of `v`, least significant first. -/
def leBytes : Nat → Nat → List UInt8
  | 0, _ => []
  | n + 1, v => UInt8.ofNat (v % 256) :: leBytes n (v / 256)

@[simp] theorem length_leBytes (n v : Nat) : (leBytes n v).length = n := by
  induction n generalizing v with
  | zero => rfl
  | succ n ih => simp only [leBytes, List.length_cons, ih]

/-- Reading back the low bytes of a number gives it modulo the width. -/
theorem leNat_leBytes (n v : Nat) : leNat (leBytes n v) = v % 256 ^ n := by
  induction n generalizing v with
  | zero => simp [leBytes, leNat, Nat.mod_one]
  | succ n ih =>
    have hb : (UInt8.ofNat (v % 256)).toNat = v % 256 := by
      rw [UInt8.toNat_ofNat']
      omega
    rw [leBytes, leNat, ih, hb, Nat.pow_succ, Nat.mul_comm (256 ^ n) 256, Nat.mod_mul]

theorem leNat_leBytes_of_lt {n v : Nat} (h : v < 256 ^ n) : leNat (leBytes n v) = v := by
  rw [leNat_leBytes, Nat.mod_eq_of_lt h]

/-- The bytes of a longer word, the low ones first. -/
theorem leNat_append (b c : List UInt8) : leNat (b ++ c) = leNat b + 256 ^ b.length * leNat c := by
  induction b with
  | nil => rw [List.nil_append, leNat, List.length_nil, Nat.pow_zero, Nat.one_mul, Nat.zero_add]
  | cons x xs ih =>
    rw [List.cons_append, leNat, leNat, ih, List.length_cons, Nat.pow_succ, Nat.mul_add,
      Nat.add_assoc, Nat.mul_comm (256 ^ xs.length) 256, Nat.mul_assoc]

theorem leNat_lt (b : List UInt8) : leNat b < 256 ^ b.length := by
  induction b with
  | nil => simp [leNat]
  | cons x xs ih =>
    have hx := x.toNat_lt
    rw [leNat, List.length_cons, Nat.pow_succ]
    omega

/-- Writing back a word that was read gives its bytes. -/
theorem leBytes_leNat (b : List UInt8) : leBytes b.length (leNat b) = b := by
  induction b with
  | nil => rfl
  | cons x xs ih =>
    have hx := x.toNat_lt
    have hm : (x.toNat + 256 * leNat xs) % 256 = x.toNat := by omega
    have hd : (x.toNat + 256 * leNat xs) / 256 = leNat xs := by omega
    rw [List.length_cons, leNat, leBytes, hm, hd, ih, UInt8.ofNat_toNat]

theorem leBytes_leNat_of_length {b : List UInt8} {n : Nat} (h : b.length = n) :
    leBytes n (leNat b) = b := by
  rw [← h, leBytes_leNat]

/-! ### Checked accesses -/

/-- The little-endian word of `n` bytes at `off`, wherever the window lies. -/
def leAt (b : List UInt8) (off n : Nat) : Nat := leNat (slice b off n)

/-- Index a window; an out-of-range window is a panic. -/
def sliceAt (b : List α) (off len : Nat) : Outcome ε (List α) := do
  Outcome.assert (off + len ≤ b.length)
  return slice b off len

/-- Read a little-endian word; an out-of-range index is a panic. -/
def uintAt (b : List UInt8) (off n : Nat) : Outcome ε Nat := do
  Outcome.assert (off + n ≤ b.length)
  return leAt b off n

/-- Overwrite a window; an out-of-range window is a panic. -/
def putAt (b : List α) (off : Nat) (data : List α) : Outcome ε (List α) := do
  Outcome.assert (off + data.length ≤ b.length)
  return splice b off data

theorem leBytes_leAt {b : List UInt8} {off n : Nat} (h : off + n ≤ b.length) :
    leBytes n (leAt b off n) = slice b off n :=
  leBytes_leNat_of_length (length_slice _ _ _ h)

theorem leAt_lt (b : List UInt8) (off n : Nat) : leAt b off n < 256 ^ n :=
  Nat.lt_of_lt_of_le (leNat_lt _) (Nat.pow_le_pow_right (by decide) (length_slice_le _ _ _))

@[simp] theorem sliceAt_eq_ok {b : List α} {off len : Nat} {w : List α} :
    (sliceAt b off len : Outcome ε (List α)) = .ok w ↔
      off + len ≤ b.length ∧ slice b off len = w := by
  simp [sliceAt, Outcome.bind_eq_ok]

@[simp] theorem uintAt_eq_ok {b : List UInt8} {off n v : Nat} :
    (uintAt b off n : Outcome ε Nat) = .ok v ↔ off + n ≤ b.length ∧ leAt b off n = v := by
  simp [uintAt, Outcome.bind_eq_ok]

@[simp] theorem putAt_eq_ok {b data c : List α} {off : Nat} :
    (putAt b off data : Outcome ε (List α)) = .ok c ↔
      off + data.length ≤ b.length ∧ splice b off data = c := by
  simp [putAt, Outcome.bind_eq_ok]

theorem sliceAt_of {b : List α} {off len : Nat} (h : off + len ≤ b.length) :
    (sliceAt b off len : Outcome ε (List α)) = .ok (slice b off len) := by
  simp [h]

theorem uintAt_of {b : List UInt8} {off n : Nat} (h : off + n ≤ b.length) :
    (uintAt b off n : Outcome ε Nat) = .ok (leAt b off n) := by
  simp [h]

theorem putAt_of {b data : List α} {off : Nat} (h : off + data.length ≤ b.length) :
    (putAt b off data : Outcome ε (List α)) = .ok (splice b off data) := by
  simp [h]

/-- Words agree when the buffers agree at each of their bytes. -/
theorem leAt_congr {b b' : List UInt8} {off n : Nat}
    (h : ∀ i, off ≤ i → i < off + n → b[i]? = b'[i]?) : leAt b off n = leAt b' off n := by
  rw [leAt, leAt, slice_congr h]

/-- Behind the end of a buffer a word reads as zero. -/
theorem leAt_of_length_le {b : List UInt8} {off n : Nat} (h : b.length ≤ off) :
    leAt b off n = 0 := by
  rw [leAt, slice, List.drop_eq_nil_of_le h, List.take_nil]
  rfl

theorem leAt_append_left (b c : List UInt8) (off n : Nat) (h : off + n ≤ b.length) :
    leAt (b ++ c) off n = leAt b off n := by
  rw [leAt, slice_append_left _ _ _ _ h, leAt]

/-- The first byte of a word is its lowest. -/
theorem getElem?_of_leAt (b : List UInt8) (off n : Nat) (hn : 0 < n) (h : off < b.length) :
    b[off]? = some (UInt8.ofNat (leAt b off n % 256)) := by
  obtain ⟨m, rfl⟩ : ∃ m, n = m + 1 := ⟨n - 1, by omega⟩
  have hs : slice b off (m + 1) = b[off] :: slice b (off + 1) m := by
    rw [slice, slice, List.drop_eq_getElem_cons h, List.take_succ_cons]
  have hlow : (b[off].toNat + 256 * leNat (slice b (off + 1) m)) % 256 = b[off].toNat := by
    have hlt := b[off].toNat_lt
    omega
  rw [leAt, hs, leNat, hlow, UInt8.ofNat_toNat, List.getElem?_eq_getElem h]

/-! ### Layouts -/

theorem leAt_of_slice {b : List UInt8} {off n v : Nat} (h : slice b off n = leBytes n v)
    (hv : v < 256 ^ n) : leAt b off n = v := by
  rw [leAt, h, leNat_leBytes_of_lt hv]

/-- The window of a field, from the lengths of the fields in front of it. -/
theorem slice_of_fields {b field : List UInt8} {fields : List (List UInt8)}
    (hb : b = fields.flatten) {i off n : Nat} (h : fields[i]? = some field)
    (hoff : ((fields.take i).map List.length).sum = off) (hn : field.length = n) :
    slice b off n = field := by
  rw [hb, ← hoff, ← hn]
  exact slice_flatten h

/-- A number in a field reads back. -/
theorem leAt_of_fields {b : List UInt8} {fields : List (List UInt8)}
    (hb : b = fields.flatten) {i off n v : Nat} (h : fields[i]? = some (leBytes n v))
    (hoff : ((fields.take i).map List.length).sum = off) (hv : v < 256 ^ n) :
    leAt b off n = v :=
  leAt_of_slice (slice_of_fields hb h hoff (length_leBytes _ _)) hv

/-- From an offset on the buffer holds the fields, one behind the other. -/
def HasFields (b : List UInt8) (off : Nat) (fields : List (List UInt8)) : Prop :=
  ∃ rest, b.drop off = fields.flatten ++ rest

namespace HasFields

variable {b field : List UInt8} {off : Nat} {fields : List (List UInt8)}

theorem window (hb : HasFields b off fields) {i k n : Nat} (h : fields[i]? = some field)
    (hk : ((fields.take i).map List.length).sum = k) (hn : field.length = n) :
    slice b (off + k) n = field := by
  obtain ⟨rest, hrest⟩ := hb
  have hi : i < fields.length := (List.getElem?_eq_some_iff.mp h).1
  have hflat : b.drop off = (fields ++ [rest]).flatten := by
    rw [hrest, List.flatten_append, List.flatten_singleton]
  have hwindow : slice b (off + k) n = slice (b.drop off) k n := by
    rw [slice, slice, List.drop_drop]
  rw [hwindow]
  apply slice_of_fields hflat (by rw [List.getElem?_append_left hi, h]) _ hn
  rw [List.take_append_of_le_length (Nat.le_of_lt hi), hk]

theorem word (hb : HasFields b off fields) {i k n v : Nat} (h : fields[i]? = some (leBytes n v))
    (hk : ((fields.take i).map List.length).sum = k) (hv : v < 256 ^ n) :
    leAt b (off + k) n = v :=
  leAt_of_slice (hb.window h hk (length_leBytes _ _)) hv

/-- Fields that have been written. -/
theorem of_splice (h : off + fields.flatten.length ≤ b.length) :
    HasFields (splice b off fields.flatten) off fields := by
  refine ⟨b.drop (off + fields.flatten.length), ?_⟩
  have hoff : (b.take off).length = off := by
    rw [List.length_take]
    omega
  rw [splice, List.append_assoc]
  exact List.drop_left' hoff

theorem length_le (hb : HasFields b off fields) (hne : fields.flatten ≠ []) :
    off + fields.flatten.length ≤ b.length := by
  obtain ⟨rest, hrest⟩ := hb
  have hlen := congrArg List.length hrest
  have hpos := List.length_pos_iff.mpr hne
  rw [List.length_drop, List.length_append] at hlen
  omega

end HasFields

/-! ### Writing fields -/

/-- Write fields one behind the other; a field that leaves the buffer is a panic. -/
def putFields (b : List α) (off : Nat) : List (List α) → Outcome ε (List α)
  | [] => pure b
  | field :: fields => do
    let b ← putAt b off field
    putFields b (off + field.length) fields

/-- The fields take the place of what stood there. -/
theorem putFields_append {front mid back : List α} {fields : List (List α)}
    (h : fields.flatten.length = mid.length) :
    (putFields (front ++ (mid ++ back)) front.length fields : Outcome ε (List α)) =
      .ok (front ++ (fields.flatten ++ back)) := by
  induction fields generalizing front mid with
  | nil =>
    rw [List.flatten_nil, List.length_nil] at h
    rw [List.eq_nil_of_length_eq_zero h.symm]
    rfl
  | cons field fields ih =>
    rw [List.flatten_cons, List.length_append] at h
    obtain ⟨old, mid, rfl, hold⟩ : ∃ a c, mid = a ++ c ∧ field.length = a.length := by
      refine ⟨mid.take field.length, mid.drop field.length, (List.take_append_drop _ _).symm, ?_⟩
      rw [List.length_take]
      omega
    rw [List.length_append] at h
    have hsplice : splice (front ++ (old ++ mid ++ back)) front.length field =
        (front ++ field) ++ (mid ++ back) := by
      rw [List.append_assoc, splice_append _ _ _ _ hold, List.append_assoc]
    rw [putFields, putAt_of (by simp only [List.length_append]; omega), Outcome.ok_bind, hsplice,
      ← List.length_append, ih (by omega), List.flatten_cons]
    simp only [List.append_assoc]

/-- Fields that fit are there afterwards, and nothing else has changed. -/
theorem putFields_of {b : List α} {off : Nat} {fields : List (List α)}
    (h : off + fields.flatten.length ≤ b.length) :
    (putFields b off fields : Outcome ε (List α)) = .ok (splice b off fields.flatten) := by
  have hfront : (b.take off).length = off := by
    rw [List.length_take]
    omega
  have hmid := length_slice b off fields.flatten.length h
  have hb : b = b.take off ++ (slice b off fields.flatten.length ++
      b.drop (off + fields.flatten.length)) := by
    rw [slice, ← List.drop_drop, List.take_append_drop, List.take_append_drop]
  generalize b.take off = front at hb hfront
  subst hfront
  rw [hb, putFields_append hmid.symm, splice_append _ _ _ _ hmid.symm]

/-- Fields that do not fit are a panic. -/
theorem putFields_panic {b : List α} {off : Nat} {fields : List (List α)} (hoff : off ≤ b.length)
    (h : b.length < off + fields.flatten.length) :
    (putFields b off fields : Outcome ε (List α)) = .panic := by
  induction fields generalizing b off with
  | nil => simp at h; omega
  | cons field fields ih =>
    rw [List.flatten_cons, List.length_append] at h
    rw [putFields]
    by_cases hfield : off + field.length ≤ b.length
    · rw [putAt_of hfield, Outcome.ok_bind]
      apply ih
      · rwa [length_splice _ _ _ hfield]
      · rw [length_splice _ _ _ hfield]
        omega
    · rw [putAt, Outcome.assert_not hfield]
      rfl

/-- Writing goes on behind the fields that have been written. -/
theorem putFields_bind {b : List α} {off mid : Nat} {fields fields' : List (List α)}
    (hmid : mid = off + fields.flatten.length) :
    ((putFields b off fields : Outcome ε (List α)) >>= fun b ↦ putFields b mid fields') =
      putFields b off (fields ++ fields') := by
  subst hmid
  induction fields generalizing b off with
  | nil => rfl
  | cons field fields ih =>
    rw [List.cons_append, putFields, putFields, bind_assoc]
    congr 1
    funext b
    rw [← ih, List.flatten_cons, List.length_append, Nat.add_assoc]

end SmallOs.Base
