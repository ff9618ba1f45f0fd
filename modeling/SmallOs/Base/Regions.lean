import SmallOs.Base.Links
import Mathlib.Order.Interval.Finset.Nat

/-!
# Regions

Spans are packed into a larger one when each lies within it and they are pairwise apart. Their
lengths then add up to no more than its own, and where they add up to it they leave no gap.

A list of regions is threaded through memory: a region starts with its length and the address of
the next one. Regions that are apart can be put in front of a list and taken out of it.
-/

namespace SmallOs.Base

namespace Span

/-- All addresses of a span. -/
def cells (s : Span) : Finset Nat := Finset.Ico s.start s.stop

@[simp] theorem mem_cells {s : Span} {x : Nat} : x ∈ s.cells ↔ s.start ≤ x ∧ x < s.stop :=
  Finset.mem_Ico

@[simp] theorem card_cells (s : Span) : s.cells.card = s.len := by
  rw [cells, Nat.card_Ico, stop, Nat.add_sub_cancel_left]

/-- The lengths of spans, added up. -/
def total (spans : List Span) : Nat := (spans.map len).sum

@[simp] theorem total_nil : total [] = 0 := rfl

@[simp] theorem total_cons (s : Span) (spans : List Span) :
    total (s :: spans) = s.len + total spans := by
  rw [total, List.map_cons, List.sum_cons, total]

@[simp] theorem total_append (spans spans' : List Span) :
    total (spans ++ spans') = total spans + total spans' := by
  rw [total, List.map_append, List.sum_append, total, total]

theorem total_perm {spans spans' : List Span} (h : spans.Perm spans') :
    total spans = total spans' :=
  (h.map len).sum_eq

theorem mul_length_le_total {spans : List Span} {n : Nat} (h : ∀ s ∈ spans, n ≤ s.len) :
    n * spans.length ≤ total spans := by
  induction spans with
  | nil => exact Nat.zero_le _
  | cons s spans ih =>
    have hfirst := h s List.mem_cons_self
    have hrest := ih fun t ht ↦ h t (List.mem_cons_of_mem s ht)
    rw [total_cons, List.length_cons, Nat.mul_succ]
    omega

/-- The addresses of several spans. -/
def covered : List Span → Finset Nat
  | [] => ∅
  | s :: spans => s.cells ∪ covered spans

theorem mem_covered {spans : List Span} {x : Nat} :
    x ∈ covered spans ↔ ∃ s ∈ spans, s.start ≤ x ∧ x < s.stop := by
  induction spans with
  | nil => simp [covered]
  | cons s spans ih => simp [covered, ih]

/-- Spans that are apart have as many addresses as their lengths add up to. -/
theorem card_covered {spans : List Span} (h : spans.Pairwise Apart) :
    (covered spans).card = total spans := by
  induction spans with
  | nil => rfl
  | cons s spans ih =>
    obtain ⟨hs, hspans⟩ := List.pairwise_cons.mp h
    have hdisjoint : Disjoint s.cells (covered spans) := by
      apply Finset.disjoint_left.mpr
      intro x hx hmem
      obtain ⟨t, ht, htx⟩ := mem_covered.mp hmem
      have hsx := mem_cells.mp hx
      rcases hs t ht with hle | hle
      · omega
      · omega
    rw [covered, Finset.card_union_of_disjoint hdisjoint, card_cells, ih hspans, total_cons]

/-- Spans within a larger one, pairwise apart. -/
structure Packed (whole : Span) (spans : List Span) : Prop where
  within : ∀ s ∈ spans, s.Within whole
  apart : spans.Pairwise Apart

namespace Packed

variable {whole : Span} {spans spans' : List Span}

theorem single : Packed whole [whole] := by
  refine ⟨?_, List.pairwise_singleton _ _⟩
  intro s hs
  rw [List.mem_singleton.mp hs]
  exact Within.refl whole

theorem perm (h : Packed whole spans) (hperm : spans.Perm spans') : Packed whole spans' :=
  ⟨fun s hs ↦ h.within s (hperm.mem_iff.mpr hs),
    (hperm.pairwise_iff fun hst ↦ hst.symm).mp h.apart⟩

/-- A span that is cut into parts. -/
theorem cut {s : Span} {parts : List Span} (h : Packed whole (s :: spans))
    (hparts : Packed s parts) : Packed whole (parts ++ spans) := by
  obtain ⟨hs, hspans⟩ := List.pairwise_cons.mp h.apart
  constructor
  · intro t ht
    rcases List.mem_append.mp ht with ht | ht
    · have hpart := hparts.within t ht
      have hwhole := h.within s List.mem_cons_self
      exact ⟨Nat.le_trans hwhole.1 hpart.1, Nat.le_trans hpart.2 hwhole.2⟩
    · exact h.within t (List.mem_cons_of_mem s ht)
  · apply List.pairwise_append.mpr
    refine ⟨hparts.apart, hspans, ?_⟩
    intro t ht u hu
    exact (hs u hu).mono (hparts.within t ht) (Within.refl u)

theorem covered_subset (h : Packed whole spans) : covered spans ⊆ whole.cells := by
  intro x hx
  obtain ⟨s, hs, hlow, hhigh⟩ := mem_covered.mp hx
  have hwithin := h.within s hs
  rw [mem_cells]
  exact ⟨Nat.le_trans hwithin.1 hlow, Nat.lt_of_lt_of_le hhigh hwithin.2⟩

theorem total_le (h : Packed whole spans) : total spans ≤ whole.len := by
  have hcard := Finset.card_le_card h.covered_subset
  rwa [card_covered h.apart, card_cells] at hcard

/-- Spans that add up to the whole leave no gap. -/
theorem covers (h : Packed whole spans) (htotal : total spans = whole.len) {x : Nat}
    (hlow : whole.start ≤ x) (hhigh : x < whole.stop) : ∃ s ∈ spans, s.start ≤ x ∧ x < s.stop := by
  have hall : covered spans = whole.cells := by
    apply Finset.eq_of_subset_of_card_le h.covered_subset
    rw [card_covered h.apart, card_cells, htotal]
  apply mem_covered.mp
  rw [hall]
  exact mem_cells.mpr ⟨hlow, hhigh⟩

end Packed
end Span

namespace Memory

/-- The regions of the list that starts at an address. -/
def Regions (m : Memory) : Nat → List Span → Prop
  | head, [] => head = 0
  | head, r :: rest => head = r.start ∧ r.start ≠ 0 ∧ r.stop < 2 ^ 64 ∧ m.word r.start = r.len ∧
    Regions m (m.word (r.start + 8)) rest

instance decidableRegions (m : Memory) : ∀ head regions, Decidable (m.Regions head regions)
  | head, [] => inferInstanceAs (Decidable (head = 0))
  | head, r :: rest =>
    have := decidableRegions m (m.word (r.start + 8)) rest
    inferInstanceAs (Decidable (head = r.start ∧ r.start ≠ 0 ∧ r.stop < 2 ^ 64 ∧
      m.word r.start = r.len ∧ m.Regions (m.word (r.start + 8)) rest))

/-- The two words at the start of a region. -/
def node (r : Span) : Span := ⟨r.start, 16⟩

theorem first_within (r : Span) : (Span.mk r.start 8).Within (node r) :=
  ⟨Nat.le_refl _, Nat.add_le_add_left (show 8 ≤ 16 by decide) _⟩

theorem second_within (r : Span) : (Span.mk (r.start + 8) 8).Within (node r) :=
  ⟨Nat.le_add_right _ _, Nat.le_refl _⟩

/-- A region has room for its node. -/
theorem node_within {r : Span} (h : 16 ≤ r.len) : (node r).Within r :=
  ⟨Nat.le_refl _, Nat.add_le_add_left h _⟩

/-- Lay a length and the address of the next region at the start of a region. -/
def storeNode (m : Memory) (a len next : Nat) : Memory :=
  (m.storeWord a len).storeWord (a + 8) next

theorem word_storeWord_apart (m : Memory) {a b : Nat} (v : Nat)
    (h : (Span.mk a 8).Apart ⟨b, 8⟩) : (m.storeWord b v).word a = m.word a := by
  apply word_store
  rw [length_leBytes]
  exact h

namespace Regions

variable {m m' : Memory} {head : Nat} {regions : List Span}

theorem head_lt (h : Regions m head regions) : head < 2 ^ 64 := by
  cases regions with
  | nil =>
    rw [show head = 0 from h]
    decide
  | cons r rest =>
    obtain ⟨rfl, -, hstop, -⟩ := h
    exact Nat.lt_of_le_of_lt (Nat.le_add_right _ _) hstop

theorem mem (h : Regions m head regions) {r : Span} (hr : r ∈ regions) :
    r.start ≠ 0 ∧ r.stop < 2 ^ 64 ∧ m.word r.start = r.len := by
  induction regions generalizing head with
  | nil => cases hr
  | cons s rest ih =>
    obtain ⟨-, hne, hstop, hlen, hrest⟩ := h
    rcases List.mem_cons.mp hr with rfl | hr
    · exact ⟨hne, hstop, hlen⟩
    · exact ih hrest hr

/-- What starts at an address is one list. -/
theorem unique {regions' : List Span} (h : Regions m head regions)
    (h' : Regions m head regions') : regions = regions' := by
  induction regions generalizing head regions' with
  | nil =>
    cases regions' with
    | nil => rfl
    | cons r' rest' =>
      obtain ⟨hhead, hne, -⟩ := h'
      exact absurd (hhead.symm.trans h) hne
  | cons r rest ih =>
    obtain ⟨hhead, hne, -, hlen, hrest⟩ := h
    cases regions' with
    | nil => exact absurd (hhead.symm.trans h') hne
    | cons r' rest' =>
      obtain ⟨hhead', -, -, hlen', hrest'⟩ := h'
      have hstart : r.start = r'.start := hhead.symm.trans hhead'
      have hr : r = r' := by
        ext
        · exact hstart
        · rw [← hlen, ← hlen', hstart]
      rw [← hstart] at hrest'
      rw [hr, ih hrest hrest']

/-- A memory that agrees on the nodes holds the same list. -/
theorem transport (h : Regions m head regions)
    (hw : ∀ r ∈ regions, m'.word r.start = m.word r.start ∧
      m'.word (r.start + 8) = m.word (r.start + 8)) : Regions m' head regions := by
  induction regions generalizing head with
  | nil => exact h
  | cons r rest ih =>
    obtain ⟨hhead, hne, hstop, hlen, hrest⟩ := h
    obtain ⟨hfirst, hsecond⟩ := hw r List.mem_cons_self
    refine ⟨hhead, hne, hstop, hfirst.trans hlen, ?_⟩
    rw [hsecond]
    exact ih hrest fun r hr ↦ hw r (List.mem_cons_of_mem _ hr)

/-- A store apart from the nodes leaves the list alone. -/
theorem store (h : Regions m head regions) {off : Nat} {data : List UInt8}
    (hapart : ∀ r ∈ regions, (node r).Apart ⟨off, data.length⟩) :
    Regions (m.store off data) head regions := by
  apply h.transport
  intro r hr
  have hnode := hapart r hr
  exact ⟨word_store m (hnode.mono (first_within r) (Span.Within.refl _)),
    word_store m (hnode.mono (second_within r) (Span.Within.refl _))⟩

theorem storeWord (h : Regions m head regions) {a v : Nat}
    (hapart : ∀ r ∈ regions, (node r).Apart ⟨a, 8⟩) : Regions (m.storeWord a v) head regions := by
  apply h.store
  rw [length_leBytes]
  exact hapart

/-- A region is put in front of a list. -/
theorem push (h : Regions m head regions) {r : Span} (hne : r.start ≠ 0) (hstop : r.stop < 2 ^ 64)
    (hapart : ∀ s ∈ regions, (node s).Apart (node r)) :
    Regions (m.storeNode r.start r.len head) r.start (r :: regions) := by
  have hlen : r.len < 2 ^ 64 := Nat.lt_of_le_of_lt (Nat.le_add_left _ _) hstop
  have hwords : (Span.mk r.start 8).Apart ⟨r.start + 8, 8⟩ := Or.inl (Nat.le_refl _)
  refine ⟨rfl, hne, hstop, ?_, ?_⟩
  · rw [storeNode, word_storeWord_apart _ _ hwords, word_storeWord _ _ hlen]
  · rw [storeNode, word_storeWord _ _ h.head_lt]
    apply Regions.storeWord
    · apply h.storeWord
      exact fun s hs ↦ (hapart s hs).mono (Span.Within.refl _) (first_within r)
    · exact fun s hs ↦ (hapart s hs).mono (Span.Within.refl _) (second_within r)

/-- The first region is taken out of a list. -/
theorem unlink_first {r : Span} {after : List Span} (h : Regions m head (r :: after))
    (hapart : ∀ s ∈ after, (node s).Apart (node r)) :
    Regions (m.storeWord (r.start + 8) 0) (m.word (r.start + 8)) after := by
  obtain ⟨-, -, -, -, hafter⟩ := h
  apply hafter.storeWord
  exact fun s hs ↦ (hapart s hs).mono (Span.Within.refl _) (second_within r)

/-- The region behind another one is taken out of a list. -/
theorem unlink {before after : List Span} {last r : Span}
    (h : Regions m head (before ++ last :: r :: after))
    (hapart : (before ++ last :: r :: after).Pairwise fun s t ↦ (node s).Apart (node t)) :
    Regions ((m.storeWord (r.start + 8) 0).storeWord (last.start + 8) (m.word (r.start + 8))) head
      (before ++ last :: after) := by
  induction before generalizing head with
  | nil =>
    obtain ⟨hhead, hne, hstop, hlen, hrest⟩ := h
    obtain ⟨hlast, hpairs⟩ := List.pairwise_cons.mp hapart
    have hr := (List.pairwise_cons.mp hpairs).1
    have hafter := hrest.unlink_first fun s hs ↦ (hr s hs).symm
    have hwords : (Span.mk last.start 8).Apart ⟨last.start + 8, 8⟩ := Or.inl (Nat.le_refl _)
    have hother := (hlast r List.mem_cons_self).mono (first_within last) (second_within r)
    refine ⟨hhead, hne, hstop, ?_, ?_⟩
    · rw [word_storeWord_apart _ _ hwords, word_storeWord_apart _ _ hother, hlen]
    · rw [word_storeWord _ _ hafter.head_lt]
      apply hafter.storeWord
      intro s hs
      have hnode := (hlast s (List.mem_cons_of_mem _ hs)).symm
      exact hnode.mono (Span.Within.refl _) (second_within last)
  | cons s before ih =>
    obtain ⟨hhead, hne, hstop, hlen, hrest⟩ := h
    obtain ⟨hs, hpairs⟩ := List.pairwise_cons.mp hapart
    have hlast := hs last (List.mem_append_right _ List.mem_cons_self)
    have hr := hs r (List.mem_append_right _ (List.mem_cons_of_mem _ List.mem_cons_self))
    have hword : ∀ {a : Nat}, (Span.mk a 8).Within (node s) →
        ((m.storeWord (r.start + 8) 0).storeWord (last.start + 8) (m.word (r.start + 8))).word a =
          m.word a := by
      intro a ha
      rw [word_storeWord_apart _ _ (hlast.mono ha (second_within last)),
        word_storeWord_apart _ _ (hr.mono ha (second_within r))]
    refine ⟨hhead, hne, hstop, (hword (first_within s)).trans hlen, ?_⟩
    rw [hword (second_within s)]
    exact ih hrest hpairs

end Regions
end Memory
end SmallOs.Base
