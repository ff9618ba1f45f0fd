import SmallOs.Base.Memory

/-!
# Spans and linked lists in memory

A span is a run of addresses. A linked list is threaded through memory: the word at a node is
the address of the next one, and the null address ends it. Stores apart from its words leave a
list alone.
-/

namespace SmallOs.Base

/-- The addresses from `start` up to `start + len`. -/
@[ext] structure Span where
  start : Nat
  len : Nat
  deriving DecidableEq, Repr

namespace Span

/-- The address behind the last one. -/
def stop (s : Span) : Nat := s.start + s.len

/-- Two spans have no address in common. -/
def Apart (s t : Span) : Prop := s.stop ≤ t.start ∨ t.stop ≤ s.start

/-- All addresses of one span belong to the other. -/
def Within (s t : Span) : Prop := t.start ≤ s.start ∧ s.stop ≤ t.stop

instance (s t : Span) : Decidable (s.Apart t) := inferInstanceAs (Decidable (_ ∨ _))

instance (s t : Span) : Decidable (s.Within t) := inferInstanceAs (Decidable (_ ∧ _))

theorem Apart.symm {s t : Span} (h : s.Apart t) : t.Apart s := Or.symm h

theorem Within.refl (s : Span) : s.Within s := ⟨Nat.le_refl _, Nat.le_refl _⟩

/-- Parts of spans that are apart are apart. -/
theorem Apart.mono {s s' t t' : Span} (h : s.Apart t) (hs : s'.Within s) (ht : t'.Within t) :
    s'.Apart t' :=
  h.imp (fun h ↦ Nat.le_trans hs.2 (Nat.le_trans h ht.1))
    fun h ↦ Nat.le_trans ht.2 (Nat.le_trans h hs.1)

end Span

namespace Memory

/-- The eight bytes at an address as a number. -/
def word (m : Memory) (a : Nat) : Nat := leNat (m.load a 8)

/-- Lay a number at an address. -/
def storeWord (m : Memory) (a v : Nat) : Memory := m.store a (leBytes 8 v)

theorem word_storeWord (m : Memory) (a : Nat) {v : Nat} (h : v < 2 ^ 64) :
    (m.storeWord a v).word a = v := by
  have hload := load_store_same m a (leBytes 8 v)
  rw [length_leBytes] at hload
  rw [word, storeWord, hload, leNat_leBytes_of_lt h]

/-- A store apart from a word leaves it alone. -/
theorem word_store (m : Memory) {a off : Nat} {data : List UInt8}
    (h : (Span.mk a 8).Apart ⟨off, data.length⟩) : (m.store off data).word a = m.word a := by
  rw [word, load_store_disjoint m h, word]

/-- The nodes of the list that starts at an address. -/
def Linked (m : Memory) : Nat → List Nat → Prop
  | head, [] => head = 0
  | head, node :: rest => head = node ∧ node ≠ 0 ∧ node < 2 ^ 64 ∧ Linked m (m.word node) rest

/-- A memory that agrees on the words of the nodes holds the same list. -/
theorem Linked.transport {m m' : Memory} {head : Nat} {nodes : List Nat} (h : Linked m head nodes)
    (hw : ∀ a ∈ nodes, m'.word a = m.word a) : Linked m' head nodes := by
  induction nodes generalizing head with
  | nil => exact h
  | cons node rest ih =>
    obtain ⟨hhead, hne, hlt, hrest⟩ := h
    refine ⟨hhead, hne, hlt, ?_⟩
    rw [hw node List.mem_cons_self]
    exact ih hrest fun a ha ↦ hw a (List.mem_cons_of_mem _ ha)

/-- The head of a list is an address. -/
theorem Linked.head_lt {m : Memory} {head : Nat} {nodes : List Nat} (h : Linked m head nodes) :
    head < 2 ^ 64 := by
  cases nodes with
  | nil =>
    rw [show head = 0 from h]
    decide
  | cons node rest => exact h.1 ▸ h.2.2.1

/-- A list that does not start with null has its head as first node. -/
theorem Linked.exists_cons {m : Memory} {head : Nat} {nodes : List Nat} (h : Linked m head nodes)
    (hne : head ≠ 0) : ∃ rest, nodes = head :: rest ∧ Linked m (m.word head) rest := by
  cases nodes with
  | nil => exact absurd h hne
  | cons node rest =>
    obtain ⟨rfl, -, -, hrest⟩ := h
    exact ⟨rest, rfl, hrest⟩

/-- A node with the old head in its word is put in front. -/
theorem Linked.push {m : Memory} {head node : Nat} {nodes : List Nat} (h : Linked m head nodes)
    (hne : node ≠ 0) (hlt : node < 2 ^ 64)
    (hapart : ∀ a ∈ nodes, (Span.mk a 8).Apart ⟨node, 8⟩) :
    Linked (m.storeWord node head) node (node :: nodes) := by
  refine ⟨rfl, hne, hlt, ?_⟩
  rw [word_storeWord m node h.head_lt]
  apply h.transport
  intro a ha
  apply word_store
  rw [length_leBytes]
  exact hapart a ha

end Memory
end SmallOs.Base
