import SmallOs.Base.Run

/-!
# Zippers

A list with a position in it, as the two lists on its sides. Going up hands out the nearest of the
older items; going down, from an item that has been handed out, the one behind it. A new item goes
behind all others, with the position behind it.
-/

namespace SmallOs.Base

/-- The items in front of the position, the nearest first, and those behind it. -/
structure Zipper (L : Type) where
  older : List L
  newer : List L

/-- What can be asked of a zipper. -/
inductive Move (L : Type) where
  | push (item : L)
  | up
  | down

/-- The items that are pushed. -/
def Move.pushes {L : Type} : List (Move L) → List L
  | [] => []
  | .push l :: moves => l :: pushes moves
  | .up :: moves => pushes moves
  | .down :: moves => pushes moves

namespace Move

variable {L : Type} {is js : List (Move L)}

@[simp] theorem pushes_append : pushes (is ++ js) = pushes is ++ pushes js := by
  induction is with
  | nil => rfl
  | cons i is ih => cases i <;> simp [pushes, ih]

end Move

namespace Zipper

variable {L : Type} {z : Zipper L} {l : L} {n m : Nat}

def new : Zipper L := ⟨[], []⟩

/-- All items, the oldest first. -/
def items (z : Zipper L) : List L := z.older.reverse ++ z.newer

def push (z : Zipper L) (l : L) : Zipper L := ⟨l :: z.items.reverse, []⟩

def up (z : Zipper L) : Option (L × Zipper L) :=
  match z.older with
  | [] => none
  | l :: older => some (l, ⟨older, l :: z.newer⟩)

def down (z : Zipper L) : Option (L × Zipper L) :=
  match z.newer with
  | current :: l :: newer => some (l, ⟨current :: z.older, l :: newer⟩)
  | _ => none

/-- Make a move; at an end the position stays. -/
def serve (z : Zipper L) : Move L → Option L × Zipper L
  | .push l => (none, z.push l)
  | .up => (z.up.map Prod.fst, (z.up.map Prod.snd).getD z)
  | .down => (z.down.map Prod.fst, (z.down.map Prod.snd).getD z)

@[simp] theorem items_push : (z.push l).items = z.items ++ [l] := by
  simp [push, items]

@[simp] theorem items_up : ((z.up.map Prod.snd).getD z).items = z.items := by
  rcases z with ⟨_ | ⟨l, older⟩, newer⟩ <;> simp [up, items]

@[simp] theorem items_down : ((z.down.map Prod.snd).getD z).items = z.items := by
  rcases z with ⟨older, _ | ⟨c, _ | ⟨l, newer⟩⟩⟩ <;> simp [down, items]

/-- The items are those that have been pushed. -/
theorem items_callsEnd (moves : List (Move L)) :
    (callsEnd serve z moves).items = z.items ++ Move.pushes moves := by
  induction moves generalizing z with
  | nil => simp [Move.pushes]
  | cons move moves ih =>
    cases move with
    | push l => simp [serve, ih, Move.pushes]
    | up => simp [serve, ih, Move.pushes]
    | down => simp [serve, ih, Move.pushes]

/-- Going up walks back through the older items. -/
theorem ups (h : n ≤ z.older.length) :
    replies serve z (List.replicate n .up) = (z.older.take n).map some ∧
      callsEnd serve z (List.replicate n .up) =
        ⟨z.older.drop n, (z.older.take n).reverse ++ z.newer⟩ := by
  induction n generalizing z with
  | zero => simp
  | succ n ih =>
    obtain ⟨_ | ⟨l, older⟩, newer⟩ := z
    · simp at h
    · have hnext := @ih ⟨older, l :: newer⟩ (by simpa using h)
      simp [List.replicate_succ, serve, up, hnext]

/-- Going down walks forth through the items behind the current one. -/
theorem downs {current : L} {rest : List L} (hz : z.newer = current :: rest) (h : m ≤ rest.length) :
    replies serve z (List.replicate m .down) = (rest.take m).map some := by
  induction m generalizing z current rest with
  | zero => simp
  | succ m ih =>
    obtain ⟨older, newer⟩ := z
    obtain rfl : newer = current :: rest := hz
    cases rest with
    | nil => simp at h
    | cons l rest =>
      have hnext := @ih ⟨current :: older, l :: rest⟩ l rest rfl (by simpa using h)
      simp [List.replicate_succ, serve, down, hnext]

/-- From behind all items, some moves up and then fewer down return the latest items, the last
first, and then those behind the one that was reached. -/
theorem walk (hz : z.newer = []) (hn : n ≤ z.items.length) (hm : m < n) :
    replies serve z (List.replicate n .up ++ List.replicate m .down) =
      (z.items.reverse.take n).map some ++
        ((z.items.drop (z.items.length - n + 1)).take m).map some := by
  have hitems : z.items = z.older.reverse := by simp [items, hz]
  rw [hitems, List.reverse_reverse]
  rw [hitems, List.length_reverse] at hn
  obtain ⟨hups, hend⟩ := ups hn
  have hnewer : (callsEnd serve z (List.replicate n .up)).newer =
      z.older.reverse.drop (z.older.length - n) := by
    rw [hend, hz, List.append_nil, List.reverse_take]
  have hlt : z.older.length - n < z.older.reverse.length := by
    rw [List.length_reverse]
    omega
  rw [List.drop_eq_getElem_cons hlt] at hnewer
  rw [replies_append, hups, downs hnewer, List.length_reverse]
  rw [List.length_drop, List.length_reverse]
  omega

end Zipper

end SmallOs.Base
