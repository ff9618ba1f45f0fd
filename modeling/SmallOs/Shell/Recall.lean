import SmallOs.Base.Zipper
import SmallOs.Shell.Task

/-!
# What the history recalls

`kernel/src/task/shell/history.rs` against a zipper of all lines that have been entered. The two
agree until the history is full; from then on a line that is entered is neither stored, nor does the
history go back to its end.
-/

namespace SmallOs.Shell

open SmallOs.Base
open Vfs (Text)

/-- `heapless::String<128>`. -/
structure ShortString where
  text : Text
  fits : text.len ≤ 128
  deriving DecidableEq

namespace History

variable {L : Type} {h : History L} {z : Zipper L} {l : L} {moves : List (Move L)}

/-- `kernel/src/task/shell/history.rs:9–15`: a line that is too long is not taken. -/
def pushStr (history : History ShortString) (line : Text) : History ShortString :=
  if h : line.len ≤ 128 then history.push ⟨line, h⟩ else history

/-- Serve a call; one without a reply leaves the history as it is. -/
def serve (history : History L) : Move L → Option L × History L
  | .push line => (none, history.push line)
  | .up => (history.up.map Prod.fst, (history.up.map Prod.snd).getD history)
  | .down => (history.down.map Prod.fst, (history.down.map Prod.snd).getD history)

/-- Serve a call with a line that is not too long. -/
def serveStr (history : History ShortString) : Move ShortString →
    Option ShortString × History ShortString
  | .push line => (none, history.pushStr line.text)
  | .up => history.serve .up
  | .down => history.serve .down

theorem pushStr_text (history : History ShortString) (line : ShortString) :
    history.pushStr line.text = history.push line :=
  dif_pos line.fits

theorem serveStr_eq : serveStr = serve := by
  funext history move
  cases move with
  | push line => exact congrArg (none, ·) (pushStr_text history line)
  | up => rfl
  | down => rfl

theorem length_push_le (hh : h.entries.length ≤ 32) : (h.push l).entries.length ≤ 32 := by
  rw [push]
  split
  · simp
    omega
  · exact hh

theorem entries_up : ((h.up.map Prod.snd).getD h).entries = h.entries := by
  rw [up]
  split <;> rfl

theorem entries_down : ((h.down.map Prod.snd).getD h).entries = h.entries := by
  rw [down]
  split <;> rfl

/-- No more than 32 lines are stored. -/
theorem length_callsEnd_le (moves : List (Move L)) (hh : h.entries.length ≤ 32) :
    (callsEnd serve h moves).entries.length ≤ 32 := by
  induction moves generalizing h with
  | nil => exact hh
  | cons move moves ih =>
    apply ih
    cases move with
    | push l => exact length_push_le hh
    | up => exact entries_up.symm ▸ hh
    | down => exact entries_down.symm ▸ hh

/-- So going up returns something no more often than the index says. -/
theorem ups_le {n : Nat} {ls : List L} (hn : ls.length = n)
    (hups : replies serve h (List.replicate n .up) = ls.map some) : n ≤ h.index := by
  induction n generalizing h ls with
  | zero => exact Nat.zero_le _
  | succ n ih =>
    cases ls with
    | nil => simp at hn
    | cons l ls =>
      rw [List.replicate_succ, replies_cons, List.map_cons] at hups
      obtain ⟨hfirst, hrest⟩ := List.cons.inj hups
      by_cases hpos : 0 < h.index
      · have hnext := ih (by simpa using hn) hrest
        simp [serve, up, hpos] at hnext
        omega
      · simp [serve, up, hpos] at hfirst

/-! ### Against the zipper -/

/-- The lines of the zipper are stored, and its position is the index. -/
structure Shows (h : History L) (z : Zipper L) : Prop where
  entries : h.entries = z.items
  index : h.index = z.older.length

theorem shows_new : Shows (L := L) .new .new := ⟨rfl, rfl⟩

/-- A line that is entered is stored as long as there is room. -/
theorem Shows.push (hs : Shows h z) (hroom : z.items.length < 32) :
    Shows (h.push l) (z.push l) := by
  rw [History.push, if_pos (hs.entries ▸ hroom)]
  constructor
  · simp [hs.entries]
  · simp [hs.entries, Zipper.push]

theorem Shows.up (hs : Shows h z) :
    h.up.map Prod.fst = z.up.map Prod.fst ∧
      Shows ((h.up.map Prod.snd).getD h) ((z.up.map Prod.snd).getD z) := by
  obtain ⟨_ | ⟨l, older⟩, newer⟩ := z
  · have hindex := hs.index
    simp only [History.up, Zipper.up, hindex]
    exact ⟨rfl, hs⟩
  · have hindex : h.index = older.length + 1 := hs.index
    have hentries : h.entries = older.reverse ++ l :: newer := by
      rw [hs.entries]
      simp [Zipper.items]
    simp only [History.up, Zipper.up, hindex, dif_pos (Nat.succ_pos _), hentries]
    refine ⟨?_, ?_, ?_⟩
    · simp
    · simp [Zipper.items]
    · rfl

theorem Shows.down (hs : Shows h z) :
    h.down.map Prod.fst = z.down.map Prod.fst ∧
      Shows ((h.down.map Prod.snd).getD h) ((z.down.map Prod.snd).getD z) := by
  have hindex := hs.index
  have hentries : h.entries = z.older.reverse ++ z.newer := hs.entries
  obtain ⟨older, _ | ⟨c, _ | ⟨l, newer⟩⟩⟩ := z
  · have hend : ¬ h.index + 1 < h.entries.length := by simp [hindex, hentries]
    simp only [History.down, Zipper.down, dif_neg hend]
    exact ⟨rfl, hs⟩
  · have hend : ¬ h.index + 1 < h.entries.length := by simp [hindex, hentries]
    simp only [History.down, Zipper.down, dif_neg hend]
    exact ⟨rfl, hs⟩
  · have hlt : h.index + 1 < h.entries.length := by simp [hindex, hentries]
    simp only [History.down, Zipper.down, dif_pos hlt]
    refine ⟨?_, ?_, ?_⟩
    · simp [hindex, hentries]
    · simp [Zipper.items, hentries]
    · simp [hindex]

/-- While there is room, the history returns what the zipper returns. -/
theorem Shows.replies (hs : Shows h z) (moves : List (Move L))
    (hroom : (z.items ++ Move.pushes moves).length ≤ 32) :
    replies serve h moves = Base.replies Zipper.serve z moves ∧
      Shows (callsEnd serve h moves) (callsEnd Zipper.serve z moves) := by
  induction moves generalizing h z with
  | nil => exact ⟨rfl, hs⟩
  | cons move moves ih =>
    cases move with
    | push l =>
      have hlt : z.items.length < 32 := by
        simp [Move.pushes] at hroom
        omega
      obtain ⟨hrest, hend⟩ := ih (hs.push (l := l) hlt) (by simpa [Move.pushes] using hroom)
      exact ⟨congrArg (none :: ·) hrest, hend⟩
    | up =>
      obtain ⟨hreply, hnext⟩ := hs.up
      obtain ⟨hrest, hend⟩ := ih hnext (by simpa [Move.pushes] using hroom)
      exact ⟨congrArg₂ List.cons hreply hrest, hend⟩
    | down =>
      obtain ⟨hreply, hnext⟩ := hs.down
      obtain ⟨hrest, hend⟩ := ih hnext (by simpa [Move.pushes] using hroom)
      exact ⟨congrArg₂ List.cons hreply hrest, hend⟩

/-! ### Recalling the latest lines -/

/-- Whatever is asked for after some calls is what the zipper of all lines returns, and after every
line that has been entered, going up returns the lines from it on backwards, and going down those
behind the one that was reached. -/
structure RecallsLatest (inputs : List (Move ShortString)) : Prop where
  zipper : ∀ moves, Move.pushes moves = [] →
    replies serveStr .new (inputs ++ moves) = replies Zipper.serve .new (inputs ++ moves)
  latest : ∀ past line, past ++ [.push line] <+: inputs → ∀ n m,
    n ≤ (Move.pushes past ++ [line]).length → m < n →
      replies serveStr (callsEnd serveStr .new (past ++ [.push line]))
          (List.replicate n .up ++ List.replicate m .down) =
        ((Move.pushes past ++ [line]).reverse.take n).map some ++
          (((Move.pushes past ++ [line]).drop
            ((Move.pushes past ++ [line]).length - n + 1)).take m).map some

theorem pushes_moves {n m : Nat} :
    Move.pushes (List.replicate n (.up : Move L) ++ List.replicate m .down) = [] := by
  have hups : Move.pushes (List.replicate n (.up : Move L)) = [] := by
    induction n with
    | zero => rfl
    | succ n ih => exact ih
  have hdowns : Move.pushes (List.replicate m (.down : Move L)) = [] := by
    induction m with
    | zero => rfl
    | succ m ih => exact ih
  simp [hups, hdowns]

/-- Behind the last of a number of lines there are calls up to that line. -/
theorem exists_push_of_lt {n : Nat} (hn : n < (Move.pushes moves).length) :
    ∃ past l, past ++ [.push l] <+: moves ∧ (Move.pushes past).length = n := by
  induction moves generalizing n with
  | nil => simp [Move.pushes] at hn
  | cons move moves ih =>
    cases move with
    | push l =>
      cases n with
      | zero => exact ⟨[], l, ⟨moves, rfl⟩, rfl⟩
      | succ n =>
        obtain ⟨past, l', hpast, hlen⟩ := ih (n := n) (by simpa [Move.pushes] using hn)
        exact ⟨.push l :: past, l', List.cons_prefix_cons.mpr ⟨rfl, hpast⟩,
          congrArg (· + 1) hlen⟩
    | up =>
      obtain ⟨past, l', hpast, hlen⟩ := ih hn
      exact ⟨.up :: past, l', List.cons_prefix_cons.mpr ⟨rfl, hpast⟩, hlen⟩
    | down =>
      obtain ⟨past, l', hpast, hlen⟩ := ih hn
      exact ⟨.down :: past, l', List.cons_prefix_cons.mpr ⟨rfl, hpast⟩, hlen⟩

/-- For every sequence of calls, the history recalls the latest lines exactly when no more lines
have been entered than it stores. -/
theorem recallsLatest_iff (inputs : List (Move ShortString)) :
    RecallsLatest inputs ↔ (Move.pushes inputs).length ≤ 32 := by
  constructor
  · intro h
    by_contra hmany
    obtain ⟨past, line, hpast, hlen⟩ := exists_push_of_lt (Nat.lt_of_not_le hmany)
    have hall : (Move.pushes past ++ [line]).length = 33 := by simp [hlen]
    have hups := h.latest past line hpast 33 0 (Nat.le_of_eq hall.symm) (by decide)
    rw [List.replicate_zero, List.append_nil, List.take_zero, List.map_nil, List.append_nil,
      List.take_of_length_le (by simp [hlen]), serveStr_eq] at hups
    have hindex := ups_le (by simp [hlen]) hups
    have hinside := (callsEnd serve .new (past ++ [.push line])).inside
    have hstored := length_callsEnd_le (h := (.new : History ShortString))
      (past ++ [.push line]) (Nat.zero_le _)
    omega
  · intro hroom
    constructor
    · intro moves hmoves
      rw [serveStr_eq]
      apply (shows_new.replies _ _).1
      simpa [Zipper.items, Zipper.new, hmoves] using hroom
    · intro past line hpast n m hn hm
      obtain ⟨rest, rfl⟩ := hpast
      have hroom' : (Move.pushes past).length + 1 ≤ 32 := by
        simp [Move.pushes] at hroom
        omega
      obtain ⟨-, hshows⟩ := shows_new.replies (past ++ [.push line])
        (by simpa [Zipper.items, Zipper.new, Move.pushes] using hroom')
      have hitems : (callsEnd Zipper.serve .new (past ++ [.push line])).items =
          Move.pushes past ++ [line] := by
        rw [Zipper.items_callsEnd]
        simp [Zipper.items, Zipper.new, Move.pushes]
      have hnewer : (callsEnd Zipper.serve .new (past ++ [.push line])).newer = [] := by
        rw [callsEnd_append]
        rfl
      have hwalk := Zipper.walk hnewer (hitems ▸ hn) hm
      rw [hitems] at hwalk
      rw [serveStr_eq, ← hwalk]
      apply (hshows.replies _ _).1
      rw [pushes_moves, List.append_nil, hitems]
      simpa using hroom'

def lineA : ShortString := ⟨['a'], by decide⟩

def lineB : ShortString := ⟨['b'], by decide⟩

/-- After 32 other lines, the one that has just been entered is not recalled. -/
theorem not_recallsLatest_full : ¬ ∀ inputs : List (Move ShortString), RecallsLatest inputs := by
  intro hall
  have h := (hall (List.replicate 32 (.push lineA) ++ [.push lineB])).latest
    (List.replicate 32 (.push lineA)) lineB (List.prefix_refl _) 1 0 (by simp) (by decide)
  exact absurd h (by decide +kernel)

end History

end SmallOs.Shell
