import SmallOs.Kernel.ReadyQueue
import SmallOs.Kernel.WakeUps

/-!
# Tasks are polled in turn

The ready queue hands out ids in the order they were pushed in. A woken task waits for the ids in
front of it and no others, and no task is polled without having been woken.
-/

namespace SmallOs.Kernel.Executor

open SmallOs.Base

/-- The ids that were pushed, oldest first. -/
def pushedIds (t : List (Call State Event Unit)) : List TaskId :=
  t.flatMap fun x ↦ x.before.pushed x.input

/-- The id that an event pops. -/
def poppedId (x : Call State Event Unit) : Option TaskId :=
  if x.input = .pop then x.before.taskQueue.head? else none

/-- The ids that were popped, oldest first. -/
def poppedIds (t : List (Call State Event Unit)) : List TaskId := t.filterMap poppedId

instance (id : TaskId) : DecidablePred (polls id) := fun x ↦
  inferInstanceAs (Decidable (x.input = .lookup id ∧ id ∈ x.before.tasks))

variable {s s' : State} {x : Call State Event Unit} {id : TaskId}
  {t : List (Call State Event Unit)}

/-! ### First in, first out -/

/-- What an event leaves in the queue follows what it pops. -/
theorem taskQueue_step_popped (h : Steps x) :
    x.before.taskQueue ++ x.before.pushed x.input =
      (poppedId x).toList ++ x.after.taskQueue := by
  rw [State.taskQueue_step h, poppedId]
  split
  · cases x.before.taskQueue <;> rfl
  · rfl

/-- What was pushed has been popped or is in the queue, in the order of the pushes. -/
theorem pushedIds_eq (h : Run Steps .new t s) : pushedIds t = poppedIds t ++ s.taskQueue := by
  apply h.history (I := fun t s ↦ pushedIds t = poppedIds t ++ s.taskQueue)
  · intro t x hx hbefore
    rw [pushedIds, List.flatMap_append, List.flatMap_singleton, ← pushedIds, hbefore,
      List.append_assoc, taskQueue_step_popped hx, poppedIds, poppedIds, List.filterMap_append,
      List.append_assoc]
    cases hpop : poppedId x <;> simp [hpop]
  · rfl

theorem begins_iff : begins id x ↔ poppedId x = some id := by
  rw [begins, poppedId]
  split
  · next hpop => exact and_iff_right hpop
  · next hpop => exact iff_of_false (fun h ↦ hpop h.1) nofun

/-! ### No spurious polls -/

/-- An id waits to be looked up behind the pop that took it, and behind nothing else. -/
theorem begins_or_pc_of_lookup (h : Steps x) (hpc : x.after.pc = .lookup id) :
    begins id x ∨ x.before.pc = .lookup id := by
  obtain ⟨before, e, output, after⟩ := x
  have hstep : before.step e = .ok after := h
  rw [show after.pc = before.pcAfter e from State.pc_step hstep] at hpc
  cases e with
  | spawn id' => exact .inr hpc
  | wake polled id' => exact .inr hpc
  | pop =>
    left
    refine ⟨rfl, ?_⟩
    rw [State.pcAfter] at hpc
    cases hhead : before.taskQueue.head? with
    | none =>
      rw [hhead] at hpc
      cases hpc
    | some id' =>
      rw [hhead] at hpc
      exact congrArg some (Pc.lookup.inj hpc)
  | lookup id' =>
    rw [State.pcAfter] at hpc
    split at hpc <;> cases hpc
  | sleepPoll polled target =>
    rw [State.pcAfter] at hpc
    split at hpc
    · exact .inr hpc
    · cases hpc
  | isEmpty =>
    rw [State.pcAfter] at hpc
    split at hpc <;> cases hpc
  | interrupt ids =>
    rw [State.pcAfter] at hpc
    split at hpc
    · cases hpc
    · exact .inr hpc
  | timer =>
    rw [State.pcAfter] at hpc
    split at hpc
    · cases hpc
    · exact .inr hpc
  | _ => cases hpc

/-- An id that was popped is looked up once. -/
theorem polls_le_begins (h : Run Steps .new t s) :
    t.countP (polls id) + (if s.pc = .lookup id then 1 else 0) ≤ t.countP (begins id) := by
  apply h.history (I := fun t s ↦
    t.countP (polls id) + (if s.pc = .lookup id then 1 else 0) ≤ t.countP (begins id))
  · intro t x hx hbefore
    rw [List.countP_append, List.countP_append, List.countP_singleton, List.countP_singleton]
    by_cases hpolls : polls id x
    · have hstep := hx.of_input hpolls.1
      have hpc : x.before.pc = .lookup id := (onlyIf_eq_ok.mp hstep).1
      have hpc' : x.after.pc ≠ .lookup id := by
        rw [State.pc_step hstep, State.pcAfter, if_pos hpolls.2]
        exact Pc.noConfusion
      rw [if_pos hpc] at hbefore
      rw [if_neg hpc', if_pos (decide_eq_true hpolls)]
      omega
    · rw [if_neg (by simpa using hpolls)]
      by_cases hpc' : x.after.pc = .lookup id
      · rw [if_pos hpc']
        rcases begins_or_pc_of_lookup hx hpc' with hbegins | hpc
        · rw [if_pos (decide_eq_true hbegins)]
          split at hbefore <;> omega
        · rw [if_pos hpc] at hbefore
          omega
      · rw [if_neg hpc']
        split at hbefore <;> omega
  · simp [State.new]

/-- A task is polled at most as often as it was spawned or woken. -/
theorem polls_le_pushed (h : Run Steps .new t s) :
    t.countP (polls id) ≤ (pushedIds t).count id := by
  have hpolls : t.countP (polls id) + _ ≤ t.countP (begins id) := polls_le_begins h
  have hbegins : t.countP (begins id) = (poppedIds t).count id := by
    rw [poppedIds, List.count_filterMap]
    apply List.countP_congr
    intro x _
    simp [begins_iff]
  have hqueue := congrArg (List.count id) (pushedIds_eq h)
  rw [List.count_append] at hqueue
  omega

/-! ### Bounded waiting -/

theorem pops_cons (x : Call State Event Unit) (t : List (Call State Event Unit)) :
    pops (x :: t) = pops t + if x.input = .pop then 1 else 0 := by
  rw [pops, List.countP_cons]
  simp [pops]

theorem pops_append (t u : List (Call State Event Unit)) : pops (t ++ u) = pops t + pops u :=
  List.countP_append

/-- An id in the queue is popped behind as many pops as there are ids in front of it. -/
theorem popped_in_turn {front rest : List TaskId} (h : Run Steps s t s')
    (hqueue : s.taskQueue = front ++ id :: rest) (hpops : front.length < pops t) :
    ∃ u y v, t = u ++ y :: v ∧ begins id y ∧ pops u ≤ front.length := by
  induction h generalizing front rest with
  | nil => exact absurd hpops (Nat.not_lt_zero _)
  | @cons x t s' hx hrest ih =>
    have hafter := State.taskQueue_step hx
    rw [pops_cons] at hpops
    by_cases hpop : x.input = .pop
    · rw [if_pos hpop] at hafter hpops
      cases front with
      | nil => exact ⟨[], x, t, rfl, ⟨hpop, by rw [hqueue]; rfl⟩, Nat.le_refl _⟩
      | cons first front =>
        rw [hqueue, List.cons_append, List.tail_cons, List.append_assoc, List.cons_append] at hafter
        rw [List.length_cons] at hpops
        obtain ⟨u, y, v, rfl, hy, hu⟩ := ih hafter (by omega)
        refine ⟨x :: u, y, v, rfl, hy, ?_⟩
        rw [pops_cons, if_pos hpop, List.length_cons]
        omega
    · rw [if_neg hpop] at hafter hpops
      rw [hqueue, List.append_assoc, List.cons_append] at hafter
      obtain ⟨u, y, v, rfl, hy, hu⟩ := ih hafter hpops
      refine ⟨x :: u, y, v, rfl, hy, ?_⟩
      rw [pops_cons, if_neg hpop]
      omega

/-- An id that was popped is looked up before the next pop. -/
theorem looked_up_next (h : Run Steps s t s') (hpc : s.pc = .lookup id) (hpops : 0 < pops t) :
    ∃ u y v, t = u ++ y :: v ∧ y.input = .lookup id ∧ pops u = 0 := by
  induction h with
  | nil => exact absurd hpops (Nat.not_lt_zero _)
  | @cons x t s' hx hrest ih =>
    rcases State.pc_of_lookup hx hpc with hlookup | hpc'
    · exact ⟨[], x, t, rfl, hlookup, rfl⟩
    · have hpop : x.input ≠ .pop := by
        intro hpop
        have hready := (onlyIf_eq_ok.mp (hx.of_input hpop)).1
        rw [hpc] at hready
        cases hready
      rw [pops_cons, if_neg hpop] at hpops
      obtain ⟨u, y, v, rfl, hy, hu⟩ := ih hpc' hpops
      refine ⟨x :: u, y, v, rfl, hy, ?_⟩
      rw [pops_cons, if_neg hpop, hu]

/-- While the executor runs, a task that is there at the end was there all along. -/
theorem mem_tasks_of_run (h : Run Steps s t s') (hpc : s.pc ≠ .setup) (hid : id ∈ s'.tasks) :
    id ∈ s.tasks := by
  by_contra hnot
  obtain ⟨hend, -⟩ := h.invariant (I := fun s ↦ s.pc ≠ .setup ∧ id ∉ s.tasks)
    (fun _ ↦ gone_step) ⟨hpc, hnot⟩
  exact hend.2 hid

/-- A woken task is polled before the executor pops more ids than the queue held then. -/
theorem polled_of_wakes (h : Run Steps x.after t s) (hx : Steps x) (hwakes : wakes id x)
    (hid : id ∈ s.tasks) (hpops : x.after.taskQueue.length < pops t) :
    ∃ u y v, t = u ++ y :: v ∧ polls id y ∧ pops u ≤ x.after.taskQueue.length := by
  obtain ⟨front, rest, hqueue⟩ := List.append_of_mem (mem_taskQueue_of_wakes hx hwakes)
  have hlength := congrArg List.length hqueue
  rw [List.length_append, List.length_cons] at hlength
  obtain ⟨u, y, v, rfl, hy, hu⟩ := popped_in_turn h hqueue (by omega)
  obtain ⟨-, hystep, hv⟩ := h.split
  rw [pops_append, pops_cons, if_pos hy.1] at hpops
  obtain ⟨w, z, r, rfl, hz, hw⟩ := looked_up_next hv (pc_of_begins hystep hy) (by omega)
  obtain ⟨-, hzstep, hr⟩ := hv.split
  have hpc : z.before.pc = .lookup id := (onlyIf_eq_ok.mp (hzstep.of_input hz)).1
  have hmem : id ∈ z.before.tasks :=
    mem_tasks_of_run (.cons hzstep hr) (by rw [hpc]; exact Pc.noConfusion) hid
  refine ⟨u ++ y :: w, z, r, by rw [List.append_assoc, List.cons_append], ⟨hz, hmem⟩, ?_⟩
  rw [pops_append, pops_cons, if_pos hy.1, hw]
  omega

/-- In every run, ids leave the ready queue in the order they came in, none lost and none doubled,
no task is polled more often than it was spawned or woken, and a woken task that does not finish is
polled before the executor has popped more ids than the queue held, which are at most 100. -/
theorem polled_in_turn (h : Run Steps .new t s) :
    pushedIds t = poppedIds t ++ s.taskQueue ∧
    (∀ id, t.countP (polls id) ≤ (pushedIds t).count id) ∧
    ∀ id t₁ x t₂, t = t₁ ++ x :: t₂ → wakes id x → id ∈ s.tasks →
      x.after.taskQueue.length ≤ capacity ∧ (x.after.taskQueue.length < pops t₂ →
        ∃ u y v, t₂ = u ++ y :: v ∧ polls id y ∧ pops u ≤ x.after.taskQueue.length) := by
  refine ⟨pushedIds_eq h, fun id ↦ polls_le_pushed h, ?_⟩
  rintro id t₁ x t₂ rfl hwakes hid
  obtain ⟨-, hx, hafter⟩ := h.split
  refine ⟨?_, polled_of_wakes hafter hx hwakes hid⟩
  obtain ⟨-, hall⟩ := h.invariant (I := fun s ↦ s.taskQueue.length ≤ capacity)
    (fun _ hy ↦ State.length_step hy) (Nat.zero_le _)
  exact (hall x (by simp)).2

/-- Two tasks are spawned, and the one behind is polled in its turn. -/
def twoTasks : List Event :=
  [.spawn 0, .spawn 1, .run, .pop, .lookup 0, .wake 0 0, .pending 0, .pop, .lookup 1, .pending 1,
    .pop, .lookup 0, .pending 0]

theorem polled_in_turn_twoTasks : ∃ t s, perform .new twoTasks = some (t, s) ∧
    pushedIds t = poppedIds t ++ s.taskQueue ∧ pushedIds t = [0, 1, 0] ∧
    ∃ t₁ x t₂ u y v, t = t₁ ++ x :: (t₂ : List (Call State Event Unit)) ∧ x.input = .spawn 1 ∧
      t₂ = u ++ y :: v ∧ polls 1 y := by
  obtain ⟨⟨t, s⟩, ht⟩ : ∃ r, perform .new twoTasks = some r :=
    Option.isSome_iff_exists.mp (by decide)
  have hlast : ((perform .new twoTasks).map fun r ↦ decide (pushedIds r.1 = [0, 1, 0] ∧
      1 ∈ r.2.tasks ∧ ∃ x ∈ r.1[1]?, x.input = .spawn 1 ∧ wakes 1 x ∧
        x.after.taskQueue.length < pops (r.1.drop 2))) = some true := by
    decide
  rw [ht] at hlast
  obtain ⟨hids, hid, x, hx, hinput, hwakes, hpops⟩ := of_decide_eq_true (Option.some.inj hlast)
  obtain ⟨hfifo, -, hturn⟩ := polled_in_turn (steps_of_perform ht)
  have hsplit : t = t.take 1 ++ x :: t.drop 2 := by
    obtain ⟨hlt, hx⟩ := List.getElem?_eq_some_iff.mp hx
    rw [← hx, ← List.drop_eq_getElem_cons hlt, List.take_append_drop]
  obtain ⟨-, hpolled⟩ := hturn 1 _ x _ hsplit hwakes hid
  obtain ⟨u, y, v, ht₂, hy, -⟩ := hpolled hpops
  exact ⟨t, s, ht, hfifo, hids, _, x, _, u, y, v, hsplit, hinput, ht₂, hy⟩

end SmallOs.Kernel.Executor
