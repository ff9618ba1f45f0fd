import SmallOs.Kernel.WakeUps

/-!
# Sleeping tasks

`TIMER_WAKER` holds one waker, so a sleeping task is woken by the timer as long as no other
`Sleep` registers. What a registration may replace is the waker of a task that does not sleep, or
that is queued already.
-/

namespace SmallOs.Kernel.Executor

open SmallOs.Base

/-- A `Sleep` of the task is polled and pending. -/
def sleeps (id : TaskId) (x : Call State Event Unit) : Prop := x.input = .register id

/-- The task is polled again, or has finished. -/
def wakesUp (id : TaskId) (x : Call State Event Unit) : Prop := begins id x ∨ finishes id x

/-- A `Sleep` of the task was pending in its last poll. -/
def Asleep (id : TaskId) (t : List (Call State Event Unit)) : Prop :=
  Since (sleeps id) (wakesUp id) t

/-- After a timer interrupt all sleeping tasks are in the queue. -/
def AllWoken (past : List (Call State Event Unit)) (x : Call State Event Unit) : Prop :=
  x.input = .timer → ∀ id, Asleep id (past ++ [x]) → id ∈ x.after.taskQueue

/-- A registration replaces the waker of another task only if that task does not sleep or is
queued. -/
def Spares (past : List (Call State Event Unit)) (x : Call State Event Unit) : Prop :=
  ∀ id owner, x.input = .register id → x.before.timerWaker = some owner → owner ≠ id →
    Asleep owner past → owner ∈ x.before.taskQueue

/-- What holds of each event of a run and the events in front of it. -/
def Throughout (P : List (Call State Event Unit) → Call State Event Unit → Prop)
    (t : List (Call State Event Unit)) : Prop :=
  ∀ past x rest, t = past ++ x :: rest → P past x

instance (id : TaskId) : DecidablePred (sleeps id) := fun x ↦
  inferInstanceAs (Decidable (x.input = .register id))

instance (id : TaskId) : DecidablePred (wakesUp id) := fun x ↦
  inferInstanceAs (Decidable (begins id x ∨ x.input = .finish id))

variable {s s' : State} {e : Event} {x y : Call State Event Unit} {id : TaskId}
  {t past : List (Call State Event Unit)}

theorem Throughout.of_append
    {P : List (Call State Event Unit) → Call State Event Unit → Prop}
    {rest : List (Call State Event Unit)} (h : Throughout P (t ++ rest)) : Throughout P t := by
  rintro past x rest' rfl
  exact h past x (rest' ++ rest) (by simp)

theorem asleep_append : Asleep id (t ++ [x]) ↔ sleeps id x ∨ Asleep id t ∧ ¬ wakesUp id x :=
  since_append

/-- An event that is not a registration puts nobody to sleep. -/
theorem Asleep.of_append (h : Asleep id (t ++ [x])) (hx : ¬ sleeps id x) : Asleep id t :=
  ((asleep_append.mp h).resolve_left hx).1

/-- The timer interrupt would queue the task if it is not queued. -/
def Covered (s : State) (id : TaskId) : Prop := id ∈ s.taskQueue ∨ s.timerWaker = some id

/-- The timer interrupt queues every task that is covered. -/
theorem Covered.timer (h : Steps x) (hx : x.input = .timer) (hid : Covered x.before id) :
    id ∈ x.after.taskQueue := by
  rw [State.taskQueue_step h, hx]
  rcases hid with hmem | hwaker
  · exact List.mem_append_left _ hmem
  · apply List.mem_append_right
    simp [State.pushed, hwaker]

/-- A sleeping task that is covered stays so, unless a registration replaces its waker. -/
theorem Covered.step (h : Steps x) (hspares : Spares past x) (hasleep : Asleep id past)
    (hx : ¬ wakesUp id x) (hid : Covered x.before id) : Covered x.after id := by
  have hkept : id ∈ x.before.taskQueue → id ∈ x.after.taskQueue :=
    mem_taskQueue_step h fun hbegins ↦ hx (.inl hbegins)
  rcases hid with hmem | hwaker
  · exact .inl (hkept hmem)
  by_cases htimer : x.input = .timer
  · exact .inl (Covered.timer h htimer (.inr hwaker))
  by_cases hregister : ∃ id', x.input = .register id'
  · obtain ⟨id', hid'⟩ := hregister
    by_cases heq : id = id'
    · refine .inr ?_
      rw [State.timerWaker_step h, hid', State.registered, heq]
    · exact .inl (hkept (hspares id' id hid' hwaker heq hasleep))
  · refine .inr ?_
    rw [State.timerWaker_step h]
    cases hinput : x.input with
    | register id' => exact absurd ⟨id', hinput⟩ hregister
    | timer => exact absurd hinput htimer
    | _ => exact hwaker

/-- While every registration spares the sleeping tasks, all of them are covered. -/
theorem covered_of_asleep (h : Run Steps .new t s) (hspares : Throughout Spares t) :
    ∀ id, Asleep id t → Covered s id := by
  revert hspares
  apply h.history (I := fun t s ↦ Throughout Spares t → ∀ id, Asleep id t → Covered s id)
  · intro t x hx hbefore hspares id hasleep
    rcases asleep_append.mp hasleep with hsleeps | ⟨hasleep, hnot⟩
    · refine .inr ?_
      rw [State.timerWaker_step hx, show x.input = .register id from hsleeps, State.registered]
    · exact Covered.step hx (hspares t x [] rfl) hasleep hnot
        (hbefore hspares.of_append id hasleep)
  · intro _ id hnil
    exact absurd hnil not_since_nil

/-- A registration that does not spare a sleeping task leaves it out of the next timer interrupt. -/
theorem not_allWoken_of_not_spares (hx : Steps x) (hy : Steps y) (hxy : x.after = y.before)
    (hspares : ¬ Spares past x) (htimer : y.input = .timer) : ¬ AllWoken (past ++ [x]) y := by
  unfold Spares at hspares
  simp only [not_forall] at hspares
  obtain ⟨id, owner, hinput, hwaker, hne, hasleep, hmem⟩ := hspares
  intro hall
  have hcalm : ∀ z : Call State Event Unit, z.input = .register id ∨ z.input = .timer →
      ¬ wakesUp owner z := by
    rintro z (hz | hz) (hbegins | hfinishes)
    · cases hz.symm.trans hbegins.1
    · cases hz.symm.trans hfinishes
    · cases hz.symm.trans hbegins.1
    · cases hz.symm.trans hfinishes
  have hstill : Asleep owner (past ++ [x] ++ [y]) :=
    asleep_append.mpr (.inr
      ⟨asleep_append.mpr (.inr ⟨hasleep, hcalm x (.inl hinput)⟩), hcalm y (.inr htimer)⟩)
  have hafter : owner ∈ y.after.taskQueue := hall htimer owner hstill
  rw [State.taskQueue_step hy, htimer, State.pushed, ← hxy, State.taskQueue_step hx,
    State.timerWaker_step hx, hinput] at hafter
  simp only [State.registered, State.pushed, reduceCtorEq, if_false, Option.toList_some,
    List.append_nil, List.mem_append, List.mem_singleton] at hafter
  exact hafter.elim hmem hne

/-- In a run whose registrations spare the sleeping tasks, every timer interrupt queues all of them;
and a registration that does not spare one leaves it out of a timer interrupt right behind it. -/
theorem sleepers_woken (h : Run Steps .new t s) :
    (Throughout Spares t → Throughout AllWoken t) ∧
    ∀ past x y rest, t = past ++ x :: y :: rest → ¬ Spares past x → y.input = .timer →
      ¬ AllWoken (past ++ [x]) y := by
  constructor
  · rintro hspares past x rest rfl htimer id hasleep
    obtain ⟨hpast, hx, -⟩ := h.split
    have hnot : ¬ sleeps id x := by
      intro hsleeps
      cases htimer.symm.trans hsleeps
    apply Covered.timer hx htimer
    exact covered_of_asleep hpast hspares.of_append id (hasleep.of_append hnot)
  · rintro past x y rest rfl hspares htimer
    obtain ⟨-, hx, hrest⟩ := h.split
    obtain ⟨hxy, hy⟩ := hrest.head
    exact not_allWoken_of_not_spares hx hy hxy hspares htimer

/-- Two tasks sleep, and the timer ticks. -/
def twoSleepers : List Event :=
  [.spawn 0, .spawn 1, .run, .pop, .lookup 0, .sleepPoll 0 5, .register 0, .pending 0, .pop,
    .lookup 1, .sleepPoll 1 9, .register 1, .pending 1, .timer]

/-- A single task is woken from its sleep. -/
theorem sleepers_woken_oneSleeper : ∃ t s, perform .new oneSleeper = some (t, s) ∧
    Throughout Spares t ∧ Throughout AllWoken t := by
  obtain ⟨⟨t, s⟩, ht⟩ : ∃ r, perform .new oneSleeper = some r :=
    Option.isSome_iff_exists.mp (by decide)
  have hempty : ((perform .new oneSleeper).map fun r ↦ r.1.all fun x ↦
      match x.input with
      | .register _ => x.before.timerWaker.isNone
      | _ => true) = some true := by
    decide
  rw [ht, Option.map_some, Option.some.injEq, List.all_eq_true] at hempty
  have hspares : Throughout Spares t := by
    rintro past x rest rfl id owner hinput hwaker
    have hx := hempty x (by simp)
    rw [hinput, hwaker] at hx
    cases hx
  exact ⟨t, s, ht, hspares, (sleepers_woken (steps_of_perform ht)).1 hspares⟩

/-- The second sleeping task has replaced the waker of the first. -/
theorem first_sleeper_lost : ¬ ∀ t s, Run Steps .new t s → Throughout AllWoken t := by
  intro hall
  obtain ⟨⟨t, s⟩, ht⟩ : ∃ r, perform .new twoSleepers = some r :=
    Option.isSome_iff_exists.mp (by decide)
  have hlast : ((perform .new twoSleepers).bind fun r ↦ r.1.getLast?.map fun x ↦
      decide (x.input = .timer ∧ Since (sleeps 0) (wakesUp 0) r.1 ∧
        0 ∉ x.after.taskQueue)) = some true := by
    decide
  rw [ht, Option.bind_some, Option.map_eq_some_iff] at hlast
  obtain ⟨x, hx, hlost⟩ := hlast
  obtain ⟨htimer, hasleep, hnot⟩ := of_decide_eq_true hlost
  obtain ⟨past, rfl⟩ := List.getLast?_eq_some_iff.mp hx
  exact hnot (hall _ s (steps_of_perform ht) past x [] rfl htimer 0 hasleep)

end SmallOs.Kernel.Executor
