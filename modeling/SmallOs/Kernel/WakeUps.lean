import SmallOs.Kernel.Executor

/-!
# No wake-up is lost

Whatever order polls, wakes and interrupts come in, a task that was woken behind the beginning
of its last poll waits in the queue, a finished task is not polled again, and the processor is
halted only while the queue is empty.
-/

namespace SmallOs.Kernel.Executor

open SmallOs.Base

/-- The event wakes or spawns the task. -/
def wakes (id : TaskId) (x : Call State Event Unit) : Prop := id ∈ x.before.pushed x.input

/-- The pop that a poll of the task begins with. -/
def begins (id : TaskId) (x : Call State Event Unit) : Prop :=
  x.input = .pop ∧ x.before.taskQueue.head? = some id

/-- The lookup that finds the task, and `task.poll` is called. -/
def polls (id : TaskId) (x : Call State Event Unit) : Prop :=
  x.input = .lookup id ∧ id ∈ x.before.tasks

/-- The poll of the task returns that it is ready. -/
def finishes (id : TaskId) (x : Call State Event Unit) : Prop := x.input = .finish id

instance (id : TaskId) : DecidablePred (wakes id) := fun x ↦
  inferInstanceAs (Decidable (id ∈ x.before.pushed x.input))

instance (id : TaskId) : DecidablePred (begins id) := fun x ↦
  inferInstanceAs (Decidable (x.input = .pop ∧ x.before.taskQueue.head? = some id))

variable {s s' : State} {e : Event} {x : Call State Event Unit} {id : TaskId}
  {t : List (Call State Event Unit)}

/-! ### The queue -/

/-- A woken task is in the queue. -/
theorem mem_taskQueue_of_wakes (h : Steps x) (hx : wakes id x) : id ∈ x.after.taskQueue := by
  rw [State.taskQueue_step h]
  exact List.mem_append_right _ hx

/-- It stays there until it is popped. -/
theorem mem_taskQueue_step (h : Steps x) (hx : ¬ begins id x) (hmem : id ∈ x.before.taskQueue) :
    id ∈ x.after.taskQueue := by
  rw [State.taskQueue_step h]
  apply List.mem_append_left
  split
  · rename_i hpop
    cases hqueue : x.before.taskQueue with
    | nil => rwa [hqueue] at hmem
    | cons head tail =>
      rw [hqueue] at hmem
      rcases List.mem_cons.mp hmem with rfl | htail
      · exact absurd ⟨hpop, by rw [hqueue]; rfl⟩ hx
      · exact htail
  · exact hmem

/-- A task woken or spawned behind the beginning of its last poll is in the queue. -/
theorem mem_taskQueue_of_since (h : Run Steps .new t s) :
    Since (wakes id) (begins id) t → id ∈ s.taskQueue :=
  h.since (J := fun s ↦ id ∈ s.taskQueue) (fun _ ↦ mem_taskQueue_of_wakes)
    fun _ ↦ mem_taskQueue_step

/-! ### The lookup -/

/-- What is popped is looked up. -/
theorem pc_of_begins (h : Steps x) (hx : begins id x) : x.after.pc = .lookup id := by
  obtain ⟨hpop, hhead⟩ := hx
  rw [State.pc_step h, hpop, State.pcAfter, hhead]

/-- While an id waits to be looked up, only interrupts happen. -/
theorem State.pc_of_lookup (h : s.step e = .ok s') (hpc : s.pc = .lookup id) :
    e = .lookup id ∨ s'.pc = .lookup id := by
  cases e with
  | interrupt ids => exact .inr (by simp [pc_step h, pcAfter, hpc])
  | timer => exact .inr (by simp [pc_step h, pcAfter, hpc])
  | lookup id' =>
    obtain ⟨hpc', -⟩ := onlyIf_eq_ok.mp h
    cases hpc.symm.trans hpc'
    exact .inl rfl
  | _ => simp [step, hpc] at h

/-- A task that is not finished, and was woken or spawned behind the last call of its `poll`, is in
the queue or has just been popped. -/
theorem mem_or_lookup_of_since (h : Run Steps .new t s) (hid : id ∈ s.tasks)
    (hsince : Since (wakes id) (polls id) t) : id ∈ s.taskQueue ∨ s.pc = .lookup id := by
  revert hid
  apply h.since (J := fun s ↦ id ∈ s.tasks → id ∈ s.taskQueue ∨ s.pc = .lookup id) _ _ hsince
  · intro x hx hwakes _
    exact .inl (mem_taskQueue_of_wakes hx hwakes)
  · intro x hx hpolls hbefore hid
    rcases (State.mem_tasks_step hx).mp hid with hspawn | ⟨hid, -⟩
    · exact .inl (mem_taskQueue_of_wakes hx (by simp [wakes, hspawn, State.pushed]))
    rcases hbefore hid with hmem | hpc
    · by_cases hbegins : begins id x
      · exact .inr (pc_of_begins hx hbegins)
      · exact .inl (mem_taskQueue_step hx hbegins hmem)
    · rcases State.pc_of_lookup hx hpc with hlookup | hpc
      · exact absurd ⟨hlookup, hid⟩ hpolls
      · exact .inr hpc

/-! ### Finished tasks -/

/-- Once the executor runs, it stays out of its setup. -/
theorem State.pc_ne_setup_step (h : s.step e = .ok s') (hpc : s.pc ≠ .setup) :
    s'.pc ≠ .setup := by
  rw [pc_step h]
  cases e with
  | spawn id => exact hpc
  | wake polled id => exact hpc
  | pop =>
    rw [pcAfter]
    split <;> exact Pc.noConfusion
  | lookup id =>
    rw [pcAfter]
    split <;> exact Pc.noConfusion
  | sleepPoll polled target =>
    rw [pcAfter]
    split
    · exact hpc
    · exact Pc.noConfusion
  | isEmpty =>
    rw [pcAfter]
    split <;> exact Pc.noConfusion
  | interrupt ids =>
    rw [pcAfter]
    split
    · exact Pc.noConfusion
    · exact hpc
  | timer =>
    rw [pcAfter]
    split
    · exact Pc.noConfusion
    · exact hpc
  | _ => exact Pc.noConfusion

/-- A finished task is gone, and the executor runs. -/
theorem gone_of_finishes (h : Steps x) (hx : finishes id x) :
    x.after.pc ≠ .setup ∧ id ∉ x.after.tasks := by
  have hstep : x.before.step (.finish id) = .ok x.after := h.of_input hx
  constructor
  · rw [State.pc_step hstep]
    exact Pc.noConfusion
  · intro hmem
    rcases (State.mem_tasks_step hstep).mp hmem with hspawn | ⟨-, hne⟩
    · exact Event.noConfusion hspawn
    · exact hne rfl

/-- While the executor runs, no task comes back. -/
theorem gone_step (h : Steps x) (hx : x.before.pc ≠ .setup ∧ id ∉ x.before.tasks) :
    x.after.pc ≠ .setup ∧ id ∉ x.after.tasks := by
  obtain ⟨hpc, hid⟩ := hx
  refine ⟨State.pc_ne_setup_step h hpc, ?_⟩
  intro hmem
  rcases (State.mem_tasks_step h).mp hmem with hspawn | ⟨hmem, -⟩
  · exact hpc (onlyIf_eq_ok.mp (h.of_input hspawn)).1
  · exact hid hmem

/-- A task that has finished is not polled again. -/
theorem not_polls_of_finishes {t₁ t₂ : List (Call State Event Unit)}
    (h : Run Steps .new (t₁ ++ x :: t₂) s) (hx : finishes id x) : ∀ y ∈ t₂, ¬ polls id y := by
  obtain ⟨-, hstep, hafter⟩ := h.split
  obtain ⟨-, hall⟩ := hafter.invariant (I := fun s ↦ s.pc ≠ .setup ∧ id ∉ s.tasks)
    (fun _ ↦ gone_step) (gone_of_finishes hstep hx)
  intro y hy hpolls
  exact (hall y hy).1.2 hpolls.2

/-! ### The halted processor -/

/-- Between the emptiness check and the halt nobody pushes, as interrupts are disabled. -/
structure Idle (s : State) : Prop where
  masked : s.pc = .masked ∨ s.pc = .halting ∨ s.pc = .enabling → s.interrupts = false
  empty : s.pc = .halting ∨ s.pc = .halted → s.taskQueue = []

/-- Elsewhere there is nothing to show. -/
theorem Idle.of_pc (h : s.pc ∉ [.masked, .halting, .enabling, .halted]) : Idle s := by
  simp only [List.mem_cons, List.not_mem_nil, or_false, not_or] at h
  constructor
  · rintro (hpc | hpc | hpc) <;> simp [hpc] at h
  · rintro (hpc | hpc) <;> simp [hpc] at h

/-- An interrupt finds interrupts enabled, and leaves a halted processor running. -/
theorem Idle.of_interrupt (hs : Idle s) (hinterrupts : s.interrupts = true)
    (hpc : s'.pc = if s.pc = .halted then .ready else s.pc) : Idle s' := by
  apply Idle.of_pc
  intro hmem
  rw [hpc] at hmem
  split at hmem
  · simp at hmem
  · have hfalse : s.interrupts = false := hs.masked (by simp_all)
    exact absurd (hinterrupts.symm.trans hfalse) Bool.noConfusion

theorem Idle.step (h : s.step e = .ok s') (hs : Idle s) : Idle s' := by
  have hpc := State.pc_step h
  cases e with
  | spawn id =>
    have hsetup : s.pc = .setup := (onlyIf_eq_ok.mp h).1
    exact .of_pc (by simp [hpc, State.pcAfter, hsetup])
  | wake polled id =>
    have hpolling : s.pc = .polling polled := (onlyIf_eq_ok.mp h).1.1
    exact .of_pc (by simp [hpc, State.pcAfter, hpolling])
  | sleepPoll polled target =>
    have hpolling : s.pc = .polling polled := (onlyIf_eq_ok.mp h).1
    apply Idle.of_pc
    rw [hpc, State.pcAfter, hpolling]
    split <;> simp
  | pop =>
    apply Idle.of_pc
    rw [hpc, State.pcAfter]
    split <;> simp
  | lookup id =>
    apply Idle.of_pc
    rw [hpc, State.pcAfter]
    split <;> simp
  | interrupt ids => exact hs.of_interrupt (onlyIf_eq_ok.mp h).1.1 hpc
  | timer => exact hs.of_interrupt (onlyIf_eq_ok.mp h).1 hpc
  | disable =>
    obtain ⟨-, h⟩ := onlyIf_eq_ok.mp h
    cases h
    exact ⟨fun _ ↦ rfl, by simp⟩
  | isEmpty =>
    obtain ⟨hmasked, h⟩ := onlyIf_eq_ok.mp h
    cases h
    refine ⟨fun _ ↦ hs.masked (.inl hmasked), ?_⟩
    by_cases hempty : s.taskQueue = []
    · exact fun _ ↦ hempty
    · simp [hempty]
  | enableAndHlt =>
    obtain ⟨hhalting, h⟩ := onlyIf_eq_ok.mp h
    cases h
    exact ⟨by simp, fun _ ↦ hs.empty (.inl hhalting)⟩
  | _ => exact .of_pc (by simp [hpc, State.pcAfter])

/-- The processor is halted only while the queue is empty. -/
theorem idle_of_run (h : Run Steps .new t s) : Idle s ∧ ∀ x ∈ t, Idle x.before ∧ Idle x.after :=
  h.invariant (fun _ hx ↦ Idle.step hx) (.of_pc (by simp [State.new]))

/-! ### The executor -/

/-- In every state that a run of the executor reaches: a task woken or spawned behind the pop that
its last poll began with is in the queue, and behind the call of its `poll` itself it is there or
has just been popped, unless it has finished; a finished task is never polled again; and the
processor halts, and is halted, only while the queue is empty. -/
theorem no_wakeup_lost (h : Run Steps .new t s) :
    (∀ id, Since (wakes id) (begins id) t → id ∈ s.taskQueue) ∧
    (∀ id ∈ s.tasks, Since (wakes id) (polls id) t → id ∈ s.taskQueue ∨ s.pc = .lookup id) ∧
    (∀ id t₁ x t₂, t = t₁ ++ x :: t₂ → finishes id x → ∀ y ∈ t₂, ¬ polls id y) ∧
    (s.pc = .halted → s.taskQueue = []) ∧
    ∀ x ∈ t, x.input = .enableAndHlt → x.before.taskQueue = [] := by
  obtain ⟨hlast, hall⟩ := idle_of_run h
  refine ⟨fun id ↦ mem_taskQueue_of_since h, fun id ↦ mem_or_lookup_of_since h, ?_,
    fun hpc ↦ hlast.empty (.inr hpc), ?_⟩
  · rintro id t₁ x t₂ rfl hx
    exact not_polls_of_finishes h hx
  · intro x hx hinput
    apply (hall x hx).1.empty
    have hstep : Steps x := h.mem hx
    exact .inl (onlyIf_eq_ok.mp (hstep.of_input hinput)).1

/-- A task sleeps, the processor is halted, and the timer wakes both. -/
def oneSleeper : List Event :=
  [.spawn 0, .run, .pop, .lookup 0, .sleepPoll 0 3, .register 0, .pending 0, .pop, .disable,
    .isEmpty, .enableAndHlt, .timer]

theorem no_wakeup_lost_oneSleeper : ∃ t s, perform .new oneSleeper = some (t, s) ∧
    Since (wakes 0) (begins 0) t ∧ 0 ∈ s.taskQueue := by
  obtain ⟨⟨t, s⟩, ht⟩ : ∃ r, perform .new oneSleeper = some r :=
    Option.isSome_iff_exists.mp (by decide)
  have hlast : ((perform .new oneSleeper).map fun r ↦
      decide (Since (wakes 0) (begins 0) r.1)) = some true := by decide
  rw [ht] at hlast
  have hsince : Since (wakes 0) (begins 0) t := of_decide_eq_true (Option.some.inj hlast)
  exact ⟨t, s, ht, hsince, (no_wakeup_lost (steps_of_perform ht)).1 0 hsince⟩

end SmallOs.Kernel.Executor
