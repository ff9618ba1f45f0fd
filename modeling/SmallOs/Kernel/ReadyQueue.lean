import SmallOs.Base.Backlog
import SmallOs.Kernel.Executor

/-!
# The room in the ready queue

A waker pushes its id however often the id is queued already, so a burst of wakes fills the queue
of 100 ids for as few as one task. A push finds room exactly when no stretch of the run that ends
with it has pushed more than 100 ids above the number of pops.
-/

namespace SmallOs.Kernel.Executor

open SmallOs.Base

variable {s s' : State} {e : Event} {id : TaskId} {ids : List TaskId}
  {t : List (Call State Event Unit)}

/-! ### One event -/

/-- A possible event leads where its function leads. -/
theorem onlyIf_of_ne_err {p : Prop} [Decidable p] {next : Outcome Unit State}
    (h : onlyIf p next ≠ .err ()) : onlyIf p next = next := by
  unfold onlyIf at h ⊢
  split
  · rfl
  · rename_i hp
    rw [if_neg hp] at h
    exact absurd rfl h

theorem push_eq_panic {queue : List TaskId} :
    push queue id = .panic ↔ capacity ≤ queue.length := by
  unfold push Outcome.assert
  split
  · simp only [Outcome.ok_bind, Outcome.pure_eq_ok, reduceCtorEq, false_iff]
    omega
  · simp only [Outcome.panic_bind, true_iff]
    omega

/-- What follows a push panics only with it. -/
theorem push_bind_eq_panic {queue : List TaskId} {f : List TaskId → State} :
    (push queue id >>= fun queue ↦ .ok (f queue)) = .panic ↔ capacity ≤ queue.length := by
  rw [← @push_eq_panic id]
  cases push queue id <;> simp

namespace State

theorem wakeTask_eq_panic : s.wakeTask id = .panic ↔ capacity ≤ s.taskQueue.length :=
  push_bind_eq_panic

theorem spawn_eq_panic (hid : id ∉ s.tasks) :
    s.spawn id = .panic ↔ capacity ≤ s.taskQueue.length := by
  rw [spawn, Outcome.assert_of hid, Outcome.ok_bind]
  exact push_bind_eq_panic

/-- A handler that calls wakers panics when the queue has no room for all of their tasks. -/
theorem foldlM_wakeTask_eq_panic (hs : s.taskQueue.length ≤ capacity) :
    ids.foldlM wakeTask s = .panic ↔ capacity < s.taskQueue.length + ids.length := by
  induction ids generalizing s with
  | nil =>
    simp only [List.foldlM_nil, Outcome.pure_eq_ok, reduceCtorEq, false_iff, List.length_nil]
    omega
  | cons id ids ih =>
    rw [List.foldlM_cons, List.length_cons]
    by_cases hlen : s.taskQueue.length < capacity
    · rw [wakeTask_eq_ok.mpr ⟨hlen, rfl⟩, Outcome.ok_bind, ih]
      · simp only [List.length_append, List.length_cons, List.length_nil]
        omega
      · simp only [List.length_append, List.length_cons, List.length_nil]
        omega
    · rw [wakeTask_eq_panic.mpr (Nat.not_lt.mp hlen), Outcome.panic_bind]
      simp only [true_iff]
      omega

/-- A possible event panics exactly when the queue has no room for all that it pushes. -/
theorem step_eq_panic (he : s.step e ≠ .err ()) (hfresh : ∀ id, e = .spawn id → id ∉ s.tasks)
    (hs : s.taskQueue.length ≤ capacity) :
    s.step e = .panic ↔ capacity < s.taskQueue.length + (s.pushed e).length := by
  cases e with
  | spawn id =>
    rw [step, onlyIf_of_ne_err he, spawn_eq_panic (hfresh id rfl)]
    exact Nat.lt_succ_iff.symm
  | wake polled id =>
    rw [step, onlyIf_of_ne_err he, wakeTask_eq_panic]
    exact Nat.lt_succ_iff.symm
  | interrupt ids =>
    rw [step, onlyIf_of_ne_err he, foldlM_wakeTask_eq_panic (by rwa [resume_taskQueue]),
      resume_taskQueue]
    rfl
  | timer =>
    rw [step, onlyIf_of_ne_err he, timer, foldlM_wakeTask_eq_panic (by simpa using hs),
      resume_taskQueue, resume_timerWaker]
    rfl
  | _ =>
    rw [step, onlyIf_of_ne_err he]
    simp only [reduceCtorEq, pushed, List.length_nil, false_iff]
    omega

/-- The queue never holds more than its capacity. -/
theorem length_step (h : s.step e = .ok s') (hs : s.taskQueue.length ≤ capacity) :
    s'.taskQueue.length ≤ capacity := by
  have hfresh : ∀ id, e = .spawn id → id ∉ s.tasks := by
    rintro id rfl
    exact (spawn_eq_ok.mp (onlyIf_eq_ok.mp h).2).1
  have hroom : ¬ capacity < s.taskQueue.length + (s.pushed e).length := by
    rw [← step_eq_panic (by simp [h]) hfresh hs, h]
    simp
  rw [taskQueue_step h, List.length_append]
  split
  · rw [List.length_tail]
    omega
  · omega

end State

/-! ### Runs -/

/-- How many ids the events push: one for a spawn or a wake, and one for a timer interrupt that
finds a waker. -/
def pushes (t : List (Call State Event Unit)) : Nat :=
  (t.map fun x ↦ (x.before.pushed x.input).length).sum

/-- How often the executor pops, from an empty queue too. -/
def pops (t : List (Call State Event Unit)) : Nat := t.countP fun x ↦ x.input = .pop

/-- How an event changes the length of the queue, unless it pops from an empty one. -/
def drift (x : Call State Event Unit) : Int :=
  (x.before.pushed x.input).length - if x.input = .pop then 1 else 0

theorem sum_drift : (t.map drift).sum = (pushes t : Int) - pops t := by
  induction t with
  | nil => rfl
  | cons x t ih =>
    rw [List.map_cons, List.sum_cons, ih]
    simp only [pushes, pops, drift, List.map_cons, List.sum_cons, List.countP_cons,
      decide_eq_true_eq]
    split <;> omega

/-- An event changes the length of the queue by its drift. -/
theorem length_taskQueue_step {x : Call State Event Unit} (h : Steps x) :
    (x.after.taskQueue.length : Int) = max 0 (x.before.taskQueue.length + drift x) := by
  rw [State.taskQueue_step h, List.length_append]
  unfold drift
  by_cases hpop : x.input = .pop
  · rw [if_pos hpop, if_pos hpop, hpop]
    simp only [State.pushed, List.length_tail, List.length_nil]
    omega
  · rw [if_neg hpop, if_neg hpop]
    omega

/-- The queue is as long as the backlog of all that was pushed and popped. -/
theorem length_taskQueue (h : Run Steps .new t s) :
    (s.taskQueue.length : Int) = backlog 0 (t.map drift) := by
  apply h.history (I := fun t s ↦ (s.taskQueue.length : Int) = backlog 0 (t.map drift))
  · intro t x hx hbefore
    rw [length_taskQueue_step hx, hbefore, List.map_append, List.map_cons, List.map_nil,
      backlog_append]
  · rfl

/-- One task is polled, and its waker is called `n` times. -/
def burst (n : Nat) : List Event :=
  [.spawn 0, .run, .pop, .lookup 0] ++ List.replicate n (.wake 0 0)

/-- In every run, a possible event, which spawns no task twice, finds room for all that it pushes
exactly when no last stretch of the run pushes, together with it, more ids than the executor pops
and 100 more. -/
theorem room_iff (h : Run Steps .new t s) (he : s.step e ≠ .err ())
    (hfresh : ∀ id, e = .spawn id → id ∉ s.tasks) :
    s.step e ≠ .panic ↔
      ∀ recent, recent <:+ t →
        pushes recent + (s.pushed e).length ≤ pops recent + capacity := by
  have hlen : s.taskQueue.length ≤ capacity :=
    (h.invariant (I := fun s ↦ s.taskQueue.length ≤ capacity)
      (fun _ hx ↦ State.length_step hx) (Nat.zero_le _)).1
  have hbacklog : s.taskQueue.length + (s.pushed e).length ≤ capacity ↔
      backlog 0 (t.map drift) ≤ (capacity : Int) - (s.pushed e).length := by
    rw [← length_taskQueue h]
    omega
  rw [ne_eq, State.step_eq_panic he hfresh hlen, Nat.not_lt, hbacklog, backlog_zero_le_iff]
  constructor
  · intro hall recent hsuffix
    have hsum := hall (recent.map drift) (hsuffix.map drift)
    rw [sum_drift] at hsum
    omega
  · intro hall changes hsuffix
    obtain ⟨recent, hrecent, rfl⟩ := List.suffix_map_iff.mp hsuffix
    have hsum := hall recent hrecent
    rw [sum_drift]
    omega

/-- A stretch of a run that has pushed 100 ids and popped one finds room for one id more. -/
theorem room_iff_burst : ∃ t s, perform .new (burst 99) = some (t, s) ∧
    (s.step (.wake 0 0) ≠ .panic ↔
      ∀ recent, recent <:+ t → pushes recent + 1 ≤ pops recent + capacity) := by
  obtain ⟨⟨t, s⟩, ht⟩ : ∃ r, perform .new (burst 99) = some r :=
    Option.isSome_iff_exists.mp (by decide +kernel)
  have hlast : ((perform .new (burst 99)).map fun r ↦
      decide (r.2.step (.wake 0 0) ≠ .err ())) = some true := by
    decide +kernel
  rw [ht] at hlast
  exact ⟨t, s, ht, room_iff (steps_of_perform ht) (of_decide_eq_true (Option.some.inj hlast))
    (by simp)⟩

/-- The next call of a waker panics although there is only one task. -/
theorem burst_panics : ¬ ∀ t s polled id, Run Steps .new t s → s.tasks.length ≤ 100 →
    s.step (.wake polled id) ≠ .panic := by
  intro hall
  obtain ⟨⟨t, s⟩, ht⟩ : ∃ r, perform .new (burst 100) = some r :=
    Option.isSome_iff_exists.mp (by decide +kernel)
  have hlast : ((perform .new (burst 100)).map fun r ↦
      decide (r.2.tasks.length ≤ 100 ∧ r.2.step (.wake 0 0) = .panic)) = some true := by
    decide +kernel
  rw [ht] at hlast
  obtain ⟨htasks, hpanic⟩ := of_decide_eq_true (Option.some.inj hlast)
  exact hall t s 0 0 (steps_of_perform ht) htasks hpanic

end SmallOs.Kernel.Executor
