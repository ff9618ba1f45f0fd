import SmallOs.Base.Outcome
import SmallOs.Base.Run

/-!
# The executor

`kernel/src/task/executor.rs` and what it shares with interrupts: the ready queue, the wakers and
the slot that the timer wakes. `Executor::run` is a sequence of small steps, and an interrupt may
come between any two of them while interrupts are enabled. Tasks are opaque: while one is polled
it may wake any task whose waker exists, and poll any `Sleep` (`kernel/src/task/sleep.rs`).
-/

namespace SmallOs.Kernel.Executor

open SmallOs.Base

/-- `kernel/src/task/mod.rs:13`. -/
abbrev TaskId := Nat

/-- Where `Executor::run` stands. -/
inductive Pc where
  /-- `run` has not been called yet. -/
  | setup
  /-- In front of `task_queue.pop()`. -/
  | ready
  /-- The id has been popped and its task is looked up next. -/
  | lookup (id : TaskId)
  /-- Inside of `task.poll`. -/
  | polling (id : TaskId)
  /-- Inside of `Sleep::poll`, behind the comparison with the ticks. -/
  | registering (id : TaskId)
  /-- In front of `interrupts::disable()`. -/
  | idle
  /-- In front of `task_queue.is_empty()`. -/
  | masked
  /-- In front of `enable_and_hlt()`. -/
  | halting
  /-- In front of `interrupts::enable()`. -/
  | enabling
  /-- The processor waits for an interrupt. -/
  | halted
  deriving DecidableEq, Repr

/-- The executor, the wakers and what the timer interrupt shares with `Sleep`. -/
structure State where
  /-- The keys of `tasks`. -/
  tasks : List TaskId
  /-- `task_queue`, the next id first. -/
  taskQueue : List TaskId
  /-- The keys of `waker_cache`. -/
  wakerCache : List TaskId
  /-- The tasks of all wakers that have been made; a clone of a waker outlives the cache. -/
  wakers : List TaskId
  /-- The interrupt flag of the processor. -/
  interrupts : Bool
  pc : Pc
  /-- `TIMER_TICKS`; `kernel/src/flags.rs:31`. -/
  timerTicks : Nat
  /-- The task whose waker `TIMER_WAKER` holds; `kernel/src/flags.rs:50`. -/
  timerWaker : Option TaskId
  deriving DecidableEq, Repr

/-- What may happen next, with the task that it happens to. -/
inductive Event where
  | spawn (id : TaskId)
  | run
  | pop
  | lookup (id : TaskId)
  /-- A waker is called during a poll. -/
  | wake (polled id : TaskId)
  /-- A `Sleep` with a target is polled during a poll. -/
  | sleepPoll (polled target : Nat)
  | register (id : TaskId)
  | pending (id : TaskId)
  | finish (id : TaskId)
  | disable
  | isEmpty
  | enable
  | enableAndHlt
  /-- An interrupt whose handler calls wakers. -/
  | interrupt (ids : List TaskId)
  | timer
  deriving DecidableEq, Repr

/-- The capacity in `kernel/src/task/executor.rs:18`. -/
def capacity : Nat := 100

/-- `task_queue.push(id)`, which is expected to find room. -/
def push (queue : List TaskId) (id : TaskId) : Outcome Unit (List TaskId) := do
  Outcome.assert (queue.length < capacity)
  return queue ++ [id]

/-- An event happens only where its condition holds. -/
def onlyIf (p : Prop) [Decidable p] (next : Outcome Unit State) : Outcome Unit State :=
  if p then next else .err ()

namespace State

/-- `kernel/src/task/executor.rs:15–21`, with interrupts enabled by `kernel/src/lib.rs:57`. -/
def new : State := ⟨[], [], [], [], true, .setup, 0, none⟩

/-- `kernel/src/task/executor.rs:23–29`. -/
def spawn (s : State) (id : TaskId) : Outcome Unit State := do
  Outcome.assert (id ∉ s.tasks)
  let taskQueue ← push s.taskQueue id
  return { s with tasks := id :: s.tasks, taskQueue }

/-- `task_queue.pop()` of the loop; `kernel/src/task/executor.rs:34`. -/
def pop (s : State) : State :=
  match s.taskQueue with
  | [] => { s with pc := .idle }
  | id :: taskQueue => { s with taskQueue, pc := .lookup id }

/-- `kernel/src/task/executor.rs:35–42`. -/
def lookup (s : State) (id : TaskId) : State :=
  if id ∈ s.tasks then
    let fresh := if id ∈ s.wakerCache then [] else [id]
    { s with
      wakerCache := fresh ++ s.wakerCache
      wakers := fresh ++ s.wakers
      pc := .polling id }
  else { s with pc := .ready }

/-- `kernel/src/task/executor.rs:83`. -/
def wakeTask (s : State) (id : TaskId) : Outcome Unit State := do
  let taskQueue ← push s.taskQueue id
  return { s with taskQueue }

/-- `kernel/src/task/executor.rs:43–46`. -/
def finish (s : State) (id : TaskId) : State :=
  { s with
    tasks := s.tasks.filter (· ≠ id)
    wakerCache := s.wakerCache.filter (· ≠ id)
    pc := .ready }

/-- The comparison in `Sleep::poll`; `kernel/src/task/sleep.rs:24–26`. -/
def sleepPoll (s : State) (id : TaskId) (target : Nat) : State :=
  if target ≤ s.timerTicks then s else { s with pc := .registering id }

/-- `TIMER_WAKER.register`, and `Sleep::poll` is pending; `kernel/src/task/sleep.rs:27–28`. -/
def register (s : State) (id : TaskId) : State :=
  { s with timerWaker := some id, pc := .polling id }

/-- A handler returns to where the interrupt came, and a halted processor goes on. -/
def resume (s : State) : State := if s.pc = .halted then { s with pc := .ready } else s

/-- `kernel/src/interrupts/mod.rs:66–70`: a tick, and the waker is taken out and called. -/
def timer (s : State) : Outcome Unit State :=
  let s' := { s with timerTicks := (s.timerTicks + 1) % 2 ^ 64, timerWaker := none }
  s.timerWaker.toList.foldlM wakeTask s'

/-- What an event leads to. -/
def step (s : State) : Event → Outcome Unit State
  | .spawn id => onlyIf (s.pc = .setup) (s.spawn id)
  | .run => onlyIf (s.pc = .setup) (.ok { s with pc := .ready })
  | .pop => onlyIf (s.pc = .ready) (.ok s.pop)
  | .lookup id => onlyIf (s.pc = .lookup id) (.ok (s.lookup id))
  | .wake polled id => onlyIf (s.pc = .polling polled ∧ id ∈ s.wakers) (s.wakeTask id)
  | .sleepPoll polled target => onlyIf (s.pc = .polling polled) (.ok (s.sleepPoll polled target))
  | .register id => onlyIf (s.pc = .registering id) (.ok (s.register id))
  | .pending id => onlyIf (s.pc = .polling id) (.ok { s with pc := .ready })
  | .finish id => onlyIf (s.pc = .polling id) (.ok (s.finish id))
  | .disable => onlyIf (s.pc = .idle) (.ok { s with interrupts := false, pc := .masked })
  | .isEmpty =>
    onlyIf (s.pc = .masked)
      (.ok { s with pc := if s.taskQueue = [] then .halting else .enabling })
  | .enable => onlyIf (s.pc = .enabling) (.ok { s with interrupts := true, pc := .ready })
  | .enableAndHlt => onlyIf (s.pc = .halting) (.ok { s with interrupts := true, pc := .halted })
  | .interrupt ids =>
    onlyIf (s.interrupts ∧ ∀ id ∈ ids, id ∈ s.wakers) (ids.foldlM wakeTask s.resume)
  | .timer => onlyIf s.interrupts s.resume.timer

end State

/-! ### What the functions keep -/

@[simp] theorem onlyIf_eq_ok {p : Prop} [Decidable p] {next : Outcome Unit State} {s : State} :
    onlyIf p next = .ok s ↔ p ∧ next = .ok s := by
  unfold onlyIf
  split <;> simp [*]

theorem push_eq_ok {queue queue' : List TaskId} {id : TaskId} :
    push queue id = .ok queue' ↔ queue.length < capacity ∧ queue ++ [id] = queue' := by
  simp [push, Outcome.bind_eq_ok]

namespace State

variable {s s' : State} {e : Event} {id : TaskId} {ids : List TaskId}

theorem spawn_eq_ok : s.spawn id = .ok s' ↔ id ∉ s.tasks ∧ s.taskQueue.length < capacity ∧
    { s with tasks := id :: s.tasks, taskQueue := s.taskQueue ++ [id] } = s' := by
  simp [spawn, Outcome.bind_eq_ok, push_eq_ok, and_assoc]

theorem wakeTask_eq_ok : s.wakeTask id = .ok s' ↔
    s.taskQueue.length < capacity ∧ { s with taskQueue := s.taskQueue ++ [id] } = s' := by
  simp [wakeTask, Outcome.bind_eq_ok, push_eq_ok, and_assoc]

/-- A handler that has called wakers has appended their tasks. -/
theorem of_foldlM_wakeTask (h : ids.foldlM wakeTask s = .ok s') :
    { s with taskQueue := s.taskQueue ++ ids } = s' := by
  induction ids generalizing s with
  | nil =>
    cases h
    simp
  | cons id ids ih =>
    rw [List.foldlM_cons, Outcome.bind_eq_ok] at h
    obtain ⟨s₁, hid, hids⟩ := h
    obtain ⟨-, rfl⟩ := wakeTask_eq_ok.mp hid
    rw [← ih hids]
    simp

@[simp] theorem pop_taskQueue : s.pop.taskQueue = s.taskQueue.tail := by
  cases h : s.taskQueue <;> simp [pop, h]
@[simp] theorem pop_tasks : s.pop.tasks = s.tasks := by unfold pop; split <;> rfl
@[simp] theorem pop_timerWaker : s.pop.timerWaker = s.timerWaker := by unfold pop; split <;> rfl

@[simp] theorem lookup_taskQueue : (s.lookup id).taskQueue = s.taskQueue := by
  unfold lookup; split <;> rfl
@[simp] theorem lookup_tasks : (s.lookup id).tasks = s.tasks := by unfold lookup; split <;> rfl
@[simp] theorem lookup_timerWaker : (s.lookup id).timerWaker = s.timerWaker := by
  unfold lookup; split <;> rfl

@[simp] theorem sleepPoll_taskQueue {target : Nat} :
    (s.sleepPoll id target).taskQueue = s.taskQueue := by unfold sleepPoll; split <;> rfl
@[simp] theorem sleepPoll_tasks {target : Nat} : (s.sleepPoll id target).tasks = s.tasks := by
  unfold sleepPoll; split <;> rfl
@[simp] theorem sleepPoll_timerWaker {target : Nat} :
    (s.sleepPoll id target).timerWaker = s.timerWaker := by unfold sleepPoll; split <;> rfl

@[simp] theorem resume_taskQueue : s.resume.taskQueue = s.taskQueue := by
  unfold resume; split <;> rfl
@[simp] theorem resume_tasks : s.resume.tasks = s.tasks := by unfold resume; split <;> rfl
@[simp] theorem resume_timerWaker : s.resume.timerWaker = s.timerWaker := by
  unfold resume; split <;> rfl

/-! ### What an event does -/

/-- The state after an event that ends well. -/
def after (s : State) : Event → State
  | .spawn id => { s with tasks := id :: s.tasks, taskQueue := s.taskQueue ++ [id] }
  | .run => { s with pc := .ready }
  | .pop => s.pop
  | .lookup id => s.lookup id
  | .wake _ id => { s with taskQueue := s.taskQueue ++ [id] }
  | .sleepPoll polled target => s.sleepPoll polled target
  | .register id => s.register id
  | .pending _ => { s with pc := .ready }
  | .finish id => s.finish id
  | .disable => { s with interrupts := false, pc := .masked }
  | .isEmpty => { s with pc := if s.taskQueue = [] then .halting else .enabling }
  | .enable => { s with interrupts := true, pc := .ready }
  | .enableAndHlt => { s with interrupts := true, pc := .halted }
  | .interrupt ids => { s.resume with taskQueue := s.taskQueue ++ ids }
  | .timer =>
    { s.resume with
      timerTicks := (s.resume.timerTicks + 1) % 2 ^ 64
      timerWaker := none
      taskQueue := s.taskQueue ++ s.timerWaker.toList }

theorem step_eq_ok (h : s.step e = .ok s') : s' = s.after e := by
  cases e with
  | spawn id =>
    obtain ⟨-, h⟩ := onlyIf_eq_ok.mp h
    exact (spawn_eq_ok.mp h).2.2.symm
  | wake polled id =>
    obtain ⟨-, h⟩ := onlyIf_eq_ok.mp h
    exact (wakeTask_eq_ok.mp h).2.symm
  | interrupt ids =>
    obtain ⟨-, h⟩ := onlyIf_eq_ok.mp h
    rw [← of_foldlM_wakeTask h, resume_taskQueue]
    rfl
  | timer =>
    obtain ⟨-, h⟩ := onlyIf_eq_ok.mp h
    rw [← of_foldlM_wakeTask h, resume_taskQueue, resume_timerWaker]
    rfl
  | _ => exact (Outcome.ok.inj (onlyIf_eq_ok.mp h).2).symm

/-- The ids that an event pushes. -/
def pushed (s : State) : Event → List TaskId
  | .spawn id => [id]
  | .wake _ id => [id]
  | .interrupt ids => ids
  | .timer => s.timerWaker.toList
  | _ => []

/-- An event takes an id from the front if it is a pop, and appends what it pushes. -/
theorem taskQueue_step (h : s.step e = .ok s') :
    s'.taskQueue = (if e = .pop then s.taskQueue.tail else s.taskQueue) ++ s.pushed e := by
  rw [step_eq_ok h]
  cases e <;> simp [after, pushed, register, finish]

/-- A task is there from its spawn until it finishes. -/
theorem mem_tasks_step (h : s.step e = .ok s') :
    id ∈ s'.tasks ↔ e = .spawn id ∨ id ∈ s.tasks ∧ e ≠ .finish id := by
  rw [step_eq_ok h]
  cases e with
  | spawn id' => simp [after, eq_comm]
  | finish id' => simp [after, finish, eq_comm (a := id') (b := id)]
  | _ => simp [after, register]

/-- The task whose waker `TIMER_WAKER` holds after an event. -/
def registered (s : State) : Event → Option TaskId
  | .register id => some id
  | .timer => none
  | _ => s.timerWaker

/-- The waker in `TIMER_WAKER` is the one registered last, until the timer takes it. -/
theorem timerWaker_step (h : s.step e = .ok s') : s'.timerWaker = s.registered e := by
  rw [step_eq_ok h]
  cases e <;> simp [after, registered, register, finish]

/-- Where the executor stands after an event. -/
def pcAfter (s : State) : Event → Pc
  | .spawn _ => s.pc
  | .run => .ready
  | .pop => match s.taskQueue.head? with
    | none => .idle
    | some id => .lookup id
  | .lookup id => if id ∈ s.tasks then .polling id else .ready
  | .wake _ _ => s.pc
  | .sleepPoll polled target => if target ≤ s.timerTicks then s.pc else .registering polled
  | .register id => .polling id
  | .pending _ => .ready
  | .finish _ => .ready
  | .disable => .masked
  | .isEmpty => if s.taskQueue = [] then .halting else .enabling
  | .enable => .ready
  | .enableAndHlt => .halted
  | .interrupt _ => if s.pc = .halted then .ready else s.pc
  | .timer => if s.pc = .halted then .ready else s.pc

theorem pc_step (h : s.step e = .ok s') : s'.pc = s.pcAfter e := by
  rw [step_eq_ok h]
  cases e with
  | pop =>
    unfold after pop pcAfter
    cases s.taskQueue <;> rfl
  | lookup id => by_cases hid : id ∈ s.tasks <;> simp [after, lookup, pcAfter, hid]
  | sleepPoll polled target =>
    by_cases hticks : target ≤ s.timerTicks <;> simp [after, sleepPoll, pcAfter, hticks]
  | interrupt ids =>
    by_cases hhalted : s.pc = .halted <;> simp [after, resume, pcAfter, hhalted]
  | timer => by_cases hhalted : s.pc = .halted <;> simp [after, resume, pcAfter, hhalted]
  | _ => rfl

end State

/-! ### Runs -/

/-- The events that end well. -/
def Steps (x : Call State Event Unit) : Prop := x.before.step x.input = .ok x.after

theorem Steps.of_input {x : Call State Event Unit} {e : Event} (h : Steps x) (hx : x.input = e) :
    x.before.step e = .ok x.after := by
  rw [← hx]
  exact h

/-- What a list of events leads to if all of them end well. -/
def perform (s : State) (events : List Event) : Option (List (Call State Event Unit) × State) :=
  trace (fun s e ↦ match s.step e with | .ok s' => some ((), s') | _ => none) s events

theorem steps_of_perform {s s' : State} {events : List Event} {t : List (Call State Event Unit)}
    (h : perform s events = some (t, s')) : Run Steps s t s' := by
  apply (run_trace h).mono
  intro x hx
  unfold Steps
  split at hx
  · rename_i hstep
    rw [hstep, (Prod.mk.inj (Option.some.inj hx)).2]
  · cases hx

end SmallOs.Kernel.Executor
