import SmallOs.Base.Run

/-!
# The stream of scancodes

`kernel/src/task/shell/scancodes.rs` and the keyboard handler of `kernel/src/interrupts/mod.rs`.
Each access to the queue and to the waker is a step, and the steps of an interrupt may fall between
any two of a poll. A waker is what `cx.waker()` gives, of any type.
-/

namespace SmallOs.Shell.Scancodes

open SmallOs.Base

/-- How far `poll_next` is: it is not running, the first `pop` has found nothing, the waker is
registered, or the second `pop` has found a code. -/
inductive Poll (W : Type) where
  | idle
  | missed (waker : W)
  | registered (waker : W)
  | got (code : UInt8)
  deriving DecidableEq

/-- `SCANCODE_QUEUE`, `KEYBOARD_WAKER`, whether a handler has pushed and not yet woken, and the
poll. -/
structure State (W : Type) where
  scancodeQueue : List UInt8
  keyboardWaker : Option W
  inHandler : Bool
  poll : Poll W
  deriving DecidableEq

inductive Event (W : Type) where
  | push (scancode : UInt8)
  | wake
  | pop (waker : W)
  | register
  | popAgain
  | take
  deriving DecidableEq

/-- What a step does besides: it wakes a task, or `poll_next` returns. -/
inductive Effect (W : Type) where
  | silent
  | woke (waker : W)
  | ready (code : UInt8)
  | pending (waker : W)
  deriving DecidableEq

variable {W : Type}

/-- What `ScancodeStream::new` finds and makes. -/
def State.new : State W := ⟨[], none, false, .idle⟩

/-- `ArrayQueue::push` on a queue for 256 codes, `.ok()`. -/
def pushCode (queue : List UInt8) (scancode : UInt8) : List UInt8 :=
  if queue.length < 256 then queue ++ [scancode] else queue

/-- A step of the handler, `kernel/src/interrupts/mod.rs:78–90`, or of `poll_next`,
`kernel/src/task/shell/scancodes.rs:25–42`. -/
def step (s : State W) : Event W → Option (Effect W × State W)
  | .push scancode =>
    if s.inHandler then none
    else some (.silent,
      { s with scancodeQueue := pushCode s.scancodeQueue scancode, inHandler := true })
  | .wake =>
    if s.inHandler then
      match s.keyboardWaker with
      | some waker => some (.woke waker, { s with keyboardWaker := none, inHandler := false })
      | none => some (.silent, { s with inHandler := false })
    else none
  | .pop waker =>
    match s.poll with
    | .idle =>
      match s.scancodeQueue with
      | code :: queue => some (.ready code, { s with scancodeQueue := queue })
      | [] => some (.silent, { s with poll := .missed waker })
    | _ => none
  | .register =>
    match s.poll with
    | .missed waker =>
      some (.silent, { s with keyboardWaker := some waker, poll := .registered waker })
    | _ => none
  | .popAgain =>
    match s.poll with
    | .registered waker =>
      match s.scancodeQueue with
      | code :: queue => some (.silent, { s with scancodeQueue := queue, poll := .got code })
      | [] => some (.pending waker, { s with poll := .idle })
    | _ => none
  | .take =>
    match s.poll with
    | .got code => some (.ready code, { s with keyboardWaker := none, poll := .idle })
    | _ => none

/-- One step of the interleaving. -/
def Steps (x : Call (State W) (Event W) (Effect W)) : Prop :=
  step x.before x.input = some (x.output, x.after)

/-- The codes that `poll_next` has returned. -/
def delivered (t : List (Call (State W) (Event W) (Effect W))) : List UInt8 :=
  t.filterMap fun x ↦ match x.output with
    | .ready code => some code
    | _ => none

/-- The codes of interrupts, without those that come while 256 are pending. -/
def accepted (t : List (Call (State W) (Event W) (Effect W))) : List UInt8 :=
  t.filterMap fun x ↦ match x.input with
    | .push scancode => if x.before.scancodeQueue.length < 256 then some scancode else none
    | _ => none

/-- The code that a poll is about to return. -/
def State.inHand (s : State W) : List UInt8 :=
  match s.poll with
  | .got code => [code]
  | _ => []

/-- `poll_next` returns that it waits, and the waker it has registered. -/
def waits (w : W) (x : Call (State W) (Event W) (Effect W)) : Prop := x.output = .pending w

/-- `poll_next` is called. -/
def polls (x : Call (State W) (Event W) (Effect W)) : Prop := ∃ w, x.input = .pop w

/-- A waker is registered. -/
def registers (x : Call (State W) (Event W) (Effect W)) : Prop := x.input = .register

/-- An interrupt wakes whoever is registered. -/
def wakes (x : Call (State W) (Event W) (Effect W)) : Prop := x.input = .wake

/-- The task is woken. -/
def woke (w : W) (x : Call (State W) (Event W) (Effect W)) : Prop := x.output = .woke w

/-- No step of a poll falls between the two of an interrupt, as handlers are not interrupted. -/
def Undisturbed (t : List (Call (State W) (Event W) (Effect W))) : Prop :=
  ∀ x ∈ t, x.before.inHandler = true → wakes x

/-- Every interrupt of a code that comes while the task waits wakes it. -/
def EveryWakes (t : List (Call (State W) (Event W) (Effect W))) : Prop :=
  ∀ t₁ x t₂, t = t₁ ++ x :: t₂ → wakes x → ∀ w, Since (waits w) polls t₁ → woke w x

/-- What holds of an interleaving that has led to a state. -/
structure KeepsScancodes (t : List (Call (State W) (Event W) (Effect W))) (s : State W) : Prop where
  /-- The codes are delivered in order and once, and what is left is still there. -/
  codes : delivered t ++ s.inHand ++ s.scancodeQueue = accepted t
  /-- Behind an interrupt while the task waits it has been woken since it registered. -/
  woken : ∀ t₁ x t₂, t = t₁ ++ x :: t₂ → wakes x → ∀ w, Since (waits w) polls t₁ →
    woke w x ∨ Since (woke w) registers t₁
  /-- The first interrupt wakes it. -/
  first : Undisturbed t → ∀ t₁ x t₂, t = t₁ ++ x :: t₂ → wakes x →
    ∀ w, Since (waits w) (fun y ↦ polls y ∨ wakes y) t₁ → woke w x

/-! ### Steps -/

/-- The steps, each with what it needs. -/
inductive Taken : Call (State W) (Event W) (Effect W) → Prop where
  | push {s : State W} (scancode : UInt8) (h : s.inHandler = false) : Taken ⟨s, .push scancode,
      .silent, { s with scancodeQueue := pushCode s.scancodeQueue scancode, inHandler := true }⟩
  | wakeSome {s : State W} (w : W) (h : s.inHandler = true) (hw : s.keyboardWaker = some w) :
    Taken ⟨s, .wake, .woke w, { s with keyboardWaker := none, inHandler := false }⟩
  | wakeNone {s : State W} (h : s.inHandler = true) (hw : s.keyboardWaker = none) :
    Taken ⟨s, .wake, .silent, { s with inHandler := false }⟩
  | popCode {s : State W} (w : W) (code : UInt8) (queue : List UInt8) (hp : s.poll = .idle)
    (hq : s.scancodeQueue = code :: queue) :
    Taken ⟨s, .pop w, .ready code, { s with scancodeQueue := queue }⟩
  | popNone {s : State W} (w : W) (hp : s.poll = .idle) (hq : s.scancodeQueue = []) :
    Taken ⟨s, .pop w, .silent, { s with poll := .missed w }⟩
  | register {s : State W} (w : W) (hp : s.poll = .missed w) :
    Taken ⟨s, .register, .silent, { s with keyboardWaker := some w, poll := .registered w }⟩
  | popAgainCode {s : State W} (w : W) (code : UInt8) (queue : List UInt8)
    (hp : s.poll = .registered w) (hq : s.scancodeQueue = code :: queue) :
    Taken ⟨s, .popAgain, .silent, { s with scancodeQueue := queue, poll := .got code }⟩
  | popAgainNone {s : State W} (w : W) (hp : s.poll = .registered w) (hq : s.scancodeQueue = []) :
    Taken ⟨s, .popAgain, .pending w, { s with poll := .idle }⟩
  | take {s : State W} (code : UInt8) (hp : s.poll = .got code) :
    Taken ⟨s, .take, .ready code, { s with keyboardWaker := none, poll := .idle }⟩

theorem Steps.taken {x : Call (State W) (Event W) (Effect W)} (h : Steps x) : Taken x := by
  obtain ⟨s, e, o, s'⟩ := x
  rw [Steps] at h
  dsimp only at h
  cases e with
  | push scancode =>
    rw [step] at h
    split at h
    · cases h
    next hidle =>
      cases h
      exact .push scancode (Bool.not_eq_true _ ▸ hidle)
  | wake =>
    rw [step] at h
    split at h
    next hin =>
      split at h
      next w hw =>
        cases h
        exact .wakeSome w hin hw
      next hw =>
        cases h
        exact .wakeNone hin hw
    · cases h
  | pop w =>
    rw [step] at h
    split at h
    next hp =>
      split at h
      next code queue hq =>
        cases h
        exact .popCode w code queue hp hq
      next hq =>
        cases h
        exact .popNone w hp hq
    · cases h
  | register =>
    rw [step] at h
    split at h
    next w hp =>
      cases h
      exact .register w hp
    · cases h
  | popAgain =>
    rw [step] at h
    split at h
    next w hp =>
      split at h
      next code queue hq =>
        cases h
        exact .popAgainCode w code queue hp hq
      next hq =>
        cases h
        exact .popAgainNone w hp hq
    · cases h
  | take =>
    rw [step] at h
    split at h
    next code hp =>
      cases h
      exact .take code hp
    · cases h

/-! ### Codes -/

theorem delivered_append (t : List (Call (State W) (Event W) (Effect W)))
    (x : Call (State W) (Event W) (Effect W)) :
    delivered (t ++ [x]) = delivered t ++ delivered [x] :=
  List.filterMap_append

theorem accepted_append (t : List (Call (State W) (Event W) (Effect W)))
    (x : Call (State W) (Event W) (Effect W)) : accepted (t ++ [x]) = accepted t ++ accepted [x] :=
  List.filterMap_append

/-- A step moves the codes on. -/
theorem codes_step {x : Call (State W) (Event W) (Effect W)} (h : Steps x) :
    delivered [x] ++ x.after.inHand ++ x.after.scancodeQueue =
      x.before.inHand ++ x.before.scancodeQueue ++ accepted [x] := by
  cases h.taken with
  | @push s scancode h =>
    by_cases hroom : s.scancodeQueue.length < 256
    · simp [delivered, accepted, State.inHand, pushCode, hroom]
    · simp [delivered, accepted, State.inHand, pushCode, hroom]
  | wakeSome w h hw => simp [delivered, accepted, State.inHand]
  | wakeNone h hw => simp [delivered, accepted, State.inHand]
  | popCode w code queue hp hq => simp [delivered, accepted, State.inHand, hp, hq]
  | popNone w hp hq => simp [delivered, accepted, State.inHand, hp, hq]
  | register w hp => simp [delivered, accepted, State.inHand, hp]
  | popAgainCode w code queue hp hq => simp [delivered, accepted, State.inHand, hp, hq]
  | popAgainNone w hp hq => simp [delivered, accepted, State.inHand, hp, hq]
  | take code hp => simp [delivered, accepted, State.inHand, hp]

/-- What has been accepted is delivered, in the hand of a poll, or in the queue, in order. -/
theorem codes_run {t : List (Call (State W) (Event W) (Effect W))} {s : State W}
    (h : Run Steps .new t s) : delivered t ++ s.inHand ++ s.scancodeQueue = accepted t := by
  apply Run.history (I := fun t s ↦ delivered t ++ s.inHand ++ s.scancodeQueue = accepted t) _ h
  · rfl
  · intro t x hx hbefore
    have hstep := codes_step hx
    rw [delivered_append, accepted_append, ← hbefore]
    simp only [List.append_assoc] at hstep ⊢
    rw [hstep]

/-! ### Wake-ups -/

/-- A waker that is registered is there, or has been used since. -/
def Held (t : List (Call (State W) (Event W) (Effect W))) (s : State W) (w : W) : Prop :=
  s.keyboardWaker = some w ∨ Since (woke w) registers t

/-- While a poll looks again, and while the task waits behind it, its waker is held. -/
structure Waiting (t : List (Call (State W) (Event W) (Effect W))) (s : State W) : Prop where
  registered : ∀ w, s.poll = .registered w → Held t s w
  waits : ∀ w, Since (waits w) polls t → s.poll = .idle ∧ Held t s w

/-- Steps that neither register nor take keep a waker held. -/
theorem Held.keep {t : List (Call (State W) (Event W) (Effect W))}
    {x : Call (State W) (Event W) (Effect W)} {w : W} (h : Held t x.before w) (hx : ¬registers x)
    (hslot : x.before.keyboardWaker = some w → x.after.keyboardWaker = some w ∨ woke w x) :
    Held (t ++ [x]) x.after w := by
  rcases h with hw | hsince
  · rcases hslot hw with hw | hwoke
    · exact Or.inl hw
    · exact Or.inr (since_append.mpr (Or.inl hwoke))
  · exact Or.inr (since_append.mpr (Or.inr ⟨hsince, hx⟩))

/-- A task that waits behind a step waited in front of it, or does so since. -/
theorem Waiting.since {t : List (Call (State W) (Event W) (Effect W))}
    {x : Call (State W) (Event W) (Effect W)} {w : W} (h : Waiting t x.before)
    (hw : Since (Scancodes.waits w) polls (t ++ [x])) :
    Scancodes.waits w x ∨ x.before.poll = .idle ∧ Held t x.before w ∧ ¬polls x := by
  rcases since_append.mp hw with hw | ⟨hw, hnot⟩
  · exact Or.inl hw
  · obtain ⟨hidle, hheld⟩ := h.waits w hw
    exact Or.inr ⟨hidle, hheld, hnot⟩

/-- No task waits behind a step of a poll that does not return so. -/
theorem Waiting.not_since {t : List (Call (State W) (Event W) (Effect W))}
    {x : Call (State W) (Event W) (Effect W)} {w : W} (h : Waiting t x.before)
    (hbusy : x.before.poll ≠ .idle ∨ polls x) (hout : ¬Scancodes.waits w x) :
    ¬Since (Scancodes.waits w) polls (t ++ [x]) := by
  intro hw
  rcases h.since hw with hnow | ⟨hidle, -, hnot⟩
  · exact hout hnow
  · exact hbusy.elim (fun hne ↦ hne hidle) hnot

/-- The steps of an interrupt leave the poll alone, and the waker unless they use it. -/
theorem Waiting.interrupt {t : List (Call (State W) (Event W) (Effect W))}
    {x : Call (State W) (Event W) (Effect W)} (h : Waiting t x.before)
    (hpoll : x.after.poll = x.before.poll) (hreg : ¬registers x)
    (hout : ∀ w, ¬Scancodes.waits w x)
    (hslot : ∀ w, x.before.keyboardWaker = some w → x.after.keyboardWaker = some w ∨ woke w x) :
    Waiting (t ++ [x]) x.after := by
  constructor
  · intro w hw
    rw [hpoll] at hw
    exact (h.registered w hw).keep hreg (hslot w)
  · intro w hw
    rcases h.since hw with hnow | ⟨hidle, hheld, -⟩
    · exact absurd hnow (hout w)
    · exact ⟨hpoll.trans hidle, hheld.keep hreg (hslot w)⟩

/-- Behind a step of a poll that looks no further and does not return so, no task waits. -/
theorem Waiting.of_unregistered {t : List (Call (State W) (Event W) (Effect W))}
    {x : Call (State W) (Event W) (Effect W)} (h : Waiting t x.before)
    (hpoll : ∀ w, x.after.poll ≠ .registered w) (hbusy : x.before.poll ≠ .idle ∨ polls x)
    (hout : ∀ w, ¬Scancodes.waits w x) : Waiting (t ++ [x]) x.after := by
  constructor
  · intro w hw
    exact absurd hw (hpoll w)
  · intro w hw
    exact absurd hw (h.not_since hbusy (hout w))

theorem waiting_step {t : List (Call (State W) (Event W) (Effect W))}
    {x : Call (State W) (Event W) (Effect W)} (hx : Steps x) (h : Waiting t x.before) :
    Waiting (t ++ [x]) x.after := by
  cases hx.taken with
  | push scancode hidle =>
    apply h.interrupt rfl (by intro h; cases h) (by intro w h; cases h)
    exact fun w hw ↦ Or.inl hw
  | wakeSome w hin hw =>
    apply h.interrupt rfl (by intro h; cases h) (by intro w h; cases h)
    intro w' hw'
    obtain rfl := Option.some.inj (hw.symm.trans hw')
    exact Or.inr rfl
  | wakeNone hin hw =>
    apply h.interrupt rfl (by intro h; cases h) (by intro w h; cases h)
    exact fun w hw ↦ Or.inl hw
  | popCode w code queue hp hq =>
    apply h.of_unregistered _ (Or.inr ⟨w, rfl⟩) (by intro w h; cases h)
    intro w' hw'
    cases hp.symm.trans hw'
  | popNone w hp hq =>
    exact h.of_unregistered nofun (Or.inr ⟨w, rfl⟩) (by intro w h; cases h)
  | register w hp =>
    constructor
    · intro w' hw'
      cases hw'
      exact Or.inl rfl
    · intro w' hw'
      exact absurd hw' (h.not_since (Or.inl (by simp [hp])) (by intro h; cases h))
  | popAgainCode w code queue hp hq =>
    exact h.of_unregistered nofun (Or.inl (by simp [hp])) (by intro w h; cases h)
  | popAgainNone w hp hq =>
    constructor
    · intro w' hw'
      cases hw'
    · intro w' hw'
      rcases h.since hw' with hnow | ⟨hidle, -⟩
      · cases hnow
        exact ⟨rfl, (h.registered w hp).keep (by intro h; cases h) Or.inl⟩
      · cases hp.symm.trans hidle
  | take code hp =>
    exact h.of_unregistered nofun (Or.inl (by simp [hp])) (by intro w h; cases h)

/-! ### Handlers that run to their end -/

/-- While a poll looks again its waker is registered, unless there is a code to be found, and while
the task waits and no interrupt has come since, it is. -/
structure Undrawn (t : List (Call (State W) (Event W) (Effect W))) (s : State W) : Prop where
  registered : ∀ w, s.poll = .registered w → s.keyboardWaker = some w ∨ s.scancodeQueue ≠ []
  handling : ∀ w, s.poll = .registered w → s.inHandler = true → s.scancodeQueue ≠ []
  waits : ∀ w, Since (waits w) (fun y ↦ polls y ∨ wakes y) t →
    s.poll = .idle ∧ s.keyboardWaker = some w

theorem pushCode_ne_nil (queue : List UInt8) (scancode : UInt8) : pushCode queue scancode ≠ [] := by
  rw [pushCode]
  split
  · exact List.append_ne_nil_of_right_ne_nil _ (List.cons_ne_nil _ _)
  next hfull =>
    rintro rfl
    exact hfull (by decide)

/-- A task that waits with no interrupt since did so in front of a step, or does so now. -/
theorem Undrawn.since {t : List (Call (State W) (Event W) (Effect W))}
    {x : Call (State W) (Event W) (Effect W)} {w : W} (h : Undrawn t x.before)
    (hw : Since (Scancodes.waits w) (fun y ↦ polls y ∨ wakes y) (t ++ [x])) :
    Scancodes.waits w x ∨ (x.before.poll = .idle ∧ x.before.keyboardWaker = some w) ∧
      ¬polls x ∧ ¬wakes x := by
  rcases since_append.mp hw with hw | ⟨hw, hnot⟩
  · exact Or.inl hw
  · exact Or.inr ⟨h.waits w hw, not_or.mp hnot⟩

/-- No task waits so behind a step of a poll that does not return so, or behind a wake-up. -/
theorem Undrawn.not_since {t : List (Call (State W) (Event W) (Effect W))}
    {x : Call (State W) (Event W) (Effect W)} {w : W} (h : Undrawn t x.before)
    (hbusy : x.before.poll ≠ .idle ∨ polls x ∨ wakes x) (hout : ¬Scancodes.waits w x) :
    ¬Since (Scancodes.waits w) (fun y ↦ polls y ∨ wakes y) (t ++ [x]) := by
  intro hw
  rcases h.since hw with hnow | ⟨⟨hidle, -⟩, hpolls, hwakes⟩
  · exact hout hnow
  · exact hbusy.elim (fun hne ↦ hne hidle) fun h ↦ h.elim hpolls hwakes

/-- Behind a step of a poll that looks no further and does not return so, no task waits so. -/
theorem Undrawn.of_unregistered {t : List (Call (State W) (Event W) (Effect W))}
    {x : Call (State W) (Event W) (Effect W)} (h : Undrawn t x.before)
    (hpoll : ∀ w, x.after.poll ≠ .registered w) (hbusy : x.before.poll ≠ .idle ∨ polls x)
    (hout : ∀ w, ¬Scancodes.waits w x) : Undrawn (t ++ [x]) x.after where
  registered w hw := absurd hw (hpoll w)
  handling w hw := absurd hw (hpoll w)
  waits w hw := absurd hw (h.not_since (hbusy.imp_right Or.inl) (hout w))

/-- The wake-up of a handler leaves the code that the handler has put in the queue. -/
theorem Undrawn.wake {t : List (Call (State W) (Event W) (Effect W))}
    {x : Call (State W) (Event W) (Effect W)} (h : Undrawn t x.before)
    (hin : x.before.inHandler = true) (hend : x.after.inHandler = false) (hwakes : wakes x)
    (hpoll : x.after.poll = x.before.poll) (hqueue : x.after.scancodeQueue = x.before.scancodeQueue)
    (hout : ∀ w, ¬Scancodes.waits w x) : Undrawn (t ++ [x]) x.after where
  registered w hw := by
    rw [hpoll] at hw
    rw [hqueue]
    exact Or.inr (h.handling w hw hin)
  handling w _ hin' := by
    rw [hend] at hin'
    cases hin'
  waits w hw := absurd hw (h.not_since (Or.inr (Or.inr hwakes)) (hout w))

theorem undrawn_step {t : List (Call (State W) (Event W) (Effect W))}
    {x : Call (State W) (Event W) (Effect W)} (hx : Steps x)
    (hfull : x.before.inHandler = true → wakes x) (h : Undrawn t x.before) :
    Undrawn (t ++ [x]) x.after := by
  cases hx.taken with
  | push scancode hidle =>
    refine ⟨fun w _ ↦ Or.inr (pushCode_ne_nil _ _), fun w _ _ ↦ pushCode_ne_nil _ _, ?_⟩
    intro w hw
    rcases h.since hw with hnow | ⟨hwaits, -⟩
    · cases hnow
    · exact hwaits
  | wakeSome w hin hw => exact h.wake hin rfl rfl rfl rfl (by intro w h; cases h)
  | wakeNone hin hw => exact h.wake hin rfl rfl rfl rfl (by intro w h; cases h)
  | popCode w code queue hp hq =>
    apply h.of_unregistered _ (Or.inr ⟨w, rfl⟩) (by intro w h; cases h)
    intro w' hw'
    cases hp.symm.trans hw'
  | popNone w hp hq =>
    exact h.of_unregistered nofun (Or.inr ⟨w, rfl⟩) (by intro w h; cases h)
  | register w hp =>
    refine ⟨fun w' hp' ↦ ?_, fun w' _ hin ↦ ?_, ?_⟩
    · cases hp'
      exact Or.inl rfl
    · cases hfull hin
    · intro w' hw'
      exact absurd hw' (h.not_since (Or.inl (by simp [hp])) (by intro h; cases h))
  | popAgainCode w code queue hp hq =>
    exact h.of_unregistered nofun (Or.inl (by simp [hp])) (by intro w h; cases h)
  | popAgainNone w hp hq =>
    refine ⟨fun w' hp' ↦ ?_, fun w' hp' ↦ ?_, ?_⟩
    · cases hp'
    · cases hp'
    · intro w' hw'
      rcases h.since hw' with hnow | ⟨⟨hidle, -⟩, -⟩
      · cases hnow
        exact ⟨rfl, (h.registered w hp).resolve_right (not_not_intro hq)⟩
      · cases hp.symm.trans hidle
  | take code hp =>
    exact h.of_unregistered nofun (Or.inl (by simp [hp])) (by intro w h; cases h)

/-! ### Interleavings -/

/-- In every interleaving codes are delivered as they were accepted, and no wake-up is lost. -/
theorem keepsScancodes {t : List (Call (State W) (Event W) (Effect W))} {s : State W}
    (h : Run Steps .new t s) : KeepsScancodes t s := by
  refine ⟨codes_run h, ?_, ?_⟩
  · rintro t₁ x t₂ rfl hwake w hw
    obtain ⟨hfront, hx, -⟩ := h.split
    have hwaiting : Waiting t₁ x.before := by
      apply hfront.history fun t x hx ↦ waiting_step hx
      refine ⟨fun w hw ↦ ?_, fun w hw ↦ absurd hw not_since_nil⟩
      cases hw
    obtain ⟨-, hheld⟩ := hwaiting.waits w hw
    rcases hheld with hslot | hwoke
    · cases hx.taken with
      | wakeSome w' hin hw' =>
        obtain rfl := Option.some.inj (hw'.symm.trans hslot)
        exact Or.inl rfl
      | wakeNone hin hnone => cases hnone.symm.trans hslot
      | _ => cases hwake
    · exact Or.inr hwoke
  · rintro hfull t₁ x t₂ rfl hwake w hw
    obtain ⟨hfront, hx, -⟩ := (h.restrict hfull).split
    have hundrawn : Undrawn t₁ x.before := by
      apply hfront.history fun t x hx ↦ undrawn_step hx.1 hx.2
      refine ⟨fun w hw ↦ ?_, fun w hw ↦ ?_, fun w hw ↦ absurd hw not_since_nil⟩
      · cases hw
      · cases hw
    obtain ⟨-, hslot⟩ := hundrawn.waits w hw
    cases hx.1.taken with
    | wakeSome w' hin hw' =>
      obtain rfl := Option.some.inj (hw'.symm.trans hslot)
      rfl
    | wakeNone hin hnone => cases hnone.symm.trans hslot
    | _ => cases hwake

/-- A code, and one more for which the task has waited. -/
def twoCodes : List (Event Nat) :=
  [.push 30, .wake, .pop 0, .pop 0, .register, .popAgain, .push 31, .wake]

/-- The first code is delivered, and the interrupt of the second wakes the task. -/
theorem keepsScancodes_two : ∃ t s, trace step .new twoCodes = some (t, s) ∧
    KeepsScancodes t s ∧ delivered t = [30] ∧ s.scancodeQueue = [31] := by
  have h : trace step .new twoCodes = some (_, _) := rfl
  exact ⟨_, _, h, keepsScancodes (run_trace h), rfl, rfl⟩

/-- Two codes for which the task has waited. -/
def codesWhileWaiting : List (Event Nat) :=
  [.pop 0, .register, .popAgain, .push 30, .wake, .push 31, .wake]

/-- The second of two interrupts finds no waker. -/
theorem not_everyWakes : ∃ t s, trace step .new codesWhileWaiting = some (t, s) ∧
    Undisturbed t ∧ ¬EveryWakes t := by
  refine ⟨_, _, rfl, ?_, ?_⟩
  · simp [Undisturbed, wakes, State.new]
  · intro h
    have hwoke := h [_, _, _, _, _, _] _ [] rfl rfl 0 ⟨[_, _], _, [_, _, _], rfl, rfl, ?_⟩
    · cases hwoke
    · simp [polls]

end SmallOs.Shell.Scancodes
