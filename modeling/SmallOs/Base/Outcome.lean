import Mathlib.Algebra.Group.Int.Defs
import Mathlib.Algebra.GroupWithZero.Nat
import Mathlib.Data.List.Infix

/-!
# Outcomes of fallible calls and stateful programs over them

A call of a language with returned errors and panics ends in one of three ways.
`Outcome` names them; `Prog` threads a state through a sequence of such calls and
keeps the state reached when a call stops early. The inversion rules peel a
sequence apart from its result, and `Follows` relates the first and the last state
of a program however it ends.
-/

namespace SmallOs.Base

/-- How a call ends: with a value, with a returned error, or in a panic. -/
inductive Outcome (ε α : Type) where
  | ok (value : α)
  | err (error : ε)
  | panic
  deriving DecidableEq, Repr

namespace Outcome

variable {ε ε' α β : Type}

/-- Run the continuation on a value; an error or a panic ends the sequence. -/
protected def bind : Outcome ε α → (α → Outcome ε β) → Outcome ε β
  | ok a, f => f a
  | err e, _ => err e
  | panic, _ => panic

instance : Monad (Outcome ε) where
  pure := ok
  bind := Outcome.bind

/-- Return `e` unless `p` holds. -/
def ensure (p : Prop) [Decidable p] (e : ε) : Outcome ε Unit := if p then ok () else err e

/-- Panic unless `p` holds: a bounds check or an overflow check of the language. -/
def assert (p : Prop) [Decidable p] : Outcome ε Unit := if p then ok () else panic

/-- Replace the error of a failed call. -/
def mapErr (f : ε → ε') : Outcome ε α → Outcome ε' α
  | ok a => ok a
  | err e => err (f e)
  | panic => panic

/-- An absent value is an error. -/
def ofOption (e : ε) : Option α → Outcome ε α
  | some a => ok a
  | none => err e

/-- The returned error as a value; a panic still ends the sequence. -/
def attempt : Outcome ε α → Outcome ε (Except ε α)
  | ok a => ok (.ok a)
  | err e => ok (.error e)
  | panic => panic

/-- The call returned a value. -/
def isOk : Outcome ε α → Bool
  | ok _ => true
  | _ => false

@[simp] theorem ok_bind (a : α) (f : α → Outcome ε β) : (ok a >>= f) = f a := rfl
@[simp] theorem err_bind (e : ε) (f : α → Outcome ε β) : (err e >>= f) = err e := rfl
@[simp] theorem panic_bind (f : α → Outcome ε β) : (panic >>= f) = panic := rfl
@[simp] theorem pure_eq_ok (a : α) : (pure a : Outcome ε α) = ok a := rfl

@[simp] theorem map_ok (f : α → β) (a : α) : f <$> (ok a : Outcome ε α) = ok (f a) := rfl
@[simp] theorem map_err (f : α → β) (e : ε) : f <$> (err e : Outcome ε α) = err e := rfl
@[simp] theorem map_panic (f : α → β) : f <$> (panic : Outcome ε α) = panic := rfl

instance : LawfulMonad (Outcome ε) := LawfulMonad.mk' _
  (fun x ↦ by cases x <;> rfl)
  (fun _ _ ↦ rfl)
  (fun x _ _ ↦ by cases x <;> rfl)

/-- A sequence returns a value exactly when both of its parts do. -/
theorem bind_eq_ok {x : Outcome ε α} {f : α → Outcome ε β} {b : β} :
    (x >>= f) = ok b ↔ ∃ a, x = ok a ∧ f a = ok b := by
  cases x <;> simp

/-- A sequence returns an error when its first part does, or its second. -/
theorem bind_eq_err {x : Outcome ε α} {f : α → Outcome ε β} {e : ε} :
    (x >>= f) = err e ↔ x = err e ∨ ∃ a, x = ok a ∧ f a = err e := by
  cases x <;> simp

theorem map_eq_ok {x : Outcome ε α} {f : α → β} {b : β} :
    f <$> x = ok b ↔ ∃ a, x = ok a ∧ f a = b := by
  cases x <;> simp

@[simp] theorem ensure_eq_ok {p : Prop} [Decidable p] {e : ε} {u : Unit} :
    ensure p e = ok u ↔ p := by
  unfold ensure
  split <;> simp [*]

@[simp] theorem ensure_of {p : Prop} [Decidable p] {e : ε} (h : p) : ensure p e = ok () := by
  simp [ensure, h]

theorem ensure_not {p : Prop} [Decidable p] {e : ε} (h : ¬ p) : ensure p e = err e := if_neg h

@[simp] theorem assert_eq_ok {p : Prop} [Decidable p] {u : Unit} :
    (assert p : Outcome ε Unit) = ok u ↔ p := by
  unfold assert
  split <;> simp [*]

@[simp] theorem assert_of {p : Prop} [Decidable p] (h : p) :
    (assert p : Outcome ε Unit) = ok () := by
  simp [assert, h]

theorem assert_not {p : Prop} [Decidable p] (h : ¬ p) :
    (assert p : Outcome ε Unit) = panic := if_neg h

@[simp] theorem assert_ne_err {p : Prop} [Decidable p] {e : ε} :
    (assert p : Outcome ε Unit) ≠ err e := by
  unfold assert
  split <;> simp

@[simp] theorem mapErr_eq_ok {f : ε → ε'} {x : Outcome ε α} {a : α} :
    mapErr f x = ok a ↔ x = ok a := by
  cases x <;> simp [mapErr]

@[simp] theorem ofOption_eq_ok {e : ε} {x : Option α} {a : α} :
    ofOption e x = ok a ↔ x = some a := by
  cases x <;> simp [ofOption]

@[simp] theorem attempt_eq_ok {x : Outcome ε α} {r : Except ε α} :
    attempt x = ok r ↔ (∃ a, x = ok a ∧ r = .ok a) ∨ ∃ e, x = err e ∧ r = .error e := by
  cases x <;> simp [attempt, eq_comm]

theorem isOk_iff {x : Outcome ε α} : x.isOk = true ↔ ∃ a, x = ok a := by
  cases x <;> simp [isOk]

/-- A call that returned returned what is expected exactly when its value is. -/
theorem ok_safe_iff {P : α → Prop} {a : α} :
    ((ok a : Outcome ε α) ≠ panic ∧ ∀ r, (ok a : Outcome ε α) = ok r → P r) ↔ P a := by
  simp

/-- A call that failed without a panic returned nothing unexpected. -/
theorem err_safe {P : α → Prop} {e : ε} :
    (err e : Outcome ε α) ≠ panic ∧ ∀ r, (err e : Outcome ε α) = ok r → P r := by
  simp

/-- What every step of a fallible fold keeps, a fold that returns has kept. -/
theorem foldlM_invariant {f : β → α → Outcome ε β} {P : β → Prop} {l : List α} {b r : β}
    (hstep : ∀ b a b', a ∈ l → P b → f b a = ok b' → P b') (hb : P b)
    (h : l.foldlM f b = ok r) : P r := by
  induction l generalizing b with
  | nil =>
    cases h
    exact hb
  | cons a l ih =>
    rw [List.foldlM_cons, bind_eq_ok] at h
    obtain ⟨b', hf, h⟩ := h
    apply ih _ (hstep b a b' List.mem_cons_self hb hf) h
    intro b a b' ha
    exact hstep b a b' (List.mem_cons_of_mem _ ha)

/-- A fallible fold that returns has taken a step for each item, from a state that the steps
before it have kept. -/
theorem foldlM_of_mem {f : β → α → Outcome ε β} {P : β → Prop} {l : List α} {b r : β}
    (hstep : ∀ b a b', P b → f b a = ok b' → P b') (hb : P b) (h : l.foldlM f b = ok r) {a : α}
    (ha : a ∈ l) : ∃ b₁ b₂, P b₁ ∧ f b₁ a = ok b₂ := by
  induction l generalizing b with
  | nil => cases ha
  | cons c l ih =>
    rw [List.foldlM_cons, bind_eq_ok] at h
    obtain ⟨b', hf, h⟩ := h
    rcases List.mem_cons.mp ha with rfl | ha
    · exact ⟨b, b', hb, hf⟩
    · exact ih (hstep b c b' hb hf) h ha

/-! ### One call for each item of a list -/

/-- The calls return values one for one exactly when each of them returns its value. -/
theorem mapM_eq_ok_iff {f : α → Outcome ε β} {l : List α} {r : List β} :
    l.mapM f = ok r ↔ List.Forall₂ (fun a b ↦ f a = ok b) l r := by
  induction l generalizing r with
  | nil =>
    constructor
    · intro h
      cases h
      exact .nil
    · intro h
      cases h
      rfl
  | cons a l ih =>
    rw [List.mapM_cons, bind_eq_ok]
    constructor
    · rintro ⟨b, hb, hl⟩
      obtain ⟨r', hr, he⟩ := bind_eq_ok.mp hl
      cases he
      exact .cons hb (ih.mp hr)
    · intro h
      cases h with
      | cons hb hr => exact ⟨_, hb, bind_eq_ok.mpr ⟨_, ih.mpr hr, rfl⟩⟩

/-- Calls of which none panics do not panic together. -/
theorem mapM_ne_panic {f : α → Outcome ε β} {l : List α} (h : ∀ a ∈ l, f a ≠ panic) :
    l.mapM f ≠ panic := by
  induction l with
  | nil => simp
  | cons a l ih =>
    have ih := ih fun b hb ↦ h b (List.mem_cons_of_mem _ hb)
    have ha := h a List.mem_cons_self
    rw [List.mapM_cons]
    cases hf : f a with
    | panic => exact absurd hf ha
    | err e => simp
    | ok b =>
      rw [ok_bind]
      cases hl : l.mapM f with
      | panic => exact absurd hl ih
      | err e => simp
      | ok r => simp

/-- Calls that return no error panic together exactly when one of them panics. -/
theorem mapM_eq_panic_iff {f : α → Outcome ε β} {l : List α} (herr : ∀ a e, f a ≠ err e) :
    l.mapM f = panic ↔ ∃ a ∈ l, f a = panic := by
  constructor
  · intro h
    by_contra hn
    exact mapM_ne_panic (fun a ha hp ↦ hn ⟨a, ha, hp⟩) h
  · rintro ⟨a, ha, hp⟩
    induction l with
    | nil => cases ha
    | cons b l ih =>
      rw [List.mapM_cons]
      cases hf : f b with
      | panic => rfl
      | err e => exact absurd hf (herr b e)
      | ok c =>
        rcases List.mem_cons.mp ha with rfl | ha
        · rw [hf] at hp
          cases hp
        · rw [ok_bind, ih ha]
          rfl

/-! ### Calls that return -/

/-- The call returns, with a value that has the property. -/
def Returns (x : Outcome ε α) (P : α → Prop) : Prop := ∃ a, x = ok a ∧ P a

theorem Returns.bind {x : Outcome ε α} {f : α → Outcome ε β} {P : α → Prop} {Q : β → Prop}
    (hx : Returns x P) (hf : ∀ a, P a → Returns (f a) Q) : Returns (x >>= f) Q := by
  obtain ⟨a, rfl, ha⟩ := hx
  exact hf a ha

theorem Returns.mono {x : Outcome ε α} {P Q : α → Prop} (hx : Returns x P) (h : ∀ a, P a → Q a) :
    Returns x Q := by
  obtain ⟨a, rfl, ha⟩ := hx
  exact ⟨a, rfl, h a ha⟩

/-- A call that returns returns one value, with all that is known of it. -/
theorem Returns.and {x : Outcome ε α} {P Q : α → Prop} (hP : Returns x P) (hQ : Returns x Q) :
    Returns x fun a ↦ P a ∧ Q a := by
  obtain ⟨a, rfl, ha⟩ := hP
  obtain ⟨b, hb, hQ⟩ := hQ
  cases hb
  exact ⟨a, rfl, ha, hQ⟩

/-- A fold returns when every step returns and keeps the invariant. -/
theorem returns_foldlM {f : β → α → Outcome ε β} {P : β → Prop} {l : List α} {b : β}
    (hstep : ∀ b a, a ∈ l → P b → Returns (f b a) P) (hb : P b) : Returns (l.foldlM f b) P := by
  induction l generalizing b with
  | nil => exact ⟨b, rfl, hb⟩
  | cons a l ih =>
    rw [List.foldlM_cons]
    apply (hstep b a List.mem_cons_self hb).bind
    intro b' hb'
    apply ih _ hb'
    intro b a ha
    exact hstep b a (List.mem_cons_of_mem _ ha)

/-! ### Arithmetic of `w`-bit words that panics on overflow -/

/-- Sum of two words; overflow is a panic. -/
def addAt (w a b : Nat) : Outcome ε Nat := do
  assert (a + b < 2 ^ w)
  return a + b

/-- Product of two words; overflow is a panic. -/
def mulAt (w a b : Nat) : Outcome ε Nat := do
  assert (a * b < 2 ^ w)
  return a * b

/-- Difference of two words; a negative difference is a panic. -/
def sub (a b : Nat) : Outcome ε Nat := do
  assert (b ≤ a)
  return a - b

@[simp] theorem addAt_eq_ok {w a b c : Nat} :
    (addAt w a b : Outcome ε Nat) = ok c ↔ a + b < 2 ^ w ∧ a + b = c := by
  simp [addAt, bind_eq_ok]

@[simp] theorem mulAt_eq_ok {w a b c : Nat} :
    (mulAt w a b : Outcome ε Nat) = ok c ↔ a * b < 2 ^ w ∧ a * b = c := by
  simp [mulAt, bind_eq_ok]

@[simp] theorem sub_eq_ok {a b c : Nat} :
    (sub a b : Outcome ε Nat) = ok c ↔ b ≤ a ∧ a - b = c := by
  simp [sub, bind_eq_ok]

theorem addAt_of {w a b : Nat} (h : a + b < 2 ^ w) : (addAt w a b : Outcome ε Nat) = ok (a + b) :=
  addAt_eq_ok.mpr ⟨h, rfl⟩

theorem mulAt_of {w a b : Nat} (h : a * b < 2 ^ w) : (mulAt w a b : Outcome ε Nat) = ok (a * b) :=
  mulAt_eq_ok.mpr ⟨h, rfl⟩

theorem sub_of {a b : Nat} (h : b ≤ a) : (sub a b : Outcome ε Nat) = ok (a - b) :=
  sub_eq_ok.mpr ⟨h, rfl⟩

theorem returns_addAt {w a b : Nat} (h : a + b < 2 ^ w) :
    Returns (addAt w a b : Outcome ε Nat) (· = a + b) := ⟨_, addAt_of h, rfl⟩

theorem returns_mulAt {w a b : Nat} (h : a * b < 2 ^ w) :
    Returns (mulAt w a b : Outcome ε Nat) (· = a * b) := ⟨_, mulAt_of h, rfl⟩

theorem returns_sub {a b : Nat} (h : b ≤ a) :
    Returns (sub a b : Outcome ε Nat) (· = a - b) := ⟨_, sub_of h, rfl⟩

@[simp] theorem addAt_ne_err {w a b : Nat} {e : ε} : (addAt w a b : Outcome ε Nat) ≠ err e := by
  simp [addAt, bind_eq_err]

@[simp] theorem mulAt_ne_err {w a b : Nat} {e : ε} : (mulAt w a b : Outcome ε Nat) ≠ err e := by
  simp [mulAt, bind_eq_err]

@[simp] theorem sub_ne_err {a b : Nat} {e : ε} : (sub a b : Outcome ε Nat) ≠ err e := by
  simp [sub, bind_eq_err]

/-! ### Errors that a call cannot return -/

/-- The call does not end in the error `e`. -/
def Avoids (e : ε) (x : Outcome ε α) : Prop := x ≠ err e

theorem avoids_ok {e : ε} {a : α} : Avoids e (ok a) := nofun
theorem avoids_panic {e : ε} : Avoids e (panic : Outcome ε α) := nofun
theorem avoids_err {e e' : ε} (h : e' ≠ e) : Avoids e (err e' : Outcome ε α) :=
  fun he ↦ h (err.inj he)

theorem avoids_assert {e : ε} {p : Prop} [Decidable p] : Avoids e (assert p) := assert_ne_err

theorem avoids_ensure {e e' : ε} {p : Prop} [Decidable p] (h : e' ≠ e) :
    Avoids e (ensure p e') := by
  unfold ensure
  split
  · exact avoids_ok
  · exact avoids_err h

theorem avoids_ofOption {e e' : ε} {x : Option α} (h : e' ≠ e) : Avoids e (ofOption e' x) := by
  cases x with
  | some a => exact avoids_ok
  | none => exact avoids_err h

theorem avoids_bind {e : ε} {x : Outcome ε α} {f : α → Outcome ε β} (hx : Avoids e x)
    (hf : ∀ a, Avoids e (f a)) : Avoids e (x >>= f) := by
  intro h
  obtain h | ⟨a, -, h⟩ := bind_eq_err.mp h
  · exact hx h
  · exact hf a h

theorem avoids_foldlM {e : ε} {f : β → α → Outcome ε β} (hf : ∀ b a, Avoids e (f b a))
    (l : List α) (b : β) : Avoids e (l.foldlM f b) := by
  induction l generalizing b with
  | nil => exact avoids_ok
  | cons a l ih =>
    rw [List.foldlM_cons]
    exact avoids_bind (hf b a) ih

end Outcome

/-- A program over a state: it ends in an outcome and always leaves a state behind. -/
def Prog (σ ε α : Type) : Type := σ → Outcome ε α × σ

namespace Prog

variable {σ ε α β : Type}

/-- Run the continuation from the state that the first part reached. -/
protected def bind (x : Prog σ ε α) (f : α → Prog σ ε β) : Prog σ ε β := fun s ↦
  match x s with
  | (.ok a, s') => f a s'
  | (.err e, s') => (.err e, s')
  | (.panic, s') => (.panic, s')

instance : Monad (Prog σ ε) where
  pure a := fun s ↦ (.ok a, s)
  bind := Prog.bind

/-- An outcome computed without touching the state. -/
def lift (x : Outcome ε α) : Prog σ ε α := fun s ↦ (x, s)

/-- The current state as a value. -/
def get : Prog σ ε σ := fun s ↦ (.ok s, s)

/-- Replace the state. -/
def set (s : σ) : Prog σ ε Unit := fun _ ↦ (.ok (), s)

/-- The returned error of a program as a value; a panic still ends the sequence. -/
def attempt (x : Prog σ ε α) : Prog σ ε (Except ε α) := fun s ↦ ((x s).1.attempt, (x s).2)

/-- Replace the error of a failed program. -/
def mapErr {ε' : Type} (f : ε → ε') (x : Prog σ ε α) : Prog σ ε' α := fun s ↦
  ((x s).1.mapErr f, (x s).2)

/-- End the sequence with an error. -/
def fail (e : ε) : Prog σ ε α := fun s ↦ (.err e, s)

instance : LawfulMonad (Prog σ ε) := LawfulMonad.mk' _
  (fun x ↦ by
    funext s
    change (match x s with | (.ok a, s') => _ | (.err e, s') => _ | (.panic, s') => _) = x s
    rcases x s with ⟨_ | _ | _, _⟩ <;> rfl)
  (fun _ _ ↦ rfl)
  (fun x f g ↦ by
    funext s
    change Prog.bind (Prog.bind x f) g s = Prog.bind x (fun a ↦ Prog.bind (f a) g) s
    unfold Prog.bind
    rcases x s with ⟨_ | _ | _, _⟩ <;> rfl)

@[simp] theorem pure_apply (a : α) (s : σ) : (pure a : Prog σ ε α) s = (.ok a, s) := rfl
@[simp] theorem lift_apply (x : Outcome ε α) (s : σ) : (lift x : Prog σ ε α) s = (x, s) := rfl
@[simp] theorem get_apply (s : σ) : (get : Prog σ ε σ) s = (.ok s, s) := rfl
@[simp] theorem set_apply (t s : σ) : (set t : Prog σ ε Unit) s = (.ok (), t) := rfl
@[simp] theorem fail_apply (e : ε) (s : σ) : (fail e : Prog σ ε α) s = (.err e, s) := rfl
@[simp] theorem attempt_apply (x : Prog σ ε α) (s : σ) :
    attempt x s = ((x s).1.attempt, (x s).2) := rfl

/-- What a sequence does, by how its first part ends. -/
theorem bind_apply (x : Prog σ ε α) (f : α → Prog σ ε β) (s : σ) :
    (x >>= f) s = match x s with
      | (.ok a, s') => f a s'
      | (.err e, s') => (.err e, s')
      | (.panic, s') => (.panic, s') := rfl

theorem map_apply (f : α → β) (x : Prog σ ε α) (s : σ) :
    (f <$> x) s = (f <$> (x s).1, (x s).2) := by
  rw [map_eq_pure_bind, bind_apply]
  rcases x s with ⟨_ | _ | _, _⟩ <;> rfl

/-- A sequence whose first part returns goes on from the state reached. -/
theorem bind_of_ok {x : Prog σ ε α} {f : α → Prog σ ε β} {s s' : σ} {a : α}
    (h : x s = (.ok a, s')) : (x >>= f) s = f a s' := by
  rw [bind_apply, h]

/-- A sequence whose first part fails ends in that error. -/
theorem bind_of_err {x : Prog σ ε α} {f : α → Prog σ ε β} {s s' : σ} {e : ε}
    (h : x s = (.err e, s')) : (x >>= f) s = (.err e, s') := by
  rw [bind_apply, h]

/-- A sequence whose first part panics ends there. -/
theorem bind_of_panic {x : Prog σ ε α} {f : α → Prog σ ε β} {s s' : σ}
    (h : x s = (.panic, s')) : (x >>= f) s = (.panic, s') := by
  rw [bind_apply, h]

/-- A second part that keeps the state leaves the one that the first part reached. -/
theorem bind_snd {x : Prog σ ε α} {f : α → Prog σ ε β} {s : σ} (h : ∀ a t, (f a t).2 = t) :
    ((x >>= f) s).2 = (x s).2 := by
  rw [bind_apply]
  rcases x s with ⟨a | e | _, t⟩
  · exact h a t
  · rfl
  · rfl

/-- Parts that keep the state compose as their outcomes do. -/
theorem bind_of_const {x : Prog σ ε α} {f : α → Prog σ ε β} {s : σ} {X : Outcome ε α}
    {F : α → Outcome ε β} (hx : x s = (X, s)) (hf : ∀ a, f a s = (F a, s)) :
    (x >>= f) s = (X >>= F, s) := by
  rw [bind_apply, hx]
  cases X with
  | ok a => exact hf a
  | err e => rfl
  | panic => rfl

/-- A sequence returns a value exactly when both of its parts do. -/
theorem bind_eq_ok {x : Prog σ ε α} {f : α → Prog σ ε β} {s s' : σ} {b : β} :
    (x >>= f) s = (.ok b, s') ↔ ∃ a t, x s = (.ok a, t) ∧ f a t = (.ok b, s') := by
  rw [bind_apply]
  rcases x s with ⟨a | _ | _, t⟩
  · constructor
    · exact fun h ↦ ⟨a, t, rfl, h⟩
    · rintro ⟨a', t', h, hf⟩
      cases h
      exact hf
  · simp
  · simp

/-- A sequence returns an error when its first part does, or its second. -/
theorem bind_eq_err {x : Prog σ ε α} {f : α → Prog σ ε β} {s s' : σ} {e : ε} :
    (x >>= f) s = (.err e, s') ↔
      x s = (.err e, s') ∨ ∃ a t, x s = (.ok a, t) ∧ f a t = (.err e, s') := by
  rw [bind_apply]
  rcases x s with ⟨a | _ | _, t⟩
  · constructor
    · exact fun h ↦ .inr ⟨a, t, rfl, h⟩
    · rintro (h | ⟨a', t', h, hf⟩)
      · cases h
      · cases h
        exact hf
  · simp
  · simp

/-- A lifted outcome returns exactly its own value and keeps the state. -/
theorem lift_eq_ok {x : Outcome ε α} {s s' : σ} {a : α} :
    (lift x : Prog σ ε α) s = (.ok a, s') ↔ x = .ok a ∧ s' = s := by
  rw [lift_apply, Prod.mk.injEq, eq_comm (a := s)]

/-! ### Where a program takes the state -/

/-- However the program ends, the relation takes its first state to its last one. -/
def Follows (R : σ → σ → Prop) (x : Prog σ ε α) : Prop := ∀ s, R s (x s).2

section Follows

variable {R : σ → σ → Prop}

theorem follows_bind (trans : ∀ s t u, R s t → R t u → R s u) {x : Prog σ ε α}
    {f : α → Prog σ ε β} (hx : Follows R x) (hf : ∀ a, Follows R (f a)) :
    Follows R (x >>= f) := by
  intro s
  have hs := hx s
  rw [bind_apply]
  rcases h : x s with ⟨a | e | _, t⟩
  · rw [h] at hs
    exact trans s t _ hs (hf a t)
  · rwa [h] at hs
  · rwa [h] at hs

/-- After an outcome the program goes on only with its value. -/
theorem follows_lift_bind (refl : ∀ s, R s s) {x : Outcome ε α} {f : α → Prog σ ε β}
    (hf : ∀ a, x = .ok a → Follows R (f a)) : Follows R (lift x >>= f) := by
  intro s
  rw [bind_apply, lift_apply]
  cases x with
  | ok a => exact hf a rfl s
  | err e => exact refl s
  | panic => exact refl s

theorem follows_lift (refl : ∀ s, R s s) (x : Outcome ε α) :
    Follows R (lift x : Prog σ ε α) := refl

theorem follows_pure (refl : ∀ s, R s s) (a : α) : Follows R (pure a : Prog σ ε α) := refl

theorem follows_get (refl : ∀ s, R s s) : Follows R (get : Prog σ ε σ) := refl

theorem follows_fail (refl : ∀ s, R s s) (e : ε) : Follows R (fail e : Prog σ ε α) := refl

theorem follows_attempt {x : Prog σ ε α} (hx : Follows R x) : Follows R (attempt x) :=
  fun s ↦ hx s

/-- What the rest of a sequence does, it does from where the first part ended. -/
theorem follows_rest (refl : ∀ s, R s s) {f : α → Prog σ ε β} (hf : ∀ a, Follows R (f a))
    (x : Prog σ ε α) (s : σ) : R (x s).2 ((x >>= f) s).2 := by
  rw [bind_apply]
  rcases x s with ⟨a | e | _, t⟩
  · exact hf a t
  · exact refl t
  · exact refl t

end Follows

/-! ### Programs without errors -/

/-- From a state with the property the program reaches one with it, and returns no error. -/
def NeverErrs (P : σ → Prop) (x : Prog σ ε α) : Prop :=
  ∀ s, P s → (∀ e, (x s).1 ≠ .err e) ∧ P (x s).2

section NeverErrs

variable {P : σ → Prop}

theorem neverErrs_bind {x : Prog σ ε α} {f : α → Prog σ ε β} (hx : NeverErrs P x)
    (hf : ∀ a, NeverErrs P (f a)) : NeverErrs P (x >>= f) := by
  intro s hs
  obtain ⟨he, hp⟩ := hx s hs
  rw [bind_apply]
  rcases h : x s with ⟨a | e | _, t⟩
  · rw [h] at hp
    exact hf a t hp
  · rw [h] at he
    exact absurd rfl (he e)
  · rw [h] at hp
    constructor
    · intro e he
      cases he
    · exact hp

/-- After an outcome that is no error the program goes on only with its value. -/
theorem neverErrs_lift_bind {x : Outcome ε α} {f : α → Prog σ ε β} (hx : ∀ e, x ≠ .err e)
    (hf : ∀ a, x = .ok a → NeverErrs P (f a)) : NeverErrs P (lift x >>= f) := by
  intro s hs
  rw [bind_apply, lift_apply]
  cases x with
  | ok a => exact hf a rfl s hs
  | err e => exact absurd rfl (hx e)
  | panic =>
    constructor
    · intro e he
      cases he
    · exact hs

end NeverErrs

end Prog
end SmallOs.Base
