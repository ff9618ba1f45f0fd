import SmallOs.Base.Lists

/-!
# Runs of calls

A run is a sequence of calls, each from the state that the one before it has reached. What
holds of every single call holds of every call of a run, and what every call keeps, a run
keeps.
-/

namespace SmallOs.Base

variable {σ ι ο κ : Type}

/-- One call: the state before it, its input, its output and the state after it. -/
structure Call (σ ι ο : Type) where
  before : σ
  input : ι
  output : ο
  after : σ

/-- The calls follow one another from the first state to the last. -/
inductive Run (R : Call σ ι ο → Prop) : σ → List (Call σ ι ο) → σ → Prop where
  | nil (s : σ) : Run R s [] s
  | cons {x : Call σ ι ο} {t : List (Call σ ι ο)} {s : σ} (head : R x) (tail : Run R x.after t s) :
      Run R x.before (x :: t) s

namespace Run

variable {R : Call σ ι ο → Prop} {s s' : σ} {t : List (Call σ ι ο)}

/-- Every call of a run is one of the allowed calls. -/
theorem mem (h : Run R s t s') {x : Call σ ι ο} (hx : x ∈ t) : R x := by
  induction h with
  | nil => cases hx
  | cons head _ ih =>
    rcases List.mem_cons.mp hx with rfl | hx
    · exact head
    · exact ih hx

/-- A run starts with its first call. -/
theorem head {x : Call σ ι ο} (h : Run R s (x :: t) s') : s = x.before ∧ R x := by
  cases h with
  | cons head _ => exact ⟨rfl, head⟩

/-- A run up to one of its calls, the call, and the run behind it. -/
theorem split {t₁ t₂ : List (Call σ ι ο)} {x : Call σ ι ο} (h : Run R s (t₁ ++ x :: t₂) s') :
    Run R s t₁ x.before ∧ R x ∧ Run R x.after t₂ s' := by
  induction t₁ generalizing s with
  | nil =>
    cases h with
    | cons head tail => exact ⟨.nil _, head, tail⟩
  | cons y t₁ ih =>
    cases h with
    | cons head tail =>
      obtain ⟨hbefore, hx, hafter⟩ := ih tail
      exact ⟨.cons head hbefore, hx, hafter⟩

/-- A run whose calls have a further property is a run of such calls. -/
theorem restrict {P : Call σ ι ο → Prop} (h : Run R s t s') (hP : ∀ x ∈ t, P x) :
    Run (fun x ↦ R x ∧ P x) s t s' := by
  induction h with
  | nil => exact .nil _
  | cons head _ ih =>
    apply Run.cons ⟨head, hP _ List.mem_cons_self⟩
    apply ih
    intro x hx
    exact hP x (List.mem_cons_of_mem _ hx)

/-- A run whose calls are allowed elsewhere too is a run there. -/
theorem mono {R' : Call σ ι ο → Prop} (h : Run R s t s') (hR : ∀ x, R x → R' x) :
    Run R' s t s' := by
  induction h with
  | nil => exact .nil _
  | cons head _ ih => exact .cons (hR _ head) ih

/-- What every call keeps holds in each state of a run that starts with it. -/
theorem invariant {I : σ → Prop} (keep : ∀ x, R x → I x.before → I x.after) (h : Run R s t s')
    (hs : I s) : I s' ∧ ∀ x ∈ t, I x.before ∧ I x.after := by
  induction h with
  | nil => exact ⟨hs, nofun⟩
  | cons head _ ih =>
    have hafter := keep _ head hs
    obtain ⟨hlast, hall⟩ := ih hafter
    refine ⟨hlast, ?_⟩
    intro x hx
    rcases List.mem_cons.mp hx with rfl | hx
    · exact ⟨hs, hafter⟩
    · exact hall x hx

/-- A property of the calls so far and the state they have reached, kept by one call more. -/
theorem history {I : List (Call σ ι ο) → σ → Prop}
    (keep : ∀ t x, R x → I t x.before → I (t ++ [x]) x.after) (h : Run R s t s') (hs : I [] s) :
    I t s' := by
  suffices hall : ∀ past, I past s → I (past ++ t) s' from hall [] hs
  clear hs
  induction h with
  | nil s =>
    intro past hpast
    rw [List.append_nil]
    exact hpast
  | cons head _ ih =>
    intro past hpast
    have htail := ih (past ++ [_]) (keep past _ head hpast)
    rw [List.append_assoc] at htail
    exact htail

/-- Where calls only move forward, each starts at or behind the end of every earlier one. -/
theorem pairwise_forward {P : σ → σ → Prop} (refl : ∀ s, P s s)
    (trans : ∀ s t u, P s t → P t u → P s u) (keep : ∀ x, R x → P x.before x.after)
    (h : Run R s t s') : (∀ x ∈ t, P s x.before) ∧ t.Pairwise fun x y ↦ P x.after y.before := by
  induction h with
  | nil => exact ⟨nofun, List.Pairwise.nil⟩
  | cons head _ ih =>
    obtain ⟨hfirst, hpairs⟩ := ih
    refine ⟨?_, List.Pairwise.cons hfirst hpairs⟩
    intro x hx
    rcases List.mem_cons.mp hx with rfl | hx
    · exact refl _
    · exact trans _ _ _ (keep _ head) (hfirst x hx)

/-- Keys that a call claims while nobody holds them, and that stay held, are claimed once. -/
theorem nodup_claims {claim : Call σ ι ο → Option κ} (Held : σ → κ → Prop)
    (keep : ∀ x, R x → ∀ k, Held x.before k → Held x.after k)
    (fresh : ∀ x k, R x → claim x = some k → ¬ Held x.before k ∧ Held x.after k)
    (h : Run R s t s') : (t.filterMap claim).Nodup := by
  suffices hall : (t.filterMap claim).Nodup ∧ ∀ k, Held s k → k ∉ t.filterMap claim from hall.1
  induction h with
  | nil => exact ⟨List.nodup_nil, nofun⟩
  | @cons x t s head _ ih =>
    obtain ⟨hnodup, hheld⟩ := ih
    cases hc : claim x with
    | none =>
      rw [List.filterMap_cons_none hc]
      exact ⟨hnodup, fun k hk ↦ hheld k (keep x head k hk)⟩
    | some k =>
      obtain ⟨hnot, hafter⟩ := fresh x k head hc
      rw [List.filterMap_cons_some hc]
      refine ⟨List.nodup_cons.mpr ⟨hheld k hafter, hnodup⟩, ?_⟩
      intro j hj hmem
      rcases List.mem_cons.mp hmem with rfl | hmem
      · exact hnot hj
      · exact hheld j (keep x head j hj) hmem

end Run

section Since

variable {α : Type} {P Q : α → Prop}

/-- An item of the first kind is in the list, and none of the second kind behind it. -/
def Since (P Q : α → Prop) (t : List α) : Prop :=
  ∃ t₁ x t₂, t = t₁ ++ x :: t₂ ∧ P x ∧ ∀ y ∈ t₂, ¬ Q y

theorem not_since_nil : ¬ Since P Q [] := by
  rintro ⟨t₁, x, t₂, h, -⟩
  exact nil_ne_append_cons h

/-- Whether it is so after one item more. -/
theorem since_append {t : List α} {x : α} : Since P Q (t ++ [x]) ↔ P x ∨ Since P Q t ∧ ¬ Q x := by
  constructor
  · rintro ⟨t₁, y, t₂, ht, hy, hnot⟩
    rcases List.eq_nil_or_concat t₂ with rfl | ⟨t₂, z, rfl⟩
    · obtain ⟨-, hxy⟩ := List.append_inj' ht rfl
      obtain rfl := List.head_eq_of_cons_eq hxy
      exact .inl hy
    · rw [List.concat_eq_append] at ht hnot
      rw [← List.cons_append, ← List.append_assoc] at ht
      obtain ⟨rfl, hxz⟩ := List.append_inj' ht rfl
      obtain rfl := List.head_eq_of_cons_eq hxz
      refine .inr ⟨⟨t₁, y, t₂, rfl, hy, ?_⟩, ?_⟩
      · intro y' hy'
        exact hnot y' (List.mem_append_left _ hy')
      · exact hnot x (List.mem_append_right _ List.mem_cons_self)
  · rintro (hx | ⟨⟨t₁, y, t₂, rfl, hy, hnot⟩, hx⟩)
    · exact ⟨t, x, [], rfl, hx, nofun⟩
    · refine ⟨t₁, y, t₂ ++ [x], by simp, hy, ?_⟩
      intro y' hy'
      rcases List.mem_append.mp hy' with hy' | hy'
      · exact hnot y' hy'
      · rw [List.mem_singleton.mp hy']
        exact hx

theorem since_cons {t : List α} {x : α} :
    Since P Q (x :: t) ↔ Since P Q t ∨ P x ∧ ∀ y ∈ t, ¬ Q y := by
  constructor
  · rintro ⟨t₁, y, t₂, ht, hy, hnot⟩
    rcases List.cons_eq_append_iff.mp ht with ⟨rfl, ht₂⟩ | ⟨t₁, rfl, rfl⟩
    · obtain ⟨rfl, rfl⟩ := List.cons.inj ht₂
      exact .inr ⟨hy, hnot⟩
    · exact .inl ⟨t₁, y, t₂, rfl, hy, hnot⟩
  · rintro (⟨t₁, y, t₂, rfl, hy, hnot⟩ | ⟨hx, hnot⟩)
    · exact ⟨x :: t₁, y, t₂, rfl, hy, hnot⟩
    · exact ⟨[], x, t, rfl, hx, hnot⟩

instance decidableSince [DecidablePred P] [DecidablePred Q] : ∀ t, Decidable (Since P Q t)
  | [] => isFalse not_since_nil
  | x :: t =>
    have := decidableSince t
    decidable_of_iff (Since P Q t ∨ P x ∧ ∀ y ∈ t, ¬ Q y) since_cons.symm

/-- What a call of the first kind establishes and only one of the second kind ends, holds since. -/
theorem Run.since {R P Q : Call σ ι ο → Prop} {J : σ → Prop} {s s' : σ} {t : List (Call σ ι ο)}
    (start : ∀ x, R x → P x → J x.after) (keep : ∀ x, R x → ¬ Q x → J x.before → J x.after)
    (h : Run R s t s') : Since P Q t → J s' := by
  apply Run.history (I := fun t s ↦ Since P Q t → J s) _ h
  · intro hnil
    exact absurd hnil not_since_nil
  · intro t x hx hbefore hsince
    rcases since_append.mp hsince with hP | ⟨ht, hQ⟩
    · exact start x hx hP
    · exact keep x hx hQ (hbefore ht)

end Since

section Simulation

variable {τ : Type} {R : Call σ ι ο → Prop} {R' : Call τ ι ο → Prop} {Rel : σ → τ → Prop}

/-- Where each call of a system is matched by a call of another one with the same input and the
same output, a whole run is matched by a run. -/
theorem Run.simulate (step : ∀ x : Call σ ι ο, R x → ∀ a, Rel x.before a →
      ∃ b, R' ⟨a, x.input, x.output, b⟩ ∧ Rel x.after b)
    {s s' : σ} {t : List (Call σ ι ο)} (h : Run R s t s') {a : τ} (hs : Rel s a) :
    ∃ u b, Run R' a u b ∧
      u.map (fun y ↦ (y.input, y.output)) = t.map (fun x ↦ (x.input, x.output)) ∧ Rel s' b := by
  induction h generalizing a with
  | nil s => exact ⟨[], a, .nil a, rfl, hs⟩
  | @cons x t s' hx hrest ih =>
    obtain ⟨b, hb, hrel⟩ := step x hx a hs
    obtain ⟨u, c, hu, hmap, hend⟩ := ih hrel
    refine ⟨⟨a, x.input, x.output, b⟩ :: u, c, .cons hb hu, ?_, hend⟩
    rw [List.map_cons, List.map_cons, hmap]

end Simulation

section Total

variable (serve : σ → ι → ο × σ)

/-- The calls that a total step function makes of a list of inputs. -/
def calls (s : σ) : List ι → List (Call σ ι ο)
  | [] => []
  | i :: inputs => ⟨s, i, (serve s i).1, (serve s i).2⟩ :: calls (serve s i).2 inputs

/-- The state that they lead to. -/
def callsEnd (s : σ) (inputs : List ι) : σ := inputs.foldl (fun s i ↦ (serve s i).2) s

/-- They are a run. -/
theorem run_calls (s : σ) (inputs : List ι) :
    Run (fun x ↦ (x.output, x.after) = serve x.before x.input) s (calls serve s inputs)
      (callsEnd serve s inputs) := by
  induction inputs generalizing s with
  | nil => exact .nil s
  | cons i inputs ih =>
    exact Run.cons (x := ⟨s, i, (serve s i).1, (serve s i).2⟩) rfl (ih (serve s i).2)

/-- What it returns for them. -/
def replies (s : σ) (inputs : List ι) : List ο := (calls serve s inputs).map Call.output

variable {serve} {s : σ} {i : ι} {is js : List ι}

@[simp] theorem replies_nil : replies serve s [] = [] := rfl

@[simp] theorem replies_cons :
    replies serve s (i :: is) = (serve s i).1 :: replies serve (serve s i).2 is := rfl

@[simp] theorem callsEnd_nil : callsEnd serve s [] = s := rfl

@[simp] theorem callsEnd_cons : callsEnd serve s (i :: is) = callsEnd serve (serve s i).2 is := rfl

theorem callsEnd_append : callsEnd serve s (is ++ js) = callsEnd serve (callsEnd serve s is) js :=
  List.foldl_append

theorem replies_append : replies serve s (is ++ js) =
    replies serve s is ++ replies serve (callsEnd serve s is) js := by
  induction is generalizing s with
  | nil => rfl
  | cons i is ih => simp [ih]

end Total

/-- The calls that a step function makes of a list of inputs. -/
def trace (step : σ → ι → Option (ο × σ)) (s : σ) : List ι → Option (List (Call σ ι ο) × σ)
  | [] => some ([], s)
  | i :: inputs => do
    let (o, s₁) ← step s i
    let (t, s₂) ← trace step s₁ inputs
    return (⟨s, i, o, s₁⟩ :: t, s₂)

/-- They are a run. -/
theorem run_trace {step : σ → ι → Option (ο × σ)} {s s' : σ} {inputs : List ι}
    {t : List (Call σ ι ο)} (h : trace step s inputs = some (t, s')) :
    Run (fun x ↦ step x.before x.input = some (x.output, x.after)) s t s' := by
  induction inputs generalizing s t with
  | nil =>
    obtain ⟨rfl, rfl⟩ := Prod.mk.inj (Option.some.inj h)
    exact .nil s
  | cons i inputs ih =>
    simp only [trace, Option.bind_eq_bind, Option.bind_eq_some_iff] at h
    obtain ⟨⟨o, s₁⟩, hstep, ⟨t', s₂⟩, ht, hlast⟩ := h
    obtain ⟨rfl, rfl⟩ := Prod.mk.inj (Option.some.inj hlast)
    exact Run.cons (x := ⟨s, i, o, s₁⟩) hstep (ih ht)

theorem map_input_trace {step : σ → ι → Option (ο × σ)} {s s' : σ} {inputs : List ι}
    {t : List (Call σ ι ο)} (h : trace step s inputs = some (t, s')) :
    t.map Call.input = inputs := by
  induction inputs generalizing s t with
  | nil =>
    obtain ⟨rfl, -⟩ := Prod.mk.inj (Option.some.inj h)
    rfl
  | cons i inputs ih =>
    simp only [trace, Option.bind_eq_bind, Option.bind_eq_some_iff] at h
    obtain ⟨⟨o, s₁⟩, -, ⟨t', s₂⟩, ht, hlast⟩ := h
    obtain ⟨rfl, rfl⟩ := Prod.mk.inj (Option.some.inj hlast)
    rw [List.map_cons, ih ht]

end SmallOs.Base
