import SmallOs.Vfs.Path

/-!
# The arguments of a command

`lib/macros/src/lib.rs`: the attribute `command` puts one statement for every parameter in front of
the body of a command. A flag is looked for among all words; the other parameters take the words
that do not start with `--`, in their order, whatever flags stand between them.
-/

namespace SmallOs.Shell

open Vfs (Text)

/-- The types of the parameters that are no flags. -/
inductive ArgType where
  | string
  | usize
  deriving DecidableEq

/-- The values of a type. -/
abbrev ArgType.Value : ArgType → Type
  | string => Text
  | usize => UInt64

/-- `usize::from_str`: digits behind an optional `+`, for a number of 64 bits. -/
def parseUsize (s : Text) : Option UInt64 :=
  let digits := if s.head? = some '+' then s.tail else s
  let n := Nat.ofDigitChars 10 digits 0
  if digits ≠ [] ∧ digits.all Char.isDigit = true ∧ n < UInt64.size then some (UInt64.ofNat n)
  else none

/-- `s.parse().ok()`. -/
def ArgType.parse : (ty : ArgType) → Text → Option ty.Value
  | string, s => some s
  | usize, s => parseUsize s

/-- How the macro treats a parameter; `lib/macros/src/lib.rs:159–185`. -/
inductive ParamKind where
  | flag
  | optional (ty : ArgType)
  | required (ty : ArgType)
  deriving DecidableEq

/-- What the body gets for a parameter. -/
abbrev ParamKind.Value : ParamKind → Type
  | flag => Bool
  | optional ty => Option ty.Value
  | required ty => ty.Value

/-- A parameter of a command. -/
structure Param where
  ident : Text
  kind : ParamKind
  deriving DecidableEq

/-- What the body gets for its parameters. -/
def Bound : List Param → Type
  | [] => Unit
  | p :: ps => p.kind.Value × Bound ps

/-- `format!("--{}", ident)`; `lib/macros/src/lib.rs:160`. -/
def flagWord (ident : Text) : Text := '-' :: '-' :: ident

/-- `a.starts_with("--")`; `lib/macros/src/lib.rs:198`. -/
def isFlagWord (word : Text) : Bool := ['-', '-'].isPrefixOf word

/-- The words that the parameters which are no flags take. -/
def positional (args : List Text) : List Text := args.filter fun a ↦ !isFlagWord a

/-- The statements for the parameters; `lib/macros/src/lib.rs:159–185`. A required parameter without
a word that parses ends the command with its name. -/
def bindParams (args : List Text) : (ps : List Param) → List Text → Except Text (Bound ps)
  | [], _ => .ok ()
  | ⟨ident, .flag⟩ :: ps, words =>
    (bindParams args ps words).map fun b ↦ (decide (flagWord ident ∈ args), b)
  | ⟨_, .optional ty⟩ :: ps, words =>
    (bindParams args ps words.tail).map fun b ↦ (words.head?.bind ty.parse, b)
  | ⟨ident, .required ty⟩ :: ps, words =>
    match words.head?.bind ty.parse with
    | some v => (bindParams args ps words.tail).map fun b ↦ (v, b)
    | none => .error ident

/-- What a command does in front of its body; `lib/macros/src/lib.rs:188–207`. -/
def parseArgs (ps : List Param) (args : List Text) : Except Text (Bound ps) :=
  bindParams args ps (positional args)

/-! ### What is written for parameters -/

/-- The words spell these values: one for every parameter that is required or given, in their order;
where an optional one is left out, nothing follows. -/
def Spells : (ps : List Param) → Bound ps → List Text → Prop
  | [], _, words => words = []
  | ⟨_, .flag⟩ :: ps, b, words => Spells ps b.2 words
  | ⟨_, .optional ty⟩ :: ps, b, words =>
    match b.1 with
    | some v => ∃ word rest, words = word :: rest ∧ ty.parse word = some v ∧ Spells ps b.2 rest
    | none => words = [] ∧ Spells ps b.2 []
  | ⟨_, .required ty⟩ :: ps, b, words =>
    ∃ word rest, words = word :: rest ∧ ty.parse word = some b.1 ∧ Spells ps b.2 rest

/-- The flags that are set are those among the words. -/
def Flagged (args : List Text) : (ps : List Param) → Bound ps → Prop
  | [], _ => True
  | ⟨ident, .flag⟩ :: ps, b => (b.1 = true ↔ flagWord ident ∈ args) ∧ Flagged args ps b.2
  | ⟨_, .optional _⟩ :: ps, b => Flagged args ps b.2
  | ⟨_, .required _⟩ :: ps, b => Flagged args ps b.2

variable {args : List Text}

theorem bindParams_of_spells {ps : List Param} {b : Bound ps} {words : List Text}
    (hwords : Spells ps b words) (hflags : Flagged args ps b) :
    bindParams args ps words = .ok b := by
  induction ps generalizing words with
  | nil => rfl
  | cons p ps ih =>
    obtain ⟨ident, kind⟩ := p
    obtain ⟨v, b⟩ := b
    cases kind with
    | flag =>
      obtain ⟨hset, hflags⟩ := hflags
      have hv : decide (flagWord ident ∈ args) = v :=
        Bool.eq_iff_iff.mpr (decide_eq_true_iff.trans hset.symm)
      rw [bindParams, ih hwords hflags, hv]
      rfl
    | optional ty =>
      cases v with
      | none =>
        obtain ⟨rfl, hrest⟩ := hwords
        rw [bindParams, List.tail_nil, ih hrest hflags]
        rfl
      | some v =>
        obtain ⟨word, rest, rfl, hparse, hrest⟩ := hwords
        rw [bindParams, List.tail_cons, ih hrest hflags, List.head?_cons, Option.bind_some, hparse]
        rfl
    | required ty =>
      obtain ⟨word, rest, rfl, hparse, hrest⟩ := hwords
      rw [bindParams, List.head?_cons, Option.bind_some, hparse]
      simp only [List.tail_cons, ih hrest hflags]
      rfl

/-- A command gets the values that the words spell, wherever its flags stand among them. -/
theorem parseArgs_of_spells {ps : List Param} {b : Bound ps} (hwords : Spells ps b (positional args))
    (hflags : Flagged args ps b) : parseArgs ps args = .ok b :=
  bindParams_of_spells hwords hflags

end SmallOs.Shell
