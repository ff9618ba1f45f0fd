import SmallOs.Shell.Tokenizer

/-!
# Pipelines

`kernel/src/task/shell/tokenizer/parser.rs`: a list of tokens becomes a list of commands, one at
every pipe and one at the end. The tokens between two pipes are a segment, and the parser is the
same function of every segment by itself.
-/

namespace SmallOs.Shell

open SmallOs.Base
open Vfs (Text)

/-- `kernel/src/task/shell/tokenizer/parser.rs:3–6`. -/
structure Command where
  name : Text
  args : List Text
  deriving DecidableEq

namespace Command

/-- A command in front of its first word. -/
def empty : Command := ⟨[], []⟩

/-- `kernel/src/task/shell/tokenizer/parser.rs:14–20`. -/
def takeWord (current : Command) (w : Text) : Command :=
  if current.name = [] then { current with name := w }
  else { current with args := pushWithin 16 current.args w }

end Command

/-- The round of the loop for a token; `kernel/src/task/shell/tokenizer/parser.rs:12–26`. -/
def parseToken (state : List Command × Command) : Token → List Command × Command
  | .word w => (state.1, state.2.takeWord w)
  | .pipe => (pushWithin 8 state.1 state.2, .empty)

/-- The push behind the loop; `kernel/src/task/shell/tokenizer/parser.rs:28–32`. -/
def finishPipeline (state : List Command × Command) : List Command :=
  if state.2.name = [] then state.1 else pushWithin 8 state.1 state.2

/-- `kernel/src/task/shell/tokenizer/parser.rs:8–33`. -/
def parsePipeline (tokens : List Token) : List Command :=
  finishPipeline (tokens.foldl parseToken ([], .empty))

/-- What is done for a command. -/
inductive Action where
  | run (name : Text) (args : List Text)
  | unknown (name : Text)
  deriving DecidableEq

/-- The body of the loop in `kernel/src/task/shell/tokenizer/parser.rs:36–46`. -/
def execute (known : Text → Bool) (cmd : Command) : Action :=
  if known cmd.name then .run cmd.name cmd.args else .unknown cmd.name

/-- `kernel/src/task/shell/tokenizer/parser.rs:35–47`, by the names that `COMMANDS` holds. -/
def executePipeline (known : Text → Bool) (cmds : List Command) : List Action :=
  cmds.map (execute known)

/-- Two lists of commands are executed alike, whatever commands there are, only if they are
equal. -/
theorem executePipeline_eq_iff {cmds cmds' : List Command} :
    (∀ known, executePipeline known cmds = executePipeline known cmds') ↔ cmds = cmds' := by
  constructor
  · intro hall
    apply List.map_injective_iff.mpr _ (hall fun _ ↦ true)
    rintro ⟨name, args⟩ ⟨name', args'⟩ heq
    obtain ⟨rfl, rfl⟩ := Action.run.inj heq
    rfl
  · rintro rfl _
    rfl

/-! ### Segments -/

/-- The words between the pipes. -/
def segments : List Token → List (List Text)
  | [] => [[]]
  | .pipe :: ts => [] :: segments ts
  | .word w :: ts => (segments ts).modifyHead (w :: ·)

theorem segments_ne_nil (ts : List Token) : segments ts ≠ [] := by
  cases ts with
  | nil => exact List.cons_ne_nil _ _
  | cons t ts =>
    cases t with
    | pipe => exact List.cons_ne_nil _ _
    | word w =>
      rw [segments, ne_eq, List.modifyHead_eq_nil_iff]
      exact segments_ne_nil ts

/-- The command that the parser makes of a segment. -/
def commandOf (s : List Text) : Command := s.foldl Command.takeWord .empty

/-- The commands that the parser makes of segments, if it had room for all. -/
def collect : List (List Text) → List Command
  | [] => []
  | [s] => if (commandOf s).name = [] then [] else [commandOf s]
  | s :: S => commandOf s :: collect S

theorem collect_cons {s : List Text} {S : List (List Text)} (hS : S ≠ []) :
    collect (s :: S) = commandOf s :: collect S := by
  cases S with
  | nil => exact absurd rfl hS
  | cons s' S => rfl

theorem modifyHead_nil_append {S : List (List Text)} : S.modifyHead ([] ++ ·) = S := by
  cases S <;> rfl

/-- The parser goes on from the words in front of it, and keeps as many commands as it has room
for. -/
theorem finishPipeline_foldl (ts : List Token) (past : List Command) (words : List Text) :
    finishPipeline (ts.foldl parseToken (past.take 8, commandOf words)) =
      (past ++ collect ((segments ts).modifyHead (words ++ ·))).take 8 := by
  induction ts generalizing past words with
  | nil =>
    rw [List.foldl_nil, finishPipeline, segments, List.modifyHead_cons, List.append_nil, collect]
    by_cases hname : (commandOf words).name = []
    · rw [if_pos hname, if_pos hname, List.append_nil]
    · rw [if_neg hname, if_neg hname, pushWithin_take]
  | cons t ts ih =>
    rw [List.foldl_cons]
    cases t with
    | word w =>
      have hword : (commandOf words).takeWord w = commandOf (words ++ [w]) := by
        rw [commandOf, commandOf, List.foldl_append]
        rfl
      rw [parseToken, hword, ih, segments, List.modifyHead_modifyHead]
      have hfun : (fun s ↦ words ++ [w] ++ s) = (fun s ↦ words ++ s) ∘ (fun s ↦ w :: s) := by
        funext s
        simp
      rw [hfun]
    | pipe =>
      have hempty : Command.empty = commandOf [] := rfl
      rw [parseToken, pushWithin_take, hempty, ih]
      rw [modifyHead_nil_append, segments, List.modifyHead_cons, List.append_nil,
        collect_cons (segments_ne_nil ts), List.append_assoc, List.singleton_append]

/-- The parser makes a command of every segment, and keeps the first 8. -/
theorem parsePipeline_eq (ts : List Token) : parsePipeline ts = (collect (segments ts)).take 8 := by
  have h := finishPipeline_foldl ts [] []
  rw [modifyHead_nil_append, List.nil_append] at h
  exact h

/-! ### The command of a segment -/

/-- Behind a name, the words are arguments. -/
theorem foldl_takeWord {name : Text} (hname : name ≠ []) (s args : List Text) :
    s.foldl Command.takeWord ⟨name, args.take 16⟩ = ⟨name, (args ++ s).take 16⟩ := by
  induction s generalizing args with
  | nil => rw [List.append_nil, List.foldl_nil]
  | cons w s ih =>
    rw [List.foldl_cons, Command.takeWord, if_neg hname]
    simp only [pushWithin_take]
    rw [ih, List.append_assoc, List.singleton_append]

/-- The first word is the name unless it is empty. -/
theorem commandOf_cons {name : Text} (hname : name ≠ []) (args : List Text) :
    commandOf (name :: args) = ⟨name, args.take 16⟩ := by
  rw [commandOf, List.foldl_cons]
  exact foldl_takeWord hname args []

theorem commandOf_nil_cons (args : List Text) : commandOf ([] :: args) = commandOf args := rfl

/-- A command has no name when all words of its segment are empty. -/
theorem commandOf_name {s : List Text} : (commandOf s).name = [] ↔ ∀ w ∈ s, w = [] := by
  induction s with
  | nil => exact iff_of_true rfl fun w hw ↦ absurd hw List.not_mem_nil
  | cons w s ih =>
    by_cases hw : w = []
    · rw [hw, commandOf_nil_cons, ih]
      simp
    · rw [commandOf_cons hw]
      simp [hw]

theorem commandOf_of_empty {s : List Text} (h : ∀ w ∈ s, w = []) : commandOf s = .empty := by
  induction s with
  | nil => rfl
  | cons w s ih =>
    obtain ⟨rfl, hs⟩ := List.forall_mem_cons.mp h
    exact ih hs

/-- The parser reads a segment as it is meant exactly when its arguments fit and its first word is
not empty, or is all of it. -/
theorem commandOf_eq_iff {name : Text} {args : List Text} :
    commandOf (name :: args) = ⟨name, args⟩ ↔ args.length ≤ 16 ∧ (name ≠ [] ∨ args = []) := by
  by_cases hname : name = []
  · rw [hname, commandOf_nil_cons]
    constructor
    · intro h
      have hempty : commandOf args = .empty :=
        commandOf_of_empty (commandOf_name.mp (by rw [h]))
      rw [hempty] at h
      have hargs : [] = args := (Command.mk.inj h).2
      exact ⟨by rw [← hargs]; exact Nat.zero_le _, .inr hargs.symm⟩
    · rintro ⟨-, hargs⟩
      rw [hargs.resolve_left (fun hne ↦ hne rfl)]
      rfl
  · rw [commandOf_cons hname, Command.mk.injEq, List.take_eq_self_iff]
    simp [hname]

/-- The parser's command holds words of the segment only. -/
theorem count_commandOf (s : List Text) (a : Char) :
    (commandOf s).name.count a + (commandOf s).args.flatten.count a ≤ s.flatten.count a := by
  induction s with
  | nil => exact Nat.le_refl _
  | cons w s ih =>
    by_cases hw : w = []
    · rw [hw]
      exact ih
    · rw [commandOf_cons hw, List.flatten_cons, List.count_append]
      have hsplit := congrArg (·.flatten.count a) (List.take_append_drop 16 s)
      simp only [List.flatten_append, List.count_append] at hsplit
      dsimp only
      omega

end SmallOs.Shell
