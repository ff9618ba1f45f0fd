import SmallOs.Screen.Terminal
import SmallOs.Shell.ClearLine
import SmallOs.Shell.Commands

/-!
# What a session leaves on the screen

`kernel/src/task/shell/mod.rs:42–112`: what the shell prints for its keys. The line that is being
typed is edited on the screen by backspaces; everything in front of it stays as it was printed.
-/

namespace SmallOs.Shell

open SmallOs.Base SmallOs.Boot SmallOs.Screen Outcome
open Vfs (Text)

/-- A backspace, a space and a backspace; `kernel/src/task/shell/mod.rs:86`. -/
def rubOut : Text := ['\x08', ' ', '\x08']

/-- What is printed for a key; `kernel/src/task/shell/mod.rs:60–107`. What the commands print comes
from `run`. -/
def ShellTask.prints (known : Text → Bool) (run : Action → Text) (s : ShellTask) : Key → Text
  | .unicode c =>
    if c = '\n' then
      '\n' :: ((executePipeline known (commandsOf s.line)).flatMap run ++ firstPrompt)
    else if Text.len (s.line.text ++ [c]) ≤ 128 then [c]
    else []
  | .backspace => if s.line.text = [] then [] else rubOut
  | .arrowUp =>
    match s.history.up with
    | some (line, _) => (List.replicate s.line.text.len rubOut).flatten ++ line.text
    | none => []
  | .arrowDown =>
    match s.history.down with
    | some (line, _) => (List.replicate s.line.text.len rubOut).flatten ++ line.text
    | none => []
  | .other => []

/-- What is printed for keys, from first to last. -/
def ShellTask.printsAll (known : Text → Bool) (run : Action → Text) (s : ShellTask) :
    List Key → List Text
  | [] => []
  | key :: keys => s.prints known run key :: (s.press known key).2.printsAll known run keys

/-- The color of `print!`. -/
def yellow : Color := ⟨255, 255, 0⟩

section Paper

variable (p : Page) (known : Text → Bool) (run : Action → Text)

/-- What stands in front of the line that is being typed, on paper that never ends: behind a line
that was entered come what its commands print and the next prompt. -/
def transcribe (paper : List (Option Glyph)) (s : ShellTask) : Key → List (Option Glyph)
  | .unicode c =>
    if c = '\n' then
      ((s.prints known run (.unicode c)).map (glyphOf yellow)).foldl (Scrollback.flow p)
        (paper ++ s.line.text.map (glyphOf yellow))
    else paper
  | _ => paper

/-- The paper behind keys. -/
def transcript (paper : List (Option Glyph)) (s : ShellTask) : List Key → List (Option Glyph)
  | [] => paper
  | key :: keys => transcript (transcribe p known run paper s key) (s.press known key).2 keys

end Paper

/-! ### The line on the page -/

section Page

variable {p : Page} {paper : List (Option Glyph)} {text : Text} {t : Scrollback Glyph p} {k : Nat}

/-- The paper, and the line behind it. -/
def written (paper : List (Option Glyph)) (text : Text) : List (Option Glyph) :=
  paper ++ text.map (glyphOf yellow)

/-- The page holds the paper and the line behind it, but the paper's first lines. -/
structure OnPage (k : Nat) (paper : List (Option Glyph)) (text : Text) (t : Scrollback Glyph p) :
    Prop where
  drops : Scrollback.Drops k (written paper text) t
  gone_le : k * p.columns ≤ paper.length

/-- Nothing more has to go. -/
theorem OnPage.max (h : OnPage k paper text t) :
    OnPage (max k (Scrollback.hidden p (written paper text))) paper text t := by
  rwa [Nat.max_eq_left h.drops.hidden_le]

end Page

/-! ### Keys -/

/-- A text without a backspace. -/
def Clean (s : Text) : Prop := '\x08' ∉ s

instance : DecidablePred Clean := fun _ ↦ inferInstanceAs (Decidable (¬ _))

theorem Clean.append {s s' : Text} (h : Clean s) (h' : Clean s') : Clean (s ++ s') := by
  intro hmem
  exact (List.mem_append.mp hmem).elim h h'

theorem len_of_plain {s : Text} (h : ∀ ch ∈ s, Plain ch) : s.len = s.length := by
  induction s with
  | nil => rfl
  | cons c s ih =>
    obtain ⟨hc, hs⟩ := List.forall_mem_cons.mp h
    rw [Text.len] at ih ⊢
    rw [List.map_cons, List.sum_cons, ih hs, hc.2, List.length_cons, Nat.add_comm]

/-- All characters that were typed are a single byte and no backspace. -/
structure PlainTask (s : ShellTask) : Prop where
  line : ∀ ch ∈ s.line.text, Plain ch
  entries : ∀ line ∈ s.history.entries, ∀ ch ∈ line.text, Plain ch

section Step

variable {p : Page} {k : Nat} {paper : List (Option Glyph)} {t : Scrollback Glyph p} {s : ShellTask}
  {known : Text → Bool} {run : Action → Text}

theorem length_line_le (hs : PlainTask s) : s.line.text.length ≤ 128 := by
  rw [← len_of_plain hs.line]
  exact s.line.fits

/-- The line that the history returns, and the history then. -/
theorem up_mem {history : History Line} {l : Line × History Line} (h : history.up = some l) :
    l.1 ∈ history.entries ∧ l.2.entries = history.entries := by
  unfold History.up at h
  split at h
  · cases h
    exact ⟨List.getElem_mem _, rfl⟩
  · cases h

theorem down_mem {history : History Line} {l : Line × History Line} (h : history.down = some l) :
    l.1 ∈ history.entries ∧ l.2.entries = history.entries := by
  unfold History.down at h
  split at h
  · cases h
    exact ⟨List.getElem_mem _, rfl⟩
  · cases h

theorem PlainTask.press (hs : PlainTask s) (key : Key) (hkey : ∀ c, key = .unicode c → Plain c) :
    PlainTask (s.press known key).2 := by
  cases key with
  | unicode c =>
    rw [ShellTask.press]
    by_cases hc : c = '\n'
    · rw [dif_pos hc]
      refine ⟨fun ch hch ↦ absurd hch List.not_mem_nil, ?_⟩
      intro line hline
      change line ∈ (s.history.push s.line).entries at hline
      unfold History.push at hline
      split at hline
      · rcases List.mem_append.mp hline with hline | hline
        · exact hs.entries line hline
        · rw [List.mem_singleton.mp hline]
          exact hs.line
      · exact hs.entries line hline
    · rw [dif_neg hc]
      refine ⟨?_, hs.entries⟩
      change ∀ ch ∈ (s.line.push c hc).text, Plain ch
      rw [Line.push]
      split
      · intro ch hch
        rcases List.mem_append.mp hch with hch | hch
        · exact hs.line ch hch
        · rw [List.mem_singleton.mp hch]
          exact hkey c rfl
      · exact hs.line
  | backspace => exact ⟨fun ch hch ↦ hs.line ch (List.dropLast_subset _ hch), hs.entries⟩
  | arrowUp =>
    rw [ShellTask.press]
    cases hup : s.history.up with
    | none => exact hs
    | some l =>
      obtain ⟨hmem, hentries⟩ := up_mem hup
      exact ⟨hs.entries _ hmem, hentries ▸ hs.entries⟩
  | arrowDown =>
    rw [ShellTask.press]
    cases hdown : s.history.down with
    | none => exact hs
    | some l =>
      obtain ⟨hmem, hentries⟩ := down_mem hdown
      exact ⟨hs.entries _ hmem, hentries ▸ hs.entries⟩
  | other => exact hs

end Step

/-! ### What the commands print -/

/-- The text that an effect puts on the screen. -/
def Effect.text : Effect → Text
  | print text => text
  | sleep _ => []

/-- What is printed for an action. -/
def Commands.output (commands : Commands) (path : Text) (action : Action) : Text :=
  (commands.effects path action).flatMap Effect.text

section Clean

variable {toUppercase : Text → Text} {entries : List CommandEntry} {env : Env} {args : List Text}

end Clean

/-! ### The screen -/

/-- The shell in front of the first key. -/
def ShellTask.start : ShellTask := ⟨.empty, .new⟩

namespace Commands

/-- What the shell prints for keys, the first prompt in front of it. -/
def printed (commands : Commands) (keys : List Key) : List Text :=
  firstPrompt :: ShellTask.start.printsAll commands.known (commands.output ['/']) keys

/-- Everything in front of the line that is being typed. -/
def past (commands : Commands) (p : Page) (keys : List Key) : List (Option Glyph) :=
  transcript p commands.known (commands.output ['/'])
    ((firstPrompt.map (glyphOf yellow)).foldl (Scrollback.flow p) []) .start keys

/-- Everything, with the line that is being typed. -/
def written (commands : Commands) (p : Page) (keys : List Key) : List (Option Glyph) :=
  Shell.written (commands.past p keys) (ShellTask.start.pressAll commands.known keys).2.line.text

end Commands

end SmallOs.Shell
