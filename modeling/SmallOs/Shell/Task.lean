import SmallOs.Base.Replace
import SmallOs.Shell.Pipeline

/-!
# The shell

`kernel/src/task/shell/mod.rs` and `history.rs`: keys edit a line or fetch one from the history,
and the enter key runs what the line holds. A line is at most 128 bytes long and holds no line
feed, whatever keys are pressed.
-/

namespace SmallOs.Shell

open SmallOs.Base
open Vfs (Text)

/-- `heapless::String<128>`, as the loop of `shell_task` fills it. -/
structure Line where
  text : Text
  fits : text.len ≤ 128
  typed : '\n' ∉ text

namespace Line

def empty : Line := ⟨[], Nat.zero_le _, List.not_mem_nil⟩

/-- `heapless::String::push`, of a character that is not a line feed. -/
def push (line : Line) (c : Char) (hc : c ≠ '\n') : Line :=
  if h : Text.len (line.text ++ [c]) ≤ 128 then
    ⟨line.text ++ [c], h, fun hmem ↦ (List.mem_append.mp hmem).elim line.typed
      fun hlast ↦ hc (List.mem_singleton.mp hlast).symm⟩
  else line

theorem len_dropLast_le (s : Text) : Text.len s.dropLast ≤ Text.len s := by
  obtain ⟨t, ht⟩ := s.dropLast_prefix
  have hlen := Text.len_append s.dropLast t
  rw [ht] at hlen
  omega

/-- `heapless::String::pop`. -/
def pop (line : Line) : Line :=
  ⟨line.text.dropLast, Nat.le_trans (len_dropLast_le _) line.fits,
    fun hmem ↦ line.typed (List.dropLast_subset _ hmem)⟩

end Line

/-- `kernel/src/task/shell/history.rs:1–4`, for any type of entries. -/
structure History (L : Type) where
  entries : List L
  index : Nat
  inside : index ≤ entries.length

namespace History

variable {L : Type}

/-- `kernel/src/task/shell/history.rs:7`. -/
def new : History L := ⟨[], 0, Nat.le_refl _⟩

/-- `kernel/src/task/shell/history.rs:11–13`: a full history stays as it is. -/
def push (history : History L) (line : L) : History L :=
  if history.entries.length < 32 then
    ⟨history.entries ++ [line], (history.entries ++ [line]).length, Nat.le_refl _⟩
  else history

/-- `kernel/src/task/shell/history.rs:17–24`. -/
def up (history : History L) : Option (L × History L) :=
  if h : 0 < history.index then
    have hlt : history.index - 1 < history.entries.length := by
      have := history.inside
      omega
    some (history.entries[history.index - 1],
      { history with index := history.index - 1, inside := Nat.le_of_lt hlt })
  else none

/-- `kernel/src/task/shell/history.rs:26–33`. -/
def down (history : History L) : Option (L × History L) :=
  if h : history.index + 1 < history.entries.length then
    some (history.entries[history.index + 1],
      { history with index := history.index + 1, inside := Nat.le_of_lt h })
  else none

end History

/-- `kernel/src/task/shell/mod.rs:38`. -/
def getPrompt (path : Text) : Text := path ++ ['>', ' ']

/-- The prompt that `shell_task` has printed first, of the root;
`kernel/src/task/shell/mod.rs:47`. -/
def firstPrompt : Text := getPrompt ['/']

/-- The commands of a line; `kernel/src/task/shell/mod.rs:65–72`. -/
def commandsOf (line : Line) : List Command :=
  parsePipeline (tokenize (replace firstPrompt ['\n'] line.text))

/-- The keys that the keyboard decodes. -/
inductive Key where
  | unicode (c : Char)
  | backspace
  | arrowUp
  | arrowDown
  | other

/-- What `shell_task` keeps from key to key. -/
structure ShellTask where
  line : Line
  history : History Line

/-- The body of the loop for a key, and what it has executed;
`kernel/src/task/shell/mod.rs:61–107`. -/
def ShellTask.press (known : Text → Bool) (s : ShellTask) : Key → List Action × ShellTask
  | .unicode c =>
    if h : c = '\n' then
      (executePipeline known (commandsOf s.line), ⟨.empty, s.history.push s.line⟩)
    else ([], { s with line := s.line.push c h })
  | .backspace => ([], { s with line := s.line.pop })
  | .arrowUp =>
    match s.history.up with
    | some (line, history) => ([], ⟨line, history⟩)
    | none => ([], s)
  | .arrowDown =>
    match s.history.down with
    | some (line, history) => ([], ⟨line, history⟩)
    | none => ([], s)
  | .other => ([], s)

/-- What the enter key executes. -/
theorem ShellTask.press_enter (known : Text → Bool) (s : ShellTask) :
    (s.press known (.unicode '\n')).1 = executePipeline known (commandsOf s.line) := rfl

end SmallOs.Shell
