import SmallOs.Base.Maps
import SmallOs.Shell.Arguments
import SmallOs.Shell.Rendering
import SmallOs.Shell.Typed

/-!
# The commands of the shell

`kernel/src/task/shell/commands/`: the commands, the table that `init_commands` makes of them, and
what the shell does for a line. A call that is written in a line, with its flags anywhere among its
words, runs the command with its values.
-/

namespace SmallOs.Shell

open SmallOs.Base
open Vfs (Text)

/-- What a command does: it prints, or it waits for a number of ticks. -/
inductive Effect where
  | print (text : Text)
  | sleep (ticks : UInt64)

/-- What a body reads besides its parameters: the keys of `COMMANDS` and the current path. -/
structure Env where
  names : List String
  path : Text

/-- `kernel/src/task/shell/commands/mod.rs:17–25`, with the function as its parameters and its
body. -/
structure CommandEntry where
  name : Text
  params : List Param
  body : Env → Bound params → List Effect

namespace CommandEntry

/-- `format!("Missing or invalid argument: {}\n", ident)`. -/
def missing (ident : Text) : Text := "Missing or invalid argument: ".toList ++ ident ++ ['\n']

/-- The rewritten function of a command; `lib/macros/src/lib.rs:165–207`. -/
def func (entry : CommandEntry) (env : Env) (args : List Text) : List Effect :=
  match parseArgs entry.params args with
  | .ok values => entry.body env values
  | .error ident => [.print (missing ident)]

end CommandEntry

/-! ### The commands -/

/-- `println!` of a text. -/
def println (text : Text) : Effect := .print (text ++ ['\n'])

/-- `kernel/src/task/shell/mod.rs:162–179`, which is a stub. -/
def changeDir (_path : Text) : Except Text Unit := .error "change_dir failed".toList

/-- `kernel/src/task/shell/commands/cd.rs:5–16`. -/
def cd : CommandEntry where
  name := "cd".toList
  params := [⟨"path".toList, .required .string⟩]
  body _ values :=
    let (path, _) := values
    match changeDir path with
    | .error e => [println ("cd: ".toList ++ e)]
    | .ok () => []

/-- `kernel/src/task/shell/commands/echo.rs:5–12`. -/
def cmdEcho (toUppercase : Text → Text) : CommandEntry where
  name := "echo".toList
  params := [⟨"text".toList, .required .string⟩, ⟨"upper".toList, .flag⟩]
  body _ values :=
    let (text, upper, _) := values
    let upper : Bool := upper
    if upper then [println (toUppercase text)] else [println text]

/-- `kernel/src/task/shell/commands/help.rs:5–11`. -/
def cmdHelp : CommandEntry where
  name := "help".toList
  params := []
  body env _ := env.names.map fun name ↦ println ([' ', ' '] ++ name.toList)

/-- `kernel/src/task/shell/commands/ls.rs:6–11`; the body is a comment. -/
def ls : CommandEntry where
  name := "ls".toList
  params := [⟨"_path".toList, .optional .string⟩]
  body _ _ := []

/-- `kernel/src/task/shell/commands/mkdir.rs:6–11`; the body is a comment. -/
def mkdir : CommandEntry where
  name := "mkdir".toList
  params := [⟨"_dirname".toList, .required .string⟩]
  body _ _ := []

/-- `kernel/src/task/shell/commands/pwd.rs:5–8`. -/
def pwd : CommandEntry where
  name := "pwd".toList
  params := []
  body env _ := [println env.path]

/-- `kernel/src/task/shell/commands/sleep.rs:5–14`. -/
def cmdSleep : CommandEntry where
  name := "sleep".toList
  params := [⟨"ticks".toList, .optional .usize⟩]
  body _ values :=
    let (ticks, _) := values
    let ticks : Option UInt64 := ticks
    match ticks with
    | some t => [.sleep t]
    | none => []

/-- `kernel/src/task/shell/commands/touch.rs:6–11`; the body is a comment. -/
def touch : CommandEntry where
  name := "touch".toList
  params := [⟨"_filename".toList, .required .string⟩]
  body _ _ := []

/-- All commands; the linker puts their entries next to each other, in some order. -/
def allCommands (toUppercase : Text → Text) : List CommandEntry :=
  [cd, cmdEcho toUppercase, cmdHelp, ls, mkdir, pwd, cmdSleep, touch]

/-! ### The table -/

/-- `COMMANDS`; `kernel/src/task/shell/commands/mod.rs:41–45`. -/
abbrev Commands := Std.TreeMap String CommandEntry

/-- `kernel/src/task/shell/commands/mod.rs:53–70`, for the entries between the two symbols. -/
def initCommands (entries : List CommandEntry) : Commands :=
  entries.foldl (fun map entry ↦ map.insert (String.ofList entry.name) entry) ∅

namespace Commands

/-- `map.get(cmd.name)`. -/
def get (commands : Commands) (name : Text) : Option CommandEntry := commands[String.ofList name]?

/-- Whether there is a command with this name. -/
def known (commands : Commands) (name : Text) : Bool := (commands.get name).isSome

/-- What an action does; `kernel/src/task/shell/tokenizer/parser.rs:37–45`. -/
def effects (commands : Commands) (path : Text) : Action → List Effect
  | .run name args =>
    match commands.get name with
    | some entry => entry.func ⟨commands.keys, path⟩ args
    | none => []
  | .unknown name => [println ("Unknown command: ".toList ++ name)]

end Commands

/-- What the shell executes for keys, from first to last. -/
def ShellTask.pressAll (known : Text → Bool) (s : ShellTask) : List Key → List Action × ShellTask
  | [] => ([], s)
  | key :: keys =>
    let (actions, s) := s.press known key
    let (rest, s) := s.pressAll known keys
    (actions ++ rest, s)

/-! ### Calls -/

/-- A call of a command, with the words that it is written with behind its name. -/
structure Call where
  entry : CommandEntry
  values : Bound entry.params
  args : List Text
  spelled : Spells entry.params values (positional args)
  flagged : Flagged args entry.params values

namespace Call

/-- The words of a call. -/
def words (c : Call) : List Text := c.entry.name :: c.args

/-- What the call is for. -/
def effects (env : Env) (c : Call) : List Effect := c.entry.body env c.values

theorem func_args (env : Env) (c : Call) : c.entry.func env c.args = c.effects env := by
  rw [CommandEntry.func, parseArgs_of_spells c.spelled c.flagged]
  rfl

end Call

/-- Calls with pipes between them. -/
def tokensOf : List Call → List Token
  | [] => []
  | [c] => c.words.map .word
  | c :: calls => c.words.map .word ++ .pipe :: tokensOf calls

/-- A line of calls that the shell has room for. -/
structure CallLine (calls : List Call) (text : Text) : Prop where
  rendered : Rendered (tokensOf calls) text
  len_le : text.len ≤ 128
  one_line : '\n' ∉ text
  no_prompt : ¬ firstPrompt <:+: text
  calls_le : calls.length ≤ 8
  tokens_le : (tokensOf calls).length ≤ 64
  args_le : ∀ c ∈ calls, c.args.length ≤ 16

variable {calls : List Call} {text : Text}

theorem segments_words (words : List Text) (ts : List Token) :
    segments (words.map .word ++ ts) = (segments ts).modifyHead (words ++ ·) := by
  induction words with
  | nil => exact modifyHead_nil_append.symm
  | cons w words ih =>
    rw [List.map_cons, List.cons_append, segments, ih, List.modifyHead_modifyHead]
    rfl

/-- The segments of the line are the words of its calls. -/
theorem segments_tokensOf (hcalls : calls ≠ []) : segments (tokensOf calls) = calls.map Call.words := by
  induction calls with
  | nil => exact absurd rfl hcalls
  | cons c calls ih =>
    cases calls with
    | nil =>
      have hsegments := segments_words c.words []
      rwa [List.append_nil, segments, List.modifyHead_cons, List.append_nil] at hsegments
    | cons d calls =>
      rw [tokensOf, segments_words, segments, List.modifyHead_cons, ih (List.cons_ne_nil _ _),
        List.append_nil]
      · rfl
      · exact List.cons_ne_nil _ _

theorem length_tokensOf (hcalls : calls ≠ []) : (tokensOf calls).length + 1 =
    ((calls.map Call.words).map (·.length + 1)).sum := by
  induction calls with
  | nil => exact absurd rfl hcalls
  | cons c calls ih =>
    cases calls with
    | nil => simp [tokensOf]
    | cons d calls =>
      have ih := ih (List.cons_ne_nil _ _)
      rw [List.map_cons, List.map_cons, List.sum_cons, ← ih, tokensOf, List.length_append,
        List.length_map, List.length_cons]
      · omega
      · exact List.cons_ne_nil _ _

/-- What the shell makes of the line. -/
theorem commandsOf_callLine {line : Line} (h : CallLine calls line.text)
    (hnames : ∀ c ∈ calls, c.entry.name ≠ []) :
    commandsOf line = calls.map fun c ↦ ⟨c.entry.name, c.args⟩ := by
  have hsame : replace firstPrompt ['\n'] line.text = line.text := replace_of_not_infix h.no_prompt
  have hreads := h.rendered.reads
  rw [commandsOf_eq (hsame.symm ▸ hreads)]
  by_cases hcalls : calls = []
  · subst hcalls
    rfl
  · have hfits : Fits 64 8 (calls.map Call.words) := by
      apply fits_of_named
      · rw [List.length_map]
        exact h.calls_le
      · rw [← length_tokensOf hcalls]
        exact Nat.succ_le_succ h.tokens_le
      · intro s hs
        obtain ⟨c, hc, rfl⟩ := List.mem_map.mp hs
        exact ⟨_, _, rfl, hnames c hc, h.args_le c hc⟩
    have hne : calls.map Call.words ≠ [] := by simpa using hcalls
    rw [segments_tokensOf hcalls, (executed_iff hne).mpr hfits, meant, List.filterMap_map,
      ← List.filterMap_eq_map]
    rfl

/-! ### The table holds the commands -/

/-- The names of the commands in their order. -/
def commandNames : List String := ["cd", "echo", "help", "ls", "mkdir", "pwd", "sleep", "touch"]

theorem names_allCommands (toUppercase : Text → Text) :
    (allCommands toUppercase).map (fun entry ↦ String.ofList entry.name) = commandNames := rfl

theorem name_ne_nil {toUppercase : Text → Text} {entry : CommandEntry}
    (h : entry ∈ allCommands toUppercase) : entry.name ≠ [] := by
  intro hname
  have hmem : String.ofList entry.name ∈ commandNames := by
    rw [← names_allCommands toUppercase]
    exact List.mem_map_of_mem h
  rw [hname] at hmem
  exact absurd hmem (by decide)

section Table

variable {toUppercase : Text → Text} {entries : List CommandEntry}

/-- The linker put the entries of the commands next to each other. -/
theorem map_names (h : entries.Perm (allCommands toUppercase)) :
    (entries.map fun entry ↦ String.ofList entry.name).Perm commandNames := by
  rw [← names_allCommands toUppercase]
  exact h.map _

theorem get_initCommands (h : entries.Perm (allCommands toUppercase)) {entry : CommandEntry}
    (hentry : entry ∈ allCommands toUppercase) :
    (initCommands entries).get entry.name = some entry := by
  apply getElem?_foldl_insert
  · exact (map_names h).nodup_iff.mpr (by decide)
  · exact h.mem_iff.mpr hentry

theorem keys_initCommands (h : entries.Perm (allCommands toUppercase)) :
    (initCommands entries).keys = commandNames := by
  apply keys_eq_of_sorted
  · decide
  · intro name
    rw [← (map_names h).mem_iff, Std.TreeMap.mem_iff_isSome_getElem?, List.mem_map]
    constructor
    · intro hmem
      obtain ⟨entry, hget⟩ := Option.isSome_iff_exists.mp hmem
      rcases exists_of_getElem?_foldl_insert hget with ⟨e, he, hname, -⟩ | hempty
      · exact ⟨e, he, hname⟩
      · rw [Std.TreeMap.getElem?_emptyc] at hempty
        cases hempty
    · rintro ⟨entry, hentry, rfl⟩
      have hget := get_initCommands h (h.mem_iff.mp hentry)
      rw [Commands.get] at hget
      rw [hget]
      rfl

end Table

/-! ### Lines that are typed -/

theorem pressAll_append (known : Text → Bool) (s : ShellTask) (keys keys' : List Key) :
    s.pressAll known (keys ++ keys') =
      ((s.pressAll known keys).1 ++ ((s.pressAll known keys).2.pressAll known keys').1,
        ((s.pressAll known keys).2.pressAll known keys').2) := by
  induction keys generalizing s with
  | nil => rfl
  | cons key keys ih => simp only [List.cons_append, ShellTask.pressAll, ih, List.append_assoc]

/-- The keys of a line. -/
def keysOf (text : Text) : List Key := text.map .unicode ++ [.unicode '\n']

/-- Typing appends to the line as long as it fits. -/
theorem pressAll_text (known : Text → Bool) (s : ShellTask) (text : Text)
    (hlen : Text.len (s.line.text ++ text) ≤ 128) (hline : '\n' ∉ text) :
    ∃ line : Line, line.text = s.line.text ++ text ∧
      s.pressAll known (text.map .unicode) = ([], ⟨line, s.history⟩) := by
  induction text generalizing s with
  | nil => exact ⟨s.line, (List.append_nil _).symm, rfl⟩
  | cons c text ih =>
    obtain ⟨hc, hline⟩ := not_or.mp (mt List.mem_cons.mpr hline)
    have hc : c ≠ '\n' := fun h ↦ hc h.symm
    have hsplit : s.line.text ++ c :: text = (s.line.text ++ [c]) ++ text := by
      rw [List.append_assoc, List.singleton_append]
    rw [hsplit] at hlen
    have hfirst : Text.len (s.line.text ++ [c]) ≤ 128 := by
      rw [Text.len_append] at hlen
      omega
    have hpush : (s.line.push c hc).text = s.line.text ++ [c] := by
      rw [Line.push, dif_pos hfirst]
    obtain ⟨line, hline', hrest⟩ := ih { s with line := s.line.push c hc } (by rwa [hpush]) hline
    refine ⟨line, by rw [hline', hpush, hsplit], ?_⟩
    rw [List.map_cons, ShellTask.pressAll, ShellTask.press, dif_neg hc]
    simp only [hrest, List.nil_append]

/-- A line that is typed and entered is executed, and the next one starts empty. -/
theorem pressAll_keysOf (known : Text → Bool) (s : ShellTask) {text : Text}
    (hs : s.line = .empty) (hlen : text.len ≤ 128) (hline : '\n' ∉ text) :
    ∃ line : Line, line.text = text ∧ s.pressAll known (keysOf text) =
      (executePipeline known (commandsOf line), ⟨.empty, s.history.push line⟩) := by
  have hempty : s.line.text = [] := by rw [hs]; rfl
  obtain ⟨line, htext, hpress⟩ := pressAll_text known s text (by rwa [hempty]) hline
  rw [hempty, List.nil_append] at htext
  refine ⟨line, htext, ?_⟩
  rw [keysOf, pressAll_append, hpress]
  simp [ShellTask.pressAll, ShellTask.press]

/-- Calls that are typed, line by line, are what the shell does: each command gets the values that
it is called with, in whatever order the linker has put the commands, and whatever words stand in
quotes, whatever spaces stand between them, and wherever the flags stand. -/
theorem typed_calls (toUppercase : Text → Text) {entries : List CommandEntry}
    (hentries : entries.Perm (allCommands toUppercase)) (path : Text)
    (lines : List (List Call × Text)) (hlines : ∀ l ∈ lines, CallLine l.1 l.2)
    (hcalls : ∀ l ∈ lines, ∀ c ∈ l.1, c.entry ∈ allCommands toUppercase) (s : ShellTask)
    (hs : s.line = .empty) :
    (s.pressAll (initCommands entries).known (lines.flatMap fun l ↦ keysOf l.2)).1.flatMap
        ((initCommands entries).effects path) =
      lines.flatMap fun l ↦ l.1.flatMap (Call.effects ⟨commandNames, path⟩) := by
  induction lines generalizing s with
  | nil => rfl
  | cons l lines ih =>
    obtain ⟨hl, hlines⟩ := List.forall_mem_cons.mp hlines
    obtain ⟨hcalls, hrest⟩ := List.forall_mem_cons.mp hcalls
    have hnames : ∀ c ∈ l.1, c.entry.name ≠ [] := fun c hc ↦ name_ne_nil (hcalls c hc)
    obtain ⟨line, htext, hpress⟩ :=
      pressAll_keysOf (initCommands entries).known s hs hl.len_le hl.one_line
    have hexecuted : (executePipeline (initCommands entries).known (commandsOf line)).flatMap
        ((initCommands entries).effects path) =
          l.1.flatMap (Call.effects ⟨commandNames, path⟩) := by
      rw [commandsOf_callLine (htext ▸ hl) hnames, executePipeline, List.map_map, List.flatMap_map]
      apply flatMap_congr_mem
      intro c hc
      have hget := get_initCommands hentries (hcalls c hc)
      have hknown : (initCommands entries).known c.entry.name = true := by
        rw [Commands.known, hget]
        rfl
      simp only [Function.comp_apply, execute, hknown, if_true, Commands.effects, hget,
        keys_initCommands hentries, Call.func_args]
    rw [List.flatMap_cons, List.flatMap_cons, pressAll_append, hpress, List.flatMap_append,
      hexecuted, ih hlines hrest _ rfl]

theorem bare_of_all {w : Text} (h : w ≠ [] ∧ w.all isBare = true ∧ w.head? ≠ some '"') :
    Written (.word w) w :=
  .bare h.1 (List.all_eq_true.mp h.2.1) h.2.2

/-- `echo` of a quoted word behind its flag. -/
def echoCall : Call where
  entry := cmdEcho id
  values := (['a', '|', 'b'], true, ())
  args := [flagWord ['u', 'p', 'p', 'e', 'r'], ['a', '|', 'b']]
  spelled := ⟨_, _, rfl, rfl, rfl⟩
  flagged := ⟨iff_of_true rfl List.mem_cons_self, trivial⟩

/-- `sleep` for seven ticks. -/
def sleepCall : Call where
  entry := cmdSleep
  values := (some 7, ())
  args := [['7']]
  spelled := ⟨_, _, rfl, rfl, rfl⟩
  flagged := trivial

/-- A line of both. -/
def echoSleep : Text :=
  "echo".toList ++ ' ' :: (flagWord ['u', 'p', 'p', 'e', 'r'] ++ ' ' ::
    (('"' :: (['a', '|', 'b'] ++ ['"'])) ++ ' ' :: (['|'] ++ ' ' ::
      ("sleep".toList ++ ' ' :: ' ' :: (['7'] ++ [])))))

theorem callLine_echoSleep : CallLine [echoCall, sleepCall] echoSleep where
  rendered := by
    have hspace {s : Text} : ∀ c, (' ' :: s).head? = some c → c = ' ' := by simp
    apply Rendered.token (bare_of_all (by decide)) (.space _) hspace
    apply Rendered.token (bare_of_all (by decide)) (.space _) hspace
    apply Rendered.token (.quoted (by decide)) (.space _) hspace
    apply Rendered.token .pipe (.space _) hspace
    apply Rendered.token (bare_of_all (by decide)) (.space (.space _)) hspace
    exact Rendered.token (bare_of_all (by decide)) .nil (by simp)
  len_le := by decide
  one_line := by decide
  no_prompt := by decide
  calls_le := by decide
  tokens_le := by decide
  args_le := by decide

/-- The line prints the word and waits. -/
theorem typed_calls_echoSleep :
    ((ShellTask.mk .empty .new).pressAll (initCommands (allCommands id)).known
        ([([echoCall, sleepCall], echoSleep)].flatMap fun l ↦ keysOf l.2)).1.flatMap
        ((initCommands (allCommands id)).effects ['/']) =
      [.print ['a', '|', 'b', '\n'], .sleep 7] :=
  typed_calls id (.refl _) ['/'] [([echoCall, sleepCall], echoSleep)]
    (List.forall_mem_singleton.mpr callLine_echoSleep)
    (List.forall_mem_singleton.mpr (List.forall_mem_cons.mpr ⟨.tail _ (.head _),
      List.forall_mem_singleton.mpr (List.mem_of_getElem? (i := 6) rfl)⟩)) ⟨.empty, .new⟩ rfl

end SmallOs.Shell
