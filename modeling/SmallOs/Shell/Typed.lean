import SmallOs.Shell.Task

/-!
# Lines are executed as typed

What a line means is one command for every segment that is not empty. The shell executes that for
a line without the prompt's text whose tokens, commands and arguments fit and whose segments all
have a first word that is not empty; and otherwise only where what goes wrong happens to cancel
out.
-/

namespace SmallOs.Shell

open SmallOs.Base
open Vfs (Text)

/-- The first word of a segment with the others as its arguments. -/
def meantBy : List Text → Option Command
  | [] => none
  | name :: args => some ⟨name, args⟩

/-- One command for every segment that is not empty. -/
def meant (S : List (List Text)) : List Command := S.filterMap meantBy

/-- The segments of the first `n` tokens. -/
def cut : Nat → List (List Text) → List (List Text)
  | _, [] => []
  | n, [s] => [s.take n]
  | n, s :: S => if n ≤ s.length then [s.take n] else s :: cut (n - s.length - 1) S

/-- How many of the segments end with a pipe, or hold a word that is not empty. -/
def ended : List (List Text) → Nat
  | [] => 0
  | [s] => if ∀ w ∈ s, w = [] then 0 else 1
  | _ :: S => ended S + 1

/-- A segment with at most 16 arguments whose first word is not empty, or that is one empty word. -/
def Good (s : List Text) : Prop :=
  ∃ name args, s = name :: args ∧ args.length ≤ 16 ∧ (name ≠ [] ∨ args = [])

/-- A segment without words, or with one empty word. -/
def Vain (s : List Text) : Prop := s = [] ∨ s = [[]]

/-- What `n` tokens and `c` commands have room for. As many segments hold a word as the parser ends
commands; those in front are good and among the tokens, and behind them there is nothing but empty
words. -/
def Fits (n c : Nat) (S : List (List Text)) : Prop :=
  (S.filter (· ≠ [])).length = min c (ended (cut n S)) ∧
    ∃ good rest, S = good ++ rest ∧ (∀ s ∈ good, Good s) ∧ (∀ s ∈ rest, Vain s) ∧
      (good.map (·.length + 1)).sum ≤ n + 1

variable {s : List Text} {S : List (List Text)} {n c : Nat}

/-! ### Cutting -/

theorem cut_singleton : cut n [s] = [s.take n] := rfl

theorem cut_cons (hS : S ≠ []) :
    cut n (s :: S) = if n ≤ s.length then [s.take n] else s :: cut (n - s.length - 1) S := by
  cases S with
  | nil => exact absurd rfl hS
  | cons s' S => rfl

theorem cut_ne_nil (hS : S ≠ []) : cut n S ≠ [] := by
  cases S with
  | nil => exact absurd rfl hS
  | cons s S =>
    by_cases hS : S = []
    · rw [hS]
      exact List.cons_ne_nil _ _
    · rw [cut_cons hS]
      split <;> exact List.cons_ne_nil _ _

/-- A word in front of the segments is one token more. -/
theorem cut_modifyHead (w : Text) (hS : S ≠ []) :
    cut (n + 1) (S.modifyHead (w :: ·)) = (cut n S).modifyHead (w :: ·) := by
  cases S with
  | nil => exact absurd rfl hS
  | cons s S =>
    rw [List.modifyHead_cons]
    by_cases hS : S = []
    · rw [hS]
      rfl
    · rw [cut_cons hS, cut_cons hS, List.length_cons]
      by_cases hn : n ≤ s.length
      · rw [if_pos hn, if_pos (Nat.succ_le_succ hn)]
        rfl
      · have hsub : n + 1 - (s.length + 1) - 1 = n - s.length - 1 := by omega
        rw [if_neg hn, if_neg (by omega), hsub]
        rfl

theorem segments_take (ts : List Token) (n : Nat) : segments (ts.take n) = cut n (segments ts) := by
  induction ts generalizing n with
  | nil =>
    rw [List.take_nil, segments, cut_singleton, List.take_nil]
  | cons t ts ih =>
    cases n with
    | zero =>
      rw [List.take_zero]
      cases hS : segments (t :: ts) with
      | nil => exact absurd hS (segments_ne_nil _)
      | cons s S =>
        cases S with
        | nil => rfl
        | cons s' S => rfl
    | succ n =>
      rw [List.take_succ_cons]
      cases t with
      | word w => rw [segments, segments, ih, cut_modifyHead w (segments_ne_nil ts)]
      | pipe =>
        rw [segments, segments, ih, cut_cons (segments_ne_nil ts), if_neg (by simp)]
        rfl

/-! ### Counting commands -/

theorem length_meant : (meant S).length = (S.filter (· ≠ [])).length := by
  induction S with
  | nil => rfl
  | cons s S ih =>
    cases s with
    | nil =>
      rw [List.filter_cons_of_neg (by simp), ← ih]
      rfl
    | cons name args =>
      rw [List.filter_cons_of_pos (by simp), List.length_cons, ← ih]
      rfl

theorem ended_cons (hS : S ≠ []) : ended (s :: S) = ended S + 1 := by
  cases S with
  | nil => exact absurd rfl hS
  | cons s' S => rfl

theorem length_collect : (collect S).length = ended S := by
  induction S with
  | nil => rfl
  | cons s S ih =>
    by_cases hS : S = []
    · subst hS
      rw [collect, ended]
      simp only [commandOf_name]
      split <;> rfl
    · rw [collect_cons hS, List.length_cons, ih, ended_cons hS]

/-! ### Segments of empty words -/

theorem Vain.commandOf (h : Vain s) : commandOf s = .empty := by
  rcases h with rfl | rfl <;> rfl

theorem Vain.take (h : Vain s) : Vain (s.take n) := by
  rcases h with rfl | rfl
  · rw [List.take_nil]
    exact .inl rfl
  · cases n with
    | zero => exact .inl rfl
    | succ n =>
      rw [List.take_succ_cons, List.take_nil]
      exact .inr rfl

/-- The parser makes nothing of a last segment without words or with an empty one. -/
theorem Vain.collect (h : Vain s) : collect [s] = [] := by
  rw [Shell.collect, h.commandOf]
  rfl

theorem vain_meantBy {cmd : Command} (h : meantBy s = some cmd) : Vain s ↔ cmd = .empty := by
  cases s with
  | nil => cases h
  | cons name args =>
    cases h
    simp [Vain, Command.empty]

/-- All commands that are meant are empty when no segment holds more than an empty word. -/
theorem vain_iff : (∀ s ∈ S, Vain s) ↔ ∀ cmd ∈ meant S, cmd = .empty := by
  constructor
  · intro hS cmd hcmd
    obtain ⟨s, hs, hmeant⟩ := List.mem_filterMap.mp hcmd
    exact (vain_meantBy hmeant).mp (hS s hs)
  · intro hall s hs
    cases hmeant : meantBy s with
    | none =>
      cases s with
      | nil => exact .inl rfl
      | cons name args => cases hmeant
    | some cmd =>
      apply (vain_meantBy hmeant).mpr
      exact hall cmd (List.mem_filterMap.mpr ⟨s, hs, hmeant⟩)

/-- Of such segments the parser makes empty commands. -/
theorem collect_cut_vain (hS : ∀ s ∈ S, Vain s) :
    ∃ k, collect (cut n S) = List.replicate k .empty := by
  induction S generalizing n with
  | nil => exact ⟨0, rfl⟩
  | cons s S ih =>
    obtain ⟨hs, hS'⟩ := List.forall_mem_cons.mp hS
    by_cases hnil : S = []
    · exact ⟨0, by rw [hnil, cut_singleton, hs.take.collect]; rfl⟩
    rw [cut_cons hnil]
    split
    · exact ⟨0, hs.take.collect⟩
    · obtain ⟨k, hk⟩ := ih hS' (n := n - s.length - 1)
      refine ⟨k + 1, ?_⟩
      rw [collect_cons (cut_ne_nil hnil), hk, hs.commandOf]
      rfl

/-! ### What fits is executed as it is meant -/

theorem Good.meantBy (h : Good s) : meantBy s = some (commandOf s) := by
  obtain ⟨name, args, rfl, hargs⟩ := h
  rw [Shell.meantBy, commandOf_eq_iff.mpr hargs]

theorem collect_singleton_prefix : collect [s] <+: [commandOf s] := by
  rw [collect]
  split
  · exact List.nil_prefix
  · exact List.prefix_rfl

theorem meant_cons_of_good (h : Good s) : meant (s :: S) = commandOf s :: meant S :=
  List.filterMap_cons_some h.meantBy

/-- Good segments in front become their commands, as far as the tokens reach, and empty commands
follow. -/
theorem collect_cut_good {good rest : List (List Text)} (hgood : ∀ s ∈ good, Good s)
    (hrest : ∀ s ∈ rest, Vain s) (hn : (good.map (·.length + 1)).sum ≤ n + 1) :
    ∃ k, collect (cut n (good ++ rest)) <+: meant good ++ List.replicate k .empty := by
  induction good generalizing n with
  | nil =>
    obtain ⟨k, hk⟩ := collect_cut_vain hrest (n := n)
    refine ⟨k, ?_⟩
    rw [List.nil_append, hk]
    exact List.prefix_rfl
  | cons s good ih =>
    obtain ⟨hs, hgood⟩ := List.forall_mem_cons.mp hgood
    rw [List.map_cons, List.sum_cons] at hn
    rw [List.cons_append, meant_cons_of_good hs]
    have hwhole : s.take n = s := List.take_of_length_le (by omega)
    have hlast : ∃ k, collect [s.take n] <+:
        (commandOf s :: meant good) ++ List.replicate k .empty := by
      refine ⟨0, ?_⟩
      rw [hwhole, List.cons_append, ← List.singleton_append]
      exact collect_singleton_prefix.trans (List.prefix_append _ _)
    by_cases hnil : good ++ rest = []
    · rw [hnil]
      exact hlast
    rw [cut_cons hnil]
    split
    · exact hlast
    · obtain ⟨k, hk⟩ := ih hgood (n := n - s.length - 1) (by omega)
      refine ⟨k, ?_⟩
      rw [collect_cons (cut_ne_nil hnil), List.cons_append]
      exact (List.prefix_cons_inj _).mpr hk

/-! ### What is executed as it is meant fits -/

/-- A segment without a name becomes an empty command if its pipe is not cut off. -/
theorem collect_cut_cons_vain (hs : Vain s) (hS : S ≠ []) : collect (cut n (s :: S)) = [] ∨
    ∃ n', collect (cut n (s :: S)) = Command.empty :: collect (cut n' S) := by
  rw [cut_cons hS]
  split
  · exact .inl hs.take.collect
  · refine .inr ⟨n - s.length - 1, ?_⟩
    rw [collect_cons (cut_ne_nil hS), hs.commandOf]

theorem replicate_append_cons {α : Type} (k : Nat) (a : α) (l : List α) :
    List.replicate k a ++ a :: l = List.replicate (k + 1) a ++ l := by
  rw [List.replicate_succ', List.append_assoc, List.singleton_append]

/-- What the parser makes of empty commands only is meant by segments with an empty word at most. -/
theorem vain_of_replicate {k : Nat} (h : (List.replicate k Command.empty).take c = meant S) :
    ∀ s ∈ S, Vain s := by
  apply vain_iff.mpr
  rw [← h]
  intro cmd hcmd
  exact List.eq_of_mem_replicate (List.mem_of_mem_take hcmd)

/-- Behind an empty segment the parser is one command ahead of what is meant, so all segments there
hold at most an empty word. -/
theorem vain_of_ahead {k : Nat}
    (h : (List.replicate (k + 1) Command.empty ++ collect (cut n S)).take c = meant S) :
    ∀ s ∈ S, Vain s := by
  induction S generalizing n c k with
  | nil => exact fun s hs ↦ absurd hs List.not_mem_nil
  | cons s S ih =>
    cases s with
    | nil =>
      refine List.forall_mem_cons.mpr ⟨.inl rfl, ?_⟩
      by_cases hS : S = []
      · exact fun s hs ↦ absurd (hS ▸ hs) List.not_mem_nil
      have hmeant : meant ([] :: S) = meant S := rfl
      rw [hmeant] at h
      rcases collect_cut_cons_vain (n := n) (.inl rfl) hS with hnil | ⟨n', hcons⟩
      · rw [hnil, List.append_nil] at h
        exact vain_of_replicate h
      · rw [hcons, replicate_append_cons] at h
        exact ih h
    | cons name args =>
      have hmeant : meant ((name :: args) :: S) = ⟨name, args⟩ :: meant S := rfl
      rw [hmeant, List.replicate_succ, List.cons_append] at h
      cases c with
      | zero => cases h
      | succ c =>
        rw [List.take_succ_cons, List.cons.injEq] at h
        obtain ⟨hempty, hrest⟩ := h
        obtain ⟨rfl, rfl⟩ := Command.mk.inj hempty
        refine List.forall_mem_cons.mpr ⟨.inr rfl, ?_⟩
        by_cases hS : S = []
        · exact fun s hs ↦ absurd (hS ▸ hs) List.not_mem_nil
        rcases collect_cut_cons_vain (n := n) (.inr rfl) hS with hnil | ⟨n', hcons⟩
        · rw [hnil, List.append_nil] at hrest
          exact vain_of_replicate hrest
        · rw [hcons, replicate_append_cons] at hrest
          exact ih hrest

/-- A last segment that is executed as it is meant is good, and none of its words is cut off. -/
theorem good_of_collect_take {name : Text} {args : List Text} {cmds : List Command}
    (h : (collect [(name :: args).take n]).take c = ⟨name, args⟩ :: cmds) :
    Good (name :: args) ∧ args.length + 1 ≤ n ∧ cmds = [] := by
  rw [collect] at h
  split at h
  · rw [List.take_nil] at h
    cases h
  · rename_i hname
    cases c with
    | zero => cases h
    | succ c =>
      rw [List.take_succ_cons, List.take_nil, List.cons.injEq] at h
      obtain ⟨hcommand, rfl⟩ := h
      rw [hcommand] at hname
      cases n with
      | zero =>
        rw [List.take_zero] at hcommand
        exact absurd (Command.mk.inj hcommand).1.symm hname
      | succ n =>
        rw [List.take_succ_cons, commandOf_cons hname] at hcommand
        have hargs := congrArg List.length (Command.mk.inj hcommand).2
        rw [List.length_take, List.length_take] at hargs
        exact ⟨⟨name, args, rfl, by omega, .inl hname⟩, by omega, rfl⟩

/-- The segments of a line that is executed as it is meant. -/
theorem good_of_executed (hS : S ≠ []) (h : (collect (cut n S)).take c = meant S) :
    ∃ good rest, S = good ++ rest ∧ (∀ s ∈ good, Good s) ∧ (∀ s ∈ rest, Vain s) ∧
      (good.map (·.length + 1)).sum ≤ n + 1 := by
  induction S generalizing n c with
  | nil => exact absurd rfl hS
  | cons s S ih =>
    cases s with
    | nil =>
      have hvain : ∀ s ∈ S, Vain s := by
        by_cases hnil : S = []
        · exact fun s hs ↦ absurd (hnil ▸ hs) List.not_mem_nil
        have hmeant : meant ([] :: S) = meant S := rfl
        rw [hmeant] at h
        rcases collect_cut_cons_vain (n := n) (.inl rfl) hnil with hempty | ⟨n', hcons⟩
        · rw [hempty] at h
          exact vain_of_replicate (k := 0) h
        · rw [hcons] at h
          exact vain_of_ahead (k := 0) h
      exact ⟨[], [] :: S, rfl, fun s hs ↦ absurd hs List.not_mem_nil,
        List.forall_mem_cons.mpr ⟨.inl rfl, hvain⟩, Nat.zero_le _⟩
    | cons name args =>
      have hmeant : meant ((name :: args) :: S) = ⟨name, args⟩ :: meant S := rfl
      rw [hmeant] at h
      have hcut : (collect [(name :: args).take n]).take c = ⟨name, args⟩ :: meant S →
          ∃ good rest, (name :: args) :: S = good ++ rest ∧ (∀ s ∈ good, Good s) ∧
            (∀ s ∈ rest, Vain s) ∧ (good.map (·.length + 1)).sum ≤ n + 1 := by
        intro hlast
        obtain ⟨hgood, hn, hnil⟩ := good_of_collect_take hlast
        refine ⟨[name :: args], S, rfl, List.forall_mem_singleton.mpr hgood, ?_, ?_⟩
        · apply vain_iff.mpr
          rw [hnil]
          exact fun cmd hcmd ↦ absurd hcmd List.not_mem_nil
        · simp only [List.map_cons, List.map_nil, List.sum_cons, List.sum_nil, List.length_cons]
          omega
      by_cases hnil : S = []
      · subst hnil
        exact hcut h
      rw [cut_cons hnil] at h
      split at h
      · exact hcut h
      · rw [collect_cons (cut_ne_nil hnil)] at h
        cases c with
        | zero => cases h
        | succ c =>
          rw [List.take_succ_cons, List.cons.injEq] at h
          obtain ⟨hcommand, hrest⟩ := h
          obtain ⟨good, rest, rfl, hgood, hvain, hsum⟩ := ih hnil hrest
          refine ⟨(name :: args) :: good, rest, rfl, List.forall_mem_cons.mpr ⟨?_, hgood⟩, hvain,
            ?_⟩
          · exact ⟨name, args, rfl, commandOf_eq_iff.mp hcommand⟩
          · rw [List.map_cons, List.sum_cons]
            omega

/-- Lists that start alike and go on with one item are equal if they are equally long. -/
theorem eq_of_prefix_replicate {α : Type} {front l : List α} {a : α} {k m : Nat}
    (h : l <+: front ++ List.replicate k a)
    (hlen : l.length = (front ++ List.replicate m a).length) :
    l = front ++ List.replicate m a := by
  have hshort : l.length ≤ front.length + k := by
    have hle := h.length_le
    rwa [List.length_append, List.length_replicate] at hle
  rw [List.length_append, List.length_replicate] at hlen
  rw [List.prefix_iff_eq_take.mp h, hlen, List.take_append, List.take_of_length_le (by omega),
    List.take_replicate]
  congr 2
  omega

/-- The parser makes of segments what they mean exactly when they fit. -/
theorem executed_iff (hS : S ≠ []) : (collect (cut n S)).take c = meant S ↔ Fits n c S := by
  have hlen : ((collect (cut n S)).take c).length = (meant S).length ↔
      (S.filter (· ≠ [])).length = min c (ended (cut n S)) := by
    rw [List.length_take, length_collect, length_meant]
    exact eq_comm
  constructor
  · intro h
    exact ⟨hlen.mp (congrArg List.length h), good_of_executed hS h⟩
  · rintro ⟨hcount, good, rest, rfl, hgood, hrest, hn⟩
    obtain ⟨k, hk⟩ := collect_cut_good hgood hrest hn
    have hmeant : meant (good ++ rest) =
        meant good ++ List.replicate (meant rest).length Command.empty := by
      rw [← List.eq_replicate_of_mem (vain_iff.mp hrest)]
      exact List.filterMap_append
    have hlen' := hlen.mpr hcount
    rw [hmeant] at hlen' ⊢
    exact eq_of_prefix_replicate ((List.take_prefix _ _).trans hk) hlen'

/-- What is short enough is not cut. -/
theorem cut_of_sum_le (h : (S.map (·.length + 1)).sum ≤ n + 1) : cut n S = S := by
  induction S generalizing n with
  | nil => rfl
  | cons s S ih =>
    rw [List.map_cons, List.sum_cons] at h
    by_cases hS : S = []
    · rw [hS, cut_singleton, List.take_of_length_le (by omega)]
    · have hmore : 0 < (S.map (·.length + 1)).sum := by
        cases S with
        | nil => exact absurd rfl hS
        | cons s' S =>
          rw [List.map_cons, List.sum_cons]
          omega
      rw [cut_cons hS, if_neg (by omega), ih (by omega)]

/-- Where every segment holds a word that is not empty, each ends a command. -/
theorem ended_eq_length (h : ∀ s ∈ S, ¬ ∀ w ∈ s, w = []) : ended S = S.length := by
  induction S with
  | nil => rfl
  | cons s S ih =>
    obtain ⟨hs, hS⟩ := List.forall_mem_cons.mp h
    by_cases hnil : S = []
    · rw [hnil, ended, if_neg hs]
      rfl
    · rw [ended_cons hnil, ih hS, List.length_cons]

/-- The usual way to fit: no token, command or argument too many, and no segment without a name. -/
theorem fits_of_named (hc : S.length ≤ c) (hn : (S.map (·.length + 1)).sum ≤ n + 1)
    (hS : ∀ s ∈ S, ∃ name args, s = name :: args ∧ name ≠ [] ∧ args.length ≤ 16) : Fits n c S := by
  constructor
  · have hfilter : S.filter (· ≠ []) = S := by
      apply List.filter_eq_self.mpr
      intro s hs
      obtain ⟨name, args, rfl, -, -⟩ := hS s hs
      rfl
    rw [hfilter, cut_of_sum_le hn, ended_eq_length, Nat.min_eq_right hc]
    intro s hs hall
    obtain ⟨name, args, rfl, hname, -⟩ := hS s hs
    exact hname (hall name List.mem_cons_self)
  · refine ⟨S, [], (List.append_nil S).symm, ?_, fun s hs ↦ absurd hs List.not_mem_nil, hn⟩
    intro s hs
    obtain ⟨name, args, rfl, hname, hargs⟩ := hS s hs
    exact ⟨name, args, rfl, hargs, .inl hname⟩

/-! ### The text of commands -/

/-- How often a character occurs in commands. -/
def occurrences (a : Char) (cmds : List Command) : Nat :=
  (cmds.map fun cmd ↦ cmd.name.count a + cmd.args.flatten.count a).sum

theorem occurrences_collect (a : Char) : occurrences a (collect S) ≤ S.flatten.flatten.count a := by
  induction S with
  | nil => exact Nat.le_refl _
  | cons s S ih =>
    have hs := count_commandOf s a
    rw [List.flatten_cons, List.flatten_append, List.count_append]
    by_cases hS : S = []
    · rw [hS, collect]
      split
      · exact Nat.zero_le _
      · simp only [occurrences, List.map_cons, List.map_nil, List.sum_cons, List.sum_nil]
        omega
    · rw [collect_cons hS]
      unfold occurrences at ih ⊢
      rw [List.map_cons, List.sum_cons]
      omega

theorem occurrences_take (a : Char) (cmds : List Command) :
    occurrences a (cmds.take c) ≤ occurrences a cmds := by
  have hsplit := congrArg (occurrences a) (List.take_append_drop c cmds)
  unfold occurrences at hsplit ⊢
  rw [List.map_append, List.sum_append] at hsplit
  omega

theorem occurrences_meant (a : Char) : occurrences a (meant S) = S.flatten.flatten.count a := by
  induction S with
  | nil => rfl
  | cons s S ih =>
    rw [List.flatten_cons, List.flatten_append, List.count_append, ← ih]
    cases s with
    | nil =>
      rw [List.flatten_nil, List.count_nil, Nat.zero_add]
      rfl
    | cons name args => simp [meant, meantBy, occurrences, List.count_append]

/-- The words of the segments are those of the tokens. -/
theorem flatten_segments (ts : List Token) :
    (segments ts).flatten.flatten = ts.flatMap Token.text := by
  induction ts with
  | nil => rfl
  | cons t ts ih =>
    rw [List.flatMap_cons, ← ih]
    cases t with
    | pipe => rfl
    | word w =>
      rw [segments]
      cases hS : segments ts with
      | nil => exact absurd hS (segments_ne_nil ts)
      | cons s S => rfl

/-! ### Lines -/

theorem commandsOf_eq {line : Line} {ts : List Token}
    (h : Reads (replace firstPrompt ['\n'] line.text) ts) :
    commandsOf line = (collect (cut 64 (segments ts))).take 8 := by
  rw [commandsOf, tokenize_of_reads h, parsePipeline_eq, segments_take]

/-- A line in which the prompt occurs loses a slash. -/
theorem not_executed_of_prompt {line : Line} {ts : List Token} (h : Reads line.text ts)
    (hprompt : firstPrompt <:+: line.text) : commandsOf line ≠ meant (segments ts) := by
  intro heq
  obtain ⟨ts', h'⟩ := exists_reads (replace firstPrompt ['\n'] line.text)
  have hfewer : (replace firstPrompt ['\n'] line.text).count '/' < line.text.count '/' :=
    (count_replace (by decide) line.text).2 hprompt
  have hcut : ((ts'.take 64).flatMap Token.text).count '/' ≤
      (ts'.flatMap Token.text).count '/' := by
    have hsplit := congrArg (fun ts ↦ (ts.flatMap Token.text).count '/')
      (List.take_append_drop 64 ts')
    simp only [List.flatMap_append, List.count_append] at hsplit
    omega
  have hexecuted := calc
    occurrences '/' (commandsOf line)
      ≤ occurrences '/' (collect (cut 64 (segments ts'))) := by
        rw [commandsOf_eq h']
        exact occurrences_take '/' _
    _ ≤ (cut 64 (segments ts')).flatten.flatten.count '/' := occurrences_collect '/'
    _ = ((ts'.take 64).flatMap Token.text).count '/' := by rw [← segments_take, flatten_segments]
    _ ≤ (ts'.flatMap Token.text).count '/' := hcut
    _ = (replace firstPrompt ['\n'] line.text).count '/' := h'.count_text rfl (by decide)
  have hmeant : occurrences '/' (meant (segments ts)) = line.text.count '/' := by
    rw [occurrences_meant, flatten_segments, h.count_text rfl (by decide)]
  rw [heq, hmeant] at hexecuted
  omega

/-- Whatever line the shell holds, it has exactly one reading, and the enter key executes, whatever
commands there are, one command for each of its segments that is not empty, with the first word as
its name and the others as its arguments, exactly when the prompt does not occur in the line and
its segments fit. -/
theorem executed_as_typed_iff (s : ShellTask) : ∃ ts, (∀ ts', Reads s.line.text ts' ↔ ts' = ts) ∧
    ((∀ known, (s.press known (.unicode '\n')).1 = executePipeline known (meant (segments ts))) ↔
      ¬ firstPrompt <:+: s.line.text ∧ Fits 64 8 (segments ts)) := by
  obtain ⟨ts, hts⟩ := exists_reads s.line.text
  refine ⟨ts, fun ts' ↦ ⟨hts.unique, fun heq ↦ heq ▸ hts⟩, ?_⟩
  have hcommands : (∀ known, (s.press known (.unicode '\n')).1 =
      executePipeline known (meant (segments ts))) ↔ commandsOf s.line = meant (segments ts) := by
    simp only [ShellTask.press_enter]
    exact executePipeline_eq_iff
  rw [hcommands]
  by_cases hprompt : firstPrompt <:+: s.line.text
  · exact iff_of_false (not_executed_of_prompt hts hprompt) fun h ↦ h.1 hprompt
  · have hsame : replace firstPrompt ['\n'] s.line.text = s.line.text :=
      replace_of_not_infix hprompt
    rw [commandsOf_eq (hsame.symm ▸ hts), executed_iff (segments_ne_nil ts)]
    exact (and_iff_right hprompt).symm

/-- A line with an empty segment between its two pipes. -/
def twoPipes : ShellTask := ⟨⟨['a', '|', '|', 'b'], by decide, by decide⟩, .new⟩

/-- Between the pipes the shell executes a command without a name. -/
theorem not_executed_as_typed : ¬ ∀ (s : ShellTask) ts, Reads s.line.text ts → ∀ known,
    (s.press known (.unicode '\n')).1 = executePipeline known (meant (segments ts)) := by
  intro hall
  have hreads : Reads twoPipes.line.text [.word ['a'], .pipe, .pipe, .word ['b']] := by
    apply Reads.bare (w := []) rfl (by decide) (fun d hd ↦ absurd hd List.not_mem_nil)
    · intro d hd
      cases hd
      rfl
    apply Reads.pipe
    apply Reads.pipe
    apply Reads.bare (w := []) rfl (by decide) (fun d hd ↦ absurd hd List.not_mem_nil) _ .nil
    intro d hd
    cases hd
  have hrun := hall twoPipes _ hreads fun _ ↦ true
  exact absurd hrun (by decide)

end SmallOs.Shell
