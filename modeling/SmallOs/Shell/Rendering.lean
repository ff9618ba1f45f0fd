import SmallOs.Shell.Tokenizer

/-!
# Lines that are written for the tokenizer

A list of tokens is written with spaces between them, a word in quotes or, where it needs none,
bare. The tokenizer reads the tokens back, and comes to the end of whatever line it is given.
-/

namespace SmallOs.Shell

open SmallOs.Base
open Vfs (Text)

/-- The ways to write a token. -/
inductive Written : Token → Text → Prop
  | pipe : Written .pipe ['|']
  | quoted {w : Text} (hw : '"' ∉ w) : Written (.word w) ('"' :: (w ++ ['"']))
  | bare {w : Text} (hne : w ≠ []) (hw : ∀ c ∈ w, isBare c = true) (hquote : w.head? ≠ some '"') :
      Written (.word w) w

/-- The ways to write a list of tokens: behind each of them is a space or the end, and spaces may
stand anywhere else between them. -/
inductive Rendered : List Token → Text → Prop
  | nil : Rendered [] []
  | space {ts : List Token} {s : Text} (rest : Rendered ts s) : Rendered ts (' ' :: s)
  | token {t : Token} {w s : Text} {ts : List Token} (ht : Written t w) (rest : Rendered ts s)
      (hs : ∀ c, s.head? = some c → c = ' ') : Rendered (t :: ts) (w ++ s)

variable {s : Text} {ts : List Token} {tokens : List Token} {capacity : Nat}

/-- What is written reads as the tokens. -/
theorem Rendered.reads (h : Rendered ts s) : Reads s ts := by
  induction h with
  | nil => exact .nil
  | space rest ih => exact .space ih
  | @token t w s ts ht rest hs ih =>
    cases ht with
    | pipe => exact .pipe ih
    | @quoted w hw =>
      have htext : '"' :: (w ++ ['"']) ++ s = '"' :: (w ++ '"' :: s) := by simp
      rw [htext]
      exact .quoted hw ih
    | bare hne hw hquote =>
      cases w with
      | nil => exact absurd rfl hne
      | cons c w =>
        rw [List.forall_mem_cons] at hw
        apply Reads.bare hw.1 (fun hc ↦ hquote (congrArg some hc)) hw.2 _ ih
        intro d hd
        rw [hs d hd]
        rfl

/-! ### The rounds of the loop -/

/-- The body of the loop, on what is left of the line and the tokens;
`kernel/src/task/shell/tokenizer/mod.rs:15–47`. -/
def tokenizeRound (capacity : Nat) : Text × List Token → Text × List Token
  | ([], tokens) => ([], tokens)
  | (c :: chars, tokens) =>
    if c = ' ' then (chars, tokens)
    else if c = '|' then (chars, pushWithin capacity tokens .pipe)
    else if c = '"' then
      ((chars.dropWhile (· ≠ '"')).drop 1,
        pushWithin capacity tokens (.word (chars.takeWhile (· ≠ '"'))))
    else
      ((c :: chars).dropWhile isBare,
        pushWithin capacity tokens (.word ((c :: chars).takeWhile isBare)))

/-- A round takes at least one character. -/
theorem length_tokenizeRound_lt (capacity : Nat) (c : Char) (chars : Text) (tokens : List Token) :
    (tokenizeRound capacity (c :: chars, tokens)).1.length < (c :: chars).length := by
  rw [tokenizeRound, List.length_cons]
  split
  · exact Nat.lt_succ_self _
  · split
    · exact Nat.lt_succ_self _
    · split
      · have hshort := (List.dropWhile_sublist (fun d ↦ decide (d ≠ '"')) (l := chars)).length_le
        rw [List.length_drop]
        omega
      · next hspace hpipe hquote =>
        have hbare : isBare c = true := isBare_iff.mpr ⟨hspace, hpipe⟩
        have hshort := (List.dropWhile_sublist isBare (l := chars)).length_le
        rw [List.dropWhile_cons_of_pos hbare]
        exact Nat.lt_succ_of_le hshort

theorem tokenizeLoop_round (rounds : Nat) (c : Char) (chars : Text) :
    tokenizeLoop capacity (rounds + 1) (c :: chars) tokens =
      tokenizeLoop capacity rounds (tokenizeRound capacity (c :: chars, tokens)).1
        (tokenizeRound capacity (c :: chars, tokens)).2 := by
  rw [tokenizeLoop, tokenizeRound]
  split
  · rfl
  · split
    · rfl
    · split <;> rfl

/-- After as many rounds as there are characters, or fewer, nothing of the line is left. -/
theorem exists_rounds {rounds : Nat} (tokens : List Token) (h : s.length ≤ rounds) :
    ∃ k ≤ s.length, (tokenizeRound capacity)^[k] (s, tokens) =
      ([], tokenizeLoop capacity rounds s tokens) := by
  induction rounds generalizing s tokens with
  | zero =>
    obtain rfl := List.eq_nil_of_length_eq_zero (Nat.le_zero.mp h)
    exact ⟨0, Nat.zero_le _, rfl⟩
  | succ rounds ih =>
    cases s with
    | nil => exact ⟨0, Nat.zero_le _, rfl⟩
    | cons c chars =>
      have hlt := length_tokenizeRound_lt capacity c chars tokens
      obtain ⟨k, hk, hend⟩ := ih (s := (tokenizeRound capacity (c :: chars, tokens)).1)
        (tokenizeRound capacity (c :: chars, tokens)).2 (by omega)
      refine ⟨k + 1, by omega, ?_⟩
      rw [Function.iterate_succ_apply, tokenizeLoop_round]
      exact hend

/-- The tokenizer inverts the writing of up to 64 tokens, and on every line its loop ends. -/
theorem tokenize_rendered :
    (∀ ts s, ts.length ≤ 64 → Rendered ts s → tokenize s = ts) ∧
      ∀ s, ∃ k ≤ s.length, (tokenizeRound 64)^[k] (s, []) = ([], tokenize s) := by
  constructor
  · intro ts s hlen h
    rw [tokenize_of_reads h.reads, List.take_of_length_le hlen]
  · intro s
    exact exists_rounds [] (Nat.le_refl _)

/-- A bare word with a quote in it, a pipe, an empty word and a quoted pipe. -/
theorem tokenize_rendered_quotes :
    tokenize ['a', '"', 'b', ' ', '|', ' ', ' ', '"', '"', ' ', '"', '|', '"'] =
      [.word ['a', '"', 'b'], .pipe, .word [], .word ['|']] := by
  apply tokenize_rendered.1 _ _ (by decide)
  apply Rendered.token (w := ['a', '"', 'b']) (.bare (by decide) (by simp [isBare]) (by decide)) _
    (by simp)
  apply Rendered.space
  apply Rendered.token (w := ['|']) .pipe _ (by simp)
  apply Rendered.space
  apply Rendered.space
  apply Rendered.token (w := ['"', '"']) (.quoted (by decide)) _ (by simp)
  apply Rendered.space
  exact Rendered.token (w := ['"', '|', '"']) (.quoted (w := ['|']) (by decide)) .nil (by simp)

end SmallOs.Shell
