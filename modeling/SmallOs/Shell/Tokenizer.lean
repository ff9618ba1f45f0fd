import SmallOs.Base.Lists
import SmallOs.Vfs.Path

/-!
# The tokenizer of the shell

`kernel/src/task/shell/tokenizer/mod.rs`, and the grammar of lines by itself: every text has
exactly one reading, and the tokenizer returns the first 64 tokens of it.
-/

namespace SmallOs.Shell

open SmallOs.Base
open Vfs (Text)

/-- `kernel/src/task/shell/tokenizer/mod.rs:5–8`. -/
inductive Token where
  | word (text : Text)
  | pipe
  deriving DecidableEq

/-- The characters of a word that starts without a quote. -/
def isBare (c : Char) : Bool := c ≠ ' ' && c ≠ '|'

/-- The loop; `kernel/src/task/shell/tokenizer/mod.rs:14–48`. Every round consumes a character, so
as many rounds as characters are enough. -/
def tokenizeLoop (capacity : Nat) : Nat → Text → List Token → List Token
  | 0, _, tokens => tokens
  | _ + 1, [], tokens => tokens
  | rounds + 1, c :: chars, tokens =>
    if c = ' ' then tokenizeLoop capacity rounds chars tokens
    else if c = '|' then tokenizeLoop capacity rounds chars (pushWithin capacity tokens .pipe)
    else if c = '"' then
      let start := chars.takeWhile (· ≠ '"')
      let rest := (chars.dropWhile (· ≠ '"')).drop 1
      tokenizeLoop capacity rounds rest (pushWithin capacity tokens (.word start))
    else
      let word := (c :: chars).takeWhile isBare
      let rest := (c :: chars).dropWhile isBare
      tokenizeLoop capacity rounds rest (pushWithin capacity tokens (.word word))

/-- `kernel/src/task/shell/tokenizer/mod.rs:10–51`. -/
def tokenize (input : Text) : List Token := tokenizeLoop 64 input.length input []

/-- A line reads as a list of tokens. A quote opens a quoted word only where a word starts, and
without a closing quote the word takes all the rest. -/
inductive Reads : Text → List Token → Prop
  | nil : Reads [] []
  | space {s : Text} {ts : List Token} (rest : Reads s ts) : Reads (' ' :: s) ts
  | pipe {s : Text} {ts : List Token} (rest : Reads s ts) : Reads ('|' :: s) (.pipe :: ts)
  | quoted {w s : Text} {ts : List Token} (hw : '"' ∉ w) (rest : Reads s ts) :
      Reads ('"' :: (w ++ '"' :: s)) (.word w :: ts)
  | unclosed {w : Text} (hw : '"' ∉ w) : Reads ('"' :: w) [.word w]
  | bare {c : Char} {w s : Text} {ts : List Token} (hc : isBare c = true) (hquote : c ≠ '"')
      (hw : ∀ d ∈ w, isBare d = true) (hs : ∀ d, s.head? = some d → isBare d = false)
      (rest : Reads s ts) : Reads (c :: (w ++ s)) (.word (c :: w) :: ts)

variable {s : Text} {ts : List Token}

theorem isBare_iff {c : Char} : isBare c = true ↔ c ≠ ' ' ∧ c ≠ '|' := by
  simp [isBare]

/-- A quoted word ends at the next quote, or takes all. -/
theorem quoted_parts (w rest : Text) (hw : '"' ∉ w) (hrest : ∀ c, rest.head? = some c → c = '"') :
    (w ++ rest).takeWhile (· ≠ '"') = w ∧ (w ++ rest).dropWhile (· ≠ '"') = rest := by
  apply takeWhile_dropWhile_append
  · intro d hd
    have hne : d ≠ '"' := by
      rintro rfl
      exact hw hd
    exact decide_eq_true hne
  · intro d hd
    rw [hrest d hd]
    rfl

theorem tokenizeLoop_nil {capacity rounds : Nat} {tokens : List Token} :
    tokenizeLoop capacity rounds [] tokens = tokens := by
  cases rounds <;> rfl

/-- The loop follows the grammar, and keeps as many tokens as it has room for. -/
theorem tokenizeLoop_of_reads {capacity : Nat} (h : Reads s ts) {rounds : Nat}
    (hrounds : s.length ≤ rounds) (past : List Token) :
    tokenizeLoop capacity rounds s (past.take capacity) = (past ++ ts).take capacity := by
  induction h generalizing rounds past with
  | nil =>
    rw [List.append_nil]
    exact tokenizeLoop_nil
  | space rest ih =>
    obtain ⟨rounds, rfl⟩ := Nat.exists_eq_add_of_le' hrounds
    rw [List.length_cons, ← Nat.add_assoc] at *
    rw [tokenizeLoop, if_pos rfl]
    exact ih (by omega) past
  | pipe rest ih =>
    obtain ⟨rounds, rfl⟩ := Nat.exists_eq_add_of_le' hrounds
    rw [List.length_cons, ← Nat.add_assoc] at *
    rw [tokenizeLoop, if_neg (by decide), if_pos rfl, pushWithin_take, ih (by omega),
      List.append_assoc, List.singleton_append]
  | @quoted w s ts hw rest ih =>
    obtain ⟨rounds, rfl⟩ := Nat.exists_eq_add_of_le' hrounds
    obtain ⟨htake, hdrop⟩ := quoted_parts w ('"' :: s) hw (by simp)
    rw [List.length_cons, ← Nat.add_assoc] at *
    rw [tokenizeLoop, if_neg (by decide), if_neg (by decide), if_pos rfl]
    simp only [htake, hdrop, List.drop_one, List.tail_cons]
    rw [pushWithin_take, ih, List.append_assoc, List.singleton_append]
    rw [List.length_append, List.length_cons]
    omega
  | @unclosed w hw =>
    obtain ⟨rounds, rfl⟩ := Nat.exists_eq_add_of_le' hrounds
    have hparts := quoted_parts w [] hw (by simp)
    rw [List.append_nil] at hparts
    rw [List.length_cons, ← Nat.add_assoc]
    rw [tokenizeLoop, if_neg (by decide), if_neg (by decide), if_pos rfl]
    simp only [hparts.1, hparts.2, List.drop_nil]
    rw [pushWithin_take, tokenizeLoop_nil]
  | @bare c w s ts hc hquote hw hs rest ih =>
    obtain ⟨rounds, rfl⟩ := Nat.exists_eq_add_of_le' hrounds
    obtain ⟨hspace, hpipe⟩ := isBare_iff.mp hc
    have hword : ∀ d ∈ c :: w, isBare d = true := List.forall_mem_cons.mpr ⟨hc, hw⟩
    obtain ⟨htake, hdrop⟩ := takeWhile_dropWhile_append hword hs
    rw [List.length_cons, ← Nat.add_assoc] at *
    rw [tokenizeLoop, if_neg hspace, if_neg hpipe, if_neg hquote]
    rw [List.cons_append] at htake hdrop
    simp only [htake, hdrop]
    rw [pushWithin_take, ih, List.append_assoc, List.singleton_append]
    rw [List.length_append]
    omega

/-- The tokenizer returns the first 64 tokens of a reading. -/
theorem tokenize_of_reads (h : Reads s ts) : tokenize s = ts.take 64 :=
  tokenizeLoop_of_reads h (Nat.le_refl _) []

/-- A text has at most one reading. -/
theorem Reads.unique {ts' : List Token} (h : Reads s ts) (h' : Reads s ts') : ts' = ts := by
  have hcut : ts.take (max ts.length ts'.length) = ts'.take (max ts.length ts'.length) :=
    (tokenizeLoop_of_reads h (Nat.le_refl _) []).symm.trans
      (tokenizeLoop_of_reads h' (Nat.le_refl _) [])
  rw [List.take_of_length_le (Nat.le_max_left _ _), List.take_of_length_le (Nat.le_max_right _ _)]
    at hcut
  exact hcut.symm

/-- Every text has a reading. -/
theorem exists_reads (s : Text) : ∃ ts, Reads s ts := by
  induction hlen : s.length using Nat.strongRecOn generalizing s with
  | ind n ih =>
  cases s with
  | nil => exact ⟨[], .nil⟩
  | cons c s =>
    rw [List.length_cons] at hlen
    by_cases hspace : c = ' '
    · obtain ⟨ts, hts⟩ := ih s.length (by omega) s rfl
      exact ⟨ts, hspace ▸ .space hts⟩
    by_cases hpipe : c = '|'
    · obtain ⟨ts, hts⟩ := ih s.length (by omega) s rfl
      exact ⟨.pipe :: ts, hpipe ▸ .pipe hts⟩
    by_cases hquote : c = '"'
    · rw [hquote]
      by_cases hmem : '"' ∈ s
      · obtain ⟨w, rest, rfl, hw⟩ := List.eq_append_cons_of_mem hmem
        rw [List.length_append, List.length_cons] at hlen
        obtain ⟨ts, hts⟩ := ih rest.length (by omega) rest rfl
        exact ⟨.word w :: ts, .quoted hw hts⟩
      · exact ⟨[.word s], .unclosed hmem⟩
    · have hshort := (List.dropWhile_sublist isBare (l := s)).length_le
      obtain ⟨ts, hts⟩ := ih (s.dropWhile isBare).length (by omega) _ rfl
      have hall : ∀ d ∈ s.takeWhile isBare, isBare d = true :=
        List.all_eq_true.mp List.all_takeWhile
      have hstop : ∀ d, (s.dropWhile isBare).head? = some d → isBare d = false := by
        intro d hd
        have hnot := List.head?_dropWhile_not isBare s
        rw [hd] at hnot
        exact hnot
      have hword := Reads.bare (isBare_iff.mpr ⟨hspace, hpipe⟩) hquote hall hstop hts
      rw [List.takeWhile_append_dropWhile] at hword
      exact ⟨_, hword⟩

/-- The text of the words of a list of tokens. -/
def Token.text : Token → Text
  | .word w => w
  | .pipe => []

/-- A reading loses nothing but spaces, pipes and quotes. -/
theorem Reads.count_text (h : Reads s ts) {a : Char} (hbare : isBare a = true) (hquote : a ≠ '"') :
    (ts.flatMap Token.text).count a = s.count a := by
  obtain ⟨hspace, hpipe⟩ := isBare_iff.mp hbare
  induction h with
  | nil => rfl
  | space rest ih => rw [ih, List.count_cons_of_ne hspace.symm]
  | pipe rest ih =>
    rw [List.flatMap_cons, Token.text, List.nil_append, ih, List.count_cons_of_ne hpipe.symm]
  | quoted hw rest ih =>
    rw [List.flatMap_cons, Token.text, List.count_append, ih, List.count_cons_of_ne hquote.symm,
      List.count_append, List.count_cons_of_ne hquote.symm]
  | unclosed hw =>
    rw [List.flatMap_singleton, Token.text, List.count_cons_of_ne hquote.symm]
  | bare hc hne hw hs rest ih =>
    rw [List.flatMap_cons, Token.text, List.count_append, ih, ← List.cons_append,
      List.count_append]

end SmallOs.Shell
