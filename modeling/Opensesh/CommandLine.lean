/-
Command lines as text: split at white space, with quotes and no escapes, and words joined to a
line; which words come back.
-/
import Opensesh.Text
import Mathlib.Algebra.GroupWithZero.Nat
import Mathlib.Algebra.Order.BigOperators.Group.List
import Mathlib.Algebra.Order.Group.Nat

namespace Opensesh.CommandLine

open List

inductive SplitError where
  | unclosed (quote : Char)
  | empty
deriving DecidableEq

def isQuote (c : Char) : Bool := c = '"' || c = '\''

/-- What the loop of `split` carries. -/
structure Splitting where
  words : List (List Char)
  word : List Char
  inWord : Bool
  quote : Option Char

def start : Splitting := ⟨[], [], false, none⟩

def splitChar (state : Splitting) (c : Char) : Splitting :=
  match state.quote with
  | some quote =>
    if c = quote then { state with quote := none } else { state with word := state.word ++ [c] }
  | none =>
    if isQuote c then { state with quote := some c, inWord := true }
    else if isWhitespace c then
      if state.inWord then
        { state with words := state.words ++ [state.word], word := [], inWord := false }
      else state
    else { state with word := state.word ++ [c], inWord := true }

/-- The words of a command line. -/
def split (line : List Char) : Except SplitError (List (List Char)) :=
  let state := line.foldl splitChar start
  match state.quote with
  | some quote => .error (.unclosed quote)
  | none =>
    let words := if state.inWord then state.words ++ [state.word] else state.words
    if words = [] then .error .empty else .ok words

/-- A word that stands for itself. -/
def Plain (word : List Char) : Prop :=
  word ≠ [] ∧ ∀ c ∈ word, isWhitespace c = false ∧ isQuote c = false

instance (word : List Char) : Decidable (Plain word) :=
  @instDecidableAnd _ _ _ (List.decidableBAll _ word)

def quoteWord (word : List Char) : List Char :=
  if Plain word then word
  else if '"' ∈ word then '\'' :: word ++ ['\'']
  else '"' :: word ++ ['"']

/-- A command line of these words. -/
def join (words : List (List Char)) : List Char := Text.joinWith ' ' (words.map quoteWord)

/-- A word with both kinds of quotes. -/
def Mixed (word : List Char) : Prop := '"' ∈ word ∧ '\'' ∈ word

instance (word : List Char) : Decidable (Mixed word) := inferInstanceAs (Decidable (_ ∧ _))

theorem fold_plain {word : List Char} (h : Plain word) (words : List (List Char)) :
    word.foldl splitChar ⟨words, [], false, none⟩ = ⟨words, word, true, none⟩ := by
  have hstep : ∀ (before : List Char) (inWord : Bool) (c : Char),
      isWhitespace c = false ∧ isQuote c = false →
        splitChar ⟨words, before, inWord, none⟩ c = ⟨words, before ++ [c], true, none⟩ := by
    intro before inWord c hc
    rw [splitChar]
    dsimp only
    rw [hc.1, hc.2]
    rfl
  have hall : ∀ (rest before : List Char),
      (∀ c ∈ rest, isWhitespace c = false ∧ isQuote c = false) →
        rest.foldl splitChar ⟨words, before, true, none⟩ = ⟨words, before ++ rest, true, none⟩ := by
    intro rest
    induction rest with
    | nil => simp
    | cons c rest ih =>
      intro before hrest
      rw [forall_mem_cons] at hrest
      rw [foldl_cons, hstep before true c hrest.1, ih _ hrest.2, List.append_assoc]
      rfl
  cases word with
  | nil => exact absurd rfl h.1
  | cons c rest =>
    have hc := forall_mem_cons.mp h.2
    rw [foldl_cons, hstep [] false c hc.1, hall rest _ hc.2]
    rfl

theorem fold_quoted {quote : Char} (hquote : isQuote quote = true) {word : List Char}
    (h : quote ∉ word) (words : List (List Char)) :
    (quote :: word ++ [quote]).foldl splitChar ⟨words, [], false, none⟩ =
      ⟨words, word, true, none⟩ := by
  have hall : ∀ (rest before : List Char), quote ∉ rest →
      rest.foldl splitChar ⟨words, before, true, some quote⟩ =
        ⟨words, before ++ rest, true, some quote⟩ := by
    intro rest
    induction rest with
    | nil => simp
    | cons c rest ih =>
      intro before hrest
      rw [mem_cons, not_or] at hrest
      have hstep : splitChar ⟨words, before, true, some quote⟩ c =
          ⟨words, before ++ [c], true, some quote⟩ := if_neg fun heq => hrest.1 heq.symm
      rw [foldl_cons, hstep, ih _ hrest.2, List.append_assoc]
      rfl
  have hopen : splitChar ⟨words, [], false, none⟩ quote = ⟨words, [], true, some quote⟩ :=
    if_pos hquote
  have hclose : splitChar ⟨words, word, true, some quote⟩ quote = ⟨words, word, true, none⟩ :=
    if_pos rfl
  rw [cons_append, foldl_cons, hopen, foldl_append, hall word [] h]
  exact hclose

theorem fold_quoteWord {word : List Char} (h : ¬ Mixed word) (words : List (List Char)) :
    (quoteWord word).foldl splitChar ⟨words, [], false, none⟩ = ⟨words, word, true, none⟩ := by
  rw [quoteWord]
  split
  · rename_i hplain
    exact fold_plain hplain words
  · split
    · rename_i hdouble
      exact fold_quoted rfl (fun hsingle => h ⟨hdouble, hsingle⟩) words
    · rename_i hdouble
      exact fold_quoted rfl hdouble words

theorem fold_join {word : List Char} {rest : List (List Char)}
    (h : ∀ other ∈ word :: rest, ¬ Mixed other) (before : List (List Char)) :
    ∃ words last, before ++ word :: rest = words ++ [last] ∧
      (join (word :: rest)).foldl splitChar ⟨before, [], false, none⟩ =
        ⟨words, last, true, none⟩ := by
  induction rest generalizing word before with
  | nil => exact ⟨before, word, rfl, fold_quoteWord (h word mem_cons_self) before⟩
  | cons next rest ih =>
    rw [forall_mem_cons] at h
    obtain ⟨words, last, hwords, hfold⟩ := ih h.2 (before ++ [word])
    refine ⟨words, last, by rw [← hwords, List.append_assoc]; rfl, ?_⟩
    have hjoin : join (word :: next :: rest) = quoteWord word ++ ' ' :: join (next :: rest) := rfl
    have hspace : splitChar ⟨before, word, true, none⟩ ' ' =
        ⟨before ++ [word], [], false, none⟩ := rfl
    rw [hjoin, foldl_append, fold_quoteWord h.1, foldl_cons, hspace, hfold]

theorem split_join {words : List (List Char)} (hne : words ≠ [])
    (h : ∀ word ∈ words, ¬ Mixed word) : split (join words) = .ok words := by
  cases words with
  | nil => exact absurd rfl hne
  | cons word rest =>
    obtain ⟨words, last, hwords, hfold⟩ := fold_join h []
    rw [List.nil_append] at hwords
    rw [split, start, hfold]
    dsimp only
    rw [if_pos rfl, ← hwords, if_neg (cons_ne_nil _ _)]

def quotes (text : List Char) : Nat := text.countP isQuote

/-- The quotes around the pieces of a word, at least. -/
def need (word : List Char) : Nat := if Mixed word then 4 else if Plain word then 0 else 2

def cost (words : List (List Char)) : Nat := (words.map fun word => quotes word + need word).sum

/-- The quotes read for the word being read, and the kinds of quotes its pieces stand in. -/
structure Spent (state : Splitting) (single double : Bool) (spent : Nat) : Prop where
  enough : 2 * (single.toNat + double.toNat) ≤ spent + state.quote.isSome.toNat
  opened : ∀ quote, state.quote = some quote →
    state.inWord = true ∧ (quote = '\'' ∧ single = true ∨ quote = '"' ∧ double = true)
  hasDouble : '"' ∈ state.word → single = true
  hasSingle : '\'' ∈ state.word → double = true
  hasOther : state.inWord = true → ¬ Plain state.word → single = true ∨ double = true
  between : state.inWord = false → state.word = []

theorem isQuote_iff {c : Char} : isQuote c = true ↔ c = '"' ∨ c = '\'' := by
  rw [isQuote, Bool.or_eq_true, decide_eq_true_iff, decide_eq_true_iff]

theorem need_le {state : Splitting} {single double : Bool} {spent : Nat}
    (h : Spent state single double spent) (hquote : state.quote = none)
    (hword : state.inWord = true) : need state.word ≤ spent := by
  have henough := h.enough
  rw [hquote] at henough
  rw [need]
  split
  · rename_i hmixed
    rw [h.hasDouble hmixed.1, h.hasSingle hmixed.2] at henough
    exact henough
  · split
    · exact Nat.zero_le _
    · rename_i hplain
      rcases h.hasOther hword hplain with rfl | rfl
      · cases double <;> simp at henough <;> omega
      · cases single <;> simp at henough <;> omega

theorem cost_append (words : List (List Char)) (word : List Char) :
    cost (words ++ [word]) = cost words + (quotes word + need word) := by
  simp [cost]

/-- What has been read pays for the words so far. -/
def Paid (state : Splitting) (read : Nat) : Prop :=
  ∃ single double spent, Spent state single double spent ∧
    cost state.words + quotes state.word + spent ≤ read

theorem paid_quoted {words : List (List Char)} {word : List Char} {inWord : Bool} {quote : Char}
    {read : Nat} (h : Paid ⟨words, word, inWord, some quote⟩ read) (c : Char) :
    Paid (splitChar ⟨words, word, inWord, some quote⟩ c) (read + (isQuote c).toNat) := by
  obtain ⟨single, double, spent, hspent, hread⟩ := h
  have henough := hspent.enough
  dsimp only at hread henough
  obtain ⟨hword, hkind⟩ := hspent.opened quote rfl
  have hquote : isQuote quote = true := by
    rcases hkind with ⟨rfl, -⟩ | ⟨rfl, -⟩ <;> rfl
  have hany : single = true ∨ double = true := hkind.imp And.right And.right
  by_cases hc : c = quote
  · have hstep : splitChar ⟨words, word, inWord, some quote⟩ c =
        ⟨words, word, inWord, none⟩ := if_pos hc
    rw [hstep, hc, hquote]
    refine ⟨single, double, spent + 1, ⟨henough, ?_, hspent.hasDouble, hspent.hasSingle,
      hspent.hasOther, hspent.between⟩, Nat.add_le_add_right hread 1⟩
    intro other hother
    cases hother
  · have hstep : splitChar ⟨words, word, inWord, some quote⟩ c =
        ⟨words, word ++ [c], inWord, some quote⟩ := if_neg hc
    have hquotes : quotes (word ++ [c]) = quotes word + (isQuote c).toNat := by
      rw [quotes, countP_append, countP_singleton]
      cases isQuote c <;> rfl
    rw [hstep]
    refine ⟨single, double, spent, ⟨henough, hspent.opened, ?_, ?_, fun _ _ => hany, ?_⟩, ?_⟩
    · intro hmem
      rcases mem_append.mp hmem with hold | hlast
      · exact hspent.hasDouble hold
      · obtain rfl := mem_singleton.mp hlast
        rcases hkind with hkind | hkind
        · exact hkind.2
        · exact absurd hkind.1.symm hc
    · intro hmem
      rcases mem_append.mp hmem with hold | hlast
      · exact hspent.hasSingle hold
      · obtain rfl := mem_singleton.mp hlast
        rcases hkind with hkind | hkind
        · exact absurd hkind.1.symm hc
        · exact hkind.2
    · intro hnot
      exact absurd hword (by rw [show inWord = false from hnot]; simp)
    · dsimp only
      omega

theorem paid_outside {words : List (List Char)} {word : List Char} {inWord : Bool} {read : Nat}
    (h : Paid ⟨words, word, inWord, none⟩ read) (c : Char) :
    Paid (splitChar ⟨words, word, inWord, none⟩ c) (read + (isQuote c).toNat) := by
  obtain ⟨single, double, spent, hspent, hread⟩ := h
  have henough := hspent.enough
  dsimp only at hread henough
  by_cases hquote : isQuote c = true
  · have hstep : splitChar ⟨words, word, inWord, none⟩ c = ⟨words, word, true, some c⟩ :=
      if_pos hquote
    rw [hstep, hquote]
    rcases isQuote_iff.mp hquote with rfl | rfl
    · refine ⟨single, true, spent + 1, ⟨?_, ?_, hspent.hasDouble, fun _ => rfl,
        fun _ _ => Or.inr rfl, fun hnot => nomatch hnot⟩, Nat.add_le_add_right hread 1⟩
      · cases single <;> cases double <;> simp at henough ⊢ <;> omega
      · intro other hother
        exact ⟨rfl, Or.inr ⟨(Option.some.inj hother).symm, rfl⟩⟩
    · refine ⟨true, double, spent + 1, ⟨?_, ?_, fun _ => rfl, hspent.hasSingle,
        fun _ _ => Or.inl rfl, fun hnot => nomatch hnot⟩, Nat.add_le_add_right hread 1⟩
      · cases single <;> cases double <;> simp at henough ⊢ <;> omega
      · intro other hother
        exact ⟨rfl, Or.inl ⟨(Option.some.inj hother).symm, rfl⟩⟩
  · rw [Bool.not_eq_true] at hquote
    rw [hquote]
    by_cases hspace : isWhitespace c = true
    · cases inWord with
      | false =>
        have hstep : splitChar ⟨words, word, false, none⟩ c = ⟨words, word, false, none⟩ := by
          rw [splitChar]
          dsimp only
          rw [hquote, hspace]
          rfl
        rw [hstep]
        exact ⟨single, double, spent, hspent, hread⟩
      | true =>
        have hstep : splitChar ⟨words, word, true, none⟩ c =
            ⟨words ++ [word], [], false, none⟩ := by
          rw [splitChar]
          dsimp only
          rw [hquote, hspace]
          rfl
        have hneed : need word ≤ spent := need_le hspent rfl rfl
        rw [hstep]
        refine ⟨false, false, 0, ⟨Nat.le_refl 0, ?_, ?_, ?_, ?_, fun _ => rfl⟩, ?_⟩
        · intro other hother
          cases hother
        · intro hmem
          cases hmem
        · intro hmem
          cases hmem
        · intro hnot
          cases hnot
        · dsimp only
          rw [cost_append]
          change cost words + (quotes word + need word) + 0 + 0 ≤ read + 0
          omega
    · rw [Bool.not_eq_true] at hspace
      have hstep : splitChar ⟨words, word, inWord, none⟩ c = ⟨words, word ++ [c], true, none⟩ := by
        rw [splitChar]
        dsimp only
        rw [hquote, hspace]
        rfl
      have hquotes : quotes (word ++ [c]) = quotes word := by
        rw [quotes, countP_append, countP_singleton, hquote]
        rfl
      have hold : ∀ d, isQuote d = true → d ∈ word ++ [c] → d ∈ word := by
        intro d hd hmem
        rcases mem_append.mp hmem with hold | hlast
        · exact hold
        · obtain rfl := mem_singleton.mp hlast
          rw [hquote] at hd
          cases hd
      rw [hstep]
      refine ⟨single, double, spent, ⟨henough, ?_,
        fun hmem => hspent.hasDouble (hold _ rfl hmem),
        fun hmem => hspent.hasSingle (hold _ rfl hmem), ?_, fun hnot => nomatch hnot⟩, ?_⟩
      · intro other hother
        cases hother
      · intro _ hplain
        cases inWord with
        | true =>
          refine hspent.hasOther rfl fun hword => hplain ⟨by simp, ?_⟩
          rw [forall_mem_append, forall_mem_singleton]
          exact ⟨hword.2, hspace, hquote⟩
        | false =>
          have hempty : word = [] := hspent.between rfl
          refine absurd ⟨by simp, ?_⟩ hplain
          rw [hempty, List.nil_append, forall_mem_singleton]
          exact ⟨hspace, hquote⟩
      · dsimp only
        rw [hquotes]
        exact hread

theorem paid_step {state : Splitting} {read : Nat} (h : Paid state read) (c : Char) :
    Paid (splitChar state c) (read + (isQuote c).toNat) := by
  obtain ⟨words, word, inWord, quote⟩ := state
  cases quote with
  | some quote => exact paid_quoted h c
  | none => exact paid_outside h c

theorem paid_fold (line : List Char) {state : Splitting} {read : Nat} (h : Paid state read) :
    Paid (line.foldl splitChar state) (read + quotes line) := by
  induction line generalizing state read with
  | nil => exact h
  | cons c line ih =>
    have hquotes : quotes (c :: line) = (isQuote c).toNat + quotes line := by
      rw [quotes, countP_cons, Nat.add_comm]
      cases isQuote c <;> rfl
    rw [foldl_cons, hquotes, ← Nat.add_assoc]
    exact ih (paid_step h c)

theorem cost_split {line : List Char} {words : List (List Char)} (h : split line = .ok words) :
    words ≠ [] ∧ cost words ≤ quotes line := by
  have hstart : Paid start 0 :=
    ⟨false, false, 0, ⟨Nat.le_refl 0, by simp [start], by simp [start], by simp [start],
      by simp [start], fun _ => rfl⟩, Nat.le_refl 0⟩
  obtain ⟨single, double, spent, hspent, hread⟩ := paid_fold line hstart
  rw [Nat.zero_add] at hread
  rw [split] at h
  generalize line.foldl splitChar start = state at h hspent hread
  obtain ⟨done, word, inWord, quote⟩ := state
  cases quote with
  | some quote => cases h
  | none =>
    dsimp only at h hread
    by_cases hempty : (if inWord then done ++ [word] else done) = []
    · rw [if_pos hempty] at h
      cases h
    · rw [if_neg hempty] at h
      obtain rfl := Except.ok.inj h
      refine ⟨hempty, ?_⟩
      cases inWord with
      | false =>
        rw [if_neg (by simp)]
        omega
      | true =>
        have hneed : need word ≤ spent := need_le hspent rfl rfl
        rw [if_pos rfl, cost_append]
        omega

theorem quotes_quoteWord (word : List Char) :
    quotes (quoteWord word) = quotes word + if Plain word then 0 else 2 := by
  rw [quoteWord]
  split
  · rfl
  · split
    · simp [quotes, isQuote]
    · simp [quotes, isQuote]

theorem quotes_join (words : List (List Char)) : quotes (join words) =
    (words.map fun word => quotes word + if Plain word then 0 else 2).sum := by
  induction words with
  | nil => rfl
  | cons word rest ih =>
    cases rest with
    | nil => simp [join, Text.joinWith, quotes_quoteWord]
    | cons next rest =>
      have hjoin : join (word :: next :: rest) = quoteWord word ++ ' ' :: join (next :: rest) := rfl
      rw [hjoin, map_cons, sum_cons, ← ih, ← quotes_quoteWord, quotes,
        countP_append, countP_cons_of_neg (by decide)]
      rfl

theorem wrap_le_need (word : List Char) : (if Plain word then 0 else 2) ≤ need word := by
  rw [need]
  split <;> split <;> omega

/-- Words come back from their command line when none has both kinds of quotes, and only then. -/
theorem split_join_iff {words : List (List Char)} (hne : words ≠ []) :
    split (join words) = .ok words ↔ ∀ word ∈ words, ¬ Mixed word := by
  refine ⟨fun h word hword hmixed => ?_, split_join hne⟩
  have hcost := (cost_split h).2
  rw [quotes_join] at hcost
  have hless : (words.map fun word => quotes word + if Plain word then 0 else 2).sum <
      cost words := by
    refine sum_lt_sum _ _ (fun other _ => Nat.add_le_add_left (wrap_le_need other) _)
      ⟨word, hword, Nat.add_lt_add_left ?_ _⟩
    rw [need, if_pos hmixed]
    split
    · decide
    · decide
  omega

/-- So do words that are read from a line. -/
theorem split_join_again (words : List (List Char)) (hne : words ≠ []) :
    (split (join words) = .ok words ↔ ∀ word ∈ words, ¬ Mixed word) ∧
      ∀ line read, split line = .ok read →
        (split (join read) = .ok read ↔ ∀ word ∈ read, ¬ Mixed word) :=
  ⟨split_join_iff hne, fun _ _ h => split_join_iff (cost_split h).1⟩

namespace CommandLineWitness

def words : List (List Char) := ["C:\\Program Files\\a".toList, [], "it's".toList, "\"hi\"".toList]

theorem words_back : split (join words) = .ok words :=
  (split_join_again words (by decide)).1.mpr (by decide)

def mixed : List (List Char) := ["a\"b'c".toList]

/-- A word with both kinds of quotes is put in single quotes, and the one in it ends it: though
there is a line that gives the word. -/
theorem mixed_lost : split (join mixed) = .error (.unclosed '\'') ∧
    split "a'\"'b\"'\"c".toList = .ok mixed := by
  decide +kernel

end CommandLineWitness

end Opensesh.CommandLine
