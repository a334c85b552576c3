/-
Operations on text as lists of characters: white space, lines, words and pieces,
with what they give for texts put together from parts.
-/
import Mathlib.Data.List.Basic
import Mathlib.Tactic.Basic

namespace Opensesh

open List Option

def isWhitespace (c : Char) : Bool :=
  let n := c.toNat
  (9 ≤ n && n ≤ 13) || n == 0x20 || n == 0x85 || n == 0xA0 || n == 0x1680 ||
    (0x2000 ≤ n && n ≤ 0x200A) || n == 0x2028 || n == 0x2029 || n == 0x202F ||
    n == 0x205F || n == 0x3000

def isControl (c : Char) : Bool := c.toNat ≤ 0x1F || (0x7F ≤ c.toNat && c.toNat ≤ 0x9F)

/-- Texts are compared character by character. -/
instance lawfulBEq_text : LawfulBEq (List Char) := inferInstance

namespace Text

/-- Text without white space at both ends. -/
def trim (text : List Char) : List Char :=
  ((text.dropWhile isWhitespace).reverse.dropWhile isWhitespace).reverse

/-- The runs of characters that are not white space. -/
def wordsFrom : List Char → List Char → List (List Char)
  | word, [] => if word = [] then [] else [word]
  | word, c :: rest =>
    if isWhitespace c then
      if word = [] then wordsFrom [] rest else word :: wordsFrom [] rest
    else wordsFrom (word ++ [c]) rest

def splitWhitespace (text : List Char) : List (List Char) := wordsFrom [] text

/-- A line without the carriage return that ends it. -/
def stripReturn (line : List Char) : List Char :=
  if line.getLast? = some '\r' then line.dropLast else line

def linesFrom : List Char → List Char → List (List Char)
  | line, [] => if line = [] then [] else [line]
  | line, c :: rest =>
    if c = '\n' then stripReturn line :: linesFrom [] rest
    else linesFrom (line ++ [c]) rest

/-- The lines of a text, without their ends. -/
def lines (text : List Char) : List (List Char) := linesFrom [] text

/-- The pieces between a character. -/
def splitOn (c : Char) : List Char → List (List Char)
  | [] => [[]]
  | d :: rest =>
    if d = c then [] :: splitOn c rest
    else match splitOn c rest with
      | [] => [[d]]
      | piece :: pieces => (d :: piece) :: pieces

/-- What comes before and after the first of a character. -/
def splitOnce (c : Char) : List Char → Option (List Char × List Char)
  | [] => none
  | d :: rest =>
    if d = c then some ([], rest)
    else (splitOnce c rest).map fun (before, after) => (d :: before, after)

def stripPrefix (start text : List Char) : Option (List Char) :=
  if start.isPrefixOf text then some (text.drop start.length) else none

/-- What comes before and after the first of a text. -/
def splitOnceText (sep : List Char) : List Char → Option (List Char × List Char)
  | [] => none
  | c :: rest =>
    match stripPrefix sep (c :: rest) with
    | some after => some ([], after)
    | none => (splitOnceText sep rest).map fun (before, after) => (c :: before, after)

/-- Pieces with a character between them. -/
def joinWith (c : Char) : List (List Char) → List Char
  | [] => []
  | [piece] => piece
  | piece :: pieces => piece ++ c :: joinWith c pieces

def toAsciiLower (c : Char) : Char :=
  if 'A' ≤ c ∧ c ≤ 'Z' then Char.ofNat (c.toNat + 32) else c

/-- The bytes of a text in UTF-8. -/
def bytes (text : List Char) : List UInt8 := text.flatMap String.utf8EncodeChar

theorem toNat_ofNat {n : Nat} (h : n < 128) : (Char.ofNat n).toNat = n := by
  rw [Char.ofNat, dif_pos (Or.inl (by omega))]
  rfl

theorem isWhitespace_return : isWhitespace '\r' = true := by decide

variable {c : Char} {text before word : List Char} {b : UInt8}

/-- White space at the end does not matter once trimmed. -/
theorem trim_append_whitespace (text : List Char) (h : isWhitespace c = true) :
    trim (text ++ [c]) = trim text := by
  have hend : [c].dropWhile isWhitespace = [] := by simp [h]
  rw [trim, trim, dropWhile_append]
  split
  · rename_i hempty
    rw [List.isEmpty_iff.mp hempty, hend]
  · rw [reverse_append, reverse_singleton, singleton_append, dropWhile_cons_of_pos h]

theorem trim_stripReturn (line : List Char) : trim (stripReturn line) = trim line := by
  rw [stripReturn]
  split
  · rename_i hlast
    have heq := dropLast_append_getLast? '\r' hlast
    conv_rhs => rw [← heq]
    rw [trim_append_whitespace _ isWhitespace_return]
  · rfl

theorem dropWhile_eq_self (h : ∀ c ∈ text.head?, isWhitespace c = false) :
    text.dropWhile isWhitespace = text := by
  cases text with
  | nil => rfl
  | cons c rest => rw [dropWhile_cons_of_neg (by simp [h c rfl])]

theorem trim_eq_self (hhead : ∀ c ∈ text.head?, isWhitespace c = false)
    (hlast : ∀ c ∈ text.getLast?, isWhitespace c = false) : trim text = text := by
  rw [trim, dropWhile_eq_self hhead,
    dropWhile_eq_self (by rwa [List.head?_reverse]), reverse_reverse]

/-- The end of a text that is dropped from the front keeps its last character. -/
theorem getLast?_dropWhile (h : c ∈ (text.dropWhile isWhitespace).getLast?) :
    c ∈ text.getLast? := by
  obtain ⟨dropped, htext⟩ := dropWhile_suffix (l := text) isWhitespace
  rw [← htext, List.getLast?_append, mem_def, mem_def.mp h]
  rfl

theorem head?_dropWhile (h : c ∈ (text.dropWhile isWhitespace).head?) : isWhitespace c = false := by
  have hhead := List.head?_dropWhile_not isWhitespace text
  rw [mem_def.mp h] at hhead
  exact hhead

theorem head?_trim {text : List Char} {c : Char} (h : c ∈ (trim text).head?) :
    isWhitespace c = false := by
  rw [trim, List.head?_reverse] at h
  have hfront := getLast?_dropWhile h
  rw [List.getLast?_reverse] at hfront
  exact head?_dropWhile hfront

theorem getLast?_trim (h : c ∈ (trim text).getLast?) : isWhitespace c = false := by
  rw [trim, List.getLast?_reverse] at h
  exact head?_dropWhile h

theorem trim_trim (text : List Char) : trim (trim text) = trim text :=
  trim_eq_self (fun _ => head?_trim) fun _ => getLast?_trim

theorem trim_sublist (text : List Char) : (trim text).Sublist text := by
  have h := (dropWhile_sublist (l := (text.dropWhile isWhitespace).reverse) isWhitespace).reverse
  rw [reverse_reverse] at h
  exact h.trans (dropWhile_sublist isWhitespace)

theorem splitOn_eq_singleton (h : c ∉ text) : splitOn c text = [text] := by
  induction text with
  | nil => rfl
  | cons d rest ih =>
    rw [mem_cons, not_or] at h
    rw [splitOn, if_neg (Ne.symm h.1), ih h.2]

theorem stripPrefix_eq_none {start : List Char} (h : c ∉ text) :
    stripPrefix (c :: start) text = none := by
  rw [stripPrefix, if_neg]
  rw [List.isPrefixOf_iff_prefix]
  exact fun hstart => h (hstart.subset mem_cons_self)

theorem splitOn_append {piece : List Char} (h : c ∉ piece) (rest : List Char) :
    splitOn c (piece ++ c :: rest) = piece :: splitOn c rest := by
  induction piece with
  | nil => rw [List.nil_append, splitOn, if_pos rfl]
  | cons d piece ih =>
    rw [mem_cons, not_or] at h
    rw [cons_append, splitOn, if_neg (Ne.symm h.1), ih h.2]

theorem splitOn_joinWith {pieces : List (List Char)} (hne : pieces ≠ [])
    (h : ∀ piece ∈ pieces, c ∉ piece) : splitOn c (joinWith c pieces) = pieces := by
  induction pieces with
  | nil => exact absurd rfl hne
  | cons piece pieces ih =>
    have hpiece := h piece mem_cons_self
    cases pieces with
    | nil => rw [joinWith, splitOn_eq_singleton hpiece]
    | cons next pieces =>
      rw [joinWith, splitOn_append hpiece, ih (cons_ne_nil next pieces)
        fun other hother => h other (mem_cons_of_mem _ hother)]
      exact cons_ne_nil next pieces

theorem splitOnce_append (h : c ∉ before) (after : List Char) :
    splitOnce c (before ++ c :: after) = some (before, after) := by
  induction before with
  | nil => rw [List.nil_append, splitOnce, if_pos rfl]
  | cons d before ih =>
    rw [mem_cons, not_or] at h
    rw [cons_append, splitOnce, if_neg (Ne.symm h.1), ih h.2]
    rfl

theorem splitOnce_eq_none (h : c ∉ text) : splitOnce c text = none := by
  induction text with
  | nil => rfl
  | cons d rest ih =>
    rw [mem_cons, not_or] at h
    rw [splitOnce, if_neg (Ne.symm h.1), ih h.2]
    rfl

theorem eq_append_of_splitOnce {after : List Char} (h : splitOnce c text = some (before, after)) :
    text = before ++ c :: after ∧ c ∉ before := by
  induction text generalizing before with
  | nil => cases h
  | cons d rest ih =>
    rw [splitOnce] at h
    split at h
    · rename_i hd
      obtain ⟨rfl, rfl⟩ := Prod.mk.inj (some.inj h)
      exact ⟨by rw [hd, List.nil_append], not_mem_nil⟩
    · rename_i hd
      obtain ⟨⟨front, back⟩, hsplit, heq⟩ := map_eq_some_iff.mp h
      obtain ⟨rfl, rfl⟩ := Prod.mk.inj heq
      obtain ⟨rfl, hnot⟩ := ih hsplit
      exact ⟨rfl, fun hmem => (mem_cons.mp hmem).elim (fun hc => hd hc.symm) hnot⟩

theorem stripPrefix_append (start rest : List Char) :
    stripPrefix start (start ++ rest) = some rest := by
  rw [stripPrefix, if_pos (List.isPrefixOf_iff_prefix.mpr (prefix_append _ _)), drop_left]

theorem eq_append_of_stripPrefix {start rest : List Char} (h : stripPrefix start text = some rest) :
    text = start ++ rest := by
  rw [stripPrefix] at h
  split at h
  · rename_i hstart
    obtain ⟨after, rfl⟩ := List.isPrefixOf_iff_prefix.mp hstart
    rw [drop_left] at h
    rw [some.inj h]
  · cases h

theorem stripPrefix_cons_eq_none {d : Char} (h : c ≠ d) (start rest : List Char) :
    stripPrefix (c :: start) (d :: rest) = none := by
  rw [stripPrefix, if_neg]
  rw [List.isPrefixOf_iff_prefix, cons_prefix_cons]
  exact fun hstart => h hstart.1

theorem splitOnceText_append {c : Char} {before : List Char} (h : c ∉ before)
    (sep after : List Char) :
    splitOnceText (c :: sep) (before ++ (c :: sep ++ after)) = some (before, after) := by
  induction before with
  | nil =>
    rw [List.nil_append, cons_append, splitOnceText, ← cons_append, stripPrefix_append]
  | cons d before ih =>
    rw [mem_cons, not_or] at h
    rw [cons_append, splitOnceText, stripPrefix_cons_eq_none h.1, ih h.2]
    rfl

theorem linesFrom_append {line : List Char} (hline : '\n' ∉ line) (before rest : List Char) :
    linesFrom before (line ++ '\n' :: rest) =
      stripReturn (before ++ line) :: linesFrom [] rest := by
  induction line generalizing before with
  | nil => simp [linesFrom]
  | cons c line ih =>
    rw [mem_cons, not_or] at hline
    rw [cons_append, linesFrom, if_neg (Ne.symm hline.1), ih hline.2,
      List.append_assoc, singleton_append]

theorem lines_append {line : List Char} (hline : '\n' ∉ line) (rest : List Char) :
    lines (line ++ '\n' :: rest) = stripReturn line :: lines rest :=
  linesFrom_append hline [] rest

theorem mem_of_mem_stripReturn {line : List Char} (h : c ∈ stripReturn line) : c ∈ line := by
  rw [stripReturn] at h
  split at h
  · exact dropLast_subset line h
  · exact h

theorem newline_notMem_linesFrom (hbefore : '\n' ∉ before) {line : List Char}
    (hline : line ∈ linesFrom before text) : '\n' ∉ line := by
  induction text generalizing before with
  | nil =>
    rw [linesFrom] at hline
    split at hline
    · cases hline
    · obtain rfl := mem_singleton.mp hline
      exact hbefore
  | cons c rest ih =>
    rw [linesFrom] at hline
    split at hline
    · rcases mem_cons.mp hline with rfl | hrest
      · exact fun hmem => hbefore (mem_of_mem_stripReturn hmem)
      · exact ih not_mem_nil hrest
    · rename_i hne
      refine ih (fun hmem => ?_) hline
      rcases mem_append.mp hmem with hold | hnew
      · exact hbefore hold
      · exact hne (mem_singleton.mp hnew).symm

theorem newline_notMem_lines {line : List Char} (hline : line ∈ lines text) : '\n' ∉ line :=
  newline_notMem_linesFrom not_mem_nil hline

theorem lines_flatMap {written : List (List Char)} (h : ∀ line ∈ written, '\n' ∉ line)
    (rest : List Char) :
    lines (written.flatMap (· ++ ['\n']) ++ rest) = written.map stripReturn ++ lines rest := by
  induction written with
  | nil => rfl
  | cons line written ih =>
    rw [flatMap_cons, List.append_assoc, List.append_assoc, singleton_append,
      lines_append (h line mem_cons_self),
      ih fun other hother => h other (mem_cons_of_mem _ hother),
      map_cons, cons_append]

theorem length_linesFrom (before text rest : List Char) :
    (linesFrom before (text ++ '\n' :: rest)).length =
      text.count '\n' + 1 + (lines rest).length := by
  induction text generalizing before with
  | nil => rw [List.nil_append, linesFrom, if_pos rfl, length_cons, lines]; simp [Nat.add_comm]
  | cons c text ih =>
    rw [cons_append, linesFrom]
    split
    next hc =>
      rw [length_cons, ih, hc, count_cons_self]
      omega
    next hc => rw [ih, count_cons_of_ne hc]

/-- There are as many lines as were written exactly when none was written with a line end
of its own. -/
theorem length_lines_iff (written : List (List Char)) :
    written.length ≤ (lines (written.flatMap (· ++ ['\n']))).length ∧
    ((lines (written.flatMap (· ++ ['\n']))).length = written.length ↔
      ∀ line ∈ written, '\n' ∉ line) := by
  induction written with
  | nil => exact ⟨Nat.zero_le _, fun _ => nofun, fun _ => rfl⟩
  | cons line written ih =>
    obtain ⟨hle, hiff⟩ := ih
    have hlength := length_linesFrom [] line (written.flatMap (· ++ ['\n']))
    rw [flatMap_cons, List.append_assoc, singleton_append, lines, hlength,
      length_cons, forall_mem_cons, ← hiff, ← count_eq_zero]
    omega

theorem wordsFrom_append (hword : word.all (!isWhitespace ·) = true) (before rest : List Char) :
    wordsFrom before (word ++ rest) = wordsFrom (before ++ word) rest := by
  induction word generalizing before with
  | nil => rw [List.nil_append, List.append_nil]
  | cons c word ih =>
    rw [all_cons, Bool.and_eq_true, Bool.not_eq_true'] at hword
    rw [cons_append, wordsFrom, if_neg (by simp [hword.1]), ih hword.2,
      List.append_assoc, singleton_append]

theorem splitWhitespace_append (hword : word.all (!isWhitespace ·) = true) (hne : word ≠ [])
    (rest : List Char) : splitWhitespace (word ++ ' ' :: rest) = word :: splitWhitespace rest := by
  rw [splitWhitespace, wordsFrom_append hword, List.nil_append, wordsFrom,
    if_pos (by decide), if_neg hne, splitWhitespace]

theorem splitWhitespace_word (hword : word.all (!isWhitespace ·) = true) (hne : word ≠ []) :
    splitWhitespace word = [word] := by
  have h := wordsFrom_append hword [] []
  rw [List.append_nil, List.nil_append, wordsFrom, if_neg hne] at h
  exact h

/-- One byte for an ASCII character; else a first byte from 192 on, and others from 128
to 191. -/
theorem utf8EncodeChar_eq_cons (c : Char) : ∃ first rest,
    String.utf8EncodeChar c = first :: rest ∧
      (∀ b ∈ rest, 128 ≤ b.toNat ∧ b.toNat < 192) ∧
      (c.toNat < 128 ∧ first.toNat = c.toNat ∧ rest = [] ∨ 128 ≤ c.toNat ∧ 192 ≤ first.toNat) := by
  unfold String.utf8EncodeChar
  dsimp only
  change ∃ (first : UInt8) (rest : List UInt8), _ ∧ _ ∧
    (c.val.toNat < 128 ∧ first.toNat = c.val.toNat ∧ _ ∨
    128 ≤ c.val.toNat ∧ _)
  have hlt : c.val.toNat < 1114112 := by
    rcases c.valid with h | h <;> omega
  split
  · refine ⟨_, [], rfl, by simp, Or.inl ⟨by omega, ?_, rfl⟩⟩
    rw [UInt8.toNat_ofNat']
    omega
  · split
    · refine ⟨_, _, rfl, fun b hb => ?_, Or.inr ⟨by omega, ?_⟩⟩
      · obtain rfl := mem_singleton.mp hb
        rw [UInt8.toNat_ofNat']
        omega
      · rw [UInt8.toNat_ofNat']
        omega
    · split
      · refine ⟨_, _, rfl, fun b hb => ?_, Or.inr ⟨by omega, ?_⟩⟩
        · simp only [mem_cons, not_mem_nil, or_false] at hb
          rcases hb with rfl | rfl <;> rw [UInt8.toNat_ofNat'] <;> omega
        · rw [UInt8.toNat_ofNat']
          omega
      · refine ⟨_, _, rfl, fun b hb => ?_, Or.inr ⟨by omega, ?_⟩⟩
        · simp only [mem_cons, not_mem_nil, or_false] at hb
          rcases hb with rfl | rfl | rfl <;> rw [UInt8.toNat_ofNat'] <;> omega
        · rw [UInt8.toNat_ofNat']
          omega

/-- A byte of a character below 128 is the character; the others have bytes from
128 on. -/
theorem mem_utf8EncodeChar (h : b ∈ String.utf8EncodeChar c) :
    b.toNat = c.toNat ∨ 128 ≤ b.toNat := by
  obtain ⟨first, rest, heq, hrest, hfirst⟩ := utf8EncodeChar_eq_cons c
  rw [heq] at h
  rcases mem_cons.mp h with rfl | hmem
  · rcases hfirst with ⟨-, hsame, -⟩ | ⟨-, hge⟩
    · exact Or.inl hsame
    · exact Or.inr (by omega)
  · exact Or.inr (hrest b hmem).1

/-- An ASCII byte of a text is one of its characters. -/
theorem mem_of_mem_bytes (h : b ∈ bytes text) (hascii : b.toNat < 128) :
    Char.ofNat b.toNat ∈ text := by
  obtain ⟨c, hc, hb⟩ := mem_flatMap.mp h
  rcases mem_utf8EncodeChar hb with heq | hge
  · rwa [heq, Char.ofNat_toNat]
  · omega

theorem bytes_injective {text' : List Char} (h : bytes text = bytes text') : text = text' := by
  have hencode : text.utf8Encode = text'.utf8Encode := congrArg List.toByteArray h
  rw [← String.toByteArray_ofList, ← String.toByteArray_ofList, String.toByteArray_inj] at hencode
  rw [← String.toList_ofList (l := text), hencode, String.toList_ofList]

end Text

end Opensesh
