/-
Installing a public key on a server: the script that looks for the key in `authorized_keys` and
appends its line, and when the file holds just what it did and the key afterwards.
-/
import Opensesh.Slices

namespace Opensesh.InstallKey

open List
open Text

/-- What separates words; the line end does not come up inside a line. -/
def isBlank (byte : UInt8) : Bool := byte = 0x20 || byte = 0x09

def linesFrom (before : List UInt8) : List UInt8 → List (List UInt8)
  | [] => if before = [] then [] else [before]
  | byte :: rest =>
    if byte = 0x0A then before :: linesFrom [] rest else linesFrom (before ++ [byte]) rest

/-- The lines of a file, the last one with or without its end. -/
def linesOf (content : List UInt8) : List (List UInt8) := linesFrom [] content

/-- Whether a text has another in it. -/
def contains {α : Type} [BEq α] (sought : List α) : List α → Bool
  | [] => sought.isEmpty
  | first :: rest => sought.isPrefixOf (first :: rest) || contains sought rest

/-- `grep -q -F`: whether a line of the file has a text in it. -/
def grep (sought content : List UInt8) : Bool := (linesOf content).any (contains sought)

/-- `read -r`: one line without the blanks at its ends, if the input has a whole one. -/
def readLine (input : List UInt8) : Option (List UInt8) :=
  if 0x0A ∈ input then
    some (((input.takeWhile (· ≠ 0x0A)).dropWhile isBlank).reverse.dropWhile isBlank).reverse
  else none

def fieldsFrom (before : List UInt8) : List UInt8 → List (List UInt8)
  | [] => if before = [] then [] else [before]
  | byte :: rest =>
    if isBlank byte then
      if before = [] then fieldsFrom [] rest else before :: fieldsFrom [] rest
    else fieldsFrom (before ++ [byte]) rest

/-- The words that an unquoted value is split into. -/
def fields (value : List UInt8) : List (List UInt8) := fieldsFrom [] value

/-- The user's account on the server. -/
structure Account where
  /-- `~/.ssh/authorized_keys`, if there is one. -/
  authorizedKeys : Option (List UInt8)
  /-- Whether the folder and the file can be made and given their modes. -/
  prepared : Bool
  /-- How many bytes can be written. -/
  room : Nat

def Account.content (account : Account) : List UInt8 := account.authorizedKeys.getD []

/-- `SCRIPT`: what it leaves and what it prints. Names with wildcards are `expand`ed. -/
def script (expand : List UInt8 → List (List UInt8)) (account : Account) (input : List UInt8) :
    Account × List UInt8 :=
  if ¬ account.prepared then (account, [])
  else
    let touched := { account with authorizedKeys := some account.content }
    match readLine input with
    | none => (touched, [])
    | some line =>
      let words := (fields line).flatMap expand
      let pattern := words.getD 0 [] ++ [0x20] ++ words.getD 1 []
      if grep pattern account.content then
        (touched, bytes "__present__\n".toList)
      else
        let added := line ++ [0x0A]
        ({ account with
            authorizedKeys := some (account.content ++ added.take account.room)
            room := account.room - added.length },
          if added.length ≤ account.room then bytes "__added__\n".toList else [])

inductive Installed where
  | added
  | alreadyThere
deriving DecidableEq

/-- Why nothing is known to be installed: the line is no public key line, or the script did
not report success. -/
inductive Refused where
  | line
  | script
deriving DecidableEq

def firstLine (publicLine : List Char) : List Char := trim ((lines publicLine).head?.getD [])

def answer (output : List UInt8) : Except Refused Installed :=
  let text := fromUtf8Lossy output
  if contains "__added__".toList text then .ok .added
  else if contains "__present__".toList text then .ok .alreadyThere
  else .error .script

def install (expand : List UInt8 → List (List UInt8)) (account : Account)
    (publicLine : List Char) : Account × Except Refused Installed :=
  let line := firstLine publicLine
  if (splitWhitespace line).length < 2 then (account, .error .line)
  else
    let (after, output) := script expand account (bytes line ++ [0x0A])
    (after, answer output)

/-- What follows the options of a line; blanks inside quotes are part of them. -/
def skipOptions (quoted : Bool) : List UInt8 → List UInt8
  | [] => []
  | 0x5C :: 0x22 :: rest => skipOptions quoted rest
  | byte :: rest =>
    if !quoted && isBlank byte then byte :: rest
    else skipOptions (if byte = 0x22 then !quoted else quoted) rest

def isEnd (text : List UInt8) : Bool := text.head?.all isBlank

/-- Whether a text starts with a key: its type, blanks, and its data as a whole word. -/
def startsWithKey (kind data text : List UInt8) : Bool :=
  let rest := text.drop kind.length
  let after := rest.dropWhile isBlank
  kind.isPrefixOf text && (rest.head?.any isBlank) && data.isPrefixOf after &&
    isEnd (after.drop data.length)

/-- Whether a line holds a key, at its start or after options; comments hold none. -/
def holds (kind data held : List UInt8) : Bool :=
  let text := held.dropWhile isBlank
  text.head? != some 0x23 &&
    (startsWithKey kind data text ||
      startsWithKey kind data ((skipOptions false text).dropWhile isBlank))

/-- A character that makes the shell look for files. -/
def isWildcard (c : Char) : Bool := c = '*' || c = '?' || c = '['

/-- A public key line: the key's type and its data, and maybe a comment. -/
structure PublicKey where
  kind : List Char
  gap : List Char
  data : List Char
  tail : List Char
  kind_ne : kind ≠ []
  data_ne : data ≠ []
  kind_word : ∀ c ∈ kind, isWhitespace c = false ∧ isWildcard c = false
  data_word : ∀ c ∈ data, isWhitespace c = false ∧ isWildcard c = false
  gap_ne : gap ≠ []
  gap_blank : ∀ c ∈ gap, c = ' ' ∨ c = '\t'
  tail_apart : ∀ c ∈ tail.head?, c = ' ' ∨ c = '\t'

def PublicKey.line (key : PublicKey) : List Char := key.kind ++ key.gap ++ key.data ++ key.tail

/-- What is looked for in the file. -/
def PublicKey.pattern (key : PublicKey) : List UInt8 := bytes key.kind ++ [0x20] ++ bytes key.data

/-- Whether some line of the file has the key's text in it. -/
def PublicKey.isFound (key : PublicKey) (account : Account) : Bool :=
  grep key.pattern account.content

/-- What is said of an installation: an added key's line follows the lines there were; a key that
is there stands in a line of the file as it was. -/
def Faithful (key : PublicKey) (before after : Account) (answer : Except Refused Installed) :
    Prop :=
  (answer = .ok .added → linesOf after.content = linesOf before.content ++ [bytes key.line]) ∧
  (answer = .ok .alreadyThere →
    after.content = before.content ∧
      ∃ held ∈ linesOf before.content, holds (bytes key.kind) (bytes key.data) held = true)

theorem linesFrom_append {line : List UInt8} (hline : 0x0A ∉ line) (before rest : List UInt8) :
    linesFrom before (line ++ 0x0A :: rest) = (before ++ line) :: linesOf rest := by
  induction line generalizing before with
  | nil => rw [List.nil_append, linesFrom, if_pos rfl, List.append_nil, linesOf]
  | cons byte line ih =>
    rw [mem_cons, not_or] at hline
    rw [cons_append, linesFrom, if_neg (Ne.symm hline.1), ih hline.2, List.append_assoc,
      singleton_append]

theorem linesFrom_ended (before content rest : List UInt8) :
    linesFrom before (content ++ 0x0A :: rest) =
      linesFrom before (content ++ [0x0A]) ++ linesOf rest := by
  induction content generalizing before with
  | nil =>
    rw [List.nil_append, List.nil_append, linesFrom, linesFrom, if_pos rfl, if_pos rfl]
    rfl
  | cons byte content ih =>
    rw [cons_append, cons_append, linesFrom, linesFrom]
    split
    · rw [ih, cons_append]
    · exact ih _

theorem length_linesFrom_ended (before content : List UInt8) :
    (linesFrom before (content ++ [0x0A])).length = content.count 0x0A + 1 := by
  induction content generalizing before with
  | nil => rfl
  | cons byte content ih =>
    rw [cons_append, linesFrom]
    split
    · rename_i hend
      rw [length_cons, ih, hend, count_cons_self]
    · rename_i hother
      rw [ih, count_cons_of_ne hother]

theorem length_linesFrom_open (before : List UInt8) {content : List UInt8}
    (hlast : content.getLast? ≠ some 0x0A) (hne : before ++ content ≠ []) :
    (linesFrom before content).length = content.count 0x0A + 1 := by
  induction content generalizing before with
  | nil =>
    rw [List.append_nil] at hne
    rw [linesFrom, if_neg hne]
    rfl
  | cons byte content ih =>
    rw [linesFrom]
    split
    · rename_i hend
      subst hend
      cases content with
      | nil => exact absurd rfl hlast
      | cons next rest =>
        rw [length_cons, ih [] (by simpa using hlast) (cons_ne_nil _ _), count_cons_self]
    · rename_i hother
      rw [count_cons_of_ne hother]
      cases content with
      | nil =>
        rw [linesFrom, if_neg (by simp)]
        rfl
      | cons next rest => exact ih _ (by simpa using hlast) (by simp)

/-- A line put behind a file is a line of its own exactly when the file has all its line ends. -/
theorem linesOf_append_iff {content line : List UInt8} (hline : 0x0A ∉ line) :
    linesOf (content ++ (line ++ [0x0A])) = linesOf content ++ [line] ↔
      content = [] ∨ content.getLast? = some 0x0A := by
  constructor
  · intro heq
    by_contra hnot
    rw [not_or] at hnot
    have hlength := congrArg List.length heq
    rw [← List.append_assoc, linesOf, length_linesFrom_ended, length_append, linesOf,
      length_linesFrom_open [] hnot.2 hnot.1, count_append, count_eq_zero.mpr hline,
      length_singleton] at hlength
    omega
  · intro hended
    have hone : linesOf (line ++ [0x0A]) = [line] := linesFrom_append hline [] []
    rcases hended with rfl | hlast
    · rw [List.nil_append, hone]
      rfl
    · obtain ⟨front, rfl⟩ := List.getLast?_eq_some_iff.mp hlast
      rw [List.append_assoc, singleton_append, linesOf, linesFrom_ended, hone]
      rfl

theorem not_blank_of_word {word : List Char} (hword : ∀ c ∈ word, isWhitespace c = false) :
    ∀ byte ∈ bytes word, isBlank byte = false := by
  intro byte hbyte
  by_contra hblank
  rw [Bool.not_eq_false, isBlank, Bool.or_eq_true, decide_eq_true_eq, decide_eq_true_eq] at hblank
  rcases hblank with rfl | rfl
  · exact absurd (hword _ (mem_of_mem_bytes hbyte (by decide))) (by decide)
  · exact absurd (hword _ (mem_of_mem_bytes hbyte (by decide))) (by decide)

theorem bytes_gap {gap : List Char} (hgap : ∀ c ∈ gap, c = ' ' ∨ c = '\t') :
    ∀ byte ∈ bytes gap, isBlank byte = true := by
  intro byte hbyte
  obtain ⟨c, hc, hmem⟩ := mem_flatMap.mp hbyte
  rcases hgap c hc with rfl | rfl
  · obtain rfl := mem_singleton.mp hmem
    rfl
  · obtain rfl := mem_singleton.mp hmem
    rfl

theorem bytes_ne_nil {text : List Char} (htext : text ≠ []) : bytes text ≠ [] := fun hempty =>
  htext (bytes_injective hempty)

theorem fieldsFrom_word {word : List UInt8} (hword : ∀ byte ∈ word, isBlank byte = false)
    (before rest : List UInt8) :
    fieldsFrom before (word ++ rest) = fieldsFrom (before ++ word) rest := by
  induction word generalizing before with
  | nil => rw [List.nil_append, List.append_nil]
  | cons byte word ih =>
    rw [forall_mem_cons] at hword
    rw [cons_append, fieldsFrom, if_neg (by rw [hword.1]; exact Bool.false_ne_true),
      ih hword.2, List.append_assoc, singleton_append]

theorem fieldsFrom_gap {gap : List UInt8} (hgap : ∀ byte ∈ gap, isBlank byte = true)
    (rest : List UInt8) : fieldsFrom [] (gap ++ rest) = fieldsFrom [] rest := by
  induction gap with
  | nil => rfl
  | cons byte gap ih =>
    rw [forall_mem_cons] at hgap
    rw [cons_append, fieldsFrom, if_pos hgap.1, if_pos rfl, ih hgap.2]

theorem fields_word {word rest : List UInt8} (hword : ∀ byte ∈ word, isBlank byte = false)
    (hne : word ≠ []) (hrest : rest.head?.all isBlank = true) :
    fields (word ++ rest) = word :: fields rest := by
  rw [fields, fieldsFrom_word hword, List.nil_append]
  cases rest with
  | nil => rw [fieldsFrom, if_neg hne]; rfl
  | cons byte rest =>
    have hblank : isBlank byte = true := hrest
    rw [fieldsFrom, if_pos hblank, if_neg hne, fields, fieldsFrom, if_pos hblank, if_pos rfl]

namespace PublicKey

variable (key : PublicKey)

theorem bytes_line : bytes key.line =
    bytes key.kind ++ (bytes key.gap ++ (bytes key.data ++ bytes key.tail)) := by
  rw [line, bytes_append, bytes_append, bytes_append, List.append_assoc, List.append_assoc]

theorem head_gap (rest : List UInt8) :
    (bytes key.gap ++ rest).head?.all isBlank = true ∧
      (bytes key.gap ++ rest).head?.any isBlank = true := by
  obtain ⟨c, gap, hgap⟩ := exists_cons_of_ne_nil key.gap_ne
  have hc := key.gap_blank c (hgap ▸ mem_cons_self)
  rw [hgap]
  rcases hc with rfl | rfl <;> exact ⟨rfl, rfl⟩

theorem head_tail : (bytes key.tail).head?.all isBlank = true := by
  have htail := key.tail_apart
  cases hcase : key.tail with
  | nil => rfl
  | cons c tail =>
    rcases htail c (by rw [hcase]; rfl) with rfl | rfl <;> rfl

theorem fields_line : ∃ others, fields (bytes key.line) =
    bytes key.kind :: bytes key.data :: others := by
  have hkind := not_blank_of_word fun c hc => (key.kind_word c hc).1
  have hdata := not_blank_of_word fun c hc => (key.data_word c hc).1
  refine ⟨fields (bytes key.tail), ?_⟩
  rw [bytes_line, fields_word hkind (bytes_ne_nil key.kind_ne) (key.head_gap _).1]
  congr 1
  rw [fields, fieldsFrom_gap (bytes_gap key.gap_blank)]
  exact fields_word hdata (bytes_ne_nil key.data_ne) key.head_tail

end PublicKey

theorem dropWhile_eq_self {text : List UInt8} (h : text.head?.all (!isBlank ·) = true) :
    text.dropWhile isBlank = text := by
  cases text with
  | nil => rfl
  | cons byte rest =>
    have hbyte : isBlank byte = false := by simpa using h
    rw [dropWhile_cons_of_neg (by rw [hbyte]; exact Bool.false_ne_true)]

theorem readLine_line {line : List UInt8} (hline : 0x0A ∉ line)
    (hfirst : line.head?.all (!isBlank ·) = true)
    (hlast : line.getLast?.all (!isBlank ·) = true) : readLine (line ++ [0x0A]) = some line := by
  have htake : (line ++ [0x0A]).takeWhile (· ≠ 0x0A) = line := by
    rw [takeWhile_append_of_pos fun byte hbyte => by
      simpa using fun heq : byte = 0x0A => hline (heq ▸ hbyte)]
    simp
  rw [readLine, if_pos (mem_append_right _ (mem_singleton_self _)), htake,
    dropWhile_eq_self hfirst, dropWhile_eq_self (by rwa [List.head?_reverse]),
    reverse_reverse]

theorem newline_notMem_firstLine (publicLine : List Char) : '\n' ∉ firstLine publicLine := by
  intro hmem
  have hline := (trim_sublist _).subset hmem
  cases hlines : lines publicLine with
  | nil =>
    rw [hlines] at hline
    cases hline
  | cons first rest =>
    rw [hlines] at hline
    exact newline_notMem_lines (hlines ▸ mem_cons_self) hline

theorem head_bytes {text : List Char} (h : ∀ c ∈ text.head?, isWhitespace c = false) :
    (bytes text).head?.all (!isBlank ·) = true := by
  cases text with
  | nil => rfl
  | cons c rest =>
    have hc := not_blank_of_word (forall_mem_singleton.mpr (h c rfl))
    obtain ⟨first, others, heq, -⟩ := utf8EncodeChar_eq_cons c
    have hfirst := hc first (by rw [bytes, flatMap_singleton, heq]; exact mem_cons_self)
    rw [bytes_cons, heq]
    simpa using hfirst

theorem last_bytes {text : List Char} (h : ∀ c ∈ text.getLast?, isWhitespace c = false) :
    (bytes text).getLast?.all (!isBlank ·) = true := by
  cases htext : text.getLast? with
  | none =>
    rw [List.getLast?_eq_none_iff.mp htext]
    rfl
  | some c =>
    obtain ⟨front, rfl⟩ := List.getLast?_eq_some_iff.mp htext
    have hc := not_blank_of_word (forall_mem_singleton.mpr (h c htext))
    have hsome : (bytes [c]) ≠ [] := bytes_ne_nil (cons_ne_nil c [])
    rw [bytes_append, List.getLast?_append_of_ne_nil _ hsome, List.getLast?_eq_some_getLast hsome]
    simpa using hc _ (getLast_mem hsome)

theorem readLine_firstLine (publicLine : List Char) :
    readLine (bytes (firstLine publicLine) ++ [0x0A]) = some (bytes (firstLine publicLine)) := by
  refine readLine_line (fun hmem => ?_) (head_bytes fun c => head?_trim)
    (last_bytes fun c => getLast?_trim)
  exact newline_notMem_firstLine publicLine (mem_of_mem_bytes hmem (by decide))

theorem answer_text (text : List Char) :
    answer (bytes text) =
      if contains "__added__".toList text then .ok .added
      else if contains "__present__".toList text then .ok .alreadyThere
      else .error .script := by
  rw [answer]
  simp only [fromUtf8Lossy_bytes]

theorem answer_added : answer (bytes "__added__\n".toList) = .ok .added := by
  rw [answer_text, if_pos (by decide)]

theorem answer_present : answer (bytes "__present__\n".toList) = .ok .alreadyThere := by
  rw [answer_text, if_neg (by decide), if_pos (by decide)]

theorem answer_nothing : answer [] = .error .script := by decide

/-- Whether the file can take a line. -/
def Account.fits (account : Account) (line : List UInt8) : Prop := line.length + 1 ≤ account.room

instance (account : Account) (line : List UInt8) : Decidable (account.fits line) :=
  inferInstanceAs (Decidable (_ ≤ _))

section

variable {expand : List UInt8 → List (List UInt8)} {key : PublicKey} {publicLine : List Char}

/-- The text that the script looks for, whatever other words expand to. -/
theorem pattern_eq
    (hexpand : ∀ word : List Char, (∀ c ∈ word, isWildcard c = false) →
      expand (bytes word) = [bytes word]) :
    let words := (fields (bytes key.line)).flatMap expand
    words.getD 0 [] ++ [0x20] ++ words.getD 1 [] = key.pattern := by
  obtain ⟨others, hfields⟩ := key.fields_line
  have hkind := hexpand key.kind fun c hc => (key.kind_word c hc).2
  have hdata := hexpand key.data fun c hc => (key.data_word c hc).2
  simp only [hfields, flatMap_cons, hkind, hdata, singleton_append]
  rfl

theorem install_eq
    (hexpand : ∀ word : List Char, (∀ c ∈ word, isWildcard c = false) →
      expand (bytes word) = [bytes word])
    (hkey : firstLine publicLine = key.line)
    (haccepted : 2 ≤ (splitWhitespace (firstLine publicLine)).length) (account : Account) :
    install expand account publicLine =
      if ¬ account.prepared then (account, .error .script)
      else if key.isFound account then
        ({ account with authorizedKeys := some account.content }, .ok .alreadyThere)
      else
        ({ account with
            authorizedKeys := some (account.content ++ (bytes key.line ++ [0x0A]).take account.room)
            room := account.room - (bytes key.line ++ [0x0A]).length },
          if account.fits (bytes key.line) then .ok .added else .error .script) := by
  have hread := readLine_firstLine publicLine
  have hpattern := @pattern_eq expand key hexpand
  rw [hkey] at hread haccepted
  rw [install, hkey, if_neg (Nat.not_lt.mpr haccepted), script]
  by_cases hprepared : account.prepared = true
  · simp only [hprepared, not_true, if_false, hread, hpattern]
    by_cases hfound : key.isFound account = true
    · rw [PublicKey.isFound] at hfound ⊢
      rw [if_pos hfound, if_pos hfound]
      exact congrArg _ answer_present
    · rw [PublicKey.isFound] at hfound ⊢
      rw [if_neg hfound, if_neg hfound]
      have hlength : (bytes key.line ++ [0x0A]).length = (bytes key.line).length + 1 := by simp
      rw [hlength]
      by_cases hfits : account.fits (bytes key.line)
      · have hroom : (bytes key.line).length + 1 ≤ account.room := hfits
        rw [if_pos hfits, if_pos hroom]
        exact congrArg _ answer_added
      · have hroom : ¬ (bytes key.line).length + 1 ≤ account.room := hfits
        rw [if_neg hfits, if_neg hroom]
        exact congrArg _ answer_nothing
  · rw [if_pos hprepared, if_pos hprepared]
    exact congrArg _ answer_nothing

/-- When an installation is as it is said to be: a file that the key is added to is empty or has
all its line ends, and the key's text stands in some line as a key, not only in comments, in
options or inside other words. -/
theorem install_faithful_iff
    (hexpand : ∀ word : List Char, (∀ c ∈ word, isWildcard c = false) →
      expand (bytes word) = [bytes word])
    (hkey : firstLine publicLine = key.line)
    (haccepted : 2 ≤ (splitWhitespace (firstLine publicLine)).length) (account : Account) :
    Faithful key account (install expand account publicLine).1
        (install expand account publicLine).2 ↔
      (account.prepared = true →
        if key.isFound account then
          ∃ held ∈ linesOf account.content, holds (bytes key.kind) (bytes key.data) held = true
        else account.fits (bytes key.line) →
          account.content = [] ∨ account.content.getLast? = some 0x0A) := by
  have hline : (0x0A : UInt8) ∉ bytes key.line := fun hmem =>
    newline_notMem_firstLine publicLine (hkey ▸ mem_of_mem_bytes hmem (by decide))
  rw [install_eq hexpand hkey haccepted]
  by_cases hprepared : account.prepared = true
  · rw [if_neg (not_not.mpr hprepared)]
    by_cases hfound : key.isFound account = true
    · rw [if_pos hfound, if_pos hfound]
      constructor
      · exact fun h _ => (h.2 rfl).2
      · exact fun h => ⟨(fun heq => by cases heq), fun _ => ⟨rfl, h hprepared⟩⟩
    · rw [if_neg hfound, if_neg hfound]
      by_cases hfits : account.fits (bytes key.line)
      · have hwhole : (bytes key.line ++ [0x0A]).take account.room = bytes key.line ++ [0x0A] :=
          List.take_of_length_le (by simpa [Account.fits] using hfits)
        have hadded := @linesOf_append_iff account.content _ hline
        rw [if_pos hfits, hwhole]
        constructor
        · exact fun h _ _ => hadded.mp (h.1 rfl)
        · exact fun h => ⟨fun _ => hadded.mpr (h hprepared hfits), (fun heq => by cases heq)⟩
      · rw [if_neg hfits]
        exact ⟨fun _ _ hroom => absurd hroom hfits,
          fun _ => ⟨(fun heq => by cases heq), (fun heq => by cases heq)⟩⟩
  · rw [if_pos hprepared]
    exact ⟨fun _ h => absurd h hprepared,
      fun _ => ⟨(fun heq => by cases heq), (fun heq => by cases heq)⟩⟩

end

namespace Witness

theorem word_of_all {word : List Char}
    (h : (word.all fun c => !isWhitespace c && !isWildcard c) = true) :
    ∀ c ∈ word, isWhitespace c = false ∧ isWildcard c = false := by
  simpa using h

/-- A shell in a folder without files. -/
def noFiles (word : List UInt8) : List (List UInt8) := [word]

def mine : PublicKey where
  kind := "ssh-ed25519".toList
  gap := " ".toList
  data := "AAAAC3".toList
  tail := " me@laptop".toList
  kind_ne := by decide
  data_ne := by decide
  kind_word := word_of_all (by decide)
  data_word := word_of_all (by decide)
  gap_ne := by decide
  gap_blank := by simp
  tail_apart := by simp

def mineText : List Char := "ssh-ed25519 AAAAC3 me@laptop\n".toList

def account (content : String) : Account := ⟨some (bytes content.toList), true, 4096⟩

/-- Somebody's key without a line end. -/
def unended : Account := account "ssh-rsa AAAAB3 other"

/-- The key, commented out. -/
def commented : Account := account "#ssh-ed25519 AAAAC3 me@laptop\n"

theorem mine_installs (content : String) :
    install noFiles (account content) mineText =
      if mine.isFound (account content) then
        ({ account content with authorizedKeys := some (account content).content },
          .ok .alreadyThere)
      else
        ({ account content with
            authorizedKeys := some ((account content).content ++
              (bytes mine.line ++ [0x0A]).take 4096)
            room := 4096 - (bytes mine.line ++ [0x0A]).length },
          if (account content).fits (bytes mine.line) then .ok .added else .error .script) :=
  install_eq (fun _ _ => rfl) (by decide) (by decide) (account content)

/-- The other key's line is gone, and a key in a comment is taken for one. -/
theorem installs_unfaithfully :
    ¬ Faithful mine unended (install noFiles unended mineText).1
        (install noFiles unended mineText).2 ∧
      ¬ Faithful mine commented (install noFiles commented mineText).1
        (install noFiles commented mineText).2 := by
  constructor
  · rw [unended, mine_installs, if_neg (by decide), if_pos (by decide)]
    exact fun h => absurd (h.1 rfl) (by decide)
  · rw [commented, mine_installs, if_pos (by decide)]
    exact fun h => absurd (h.2 rfl).2 (by decide)

/-- A file with its line end, and the key in it after options. -/
theorem installs_faithfully :
    Faithful mine (account "# keys\n") (install noFiles (account "# keys\n") mineText).1
        (install noFiles (account "# keys\n") mineText).2 ∧
      Faithful mine (account "command=\"a b\" ssh-ed25519 AAAAC3\n")
        (install noFiles (account "command=\"a b\" ssh-ed25519 AAAAC3\n") mineText).1
        (install noFiles (account "command=\"a b\" ssh-ed25519 AAAAC3\n") mineText).2 :=
  ⟨(install_faithful_iff (fun _ _ => rfl) (by decide) (by decide) _).mpr (by decide),
    (install_faithful_iff (fun _ _ => rfl) (by decide) (by decide) _).mpr (by decide)⟩

end Witness

end Opensesh.InstallKey
