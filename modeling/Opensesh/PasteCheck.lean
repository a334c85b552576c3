/-
What in a pasted text deserves a look before it reaches a shell: every character that hides
something is found once, and what is found lies where it is said to.
-/
import Opensesh.Slices
import Opensesh.SnippetTable
import Opensesh.TargetPieces

namespace Opensesh.PasteCheck

open Option
open Text

inductive Severity where
  | info
  | warning
  | danger

inductive Kind where
  | runsAtOnce
  | multiline
  | control
  | invisible
  | bidi
  | overwrite
  | homoglyph
  | pipeToShell
  | decodeToShell
  | profileWrite
  | sudoPipe
  | destructive
deriving DecidableEq

/-- One finding: what, how much it matters, its bytes, its line from 1, and a detail. -/
structure Finding where
  kind : Kind
  severity : Severity
  start : Nat
  stop : Nat
  line : Nat
  detail : List Char

/-- The UTF-16 code units of a text. -/
def utf16 (text : List Char) : List UInt16 :=
  text.flatMap fun c =>
    if c.toNat < 0x10000 then [UInt16.ofNat c.toNat]
    else [UInt16.ofNat (0xD800 + (c.toNat - 0x10000) / 0x400),
      UInt16.ofNat (0xDC00 + (c.toNat - 0x10000) % 0x400)]

/-- A byte range in UTF-16 code units. -/
def utf16Range (text : List Char) (start stop : Nat) : Nat × Nat :=
  let offset (byte : Nat) : Nat :=
    ((sliceTo text (min byte (byteLen text))).map fun front => (utf16 front).length).getD 0
  (offset start, offset stop)

/-- Where a pattern of the regex library matches in a line. -/
structure Match (line : List Char) where
  before : List Char
  found : List Char
  after : List Char
  whole : line = before ++ found ++ after

/-- A pattern's first match in a line. -/
abbrev Rule := (line : List Char) → Option (Match line)

/-- The patterns of the commands that are worth a second look. -/
structure Rules where
  pipeToShell : List Rule
  decodeToShell : List Rule
  profileWrite : Rule
  sudoPipe : List Rule
  destructive : List Rule

/-- The patterns in the order they are tried. -/
def Rules.all (rules : Rules) : List (Kind × Severity × Rule) :=
  rules.pipeToShell.map (.pipeToShell, .danger, ·) ++
    rules.decodeToShell.map (.decodeToShell, .danger, ·) ++
    [(.profileWrite, .warning, rules.profileWrite)] ++
    rules.sudoPipe.map (.sudoPipe, .warning, ·) ++
    rules.destructive.map (.destructive, .danger, ·)

def isBetween (first last : Nat) (c : Char) : Bool := first ≤ c.toNat && c.toNat ≤ last

/-- Invisible characters. -/
def invisible (c : Char) : Bool :=
  isBetween 0x200B 0x200D c || isBetween 0x2060 0x2064 c || c.toNat == 0xFEFF ||
    c.toNat == 0xAD || c.toNat == 0x180E || c.toNat == 0x34F || c.toNat == 0x115F ||
    c.toNat == 0x1160 || c.toNat == 0x3164 || c.toNat == 0xFFA0 || isBetween 0xE0000 0xE007F c

/-- Bidirectional controls. -/
def bidi (c : Char) : Bool :=
  isBetween 0x202A 0x202E c || isBetween 0x2066 0x2069 c || c.toNat == 0x200E ||
    c.toNat == 0x200F || c.toNat == 0x61C

/-- Letters that look like Latin ones. -/
def lookalikeScript (c : Char) : Bool :=
  isBetween 0x370 0x3FF c || isBetween 0x400 0x52F c || isBetween 0x530 0x58F c ||
    isBetween 0x13A0 0x13FF c || isBetween 0xFF01 0xFF5E c

def fullwidth (c : Char) : Bool := isBetween 0xFF01 0xFF5E c

/-- A character's code point. -/
def code (c : Char) : List Char :=
  let digits := (Nat.toDigits 16 c.toNat).map Char.toUpper
  ['U', '+'] ++ List.replicate (4 - digits.length) '0' ++ digits

/-- The line (from 1) of a byte. -/
def lineOf (text : List Char) (start : Nat) : Nat :=
  match sliceTo text start with
  | some before => before.count '\n' + 1
  | none => 1

/-- What a character is, with what follows it. A carriage return before a newline or at the end
is part of a line end; one in the middle of a line overwrites. -/
def classify (c : Char) (rest : List Char) : Option (Kind × Severity) :=
  if c = '\r' then
    match rest with
    | [] => none
    | next :: _ => if next = '\n' then none else some (.overwrite, .warning)
  else if c.toNat = 0x1B then some (.control, .danger)
  else if (isControl c ∧ c ≠ '\n' ∧ c ≠ '\t') ∨ c.toNat = 0x7F then some (.control, .warning)
  else if bidi c then some (.bidi, .danger)
  else if invisible c then some (.invisible, .warning)
  else none

/-- The findings for the characters from a byte on. -/
def charactersFrom (text : List Char) : Nat → List Char → List Finding
  | _, [] => []
  | index, c :: rest =>
    ((classify c rest).map fun found =>
      ⟨found.1, found.2, index, index + c.utf8Size, lineOf text index, code c⟩).toList ++
    charactersFrom text (index + c.utf8Size) rest

def isWordPart (alphanumeric : Char → Bool) (c : Char) : Bool :=
  alphanumeric c || ['-', '_', '.', '/', '~'].contains c

def isAsciiAlphabetic (c : Char) : Bool := isBetween 0x41 0x5A c || isBetween 0x61 0x7A c

/-- A word that mixes letters of other scripts into Latin ones. -/
def flush (text : List Char) (start stop : Nat) : List Finding :=
  let word := (slice text start stop).getD []
  let odd := word.filter lookalikeScript
  if odd.any fullwidth ∨ (word.any isAsciiAlphabetic ∧ odd ≠ []) then
    [⟨.homoglyph, .warning, start, stop, lineOf text start,
      [',', ' '].intercalate (odd.map fun c => c :: ' ' :: code c)⟩]
  else []

/-- The findings for the words from a byte on, with where the word being read started. -/
def homoglyphsFrom (alphanumeric : Char → Bool) (text : List Char) :
    Option Nat → Nat → List Char → List Finding
  | none, _, [] => []
  | some start, _, [] => flush text start (byteLen text)
  | start, index, c :: rest =>
    match isWordPart alphanumeric c, start with
    | true, none => homoglyphsFrom alphanumeric text (some index) (index + c.utf8Size) rest
    | false, some start =>
      flush text start index ++ homoglyphsFrom alphanumeric text none (index + c.utf8Size) rest
    | _, start => homoglyphsFrom alphanumeric text start (index + c.utf8Size) rest

/-- The findings in the lines from the one with a number on, which starts at a byte. -/
def commandsFrom (rules : Rules) : Nat → Nat → List (List Char) → List Finding
  | _, _, [] => []
  | number, offset, line :: rest =>
    (if (line.dropWhile isWhitespace).head? = some '#' then []
    else rules.all.filterMap fun rule => (rule.2.2 line).map fun found =>
      ⟨rule.1, rule.2.1, offset + byteLen found.before,
        offset + byteLen found.before + byteLen found.found, number + 1,
        Text.trim found.found⟩) ++
    commandsFrom rules (number + 1) (offset + byteLen line + 1) rest

def isLineEnd (c : Char) : Bool := c = '\r' || c = '\n'

/-- The finding for a text of several lines. -/
def linesFinding (text : List Char) (bracketed : Bool) : List Finding :=
  if text.count '\n' = 0 then []
  else
    let count := max (lines ((text.reverse.dropWhile isLineEnd).reverse)).length 1
    if bracketed ∧ count < 2 then []
    else if bracketed then
      [⟨.multiline, .info, 0, byteLen text, 1, Nat.toDigits 10 count⟩]
    else [⟨.runsAtOnce, .warning, 0, byteLen text, 1, Nat.toDigits 10 count⟩]

def before (first second : Finding) : Bool :=
  first.start < second.start || first.start == second.start && first.stop ≤ second.stop

/-- What was found, in no order. -/
def unsorted (rules : Rules) (alphanumeric : Char → Bool) (text : List Char) (bracketed : Bool) :
    List Finding :=
  charactersFrom text 0 text ++ homoglyphsFrom alphanumeric text none 0 text ++
    commandsFrom rules 0 0 (splitOn '\n' text) ++ linesFinding text bracketed

/-- The findings in the order of the text. -/
def analyze (rules : Rules) (alphanumeric : Char → Bool) (text : List Char) (bracketed : Bool) :
    List Finding :=
  (unsorted rules alphanumeric text bracketed).mergeSort before

/-- A finding for a part of the text, with the number of the line it starts in. -/
def Placed (text : List Char) (finding : Finding) : Prop :=
  ∃ front part back, text = front ++ part ++ back ∧ finding.start = byteLen front ∧
    finding.stop = byteLen front + byteLen part ∧ finding.line = front.count '\n' + 1

theorem lineOf_append (front back : List Char) :
    lineOf (front ++ back) (byteLen front) = front.count '\n' + 1 := by
  rw [lineOf, sliceTo_append]

theorem placed_charactersFrom {text front rest : List Char} (htext : text = front ++ rest) :
    ∀ finding ∈ charactersFrom text (byteLen front) rest, Placed text finding := by
  induction rest generalizing front with
  | nil => exact fun _ h => absurd h List.not_mem_nil
  | cons c rest ih =>
    intro finding hfinding
    rw [charactersFrom, List.mem_append] at hfinding
    rcases hfinding with hhere | hlater
    · rw [mem_toList, map_eq_some_iff] at hhere
      obtain ⟨found, -, rfl⟩ := hhere
      refine ⟨front, [c], rest, by simp [htext], rfl, by simp, ?_⟩
      rw [htext]
      exact lineOf_append front _
    · have hnext : text = (front ++ [c]) ++ rest := by simp [htext]
      refine ih hnext finding ?_
      rw [byteLen_append]
      simpa using hlater

theorem placed_flush {text front word back : List Char} (htext : text = front ++ word ++ back) :
    ∀ finding ∈ flush text (byteLen front) (byteLen front + byteLen word),
      Placed text finding ∧ finding.kind = .homoglyph := by
  intro finding hfinding
  rw [flush] at hfinding
  split at hfinding
  · obtain rfl := List.mem_singleton.mp hfinding
    refine ⟨⟨front, word, back, htext, rfl, rfl, ?_⟩, rfl⟩
    rw [htext, List.append_assoc]
    exact lineOf_append front _
  · cases hfinding

/-- The word being read stands between where it started and the character read. -/
theorem placed_homoglyphsFrom (alphanumeric : Char → Bool) {text front word rest : List Char}
    (htext : text = front ++ word ++ rest) {start : Option Nat}
    (hstart : start = some (byteLen front) ∨ start = none ∧ word = []) :
    ∀ finding ∈ homoglyphsFrom alphanumeric text start (byteLen front + byteLen word) rest,
      Placed text finding ∧ finding.kind = .homoglyph := by
  induction rest generalizing front word start with
  | nil =>
    rcases hstart with rfl | ⟨rfl, -⟩
    · rw [homoglyphsFrom]
      have hend : byteLen text = byteLen front + byteLen word := by
        rw [htext, List.append_nil, byteLen_append]
      rw [hend]
      exact placed_flush htext
    · exact fun _ h => absurd h List.not_mem_nil
  | cons c rest ih =>
    have hlonger : text = front ++ (word ++ [c]) ++ rest := by simp [htext]
    have hafter : text = (front ++ word ++ [c]) ++ [] ++ rest := by simp [htext]
    have hindex : byteLen front + byteLen word + c.utf8Size =
        byteLen front + byteLen (word ++ [c]) := by simp [Nat.add_assoc]
    have hpast : byteLen front + byteLen word + c.utf8Size =
        byteLen (front ++ word ++ [c]) + byteLen [] := by simp [Nat.add_assoc]
    rcases hstart with rfl | ⟨rfl, rfl⟩
    · cases hpart : isWordPart alphanumeric c with
      | true =>
        simp only [homoglyphsFrom, hpart]
        rw [hindex]
        exact ih hlonger (Or.inl rfl)
      | false =>
        simp only [homoglyphsFrom, hpart, List.mem_append]
        rintro finding (hword | hlater)
        · exact placed_flush htext finding hword
        · rw [hpast] at hlater
          exact ih hafter (Or.inr ⟨rfl, rfl⟩) finding hlater
    · cases hpart : isWordPart alphanumeric c with
      | true =>
        simp only [homoglyphsFrom, hpart]
        rw [hindex, byteLen_nil, Nat.add_zero]
        exact ih hlonger (Or.inl rfl)
      | false =>
        simp only [homoglyphsFrom, hpart]
        rw [hpast]
        exact ih hafter (Or.inr ⟨rfl, rfl⟩)

def Kind.isCommand (kind : Kind) : Bool :=
  [.pipeToShell, .decodeToShell, .profileWrite, .sudoPipe, .destructive].contains kind

theorem isCommand_of_mem_all {rules : Rules} {rule : Kind × Severity × Rule}
    (h : rule ∈ rules.all) : rule.1.isCommand = true := by
  simp only [Rules.all, List.mem_append, List.mem_map, List.mem_singleton] at h
  rcases h with (((⟨_, -, rfl⟩ | ⟨_, -, rfl⟩) | rfl) | ⟨_, -, rfl⟩) | ⟨_, -, rfl⟩ <;> rfl

theorem placed_commandsFrom (rules : Rules) {text front : List Char} {lines : List (List Char)}
    (hlines : ∀ line ∈ lines, '\n' ∉ line) (htext : lines ≠ [] → text = front ++ joinWith '\n' lines) :
    ∀ finding ∈ commandsFrom rules (front.count '\n') (byteLen front) lines,
      Placed text finding ∧ finding.kind.isCommand = true := by
  induction lines generalizing front with
  | nil => exact fun _ h => absurd h List.not_mem_nil
  | cons line rest ih =>
    have hline := hlines line List.mem_cons_self
    intro finding hfinding
    rw [commandsFrom, List.mem_append] at hfinding
    obtain ⟨back, hback⟩ : ∃ back, text = front ++ line ++ back := by
      cases rest with
      | nil => exact ⟨[], by rw [htext (List.cons_ne_nil _ _), joinWith, List.append_nil]⟩
      | cons next others =>
        refine ⟨'\n' :: joinWith '\n' (next :: others), ?_⟩
        rw [htext (List.cons_ne_nil _ _), List.append_assoc]
        rfl
    rcases hfinding with hhere | hlater
    · split at hhere
      · cases hhere
      · obtain ⟨rule, hrule, hmatch⟩ := List.mem_filterMap.mp hhere
        obtain ⟨found, -, rfl⟩ := map_eq_some_iff.mp hmatch
        refine ⟨⟨front ++ found.before, found.found, found.after ++ back, ?_, ?_, ?_, ?_⟩,
          isCommand_of_mem_all hrule⟩
        · rw [hback]
          have hwhole := congrArg (fun line => front ++ line ++ back) found.whole
          simpa using hwhole
        · exact (byteLen_append _ _).symm
        · exact congrArg (· + _) (byteLen_append _ _).symm
        · have hnone : found.before.count '\n' = 0 := List.count_eq_zero.mpr fun hmem => by
            refine hline ?_
            rw [found.whole, List.append_assoc]
            exact List.mem_append_left _ hmem
          rw [List.count_append, hnone]
    · have hcount : (front ++ line ++ ['\n']).count '\n' = front.count '\n' + 1 := by
        rw [List.count_append, List.count_append, List.count_eq_zero.mpr hline]
        rfl
      have hoffset : byteLen (front ++ line ++ ['\n']) = byteLen front + byteLen line + 1 := by
        rw [byteLen_append, byteLen_append]
        rfl
      rw [← hcount, ← hoffset] at hlater
      refine ih (fun other hother => hlines other (List.mem_cons_of_mem _ hother))
        (fun hrest => ?_) finding hlater
      obtain ⟨next, others, rfl⟩ := List.exists_cons_of_ne_nil hrest
      have hjoin : joinWith '\n' (line :: next :: others) =
          line ++ '\n' :: joinWith '\n' (next :: others) := rfl
      rw [htext (List.cons_ne_nil _ _), hjoin]
      simp

theorem placed_linesFinding (text : List Char) (bracketed : Bool) :
    ∀ finding ∈ linesFinding text bracketed, Placed text finding ∧
      (finding.kind = .multiline ∨ finding.kind = .runsAtOnce) := by
  have hwhole : ∀ kind severity detail,
      Placed text ⟨kind, severity, 0, byteLen text, 1, detail⟩ := fun _ _ _ =>
    ⟨[], text, [], by simp, rfl, (Nat.zero_add _).symm, rfl⟩
  intro finding hfinding
  rw [linesFinding] at hfinding
  split at hfinding
  · cases hfinding
  · dsimp only at hfinding
    split at hfinding
    · cases hfinding
    · split at hfinding
      · obtain rfl := List.mem_singleton.mp hfinding
        exact ⟨hwhole _ _ _, Or.inl rfl⟩
      · obtain rfl := List.mem_singleton.mp hfinding
        exact ⟨hwhole _ _ _, Or.inr rfl⟩

/-- The findings for single characters. -/
def Kind.isCharacter (kind : Kind) : Bool := [.control, .invisible, .bidi, .overwrite].contains kind

/-- What deserves a finding of its own: a carriage return in the middle of a line, other control
characters than tabs and line ends, and what reorders or hides the text. -/
def Suspect (c : Char) (back : List Char) : Prop :=
  (c = '\r' ∧ back ≠ [] ∧ back.head? ≠ some '\n') ∨
    (isControl c = true ∧ c ≠ '\n' ∧ c ≠ '\t' ∧ c ≠ '\r') ∨ bidi c = true ∨ invisible c = true

theorem classify_isSome_iff (c : Char) (back : List Char) :
    (classify c back).isSome = true ↔ Suspect c back := by
  by_cases hreturn : c = '\r'
  · subst hreturn
    have hbidi : bidi '\r' = false := by decide
    have hinvisible : invisible '\r' = false := by decide
    cases back with
    | nil => simp [classify, Suspect, hbidi, hinvisible]
    | cons next rest =>
      by_cases hnext : next = '\n' <;> simp [classify, Suspect, hbidi, hinvisible, hnext]
  · have hcontrol : c.toNat = 0x1B ∨ c.toNat = 0x7F → isControl c = true ∧ c ≠ '\n' ∧ c ≠ '\t' := by
      rintro (hcode | hcode)
      · exact ⟨by simp [isControl, hcode], (by rintro rfl; cases hcode),
          (by rintro rfl; cases hcode)⟩
      · exact ⟨by simp [isControl, hcode], (by rintro rfl; cases hcode),
          (by rintro rfl; cases hcode)⟩
    rw [classify.eq_def, if_neg hreturn, Suspect]
    by_cases hescape : c.toNat = 0x1B
    · simp [hescape, hcontrol (Or.inl hescape), hreturn]
    · rw [if_neg hescape]
      by_cases hother : (isControl c ∧ c ≠ '\n' ∧ c ≠ '\t') ∨ c.toNat = 0x7F
      · have hclass : isControl c = true ∧ c ≠ '\n' ∧ c ≠ '\t' :=
          hother.elim (fun h => h) fun h => hcontrol (Or.inr h)
        rw [if_pos hother]
        simp [hclass, hreturn]
      · have hplain : isControl c = true → ¬ c = '\n' → c = '\t' := fun hclass hnewline =>
          by_contra fun htab => hother (Or.inl ⟨hclass, hnewline, htab⟩)
        rw [if_neg hother]
        cases hbidi : bidi c with
        | true => simp
        | false =>
          cases hinvisible : invisible c with
          | true => simp
          | false => simpa [hreturn] using hplain

theorem isCharacter_of_classify {c : Char} {back : List Char} {found : Kind × Severity}
    (h : classify c back = some found) : found.1.isCharacter = true := by
  rw [classify.eq_def] at h
  split at h
  · split at h
    · cases h
    · split at h
      · cases h
      · obtain rfl := some.inj h
        rfl
  · repeat' split at h
    all_goals first | (obtain rfl := some.inj h; rfl) | cases h

theorem start_charactersFrom (text : List Char) {index : Nat} {rest : List Char} :
    ∀ finding ∈ charactersFrom text index rest, index ≤ finding.start ∧
      finding.kind.isCharacter = true := by
  induction rest generalizing index with
  | nil => exact fun _ h => absurd h List.not_mem_nil
  | cons c rest ih =>
    intro finding hfinding
    rw [charactersFrom, List.mem_append] at hfinding
    rcases hfinding with hhere | hlater
    · obtain ⟨found, hfound, rfl⟩ := map_eq_some_iff.mp (mem_toList.mp hhere)
      exact ⟨Nat.le_refl _, isCharacter_of_classify hfound⟩
    · obtain ⟨hle, hkind⟩ := ih finding hlater
      exact ⟨by omega, hkind⟩

/-- The finding for a character, if it deserves one. -/
def findingAt (front : List Char) (c : Char) (back : List Char) : List Finding :=
  ((classify c back).map fun found =>
    ⟨found.1, found.2, byteLen front, byteLen front + c.utf8Size, front.count '\n' + 1,
      code c⟩).toList

theorem filter_charactersFrom {text : List Char} (done front : List Char) (c : Char)
    (back : List Char) (htext : text = done ++ (front ++ c :: back)) :
    (charactersFrom text (byteLen done) (front ++ c :: back)).filter
        (fun finding => finding.start == byteLen (done ++ front)) =
      findingAt (done ++ front) c back := by
  induction front generalizing done with
  | nil =>
    have hline : lineOf text (byteLen done) = done.count '\n' + 1 := by
      rw [htext]
      exact lineOf_append done _
    have hlater : (charactersFrom text (byteLen done + c.utf8Size) back).filter
        (fun finding => finding.start == byteLen done) = [] := by
      rw [List.filter_eq_nil_iff]
      intro finding hfinding
      have hstart := (start_charactersFrom text finding hfinding).1
      have hsize := c.utf8Size_pos
      simp only [beq_iff_eq]
      omega
    rw [List.nil_append, charactersFrom, List.filter_append, List.append_nil, hlater,
      List.append_nil, findingAt, hline]
    cases classify c back with
    | none => rfl
    | some found => simp
  | cons d front ih =>
    have hhere : ((classify d (front ++ c :: back)).map fun found =>
          (⟨found.1, found.2, byteLen done, byteLen done + d.utf8Size,
            lineOf text (byteLen done), code d⟩ : Finding)).toList.filter
        (fun finding => finding.start == byteLen (done ++ d :: front)) = [] := by
      rw [List.filter_eq_nil_iff]
      intro finding hfinding
      obtain ⟨found, -, rfl⟩ := map_eq_some_iff.mp (mem_toList.mp hfinding)
      have hsize := d.utf8Size_pos
      simp only [byteLen_append, byteLen_cons, beq_iff_eq]
      omega
    have hdone : byteLen done + d.utf8Size = byteLen (done ++ [d]) := by simp
    have hrest := ih (done ++ [d]) (by simp [htext])
    rw [List.append_assoc, List.singleton_append] at hrest
    rw [List.cons_append, charactersFrom, List.filter_append, hhere, List.nil_append, hdone, hrest]

section

variable (rules : Rules) (alphanumeric : Char → Bool) (text : List Char) (bracketed : Bool)

theorem placed_unsorted : ∀ finding ∈ unsorted rules alphanumeric text bracketed,
    Placed text finding := by
  intro finding hfinding
  simp only [unsorted, List.mem_append] at hfinding
  rcases hfinding with ((hchar | hword) | hcommand) | hlines
  · exact @placed_charactersFrom text [] text rfl finding hchar
  · exact (@placed_homoglyphsFrom alphanumeric text [] [] text rfl none (Or.inr ⟨rfl, rfl⟩)
      finding hword).1
  · refine (@placed_commandsFrom rules text [] _ (fun line hline =>
      Target.notMem_of_mem_splitOn hline) (fun _ => ?_) finding hcommand).1
    exact (Snippets.joinWith_splitOn '\n' text).symm
  · exact (placed_linesFinding text bracketed finding hlines).1

/-- Only one of the passes looks at single characters. -/
theorem filter_unsorted (start : Nat) :
    (unsorted rules alphanumeric text bracketed).filter
        (fun finding => finding.kind.isCharacter && finding.start == start) =
      (charactersFrom text 0 text).filter fun finding => finding.start == start := by
  have hnone : ∀ findings : List Finding, (∀ finding ∈ findings,
      finding.kind.isCharacter = false) → findings.filter
        (fun finding => finding.kind.isCharacter && finding.start == start) = [] := by
    intro findings hfindings
    rw [List.filter_eq_nil_iff]
    intro finding hfinding
    simp [hfindings finding hfinding]
  have hwords := hnone (homoglyphsFrom alphanumeric text none 0 text) fun finding hfinding => by
    rw [(@placed_homoglyphsFrom alphanumeric text [] [] text rfl none (Or.inr ⟨rfl, rfl⟩)
      finding hfinding).2]
    rfl
  have hcommands := hnone (commandsFrom rules 0 0 (splitOn '\n' text)) fun finding hfinding => by
    have hkind := (@placed_commandsFrom rules text [] _ (fun line hline =>
      Target.notMem_of_mem_splitOn hline)
        (fun _ => (Snippets.joinWith_splitOn '\n' text).symm) finding hfinding).2
    revert hkind
    cases finding.kind <;> decide
  have hlines := hnone (linesFinding text bracketed) fun finding hfinding => by
    rcases (placed_linesFinding text bracketed finding hfinding).2 with hkind | hkind <;>
      rw [hkind] <;> rfl
  rw [unsorted, List.filter_append, List.filter_append, List.filter_append, hwords, hcommands,
    hlines, List.append_nil, List.append_nil, List.append_nil]
  refine List.filter_congr fun finding hfinding => ?_
  rw [(start_charactersFrom text finding hfinding).2, Bool.true_and]

theorem before_trans (first second third : Finding) (h : before first second = true)
    (h' : before second third = true) : before first third = true := by
  simp only [before, Bool.or_eq_true, Bool.and_eq_true, decide_eq_true_eq, beq_iff_eq] at *
  omega

theorem before_total (first second : Finding) :
    (before first second || before second first) = true := by
  simp only [before, Bool.or_eq_true, Bool.and_eq_true, decide_eq_true_eq, beq_iff_eq]
  omega

theorem utf16_append (front back : List Char) :
    utf16 (front ++ back) = utf16 front ++ utf16 back := List.flatMap_append

theorem utf16Range_append (front part back : List Char) :
    utf16Range (front ++ part ++ back) (byteLen front) (byteLen front + byteLen part) =
      ((utf16 front).length, (utf16 front).length + (utf16 part).length) := by
  have hoffset : ∀ before after : List Char,
      ((sliceTo (before ++ after) (min (byteLen before) (byteLen (before ++ after)))).map
        fun front => (utf16 front).length).getD 0 = (utf16 before).length := by
    intro before after
    rw [Nat.min_eq_left (by rw [byteLen_append]; exact Nat.le_add_right _ _), sliceTo_append]
    rfl
  have hfirst := hoffset front (part ++ back)
  have hsecond := hoffset (front ++ part) back
  rw [← List.append_assoc] at hfirst
  rw [utf16_append, List.length_append, byteLen_append] at hsecond
  exact Prod.ext hfirst hsecond

/-- Each character that deserves it has one finding of its own, with its bytes; every finding
lies in the text between characters, on the line it names, and its range in UTF-16 holds the
same characters. Findings come in the order of the text. -/
theorem analyze_misses_nothing :
    (∀ front c back, text = front ++ c :: back →
      (analyze rules alphanumeric text bracketed).filter
          (fun finding => finding.kind.isCharacter && finding.start == byteLen front) =
        findingAt front c back ∧
      (findingAt front c back ≠ [] ↔ Suspect c back)) ∧
    (∀ finding ∈ analyze rules alphanumeric text bracketed, ∃ front part back,
      text = front ++ part ++ back ∧ finding.start = byteLen front ∧
      finding.stop = byteLen front + byteLen part ∧ finding.line = front.count '\n' + 1 ∧
      ((utf16 text).drop (utf16Range text finding.start finding.stop).1).take
          ((utf16Range text finding.start finding.stop).2 -
            (utf16Range text finding.start finding.stop).1) = utf16 part) ∧
    (analyze rules alphanumeric text bracketed).Pairwise fun first second =>
      before first second = true := by
  refine ⟨fun front c back htext => ⟨?_, ?_⟩, fun finding hfinding => ?_, ?_⟩
  · have hperm := (List.mergeSort_perm (unsorted rules alphanumeric text bracketed) before).filter
      fun finding => finding.kind.isCharacter && finding.start == byteLen front
    have hone : (charactersFrom text 0 text).filter
        (fun finding => finding.start == byteLen front) = findingAt front c back := by
      have hchar := filter_charactersFrom [] front c back htext
      rwa [← htext] at hchar
    rw [filter_unsorted, hone] at hperm
    rw [analyze]
    revert hperm
    rw [findingAt]
    cases classify c back with
    | none => exact List.Perm.eq_nil
    | some found => exact List.perm_singleton.mp
  · rw [← classify_isSome_iff, findingAt]
    cases classify c back <;> simp
  · obtain ⟨front, part, back, htext, hstart, hstop, hline⟩ :=
      placed_unsorted rules alphanumeric text bracketed finding
        ((List.mergeSort_perm _ before).mem_iff.mp hfinding)
    refine ⟨front, part, back, htext, hstart, hstop, hline, ?_⟩
    rw [hstart, hstop, htext, utf16Range_append, Nat.add_sub_cancel_left, utf16_append,
      utf16_append, List.append_assoc, List.drop_left, List.take_left]
  · exact List.pairwise_mergeSort before_trans before_total _

end

namespace Witness

/-- A library without patterns. -/
def noRules : Rules := ⟨[], [], fun _ => none, [], []⟩

/-- A bell and a line end. -/
def bell : List Char := [Char.ofNat 7, '\n']

/-- The finding for the whole text covers the bell as well as its own. -/
theorem bell_covered_twice :
    ¬ ((analyze noRules (fun _ => false) bell false).filter fun finding =>
      finding.start ≤ 0 && 1 ≤ finding.stop).length = 1 := by
  have hperm := (List.mergeSort_perm (unsorted noRules (fun _ => false) bell false) before).filter
    fun finding => finding.start ≤ 0 && 1 ≤ finding.stop
  rw [analyze, hperm.length_eq]
  decide

end Witness

end Opensesh.PasteCheck
