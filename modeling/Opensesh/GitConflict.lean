/-
A text with Git's conflict marks and the two texts it stands for: the marks are followed line
by line, and whether there are any is looked for separately.
-/
import Opensesh.Text

namespace Opensesh.GitConflict

open List
open Text

inductive Part where
  | all
  | here
  | base
  | there

structure Sides where
  here : List Char
  there : List Char
  base : Option (List Char)
deriving DecidableEq

def openMark : List Char := "<<<<<<<".toList
def baseMark : List Char := "|||||||".toList
def middleMark : List Char := "=======".toList
def closeMark : List Char := ">>>>>>>".toList

/-- The lines of a text with their line ends, after what was read of the first one. -/
def splitInclusiveFrom (before : List Char) : List Char → List (List Char)
  | [] => if before = [] then [] else [before]
  | c :: rest =>
    if c = '\n' then (before ++ [c]) :: splitInclusiveFrom [] rest
    else splitInclusiveFrom (before ++ [c]) rest

def splitInclusive (text : List Char) : List (List Char) := splitInclusiveFrom [] text

/-- What was read so far. -/
structure Split where
  part : Part := .all
  here : List Char := []
  there : List Char := []
  base : List Char := []
  found : Bool := false
  hasBase : Bool := false

/-- A line that is no mark where it stands. -/
def Split.push (state : Split) (line : List Char) : Split :=
  match state.part with
  | .all =>
    { state with
      here := state.here ++ line
      there := state.there ++ line
      base := state.base ++ line }
  | .here => { state with here := state.here ++ line }
  | .base => { state with base := state.base ++ line }
  | .there => { state with there := state.there ++ line }

def Split.step (state : Split) (line : List Char) : Split :=
  match state.part with
  | .all =>
    if openMark.isPrefixOf line then { state with part := .here, found := true }
    else state.push line
  | .here =>
    if baseMark.isPrefixOf line then { state with part := .base, hasBase := true }
    else if middleMark.isPrefixOf line then { state with part := .there }
    else state.push line
  | .base =>
    if middleMark.isPrefixOf line then { state with part := .there } else state.push line
  | .there =>
    if closeMark.isPrefixOf line then { state with part := .all } else state.push line

def Split.sides (state : Split) : Option Sides :=
  if state.found then
    some ⟨state.here, state.there, if state.hasBase then some state.base else none⟩
  else none

def splitGitConflict (text : List Char) : Option Sides :=
  ((splitInclusive text).foldl Split.step {}).sides

/-- Looks through the lines for a mark that closes, after one that opens. -/
def hasMarkersFrom (opened : Bool) : List (List Char) → Bool
  | [] => false
  | line :: rest =>
    if openMark.isPrefixOf line then hasMarkersFrom true rest
    else if opened ∧ closeMark.isPrefixOf line then true
    else hasMarkersFrom opened rest

def hasGitMarkers (text : List Char) : Bool := hasMarkersFrom false (lines text)

/-- A line that looks like none of the marks. -/
def Own (line : List Char) : Prop :=
  openMark.isPrefixOf line = false ∧ baseMark.isPrefixOf line = false ∧
    middleMark.isPrefixOf line = false ∧ closeMark.isPrefixOf line = false

/-- A conflict as Git writes it, with the part it started from if Git was asked for it. -/
structure Hunk where
  opening : List Char
  here : List (List Char)
  base : Option (List Char × List (List Char))
  middle : List Char
  there : List (List Char)
  closing : List Char
  opens : openMark.isPrefixOf opening = true
  divides : ∀ mark lines, base = some (mark, lines) → baseMark.isPrefixOf mark = true
  parts : middleMark.isPrefixOf middle = true
  closes : closeMark.isPrefixOf closing = true
  ownHere : ∀ line ∈ here, Own line
  ownBase : ∀ mark lines, base = some (mark, lines) → ∀ line ∈ lines, Own line
  ownThere : ∀ line ∈ there, Own line

inductive Block where
  | common (line : List Char) (own : Own line)
  | conflict (hunk : Hunk)

/-- The lines of the part between the sides, with its mark. -/
def Hunk.baseLines (hunk : Hunk) : List (List Char) :=
  match hunk.base with
  | some (mark, lines) => mark :: lines
  | none => []

def Block.lines : Block → List (List Char)
  | .common line _ => [line]
  | .conflict hunk =>
    hunk.opening :: hunk.here ++ hunk.baseLines ++ hunk.middle :: hunk.there ++ [hunk.closing]

def Block.isHunk : Block → Bool
  | .common _ _ => false
  | .conflict _ => true

/-- Each line has its line end, at its end only; the last one may go without. -/
def AreLines : List (List Char) → Prop
  | [] => True
  | [last] => (last ≠ [] ∧ '\n' ∉ last) ∨ ∃ content, '\n' ∉ content ∧ last = content ++ ['\n']
  | line :: rest => (∃ content, '\n' ∉ content ∧ line = content ++ ['\n']) ∧ AreLines rest

/-- Common lines and conflicts, one after the other. -/
structure Document where
  blocks : List Block
  areLines : AreLines (blocks.flatMap Block.lines)

def Document.text (document : Document) : List Char := (document.blocks.flatMap Block.lines).flatten

/-- The choice of the first side of every conflict. -/
def Block.first : Block → List Char
  | .common line _ => line
  | .conflict hunk => hunk.here.flatten

def Block.second : Block → List Char
  | .common line _ => line
  | .conflict hunk => hunk.there.flatten

/-- What a block has in the text that both sides started from. -/
def Block.shared : Block → List Char
  | .common line _ => line
  | .conflict hunk => hunk.baseLines.tail.flatten

def Block.hasShared : Block → Bool
  | .common _ _ => false
  | .conflict hunk => hunk.base.isSome

theorem splitInclusiveFrom_line {content : List Char} (hcontent : '\n' ∉ content)
    (before rest : List Char) :
    splitInclusiveFrom before (content ++ '\n' :: rest) =
      (before ++ content ++ ['\n']) :: splitInclusive rest := by
  induction content generalizing before with
  | nil => rw [List.nil_append, splitInclusiveFrom, if_pos rfl, List.append_nil, splitInclusive]
  | cons c content ih =>
    rw [mem_cons, not_or] at hcontent
    rw [cons_append, splitInclusiveFrom, if_neg (Ne.symm hcontent.1), ih hcontent.2,
      List.append_assoc before, singleton_append]

theorem splitInclusiveFrom_last {content : List Char} (hcontent : '\n' ∉ content)
    (before : List Char) :
    splitInclusiveFrom before content =
      if before ++ content = [] then [] else [before ++ content] := by
  induction content generalizing before with
  | nil => rw [List.append_nil, splitInclusiveFrom]
  | cons c content ih =>
    rw [mem_cons, not_or] at hcontent
    rw [splitInclusiveFrom, if_neg (Ne.symm hcontent.1), ih hcontent.2, List.append_assoc,
      singleton_append]

theorem splitInclusive_line {content : List Char} (hcontent : '\n' ∉ content) (rest : List Char) :
    splitInclusive (content ++ ['\n'] ++ rest) = (content ++ ['\n']) :: splitInclusive rest := by
  rw [List.append_assoc, singleton_append]
  exact splitInclusiveFrom_line hcontent [] rest

theorem splitInclusive_flatten {lines : List (List Char)} (hlines : AreLines lines) :
    splitInclusive lines.flatten = lines := by
  induction lines with
  | nil => rfl
  | cons line rest ih =>
    have hwhole : ∀ content, '\n' ∉ content → line = content ++ ['\n'] → AreLines rest →
        splitInclusive (line :: rest).flatten = line :: rest := by
      rintro content hcontent rfl hrest
      rw [flatten_cons, splitInclusive_line hcontent, ih hrest]
    cases rest with
    | nil =>
      rcases hlines with ⟨hne, hlast⟩ | ⟨content, hcontent, heq⟩
      · rw [flatten_cons, flatten_nil, List.append_nil, splitInclusive,
          splitInclusiveFrom_last hlast, List.nil_append, if_neg hne]
      · exact hwhole content hcontent heq trivial
    | cons next others =>
      obtain ⟨⟨content, hcontent, heq⟩, hrest⟩ := hlines
      exact hwhole content hcontent heq hrest

theorem Split.step_own {line : List Char} (hline : Own line) (state : Split) :
    state.step line = state.push line := by
  obtain ⟨hopen, hbase, hmiddle, hclose⟩ := hline
  rw [Split.step]
  split <;> simp [hopen, hbase, hmiddle, hclose]

theorem Split.push_push (state : Split) (line more : List Char) :
    (state.push line).push more = state.push (line ++ more) := by
  cases hpart : state.part <;> simp [Split.push, hpart]

theorem Split.push_nil (state : Split) : state.push [] = state := by
  obtain ⟨part, here, there, base, found, hasBase⟩ := state
  cases part <;> simp [Split.push]

/-- Lines that are no marks all go where the first one goes. -/
theorem Split.own_lines {lines : List (List Char)} (hlines : ∀ line ∈ lines, Own line)
    (state : Split) : lines.foldl Split.step state = state.push lines.flatten := by
  induction lines generalizing state with
  | nil => exact state.push_nil.symm
  | cons line rest ih =>
    rw [foldl_cons, Split.step_own (hlines line mem_cons_self),
      ih (fun other hother => hlines other (mem_cons_of_mem _ hother)),
      Split.push_push, flatten_cons]

/-- What a block adds outside of the conflicts. -/
def Split.add (state : Split) (block : Block) : Split :=
  { state with
    here := state.here ++ block.first
    there := state.there ++ block.second
    base := state.base ++ block.shared
    found := state.found || block.isHunk
    hasBase := state.hasBase || block.hasShared }

theorem not_isPrefixOf_of_head {mark line : List Char} {c d : Char} {rest more : List Char}
    (hline : (c :: rest).isPrefixOf line = true) (hmark : mark = d :: more) (hne : d ≠ c) :
    mark.isPrefixOf line = false := by
  subst hmark
  cases line with
  | nil => cases hline
  | cons first others =>
    have hfirst : c = first := by
      rw [List.isPrefixOf_iff_prefix, cons_prefix_cons] at hline
      exact hline.1
    simp [List.isPrefixOf, hfirst ▸ hne]

theorem Split.hunk_lines (hunk : Hunk) {state : Split} (hpart : state.part = .all) :
    (Block.conflict hunk).lines.foldl Split.step state = state.add (.conflict hunk) := by
  obtain ⟨part, here, there, base, found, hasBase⟩ := state
  obtain rfl : part = .all := hpart
  have hopened : Split.step ⟨.all, here, there, base, found, hasBase⟩ hunk.opening =
      ⟨.here, here, there, base, true, hasBase⟩ := if_pos hunk.opens
  have hbase : hunk.baseLines.foldl Split.step
      ⟨.here, here ++ hunk.here.flatten, there, base, true, hasBase⟩ =
      ⟨if hunk.base.isSome then .base else .here, here ++ hunk.here.flatten, there,
        base ++ hunk.baseLines.tail.flatten, true, hasBase || hunk.base.isSome⟩ := by
    cases hcase : hunk.base with
    | none => simp [Hunk.baseLines, hcase]
    | some parts =>
      obtain ⟨mark, lines⟩ := parts
      have hmark : Split.step ⟨.here, here ++ hunk.here.flatten, there, base, true, hasBase⟩
          mark = ⟨.base, here ++ hunk.here.flatten, there, base, true, true⟩ :=
        if_pos (hunk.divides mark lines hcase)
      simp only [Hunk.baseLines, hcase, foldl_cons, hmark,
        Split.own_lines (hunk.ownBase mark lines hcase), Split.push]
      simp
  have hmiddle : Split.step ⟨if hunk.base.isSome then .base else .here,
        here ++ hunk.here.flatten, there, base ++ hunk.baseLines.tail.flatten, true,
        hasBase || hunk.base.isSome⟩ hunk.middle =
      ⟨.there, here ++ hunk.here.flatten, there, base ++ hunk.baseLines.tail.flatten, true,
        hasBase || hunk.base.isSome⟩ := by
    have hnobase : baseMark.isPrefixOf hunk.middle = false :=
      not_isPrefixOf_of_head hunk.parts rfl (by decide)
    cases hunk.base.isSome
    · simp [Split.step, hnobase, hunk.parts]
    · simp [Split.step, hunk.parts]
  have hclosed : Split.step ⟨.there, here ++ hunk.here.flatten, there ++ hunk.there.flatten,
        base ++ hunk.baseLines.tail.flatten, true, hasBase || hunk.base.isSome⟩ hunk.closing =
      ⟨.all, here ++ hunk.here.flatten, there ++ hunk.there.flatten,
        base ++ hunk.baseLines.tail.flatten, true, hasBase || hunk.base.isSome⟩ :=
    if_pos hunk.closes
  simp only [Block.lines, cons_append, foldl_cons, foldl_append, hopened,
    Split.own_lines hunk.ownHere, Split.push, hbase, hmiddle, Split.own_lines hunk.ownThere,
    hclosed, foldl_nil]
  simp [Split.add, Block.first, Block.second, Block.shared, Block.isHunk, Block.hasShared]

theorem Split.block_lines (block : Block) {state : Split} (hpart : state.part = .all) :
    block.lines.foldl Split.step state = state.add block := by
  cases block with
  | common line own =>
    rw [Block.lines, foldl_cons, Split.step_own own, foldl_nil]
    simp [Split.push, hpart, Split.add, Block.first, Block.second, Block.shared, Block.isHunk,
      Block.hasShared]
  | conflict hunk => exact Split.hunk_lines hunk hpart

theorem Split.blocks_lines (blocks : List Block) {state : Split} (hpart : state.part = .all) :
    (blocks.flatMap Block.lines).foldl Split.step state =
      { state with
        here := state.here ++ blocks.flatMap Block.first
        there := state.there ++ blocks.flatMap Block.second
        base := state.base ++ blocks.flatMap Block.shared
        found := state.found || blocks.any Block.isHunk
        hasBase := state.hasBase || blocks.any Block.hasShared } := by
  induction blocks generalizing state with
  | nil => simp
  | cons block rest ih =>
    rw [flatMap_cons, foldl_append, Split.block_lines block hpart, @ih (state.add block) hpart]
    simp [Split.add, Bool.or_assoc]

theorem split_document (document : Document) :
    splitGitConflict document.text =
      if document.blocks.any Block.isHunk then
        some ⟨document.blocks.flatMap Block.first, document.blocks.flatMap Block.second,
          if document.blocks.any Block.hasShared then some (document.blocks.flatMap Block.shared)
          else none⟩
      else none := by
  rw [splitGitConflict, Document.text, splitInclusive_flatten document.areLines,
    Split.blocks_lines document.blocks rfl]
  simp [Split.sides]

theorem isPrefixOf_concat {mark : List Char} {c : Char} (hmark : c ∉ mark) (line : List Char) :
    mark.isPrefixOf (line ++ [c]) = mark.isPrefixOf line := by
  rw [Bool.eq_iff_iff, List.isPrefixOf_iff_prefix, List.isPrefixOf_iff_prefix, prefix_concat_iff]
  constructor
  · rintro (rfl | hstart)
    · exact absurd (mem_append_right _ (mem_singleton_self c)) hmark
    · exact hstart
  · exact Or.inr

theorem isPrefixOf_stripReturn {mark : List Char} (hmark : '\r' ∉ mark) (line : List Char) :
    mark.isPrefixOf (stripReturn line) = mark.isPrefixOf line := by
  rw [stripReturn]
  split
  · rename_i hlast
    obtain ⟨front, rfl⟩ := List.getLast?_eq_some_iff.mp hlast
    rw [dropLast_concat, isPrefixOf_concat hmark]
  · rfl

/-- The marks are the same in lines with their line ends and without. -/
theorem hasMarkers_linesFrom (opened : Bool) (before text : List Char) :
    hasMarkersFrom opened (linesFrom before text) =
      hasMarkersFrom opened (splitInclusiveFrom before text) := by
  induction text generalizing opened before with
  | nil => rfl
  | cons c rest ih =>
    rw [linesFrom, splitInclusiveFrom]
    split
    · rename_i hnewline
      subst hnewline
      have hopen : openMark.isPrefixOf (stripReturn before) =
          openMark.isPrefixOf (before ++ ['\n']) := by
        rw [isPrefixOf_stripReturn (by decide), isPrefixOf_concat (by decide)]
      have hclose : closeMark.isPrefixOf (stripReturn before) =
          closeMark.isPrefixOf (before ++ ['\n']) := by
        rw [isPrefixOf_stripReturn (by decide), isPrefixOf_concat (by decide)]
      rw [hasMarkersFrom, hasMarkersFrom, hopen, hclose, ih, ih]
    · exact ih opened _

theorem hasGitMarkers_eq (text : List Char) :
    hasGitMarkers text = hasMarkersFrom false (splitInclusive text) :=
  hasMarkers_linesFrom false [] text

theorem hasMarkersFrom_skip {line : List Char} (hopen : openMark.isPrefixOf line = false)
    (hclose : closeMark.isPrefixOf line = false) (opened : Bool) (rest : List (List Char)) :
    hasMarkersFrom opened (line :: rest) = hasMarkersFrom opened rest := by
  simp [hasMarkersFrom, hopen, hclose]

theorem hasMarkersFrom_own {lines : List (List Char)} (hlines : ∀ line ∈ lines, Own line)
    (opened : Bool) (rest : List (List Char)) :
    hasMarkersFrom opened (lines ++ rest) = hasMarkersFrom opened rest := by
  induction lines with
  | nil => rfl
  | cons line lines ih =>
    obtain ⟨hopen, -, -, hclose⟩ := hlines line mem_cons_self
    rw [cons_append, hasMarkersFrom_skip hopen hclose,
      ih fun other hother => hlines other (mem_cons_of_mem _ hother)]

theorem hasMarkersFrom_base (hunk : Hunk) (opened : Bool) (rest : List (List Char)) :
    hasMarkersFrom opened (hunk.baseLines ++ rest) = hasMarkersFrom opened rest := by
  cases hcase : hunk.base with
  | none => rw [Hunk.baseLines, hcase, List.nil_append]
  | some parts =>
    obtain ⟨mark, lines⟩ := parts
    have hmark := hunk.divides mark lines hcase
    simp only [Hunk.baseLines, hcase]
    rw [cons_append, hasMarkersFrom_skip
      (not_isPrefixOf_of_head hmark rfl (by decide))
      (not_isPrefixOf_of_head hmark rfl (by decide)),
      hasMarkersFrom_own (hunk.ownBase mark lines hcase)]

theorem hasMarkersFrom_hunk (hunk : Hunk) (rest : List (List Char)) :
    hasMarkersFrom false ((Block.conflict hunk).lines ++ rest) = true := by
  have hclosing : openMark.isPrefixOf hunk.closing = false :=
    not_isPrefixOf_of_head hunk.closes rfl (by decide)
  simp only [Block.lines, cons_append, List.append_assoc]
  rw [hasMarkersFrom, if_pos hunk.opens, hasMarkersFrom_own hunk.ownHere, hasMarkersFrom_base,
    hasMarkersFrom_skip (not_isPrefixOf_of_head hunk.parts rfl (by decide))
      (not_isPrefixOf_of_head hunk.parts rfl (by decide)),
    hasMarkersFrom_own hunk.ownThere]
  simp [hasMarkersFrom, hclosing, hunk.closes]

/-- The marks are found where there is a conflict. -/
theorem hasGitMarkers_document (document : Document) :
    hasGitMarkers document.text = document.blocks.any Block.isHunk := by
  rw [hasGitMarkers_eq, Document.text, splitInclusive_flatten document.areLines]
  induction document.blocks with
  | nil => rfl
  | cons block rest ih =>
    rw [flatMap_cons, any_cons]
    cases block with
    | common line own =>
      rw [Block.lines, hasMarkersFrom_own fun other hother => ?_, ih]
      · rfl
      · obtain rfl := mem_singleton.mp hother
        exact own
    | conflict hunk =>
      rw [hasMarkersFrom_hunk]
      rfl

theorem exists_open_of_hasMarkersFrom {lines : List (List Char)}
    (h : hasMarkersFrom false lines = true) : ∃ line ∈ lines, openMark.isPrefixOf line = true := by
  induction lines with
  | nil => cases h
  | cons line rest ih =>
    by_cases hopen : openMark.isPrefixOf line = true
    · exact ⟨line, mem_cons_self, hopen⟩
    · rw [hasMarkersFrom, if_neg hopen, if_neg fun hboth => Bool.false_ne_true hboth.1] at h
      obtain ⟨other, hother, hmark⟩ := ih h
      exact ⟨other, mem_cons_of_mem _ hother, hmark⟩

theorem Split.found_step {state : Split} (h : state.found = true ∨ state.part = .all)
    (line : List Char) :
    ((state.step line).found = true ∨ (state.step line).part = .all) ∧
    ((state.step line).found = true ↔ state.found = true ∨ openMark.isPrefixOf line = true) := by
  obtain ⟨part, here, there, base, found, hasBase⟩ := state
  cases part with
  | all => by_cases hopen : openMark.isPrefixOf line = true <;> simp [Split.step, Split.push, hopen]
  | here =>
    obtain rfl : found = true := h.resolve_right Part.noConfusion
    by_cases hbase : baseMark.isPrefixOf line = true
    · simp [Split.step, hbase]
    · by_cases hmiddle : middleMark.isPrefixOf line = true <;>
        simp [Split.step, Split.push, hbase, hmiddle]
  | base =>
    obtain rfl : found = true := h.resolve_right Part.noConfusion
    by_cases hmiddle : middleMark.isPrefixOf line = true <;> simp [Split.step, Split.push, hmiddle]
  | there =>
    obtain rfl : found = true := h.resolve_right Part.noConfusion
    by_cases hclose : closeMark.isPrefixOf line = true <;> simp [Split.step, Split.push, hclose]

theorem Split.found_run {lines : List (List Char)} {state : Split}
    (h : state.found = true ∨ state.part = .all) :
    (lines.foldl Split.step state).found = true ↔
      state.found = true ∨ ∃ line ∈ lines, openMark.isPrefixOf line = true := by
  induction lines generalizing state with
  | nil => simp
  | cons line rest ih =>
    obtain ⟨hkept, hfound⟩ := Split.found_step h line
    rw [foldl_cons, ih hkept, hfound, or_assoc, exists_mem_cons_iff]

theorem splitGitConflict_eq_none_iff (text : List Char) :
    splitGitConflict text = none ↔
      ∀ line ∈ splitInclusive text, openMark.isPrefixOf line = false := by
  have hrun := @Split.found_run (splitInclusive text) {} (Or.inr rfl)
  rw [splitGitConflict, Split.sides]
  constructor
  · intro hnone line hline
    by_contra hopen
    rw [if_pos (hrun.mpr (Or.inr ⟨line, hline, Bool.of_not_eq_false hopen⟩))] at hnone
    cases hnone
  · intro hlines
    refine if_neg fun hfound => ?_
    rcases hrun.mp hfound with hstart | ⟨line, hline, hopen⟩
    · cases hstart
    · rw [hlines line hline] at hopen
      cases hopen

/-- Documents are split into the choices of their sides, and their marks are found. Any text
is split unless no line of it starts with the mark that opens a conflict, so that whatever is
found to have marks is split. -/
theorem split_git_conflict_sides :
    (∀ document : Document,
      splitGitConflict document.text =
        (if document.blocks.any Block.isHunk then
          some ⟨document.blocks.flatMap Block.first, document.blocks.flatMap Block.second,
            if document.blocks.any Block.hasShared then
              some (document.blocks.flatMap Block.shared)
            else none⟩
        else none) ∧
      hasGitMarkers document.text = document.blocks.any Block.isHunk) ∧
    ∀ text : List Char,
      (splitGitConflict text = none ↔
        ∀ line ∈ splitInclusive text, openMark.isPrefixOf line = false) ∧
      (hasGitMarkers text = true → splitGitConflict text ≠ none) := by
  refine ⟨fun document => ⟨split_document document, hasGitMarkers_document document⟩,
    fun text => ⟨splitGitConflict_eq_none_iff text, fun hmarkers hnone => ?_⟩⟩
  rw [hasGitMarkers_eq] at hmarkers
  obtain ⟨line, hline, hopen⟩ := exists_open_of_hasMarkersFrom hmarkers
  rw [(splitGitConflict_eq_none_iff text).mp hnone line hline] at hopen
  cases hopen

example : splitGitConflict
    "a = 1\n<<<<<<< HEAD\nb = 2\n||||||| base\nb = 1\n=======\nb = 3\n>>>>>>> main\nc = 4\n".toList =
      some ⟨"a = 1\nb = 2\nc = 4\n".toList, "a = 1\nb = 3\nc = 4\n".toList,
        some "a = 1\nb = 1\nc = 4\n".toList⟩ := by decide

namespace Witness

/-- A conflict without the marks that divide and close it. -/
def unfinished : List Char := "a = 1\n<<<<<<< HEAD\nb = 2\n".toList

theorem unfinished_split :
    splitGitConflict unfinished =
      some ⟨"a = 1\nb = 2\n".toList, "a = 1\n".toList, none⟩ := by decide

/-- A text that is no document with conflicts is split all the same. -/
theorem unfinished_is_split :
    (¬ ∃ document : Document, document.text = unfinished) ∧ splitGitConflict unfinished ≠ none := by
  have hsplit := unfinished_split
  refine ⟨fun ⟨document, hdocument⟩ => ?_, by rw [hsplit]; exact Option.some_ne_none _⟩
  have hmarkers : hasGitMarkers unfinished = false := by decide
  have hnone := split_document document
  rw [← hasGitMarkers_document document, hdocument, hmarkers, hsplit] at hnone
  cases hnone

end Witness

end Opensesh.GitConflict
