/-
The text of a snippet: what its pieces stood as, how they are filled in, and which variables
it asks for.
-/
import Opensesh.Macro
import Opensesh.SnippetTable

namespace Opensesh.Snippets

open List
open Text
open Macro (parse parseFrom textPart placeholder)

variable {σ : Type}

/-- Puts a value for each variable and secret; the first one without a value is missing. -/
def renderParts (value : Macro.Part → StateM σ (Option (List Char))) (out : List Char) :
    List Macro.Part → StateM σ (Except Macro.Part (List Char))
  | [] => pure (.ok out)
  | .text plain :: rest => renderParts value (out ++ plain) rest
  | part :: rest => do
      match ← value part with
      | some filled => renderParts value (out ++ filled) rest
      | none => pure (.error part)

def render (text : List Char) (value : Macro.Part → StateM σ (Option (List Char))) :
    StateM σ (Except Macro.Part (List Char)) := renderParts value [] (parse text)

/-- Every text a snippet types: its text, or the text of its send steps. -/
def Snippet.texts (snippet : Snippet) : List (List Char) :=
  if snippet.isMacro then
    snippet.steps.filterMap fun step =>
      match step with
      | .send text => some text.toList
      | _ => none
  else [snippet.text.toList]

def addVariable (out : List (List Char)) : Macro.Part → List (List Char)
  | .named name => pushNew out name
  | _ => out

/-- The variables it asks for, each once, in order. -/
def Snippet.variables (snippet : Snippet) : List (List Char) :=
  snippet.texts.foldl (fun out text => (parse text).foldl addVariable out) []

/-- A placeholder of the text: two braces, what is inside, and two braces. -/
def braced (inside : List Char) : List Char := ['{', '{'] ++ inside ++ ['}', '}']

/-- A piece as it is written. -/
def written : Macro.Part → List Char
  | .text plain => plain
  | .named name => braced name
  | .secret reference => braced ("secret:".toList ++ reference)

/-- What a piece may have been read from: white space inside the braces does not count. -/
def Stands : Macro.Part → List Char → Prop
  | .text plain, source => source = plain
  | .named name, source => ∃ inside, source = braced inside ∧ Text.trim inside = name
  | .secret reference, source => ∃ inside kind after, source = braced inside ∧
      Text.trim inside = kind ++ ':' :: after ∧ Text.trim kind = "secret".toList ∧ Text.trim after = reference

theorem stands_placeholder {inside : List Char} {part : Macro.Part}
    (h : placeholder (Text.trim inside) = some part) : Stands part (braced inside) := by
  have hnamed : ∀ {part}, (if Text.trim inside ≠ [] ∧ '{' ∉ Text.trim inside ∧ '\n' ∉ Text.trim inside
      then some (Macro.Part.named (Text.trim inside)) else none) = some part →
      Stands part (braced inside) := by
    intro part hpart
    split at hpart
    · obtain rfl := Option.some.inj hpart
      exact ⟨inside, rfl, rfl⟩
    · cases hpart
  simp only [placeholder] at h
  split at h
  · rename_i kind after hsplit
    split at h
    · rename_i hsecret
      obtain rfl := Option.some.inj h
      exact ⟨inside, kind, after, rfl, (eq_append_of_splitOnce hsplit).1, hsecret.1, rfl⟩
    · exact hnamed h
  · exact hnamed h

theorem stands_textPart (plain : List Char) :
    ∃ sources, List.Forall₂ Stands (textPart plain) sources ∧ sources.flatten = plain := by
  rw [textPart]
  split
  · rename_i hempty
    exact ⟨[], .nil, hempty.symm⟩
  · exact ⟨[plain], .cons rfl .nil, List.append_nil plain⟩

/-- The pieces stand one after the other in the text. -/
theorem parseFrom_stands (plain rest : List Char) :
    ∃ sources, List.Forall₂ Stands (parseFrom plain rest) sources ∧
      sources.flatten = plain ++ rest := by
  fun_induction parseFrom plain rest with
  | case1 plain rest => exact stands_textPart _
  | case2 plain rest => exact stands_textPart _
  | case3 plain rest before after hopen inside more hclose part hpart ih =>
    obtain ⟨front, hfront, hplain⟩ := stands_textPart (plain ++ before)
    obtain ⟨back, hback, hmore⟩ := ih
    refine ⟨front ++ braced inside :: back,
      rel_append hfront (.cons (stands_placeholder hpart) hback), ?_⟩
    rw [flatten_append, hplain, flatten_cons, hmore, List.nil_append,
      Macro.eq_append_of_splitOnceText hopen, Macro.eq_append_of_splitOnceText hclose, braced]
    simp only [List.append_assoc]
  | case4 plain rest before after hopen inside more hclose hpart ih =>
    obtain ⟨sources, hsources, hflatten⟩ := ih
    refine ⟨sources, hsources, ?_⟩
    rw [hflatten, Macro.eq_append_of_splitOnceText hopen, Macro.eq_append_of_splitOnceText hclose]
    simp only [List.append_assoc]

/-- Nothing is written longer than it stood. -/
theorem length_written_le {part : Macro.Part} {source : List Char} (h : Stands part source) :
    (written part).length ≤ source.length := by
  cases part with
  | text plain =>
    obtain rfl : source = plain := h
    exact Nat.le_refl _
  | named name =>
    obtain ⟨inside, rfl, rfl⟩ := h
    have hlength := (Text.trim_sublist inside).length_le
    simp only [written, braced, length_append]
    omega
  | secret reference =>
    obtain ⟨inside, kind, after, rfl, hinside, hkind, rfl⟩ := h
    have hwhole := (Text.trim_sublist inside).length_le
    have hkindLength := (Text.trim_sublist kind).length_le
    have hafter := (Text.trim_sublist after).length_le
    rw [hinside, length_append, length_cons] at hwhole
    rw [hkind] at hkindLength
    have hsecret : "secret:".toList.length = "secret".toList.length + 1 := by decide
    simp only [written, braced, length_append, hsecret]
    omega

theorem flatMap_written_iff {parts : List Macro.Part} {sources : List (List Char)}
    (h : List.Forall₂ Stands parts sources) :
    parts.flatMap written = sources.flatten ↔ sources = parts.map written := by
  constructor
  · intro heq
    suffices hall : (parts.flatMap written).length ≤ sources.flatten.length ∧
        (parts.flatMap written = sources.flatten → sources = parts.map written) from hall.2 heq
    clear heq
    induction h with
    | nil => exact ⟨Nat.le_refl _, fun _ => rfl⟩
    | @cons part source parts sources hpart hrest ih =>
      obtain ⟨hle, hsame⟩ := ih
      have hfirst := length_written_le hpart
      rw [flatMap_cons, flatten_cons, length_append, length_append]
      refine ⟨Nat.add_le_add hfirst hle, fun heq => ?_⟩
      have hlength := congrArg List.length heq
      rw [length_append, length_append] at hlength
      obtain ⟨hhead, htail⟩ := append_inj heq (by omega)
      rw [map_cons, hhead, hsame htail]
  · rintro rfl
    rw [flatMap_def]

def isPlaceholder : Macro.Part → Bool
  | .text _ => false
  | _ => true

/-- Asks for a value once for each piece, in order, up to the first one without. -/
def ask (value : Macro.Part → StateM σ (Option (List Char))) :
    List Macro.Part → StateM σ (Except Macro.Part (List (List Char)))
  | [] => pure (.ok [])
  | part :: rest => do
      match ← value part with
      | some filled => return (← ask value rest).map (filled :: ·)
      | none => pure (.error part)

/-- The pieces with values in the place of the variables and secrets. -/
def fill : List Macro.Part → List (List Char) → List Char
  | [], _ => []
  | .text plain :: rest, values => plain ++ fill rest values
  | _ :: rest, value :: values => value ++ fill rest values
  | _ :: rest, [] => fill rest []

theorem renderParts_placeholder {part : Macro.Part} (hpart : isPlaceholder part = true)
    (value : Macro.Part → StateM σ (Option (List Char))) (out : List Char) (rest : List Macro.Part) :
    renderParts value out (part :: rest) =
      (value part >>= fun filled => match filled with
        | some filled => renderParts value (out ++ filled) rest
        | none => pure (.error part)) := by
  cases part with
  | text plain => cases hpart
  | named name => rfl
  | secret reference => rfl

theorem fill_placeholder {part : Macro.Part} (hpart : isPlaceholder part = true) (rest : List Macro.Part)
    (value : List Char) (values : List (List Char)) :
    fill (part :: rest) (value :: values) = value ++ fill rest values := by
  cases part with
  | text plain => cases hpart
  | named name => rfl
  | secret reference => rfl

theorem renderParts_eq (value : Macro.Part → StateM σ (Option (List Char))) (out : List Char)
    (parts : List Macro.Part) :
    renderParts value out parts =
      (ask value (parts.filter isPlaceholder) >>= fun answers =>
        pure (answers.map fun values => out ++ fill parts values)) := by
  induction parts generalizing out with
  | nil => simp [renderParts, ask, fill, Except.map]
  | cons part rest ih =>
    cases hpart : isPlaceholder part with
    | false =>
      obtain ⟨plain, rfl⟩ : ∃ plain, part = .text plain := by
        cases part with
        | text plain => exact ⟨plain, rfl⟩
        | named name => cases hpart
        | secret reference => cases hpart
      rw [renderParts, ih, filter_cons_of_neg (Bool.eq_false_iff.mp hpart)]
      simp only [fill, List.append_assoc]
    | true =>
      rw [renderParts_placeholder hpart, filter_cons_of_pos hpart, ask, bind_assoc]
      refine bind_congr fun answer => ?_
      cases answer with
      | none => simp [Except.map]
      | some filled =>
        simp only [ih, bind_assoc, pure_bind]
        refine bind_congr fun answers => ?_
        cases answers with
        | error missing => rfl
        | ok values =>
          simp only [Except.map, fill_placeholder hpart, List.append_assoc]

def namesOf (parts : List Macro.Part) : List (List Char) :=
  parts.filterMap fun part =>
    match part with
    | .named name => some name
    | _ => none

theorem foldl_addVariable (out : List (List Char)) (parts : List Macro.Part) :
    parts.foldl addVariable out = (namesOf parts).foldl pushNew out := by
  induction parts generalizing out with
  | nil => rfl
  | cons part rest ih => cases part <;> exact ih _

theorem variables_eq (snippet : Snippet) :
    snippet.variables = (snippet.texts.flatMap fun text => namesOf (parse text)).eraseDups := by
  have hrun : ∀ (texts : List (List Char)) (out : List (List Char)),
      texts.foldl (fun out text => (parse text).foldl addVariable out) out =
        (texts.flatMap fun text => namesOf (parse text)).foldl pushNew out := by
    intro texts
    induction texts with
    | nil => exact fun _ => rfl
    | cons text rest ih =>
      intro out
      rw [foldl_cons, ih, foldl_addVariable, flatMap_cons, foldl_append]
  rw [Snippet.variables, hrun, foldl_pushNew_nil]

/-- Each variable and secret with a value of its own. -/
def given (values : Macro.Part → List Char) : Macro.Part → StateM Unit (Option (List Char)) :=
  fun part => pure (some (values part))

/-- A text with the values in it. -/
def filledWith (values : Macro.Part → List Char) : List Macro.Part → List Char
  | [] => []
  | .text plain :: rest => plain ++ filledWith values rest
  | part :: rest => values part ++ filledWith values rest

theorem renderParts_given (values : Macro.Part → List Char) (out : List Char) (parts : List Macro.Part) :
    renderParts (given values) out parts = pure (.ok (out ++ filledWith values parts)) := by
  induction parts generalizing out with
  | nil => rw [renderParts, filledWith, List.append_nil]
  | cons part rest ih =>
    cases part with
    | text plain => rw [renderParts, ih, filledWith, List.append_assoc]
    | named name =>
      simp only [renderParts, given, pure_bind, filledWith]
      rw [← List.append_assoc]
      exact ih _
    | secret reference =>
      simp only [renderParts, given, pure_bind, filledWith]
      rw [← List.append_assoc]
      exact ih _

theorem filledWith_congr {values others : Macro.Part → List Char} {name : List Char}
    (hothers : ∀ part, part ≠ .named name → values part = others part) {parts : List Macro.Part}
    (hname : name ∉ namesOf parts) : filledWith values parts = filledWith others parts := by
  induction parts with
  | nil => rfl
  | cons part rest ih =>
    cases part with
    | text plain => rw [filledWith, filledWith, ih hname]
    | named other =>
      have hmem : name ∉ other :: namesOf rest := hname
      rw [mem_cons, not_or] at hmem
      have hne : Macro.Part.named other ≠ .named name := fun heq => hmem.1 (Macro.Part.named.inj heq).symm
      simp only [filledWith, hothers _ hne, ih hmem.2]
    | secret reference =>
      simp only [filledWith, hothers (.secret reference) Macro.Part.noConfusion, ih hname]

/-- One character for a variable and nothing for all the others. -/
def only (name : List Char) : Macro.Part → List Char :=
  fun part => if part = .named name then ['x'] else []

theorem length_filledWith_only {name : List Char} (parts : List Macro.Part) :
    (filledWith (fun _ => []) parts).length ≤ (filledWith (only name) parts).length ∧
      (name ∈ namesOf parts →
        (filledWith (fun _ => []) parts).length < (filledWith (only name) parts).length) := by
  induction parts with
  | nil => exact ⟨Nat.le_refl _, fun h => absurd h not_mem_nil⟩
  | cons part rest ih =>
    obtain ⟨hle, hlt⟩ := ih
    cases part with
    | text plain =>
      simp only [filledWith, length_append, Nat.add_le_add_iff_left, Nat.add_lt_add_iff_left]
      exact ⟨hle, hlt⟩
    | named other =>
      have hnames : namesOf (.named other :: rest) = other :: namesOf rest := rfl
      rw [hnames, mem_cons]
      simp only [filledWith, length_append, length_nil, only, Macro.Part.named.injEq]
      by_cases hother : other = name
      · rw [if_pos hother]
        exact ⟨by simp; omega, fun _ => by simp; omega⟩
      · rw [if_neg hother]
        refine ⟨by simpa using hle, fun hmem => ?_⟩
        have hrest := hlt (hmem.resolve_left fun heq => hother heq.symm)
        simpa using hrest
    | secret reference =>
      simp only [filledWith, length_append, length_nil, only, reduceCtorEq, if_false, Nat.zero_add]
      exact ⟨hle, hlt⟩

theorem mem_namesOf_iff (text name : List Char) :
    name ∈ namesOf (parse text) ↔
      ∃ values others : Macro.Part → List Char,
        (∀ part, part ≠ .named name → values part = others part) ∧
        render text (given values) ≠ render text (given others) := by
  constructor
  · intro hmem
    refine ⟨fun _ => [], only name, fun part hpart => (if_neg hpart).symm, fun heq => ?_⟩
    rw [render, render, renderParts_given, renderParts_given] at heq
    have hsame := Except.ok.inj (Prod.mk.inj (congrFun heq ())).1
    exact absurd (congrArg List.length hsame)
      (Nat.ne_of_lt ((length_filledWith_only (parse text)).2 hmem))
  · rintro ⟨values, others, hothers, hne⟩
    by_contra hname
    refine hne ?_
    rw [render, render, renderParts_given, renderParts_given, filledWith_congr hothers hname]

/-- The pieces of a text stand one after the other in it, and written out they are the text
exactly when no placeholder has white space around what it names. Filling in asks once for
each value and looks into none. The variables are those whose value makes a difference, each
once, as they come. -/
theorem parse_render_variables :
    (∀ text : List Char, ∃ sources, List.Forall₂ Stands (parse text) sources ∧
      sources.flatten = text ∧
      ((parse text).flatMap written = text ↔ sources = (parse text).map written)) ∧
    (∀ (σ : Type) (value : Macro.Part → StateM σ (Option (List Char))) (text : List Char),
      render text value = (ask value ((parse text).filter isPlaceholder) >>= fun answers =>
        pure (answers.map (fill (parse text))))) ∧
    ∀ snippet : Snippet,
      snippet.variables = (snippet.texts.flatMap fun text => namesOf (parse text)).eraseDups ∧
      snippet.variables.Nodup ∧
      ∀ name, name ∈ snippet.variables ↔ ∃ text ∈ snippet.texts,
        ∃ values others : Macro.Part → List Char,
          (∀ part, part ≠ .named name → values part = others part) ∧
          render text (given values) ≠ render text (given others) := by
  refine ⟨fun text => ?_, fun σ value text => ?_, fun snippet => ?_⟩
  · obtain ⟨sources, hsources, hflatten⟩ := parseFrom_stands [] text
    rw [List.nil_append] at hflatten
    have hwritten := flatMap_written_iff hsources
    rw [hflatten] at hwritten
    exact ⟨sources, hsources, hflatten, hwritten⟩
  · rw [render, renderParts_eq]
    simp only [List.nil_append]
  · refine ⟨variables_eq snippet, ?_, fun name => ?_⟩
    · rw [variables_eq, ← foldl_pushNew_nil]
      exact nodup_foldl_pushNew List.nodup_nil _
    · rw [variables_eq, List.mem_eraseDups, List.mem_flatMap]
      exact exists_congr fun text => and_congr_right fun _ => mem_namesOf_iff text name

namespace TextWitness

theorem parseFrom_nil : parseFrom [] [] = [] := by
  rw [parseFrom]
  split
  · rfl
  · rename_i hopen
    cases hopen

theorem parse_braced {inside : List Char} {part : Macro.Part} (hinside : '}' ∉ inside)
    (hpart : placeholder (Text.trim inside) = some part) : parse (braced inside) = [part] := by
  have hopen : splitOnceText ['{', '{'] (braced inside) = some ([], inside ++ ['}', '}']) :=
    @splitOnceText_append '{' [] not_mem_nil ['{'] (inside ++ ['}', '}'])
  have hclose : splitOnceText ['}', '}'] (inside ++ ['}', '}']) = some (inside, []) :=
    @splitOnceText_append '}' inside hinside ['}'] []
  rw [parse, parseFrom]
  split
  · rename_i hnone
    cases hopen.symm.trans hnone
  · rename_i before after hfirst
    obtain ⟨rfl, rfl⟩ := Prod.mk.inj (Option.some.inj (hopen.symm.trans hfirst))
    split
    · rename_i hnone
      cases hclose.symm.trans hnone
    · rename_i inside' more hsecond
      obtain ⟨rfl, rfl⟩ := Prod.mk.inj (Option.some.inj (hclose.symm.trans hsecond))
      simp only [hpart, parseFrom_nil]
      rfl

theorem parse_spaced : parse "{{ a }}".toList = [.named ['a']] :=
  @parse_braced " a ".toList _ (by decide) (by decide)

theorem parse_tight : parse "{{a}}".toList = [.named ['a']] :=
  @parse_braced "a".toList _ (by decide) (by decide)

/-- Two texts with the same pieces: however pieces are written, one of the texts is lost. -/
theorem spaces_are_lost :
    ¬ ∃ write : Macro.Part → List Char, ∀ text, (parse text).flatMap write = text := by
  rintro ⟨write, hwrite⟩
  have hspaced := hwrite "{{ a }}".toList
  rw [parse_spaced, ← parse_tight, hwrite] at hspaced
  exact absurd hspaced (by decide)

end TextWitness

end Opensesh.Snippets
