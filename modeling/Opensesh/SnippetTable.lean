/-
`snippets.toml`: snippets and macros, how they are written and read, and which of them read
back as they were written.
-/
import Opensesh.HostsTidy
import Opensesh.RecordFile
import Mathlib.Algebra.Group.Nat.Defs
import Mathlib.Algebra.Group.Int.Defs

namespace Opensesh.Snippets

open List
open Records

/-- One step of a macro. -/
inductive Step where
  | send (text : String)
  | delay (ms : UInt64)
  | waitFor (pattern : String) (timeoutMs : UInt64)

structure Snippet where
  id : String
  name : String
  folder : String := ""
  tags : List String := []
  description : String := ""
  shortcut : String := ""
  /-- The text, when it has no steps. -/
  text : String := ""
  steps : List Step := []
  extra : Table := []

def maxShort : Nat := 255

def maxText : Nat := 64 * 1024

def maxWaitMs : UInt64 := 600000

def defaultTimeoutMs : UInt64 := 10000

/-- Whether it is a macro. -/
def Snippet.isMacro (snippet : Snippet) : Bool := !snippet.steps.isEmpty

/-- Whether a short text is short, and has no control characters but new lines. -/
def shortText (text : String) : Bool :=
  text.length ≤ maxShort && !text.toList.any fun c => isControl c && c ≠ '\n'

/-- What is wrong with the step with a number; `regex` says why a pattern is not valid. -/
def Step.problem (regex : String → Option String) (number : Nat) : Step → Option String
  | .send text =>
    if text = "" ∨ maxText < text.utf8ByteSize then
      some ("step " ++ toString number ++ " has nothing to type, or too much")
    else none
  | .delay ms =>
    if ms = 0 ∨ maxWaitMs < ms then
      some ("step " ++ toString number ++ ": a pause of 1 ms to 10 minutes")
    else none
  | .waitFor pattern timeoutMs =>
    match regex pattern with
    | some error =>
      some ("step " ++ toString number ++ ": the pattern is not valid (" ++ error ++ ")")
    | none =>
      if pattern = "" then some ("step " ++ toString number ++ ": the pattern is empty")
      else if timeoutMs = 0 ∨ maxWaitMs < timeoutMs then
        some ("step " ++ toString number ++ ": a timeout of 1 ms to 10 minutes")
      else none

def stepsProblem (regex : String → Option String) : Nat → List Step → Option String
  | _, [] => none
  | number, step :: steps =>
    (step.problem regex number).or (stepsProblem regex (number + 1) steps)

/-- Why it can't be used, if it can't (the first problem found). -/
def Snippet.problem (regex : String → Option String) (snippet : Snippet) : Option String :=
  let tooLong what := what ++ " is too long or has control characters"
  if trim snippet.name = "" then some "a name is needed"
  else if !shortText snippet.name then some (tooLong "the name")
  else if !shortText snippet.folder then some (tooLong "the folder")
  else if !shortText snippet.description then some (tooLong "the description")
  else if !shortText snippet.shortcut then some (tooLong "the shortcut")
  else if !snippet.isMacro ∧ snippet.text = "" then some "there is nothing to type"
  else if maxText < snippet.text.utf8ByteSize then some "the text is too long"
  else stepsProblem regex 1 snippet.steps

/-- `/Ops//Web/ ` becomes `Ops/Web`. -/
def normalizeFolder (folder : String) : String :=
  String.ofList (Text.joinWith '/'
    (((Text.splitOn '/' folder.toList).map Text.trim).filter fun part => part ≠ []))

def place (index : Nat) (name : String) : String :=
  if name = "" then "snippet[" ++ toString index ++ "]"
  else "snippet[" ++ toString index ++ "]." ++ name

def readText (key : String) : Option Value → String × List Warning
  | none => ("", [])
  | some (.string value) => (value, [])
  | some other => ("", [⟨key, "expected a string, found " ++ typeStr other⟩])

/-- Tags trimmed, without empty ones. -/
def cleanTags (tags : List String) : List String := (tags.map trim).filter fun tag => tag ≠ ""

def readTags (key : String) : Option Value → List String × List Warning
  | none => ([], [])
  | some (.array values) => (cleanTags (values.filterMap Value.asStr), [])
  | some other => ([], [⟨key, "expected a list, found " ++ typeStr other⟩])

def millis (name : String) : Option Value → Except String (Option UInt64)
  | none => .ok none
  | some (.integer ms) =>
    if 0 ≤ ms ∧ ms < 2 ^ 64 then .ok (some (UInt64.ofNat ms.toNat))
    else .error (name ++ " can't be negative")
  | some other => .error (name ++ ": expected a number, found " ++ typeStr other)

def stepFrom : Value → Except String Step
  | .table table =>
    match table.lookup "send" with
    | some (.string text) => .ok (.send text)
    | some other => .error ("send: expected a string, found " ++ typeStr other)
    | none =>
      match table.lookup "wait_for" with
      | some (.string pattern) => do
        let timeoutMs ← millis "timeout_ms" (table.lookup "timeout_ms")
        return .waitFor pattern (timeoutMs.getD defaultTimeoutMs)
      | some _ => .error "wait_for: expected a string"
      | none => do
        match ← millis "delay_ms" (table.lookup "delay_ms") with
        | some ms => return .delay ms
        | none => .error "a step has send, wait_for or delay_ms"
  | _ => .error "a step is a table"

/-- The steps from a number on, or what is wrong with the first that can't be read. -/
def stepsFrom (index : Nat) : Nat → List Value → Except Warning (List Step)
  | _, [] => .ok []
  | number, value :: values =>
    match stepFrom value with
    | .error message =>
      .error ⟨place index ("step[" ++ toString number ++ "]"), message ++ "; the snippet is skipped"⟩
    | .ok step => (stepsFrom index (number + 1) values).map (step :: ·)

def readSteps (index : Nat) : Option Value → Except Warning (List Step)
  | none => .ok []
  | some (.array values) => stepsFrom index 0 values
  | some other =>
    .error ⟨place index "step", "expected an array of tables, found " ++ typeStr other⟩

namespace Snippet

/-- The keys of a snippet. -/
def keys : List String :=
  ["id", "name", "folder", "tags", "description", "shortcut", "step", "text"]

/-- The fields of a table but the id and the steps. -/
def readFields (table : Table) (index : Nat) (id : String) : Snippet × List Warning :=
  let text name := readText (place index name) (table.lookup name)
  let tags := readTags (place index "tags") (table.lookup "tags")
  ({ id
     name := trim (text "name").1
     folder := normalizeFolder (text "folder").1
     tags := tags.1
     description := (text "description").1
     shortcut := trim (text "shortcut").1
     text := (text "text").1
     extra := unknown keys table },
    (text "name").2 ++ (text "folder").2 ++ (text "description").2 ++ (text "shortcut").2 ++
      (text "text").2 ++ tags.2)

/-- The snippet of a table, unless it can't be used. -/
def fromTable (regex : String → Option String) (table : Table) (index : Nat) :
    Option Snippet × List Warning :=
  let (idText, idWarnings) := readText (place index "id") (table.lookup "id")
  let id := trim idText
  if id = "" ∨ id.toList.any isControl then
    (none, idWarnings ++ [⟨place index "id", "missing or not valid; the snippet is skipped"⟩])
  else
    let (fields, warnings) := readFields table index id
    match readSteps index (table.lookup "step") with
    | .error warning => (none, idWarnings ++ warnings ++ [warning])
    | .ok steps =>
      let snippet := { fields with steps }
      match snippet.problem regex with
      | some problem => (none, idWarnings ++ warnings ++
          [⟨place index "", problem ++ "; the snippet is skipped"⟩])
      | none => (some snippet, idWarnings ++ warnings)

/-- A number of milliseconds as an integer of the file. -/
def millisValue (ms : UInt64) : Value := .integer (min ms.toNat (2 ^ 63 - 1))

def stepTable : Step → Table
  | .send text => [("send", .string text)]
  | .delay ms => [("delay_ms", millisValue ms)]
  | .waitFor pattern timeoutMs => [("timeout_ms", millisValue timeoutMs), ("wait_for", .string pattern)]

/-- A text that is left out when it is empty. -/
def filled (text : String) : Option Value := if text = "" then none else some (.string text)

/-- What a snippet writes. -/
def fields (snippet : Snippet) : List (String × Option Value) :=
  [("id", some (.string snippet.id)),
    ("name", some (.string snippet.name)),
    ("folder", filled snippet.folder),
    ("tags", if snippet.tags = [] then none else some (.array (snippet.tags.map .string))),
    ("description", filled snippet.description),
    ("shortcut", filled snippet.shortcut),
    ("step", if snippet.isMacro then
      some (.array (snippet.steps.map fun step => .table (stepTable step))) else none),
    ("text", if snippet.isMacro then none else some (.string snippet.text))]

/-- A snippet's table: the unknown keys it was read with, and its own. -/
def toTable (snippet : Snippet) : Table := putAll snippet.fields snippet.extra

end Snippet

/-- The snippets of the file. -/
def records (regex : String → Option String) : Records.Kind Snippet where
  name := "snippet"
  id := Snippet.id
  fromTable := Snippet.fromTable regex
  toTable := Snippet.toTable
  notTable _ := "expected a table"

theorem records_fromTable (regex : String → Option String) :
    (records regex).fromTable = Snippet.fromTable regex := by
  simp only [records]

theorem records_toTable (regex : String → Option String) :
    (records regex).toTable = Snippet.toTable := by
  simp only [records]

/-- The contents of `snippets.toml`. -/
structure SnippetsFile where
  snippets : List Snippet
  extra : Table := []
  readOnly : Bool := false
  distinct : (snippets.map (·.id)).Nodup

def snippetsFile : String := "snippets.toml"

namespace SnippetsFile

variable {τ : Type} (format : TextFormat τ) (regex : String → Option String)

/-- Reads a file's text; snippets that can't be used are skipped with a warning. -/
def fromTomlStr (text : τ) : SnippetsFile × List Warning :=
  match format.parse text with
  | .error error =>
    ({ snippets := [], readOnly := true, distinct := List.nodup_nil },
      [⟨snippetsFile, "not valid TOML: " ++ error⟩])
  | .ok root =>
    ({ snippets := ((records regex).load root).1
       extra := (records regex).others root
       readOnly := schemaVersion < version root
       distinct := (records regex).load_nodup root },
      ((records regex).load root).2)

/-- The file's text. -/
def toTomlString (file : SnippetsFile) : τ :=
  format.print ((records regex).toRoot file.snippets file.extra)

end SnippetsFile

/-- The same snippet: every field it uses, with the name, the folder and the tags as loading
tidies them. -/
structure Snippet.Same (snippet found : Snippet) : Prop where
  id : found.id = snippet.id
  name : found.name = trim snippet.name
  folder : found.folder = normalizeFolder snippet.folder
  tags : found.tags = cleanTags snippet.tags
  description : found.description = snippet.description
  shortcut : found.shortcut = snippet.shortcut
  text : snippet.isMacro = false → found.text = snippet.text
  steps : found.steps = snippet.steps
  extra : found.extra = snippet.extra

theorem joinWith_sublist (c : Char) (pieces : List (List Char)) :
    (Text.joinWith c ((pieces.map Text.trim).filter fun part => part ≠ [])).Sublist
      (Text.joinWith c pieces) := by
  induction pieces with
  | nil => exact List.Sublist.refl _
  | cons piece pieces ih =>
    have hpiece := Text.trim_sublist piece
    rw [map_cons, filter_cons]
    cases pieces with
    | nil =>
      split
      · exact hpiece
      · exact nil_sublist _
    | cons next pieces =>
      have hrest := ih.trans (sublist_append_right (piece ++ [c])
        (Text.joinWith c (next :: pieces)))
      rw [List.append_assoc] at hrest
      split
      · rcases hkept : ((next :: pieces).map Text.trim).filter fun part => part ≠ [] with
          _ | ⟨kept, others⟩
        · exact hpiece.trans (sublist_append_left _ _)
        · rw [hkept] at ih
          exact hpiece.append (ih.cons_cons c)
      · exact hrest

theorem joinWith_splitOn (c : Char) (text : List Char) :
    Text.joinWith c (Text.splitOn c text) = text := by
  induction text with
  | nil => rfl
  | cons d text ih =>
    rw [Text.splitOn]
    rcases hpieces : Text.splitOn c text with _ | ⟨piece, pieces⟩
    · rw [hpieces] at ih
      subst ih
      cases hpieces
    · rw [hpieces] at ih
      split
      case isTrue heq =>
        subst heq
        exact congrArg (d :: ·) ih
      case isFalse =>
        cases pieces with
        | nil => exact congrArg (d :: ·) ih
        | cons next pieces => exact congrArg (d :: ·) ih

theorem normalizeFolder_sublist (folder : String) :
    (normalizeFolder folder).toList.Sublist folder.toList := by
  have h := joinWith_sublist '/' (Text.splitOn '/' folder.toList)
  rw [joinWith_splitOn] at h
  rw [normalizeFolder, String.toList_ofList]
  exact h

theorem shortText_of_sublist {text part : String} (hsub : part.toList.Sublist text.toList)
    (h : shortText text = true) : shortText part = true := by
  simp only [shortText, Bool.and_eq_true, decide_eq_true_eq, Bool.not_eq_true', any_eq_false] at h ⊢
  exact ⟨Nat.le_trans hsub.length_le h.1, fun c hc => h.2 c (hsub.subset hc)⟩

theorem millis_millisValue (name : String) {ms : UInt64} (h : ¬ (ms = 0 ∨ maxWaitMs < ms)) :
    millis name (some (Snippet.millisValue ms)) = .ok (some ms) := by
  have hle : ms.toNat ≤ 600000 := UInt64.le_iff_toNat_le.mp (UInt64.not_lt.mp fun hlt => h (.inr hlt))
  have hvalue : Snippet.millisValue ms = .integer ms.toNat := by
    rw [Snippet.millisValue, Int.min_eq_left (by omega)]
  rw [hvalue, millis, if_pos ⟨Int.natCast_nonneg _, by omega⟩, Int.toNat_natCast,
    UInt64.ofNat_toNat]

variable {regex : String → Option String}

theorem stepFrom_stepTable {number : Nat} {step : Step} (h : step.problem regex number = none) :
    stepFrom (.table (Snippet.stepTable step)) = .ok step := by
  cases step with
  | send text => rfl
  | delay ms =>
    rw [Step.problem, ite_some_eq_none] at h
    have hmillis := millis_millisValue "delay_ms" h.1
    have hstep : stepFrom (.table (Snippet.stepTable (.delay ms))) = (do
        match ← millis "delay_ms" (some (Snippet.millisValue ms)) with
        | some ms => return .delay ms
        | none => .error "a step has send, wait_for or delay_ms") := rfl
    rw [hstep, hmillis]
    rfl
  | waitFor pattern timeoutMs =>
    have hmillis : millis "timeout_ms" (some (Snippet.millisValue timeoutMs)) = .ok (some timeoutMs) := by
      rw [Step.problem] at h
      cases hpattern : regex pattern with
      | some error =>
        rw [hpattern] at h
        cases h
      | none =>
        rw [hpattern] at h
        dsimp only at h
        rw [ite_some_eq_none, ite_some_eq_none] at h
        exact millis_millisValue _ h.2.1
    have hstep : stepFrom (.table (Snippet.stepTable (.waitFor pattern timeoutMs))) = (do
        let found ← millis "timeout_ms" (some (Snippet.millisValue timeoutMs))
        return .waitFor pattern (found.getD defaultTimeoutMs)) := rfl
    rw [hstep, hmillis]
    rfl

theorem stepsFrom_map {number : Nat} {steps : List Step}
    (h : stepsProblem regex number steps = none) (index first : Nat) :
    stepsFrom index first (steps.map fun step => .table (Snippet.stepTable step)) = .ok steps := by
  induction steps generalizing number first with
  | nil => rfl
  | cons step steps ih =>
    rw [stepsProblem, Option.or_eq_none_iff] at h
    rw [map_cons, stepsFrom, stepFrom_stepTable h.1]
    dsimp only
    rw [ih h.2]
    rfl

theorem readText_filled (key text : String) : readText key (Snippet.filled text) = (text, []) := by
  unfold Snippet.filled
  split
  case isTrue hempty =>
    subst hempty
    rfl
  case isFalse => rfl

namespace Snippet

variable {snippet : Snippet}

theorem unknown_fields (hunknown : Unknown keys snippet.extra) :
    Unknown (snippet.fields.map Prod.fst) snippet.extra := hunknown

theorem lookup_toTable (hunknown : Unknown keys snippet.extra) {key : String}
    (hkey : key ∈ keys) : snippet.toTable.lookup key = (snippet.fields.lookup key).join :=
  lookup_putAll (unknown_fields hunknown) hkey

theorem unknown_toTable (hunknown : Unknown keys snippet.extra) :
    unknown keys snippet.toTable = snippet.extra := unknown_putAll (unknown_fields hunknown)

theorem wellFormed_stepTable (step : Step) : (Value.table (stepTable step)).wellFormed = true := by
  cases step with
  | send text => rfl
  | delay ms => rfl
  | waitFor pattern timeoutMs =>
    rw [wellFormed_table]
    refine ⟨?_, fun key value hmem => ?_⟩
    · change ["timeout_ms", "wait_for"].Pairwise (· < ·)
      decide
    · rw [stepTable, mem_cons, mem_singleton] at hmem
      rcases hmem with hmem | hmem
      · obtain ⟨rfl, rfl⟩ := Prod.mk.inj hmem
        rfl
      · obtain ⟨rfl, rfl⟩ := Prod.mk.inj hmem
        rfl

theorem wellFormed_toTable (hunknown : Unknown keys snippet.extra) :
    (Value.table snippet.toTable).wellFormed = true := by
  refine wellFormed_putAll ?_ (unknown_fields hunknown)
  have hsteps : (Value.array (snippet.steps.map fun step => .table (stepTable step))).wellFormed =
      true := by
    rw [wellFormed_array]
    intro value hvalue
    obtain ⟨step, -, rfl⟩ := mem_map.mp hvalue
    exact wellFormed_stepTable step
  have htags : (Value.array (snippet.tags.map .string)).wellFormed = true := by
    rw [wellFormed_array]
    intro value hvalue
    obtain ⟨tag, -, rfl⟩ := mem_map.mp hvalue
    rfl
  have hstring : ∀ text, wellFormedOpt (some (.string text)) := fun _ =>
    (wellFormedOpt_some _).mpr rfl
  have hfilled : ∀ text, wellFormedOpt (filled text) := fun text =>
    wellFormedOpt_ite wellFormedOpt_none (hstring text)
  simp only [fields, forall_mem_cons]
  exact ⟨hstring _, hstring _, hfilled _,
    wellFormedOpt_ite wellFormedOpt_none ((wellFormedOpt_some _).mpr htags), hfilled _, hfilled _,
    wellFormedOpt_ite ((wellFormedOpt_some _).mpr hsteps) wellFormedOpt_none,
    wellFormedOpt_ite wellFormedOpt_none (hstring _), fun _ hmem => absurd hmem not_mem_nil⟩

/-- A written snippet, as it is read. -/
def back (snippet : Snippet) : Snippet :=
  { snippet with
    name := trim snippet.name
    folder := normalizeFolder snippet.folder
    tags := cleanTags snippet.tags
    shortcut := trim snippet.shortcut
    text := if snippet.isMacro then "" else snippet.text }

theorem readFields_toTable (hunknown : Unknown keys snippet.extra) (index : Nat) :
    readFields snippet.toTable index snippet.id = ({ snippet.back with steps := [] }, []) := by
  have hname : snippet.toTable.lookup "name" = some (.string snippet.name) :=
    lookup_toTable hunknown (by decide)
  have hfolder : snippet.toTable.lookup "folder" = filled snippet.folder :=
    lookup_toTable hunknown (by decide)
  have htags : snippet.toTable.lookup "tags" =
      if snippet.tags = [] then none else some (.array (snippet.tags.map .string)) :=
    lookup_toTable hunknown (by decide)
  have hdescription : snippet.toTable.lookup "description" = filled snippet.description :=
    lookup_toTable hunknown (by decide)
  have hshortcut : snippet.toTable.lookup "shortcut" = filled snippet.shortcut :=
    lookup_toTable hunknown (by decide)
  have htext : snippet.toTable.lookup "text" =
      if snippet.isMacro then none else some (.string snippet.text) :=
    lookup_toTable hunknown (by decide)
  have htagsRead : readTags (place index "tags")
      (if snippet.tags = [] then none else some (.array (snippet.tags.map .string))) =
      (cleanTags snippet.tags, []) := by
    split
    case isTrue hnone =>
      rw [hnone]
      rfl
    case isFalse =>
      have hstrings : (snippet.tags.map Value.string).filterMap Value.asStr = snippet.tags := by
        rw [filterMap_map]
        exact filterMap_some
      rw [readTags, hstrings]
  have htextRead : readText (place index "text")
      (if snippet.isMacro then none else some (.string snippet.text)) =
      (if snippet.isMacro then "" else snippet.text, []) := by
    split
    · rfl
    · rfl
  unfold readFields
  simp only [hname, hfolder, htags, hdescription, hshortcut, htext, readText_filled, htagsRead,
    htextRead, unknown_toTable hunknown]
  rfl

theorem readSteps_toTable (hunknown : Unknown keys snippet.extra)
    (hsteps : stepsProblem regex 1 snippet.steps = none) (index : Nat) :
    readSteps index (snippet.toTable.lookup "step") = .ok snippet.steps := by
  have hlookup : snippet.toTable.lookup "step" = if snippet.isMacro then
      some (.array (snippet.steps.map fun step => .table (stepTable step))) else none :=
    lookup_toTable hunknown (by decide)
  rw [hlookup]
  split
  case isTrue => exact stepsFrom_map hsteps index 0
  case isFalse htext =>
    have hnone : snippet.steps = [] := by simpa [isMacro] using htext
    rw [hnone]
    rfl

/-- What `problem` wants of a snippet. -/
structure Usable (regex : String → Option String) (snippet : Snippet) : Prop where
  named : ¬ trim snippet.name = ""
  name : shortText snippet.name = true
  folder : shortText snippet.folder = true
  description : shortText snippet.description = true
  shortcut : shortText snippet.shortcut = true
  text : ¬ ((!snippet.isMacro) = true ∧ snippet.text = "")
  textSize : ¬ maxText < snippet.text.utf8ByteSize
  steps : stepsProblem regex 1 snippet.steps = none

theorem problem_eq_none_iff : snippet.problem regex = none ↔ Usable regex snippet := by
  unfold problem
  simp only [ite_some_eq_none, Bool.not_eq_true', Bool.not_eq_false]
  constructor
  · rintro ⟨hnamed, hname, hfolder, hdescription, hshortcut, htext, hsize, hsteps⟩
    exact ⟨hnamed, hname, hfolder, hdescription, hshortcut, by simpa using htext, hsize, hsteps⟩
  · intro h
    exact ⟨h.named, h.name, h.folder, h.description, h.shortcut, by simpa using h.text,
      h.textSize, h.steps⟩

theorem Usable.back (h : Usable regex snippet) : Usable regex snippet.back := by
  have htrim : ∀ text : String, (trim text).toList.Sublist text.toList := by
    intro text
    rw [trim_eq, String.toList_ofList]
    exact Text.trim_sublist _
  have hkind : snippet.back.isMacro = snippet.isMacro := rfl
  refine ⟨?_, shortText_of_sublist (htrim _) h.name,
    shortText_of_sublist (normalizeFolder_sublist _) h.folder, h.description,
    shortText_of_sublist (htrim _) h.shortcut, ?_, ?_, h.steps⟩
  · change ¬ trim (trim snippet.name) = ""
    rw [trim_trim]
    exact h.named
  · rw [hkind]
    rintro ⟨htext, hempty⟩
    refine h.text ⟨htext, ?_⟩
    rw [Bool.not_eq_true'] at htext
    change (if snippet.isMacro then "" else snippet.text) = "" at hempty
    rw [htext] at hempty
    exact hempty
  · change ¬ maxText < (if snippet.isMacro then "" else snippet.text).utf8ByteSize
    split
    · decide
    · exact h.textSize

theorem same_back_iff : Same snippet snippet.back ↔ trim snippet.shortcut = snippet.shortcut := by
  constructor
  · exact fun h => h.shortcut
  · intro hshortcut
    refine ⟨rfl, rfl, rfl, rfl, rfl, hshortcut, fun htext => ?_, rfl, rfl⟩
    change (if snippet.isMacro then "" else snippet.text) = snippet.text
    rw [htext]
    rfl

theorem fromTable_eq {table : Table} {index : Nat} {id : String} {fields : Snippet}
    {steps : List Step} (hid : readText (place index "id") (table.lookup "id") = (id, []))
    (hvalid : ¬ (trim id = "" ∨ (trim id).toList.any isControl = true))
    (hfields : readFields table index (trim id) = (fields, []))
    (hsteps : readSteps index (table.lookup "step") = .ok steps)
    (hproblem : Snippet.problem regex { fields with steps } = none) :
    fromTable regex table index = (some { fields with steps }, []) := by
  unfold fromTable
  rw [hid]
  dsimp only
  rw [if_neg hvalid, hfields]
  dsimp only
  rw [hsteps]
  dsimp only
  rw [hproblem]
  rfl

/-- A snippet's table reads back without a warning, as the snippet when its shortcut has no
white space around it. -/
theorem fromTable_toTable_iff (hunknown : Unknown keys snippet.extra) (hid : GoodId snippet.id)
    (hproblem : snippet.problem regex = none) (index : Nat) :
    (∃ found, fromTable regex snippet.toTable index = (some found, []) ∧ Same snippet found) ↔
      trim snippet.shortcut = snippet.shortcut := by
  have husable := problem_eq_none_iff.mp hproblem
  have hidLookup : snippet.toTable.lookup "id" = some (.string snippet.id) :=
    lookup_toTable hunknown (by decide)
  have hread := fromTable_eq (congrArg (readText _) hidLookup)
    (by rw [hid.trimmed, hid.printable]; simpa using hid.ne)
    (by rw [hid.trimmed]; exact readFields_toTable hunknown index)
    (readSteps_toTable hunknown husable.steps index) (problem_eq_none_iff.mpr husable.back)
  rw [hread, ← same_back_iff]
  constructor
  · rintro ⟨found, hfound, hsame⟩
    obtain rfl := Option.some.inj (Prod.mk.inj hfound).1
    exact hsame
  · exact fun hsame => ⟨_, rfl, hsame⟩

theorem fromTable_warns (table : Table) (index : Nat)
    (h : (fromTable regex table index).1 = none) : (fromTable regex table index).2 ≠ [] := by
  have hcons : ∀ (before : List Warning) (last : Warning), before ++ [last] ≠ [] :=
    fun before last => append_ne_nil_of_right_ne_nil _ (cons_ne_nil _ _)
  unfold fromTable at h ⊢
  dsimp only at h ⊢
  split
  · exact hcons _ _
  · rename_i hvalid
    rw [if_neg hvalid] at h
    split
    · exact hcons _ _
    · rename_i steps hsteps
      rw [hsteps] at h
      dsimp only at h
      split
      · exact hcons _ _
      · rename_i hproblem
        rw [hproblem] at h
        cases h

end Snippet

namespace SnippetsFile

variable {τ : Type} (format : TextFormat τ) (regex : String → Option String)

/-- Snippets the editor accepts, with ids told apart. -/
structure Accepted (file : SnippetsFile) : Prop where
  ids : ∀ snippet ∈ file.snippets, GoodId snippet.id
  problem : ∀ snippet ∈ file.snippets, snippet.problem regex = none
  unknown : ∀ snippet ∈ file.snippets, Unknown Snippet.keys snippet.extra
  extra : (Value.table file.extra).wellFormed = true

/-- Loading what is saved gives the same snippets in the same order, without a warning. -/
def Survives (file : SnippetsFile) : Prop :=
  (fromTomlStr format regex (file.toTomlString format regex)).2 = [] ∧
    List.Forall₂ Snippet.Same file.snippets
      (fromTomlStr format regex (file.toTomlString format regex)).1.snippets

theorem fromTomlStr_ok {text : τ} {root : Table} (h : format.parse text = .ok root) :
    (fromTomlStr format regex text).2 = ((records regex).load root).2 ∧
      (fromTomlStr format regex text).1.snippets = ((records regex).load root).1 := by
  unfold fromTomlStr
  rw [h]
  exact ⟨rfl, rfl⟩

variable {format regex}

theorem reads_back_iff (hformat : format.Lawful) {file : SnippetsFile} (h : Accepted regex file) :
    Survives format regex file ↔
      ∀ snippet ∈ file.snippets, trim snippet.shortcut = snippet.shortcut := by
  have hwellFormed : (Value.table ((records regex).toRoot file.snippets file.extra)).wellFormed =
      true := by
    refine Kind.wellFormed_toRoot _ (fun snippet hsnippet => ?_) h.extra
    rw [records_toTable]
    exact Snippet.wellFormed_toTable (h.unknown snippet hsnippet)
  have hloaded := fromTomlStr_ok format regex (hformat _ hwellFormed)
  have hwarns : ∀ table index, ((records regex).fromTable table index).1 = none →
      ((records regex).fromTable table index).2 ≠ [] := by
    rw [records_fromTable]
    exact Snippet.fromTable_warns
  have hid : ∀ snippet found, Snippet.Same snippet found →
      (records regex).id found = (records regex).id snippet := fun _ _ hsame => hsame.id
  have hread : ∀ snippet ∈ file.snippets, ∀ index, (∃ found,
      (records regex).fromTable ((records regex).toTable snippet) index = (some found, []) ∧
        Snippet.Same snippet found) ↔ trim snippet.shortcut = snippet.shortcut := by
    intro snippet hsnippet index
    rw [records_fromTable, records_toTable]
    exact Snippet.fromTable_toTable_iff (h.unknown snippet hsnippet) (h.ids snippet hsnippet)
      (h.problem snippet hsnippet) index
  unfold Survives toTomlString
  rw [hloaded.1, hloaded.2]
  exact Kind.load_toRoot_iff hwarns hid file.distinct hread file.extra

end SnippetsFile

theorem Snippet.of_fromTable {regex : String → Option String} {table : Table} {index : Nat}
    {snippet : Snippet} (hwellFormed : (Value.table table).wellFormed = true)
    (h : (fromTable regex table index).1 = some snippet) :
    GoodId snippet.id ∧ snippet.problem regex = none ∧ Unknown keys snippet.extra ∧
      trim snippet.shortcut = snippet.shortcut := by
  rw [fromTable] at h
  generalize readText (place index "id") (table.lookup "id") = id at h
  dsimp only at h
  split at h
  · cases h
  · rename_i hvalid
    split at h
    · cases h
    · split at h
      · cases h
      · rename_i hproblem
        obtain rfl := Option.some.inj h
        rw [not_or, Bool.not_eq_true] at hvalid
        exact ⟨⟨hvalid.1, trim_trim _, hvalid.2⟩, hproblem, unknown_unknown hwellFormed keys,
          trim_trim _⟩

end Opensesh.Snippets
