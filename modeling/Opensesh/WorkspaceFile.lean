/-
Saved workspaces: windows, their tabs with a split tree each and what runs in every pane, as
they are read from a file, checked, repaired and written.
-/
import Opensesh.Fields
import Opensesh.LayoutValid

namespace Opensesh

namespace F64

/-- Neither infinite nor not a number. -/
def isFinite (x : F64) : Bool := x.bits.toNat % 2 ^ 63 < 0x7FF * 2 ^ 52

def isNegative (x : F64) : Bool := 2 ^ 63 ≤ x.bits.toNat

/-- `m / 2 ^ k` to the nearest number, the even one of two. -/
def roundShift (m k : Nat) : Nat :=
  if 2 ^ k < 2 * (m % 2 ^ k) ∨ 2 * (m % 2 ^ k) = 2 ^ k ∧ m / 2 ^ k % 2 = 1 then m / 2 ^ k + 1
  else m / 2 ^ k

/-- A whole number as a float. -/
def ofInt (value : Int) : F64 :=
  if value = 0 then ⟨0⟩
  else
    let magnitude := value.natAbs
    let exponent := magnitude.log2
    let fraction := if exponent ≤ 52 then magnitude * 2 ^ (52 - exponent)
      else roundShift magnitude (exponent - 52)
    ⟨.ofNat 64 ((if value < 0 then 2 ^ 63 else 0) + (exponent + 1023) * 2 ^ 52 +
      (fraction - 2 ^ 52))⟩

end F64

namespace Workspaces

open Layout (Axis PaneId)
open Records (putAll)
open Fields (Form)

/-- Current layout of the workspace files. -/
def schemaVersion : Int := 1

/-- What runs in a pane. -/
structure PaneState where
  /-- `local` for a local terminal, `ssh` for a connection. -/
  kind : String
  /-- The saved host it is connected to (its id), if any. -/
  host : String
  /-- The quick-connect target, for a host that isn't saved. -/
  target : String
  /-- Terminal profile id; empty for the default one. -/
  profile : String
  /-- Working directory to start in; empty for home. -/
  directory : String
  deriving DecidableEq

structure TabState where
  title : String
  color : String
  pinned : Bool
  /-- Index of the focused pane in `panes`. -/
  focused : Nat
  /-- Index of the maximized pane, if any. -/
  zoomed : Option Nat
  /-- The split tree; its pane ids are indexes into `panes`. -/
  layout : Layout.Node F64
  panes : List PaneState
  deriving DecidableEq

structure WindowState where
  /-- Index of the tab shown. -/
  currentTab : Nat
  tabs : List TabState
  deriving DecidableEq

structure Workspace where
  schemaVersion : Int
  name : String
  /-- The first one is the main window. -/
  windows : List WindowState
  deriving DecidableEq

def minRatio : F64 := ⟨0x3FA999999999999A⟩

def maxRatio : F64 := ⟨0x3FEE666666666666⟩

/-- Positive floats are in the order of their bits. -/
def clampRatio (ratio : F64) : F64 :=
  if ratio.isFinite then
    if ratio.isNegative ∨ ratio.bits.toNat < minRatio.bits.toNat then minRatio
    else if maxRatio.bits.toNat < ratio.bits.toNat then maxRatio
    else ratio
  else ⟨0x3FE0000000000000⟩

/-- `fix` of `from_node`. -/
def fix : Layout.Node F64 → Layout.Node F64
  | .pane id => .pane id
  | .split axis ratio first second => .split axis (clampRatio ratio) (fix first) (fix second)

/-- The tree as `from_node` takes it. -/
def fromNode (root : Layout.Node F64) : Except String (Layout.Node F64) :=
  let panes := (fix root).panes
  if ((panes.insertionSort (· ≤ ·)).destutter (· ≠ ·)).length ≠ panes.length then
    .error "a pane appears twice in the layout"
  else .ok (fix root)

/-- The index as a pane id; the largest one when it does not fit. -/
def paneOf (index : Nat) : Int := min (index : Int) (2 ^ 31 - 1)

/-- A list as it is shown in messages. -/
def shown (panes : List PaneId) : String := "[" ++ ", ".intercalate (panes.map toString) ++ "]"

namespace TabState

/-- Checks the tab: every pane index of the layout exists and appears once, and every pane is
in the layout. Fixes what it can. -/
def validate (tab : TabState) : Except String TabState :=
  match fromNode tab.layout with
  | .error reason => .error reason
  | .ok layout =>
    let used := layout.panes.insertionSort (· ≤ ·)
    if used ≠ (List.range tab.panes.length).map paneOf then
      .error ("the layout's panes " ++ shown used ++ " don't match the " ++
        toString tab.panes.length ++ " pane(s) listed")
    else .ok { tab with
      layout := layout
      focused := if tab.focused ≥ tab.panes.length then 0 else tab.focused
      zoomed := tab.zoomed.filter fun zoomed => zoomed < tab.panes.length }

end TabState

/-- The tabs of window `w` that can be restored, from tab `t` on, and what is said of the
others. -/
def keepTabs (w t : Nat) : List TabState → List TabState × List String
  | [] => ([], [])
  | tab :: tabs =>
    let (kept, warnings) := keepTabs w (t + 1) tabs
    match tab.validate with
    | .ok tab => (tab :: kept, warnings)
    | .error reason =>
      (kept, ("window " ++ toString w ++ ", tab " ++ toString t ++ " skipped: " ++ reason) ::
        warnings)

/-- The windows, those without tabs among them. -/
def keepWindows (w : Nat) : List WindowState → List WindowState × List String
  | [] => ([], [])
  | window :: windows =>
    let (tabs, warnings) := keepTabs w 0 window.tabs
    let (kept, more) := keepWindows (w + 1) windows
    (⟨if window.currentTab ≥ tabs.length then 0 else window.currentTab, tabs⟩ :: kept,
      warnings ++ more)

/-- What is said of a file with a newer layout. -/
def newerWarning (version : Int) : List String :=
  if version > schemaVersion then
    ["written by a newer OpenSesh (schema " ++ toString version ++ "); some parts may be missing"]
  else []

/-- What is left of a workspace that was read. -/
def Workspace.restore (workspace : Workspace) : Workspace × List String :=
  let (windows, warnings) := keepWindows 0 workspace.windows
  ({ workspace with windows := windows.filter fun window => !window.tabs.isEmpty },
    newerWarning workspace.schemaVersion ++ warnings)

/-- What an untagged value is kept in while its variants are tried. -/
inductive Content where
  | integer (value : Int)
  | float (value : F64)
  | text (text : String)
  | map (entries : List (String × Content))
  | other

mutual

def ofValue : Value → Content
  | .string text => .text text
  | .integer value => .integer value
  | .float value => .float value
  | .table table => .map (ofEntries table)
  | .boolean _ => .other
  | .datetime _ => .other
  | .array _ => .other

def ofEntries : List (String × Value) → List (String × Content)
  | [] => []
  | (key, value) :: rest => (key, ofValue value) :: ofEntries rest

end

def readPane : Content → Option PaneId
  | .integer value => if -2 ^ 31 ≤ value ∧ value < 2 ^ 31 then some value else none
  | _ => none

def readRatio : Content → Option F64
  | .float value => some value
  | .integer value => some (F64.ofInt value)
  | _ => none

def axisName : Axis → String
  | .horizontal => "horizontal"
  | .vertical => "vertical"

def readAxis : Content → Option Axis
  | .text text => [Axis.horizontal, .vertical].find? fun axis => axisName axis = text
  | _ => none

mutual

/-- A leaf where that can be read, else a split; other keys are not looked at. -/
def readNode : Content → Option (Layout.Node F64)
  | .map entries =>
    match (entries.lookup "pane").bind readPane with
    | some id => some (.pane id)
    | none => do
      let axis ← (entries.lookup "split").bind readAxis
      let ratio ← (entries.lookup "ratio").bind readRatio
      let first ← ((readNodes entries).lookup "first").join
      let second ← ((readNodes entries).lookup "second").join
      some (.split axis ratio first second)
  | .integer _ => none
  | .float _ => none
  | .text _ => none
  | .other => none

def readNodes : List (String × Content) → List (String × Option (Layout.Node F64))
  | [] => []
  | (key, content) :: rest => (key, readNode content) :: readNodes rest

end

/-- The fields of a record: by their names, or in their order where it is written as an array.
A date has none of them. -/
def fieldsOf : Value → Option (String → Nat → Option Value)
  | .table table => some fun key _ => table.lookup key
  | .array items => some fun _ index => items[index]?
  | .datetime _ => some fun _ _ => none
  | _ => none

/-- A field's value, or the one an unset field has. -/
def readOr {α : Type} (read : Value → Option α) (unset : α) : Option Value → Option α
  | none => some unset
  | some value => read value

/-- TOML's integers have 64 bits. -/
def readIndex : Value → Option Nat
  | .integer value => if 0 ≤ value ∧ value < 2 ^ 63 then some value.toNat else none
  | _ => none

def readVersion : Value → Option Int
  | .integer value => if -2 ^ 63 ≤ value ∧ value < 2 ^ 63 then some value else none
  | _ => none

def readItems {α : Type} (read : Value → Option α) : List Value → Option (List α)
  | [] => some []
  | item :: items => do
    let first ← read item
    let others ← readItems read items
    some (first :: others)

def readList {α : Type} (read : Value → Option α) : Value → Option (List α)
  | .array items => readItems read items
  | _ => none

def PaneState.read (value : Value) : Option PaneState := do
  let field ← fieldsOf value
  let kind ← readOr Form.text.read "local" (field "kind" 0)
  let host ← readOr Form.text.read "" (field "host" 1)
  let target ← readOr Form.text.read "" (field "target" 2)
  let profile ← readOr Form.text.read "" (field "profile" 3)
  let directory ← readOr Form.text.read "" (field "directory" 4)
  some ⟨kind, host, target, profile, directory⟩

def TabState.read (value : Value) : Option TabState := do
  let field ← fieldsOf value
  let title ← readOr Form.text.read "" (field "title" 0)
  let color ← readOr Form.text.read "" (field "color" 1)
  let pinned ← readOr Form.flag.read false (field "pinned" 2)
  let focused ← readOr readIndex 0 (field "focused" 3)
  let zoomed ← readOr (fun value => (readIndex value).map some) none (field "zoomed" 4)
  let layout ← (field "layout" 5).bind fun value => readNode (ofValue value)
  let panes ← readOr (readList PaneState.read) [] (field "pane" 6)
  some ⟨title, color, pinned, focused, zoomed, layout, panes⟩

def WindowState.read (value : Value) : Option WindowState := do
  let field ← fieldsOf value
  let currentTab ← readOr readIndex 0 (field "current_tab" 0)
  let tabs ← readOr (readList TabState.read) [] (field "tab" 1)
  some ⟨currentTab, tabs⟩

def Workspace.read (value : Value) : Option Workspace := do
  let field ← fieldsOf value
  let version ← readOr readVersion Workspaces.schemaVersion (field "schema_version" 0)
  let name ← readOr Form.text.read "" (field "name" 1)
  let windows ← readOr (readList WindowState.read) [] (field "window" 2)
  some ⟨version, name, windows⟩

def writeNode : Layout.Node F64 → Value
  | .pane id => .table [("pane", .integer id)]
  | .split axis ratio first second =>
    .table [("first", writeNode first), ("ratio", .float ratio), ("second", writeNode second),
      ("split", .string (axisName axis))]

/-- A text that is left out when it is empty. -/
def writeText (text : String) : Option Value :=
  if text = "" then none else some (.string text)

def PaneState.fields (pane : PaneState) : List (String × Option Value) :=
  [("kind", some (.string pane.kind)), ("host", writeText pane.host),
    ("target", writeText pane.target), ("profile", writeText pane.profile),
    ("directory", writeText pane.directory)]

def PaneState.toTable (pane : PaneState) : Table := putAll pane.fields []

def TabState.fields (tab : TabState) : List (String × Option Value) :=
  [("title", writeText tab.title), ("color", writeText tab.color),
    ("pinned", if tab.pinned = true then some (.boolean true) else none),
    ("focused", some (.integer tab.focused)),
    ("zoomed", tab.zoomed.map fun zoomed : Nat => .integer zoomed),
    ("layout", some (writeNode tab.layout)),
    ("pane", some (.array (tab.panes.map fun pane => .table pane.toTable)))]

def TabState.toTable (tab : TabState) : Table := putAll tab.fields []

def WindowState.fields (window : WindowState) : List (String × Option Value) :=
  [("current_tab", some (.integer window.currentTab)),
    ("tab", some (.array (window.tabs.map fun tab => .table tab.toTable)))]

def WindowState.toTable (window : WindowState) : Table := putAll window.fields []

def Workspace.fields (workspace : Workspace) : List (String × Option Value) :=
  [("schema_version", some (.integer workspace.schemaVersion)),
    ("name", some (.string workspace.name)),
    ("window", some (.array (workspace.windows.map fun window => .table window.toTable)))]

def Workspace.toTable (workspace : Workspace) : Table := putAll workspace.fields []

/-- The library for texts, with the files' header, and what it says when a table does not have
the fields of a workspace. -/
structure TomlText (τ : Type) where
  parse : τ → Except String Table
  print : Table → Except String τ
  mismatch : Table → String

mutual

/-- What can be written: integers of 64 bits, floats that are numbers. -/
def writable : Value → Bool
  | .string _ => true
  | .integer value => -2 ^ 63 ≤ value ∧ value < 2 ^ 63
  | .float value => !value.isNan
  | .boolean _ => true
  | .datetime _ => false
  | .array items => writableItems items
  | .table table => writableEntries table

def writableItems : List Value → Bool
  | [] => true
  | item :: items => writable item && writableItems items

def writableEntries : List (String × Value) → Bool
  | [] => true
  | (_, value) :: rest => writable value && writableEntries rest

end

/-- What can be written is, and reads as it was. -/
def TomlText.Lawful {τ : Type} (toml : TomlText τ) : Prop :=
  ∀ table, (Value.table table).wellFormed = true → writable (.table table) = true →
    ∃ text, toml.print table = .ok text ∧ toml.parse text = .ok table

variable {τ : Type} (toml : TomlText τ)

/-- Parses a workspace file's text. Tabs that can't be restored are dropped with a warning;
windows left without tabs are dropped too. -/
def fromTomlStr (text : τ) : Except String (Workspace × List String) :=
  match toml.parse text with
  | .error message => .error message
  | .ok table =>
    match Workspace.read (.table table) with
    | none => .error (toml.mismatch table)
    | some workspace => .ok workspace.restore

def toTomlString (workspace : Workspace) : Except String τ := toml.print workspace.toTable

end Workspaces

end Opensesh
