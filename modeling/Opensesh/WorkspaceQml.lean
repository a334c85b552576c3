/-
The workspaces of the user interface: JSON with pane ids, which a file has as indexes, and the
way back with new ids.
-/
import Opensesh.WorkspaceReads

namespace Opensesh.Workspaces

open Layout (Axis PaneId)

/-- A JSON value; objects are sorted maps. -/
inductive Json where
  | null
  | boolean (value : Bool)
  | integer (value : Int)
  | float (value : F64)
  | string (text : String)
  | array (items : List Json)
  | object (entries : List (String × Json))

namespace Json

def get : Json → String → Option Json
  | .object entries, key => entries.lookup key
  | _, _ => none

def asObject : Json → Option (List (String × Json))
  | .object entries => some entries
  | _ => none

def asArray : Json → Option (List Json)
  | .array items => some items
  | _ => none

def asStr : Json → Option String
  | .string text => some text
  | _ => none

def asBool : Json → Option Bool
  | .boolean value => some value
  | _ => none

def asI64 : Json → Option Int
  | .integer value => if -2 ^ 63 ≤ value ∧ value < 2 ^ 63 then some value else none
  | _ => none

def asU64 : Json → Option Nat
  | .integer value => if 0 ≤ value ∧ value < 2 ^ 64 then some value.toNat else none
  | _ => none

mutual

def content : Json → Content
  | .null => .other
  | .boolean _ => .other
  | .integer value => .integer value
  | .float value => .float value
  | .string text => .text text
  | .array _ => .other
  | .object entries => .map (contents entries)

def contents : List (String × Json) → List (String × Content)
  | [] => []
  | (key, value) :: rest => (key, content value) :: contents rest

end

/-- The text under a key, empty when there is none. -/
def text (json : Json) (key : String) : String := ((json.get key).bind asStr).getD ""

/-- The pane id under a key. -/
def paneId (json : Json) (key : String) : Option Int :=
  (((json.get key).bind asI64)).filter fun id => -2 ^ 31 ≤ id ∧ id < 2 ^ 31

end Json

/-- The place of the last pane with an id. -/
def indexOf : List Int → Int → Option Nat
  | [], _ => none
  | other :: ids, id =>
    match indexOf ids id with
    | some index => some (index + 1)
    | none => if other = id then some 0 else none

def mapPanes (map : Int → Int) : Layout.Node F64 → Layout.Node F64
  | .pane id => .pane (map id)
  | .split axis ratio first second =>
    .split axis ratio (mapPanes map first) (mapPanes map second)

example : mapPanes (· + 1) (.pane 1) = .pane 2 := by simp [mapPanes]

def paneState (pane : Json) : PaneState :=
  ⟨if pane.text "kind" = "" then "local" else pane.text "kind", pane.text "host",
    pane.text "target", pane.text "profile", pane.text "directory"⟩

/-- The ids of the panes from an index on, and what runs in them. -/
def panesFromQml (index : Nat) : List Json → Except String (List Int × List PaneState)
  | [] => .ok ([], [])
  | pane :: panes =>
    match pane.paneId "id" with
    | none => .error "a pane without an id"
    | some id =>
      if index ≥ 2 ^ 31 then .error "out of range integral type conversion attempted"
      else (panesFromQml (index + 1) panes).map fun (ids, states) =>
        (id :: ids, paneState pane :: states)

def tabFromQml (tab : Json) : Except String TabState :=
  match (tab.get "panes").bind Json.asArray with
  | none => .error "expected panes"
  | some panes =>
    match panesFromQml 0 panes with
    | .error error => .error error
    | .ok (ids, states) =>
      match readNode ((tab.get "layout").getD .null).content with
      | none => .error "layout: data did not match any variant of untagged enum Node"
      | some node =>
        match fromNode node with
        | .error error => .error error
        | .ok layout =>
          if (layout.panes.any fun id => (indexOf ids id).isNone) = true then
            .error "the layout names a pane that isn't listed"
          else
            TabState.validate {
              title := tab.text "title"
              color := tab.text "color"
              pinned := ((tab.get "pinned").bind Json.asBool).getD false
              focused := ((tab.paneId "focused").bind (indexOf ids)).getD 0
              zoomed := (tab.paneId "zoomed").bind (indexOf ids)
              layout := mapPanes (fun id => ((indexOf ids id).map Int.ofNat).getD id) layout
              panes := states }

def tabsFromQml : List Json → Except String (List TabState)
  | [] => .ok []
  | tab :: tabs =>
    match tabFromQml tab with
    | .error error => .error error
    | .ok state => (tabsFromQml tabs).map (state :: ·)

def windowFromQml (window : Json) : Except String WindowState :=
  match (window.get "tabs").bind Json.asArray with
  | none => .error "expected tabs"
  | some tabs =>
    let currentTab := ((window.get "currentTab").bind Json.asU64).getD 0
    (tabsFromQml tabs).map fun states =>
      ⟨if currentTab ≥ states.length then 0 else currentTab, states⟩

/-- The windows that have tabs. -/
def windowsFromQml : List Json → Except String (List WindowState)
  | [] => .ok []
  | window :: windows =>
    match windowFromQml window with
    | .error error => .error error
    | .ok state => (windowsFromQml windows).map fun states =>
      if state.tabs.isEmpty then states else state :: states

/-- The QML format to the file format: pane ids become indexes. -/
def workspaceFromQml (json : Json) : Except String Workspace :=
  match json.asObject with
  | none => .error "expected an object"
  | some _ =>
    match (json.get "windows").bind Json.asArray with
    | none => .error "expected windows"
    | some windows => (windowsFromQml windows).map fun states =>
      ⟨schemaVersion, trim (json.text "name"), states⟩

/-- A number is written as one only when it is finite. -/
def ratioJson (ratio : F64) : Json := if ratio.isFinite then .float ratio else .null

def nodeJson : Layout.Node F64 → Json
  | .pane id => .object [("pane", .integer id)]
  | .split axis ratio first second =>
    .object [("first", nodeJson first), ("ratio", ratioJson ratio), ("second", nodeJson second),
      ("split", .string (axisName axis))]

def paneToQml (id : Int) (pane : PaneState) : Json :=
  .object [("directory", .string pane.directory), ("host", .string pane.host),
    ("id", .integer id), ("kind", .string pane.kind), ("profile", .string pane.profile),
    ("target", .string pane.target)]

/-- The id of a pane: the allocator's for its place, from `next` on. -/
def idOf (ids : Nat → Int) (next count index : Nat) : Int :=
  if index < count then ids (next + index) else 0

/-- The id of the pane a layout's leaf stands for. -/
def idAt (ids : Nat → Int) (next count : Nat) (index : Int) : Int :=
  if 0 ≤ index then idOf ids next count index.toNat else 0

/-- A tab with the ids from `next` on: its panes', then its own. -/
def tabToQml (ids : Nat → Int) (next : Nat) (tab : TabState) : Json :=
  let count := tab.panes.length
  let layout := match fromNode tab.layout with
    | .ok layout => nodeJson (mapPanes (idAt ids next count) layout)
    | .error _ => .null
  .object [("color", .string tab.color), ("focused", .integer (idOf ids next count tab.focused)),
    ("id", .integer (ids (next + count))), ("layout", layout),
    ("panes", .array (tab.panes.mapIdx fun index pane =>
      paneToQml (idOf ids next count index) pane)),
    ("pinned", .boolean tab.pinned), ("title", .string tab.title),
    ("zoomed", .integer ((tab.zoomed.map (idOf ids next count)).getD 0))]

def tabsToQml (ids : Nat → Int) (next : Nat) : List TabState → List Json × Nat
  | [] => ([], next)
  | tab :: tabs =>
    let (rest, after) := tabsToQml ids (next + tab.panes.length + 1) tabs
    (tabToQml ids next tab :: rest, after)

def windowsToQml (ids : Nat → Int) (next : Nat) : List WindowState → List Json
  | [] => []
  | window :: windows =>
    let (tabs, after) := tabsToQml ids next window.tabs
    .object [("currentTab", .integer window.currentTab), ("tabs", .array tabs)] ::
      windowsToQml ids after windows

/-- The file format to the QML format, with new ids. -/
def workspaceToQml (ids : Nat → Int) (workspace : Workspace) : Json :=
  .object [("name", .string workspace.name),
    ("windows", .array (windowsToQml ids 0 workspace.windows))]

/-- A pane as the user interface has it. -/
structure ShownPane where
  id : Int
  state : PaneState

/-- A tab as the user interface shows it: the focused pane is the first one where none that is
listed is named, and no pane is maximized where none that is listed is named. -/
structure ShownTab where
  title : String
  color : String
  pinned : Bool
  focused : Int
  zoomed : Option Int
  layout : Layout.Node F64
  panes : List ShownPane

structure ShownWindow where
  currentTab : Nat
  tabs : List ShownTab

structure Shown where
  name : String
  windows : List ShownWindow

def ShownTab.ids (tab : ShownTab) : List Int := tab.panes.map ShownPane.id

/-- The panes that a list of JSON values names. -/
def shownPanes : List Json → Option (List ShownPane)
  | [] => some []
  | pane :: panes => do
    let id ← pane.paneId "id"
    let others ← shownPanes panes
    some (⟨id, paneState pane⟩ :: others)

/-- The tab with the panes and the layout that were read. -/
def ShownTab.of (tab : Json) (panes : List ShownPane) (layout : Layout.Node F64) : ShownTab :=
  let ids := panes.map ShownPane.id
  { title := tab.text "title"
    color := tab.text "color"
    pinned := ((tab.get "pinned").bind Json.asBool).getD false
    focused := ((tab.paneId "focused").filter fun id => ids.contains id).getD (ids.headD 0)
    zoomed := (tab.paneId "zoomed").filter fun id => ids.contains id
    layout := fix layout
    panes := panes }

def shownTab (tab : Json) : Option ShownTab := do
  let panes ← (tab.get "panes").bind Json.asArray
  let panes ← shownPanes panes
  let layout ← readNode ((tab.get "layout").getD .null).content
  some (.of tab panes layout)

def shownTabs : List Json → Option (List ShownTab)
  | [] => some []
  | tab :: tabs => do
    let first ← shownTab tab
    let others ← shownTabs tabs
    some (first :: others)

/-- The first tab is shown where no tab is named. -/
def shownWindow (window : Json) : Option ShownWindow := do
  let tabs ← (window.get "tabs").bind Json.asArray
  let tabs ← shownTabs tabs
  let currentTab := ((window.get "currentTab").bind Json.asU64).getD 0
  some ⟨if currentTab < tabs.length then currentTab else 0, tabs⟩

def shownWindows : List Json → Option (List ShownWindow)
  | [] => some []
  | window :: windows => do
    let first ← shownWindow window
    let others ← shownWindows windows
    some (first :: others)

/-- What a JSON value shows. -/
def shownIn (json : Json) : Option Shown := do
  let windows ← (json.get "windows").bind Json.asArray
  let windows ← shownWindows windows
  some ⟨trim (json.text "name"), windows⟩

namespace ShownTab

/-- The same tab with other pane ids. -/
def rename (map : Int → Int) (tab : ShownTab) : ShownTab :=
  { tab with
    focused := map tab.focused
    zoomed := tab.zoomed.map map
    layout := mapPanes map tab.layout
    panes := tab.panes.map fun pane => { pane with id := map pane.id } }

/-- Two tabs that differ only in their pane ids. -/
def SameTab (tab other : ShownTab) : Prop :=
  ∃ map : Int → Int, (∀ id ∈ tab.ids, ∀ id' ∈ tab.ids, map id = map id' → id = id') ∧
    other = tab.rename map

end ShownTab

/-- Two windows that show the same tab of the same tabs. -/
def SameWindow (window other : ShownWindow) : Prop :=
  other.currentTab = window.currentTab ∧ List.Forall₂ ShownTab.SameTab window.tabs other.tabs

end Opensesh.Workspaces
