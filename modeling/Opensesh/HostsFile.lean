/-
The contents of `hosts.toml`: reading a text, with what `check` fixes in it,
and writing one.  The keys no function here looks at are carried as a table.
-/
import Opensesh.Saves
import Opensesh.Text

namespace Opensesh

/-- A group of hosts, possibly inside another group. -/
structure Group where
  id : String
  name : String
  parent : Option String
  rest : Document

/-- A saved host. -/
structure Host where
  id : String
  name : String
  address : String
  group : Option String
  port : Option Nat
  tags : List String
  rest : Document

/-- A file whose hosts are shown read-only. -/
structure Source where
  kind : String
  path : String
  extra : Document

structure HostsFile where
  groups : List Group
  hosts : List Host
  sources : List Source
  readOnly : Bool
  /-- Top-level keys this version doesn't know. -/
  extra : Document

/-- How entries are read from and written to TOML values, ids made, and letters
folded. -/
structure HostsFormat (τ : Type) where
  codec : Codec τ
  /-- Puts the file's header comment before a text. -/
  header : τ → τ
  readGroup : Value → Option Group
  writeGroup : Group → Document
  readHost : Value → Option Host
  writeHost : Host → Document
  readSource : Value → Option Source
  writeSource : Source → Document
  /-- The ids `new_id` makes, in order. -/
  newId : Nat → String
  lower : String → String

def schemaVersion : Int := 1

def maxIdLen : Nat := 200

/-- Ids of hosts read from a linked file start with this. -/
def linkedPrefix : String := "ssh_config:"

def Host.isLinked (host : Host) : Bool := linkedPrefix.toList.isPrefixOf host.id.toList

def trim (text : String) : String :=
  let front := text.toList.dropWhile isWhitespace
  String.ofList (front.reverse.dropWhile isWhitespace).reverse

def validHostId (id : String) : Bool :=
  trim id ≠ "" && id.utf8ByteSize ≤ maxIdLen && !id.toList.any isControl

/-- Tags trimmed, without empty or repeated ones. -/
def cleanTags (lower : String → String) (tags : List String) : List String :=
  (tags.foldl (fun (kept : List String × List String) tag =>
    let tag := trim tag
    if tag = "" ∨ lower tag ∈ kept.2 then kept
    else (kept.1 ++ [tag], lower tag :: kept.2)) ([], [])).1

/-- What the loops of `check` carry: the entries kept, the ids taken and the
number of ids made. -/
structure Checked (α : Type) where
  kept : List α
  ids : List String
  made : Nat

section Check

variable {τ : Type} (format : HostsFormat τ)

def checkGroup (state : Checked Group) (group : Group) : Checked Group :=
  let valid := validHostId group.id
  let id := if valid then group.id else format.newId state.made
  let made := if valid then state.made else state.made + 1
  if id ∈ state.ids then { state with made }
  else
    let name := trim group.name
    { kept := state.kept ++ [{ group with
        id
        name := if name = "" then "Group" else name }]
      ids := id :: state.ids
      made }

/-- Cuts references to unknown groups and to the group itself. -/
def knownParent (ids : List String) (group : Group) : Group :=
  match group.parent with
  | some parent =>
    if parent ∉ ids ∨ parent = group.id then { group with parent := none }
    else group
  | none => group

/-- The first group met twice on the way up from `current`. -/
def closesLoop (groups : List Group) : Nat → List String → Option String → Option String
  | 0, _, _ => none
  | _, _, none => none
  | steps + 1, seen, some id =>
    if id ∈ seen then some id
    else closesLoop groups steps (id :: seen)
      ((groups.find? fun group => group.id == id).bind Group.parent)

def cutLoop (groups : List Group) (index : Nat) : List Group :=
  match closesLoop groups (groups.length + 1) [] (groups[index]?.map Group.id) with
  | some id =>
    groups.map fun group =>
      if group.id = id then { group with parent := none } else group
  | none => groups

def checkHost (groupIds : List String) (state : Checked Host) (host : Host) : Checked Host :=
  let valid := validHostId host.id && !host.isLinked
  let id := if valid then host.id else format.newId state.made
  let made := if valid then state.made else state.made + 1
  if id ∈ state.ids then { state with made }
  else
    let address := trim host.address
    let name := trim host.name
    { kept := state.kept ++ [{ host with
        id
        address
        name := if name ≠ "" then name
          else if address = "" then "Host" else address
        group := host.group.filter fun group => group ∈ groupIds
        port := host.port.filter fun port => port ≠ 0
        tags := cleanTags format.lower host.tags }]
      ids := id :: state.ids
      made }

/-- Fixes what can be fixed: ids, names, references to unknown groups, group
cycles, ports and tags. -/
def HostsFile.check (file : HostsFile) : HostsFile :=
  let groups := file.groups.foldl (checkGroup format) ⟨[], [], 0⟩
  let groupIds := groups.kept.map Group.id
  let known := groups.kept.map (knownParent groupIds)
  let cut := (List.range known.length).foldl cutLoop known
  let hosts := file.hosts.foldl (checkHost format groupIds) ⟨[], groups.ids, groups.made⟩
  { file with groups := cut, hosts := hosts.kept }

end Check

/-- The entries of an array of tables, without those that cannot be read. -/
def entries {α : Type} (read : Value → Option α) (value : Option Value) : List α :=
  match value with
  | some (.array items) => items.filterMap read
  | _ => []

theorem wellFormed_insertEntry {table : Table} {key : String} {value : Value}
    (htable : (Value.table table).wellFormed = true) (hvalue : value.wellFormed = true) :
    (Value.table (insertEntry key value table)).wellFormed = true := by
  obtain ⟨hasc, hvalues⟩ := (wellFormed_table table).mp htable
  refine (wellFormed_table _).mpr ⟨ascending_insertEntry key value hasc, ?_⟩
  intro other found hmem
  rcases mem_insertEntry hmem with heq | hold
  · obtain ⟨rfl, rfl⟩ := Prod.mk.inj heq
    exact hvalue
  · exact hvalues other found hold

theorem wellFormed_removeEntry {table : Table} {key : String}
    (htable : (Value.table table).wellFormed = true) :
    (Value.table (removeEntry key table)).wellFormed = true := by
  obtain ⟨hasc, hvalues⟩ := (wellFormed_table table).mp htable
  refine (wellFormed_table _).mpr ⟨ascending_removeEntry key hasc, ?_⟩
  exact fun other found hmem => hvalues other found (List.mem_filter.mp hmem).1

namespace Document

def insert (d : Document) (key : String) (value : Value) (h : value.wellFormed = true) : Document :=
  ⟨insertEntry key value d.table, wellFormed_insertEntry d.wellFormed h⟩

def remove (d : Document) (key : String) : Document :=
  ⟨removeEntry key d.table, wellFormed_removeEntry d.wellFormed⟩

/-- An array of tables, left out when it is empty. -/
def insertArray (d : Document) (key : String) (items : List Document) : Document :=
  if items.isEmpty then d
  else d.insert key (.array (items.map fun item => .table item.table)) (by
    rw [wellFormed_array]
    intro value hvalue
    obtain ⟨item, -, rfl⟩ := List.mem_map.mp hvalue
    exact item.wellFormed)

theorem lookup_insertArray (d : Document) (key : String) {items : List Document}
    (hitems : items ≠ []) :
    (d.insertArray key items).table.lookup key =
      some (.array (items.map fun item => .table item.table)) := by
  have hsome : items.isEmpty = false := by simpa using hitems
  simp [insertArray, hsome, insert]

end Document

section Text

variable {τ : Type} (format : HostsFormat τ)

def HostsFile.fromTomlStr (text : τ) : Except String HostsFile := do
  let root ← format.codec.parse text
  let version := match root.table.lookup "schema_version" with
    | some (.integer version) => version
    | _ => schemaVersion
  let file : HostsFile :=
    { groups := entries format.readGroup (root.table.lookup "group")
      hosts := entries format.readHost (root.table.lookup "host")
      sources := entries format.readSource (root.table.lookup "source")
      readOnly := version > schemaVersion
      extra := (((root.remove "schema_version").remove "group").remove "host").remove "source" }
  pure (file.check format)

/-- The hosts a file saves: those not read from a linked file. -/
def HostsFile.saved (file : HostsFile) : List Host := file.hosts.filter fun host => !host.isLinked

/-- The file's root table: the version, sources, groups and hosts. -/
def HostsFile.toRoot (file : HostsFile) : Document :=
  (((file.extra.insert "schema_version" (.integer schemaVersion) rfl).insertArray
    "source" (file.sources.map format.writeSource)).insertArray
    "group" (file.groups.map format.writeGroup)).insertArray
    "host" (file.saved.map format.writeHost)

def HostsFile.toTomlString (file : HostsFile) : Except String τ :=
  (format.codec.print (file.toRoot format)).map format.header

end Text

end Opensesh
