/-
The edits of the hosts library: saving, moving, duplicating and deleting hosts and groups,
as the editors and the list ask for them.
-/
import Opensesh.HostsTidy
import Opensesh.Machine

namespace Opensesh

/-- A field and what is wrong with it: `required`, `invalid` or `unknown`. -/
abbrev Problem := String × String

/-- What is done with the fields that are carried along: how the editor's values are
tidied, what is wrong with them, and which of them an edit keeps or sets. -/
structure HostsEditor where
  tidyHost : Document → Document
  tidyGroup : Document → Document
  hostProblems : HostsFile → Host → List Problem
  groupProblems : HostsFile → Group → List Problem
  /-- The new fields, with the old keys this version doesn't know when there are none. -/
  keepExtra : Document → Document → Document
  favorite : Document → Bool
  setFavorite : Bool → Document → Document

/-- Changes the first entry that meets a condition. -/
def updateFirst {α : Type} (p : α → Bool) (change : α → α) : List α → List α
  | [] => []
  | entry :: rest =>
    if p entry then change entry :: rest else entry :: updateFirst p change rest

/-- New hosts go before the linked ones. -/
def beforeLinked (hosts : List Host) : Nat := hosts.findIdx Host.isLinked

def numberedName (name : String) (n : Nat) : String := name ++ " (" ++ toString n ++ ")"

/-- The first numbered name that is not taken, from `n` on. -/
def freeName (taken : List String) (name : String) : Nat → Nat → String
  | 0, n => numberedName name n
  | tries + 1, n =>
    if taken.contains (numberedName name n) then freeName taken name tries (n + 1)
    else numberedName name n

inductive Edit where
  | saveHost (newId : String) (host : Host)
  | saveGroup (newId : String) (group : Group)
  | deleteHosts (ids : List String)
  | deleteGroup (id : String)
  | moveHosts (ids : List String) (group : String)
  | moveGroup (id parent : String)
  | duplicateHost (newId id : String)
  | setFavorite (ids : List String) (favorite : Bool)

section Edits

variable {τ : Type} (format : HostsFormat τ) (editor : HostsEditor)

/-- A host from the editor. Empty texts mean "not set". -/
def hostFromJson (host : Host) : Except (List Problem) Host :=
  if host.port.any fun port => port == 0 || port > 65535 then .error [("port", "invalid")]
  else .ok { host with
    name := trim host.name
    address := trim host.address
    group := host.group.filter fun group => group ≠ ""
    tags := cleanTags format.lower host.tags
    rest := editor.tidyHost host.rest }

def groupFromJson (group : Group) : Group :=
  { group with
    name := trim group.name
    parent := group.parent.filter fun parent => parent ≠ ""
    rest := editor.tidyGroup group.rest }

/-- What is wrong with `host` before it is saved. -/
def HostsFile.validateHost (file : HostsFile) (host : Host) : List Problem :=
  (if trim host.name = "" then [("name", "required")] else []) ++
    (if host.port = some 0 then [("port", "invalid")] else []) ++
    (if host.group.any fun group => (file.group group).isNone then [("group", "unknown")]
      else []) ++
    editor.hostProblems file host

/-- What is wrong with `group` before it is saved. -/
def HostsFile.validateGroup (file : HostsFile) (group : Group) : List Problem :=
  (if trim group.name = "" then [("name", "required")] else []) ++
    (match group.parent with
      | none => []
      | some parent =>
        let insideItself := group.id ≠ "" && (file.subtree group.id).contains parent
        if (file.group parent).isNone || insideItself then [("parent", "invalid")] else []) ++
    editor.groupProblems file group

/-- Puts a host in the place of the one with its id, or with the new ones. -/
def HostsFile.putHost (file : HostsFile) (host : Host) : HostsFile :=
  if (file.host host.id).isSome then
    { file with
      hosts := updateFirst (fun existing => existing.id == host.id)
        (fun existing => { host with rest := editor.keepExtra host.rest existing.rest })
        file.hosts }
  else { file with hosts := file.hosts.insertIdx (beforeLinked file.hosts) host }

def HostsFile.saveHost (file : HostsFile) (newId : String) (host : Host) : HostsFile :=
  match hostFromJson format editor host with
  | .error _ => file
  | .ok host =>
    if file.validateHost editor host ≠ [] then file
    else if host.id = "" then file.putHost editor { host with id := newId }
    else if host.isLinked || (file.host host.id).any Host.isLinked then file
    else file.putHost editor host

/-- Puts a group in the place of the one with its id, or at the end. -/
def HostsFile.putGroup (file : HostsFile) (group : Group) : HostsFile :=
  if (file.group group.id).isSome then
    { file with
      groups := updateFirst (fun existing => existing.id == group.id)
        (fun existing => { group with rest := editor.keepExtra group.rest existing.rest })
        file.groups }
  else { file with groups := file.groups ++ [group] }

def HostsFile.saveGroup (file : HostsFile) (newId : String) (group : Group) : HostsFile :=
  let group := groupFromJson editor group
  if file.validateGroup editor group ≠ [] then file
  else file.putGroup editor (if group.id = "" then { group with id := newId } else group)

def HostsFile.deleteHosts (file : HostsFile) (ids : List String) : HostsFile :=
  { file with hosts := file.hosts.filter fun host => host.isLinked || !ids.contains host.id }

/-- The group's members go to its parent. -/
def HostsFile.deleteGroup (file : HostsFile) (id : String) : HostsFile :=
  match file.group id with
  | none => file
  | some deleted =>
    { file with
      groups := (file.groups.eraseP fun group => group.id == id).map fun group =>
        if group.parent = some id then { group with parent := deleted.parent } else group
      hosts := file.hosts.map fun host =>
        if host.group = some id then { host with group := deleted.parent } else host }

def HostsFile.moveHosts (file : HostsFile) (ids : List String) (group : String) : HostsFile :=
  if group ≠ "" && (file.group group).isNone then file
  else
    let target := if group = "" then none else some group
    { file with
      hosts := file.hosts.map fun host =>
        if ids.contains host.id && !host.isLinked && host.group ≠ target then
          { host with group := target }
        else host }

def HostsFile.moveGroup (file : HostsFile) (id parent : String) : HostsFile :=
  match file.group id with
  | none => file
  | some group =>
    let moved := { group with parent := if parent = "" then none else some parent }
    if file.validateGroup editor moved ≠ [] then file
    else
      { file with
        groups := updateFirst (fun existing => existing.id == moved.id)
          (fun existing => { existing with parent := moved.parent }) file.groups }

/-- A copy of a host, after it or with the new ones. -/
def HostsFile.duplicateHost (file : HostsFile) (newId id : String) : HostsFile :=
  match file.host id with
  | none => file
  | some source =>
    let name := freeName (file.hosts.map Host.name) source.name file.hosts.length 2
    let copy := { source with
      id := newId
      rest := editor.setFavorite false source.rest
      name := if source.isLinked then source.name else name }
    let place := match file.hosts.findIdx? fun host => host.id == source.id && !host.isLinked with
      | some index => index + 1
      | none => beforeLinked file.hosts
    { file with hosts := file.hosts.insertIdx place copy }

def HostsFile.setFavorite (file : HostsFile) (ids : List String) (favorite : Bool) : HostsFile :=
  { file with
    hosts := file.hosts.map fun host =>
      if ids.contains host.id && !host.isLinked && editor.favorite host.rest ≠ favorite then
        { host with rest := editor.setFavorite favorite host.rest }
      else host }

def HostsFile.apply (file : HostsFile) : Edit → HostsFile
  | .saveHost newId host => file.saveHost format editor newId host
  | .saveGroup newId group => file.saveGroup editor newId group
  | .deleteHosts ids => file.deleteHosts ids
  | .deleteGroup id => file.deleteGroup id
  | .moveHosts ids group => file.moveHosts ids group
  | .moveGroup id parent => file.moveGroup editor id parent
  | .duplicateHost newId id => file.duplicateHost editor newId id
  | .setFavorite ids favorite => file.setFavorite editor ids favorite

/-- An edit is refused while the file is locked. -/
def HostsFile.modify (file : HostsFile) (event : Bool × Edit) : Option HostsFile :=
  some (if event.1 then file else file.apply format editor event.2)

end Edits

/-- An id that `new_id` may give to a new record. -/
structure HostsFile.Fresh (file : HostsFile) (id : String) : Prop where
  valid : validHostId id = true
  owned : linkedPrefix.toList.isPrefixOf id.toList = false
  unused : id ∉ file.ids

/-- Saved records are new or have the id of one of their kind. -/
def HostsFile.Allows (file : HostsFile) : Edit → Prop
  | .saveHost newId host =>
    file.Fresh newId ∧ (host.id = "" ∨ host.id ∈ file.hosts.map Host.id)
  | .saveGroup newId group =>
    file.Fresh newId ∧ (group.id = "" ∨ group.id ∈ file.groups.map Group.id)
  | .duplicateHost newId _ => file.Fresh newId
  | _ => True

end Opensesh
