/-
Saved hosts and groups with all their fields, and the tables they are written as and read from.
-/
import Opensesh.HostFields

namespace Opensesh.Saved

open List
open Fields Records

/-- Keys this version doesn't know, written back unchanged. -/
structure Extra (keys : List String) where
  table : Table
  unknown : Unknown keys table

namespace Extra

variable {keys : List String}

theorem ext {extra other : Extra keys} (h : extra.table = other.table) : extra = other := by
  cases extra
  cases other
  cases h
  rfl

def empty : Extra keys := ⟨[], wellFormed_empty, fun _ _ => rfl⟩

/-- The keys of a table that are not known. -/
def of (keys : List String) (document : Document) : Extra keys where
  table := Records.unknown keys document.table
  unknown := by
    have hasc : Ascending (Records.unknown keys document.table) :=
      ascending_filter _ document.ascending
    have hlookup : ∀ key, (Records.unknown keys document.table).lookup key =
        if key ∉ keys then document.table.lookup key else none := fun key => by
      rw [Records.unknown, lookup_filter_key fun key => decide (key ∉ keys)]
      simp only [decide_eq_true_eq]
    refine ⟨(wellFormed_table _).mpr ⟨hasc, fun key value hmem => ?_⟩, fun key hkey => ?_⟩
    · have hvalue := (lookup_eq_some_iff_mem hasc.nodup).mpr hmem
      rw [hlookup] at hvalue
      split at hvalue
      · exact document.wellFormedOpt_lookup key value hvalue
      · cases hvalue
    · rw [hlookup, if_neg (not_not.mpr hkey)]

end Extra

/-- The terminal options of a table, left out when there are none. -/
def terminalField (terminal : Document) : Option Value :=
  if terminal = .empty then none else some (Form.table.write terminal)

theorem wellFormed_terminalField (terminal : Document) : wellFormedOpt (terminalField terminal) :=
  wellFormedOpt_ite wellFormedOpt_none ((wellFormedOpt_some _).mpr (Form.table.wellFormed _))

/-- What a group gives its hosts and subgroups. -/
structure HostDefaults where
  user : Option String
  port : Option (Fin 65536)
  /-- Jump hosts, first hop first: saved host ids or names, or `user@host:port`. -/
  jump : Option (List String)
  identity : Option String
  identityFile : Option String
  profile : Option String
  ssh : SshOptions
  sftp : SftpOptions
  terminal : Document
deriving DecidableEq

namespace HostDefaults

def fields (defaults : HostDefaults) : List (String × Option Value) :=
  [("user", defaults.user.map Form.text.write),
    ("port", defaults.port.map portForm.write),
    ("jump", defaults.jump.map Form.texts.write),
    ("identity", defaults.identity.map Form.text.write),
    ("identity_file", defaults.identityFile.map Form.text.write),
    ("profile", defaults.profile.map Form.text.write),
    ("ssh", sshSection.write defaults.ssh),
    ("sftp", sftpSection.write defaults.sftp),
    ("terminal", terminalField defaults.terminal)]

def read (table : Table) : Option HostDefaults := do
  pure {
    user := ← optional .text table "user"
    port := ← optional portForm table "port"
    jump := ← optional .texts table "jump"
    identity := ← optional .text table "identity"
    identityFile := ← optional .text table "identity_file"
    profile := ← optional .text table "profile"
    ssh := ← sshSection.readFrom table "ssh"
    sftp := ← sftpSection.readFrom table "sftp"
    terminal := ← defaulted .table .empty table "terminal" }

def empty : HostDefaults := ⟨none, none, none, none, none, none, .empty, .empty, .empty⟩

end HostDefaults

def defaultsSection : Section HostDefaults where
  keys := ["user", "port", "jump", "identity", "identity_file", "profile", "ssh", "sftp",
    "terminal"]
  fields := HostDefaults.fields
  read := HostDefaults.read
  empty := .empty
  keys_fields _ := rfl
  wellFormed defaults := by
    simp only [HostDefaults.fields, List.forall_mem_cons, wellFormedOpt_map, true_and,
      Section.wellFormed_write, wellFormed_terminalField]
    exact List.forall_mem_nil _
  fields_empty := by
    simp only [HostDefaults.fields, HostDefaults.empty, List.forall_mem_cons, Option.map_none,
      true_and]
    exact ⟨rfl, rfl, rfl, List.forall_mem_nil _⟩
  read_fields defaults table h := by
    simp only [List.forall_mem_cons] at h
    obtain ⟨h1, h2, h3, h4, h5, h6, hssh, hsftp, hterminal, -⟩ := h
    rw [HostDefaults.read, optional_eq h1, optional_eq h2, optional_eq h3, optional_eq h4,
      optional_eq h5, optional_eq h6, sshSection.readFrom_write hssh,
      sftpSection.readFrom_write hsftp, defaulted_ite hterminal (fun h => h)]
    rfl

def HostDefaults.toTable (defaults : HostDefaults) : Table := defaultsSection.table defaults

def groupKeys : List String := ["id", "name", "parent", "color", "notes", "defaults"]

structure Group where
  id : String
  name : String
  parent : Option String
  color : String
  notes : String
  defaults : HostDefaults
  extra : Extra groupKeys

/-- A text that is left out when it is empty. -/
def filled (text : String) : Option Value := if text = "" then none else some (Form.text.write text)

theorem wellFormed_filled (text : String) : wellFormedOpt (filled text) :=
  wellFormedOpt_ite wellFormedOpt_none ((wellFormedOpt_some _).mpr rfl)

namespace Group

def fields (group : Group) : List (String × Option Value) :=
  [("id", some (Form.text.write group.id)),
    ("name", some (Form.text.write group.name)),
    ("parent", group.parent.map Form.text.write),
    ("color", filled group.color),
    ("notes", filled group.notes),
    ("defaults", defaultsSection.write group.defaults)]

theorem wellFormed_fields (group : Group) : ∀ field ∈ group.fields, wellFormedOpt field.2 := by
  have htext : ∀ text, wellFormedOpt (some (Form.text.write text)) := fun _ =>
    (wellFormedOpt_some _).mpr rfl
  simp only [fields, forall_mem_cons, wellFormedOpt_map, Section.wellFormed_write,
    wellFormed_filled, htext, true_and]
  exact forall_mem_nil _

def toDocument (group : Group) : Document where
  table := putAll group.fields group.extra.table
  wellFormed := wellFormed_putAll group.wellFormed_fields group.extra.unknown

def read (document : Document) : Option Group := do
  let table := document.table
  pure {
    id := ← defaulted .text "" table "id"
    name := ← defaulted .text "" table "name"
    parent := ← optional .text table "parent"
    color := ← defaulted .text "" table "color"
    notes := ← defaulted .text "" table "notes"
    defaults := ← defaultsSection.readFrom table "defaults"
    extra := .of groupKeys document }

end Group

def hostKeys : List String :=
  ["id", "name", "group", "protocol", "address", "port", "user", "identity", "identity_file",
    "jump", "profile", "tags", "favorite", "color", "icon", "notes", "ssh", "sftp", "serial",
    "container", "s3", "rdp", "vnc", "terminal"]

structure Host where
  id : String
  name : String
  group : Option String
  protocol : Protocol
  address : String
  port : Option (Fin 65536)
  user : Option String
  /-- An empty one means none, even if the group has one. -/
  identity : Option String
  identityFile : Option String
  /-- An empty list means none, even if the group has some. -/
  jump : Option (List String)
  profile : Option String
  tags : List String
  favorite : Bool
  color : String
  icon : String
  notes : String
  ssh : SshOptions
  sftp : SftpOptions
  serial : SerialOptions
  container : ContainerOptions
  s3 : S3Options
  rdp : RdpOptions
  vnc : VncOptions
  terminal : Document
  extra : Extra hostKeys

namespace Host

def fields (host : Host) : List (String × Option Value) :=
  [("id", some (Form.text.write host.id)),
    ("name", some (Form.text.write host.name)),
    ("group", host.group.map Form.text.write),
    ("protocol", some (protocolForm.write host.protocol)),
    ("address", some (Form.text.write host.address)),
    ("port", host.port.map portForm.write),
    ("user", host.user.map Form.text.write),
    ("identity", host.identity.map Form.text.write),
    ("identity_file", host.identityFile.map Form.text.write),
    ("jump", host.jump.map Form.texts.write),
    ("profile", host.profile.map Form.text.write),
    ("tags", if host.tags = [] then none else some (Form.texts.write host.tags)),
    ("favorite", if host.favorite = false then none else some (Form.flag.write host.favorite)),
    ("color", filled host.color),
    ("icon", if host.icon = "" ∨ host.icon = "auto" then none
      else some (Form.text.write host.icon)),
    ("notes", filled host.notes),
    ("ssh", sshSection.write host.ssh),
    ("sftp", sftpSection.write host.sftp),
    ("serial", serialSection.write host.serial),
    ("container", containerSection.write host.container),
    ("s3", s3Section.write host.s3),
    ("rdp", rdpSection.write host.rdp),
    ("vnc", vncSection.write host.vnc),
    ("terminal", terminalField host.terminal)]

theorem wellFormed_fields (host : Host) : ∀ field ∈ host.fields, wellFormedOpt field.2 := by
  have htext : ∀ text, wellFormedOpt (some (Form.text.write text)) := fun _ =>
    (wellFormedOpt_some _).mpr rfl
  have hprotocol : wellFormedOpt (some (protocolForm.write host.protocol)) :=
    (wellFormedOpt_some _).mpr (protocolForm.wellFormed _)
  have htags : wellFormedOpt (if host.tags = [] then none else some (Form.texts.write host.tags)) :=
    wellFormedOpt_ite wellFormedOpt_none ((wellFormedOpt_some _).mpr (Form.texts.wellFormed _))
  have hfavorite : wellFormedOpt (if host.favorite = false then none
      else some (Form.flag.write host.favorite)) :=
    wellFormedOpt_ite wellFormedOpt_none ((wellFormedOpt_some _).mpr rfl)
  have hicon : wellFormedOpt (if host.icon = "" ∨ host.icon = "auto" then none
      else some (Form.text.write host.icon)) :=
    wellFormedOpt_ite wellFormedOpt_none ((wellFormedOpt_some _).mpr rfl)
  simp only [fields, forall_mem_cons, wellFormedOpt_map, Section.wellFormed_write,
    wellFormed_filled, wellFormed_terminalField, htext, hprotocol, htags, hfavorite, hicon,
    true_and]
  exact forall_mem_nil _

def toDocument (host : Host) : Document where
  table := putAll host.fields host.extra.table
  wellFormed := wellFormed_putAll host.wellFormed_fields host.extra.unknown

def read (document : Document) : Option Host := do
  let table := document.table
  pure {
    id := ← defaulted .text "" table "id"
    name := ← defaulted .text "" table "name"
    group := ← optional .text table "group"
    protocol := ← defaulted protocolForm .ssh table "protocol"
    address := ← defaulted .text "" table "address"
    port := ← optional portForm table "port"
    user := ← optional .text table "user"
    identity := ← optional .text table "identity"
    identityFile := ← optional .text table "identity_file"
    jump := ← optional .texts table "jump"
    profile := ← optional .text table "profile"
    tags := ← defaulted .texts [] table "tags"
    favorite := ← defaulted .flag false table "favorite"
    color := ← defaulted .text "" table "color"
    icon := ← defaulted .text "auto" table "icon"
    notes := ← defaulted .text "" table "notes"
    ssh := ← sshSection.readFrom table "ssh"
    sftp := ← sftpSection.readFrom table "sftp"
    serial := ← serialSection.readFrom table "serial"
    container := ← containerSection.readFrom table "container"
    s3 := ← s3Section.readFrom table "s3"
    rdp := ← rdpSection.readFrom table "rdp"
    vnc := ← vncSection.readFrom table "vnc"
    terminal := ← defaulted .table .empty table "terminal"
    extra := .of hostKeys document }

/-- The fields a group can give, as the host sets them. -/
def own (host : Host) : HostDefaults where
  user := host.user
  port := host.port
  jump := host.jump
  identity := host.identity
  identityFile := host.identityFile
  profile := host.profile
  ssh := host.ssh
  sftp := host.sftp
  terminal := host.terminal

end Host

theorem extra_of_putAll {keys : List String} (fields : List (String × Option Value))
    (hkeys : fields.map Prod.fst = keys) (extra : Extra keys) (document : Document)
    (h : document.table = putAll fields extra.table) : Extra.of keys document = extra := by
  subst hkeys
  refine Extra.ext ?_
  change Records.unknown _ document.table = _
  rw [h, unknown_putAll extra.unknown]

theorem Group.read_toDocument (group : Group) : read group.toDocument = some group := by
  have hlookup : ∀ key ∈ groupKeys,
      group.toDocument.table.lookup key = (group.fields.lookup key).join :=
    fun key hkey => @lookup_putAll group.fields _ group.extra.unknown key hkey
  simp only [groupKeys, forall_mem_cons] at hlookup
  obtain ⟨hid, hname, hparent, hcolor, hnotes, hdefaults, -⟩ := hlookup
  have hextra : Extra.of groupKeys group.toDocument = group.extra :=
    extra_of_putAll group.fields rfl _ _ rfl
  rw [read, defaulted_eq hid, defaulted_eq hname, optional_eq hparent, defaulted_ite hcolor (fun h => h),
    defaulted_ite hnotes (fun h => h), defaultsSection.readFrom_write hdefaults, hextra]
  rfl

/-- A table with the fields of a host under their keys is read as it; no icon is the automatic
one, and no address an empty one. -/
theorem Host.read_eq {document : Document} {host : Host}
    (hlookup : ∀ key ∈ hostKeys, key ≠ "address" →
      document.table.lookup key = (host.fields.lookup key).join)
    (haddress : defaulted .text "" document.table "address" = some host.address)
    (hextra : Extra.of hostKeys document = host.extra) :
    read document = some { host with icon := if host.icon = "" then "auto" else host.icon } := by
  simp only [hostKeys, forall_mem_cons] at hlookup
  obtain ⟨hid, hname, hgroup, hprotocol, -, hport, huser, hidentity, hfile, hjump, hprofile,
    htags, hfavorite, hcolor, hicon, hnotes, hssh, hsftp, hserial, hcontainer, hs3, hrdp, hvnc,
    hterminal, -⟩ := hlookup
  have hauto : defaulted .text "auto" document.table "icon" =
      some (if host.icon = "" then "auto" else host.icon) := by
    have hlookup := hicon (by decide)
    by_cases hempty : host.icon = ""
    · rw [defaulted, hlookup]
      simp [Host.fields, hempty, lookup_cons]
    · rw [if_neg hempty]
      exact defaulted_ite hlookup fun h => h.resolve_left hempty
  rw [read, defaulted_eq (hid (by decide)), defaulted_eq (hname (by decide)),
    optional_eq (hgroup (by decide)), defaulted_eq (hprotocol (by decide)), haddress,
    optional_eq (hport (by decide)), optional_eq (huser (by decide)),
    optional_eq (hidentity (by decide)), optional_eq (hfile (by decide)),
    optional_eq (hjump (by decide)), optional_eq (hprofile (by decide)),
    defaulted_ite (htags (by decide)) (fun h => h),
    defaulted_ite (hfavorite (by decide)) (fun h => h),
    defaulted_ite (hcolor (by decide)) (fun h => h), hauto,
    defaulted_ite (hnotes (by decide)) (fun h => h),
    sshSection.readFrom_write (hssh (by decide)), sftpSection.readFrom_write (hsftp (by decide)),
    serialSection.readFrom_write (hserial (by decide)),
    containerSection.readFrom_write (hcontainer (by decide)),
    s3Section.readFrom_write (hs3 (by decide)), rdpSection.readFrom_write (hrdp (by decide)),
    vncSection.readFrom_write (hvnc (by decide)),
    defaulted_ite (hterminal (by decide)) (fun h => h), hextra]
  rfl

theorem Host.lookup_toDocument (host : Host) : ∀ key ∈ hostKeys,
    host.toDocument.table.lookup key = (host.fields.lookup key).join :=
  fun key hkey => @lookup_putAll host.fields _ host.extra.unknown key hkey

end Opensesh.Saved
