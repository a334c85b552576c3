/-
What a host inherits: levels are compared as tables, key by key, and every key resolves to the
field of the nearest level that sets it.
-/
import Opensesh.HostModel
import Opensesh.Groups
import Opensesh.Path

namespace Opensesh.Saved

open List
open Fields Records

/-- The saved hosts: what resolving one reads. -/
structure HostsFile where
  groups : List Group
  hosts : List Host
  /-- The app's defaults, as a host table. -/
  base : Document

/-- Where a resolved value comes from. -/
inductive Origin where
  | default
  | group (id : String)
  | host

structure Resolved where
  value : Option Value
  origin : Origin

/-- Keys a group can give its hosts, as dotted paths. -/
def inheritedKeys : List String :=
  ["user", "port", "jump", "identity", "identity_file", "profile", "ssh.backend",
    "ssh.agent_forwarding", "ssh.x11", "ssh.waypipe", "ssh.keepalive_secs", "ssh.compression",
    "ssh.startup_snippet", "ssh.legacy_algorithms", "ssh.auth_order", "ssh.proxy",
    "ssh.proxy_command", "ssh.env", "ssh.send_locale", "ssh.command", "ssh.auto_reconnect",
    "ssh.log", "ssh.detect_os", "ssh.monitor", "ssh.agent_socket", "sftp.follow_cwd",
    "sftp.start_dir"]

def defaultAuthOrder : List String := ["publickey", "keyboard-interactive", "password"]

/-- The built-in value of an inherited key. -/
def builtin (key : String) (protocol : Protocol) : Option Value :=
  match key with
  | "port" => protocol.defaultPort.map fun port => .integer port
  | "jump" => some (.array [])
  | "ssh.backend" => some (.string "internal")
  | "ssh.agent_forwarding" | "ssh.waypipe" | "ssh.compression" | "ssh.legacy_algorithms"
  | "ssh.auto_reconnect" => some (.boolean false)
  | "ssh.send_locale" | "ssh.detect_os" | "ssh.monitor" => some (.boolean true)
  | "ssh.x11" => some (.string "off")
  | "ssh.keepalive_secs" => some (.integer 30)
  | "ssh.startup_snippet" | "ssh.proxy" | "ssh.proxy_command" | "ssh.command"
  | "ssh.agent_socket" => some (.string "")
  | "ssh.auth_order" => some (.array (defaultAuthOrder.map .string))
  | "ssh.env" => some (.table [])
  | "ssh.log" => some (.string "off")
  | "sftp.follow_cwd" => some (.boolean true)
  | "sftp.start_dir" => some (.string "~")
  | _ => none

def pathParts (path : String) : List String :=
  (Path.splitOn (· = '.') path.toList).map String.ofList

/-- The value at a path of names. -/
def lookupParts (table : Table) : List String → Option Value
  | [] => none
  | first :: rest =>
    rest.foldl (fun value part => (value.bind Value.asTable).bind fun inner => inner.lookup part)
      (table.lookup first)

/-- The value at a dotted path. -/
def lookup (table : Table) (path : String) : Option Value := lookupParts table (pathParts path)

namespace HostsFile

variable (file : HostsFile)

def group (id : String) : Option Group := file.groups.find? fun group => group.id == id

/-- The groups from a group up to the top. Stops at a loop. -/
def groupChainFrom : Nat → List Group → Option Group → List Group
  | 0, chain, _ => chain
  | _, chain, none => chain
  | steps + 1, chain, some group =>
    if chain.any fun seen => seen.id == group.id then chain
    else groupChainFrom steps (chain ++ [group]) (group.parent.bind file.group)

def groupChain (group : Option String) : List Group :=
  file.groupChainFrom (file.groups.length + 1) [] (group.bind file.group)

/-- What a host of a group gets for a key when it sets nothing. -/
def inheritedField (group : Option String) (protocol : Protocol) (key : String) : Resolved :=
  let fromGroup := (file.groupChain group).findSome? fun group =>
    (lookup group.defaults.toTable key).map fun value => (value, group.id)
  match fromGroup with
  | some (value, id) => ⟨some value, .group id⟩
  | none => ⟨(lookup file.base.table key).or (builtin key protocol), .default⟩

def inherited (group : Option String) (protocol : Protocol) : List (String × Resolved) :=
  inheritedKeys.map fun key => (key, file.inheritedField group protocol key)

/-- Every inherited field of a host: its own value, else the inherited one. -/
def resolve (host : Host) : List (String × Resolved) :=
  (file.inherited host.group host.protocol).map fun (key, field) =>
    match lookup host.toDocument.table key with
    | some value => (key, ⟨some value, .host⟩)
    | none => (key, field)

end HostsFile

/-- A group without the fields that say nothing about the forest. -/
def Group.plain (group : Group) : Opensesh.Group := ⟨group.id, group.name, group.parent, .empty⟩

def HostsFile.plain (file : HostsFile) : Opensesh.HostsFile :=
  ⟨file.groups.map Group.plain, [], [], false, .empty⟩

variable {file : HostsFile}

/-- The field of a level for a key, as it is written; none when it is not set. -/
def HostDefaults.typed (own : HostDefaults) (key : String) : Option Value :=
  match key with
  | "user" => own.user.map Form.text.write
  | "port" => own.port.map portForm.write
  | "jump" => own.jump.map Form.texts.write
  | "identity" => own.identity.map Form.text.write
  | "identity_file" => own.identityFile.map Form.text.write
  | "profile" => own.profile.map Form.text.write
  | "ssh.backend" => own.ssh.backend.map backendForm.write
  | "ssh.agent_forwarding" => own.ssh.agentForwarding.map Form.flag.write
  | "ssh.x11" => own.ssh.x11.map x11Form.write
  | "ssh.waypipe" => own.ssh.waypipe.map Form.flag.write
  | "ssh.keepalive_secs" => own.ssh.keepaliveSecs.map wordForm.write
  | "ssh.compression" => own.ssh.compression.map Form.flag.write
  | "ssh.startup_snippet" => own.ssh.startupSnippet.map Form.text.write
  | "ssh.legacy_algorithms" => own.ssh.legacyAlgorithms.map Form.flag.write
  | "ssh.auth_order" => own.ssh.authOrder.map Form.texts.write
  | "ssh.proxy" => own.ssh.proxy.map Form.text.write
  | "ssh.proxy_command" => own.ssh.proxyCommand.map Form.text.write
  | "ssh.env" => own.ssh.env.map Form.textMap.write
  | "ssh.send_locale" => own.ssh.sendLocale.map Form.flag.write
  | "ssh.command" => own.ssh.command.map Form.text.write
  | "ssh.auto_reconnect" => own.ssh.autoReconnect.map Form.flag.write
  | "ssh.log" => own.ssh.log.map sessionLogForm.write
  | "ssh.detect_os" => own.ssh.detectOs.map Form.flag.write
  | "ssh.monitor" => own.ssh.monitor.map Form.flag.write
  | "ssh.agent_socket" => own.ssh.agentSocket.map Form.text.write
  | "sftp.follow_cwd" => own.sftp.followCwd.map Form.flag.write
  | "sftp.start_dir" => own.sftp.startDir.map Form.text.write
  | _ => none

/-- A table with the fields of a level under their keys. -/
def Carries (table : Table) (own : HostDefaults) : Prop :=
  ∀ key ∈ defaultsSection.keys, table.lookup key = (own.fields.lookup key).join

theorem carries_toTable (own : HostDefaults) : Carries own.toTable own :=
  fun _ hkey => defaultsSection.lookup_table own hkey

theorem carries_host (host : Host) : Carries host.toDocument.table host.own := by
  have hlookup := host.lookup_toDocument
  rw [Carries]
  simp only [defaultsSection, forall_mem_cons]
  exact ⟨hlookup _ (by decide), hlookup _ (by decide), hlookup _ (by decide),
    hlookup _ (by decide), hlookup _ (by decide), hlookup _ (by decide), hlookup _ (by decide),
    hlookup _ (by decide), hlookup _ (by decide), forall_mem_nil _⟩

section Lookups

variable {table : Table} {own : HostDefaults} (h : Carries table own)

include h

theorem Carries.top {key : String} (name : String) (hparts : pathParts key = [name])
    (hname : name ∈ defaultsSection.keys) :
    lookup table key = (own.fields.lookup name).join := by
  rw [lookup, hparts]
  exact h name hname

theorem Carries.ssh {key : String} (name : String) (hparts : pathParts key = ["ssh", name])
    (hname : name ∈ sshSection.keys) : lookup table key = (own.ssh.fields.lookup name).join := by
  rw [lookup, hparts]
  change ((table.lookup "ssh").bind Value.asTable).bind (fun inner => inner.lookup name) = _
  rw [h "ssh" (by decide)]
  exact sshSection.lookup_write own.ssh hname

theorem Carries.sftp {key : String} (name : String) (hparts : pathParts key = ["sftp", name])
    (hname : name ∈ sftpSection.keys) : lookup table key = (own.sftp.fields.lookup name).join := by
  rw [lookup, hparts]
  change ((table.lookup "sftp").bind Value.asTable).bind (fun inner => inner.lookup name) = _
  rw [h "sftp" (by decide)]
  exact sftpSection.lookup_write own.sftp hname

theorem Carries.lookup_eq : ∀ key ∈ inheritedKeys, lookup table key = own.typed key := by
  simp only [inheritedKeys, forall_mem_cons]
  exact ⟨h.top "user" (by decide) (by decide),
    h.top "port" (by decide) (by decide),
    h.top "jump" (by decide) (by decide),
    h.top "identity" (by decide) (by decide),
    h.top "identity_file" (by decide) (by decide),
    h.top "profile" (by decide) (by decide),
    h.ssh "backend" (by decide) (by decide),
    h.ssh "agent_forwarding" (by decide) (by decide),
    h.ssh "x11" (by decide) (by decide),
    h.ssh "waypipe" (by decide) (by decide),
    h.ssh "keepalive_secs" (by decide) (by decide),
    h.ssh "compression" (by decide) (by decide),
    h.ssh "startup_snippet" (by decide) (by decide),
    h.ssh "legacy_algorithms" (by decide) (by decide),
    h.ssh "auth_order" (by decide) (by decide),
    h.ssh "proxy" (by decide) (by decide),
    h.ssh "proxy_command" (by decide) (by decide),
    h.ssh "env" (by decide) (by decide),
    h.ssh "send_locale" (by decide) (by decide),
    h.ssh "command" (by decide) (by decide),
    h.ssh "auto_reconnect" (by decide) (by decide),
    h.ssh "log" (by decide) (by decide),
    h.ssh "detect_os" (by decide) (by decide),
    h.ssh "monitor" (by decide) (by decide),
    h.ssh "agent_socket" (by decide) (by decide),
    h.sftp "follow_cwd" (by decide) (by decide),
    h.sftp "start_dir" (by decide) (by decide),
    forall_mem_nil _⟩

end Lookups

/-- What a key of a host should resolve to: the field of the host if it is set, else that of the
first group of its chain that sets it, else the app's default, else the built-in one. -/
def HostsFile.nearest (file : HostsFile) (host : Host) (key : String) : Resolved :=
  match host.own.typed key with
  | some value => ⟨some value, .host⟩
  | none =>
    let fromGroup := (file.groupChain host.group).findSome? fun group =>
      (group.defaults.typed key).map fun value => (value, group.id)
    match fromGroup with
    | some (value, id) => ⟨some value, .group id⟩
    | none => ⟨(lookup file.base.table key).or (builtin key host.protocol), .default⟩

theorem lookup_map_keys {α : Type} (keys : List String) (f : String → α) {key : String}
    (hkey : key ∈ keys) : (keys.map fun key => (key, f key)).lookup key = some (f key) := by
  induction keys with
  | nil => cases hkey
  | cons first rest ih =>
    rw [map_cons, lookup_cons]
    cases heq : key == first with
    | true =>
      rw [beq_iff_eq.mp heq]
    | false =>
      refine ih ((mem_cons.mp hkey).resolve_left fun hsame => ?_)
      rw [hsame, beq_self_eq_true] at heq
      cases heq

theorem inheritedField_eq (group : Option String) (protocol : Protocol) {key : String}
    (hkey : key ∈ inheritedKeys) :
    file.inheritedField group protocol key =
      match (file.groupChain group).findSome? fun group =>
        (group.defaults.typed key).map fun value => (value, group.id) with
      | some (value, id) => ⟨some value, .group id⟩
      | none => ⟨(lookup file.base.table key).or (builtin key protocol), .default⟩ := by
  have hlevels : (fun group : Group => (lookup group.defaults.toTable key).map
      fun value => (value, group.id)) =
      fun group => (group.defaults.typed key).map fun value => (value, group.id) := by
    funext group
    rw [(carries_toTable group.defaults).lookup_eq key hkey]
  rw [HostsFile.inheritedField, hlevels]

theorem resolve_eq_nearest (host : Host) {key : String} (hkey : key ∈ inheritedKeys) :
    (file.resolve host).lookup key = some (file.nearest host key) := by
  have hfields : file.resolve host = inheritedKeys.map fun key =>
      (key, match lookup host.toDocument.table key with
        | some value => ⟨some value, .host⟩
        | none => file.inheritedField host.group host.protocol key) := by
    rw [HostsFile.resolve, HostsFile.inherited, map_map]
    refine map_congr_left fun key _ => ?_
    cases hlookup : lookup host.toDocument.table key with
    | none => simp only [Function.comp, hlookup]
    | some value => simp only [Function.comp, hlookup]
  rw [hfields, lookup_map_keys _ _ hkey, (carries_host host).lookup_eq key hkey,
    HostsFile.nearest, inheritedField_eq _ _ hkey]
  rfl

/-- The value of a key among resolved fields. -/
def valueOf (fields : List (String × Resolved)) (key : String) : Option Value :=
  (fields.lookup key).bind Resolved.value

/-- A level whose fields are read from values; the terminal options are another level's. -/
def HostDefaults.ofValues (value : String → Option Value) (terminal : Document) : HostDefaults where
  user := (value "user").bind Form.text.read
  port := (value "port").bind portForm.read
  jump := (value "jump").bind Form.texts.read
  identity := (value "identity").bind Form.text.read
  identityFile := (value "identity_file").bind Form.text.read
  profile := (value "profile").bind Form.text.read
  ssh := {
    backend := (value "ssh.backend").bind backendForm.read
    agentForwarding := (value "ssh.agent_forwarding").bind Form.flag.read
    x11 := (value "ssh.x11").bind x11Form.read
    waypipe := (value "ssh.waypipe").bind Form.flag.read
    keepaliveSecs := (value "ssh.keepalive_secs").bind wordForm.read
    compression := (value "ssh.compression").bind Form.flag.read
    startupSnippet := (value "ssh.startup_snippet").bind Form.text.read
    legacyAlgorithms := (value "ssh.legacy_algorithms").bind Form.flag.read
    authOrder := (value "ssh.auth_order").bind Form.texts.read
    proxy := (value "ssh.proxy").bind Form.text.read
    proxyCommand := (value "ssh.proxy_command").bind Form.text.read
    env := (value "ssh.env").bind Form.textMap.read
    sendLocale := (value "ssh.send_locale").bind Form.flag.read
    command := (value "ssh.command").bind Form.text.read
    autoReconnect := (value "ssh.auto_reconnect").bind Form.flag.read
    log := (value "ssh.log").bind sessionLogForm.read
    detectOs := (value "ssh.detect_os").bind Form.flag.read
    monitor := (value "ssh.monitor").bind Form.flag.read
    agentSocket := (value "ssh.agent_socket").bind Form.text.read }
  sftp := {
    followCwd := (value "sftp.follow_cwd").bind Form.flag.read
    startDir := (value "sftp.start_dir").bind Form.text.read }
  terminal

/-- A host with every resolved value as its own, in a group. -/
def Host.settled (host : Host) (fields : List (String × Resolved)) (group : Option String) : Host :=
  let own := HostDefaults.ofValues (valueOf fields) host.terminal
  { host with
    group
    user := own.user
    port := own.port
    jump := own.jump
    identity := own.identity
    identityFile := own.identityFile
    profile := own.profile
    ssh := own.ssh
    sftp := own.sftp }

/-- Values that some level could have for a key. -/
def Fits (key : String) (value : Option Value) : Prop :=
  ∀ v ∈ value, ∃ own : HostDefaults, own.typed key = some v

theorem Fits.reread {α : Type} {form : Form α} {key : String} {value : Option Value}
    (h : Fits key value) (field : HostDefaults → Option α)
    (hfield : ∀ own, HostDefaults.typed own key = (field own).map form.write) :
    (value.bind form.read).map form.write = value := by
  cases value with
  | none => rfl
  | some v =>
    obtain ⟨own, hown⟩ := h v rfl
    rw [hfield] at hown
    obtain ⟨x, -, rfl⟩ := Option.map_eq_some_iff.mp hown
    rw [Option.bind_some, form.read_write, Option.map_some]

theorem typed_ofValues {value : String → Option Value} (terminal : Document)
    (h : ∀ key ∈ inheritedKeys, Fits key (value key)) :
    ∀ key ∈ inheritedKeys, (HostDefaults.ofValues value terminal).typed key = value key := by
  simp only [inheritedKeys, forall_mem_cons] at h ⊢
  obtain ⟨h1, h2, h3, h4, h5, h6, h7, h8, h9, h10, h11, h12, h13, h14, h15, h16, h17, h18,
    h19, h20, h21, h22, h23, h24, h25, h26, h27, -⟩ := h
  exact ⟨h1.reread (fun own => own.user) fun _ => rfl,
    h2.reread (fun own => own.port) fun _ => rfl,
    h3.reread (fun own => own.jump) fun _ => rfl,
    h4.reread (fun own => own.identity) fun _ => rfl,
    h5.reread (fun own => own.identityFile) fun _ => rfl,
    h6.reread (fun own => own.profile) fun _ => rfl,
    h7.reread (fun own => own.ssh.backend) fun _ => rfl,
    h8.reread (fun own => own.ssh.agentForwarding) fun _ => rfl,
    h9.reread (fun own => own.ssh.x11) fun _ => rfl,
    h10.reread (fun own => own.ssh.waypipe) fun _ => rfl,
    h11.reread (fun own => own.ssh.keepaliveSecs) fun _ => rfl,
    h12.reread (fun own => own.ssh.compression) fun _ => rfl,
    h13.reread (fun own => own.ssh.startupSnippet) fun _ => rfl,
    h14.reread (fun own => own.ssh.legacyAlgorithms) fun _ => rfl,
    h15.reread (fun own => own.ssh.authOrder) fun _ => rfl,
    h16.reread (fun own => own.ssh.proxy) fun _ => rfl,
    h17.reread (fun own => own.ssh.proxyCommand) fun _ => rfl,
    h18.reread (fun own => own.ssh.env) fun _ => rfl,
    h19.reread (fun own => own.ssh.sendLocale) fun _ => rfl,
    h20.reread (fun own => own.ssh.command) fun _ => rfl,
    h21.reread (fun own => own.ssh.autoReconnect) fun _ => rfl,
    h22.reread (fun own => own.ssh.log) fun _ => rfl,
    h23.reread (fun own => own.ssh.detectOs) fun _ => rfl,
    h24.reread (fun own => own.ssh.monitor) fun _ => rfl,
    h25.reread (fun own => own.ssh.agentSocket) fun _ => rfl,
    h26.reread (fun own => own.sftp.followCwd) fun _ => rfl,
    h27.reread (fun own => own.sftp.startDir) fun _ => rfl,
    forall_mem_nil _⟩

/-- The built-in values, as a level. -/
def builtinDefaults (protocol : Protocol) : HostDefaults :=
  .ofValues (fun key => builtin key protocol) .empty

theorem fits_builtin (protocol : Protocol) :
    ∀ key ∈ inheritedKeys, Fits key (builtin key protocol) := by
  have htyped : ∀ key ∈ inheritedKeys,
      (builtinDefaults protocol).typed key = builtin key protocol := by
    have hport : (builtinDefaults protocol).typed "port" = builtin "port" protocol := by
      cases protocol <;> rfl
    simp only [inheritedKeys, forall_mem_cons]
    exact ⟨rfl, hport, rfl, rfl, rfl, rfl, rfl, rfl, rfl, rfl, rfl, rfl, rfl, rfl, rfl, rfl, rfl,
      rfl, rfl, rfl, rfl, rfl, rfl, rfl, rfl, rfl, rfl, forall_mem_nil _⟩
  exact fun key hkey v hv => ⟨builtinDefaults protocol, (htyped key hkey).trans hv⟩

/-- Tables that have the fields of a level, as the app's defaults are. -/
def HostTable (document : Document) : Prop := ∃ own, Carries document.table own

theorem fits_base {document : Document} (h : HostTable document) :
    ∀ key ∈ inheritedKeys, Fits key (lookup document.table key) := by
  obtain ⟨own, hown⟩ := h
  exact fun key hkey v hv => ⟨own, (hown.lookup_eq key hkey).symm.trans hv⟩

theorem fits_nearest (hbase : HostTable file.base) (host : Host) :
    ∀ key ∈ inheritedKeys, Fits key (file.nearest host key).value := by
  intro key hkey v hv
  unfold HostsFile.nearest at hv
  split at hv
  case h_1 value hvalue =>
    obtain rfl := Option.some.inj hv
    exact ⟨host.own, hvalue⟩
  case h_2 =>
    dsimp only at hv
    split at hv
    case h_1 value id hgroup =>
      obtain rfl := Option.some.inj hv
      obtain ⟨group, -, hsome⟩ := exists_of_findSome?_eq_some hgroup
      obtain ⟨value, hvalue, heq⟩ := Option.map_eq_some_iff.mp hsome
      obtain ⟨rfl, -⟩ := Prod.mk.inj heq
      exact ⟨group.defaults, hvalue⟩
    case h_2 =>
      rcases Option.or_eq_some_iff.mp hv with hfound | ⟨-, hbuiltin⟩
      · exact fits_base hbase key hkey v hfound
      · exact fits_builtin host.protocol key hkey v hbuiltin

theorem valueOf_resolve (host : Host) {key : String} (hkey : key ∈ inheritedKeys) :
    valueOf (file.resolve host) key = (file.nearest host key).value := by
  rw [valueOf, resolve_eq_nearest host hkey, Option.bind_some]

theorem own_settled (host : Host) (fields : List (String × Resolved)) (group : Option String) :
    (host.settled fields group).own = .ofValues (valueOf fields) host.terminal := rfl

/-- The keys of a host resolve to the fields of the nearest level.  With every resolved value
written into it, the host keeps them in any group of any library; a key without a value stays
unset. -/
theorem resolves (file : HostsFile) (host : Host) {key : String} (hkey : key ∈ inheritedKeys) :
    (file.resolve host).lookup key = some (file.nearest host key) ∧
    (HostTable file.base → ∀ (other : HostsFile) (group : Option String),
      (∀ value, (file.nearest host key).value = some value →
        (other.resolve (host.settled (file.resolve host) group)).lookup key =
          some ⟨some value, .host⟩) ∧
      ((file.nearest host key).value = none →
        (host.settled (file.resolve host) group).own.typed key = none)) := by
  refine ⟨resolve_eq_nearest host hkey, fun hbase other group => ?_⟩
  have hvalues : ∀ key ∈ inheritedKeys, valueOf (file.resolve host) key =
      (file.nearest host key).value := fun key hkey => valueOf_resolve host hkey
  have hfits : ∀ key ∈ inheritedKeys, Fits key (valueOf (file.resolve host) key) := by
    intro key hkey
    rw [hvalues key hkey]
    exact fits_nearest hbase host key hkey
  have htyped : (host.settled (file.resolve host) group).own.typed key =
      (file.nearest host key).value := by
    rw [own_settled, typed_ofValues _ hfits key hkey, hvalues key hkey]
  refine ⟨fun value hvalue => ?_, fun hnone => htyped.trans hnone⟩
  rw [resolve_eq_nearest _ hkey, HostsFile.nearest, htyped, hvalue]

namespace ResolveWitness

def bare : Host where
  id := "web"
  name := "web"
  group := none
  protocol := .ssh
  address := "10.0.0.1"
  port := none
  user := none
  identity := none
  identityFile := none
  jump := none
  profile := none
  tags := []
  favorite := false
  color := ""
  icon := "auto"
  notes := ""
  ssh := .empty
  sftp := .empty
  serial := .empty
  container := .empty
  s3 := .empty
  rdp := .empty
  vnc := .empty
  terminal := .empty
  extra := .empty

/-- A group whose hosts log in as root. -/
def team : Group :=
  ⟨"team", "Team", none, "", "", { HostDefaults.empty with user := some "root" }, .empty⟩

def library : HostsFile := ⟨[team], [bare], .empty⟩

theorem empty_hostTable : HostTable library.base := by
  refine ⟨.empty, ?_⟩
  rw [Carries]
  simp only [defaultsSection, forall_mem_cons]
  exact ⟨rfl, rfl, rfl, rfl, rfl, rfl, rfl, rfl, rfl, forall_mem_nil _⟩

/-- A host without a user, with every resolved value as its own: the group it moves to gives
it one. -/
theorem group_gives_user : ∃ key ∈ inheritedKeys,
    valueOf (library.resolve bare) key = none ∧
    valueOf (library.resolve (bare.settled (library.resolve bare) (some "team"))) key =
      some (.string "root") := by
  refine ⟨"user", by decide, ?_, ?_⟩
  · rw [valueOf_resolve _ (by decide)]
    rfl
  · rw [valueOf_resolve _ (by decide)]
    rfl

/-- A host of the group, moved out of it. -/
theorem keeps_user :
    (library.resolve ({ bare with group := some "team" }.settled
      (library.resolve { bare with group := some "team" }) none)).lookup "user" =
        some ⟨some (.string "root"), .host⟩ :=
  ((resolves library { bare with group := some "team" }
    (show "user" ∈ inheritedKeys by decide)).2 empty_hostTable library none).1 _ rfl

end ResolveWitness

end Opensesh.Saved
