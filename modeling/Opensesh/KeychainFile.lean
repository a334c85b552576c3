/-
The contents of `keychain.toml`: identities, keys and what is saved for hosts, with
references into the vault where the secrets are; reading a text, with what it skips and
repairs on the way, and writing one.
-/
import Opensesh.HostsFile
import Opensesh.Vault

namespace Opensesh.Vault

/-- What is saved for one host without an identity. -/
structure HostSecrets where
  host : String
  password : Option String
  keyPassphrase : Option String
  /-- Keys this version doesn't know. -/
  extra : Table

def HostSecrets.isEmpty (entry : HostSecrets) : Bool :=
  entry.password.isNone && entry.keyPassphrase.isNone

/-- A user name with a password and perhaps a key. -/
structure Identity where
  id : String
  name : String
  user : String
  password : Option String
  key : Option String
  notes : String
  extra : Table

/-- An SSH key: its public half and a reference to the private one. -/
structure KeyEntry where
  id : String
  name : String
  algorithm : String
  bits : Nat
  publicLine : String
  fingerprint : String
  secret : Option String
  origin : String
  created : Int
  extra : Table

/-- What can be shown about a key. -/
structure KeyInfo where
  algorithm : String
  label : String
  bits : Nat
  publicLine : String
  fingerprint : String
  comment : String

structure Warning where
  key : String
  message : String
  deriving DecidableEq

structure KeychainFile where
  identities : List Identity
  keys : List KeyEntry
  hosts : List HostSecrets
  /-- Written by a newer version: shown, never saved over. -/
  readOnly : Bool
  extra : Table

/-- The libraries for texts, ids and keys. -/
structure KeychainFormat (τ κ : Type) where
  parse : τ → Except String Table
  print : Table → Except String τ
  /-- Puts the file's header comment before a text. -/
  header : τ → τ
  ulidOfText : String → Option Ulid
  ulidText : Ulid → String
  /-- What a public key line says, when it is one. -/
  publicInfo : String → Option KeyInfo
  /-- What a private key's public half says. -/
  info : κ → KeyInfo
  toVault : κ → Except String (List UInt8)
  fromVault : List UInt8 → Except String κ

def keychainSchemaVersion : Int := 1

def maxEntryIdLen : Nat := 64

def refPrefix : String := "vault:"

def validId (id : String) : Bool :=
  trim id ≠ "" && id.utf8ByteSize ≤ maxEntryIdLen && !id.toList.any isControl

namespace KeychainFile

def empty : KeychainFile := ⟨[], [], [], false, []⟩

/-- A text, or an empty one when there is none. -/
def readText (table : Table) (key : String) : Option String :=
  match table.lookup key with
  | none => some ""
  | some (.string text) => some text
  | some _ => none

def readOptional (table : Table) (key : String) : Option (Option String) :=
  match table.lookup key with
  | none => some none
  | some (.string text) => some (some text)
  | some _ => none

def readInteger (table : Table) (key : String) : Option Int :=
  match table.lookup key with
  | none => some 0
  | some (.integer value) => some value
  | some _ => none

def readU32 (table : Table) (key : String) : Option Nat := do
  let value ← readInteger table key
  if 0 ≤ value ∧ value ≤ 4294967295 then some value.toNat else none

/-- The keys of a table that are none of these. -/
def unknown (table : Table) (known : List String) : Table :=
  table.filter fun entry => !(known.contains entry.1)

def identityKeys : List String := ["id", "name", "user", "password", "key", "notes"]

def readIdentity (value : Value) : Option Identity := do
  let table ← value.asTable
  let id ← readText table "id"
  let name ← readText table "name"
  let user ← readText table "user"
  let password ← readOptional table "password"
  let key ← readOptional table "key"
  let notes ← readText table "notes"
  some ⟨id, name, user, password, key, notes, unknown table identityKeys⟩

def keyKeys : List String :=
  ["id", "name", "algorithm", "bits", "public", "fingerprint", "private", "origin", "created"]

def readKey (value : Value) : Option KeyEntry := do
  let table ← value.asTable
  let id ← readText table "id"
  let name ← readText table "name"
  let algorithm ← readText table "algorithm"
  let bits ← readU32 table "bits"
  let publicLine ← readText table "public"
  let fingerprint ← readText table "fingerprint"
  let secret ← readOptional table "private"
  let origin ← readText table "origin"
  let created ← readInteger table "created"
  some ⟨id, name, algorithm, bits, publicLine, fingerprint, secret, origin, created,
    unknown table keyKeys⟩

def hostKeys : List String := ["host", "password", "key_passphrase"]

def readHost (value : Value) : Option HostSecrets := do
  let table ← value.asTable
  let host ← readText table "host"
  let password ← readOptional table "password"
  let keyPassphrase ← readOptional table "key_passphrase"
  some ⟨host, password, keyPassphrase, unknown table hostKeys⟩

def wrongTypes {α : Type} (read : Value → Option α) (key : String) (items : List Value) :
    List Warning :=
  items.zipIdx.filterMap fun item =>
    match read item.1 with
    | some _ => none
    | none => some ⟨s!"{key}[{item.2}]", "skipped: a value has the wrong type"⟩

/-- The entries under a key that can be read, and what is said of the others. -/
def entriesOf {α : Type} (read : Value → Option α) (root : Table) (key : String) :
    List α × List Warning :=
  match root.lookup key with
  | none => ([], [])
  | some (.array items) => (items.filterMap read, wrongTypes read key items)
  | some _ => ([], [⟨key, s!"expected [[{key}]] tables; skipped"⟩])

/-- What the loops of `check` carry. -/
structure Checking (α : Type) where
  kept : List α
  ids : List String
  made : Nat
  warnings : List Warning

def Checking.warn {α : Type} (state : Checking α) (warnings : List Warning) : Checking α :=
  { state with warnings := state.warnings ++ warnings }

section Check

variable {τ κ : Type} (format : KeychainFormat τ κ) (newId : Nat → String)

def parseRef (text : String) : Option Ulid :=
  if refPrefix.toList.isPrefixOf text.toList then
    format.ulidOfText (String.ofList (text.toList.drop refPrefix.toList.length))
  else none

def secretRef (id : Ulid) : String := refPrefix ++ format.ulidText id

/-- The reference when it is one. -/
def knownRef (reference : Option String) : Option String :=
  reference.filter fun text => (parseRef format text).isSome

def refWarning (reference : Option String) (key : String) : List Warning :=
  if reference.all fun text => (parseRef format text).isSome then []
  else [⟨key, "not a vault reference; dropped"⟩]

/-- An entry's id, or a new one when it is not valid. -/
def givenEntryId {α : Type} (state : Checking α) (id : String) : String :=
  if validId id then id else newId state.made

def takeId {α : Type} (state : Checking α) (label id : String) : Checking α :=
  if validId id then state
  else { state with
    made := state.made + 1
    warnings := state.warnings ++
      [⟨label, "no valid id; a new one is saved with the next change"⟩] }

/-- The algorithm, size and fingerprint from the public key, when it is one. -/
def refreshFromPublic (key : KeyEntry) : KeyEntry :=
  match format.publicInfo (trim key.publicLine) with
  | some info => { key with
      algorithm := info.algorithm
      bits := info.bits
      fingerprint := info.fingerprint
      publicLine := info.publicLine }
  | none => key

def checkedKey (id : String) (key : KeyEntry) : KeyEntry :=
  let key := refreshFromPublic format { key with id }
  let name := trim key.name
  { key with
    secret := knownRef format key.secret
    name :=
      if name = "" then if key.fingerprint = "" then "Key" else key.fingerprint else name }

def keyWarnings (label : String) (key : KeyEntry) : List Warning :=
  (if (format.publicInfo (trim key.publicLine)).isSome then []
    else [⟨label ++ ".public", "not an OpenSSH public key"⟩]) ++
    refWarning format key.secret (label ++ ".private")

/-- How an entry with an id of its own is checked. -/
structure EntryKind (α : Type) where
  label : String
  id : α → String
  checked : String → α → α
  warnings : String → α → List Warning

def checkEntry {α : Type} (kind : EntryKind α) (index : Nat) (state : Checking α)
    (entry : α) : Checking α :=
  let label := kind.label ++ s!"[{index}]"
  let id := givenEntryId newId state (kind.id entry)
  let taken := takeId state label (kind.id entry)
  if id ∈ taken.ids then taken.warn [⟨label, "its id is used twice; skipped"⟩]
  else
    { taken.warn (kind.warnings label entry) with
      kept := taken.kept ++ [kind.checked id entry]
      ids := id :: taken.ids }

def checkEntries {α : Type} (kind : EntryKind α) : Nat → Checking α → List α → Checking α
  | _, state, [] => state
  | index, state, entry :: rest =>
    checkEntries kind (index + 1) (checkEntry newId kind index state entry) rest

def keyKind : EntryKind KeyEntry := ⟨"key", KeyEntry.id, checkedKey format, keyWarnings format⟩

def checkedIdentity (keyIds : List String) (id : String) (identity : Identity) : Identity :=
  let user := trim identity.user
  let name := trim identity.name
  { identity with
    id
    password := knownRef format identity.password
    key := identity.key.filter fun key => keyIds.contains key
    user
    name := if name = "" then if user = "" then "Identity" else user else name }

def identityWarnings (keyIds : List String) (label : String) (identity : Identity) : List Warning :=
  refWarning format identity.password (label ++ ".password") ++
    if identity.key.all fun key => keyIds.contains key then []
    else [⟨label ++ ".key", "unknown key; dropped"⟩]

def identityKind (keyIds : List String) : EntryKind Identity :=
  ⟨"identity", Identity.id, checkedIdentity format keyIds, identityWarnings format keyIds⟩

def checkedHost (entry : HostSecrets) : HostSecrets :=
  { entry with
    host := trim entry.host
    password := knownRef format entry.password
    keyPassphrase := knownRef format entry.keyPassphrase }

def hostWarnings (label : String) (entry : HostSecrets) : List Warning :=
  refWarning format entry.password (label ++ ".password") ++
    refWarning format entry.keyPassphrase (label ++ ".key_passphrase")

/-- A host's entry; one with nothing left in it goes without a word. -/
def checkHost (index : Nat) (state : Checking HostSecrets) (entry : HostSecrets) :
    Checking HostSecrets :=
  let label := s!"host[{index}]"
  let host := trim entry.host
  if host = "" ∨ maxEntryIdLen < host.utf8ByteSize then
    state.warn [⟨label, "no valid host id; skipped"⟩]
  else if host ∈ state.ids then
    state.warn [⟨label, "the host is listed twice; skipped"⟩]
  else
    { state.warn (hostWarnings format label entry) with
      kept := state.kept ++ [checkedHost format entry].filter fun entry => !entry.isEmpty
      ids := host :: state.ids }

def checkHosts : Nat → Checking HostSecrets → List HostSecrets → Checking HostSecrets
  | _, state, [] => state
  | index, state, entry :: rest =>
    checkHosts (index + 1) (checkHost format index state entry) rest

/-- The file with what can be fixed fixed, and what is said of it. -/
def check (file : KeychainFile) : KeychainFile × List Warning :=
  let keys := checkEntries newId (keyKind format) 0 ⟨[], [], 0, []⟩ file.keys
  let identities := checkEntries newId (identityKind format (keys.kept.map KeyEntry.id)) 0
    ⟨[], keys.ids, keys.made, []⟩ file.identities
  let hosts := checkHosts format 0 ⟨[], [], 0, []⟩ file.hosts
  ({ file with keys := keys.kept, identities := identities.kept, hosts := hosts.kept },
    keys.warnings ++ identities.warnings ++ hosts.warnings)

/-- The version a file says it is of, and what is said of that. -/
def versionOf (root : Table) : Int × List Warning :=
  match root.lookup "schema_version" with
  | none => (keychainSchemaVersion, [])
  | some (.integer version) => (version, [])
  | some _ => (keychainSchemaVersion, [⟨"schema_version", "expected an integer"⟩])

def newerWarning (version : Int) : List Warning :=
  if keychainSchemaVersion < version then
    [⟨"schema_version", s!"version {version} is newer than this OpenSesh supports " ++
      s!"({keychainSchemaVersion}); the keychain is read-only until you upgrade"⟩]
  else []

def fromRoot (root : Table) : KeychainFile × List Warning :=
  let version := versionOf root
  let identities := entriesOf readIdentity root "identity"
  let keys := entriesOf readKey root "key"
  let hosts := entriesOf readHost root "host"
  let checked := check format newId
    { identities := identities.1
      keys := keys.1
      hosts := hosts.1
      readOnly := decide (keychainSchemaVersion < version.1)
      extra := unknown root ["schema_version", "identity", "key", "host"] }
  (checked.1, version.2 ++ newerWarning version.1 ++ identities.2 ++ keys.2 ++ hosts.2 ++ checked.2)

def fromTomlStr (text : τ) : Except String (KeychainFile × List Warning) := do
  let root ← format.parse text
  pure (fromRoot format newId root)

def optionalEntry (key : String) (value : Option String) : Table :=
  match value with
  | some text => [(key, .string text)]
  | none => []

/-- A text that is left out when it is empty. -/
def textEntry (key text : String) : Table := if text = "" then [] else [(key, .string text)]

/-- The table of these entries, those of `extra` last. -/
def tableOf (known extra : Table) : Table := insertAll (known ++ extra) []

def writeIdentity (identity : Identity) : Table :=
  tableOf ([("id", .string identity.id), ("name", .string identity.name)] ++
    textEntry "user" identity.user ++ optionalEntry "password" identity.password ++
    optionalEntry "key" identity.key ++ textEntry "notes" identity.notes) identity.extra

def writeKey (key : KeyEntry) : Table :=
  tableOf ([("id", .string key.id), ("name", .string key.name),
    ("algorithm", .string key.algorithm), ("bits", .integer key.bits),
    ("public", .string key.publicLine), ("fingerprint", .string key.fingerprint)] ++
    optionalEntry "private" key.secret ++ textEntry "origin" key.origin ++
    if key.created = 0 then [] else [("created", .integer key.created)]) key.extra

def writeHost (entry : HostSecrets) : Table :=
  tableOf ([("host", .string entry.host)] ++ optionalEntry "password" entry.password ++
    optionalEntry "key_passphrase" entry.keyPassphrase) entry.extra

def insertTables (root : Table) (key : String) (tables : List Table) : Table :=
  if tables = [] then root else insertEntry key (.array (tables.map Value.table)) root

def toRoot (file : KeychainFile) : Table :=
  insertTables (insertTables (insertTables
    (insertEntry "schema_version" (.integer keychainSchemaVersion) file.extra)
    "identity" (file.identities.map writeIdentity))
    "key" (file.keys.map writeKey))
    "host" (file.hosts.map writeHost)

def toTomlString (file : KeychainFile) : Except String τ :=
  (format.print file.toRoot).map format.header

def identity (file : KeychainFile) (id : String) : Option Identity :=
  file.identities.find? fun identity => identity.id = id

def key (file : KeychainFile) (id : String) : Option KeyEntry :=
  file.keys.find? fun key => key.id = id

def keyByFingerprint (file : KeychainFile) (fingerprint : String) : Option KeyEntry :=
  file.keys.find? fun key => key.fingerprint = fingerprint

def hostSecrets (file : KeychainFile) (id : String) : Option HostSecrets :=
  file.hosts.find? fun entry => entry.host = id

/-- The texts that may refer to secrets. -/
def references (file : KeychainFile) : List String :=
  file.identities.filterMap Identity.password ++ file.keys.filterMap KeyEntry.secret ++
    file.hosts.flatMap fun entry => entry.password.toList ++ entry.keyPassphrase.toList

/-- Every vault secret the file refers to. -/
def secretIds (file : KeychainFile) : List Ulid := file.references.filterMap (parseRef format)

end Check

end KeychainFile

end Opensesh.Vault
