/-
The keychain as the app uses it: the vault and `keychain.toml` together, with every
operation that changes a secret and the entry that refers to it, and the order in which
each writes the two.
-/
import Opensesh.KeychainFile

namespace Opensesh.Vault

/-- Why a keychain operation failed. -/
inductive KeychainOpError where
  | vault (error : VaultError)
  | key (message : String)
  | needsVault
  | notFound (what : String)
  | duplicate (id : String)
  | readOnly
  | write

/-- How a password changes when an entry is saved. -/
inductive PasswordChange where
  | keep
  | clear
  | set (secret : List UInt8)

/-- Which of a host's saved secrets. -/
inductive HostSecret where
  | password
  | keyPassphrase

def HostSecret.setSlot (which : HostSecret) (value : Option String) (entry : HostSecrets) :
    HostSecrets :=
  match which with
  | .password => { entry with password := value }
  | .keyPassphrase => { entry with keyPassphrase := value }

def HostSecret.reference (which : HostSecret) (entry : HostSecrets) : Option String :=
  match which with
  | .password => entry.password
  | .keyPassphrase => entry.keyPassphrase

/-- An identity as the editor saves it. -/
structure IdentityEdit where
  /-- Empty for a new identity. -/
  id : String
  name : String
  user : String
  password : PasswordChange
  key : Option String
  notes : String

/-- Where the vault is. -/
inductive Status where
  | missing
  | unreadable
  | locked
  | unlocked
  deriving DecidableEq

def State.status : State → Status
  | .missing => .missing
  | .unreadable => .unreadable
  | .locked _ _ => .locked
  | .unlocked _ => .unlocked

/-- Why `keychain.toml` can't be read. -/
inductive KeychainError where
  | read (path : String)
  | syntaxError (path message : String)

def KeychainError.text : KeychainError → String
  | .read path => "could not read " ++ path
  | .syntaxError path message => path ++ " is not valid TOML (" ++ message ++ ")"

/-- The vault and `keychain.toml`, in memory and on disk. -/
structure Keychain (τ : Type) where
  filePath : Option String
  vault : World
  file : KeychainFile
  warnings : List Warning
  /-- `keychain.toml` couldn't be read: never saved over. -/
  lockedFile : Bool
  disk : Option τ

/-- What the world does during one operation on the keychain: during each of its steps on
the vault, when the file is written and read, and the ids it makes. -/
structure Luck where
  storeWorks : Bool
  creating : Chance
  storing : Chance
  forgetting : Chance
  forgettingNext : Chance
  write : Written
  readable : Bool
  newId : String
  newIds : Nat → String
  now : Int

abbrev KeychainOp (τ α : Type) := Attempt (Keychain τ) KeychainOpError α

def recommended : KdfParams := ⟨64 * 1024, 3, 4⟩

def keychainFileName : String := "keychain.toml"

/-- Secret `id` of an open vault. -/
def World.get (world : World) (id : Ulid) : Except VaultError Secret :=
  match world.state with
  | .unlocked vault =>
    match vault.entries.lookup id with
    | some secret => .ok secret
    | none => .error .notFound
  | .locked _ _ => .error .locked
  | .missing => .error .missing
  | .unreadable => .error .unreadable

namespace Keychain

section Operations

variable {τ κ : Type} (cipher : Cipher) (format : KeychainFormat τ κ) (luck : Luck)

/-- A step on the vault. -/
def onVault {α : Type} (op : VaultOp α) : KeychainOp τ α := fun keychain =>
  match op keychain.vault with
  | (.ok a, vault) => (.ok a, { keychain with vault })
  | (.error error, vault) => (.error (.vault error), { keychain with vault })

/-- `keychain.toml` as it is read: a missing file is an empty keychain. -/
def load (path : String) (disk : Option τ) : Except KeychainError (KeychainFile × List Warning) :=
  match disk with
  | none => .ok (KeychainFile.empty, [])
  | some text =>
    if luck.readable = false then .error (.read path)
    else
      match KeychainFile.fromTomlStr format luck.newIds text with
      | .ok loaded => .ok loaded
      | .error message => .error (.syntaxError path message)

/-- Reads `keychain.toml` again. -/
def reload : KeychainOp τ Unit := Attempt.modify fun keychain =>
  match keychain.filePath with
  | none => keychain
  | some path =>
    match load format luck path keychain.disk with
    | .ok (file, warnings) => { keychain with file, warnings, lockedFile := file.readOnly }
    | .error error => { keychain with
        file := KeychainFile.empty
        warnings := [⟨keychainFileName, error.text⟩]
        lockedFile := true }

/-- Puts a text in the file. -/
def writeText (text : τ) : KeychainOp τ Unit := fun keychain =>
  match luck.write with
  | .whole => (.ok (), { keychain with disk := some text })
  | .failedBefore => (.error .write, keychain)
  | .failedAfter => (.error .write, { keychain with disk := some text })

def textOf (file : KeychainFile) : Except KeychainOpError τ :=
  match file.toTomlString format with
  | .ok text => .ok text
  | .error _ => .error .write

def saveFile (file : KeychainFile) : KeychainOp τ Unit := do
  let keychain ← Attempt.state
  if keychain.lockedFile then Attempt.fail .readOnly
  else
    match keychain.filePath with
    | none => pure ()
    | some _ => do
      let text ← Attempt.lift (textOf format file)
      writeText luck text

/-- The file written first, and kept in memory only if that worked. -/
def commit (file : KeychainFile) : KeychainOp τ Unit := do
  saveFile format luck file
  Attempt.modify fun keychain => { keychain with file }

/-- Makes sure there is a vault; a new one is held by the keyring. -/
def ensureVault : KeychainOp τ Unit := do
  let keychain ← Attempt.state
  if keychain.vault.state.status ≠ .missing then pure ()
  else if luck.storeWorks = false then Attempt.fail .needsVault
  else onVault (create cipher luck.creating none recommended)

/-- Removes a secret nothing refers to any more, as far as that works. -/
def forgetSecret (chance : Chance) (id : Ulid) : KeychainOp τ Unit := do
  let keychain ← Attempt.state
  if keychain.vault.state.status ≠ .unlocked then pure ()
  else do
    let _ ← (onVault (remove cipher chance [id])).attempt
    pure ()

def forgetSecrets (chance next : Chance) : List Ulid → KeychainOp τ Unit
  | [] => pure ()
  | id :: rest => do
    forgetSecret cipher chance id
    forgetSecrets next next rest

/-- Removes the secrets of the vault that nothing refers to. -/
def collectGarbage : KeychainOp τ Nat := do
  let keychain ← Attempt.state
  if keychain.lockedFile = true ∨ keychain.vault.state.status ≠ .unlocked then pure 0
  else
    onVault (retain cipher luck.storing fun id => (keychain.file.secretIds format).contains id)

/-- Where a password went: the entry's new reference, the secret no longer needed, and the
one that is new in the vault. -/
structure Stored where
  reference : Option String
  doomed : Option Ulid
  inserted : Option Ulid

/-- Puts a password in the vault: in place of the old one, or as a new secret. -/
def storePassword (old : Option Ulid) (secret : List UInt8) : KeychainOp τ Stored :=
  match old with
  | some id => do
    onVault (replace cipher luck.storing id .password secret)
    pure ⟨some (KeychainFile.secretRef format id), none, none⟩
  | none => do
    let id ← onVault (insert cipher luck.storing .password secret)
    pure ⟨some (KeychainFile.secretRef format id), none, some id⟩

def changePasswordTo (old : Option Ulid) (current : Option String) :
    PasswordChange → KeychainOp τ Stored
  | .keep => pure ⟨current, none, none⟩
  | .clear => pure ⟨none, old, none⟩
  | .set secret => do
    ensureVault cipher luck
    storePassword cipher format luck old secret

/-- Commits the file; a secret that is new in the vault goes again when that fails. -/
def commitStored (file : KeychainFile) (stored : Stored) : KeychainOp τ Unit := do
  let committed ← (commit format luck file).attempt
  match committed with
  | .ok () => forgetSecrets cipher luck.forgetting luck.forgettingNext stored.doomed.toList
  | .error error => do
    forgetSecrets cipher luck.forgetting luck.forgettingNext stored.inserted.toList
    Attempt.fail error

def newIdentity : Identity := ⟨luck.newId, "", "", none, none, "", []⟩

/-- The identity as the editor saved it. -/
def editedIdentity (edit : IdentityEdit) (reference : Option String) (identity : Identity) :
    Identity :=
  let user := trim edit.user
  let name := trim edit.name
  { identity with
    password := reference
    user
    name := if name = "" then if user = "" then "Identity" else user else name
    key := edit.key
    notes := edit.notes }

/-- Saves the identity that is at a position, or a new one. -/
def putIdentity (edit : IdentityEdit) (existing : Option Nat) (identity : Identity) :
    KeychainOp τ String := do
  let stored ← changePasswordTo cipher format luck
    (identity.password.bind (KeychainFile.parseRef format)) identity.password edit.password
  let keychain ← Attempt.state
  let edited := editedIdentity edit stored.reference identity
  let identities := match existing with
    | some index => keychain.file.identities.set index edited
    | none => keychain.file.identities ++ [edited]
  commitStored cipher format luck { keychain.file with identities } stored
  pure edited.id

/-- Saves an identity; its id. -/
def saveIdentity (edit : IdentityEdit) : KeychainOp τ String := do
  let keychain ← Attempt.state
  if keychain.lockedFile then Attempt.fail .readOnly
  else if edit.id ≠ "" ∧ (keychain.file.identity edit.id).isNone then
    Attempt.fail (.notFound edit.id)
  else
    match edit.key.filter fun key => (keychain.file.key key).isNone with
    | some key => Attempt.fail (.notFound key)
    | none =>
      match keychain.file.identities.findIdx? fun identity => edit.id ≠ "" ∧
          identity.id = edit.id with
      | some index =>
        putIdentity cipher format luck edit (some index)
          ((keychain.file.identities[index]?).getD (newIdentity luck))
      | none => putIdentity cipher format luck edit none (newIdentity luck)

/-- Deletes an identity and its password. -/
def deleteIdentity (id : String) : KeychainOp τ Unit := do
  let keychain ← Attempt.state
  match keychain.file.identity id with
  | none => Attempt.fail (.notFound id)
  | some removed => do
    commit format luck { keychain.file with
      identities := keychain.file.identities.eraseP fun identity => identity.id = id }
    forgetSecrets cipher luck.forgetting luck.forgettingNext
      (removed.password.bind (KeychainFile.parseRef format)).toList

/-- The hosts' entries with one of them changed, and none that is empty. -/
def setHost (hosts : List HostSecrets) (host : String)
    (change : HostSecrets → HostSecrets) : List HostSecrets :=
  let changed := match hosts.findIdx? fun entry => entry.host = host with
    | some index => hosts.modify index change
    | none => hosts ++ [change ⟨host, none, none, []⟩]
  changed.filter fun entry => !entry.isEmpty

def putHostSecret (host : String) (which : HostSecret) (change : PasswordChange)
    (saved : Option Ulid) : KeychainOp τ Unit := do
  let stored ← changePasswordTo cipher format luck saved none change
  let keychain ← Attempt.state
  commitStored cipher format luck { keychain.file with
    hosts := setHost keychain.file.hosts host (which.setSlot stored.reference) } stored

def savedSecret (file : KeychainFile) (host : String) (which : HostSecret) : Option Ulid :=
  ((file.hostSecrets host).bind which.reference).bind (KeychainFile.parseRef format)

/-- Whether there is nothing to do: a secret that stays, or one to clear that isn't saved. -/
def nothingToDo (change : PasswordChange) (saved : Option Ulid) : Bool :=
  match change with
  | .keep => true
  | .clear => saved.isNone
  | .set _ => false

/-- Saves, replaces or clears one of a host's secrets. -/
def setHostSecret (host : String) (which : HostSecret) (change : PasswordChange) :
    KeychainOp τ Unit := do
  let keychain ← Attempt.state
  let host := trim host
  let saved := savedSecret format keychain.file host which
  if nothingToDo change saved then pure ()
  else if keychain.lockedFile then Attempt.fail .readOnly
  else if host = "" then Attempt.fail (.notFound "a host without an id")
  else putHostSecret cipher format luck host which change saved

/-- Forgets everything saved for a host. -/
def forgetHost (host : String) : KeychainOp τ Unit := do
  let keychain ← Attempt.state
  match keychain.file.hostSecrets host with
  | none => pure ()
  | some removed =>
    if keychain.lockedFile then Attempt.fail .readOnly
    else do
      commit format luck { keychain.file with
        hosts := keychain.file.hosts.eraseP fun entry => entry.host = host }
      forgetSecrets cipher luck.forgetting luck.forgettingNext
        ((removed.password.toList ++ removed.keyPassphrase.toList).filterMap
          (KeychainFile.parseRef format))

def keyName (info : KeyInfo) (name : String) : String :=
  let name := trim name
  if name = "" then if info.comment = "" then info.label else info.comment else name

def newKeyEntry (info : KeyInfo) (secret : Ulid) (name origin : String) : KeyEntry :=
  ⟨luck.newId, keyName info name, info.algorithm, info.bits, info.publicLine,
    info.fingerprint, some (KeychainFile.secretRef format secret), origin, luck.now, []⟩

def keyBytes (key : κ) : Except KeychainOpError (List UInt8) :=
  match format.toVault key with
  | .ok data => .ok data
  | .error message => .error (.key message)

/-- Adds a key under a name; its id. A key that is here already is refused. -/
def addKey (key : κ) (name origin : String) : KeychainOp τ String := do
  let keychain ← Attempt.state
  if keychain.lockedFile then Attempt.fail .readOnly
  else
    match keychain.file.keyByFingerprint (format.info key).fingerprint with
    | some known => Attempt.fail (.duplicate known.id)
    | none => do
      ensureVault cipher luck
      let data ← Attempt.lift (keyBytes format key)
      let secret ← onVault (insert cipher luck.storing .privateKey data)
      let entry := newKeyEntry format luck (format.info key) secret name origin
      commitStored cipher format luck
        { keychain.file with keys := keychain.file.keys ++ [entry] } ⟨none, none, some secret⟩
      pure entry.id

/-- Renames a key. -/
def renameKey (id name : String) : KeychainOp τ Unit := do
  let keychain ← Attempt.state
  match keychain.file.keys.findIdx? fun key => key.id = id with
  | none => Attempt.fail (.notFound id)
  | some index =>
    commit format luck { keychain.file with
      keys := keychain.file.keys.modify index fun key =>
        if trim name = "" then key else { key with name := trim name } }

def withoutKey (id : String) (identity : Identity) : Identity :=
  if identity.key = some id then { identity with key := none } else identity

/-- Deletes a key and its private part; identities that used it keep their password. -/
def deleteKey (id : String) : KeychainOp τ Unit := do
  let keychain ← Attempt.state
  match keychain.file.key id with
  | none => Attempt.fail (.notFound id)
  | some removed => do
    commit format luck { keychain.file with
      keys := keychain.file.keys.eraseP fun key => key.id = id
      identities := keychain.file.identities.map (withoutKey id) }
    forgetSecrets cipher luck.forgetting luck.forgettingNext
      (removed.secret.bind (KeychainFile.parseRef format)).toList

/-- Which record an import gives the id it had in the bundle. -/
inductive Record where
  | identity
  | key

def Record.taken (record : Record) (file : KeychainFile) (id : String) : Bool :=
  match record with
  | .identity => (file.identity id).isSome
  | .key => (file.key id).isSome

/-- The file with the record `new`, and what refers to it, under another id. -/
def Record.rename (record : Record) (new wanted : String) (file : KeychainFile) : KeychainFile :=
  match record with
  | .identity => { file with
      identities := file.identities.map fun identity =>
        if identity.id = new then { identity with id := wanted } else identity }
  | .key => { file with
      keys := file.keys.map fun key => if key.id = new then { key with id := wanted } else key
      identities := file.identities.map fun identity =>
        if identity.key = some new then { identity with key := some wanted } else identity }

/-- Gives the record just added as `new` another id, when that is valid and free. -/
def keepId (record : Record) (new wanted : String) : KeychainOp τ String := do
  let keychain ← Attempt.state
  if validId wanted = false ∨ record.taken keychain.file wanted = true ∨ new = wanted then
    pure new
  else do
    commit format luck (record.rename new wanted keychain.file)
    pure wanted

/-- Deletes the vault, and what the entries say of its secrets. -/
def resetVault : KeychainOp τ Unit := do
  onVault (reset luck.storing)
  let keychain ← Attempt.state
  if keychain.lockedFile then pure ()
  else
    commit format luck { keychain.file with
      identities := keychain.file.identities.map fun identity => { identity with password := none }
      keys := keychain.file.keys.map fun key => { key with secret := none }
      hosts := [] }

end Operations

section Reading

variable {τ κ : Type} (format : KeychainFormat τ κ) (keychain : Keychain τ)

def getSecret (id : Ulid) : Except KeychainOpError Secret :=
  match keychain.vault.get id with
  | .ok secret => .ok secret
  | .error error => .error (.vault error)

/-- The secret a reference stands for. -/
def readRef (reference : Option String) (what : String) : Except KeychainOpError Secret :=
  match reference.bind (KeychainFile.parseRef format) with
  | some id => keychain.getSecret id
  | none => .error (.notFound what)

/-- A private key. -/
def privateKey (id : String) : Except KeychainOpError κ :=
  match keychain.file.key id with
  | none => .error (.notFound id)
  | some entry =>
    match keychain.readRef format entry.secret (id ++ " private key") with
    | .error error => .error error
    | .ok secret =>
      match format.fromVault secret.data with
      | .ok key => .ok key
      | .error message => .error (.key message)

end Reading

end Keychain

end Opensesh.Vault
