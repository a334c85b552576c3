/-
The vault: its file, the keyring entry that may hold its key, and the secrets in memory,
with every operation on them and every way one of the three can fail.
-/
import Opensesh.VaultFormat
import Opensesh.Outcome

namespace Opensesh.Vault

/-- Wrong master passwords in a row, and when the last one was. -/
structure Backoff where
  failures : UInt32
  lastFailure : Nat
  deriving DecidableEq

def freeAttempts : UInt32 := 3
def firstDelaySecs : Nat := 5
def maxDelaySecs : Nat := 300

/-- The wait after this many wrong passwords in a row. -/
def delayAfter (failures : UInt32) : Nat :=
  if failures < freeAttempts then 0
  else
    let doublings := min (failures - freeAttempts).toNat 16
    min (firstDelaySecs <<< doublings) maxDelaySecs

/-- An open vault; with a master password, the keyring may have a copy of the key. -/
structure Unlocked where
  header : Header
  key : Key
  entries : Entries
  file : List UInt8
  remembered : Bool

inductive State where
  | missing
  | unreadable
  | locked (header : Header) (file : List UInt8)
  | unlocked (vault : Unlocked)

/-- Secrets by the id of the vault they belong to. -/
abbrev Keyring := Block 16 → Option (List UInt8)

def Keyring.set (keyring : Keyring) (id : Block 16) (secret : List UInt8) : Keyring :=
  fun name => if name = id then some secret else keyring name

def Keyring.delete (keyring : Keyring) (id : Block 16) : Keyring :=
  fun name => if name = id then none else keyring name

/-- The vault in memory, its file, the saved waits and the keyring. -/
structure World where
  onDisk : Bool
  state : State
  backoff : Backoff
  disk : Option (List UInt8)
  attempts : Backoff
  keyring : Keyring

/-- How writing the file ends: whole, failed with the old file kept, or failed once the new
file was already in place. -/
inductive Written where
  | whole
  | failedBefore
  | failedAfter
  deriving DecidableEq

/-- What the world does during one operation: the random bytes it draws, and which of the
keyring and the file system fail. -/
structure Chance where
  vaultId : Option (Block 16)
  key : Option Key
  salt : Option (Block saltLen)
  slotNonce : Option Nonce
  bodyNonce : Option Nonce
  secretId : Ulid
  keyringGet : Option StoreError
  keyringSet : Option StoreError
  keyringDelete : Option StoreError
  write : Written
  readable : Bool
  removable : Bool
  attemptsKept : Bool

abbrev VaultOp (α : Type) := Attempt World VaultError α

def keyringGet (chance : Chance) (id : Block 16) : VaultOp (Option (List UInt8)) :=
  fun world =>
    match chance.keyringGet with
    | some error => (.error (.keyring error), world)
    | none => (.ok (world.keyring id), world)

def keyringSet (chance : Chance) (id : Block 16) (secret : List UInt8) : VaultOp Unit :=
  fun world =>
    match chance.keyringSet with
    | some error => (.error (.keyring error), world)
    | none => (.ok (), { world with keyring := world.keyring.set id secret })

def keyringDelete (chance : Chance) (id : Block 16) : VaultOp Unit := fun world =>
  match chance.keyringDelete with
  | some error => (.error (.keyring error), world)
  | none => (.ok (), { world with keyring := world.keyring.delete id })

/-- Puts the bytes in the vault's file; a vault in memory has none. -/
def writeFile (chance : Chance) (file : List UInt8) : VaultOp Unit := fun world =>
  if world.onDisk = false then (.ok (), world)
  else
    match chance.write with
    | .whole => (.ok (), { world with disk := some file })
    | .failedBefore => (.error .write, world)
    | .failedAfter => (.error .write, { world with disk := some file })

def saveBackoff (chance : Chance) (backoff : Backoff) : VaultOp Unit :=
  Attempt.modify fun world =>
    { world with
      backoff
      attempts := if chance.attemptsKept && world.onDisk then backoff else world.attempts }

/-- Seconds to wait before the next try. -/
def wait (chance : Chance) (now : Nat) : VaultOp Nat := do
  let world ← Attempt.state
  let delay := delayAfter world.backoff.failures
  if delay = 0 then pure 0
  else if now < world.backoff.lastFailure then do
    saveBackoff chance { world.backoff with lastFailure := now }
    pure delay
  else pure (delay - (now - world.backoff.lastFailure))

/-- A wrong password. -/
def failed (chance : Chance) (now : Nat) : VaultOp Unit := do
  let world ← Attempt.state
  let failures :=
    if world.backoff.failures.toNat = 4294967295 then world.backoff.failures
    else world.backoff.failures + 1
  saveBackoff chance ⟨failures, now⟩

/-- A right password. -/
def succeeded (chance : Chance) : VaultOp Unit := do
  let world ← Attempt.state
  if world.backoff.failures = 0 then pure () else saveBackoff chance ⟨0, 0⟩

/-- The state a file is opened in. -/
def stateOf (chance : Chance) (disk : Option (List UInt8)) : State :=
  match disk with
  | none => .missing
  | some file =>
    if chance.readable = false then .unreadable
    else
      match readHeader file with
      | .ok (header, _) => .locked header file
      | .error _ => .unreadable

/-- The vault opened again from its file. -/
def openVault (chance : Chance) : VaultOp Unit := Attempt.modify fun world =>
  { world with
    state := if world.onDisk then stateOf chance world.disk else .missing
    backoff := if world.onDisk then world.attempts else ⟨0, 0⟩ }

def State.header : State → Option Header
  | .locked header _ => some header
  | .unlocked vault => some vault.header
  | _ => none

/-- With a master password: whether the keyring has a copy of the key, as far as is known. -/
def State.remembered : State → Bool
  | .unlocked vault => vault.remembered
  | _ => false

def unlocked : VaultOp Unlocked := do
  let world ← Attempt.state
  match world.state with
  | .unlocked vault => pure vault
  | .locked _ _ => Attempt.fail .locked
  | .missing => Attempt.fail .missing
  | .unreadable => Attempt.fail .unreadable

def setState (state : State) : VaultOp Unit := Attempt.modify fun world => { world with state }

section Operations

variable (cipher : Cipher) (chance : Chance)

/-- Writes the secrets under the header and the key; the header and the file. -/
def write (header : Header) (key : Key) (entries : Entries) : VaultOp (Header × List UInt8) := do
  let sealed ← Attempt.lift (sealFile cipher chance.bodyNonce header key entries)
  writeFile chance sealed.2
  pure sealed

/-- The holder of a new vault's key: a slot under the password, or the keyring. -/
def newHolder (vaultId : Block 16) (key : Key) (password : Option (List UInt8))
    (params : KdfParams) : VaultOp Holder :=
  match password with
  | some password => do
    let slot ← Attempt.lift
      (passwordSlot cipher chance.salt chance.slotNonce vaultId key password params)
    pure (.password slot)
  | none => do
    keyringSet chance vaultId key.bytes
    pure .keyring

/-- Writes a new vault; a key that went to the keyring is taken back when that fails. -/
def firstWrite (vaultId : Block 16) (holder : Holder) (key : Key)
    (password : Option (List UInt8)) : VaultOp Unit := do
  let written ← (write cipher chance ⟨vaultId, holder, zeroBlock nonceLen⟩ key []).attempt
  match written with
  | .ok sealed => setState (.unlocked ⟨sealed.1, key, [], sealed.2, false⟩)
  | .error error => do
    if password = none then do
      let _ ← (keyringDelete chance vaultId).attempt
      Attempt.fail error
    else Attempt.fail error

/-- Creates an empty vault, open. -/
def create (password : Option (List UInt8)) (params : KdfParams) : VaultOp Unit := do
  let world ← Attempt.state
  match world.state with
  | .missing => do
    let vaultId ← Attempt.lift (random chance.vaultId)
    let key ← Attempt.lift (random chance.key)
    let holder ← newHolder cipher chance vaultId key password params
    firstWrite cipher chance vaultId holder key password
  | _ => Attempt.fail .existing

def Holder.isPassword : Holder → Bool
  | .keyring => false
  | .password _ => true

/-- What the keyring's entry opens the file to, when it does. -/
def openWithEntry (file : List UInt8) (stored : List UInt8) :
    Except VaultError (Option (Key × Entries)) :=
  match Block.ofBytes keyLen stored with
  | none => .ok none
  | some key =>
    match openFile cipher file key with
    | .ok (_, entries) => .ok (some (key, entries))
    | .error .decrypt => .ok none
    | .error error => .error error

/-- Opens the vault with the key in the keyring, when it has one that fits. -/
def unlockWithKeyring : VaultOp Bool := do
  let world ← Attempt.state
  match world.state with
  | .unlocked _ => pure true
  | .locked header file => do
    let stored ← keyringGet chance header.vaultId
    match stored with
    | none => pure false
    | some stored => do
      let opened ← Attempt.lift (openWithEntry cipher file stored)
      match opened with
      | none => pure false
      | some (key, entries) => do
        setState (.unlocked ⟨header, key, entries, file, header.holder.isPassword⟩)
        pure true
  | _ => pure false

/-- Tries a password on the slot, with the waits. -/
def tryPassword (password : List UInt8) (now : Nat) : VaultOp Key := do
  let world ← Attempt.state
  match world.state.header with
  | none => Attempt.fail .missing
  | some header =>
    if header.holder.isPassword = false then Attempt.fail .wrongMode
    else do
      let pause ← wait chance now
      if 0 < pause then Attempt.fail (.wait pause)
      else
        match header.unwrapKey cipher password with
        | .ok key => do
          succeeded chance
          pure key
        | .error .decrypt => do
          failed chance now
          let pause ← wait chance now
          Attempt.fail (.wrongPassword pause)
        | .error error => Attempt.fail error

/-- The secrets of the file; a key that does not open them is a damaged file. -/
def openUnwrapped (file : List UInt8) (key : Key) : Except VaultError (Header × Entries) :=
  match openFile cipher file key with
  | .ok read => .ok read
  | .error .decrypt => .error (.format "the secrets don't match their key")
  | .error error => .error error

/-- Whether the keyring is seen to have this key. -/
def seenInKeyring (id : Block 16) (key : Key) : VaultOp Bool := do
  let stored ← (keyringGet chance id).attempt
  match stored with
  | .ok (some stored) => pure (decide (stored = key.bytes))
  | _ => pure false

/-- Opens the vault with the master password. -/
def unlock (password : List UInt8) (now : Nat) : VaultOp Unit := do
  let world ← Attempt.state
  match world.state with
  | .unlocked _ => pure ()
  | .locked _ file => do
    let key ← tryPassword cipher chance password now
    let read ← Attempt.lift (openUnwrapped cipher file key)
    let remembered ← seenInKeyring chance read.1.vaultId key
    setState (.unlocked ⟨read.1, key, read.2, file, remembered⟩)
  | .missing => Attempt.fail .missing
  | .unreadable => Attempt.fail .unreadable

/-- Forgets the secrets and the key until the next unlock. -/
def lock : VaultOp Unit := Attempt.modify fun world =>
  match world.state with
  | .unlocked vault => { world with state := .locked vault.header vault.file }
  | _ => world

/-- Checks the password of an open vault. -/
def verifyPassword (password : List UInt8) (now : Nat) : VaultOp Unit := do
  let vault ← unlocked
  let key ← tryPassword cipher chance password now
  if key = vault.key then pure ()
  else Attempt.fail (.format "the master password opens another key")

/-- Changes a copy of the secrets and writes them; the vault only follows the file. -/
def change {α : Type} (f : Entries → α × Entries) : VaultOp α := do
  let vault ← unlocked
  let changed := f vault.entries
  let sealed ← write cipher chance vault.header vault.key changed.2
  setState (.unlocked { vault with entries := changed.2, header := sealed.1, file := sealed.2 })
  pure changed.1

/-- Stores a new secret; its id. -/
def insert (kind : SecretKind) (data : List UInt8) : VaultOp Ulid :=
  if maxSecret < data.length then Attempt.fail (.format "a secret is too large")
  else change cipher chance fun entries =>
    (chance.secretId, insertEntry chance.secretId ⟨kind, data⟩ entries)

/-- Replaces a secret, or stores it under that id. -/
def replace (id : Ulid) (kind : SecretKind) (data : List UInt8) : VaultOp Unit :=
  if maxSecret < data.length then Attempt.fail (.format "a secret is too large")
  else change cipher chance fun entries => ((), insertEntry id ⟨kind, data⟩ entries)

/-- Keeps only some secrets; how many went. -/
def retain (keep : Ulid → Bool) : VaultOp Nat := do
  let vault ← unlocked
  let doomed := (vault.entries.filter fun entry => !keep entry.1).length
  if doomed = 0 then pure 0
  else change cipher chance fun entries => (doomed, entries.filter fun entry => keep entry.1)

/-- Removes these secrets; how many there were. -/
def remove (ids : List Ulid) : VaultOp Nat := retain cipher chance fun id => !(ids.contains id)

/-- The copy of the key in the keyring, when it is to be remembered. -/
def remember (yes : Bool) (id : Block 16) (key : Key) : VaultOp Unit :=
  if yes then keyringSet chance id key.bytes else pure ()

/-- Any copy of the key removed, when it is not to be remembered. -/
def forget (remembered : Bool) (id : Block 16) : VaultOp (Except VaultError Unit) :=
  if remembered then pure (.ok ()) else (keyringDelete chance id).attempt

/-- Protects the open vault with a password; the keyring keeps a copy of the key or not. -/
def setPassword (password : List UInt8) (params : KdfParams) (remembered : Bool) :
    VaultOp Unit := do
  let vault ← unlocked
  let id := vault.header.vaultId
  let slot ← Attempt.lift
    (passwordSlot cipher chance.salt chance.slotNonce id vault.key password params)
  remember chance remembered id vault.key
  let sealed ← write cipher chance ⟨id, .password slot, zeroBlock nonceLen⟩ vault.key vault.entries
  let forgotten ← forget chance remembered id
  match forgotten with
  | .ok () => setState (.unlocked { vault with header := sealed.1, file := sealed.2, remembered })
  | .error error => do
    setState (.unlocked { vault with header := sealed.1, file := sealed.2, remembered := true })
    Attempt.fail error

/-- Changes the master password; what is remembered stays as it was. -/
def changePassword (current new : List UInt8) (params : KdfParams) (now : Nat) : VaultOp Unit := do
  verifyPassword cipher chance current now
  let world ← Attempt.state
  setPassword cipher chance new params world.state.remembered

/-- Removes the master password: the keyring holds the key from now on. -/
def removePassword (current : List UInt8) (now : Nat) : VaultOp Unit := do
  verifyPassword cipher chance current now
  let vault ← unlocked
  let id := vault.header.vaultId
  keyringSet chance id vault.key.bytes
  let sealed ← write cipher chance ⟨id, .keyring, zeroBlock nonceLen⟩ vault.key vault.entries
  setState (.unlocked { vault with header := sealed.1, file := sealed.2, remembered := false })

/-- With a master password: keeps a copy of the key in the keyring, or removes it. -/
def setRemember (remembered : Bool) : VaultOp Unit := do
  let vault ← unlocked
  if vault.header.holder.isPassword = false then Attempt.fail .wrongMode
  else if remembered then do
    keyringSet chance vault.header.vaultId vault.key.bytes
    setState (.unlocked { vault with remembered })
  else do
    keyringDelete chance vault.header.vaultId
    setState (.unlocked { vault with remembered })

/-- Deletes the keyring entry of the vault, as far as that works. -/
def deleteEntry : VaultOp Unit := do
  let world ← Attempt.state
  match world.state.header with
  | some header => do
    let _ ← (keyringDelete chance header.vaultId).attempt
    pure ()
  | none => pure ()

/-- Deletes the vault, its keyring entry and the waits. -/
def reset : VaultOp Unit := do
  let world ← Attempt.state
  deleteEntry chance
  if world.onDisk && !chance.removable then Attempt.fail .write
  else do
    Attempt.modify fun world => { world with disk := none }
    succeeded chance
    setState .missing

end Operations

end Opensesh.Vault
