/-
The bytes of the vault file: its header, the payload of secrets, and the reader of both.
The reader accepts exactly what the writer's pieces are, from any bytes.
-/
import Opensesh.Assoc
import Opensesh.Bytes
import Mathlib.Order.Basic

namespace Opensesh.Vault

/-- Why the keyring could not be used. -/
inductive StoreError where
  | unavailable
  | denied
  | failed
  deriving DecidableEq

/-- Why a vault operation failed. -/
inductive VaultError where
  | random
  | format (message : String)
  | newer (version : UInt16)
  | decrypt
  | wrongPassword (wait : Nat)
  | wait (seconds : Nat)
  | locked
  | missing
  | existing
  | unreadable
  | wrongMode
  | notFound
  | keyring (error : StoreError)
  | write
  deriving DecidableEq

def keyLen : Nat := 32
def nonceLen : Nat := 24
def tagLen : Nat := 16
def saltLen : Nat := 16

def maxMemoryKib : UInt32 := 4 * 1024 * 1024
def maxIterations : UInt32 := 64
def maxLanes : UInt32 := 64

abbrev Key := Block keyLen
abbrev Nonce := Block nonceLen

/-- The costs of the key derivation. -/
structure KdfParams where
  memoryKib : UInt32
  iterations : UInt32
  lanes : UInt32

/-- Whether the costs are within the bounds this version accepts. -/
def KdfParams.isValid (params : KdfParams) : Bool :=
  1 ≤ params.lanes && params.lanes ≤ maxLanes &&
    (1 ≤ params.iterations && params.iterations ≤ maxIterations) &&
    8 * params.lanes ≤ params.memoryKib && params.memoryKib ≤ maxMemoryKib

/-- The cipher, with a key, a nonce and associated data, and the key derivation. -/
structure Cipher where
  encrypt : Key → Nonce → List UInt8 → List UInt8 → List UInt8
  decrypt : Key → Nonce → List UInt8 → List UInt8 → Option (List UInt8)
  argon2 : List UInt8 → Block saltLen → KdfParams → Key

/-- Random bytes; none when the system's generator fails. -/
def random {n : Nat} (drawn : Option (Block n)) : Except VaultError (Block n) :=
  match drawn with
  | some block => .ok block
  | none => .error .random

def deriveKey (cipher : Cipher) (password : List UInt8) (salt : Block saltLen)
    (params : KdfParams) : Except VaultError Key :=
  if params.isValid then .ok (cipher.argon2 password salt params)
  else .error (.format "key derivation costs out of range")

def openSealed (cipher : Cipher) (key : Key) (nonce : Nonce) (aad text : List UInt8) :
    Except VaultError (List UInt8) :=
  match cipher.decrypt key nonce aad text with
  | some plain => .ok plain
  | none => .error .decrypt

def magic : List UInt8 := [0x4F, 0x53, 0x56, 0x41, 0x55, 0x4C, 0x54, 0]
def formatVersion : UInt16 := 1
def padTo : Nat := 256
def holderKeyring : UInt8 := 1
def holderPassword : UInt8 := 2
def kdfArgon2id : UInt8 := 1
def maxPayload : Nat := 64 * 1024 * 1024
def maxSecret : Nat := 1024 * 1024

/-- What a secret is. Unknown kinds are kept as they are. -/
inductive SecretKind where
  | password
  | privateKey
  | other (byte : UInt8)
  deriving DecidableEq

def SecretKind.toByte : SecretKind → UInt8
  | .password => 1
  | .privateKey => 2
  | .other byte => byte

def SecretKind.fromByte (byte : UInt8) : SecretKind :=
  if byte = 1 then .password else if byte = 2 then .privateKey else .other byte

structure Secret where
  kind : SecretKind
  data : List UInt8
  deriving DecidableEq

/-- The id of a secret: a number of 16 bytes. -/
@[ext] structure Ulid where
  number : Nat
  bound : number < 256 ^ 16

instance : LinearOrder Ulid := LinearOrder.lift' Ulid.number fun _ _ h => Ulid.ext h

def Ulid.toBytes (id : Ulid) : List UInt8 := toBe 16 id.number

def Ulid.fromBytes (block : Block 16) : Ulid :=
  ⟨ofBe block.bytes, by
    have hlt := ofBe_lt block.bytes
    rwa [block.size] at hlt⟩

/-- The secrets by id, in the order of their ids. -/
abbrev Entries := List (Ulid × Secret)

/-- The key slot of the master password. -/
structure PasswordSlot where
  params : KdfParams
  salt : Block saltLen
  nonce : Nonce
  wrapped : Block (keyLen + tagLen)

/-- Who holds the vault key. -/
inductive Holder where
  | keyring
  | password (slot : PasswordSlot)

structure Header where
  vaultId : Block 16
  holder : Holder
  bodyNonce : Nonce

/-- The bytes before the wrap nonce. -/
def Header.slotPrefix (header : Header) : List UInt8 :=
  magic ++ toLe 2 formatVersion.toNat ++ header.vaultId.bytes ++
    match header.holder with
    | .keyring => [holderKeyring]
    | .password slot =>
      [holderPassword, kdfArgon2id] ++ toLe 4 slot.params.memoryKib.toNat ++
        toLe 4 slot.params.iterations.toNat ++ toLe 4 slot.params.lanes.toNat ++
        slot.salt.bytes

/-- The bytes of the header. -/
def Header.encode (header : Header) : List UInt8 :=
  header.slotPrefix ++
    (match header.holder with
    | .keyring => []
    | .password slot => slot.nonce.bytes ++ slot.wrapped.bytes) ++
    header.bodyNonce.bytes

def zeroBlock (n : Nat) : Block n := ⟨List.replicate n 0, List.length_replicate⟩

/-- A slot for the vault key under a password. -/
def passwordSlot (cipher : Cipher) (salt : Option (Block saltLen)) (nonce : Option Nonce)
    (vaultId : Block 16) (vaultKey : Key) (password : List UInt8) (params : KdfParams) :
    Except VaultError PasswordSlot := do
  let salt ← random salt
  let nonce ← random nonce
  let slot : PasswordSlot := ⟨params, salt, nonce, zeroBlock (keyLen + tagLen)⟩
  let header : Header := ⟨vaultId, .password slot, zeroBlock nonceLen⟩
  let derived ← deriveKey cipher password salt params
  let wrapped := cipher.encrypt derived nonce header.slotPrefix vaultKey.bytes
  match Block.ofBytes (keyLen + tagLen) wrapped with
  | some wrapped => .ok { slot with wrapped }
  | none => .error (.format "wrapped key has the wrong size")

/-- The vault key, unwrapped with the password. -/
def Header.unwrapKey (cipher : Cipher) (header : Header) (password : List UInt8) :
    Except VaultError Key :=
  match header.holder with
  | .keyring => .error .wrongMode
  | .password slot => do
    let derived ← deriveKey cipher password slot.salt slot.params
    let key ← openSealed cipher derived slot.nonce header.slotPrefix slot.wrapped.bytes
    match Block.ofBytes keyLen key with
    | some key => .ok key
    | none => .error (.format "wrapped key has the wrong size")

def entrySize (entry : Ulid × Secret) : Nat := 16 + 1 + 4 + entry.2.data.length

/-- The bytes of one secret. -/
def entryBytes (entry : Ulid × Secret) : List UInt8 :=
  entry.1.toBytes ++ [entry.2.kind.toByte] ++ toLe 4 entry.2.data.length ++ entry.2.data

def encodeEntry (entry : Ulid × Secret) : Except VaultError (List UInt8) :=
  if maxSecret < entry.2.data.length then .error (.format "a secret is too large")
  else .ok (entryBytes entry)

/-- The size of the payload, padded. -/
def paddedSize (entries : Entries) : Nat :=
  let size := 4 + (entries.map entrySize).sum
  max ((size + (padTo - 1)) / padTo) 1 * padTo

def encodePayload (entries : Entries) : Except VaultError (List UInt8) :=
  if 4294967295 < entries.length then .error (.format "too many secrets")
  else if maxPayload < paddedSize entries then
    .error (.format "the vault would be too large")
  else do
    let written ← entries.mapM encodeEntry
    let out := toLe 4 entries.length ++ written.flatten
    .ok (out ++ List.replicate (paddedSize entries - out.length) 0)

/-- The header with its new nonce, and the whole file. -/
def sealFile (cipher : Cipher) (nonce : Option Nonce) (header : Header) (key : Key)
    (entries : Entries) : Except VaultError (Header × List UInt8) := do
  let bodyNonce ← random nonce
  let header := { header with bodyNonce }
  let payload ← encodePayload entries
  .ok (header, header.encode ++ cipher.encrypt key header.bodyNonce header.encode payload)

/-- Some bytes and how many of them were read; never more than there are. -/
@[ext] structure Reader where
  bytes : List UInt8
  pos : Nat
  inside : pos ≤ bytes.length

/-- A reading of something, which goes on from where the last one ended. -/
abbrev Read (α : Type) := StateT Reader (Except VaultError) α

def cutShort : VaultError := .format "the file is cut short"

def Reader.take (len : Nat) : Read (List UInt8) := fun reader =>
  if h : reader.pos + len ≤ reader.bytes.length then
    .ok ((reader.bytes.drop reader.pos).take len, ⟨reader.bytes, reader.pos + len, h⟩)
  else .error cutShort

def Reader.array (n : Nat) : Read (Block n) := do
  let slice ← Reader.take n
  match Block.ofBytes n slice with
  | some block => pure block
  | none => throw cutShort

def Reader.u8 : Read UInt8 := do
  let block ← Reader.array 1
  pure (block.bytes.headD 0)

def Reader.u16 : Read UInt16 := do
  let block ← Reader.array 2
  pure (UInt16.ofNat (ofLe block.bytes))

def Reader.u32 : Read UInt32 := do
  let block ← Reader.array 4
  pure (UInt32.ofNat (ofLe block.bytes))

/-- Who holds the key, as the file says. -/
def readHolder : Read Holder := do
  let holder ← Reader.u8
  if holder = holderKeyring then pure .keyring
  else if holder = holderPassword then do
    let kdf ← Reader.u8
    if kdf ≠ kdfArgon2id then throw (.format "unknown key derivation")
    else do
      let memoryKib ← Reader.u32
      let iterations ← Reader.u32
      let lanes ← Reader.u32
      let params : KdfParams := ⟨memoryKib, iterations, lanes⟩
      if params.isValid = false then
        throw (.format "key derivation costs out of range")
      else do
        let salt ← Reader.array saltLen
        let nonce ← Reader.array nonceLen
        let wrapped ← Reader.array (keyLen + tagLen)
        pure (.password ⟨params, salt, nonce, wrapped⟩)
  else throw (.format "unknown key holder")

/-- The header at the start of a file. -/
def readFields : Read Header := do
  let start ← Reader.take magic.length
  if start ≠ magic then throw (.format "not an OpenSesh vault")
  else do
    let version ← Reader.u16
    if formatVersion < version then throw (.newer version)
    else if version = 0 then throw (.format "unknown version")
    else do
      let vaultId ← Reader.array 16
      let holder ← readHolder
      let bodyNonce ← Reader.array nonceLen
      pure ⟨vaultId, holder, bodyNonce⟩

def readerOf (bytes : List UInt8) : Reader := ⟨bytes, 0, Nat.zero_le _⟩

/-- The header of a vault file and where its body starts. -/
def readHeader (bytes : List UInt8) : Except VaultError (Header × Nat) := do
  let read ← readFields (readerOf bytes)
  if bytes.length - read.2.pos < tagLen then .error cutShort
  else .ok (read.1, read.2.pos)

def readEntry : Read (Ulid × Secret) := do
  let id ← Reader.array 16
  let kind ← Reader.u8
  let len ← Reader.u32
  if maxSecret < len.toNat then throw (.format "a secret is too large")
  else do
    let data ← Reader.take len.toNat
    pure (Ulid.fromBytes id, ⟨SecretKind.fromByte kind, data⟩)

/-- Reads this many secrets onto those read before. -/
def readEntries : Nat → Entries → Read Entries
  | 0, entries => pure entries
  | count + 1, entries => do
    let entry ← readEntry
    if (entries.lookup entry.1).isSome then throw (.format "a secret appears twice")
    else readEntries count (insertEntry entry.1 entry.2 entries)

def readPayload : Read Entries := do
  let count ← Reader.u32
  readEntries count.toNat []

def decodePayload (payload : List UInt8) : Except VaultError Entries := do
  let read ← readPayload (readerOf payload)
  .ok read.1

/-- The secrets of a vault file. -/
def openFile (cipher : Cipher) (bytes : List UInt8) (key : Key) :
    Except VaultError (Header × Entries) := do
  let read ← readHeader bytes
  let payload ← openSealed cipher key read.1.bodyNonce (bytes.take read.2) (bytes.drop read.2)
  let entries ← decodePayload payload
  .ok (read.1, entries)

end Opensesh.Vault
