/-
`known_hosts` files: reading lines, matching the names of hosts, what a server's
key means, and writing a key down for a host.
-/
import Opensesh.Text

namespace Opensesh

namespace KnownHosts

/-- The encodings and digests used. -/
structure Crypto where
  /-- `Base64::decode_vec`. -/
  decode : List Char → Option (List UInt8)
  /-- `Base64::encode_string`. -/
  encode : List UInt8 → List Char
  encodeUnpadded : List UInt8 → List Char
  sha256 : List UInt8 → List UInt8
  /-- The HMAC-SHA1 of a message, by key. -/
  hmac : List UInt8 → List UInt8 → List UInt8

/-- One host key line. -/
structure KnownHost where
  /-- 1-based line number. -/
  line : Nat
  /-- `cert-authority` or `revoked`, when marked. -/
  marker : Option (List Char)
  /-- The host patterns as written (empty when hashed). -/
  hosts : List Char
  hashed : Bool
  /-- The hosts field exactly as written. -/
  rawHosts : List Char
  keyType : List Char
  key : List UInt8
  fingerprint : List Char
  comment : List Char

/-- The entries of a file and the numbers of the lines that didn't parse. -/
structure Entries where
  entries : List KnownHost
  badLines : List Nat

/-- The name a host is written under: `host`, or `[host]:port` for any port but 22. -/
def hostName (host : List Char) (port : UInt16) : List Char :=
  let host := (Text.trim host).map Text.toAsciiLower
  if port = 22 then host
  else '[' :: host ++ "]:".toList ++ (toString port.toNat).toList

def toLowerByte (b : UInt8) : UInt8 := if 65 ≤ b ∧ b ≤ 90 then b + 32 else b

/-- `*` matches any run of characters, `?` any one, ignoring case. -/
def wildcard : List UInt8 → List UInt8 → Bool
  | [], name => name.isEmpty
  | first :: rest, name =>
    if first = 42 then name.tails.any (wildcard rest)
    else match name with
      | head :: tail =>
        (first = 63 || toLowerByte first = toLowerByte head) && wildcard rest tail
      | [] => false

/-- The loop over patterns: whether one matched so far. -/
def matchPatterns (name : List UInt8) : Bool → List (List Char) → Bool
  | matched, [] => matched
  | matched, pattern :: rest =>
    match Text.stripPrefix ['!'] pattern with
    | some negated =>
      if wildcard (Text.bytes negated) name then false
      else matchPatterns name matched rest
    | none =>
      matchPatterns name (matched || wildcard (Text.bytes pattern) name) rest

/-- Some pattern matches and no `!` pattern does. -/
def patternsMatch (patterns name : List Char) : Bool :=
  matchPatterns (Text.bytes name) false
    ((Text.splitOn ',' patterns).filter fun pattern => !pattern.isEmpty)

section Lines

variable (crypto : Crypto)

/-- Whether `|1|salt|hash` is `name` hashed. -/
def hashedMatches (field name : List Char) : Bool :=
  match (Text.stripPrefix "|1|".toList field).bind (Text.splitOnce '|') with
  | some (salt, hash) =>
    match crypto.decode salt, crypto.decode hash with
    | some salt, some hash => crypto.hmac salt (Text.bytes name) = hash
    | _, _ => false
  | none => false

/-- Whether a line is about `name` (`host`, or `[host]:port`). -/
def KnownHost.matches (entry : KnownHost) (name : List Char) : Bool :=
  if entry.hashed then hashedMatches crypto entry.rawHosts name
  else patternsMatch entry.rawHosts name

/-- `SHA256:` and the unpadded base64 of the SHA-256 of a key blob. -/
def fingerprint (blob : List UInt8) : List Char :=
  "SHA256:".toList ++ crypto.encodeUnpadded (crypto.sha256 blob)

/-- The type name a key blob starts with. -/
def blobType : List UInt8 → Option (List UInt8)
  | a :: b :: c :: d :: rest =>
    let len := ((a.toNat * 256 + b.toNat) * 256 + c.toNat) * 256 + d.toNat
    if len ≤ rest.length then some (rest.take len) else none
  | _ => none

/-- The fields of a line after the marker. -/
def parseFields (number : Nat) (marker : Option (List Char)) : List (List Char) → Option KnownHost
  | first :: keyType :: encoded :: rest =>
    (crypto.decode encoded).bind fun blob =>
      if blobType blob = some (Text.bytes keyType) then
        let hashed := "|1|".toList.isPrefixOf first
        some
          { line := number
            marker
            hosts := if hashed then [] else first
            hashed
            rawHosts := first
            keyType
            fingerprint := fingerprint crypto blob
            key := blob
            comment := [' '].intercalate rest }
      else none
  | _ => none

def parseLine (line : List Char) (number : Nat) : Option KnownHost :=
  match Text.splitWhitespace line with
  | [] => none
  | first :: fields =>
    match Text.stripPrefix ['@'] first with
    | some name =>
      if name = "cert-authority".toList ∨ name = "revoked".toList then
        parseFields crypto number (some name) fields
      else none
    | none => parseFields crypto number none (first :: fields)

/-- Lines that are blank or comments are left out. -/
def isLeftOut (line : List Char) : Bool := line.isEmpty || line.head? = some '#'

def parseFrom (number : Nat) : List (List Char) → Entries
  | [] => ⟨[], []⟩
  | line :: rest =>
    let line := Text.trim line
    let later := parseFrom (number + 1) rest
    if isLeftOut line then later
    else match parseLine crypto line number with
      | some entry => { later with entries := entry :: later.entries }
      | none => { later with badLines := number :: later.badLines }

/-- Parses the text of a `known_hosts` file. -/
def parse (text : List Char) : Entries := parseFrom crypto 1 (Text.lines text)

end Lines

/-- What a server's key means. -/
inductive HostKeyStatus (φ : Type)
  | known (file : φ) (line : Nat)
  | new (otherTypes : List (List Char))
  | changed (file : φ) (line : Nat) (knownFingerprint : List Char)
  | revoked (file : φ) (line : Nat)
deriving DecidableEq

section Check

variable {φ : Type} (crypto : Crypto)

def KnownHost.revokes (entry : KnownHost) (key : List UInt8) : Bool :=
  entry.marker = some "revoked".toList && entry.key = key

/-- The first line that revokes a key. -/
def findRevoked (key : List UInt8) : List (φ × Entries) → Option (φ × Nat)
  | [] => none
  | (file, known) :: rest =>
    match known.entries.find? (·.revokes key) with
    | some entry => some (file, entry.line)
    | none => findRevoked key rest

/-- The unmarked entries about a name. -/
def forHost (name : List Char) (known : Entries) : List KnownHost :=
  known.entries.filter fun entry => entry.marker.isNone && entry.matches crypto name

/-- The search through the files, up to the first that knows the host. -/
def checkFiles (name keyType : List Char) (key : List UInt8) : List (φ × Entries) → HostKeyStatus φ
  | [] => .new []
  | (file, known) :: rest =>
    let forHost := forHost crypto name known
    match forHost.find? fun entry => entry.key = key with
    | some entry => .known file entry.line
    | none =>
      match forHost.find? fun entry => entry.keyType = keyType with
      | some entry => .changed file entry.line entry.fingerprint
      | none =>
        if forHost.isEmpty then checkFiles name keyType key rest
        else .new (forHost.map fun entry => entry.keyType ++ ' ' :: entry.fingerprint)

/-- The status of a key for `host`:`port`, from files in order of precedence. -/
def check (files : List (φ × Entries)) (host : List Char) (port : UInt16)
    (keyType : List Char) (key : List UInt8) : HostKeyStatus φ :=
  match findRevoked key files with
  | some (file, line) => .revoked file line
  | none => checkFiles crypto (hostName host port) keyType key files

end Check

section Remember

variable (crypto : Crypto)

/-- An entry that a new key of the type for the name replaces. -/
def KnownHost.replacedBy (name keyType : List Char) (entry : KnownHost) : Bool :=
  entry.marker.isNone && entry.keyType = keyType && entry.matches crypto name

def replacedLines (name keyType : List Char) (known : Entries) : List Nat :=
  (known.entries.filter (·.replacedBy crypto name keyType)).map KnownHost.line

/-- The lines but those with the numbers given. -/
def keepLines (replaced : List Nat) (number : Nat) : List (List Char) → List (List Char)
  | [] => []
  | line :: rest =>
    if number ∈ replaced then keepLines replaced (number + 1) rest
    else line :: keepLines replaced (number + 1) rest

/-- The line written for a host. -/
def writtenLine (name keyType : List Char) (key : List UInt8) : List Char :=
  name ++ ' ' :: keyType ++ ' ' :: crypto.encode key ++ ['\n']

/-- Adds a key to the text of OpenSesh's file, replacing the host's keys of the
same type there. -/
def remember (current host : List Char) (port : UInt16) (keyType : List Char)
    (key : List UInt8) : List Char :=
  let name := hostName host port
  let replaced := replacedLines crypto name keyType (parse crypto current)
  let text := (keepLines replaced 1 (Text.lines current)).flatMap fun line => line ++ ['\n']
  text ++ writtenLine crypto name keyType key

end Remember

end KnownHosts

end Opensesh
