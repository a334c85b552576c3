/-
Quick connect: the words of the text a connection is typed as, as a shell splits them, and the
endpoints and jump hosts in it.
-/
import Opensesh.Text

namespace Opensesh.Target

open Text

inductive Protocol where
  | ssh
  | sftp
  | telnet
  | serial
  | mosh
  | rdp
  | vnc
  | localShell
  | docker
  | kube
  | s3
  deriving DecidableEq

namespace Protocol

def all : List Protocol := [ssh, sftp, telnet, serial, mosh, rdp, vnc, localShell, docker, kube, s3]

/-- The name in files and URLs. -/
def asStr : Protocol → List Char
  | ssh => ['s', 's', 'h']
  | sftp => ['s', 'f', 't', 'p']
  | telnet => ['t', 'e', 'l', 'n', 'e', 't']
  | serial => ['s', 'e', 'r', 'i', 'a', 'l']
  | mosh => ['m', 'o', 's', 'h']
  | rdp => ['r', 'd', 'p']
  | vnc => ['v', 'n', 'c']
  | localShell => ['l', 'o', 'c', 'a', 'l']
  | docker => ['d', 'o', 'c', 'k', 'e', 'r']
  | kube => ['k', 'u', 'b', 'e']
  | s3 => ['s', '3']

/-- The usual port, for protocols that have one. -/
def defaultPort : Protocol → Option Nat
  | ssh | sftp | mosh => some 22
  | telnet => some 23
  | rdp => some 3389
  | vnc => some 5900
  | serial | localShell | docker | kube | s3 => none

end Protocol

inductive Parity where
  | none
  | even
  | odd
  deriving DecidableEq

inductive FlowControl where
  | none
  | software
  | hardware
  deriving DecidableEq

inductive Engine where
  | docker
  | podman
  deriving DecidableEq

/-- What is wrong with a container or pod. -/
inductive ContainerProblem where
  | notNamespace
  | notName (key value : List Char)
  | unknownSetting (key : List Char)
  | takesNoSettings
  | noPod
  | noContainer
  deriving DecidableEq

/-- What is wrong with an S3 address or setting. -/
inductive S3Problem where
  | noServer
  | pathStyle (value : List Char)
  | notRegion (value : List Char)
  | unknownSetting (key : List Char)
  deriving DecidableEq

/-- What is wrong with a serial line. -/
inductive SerialProblem where
  | noDevice
  | setting (key value : List Char)
  | unknownSetting (key : List Char)
  deriving DecidableEq

/-- Why a text is no target. -/
inductive TargetError where
  | empty
  | unbalanced
  | missingHost
  | extra (word : List Char)
  | missingValue (option : List Char)
  | unknownOption (option : List Char)
  | unknownScheme (scheme : List Char)
  | badPort (text : List Char)
  | badName (name : List Char)
  | badSerial (problem : SerialProblem)
  | badContainer (problem : ContainerProblem)
  | badS3 (problem : S3Problem)
  deriving DecidableEq

inductive Quote where
  | none
  | single
  | double

/-- The words from here on, with the word and the quotes that are open. -/
def wordsIn (quote : Quote) (inWord : Bool) (current : List Char) :
    List Char → Except TargetError (List (List Char))
  | [] =>
    match quote with
    | .none => .ok (if inWord then [current] else [])
    | _ => .error .unbalanced
  | c :: rest =>
    match quote with
    | .single =>
      if c = '\'' then wordsIn .none true current rest
      else wordsIn .single true (current ++ [c]) rest
    | .double =>
      if c = '"' then wordsIn .none true current rest
      else if c = '\\' then
        match rest with
        | [] => .error .unbalanced
        | escaped :: rest => wordsIn .double true (current ++ [escaped]) rest
      else wordsIn .double true (current ++ [c]) rest
    | .none =>
      if c = '\'' then wordsIn .single true current rest
      else if c = '"' then wordsIn .double true current rest
      else if c = '\\' then
        match rest with
        | [] => .ok [current]
        | escaped :: rest => wordsIn .none true (current ++ [escaped]) rest
      else if isWhitespace c then
        if inWord then (wordsIn .none false [] rest).map (current :: ·)
        else wordsIn .none false [] rest
      else wordsIn .none true (current ++ [c]) rest

example : wordsIn .single true [] ['a'] = .error .unbalanced := by simp [wordsIn]

/-- Splits like a POSIX shell: whitespace separates, single and double quotes group, a
backslash escapes the next character. -/
def splitWords (text : List Char) : Except TargetError (List (List Char)) :=
  wordsIn .none false [] text

/-- A host name: no whitespace, `@` or `/`, and nothing `ssh` would read as an option. -/
def checkName (name : List Char) : Except TargetError Unit :=
  let bad := name.isEmpty || name.head? == some '-' ||
    name.any fun c => isWhitespace c || isControl c || c == '@' || c == '/'
  if bad then .error (.badName name) else .ok ()

/-- A user name: like a host, but `@` is allowed. -/
def checkUser (name : List Char) : Except TargetError Unit :=
  let bad := name.isEmpty || name.head? == some '-' ||
    name.any fun c => isWhitespace c || isControl c || c == '/'
  if bad then .error (.badName name) else .ok ()

/-- A number without the plus sign it may start with. -/
def withoutPlus : List Char → List Char
  | [] => []
  | c :: digits => if c = '+' then digits else c :: digits

/-- A number of at most `max`: digits, with a plus sign or not. -/
def parseNumber (max : Nat) (text : List Char) : Option Nat :=
  let digits := withoutPlus text
  if digits.isEmpty || !digits.all Char.isDigit then none
  else
    let n := Nat.ofDigitChars 10 digits 0
    if n ≤ max then some n else none

def parsePort (text : List Char) : Except TargetError Nat :=
  match (parseNumber 65535 text).filter fun port => port > 0 with
  | some port => .ok port
  | none => .error (.badPort text)

/-- A hexadecimal digit. -/
def hex (byte : UInt8) : Option UInt8 :=
  if 48 ≤ byte ∧ byte ≤ 57 then some (byte - 48)
  else if 65 ≤ byte ∧ byte ≤ 70 then some (byte - 55)
  else if 97 ≤ byte ∧ byte ≤ 102 then some (byte - 87)
  else none

/-- Bytes with their `%XX` escapes decoded; anything malformed is kept. -/
def percentBytes : List UInt8 → List UInt8
  | [] => []
  | byte :: rest =>
    if byte ≠ 37 then byte :: percentBytes rest
    else match rest with
      | [] => [byte]
      | [high] => byte :: percentBytes [high]
      | high :: low :: after =>
        match hex high, hex low with
        | some h, some l => (h * 16 + l) :: percentBytes after
        | _, _ => byte :: percentBytes (high :: low :: after)

/-- The text that bytes are in UTF-8; ASCII bytes are themselves. -/
def fromUtf8 (encoded : List UInt8) : Option (List Char) :=
  if encoded.all (· < 128) then some (encoded.map fun byte => Char.ofNat byte.toNat)
  else (ByteArray.mk encoded.toArray).utf8Decode?.map Array.toList

def percentDecode (text : List Char) : List Char := (fromUtf8 (percentBytes (bytes text))).getD text

/-- What comes before and after the last of a character. -/
def rsplitOnce (c : Char) (text : List Char) : Option (List Char × List Char) :=
  (splitOnce c text.reverse).map fun (after, before) => (before.reverse, after.reverse)

/-- The user of an endpoint, without the parameters of `ssh` URLs. -/
def userText (user : List Char) : List Char := percentDecode (user.takeWhile (· ≠ ';'))

/-- `host[:port]`, with IPv6 in brackets (or bare, without a port). -/
def parseAddress (rest : List Char) : Except TargetError (List Char × Option Nat) :=
  match rest with
  | '[' :: inner =>
    match splitOnce ']' inner with
    | none => .error (.badName rest)
    | some (host, []) => .ok (host, none)
    | some (host, ':' :: port) => (parsePort port).map fun port => (host, some port)
    | some (_, _) => .error (.badName rest)
  | rest =>
    if rest.count ':' > 1 then .ok (rest, none)
    else match rsplitOnce ':' rest with
      | some (host, port) => (parsePort port).map fun port => (host, some port)
      | none => .ok (rest, none)

/-- A user, a host and a port. -/
abbrev Endpoint := Option (List Char) × List Char × Option Nat

/-- The host of an endpoint, checked. -/
def parseHost (user : Option (List Char)) (rest : List Char) : Except TargetError Endpoint := do
  let (host, port) ← parseAddress rest
  if host.isEmpty then .error .missingHost
  else
    checkName host
    pure (user, host, port)

/-- `[user@]host[:port]`. -/
def parseEndpoint (text : List Char) : Except TargetError Endpoint :=
  match rsplitOnce '@' text with
  | some (user, rest) => do
    checkUser (userText user)
    parseHost (some (userText user)) rest
  | none => parseHost none text

def checkJump : List (List Char) → Except TargetError Unit
  | [] => .ok ()
  | item :: items => do
    let _ ← parseEndpoint item
    checkJump items

/-- `host` in brackets when it is an IPv6 address (so a port can follow). -/
def bracketIpv6 (host : List Char) : List Char :=
  if host.contains ':' && host.head? != some '[' then '[' :: host ++ [']'] else host

/-- A number as it is written. -/
def digits (n : Nat) : List Char := Nat.toDigits 10 n

end Opensesh.Target
