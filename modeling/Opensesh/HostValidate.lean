/-
What is wrong with a host or a group before it is saved, as fields and codes.
-/
import Opensesh.HostResolve

namespace Opensesh.Saved

open Target (checkName checkUser parseEndpoint parseNumber)
open Text (splitOnce splitOnceText toAsciiLower)

/-- A field and what is wrong with it: `required`, `invalid` or `unknown`. -/
abbrev Problem := String × String

def failsWith {ε α : Type} : Except ε α → Bool
  | .ok _ => false
  | .error _ => true

/-- A text that is set, trimmed and not empty. -/
def filledText (text : Option String) : Option (List Char) :=
  (text.map fun text => Text.trim text.toList).filter fun text => !text.isEmpty

def startsWithDash (text : List Char) : Bool := text.head? == some '-'

/-- `host`, `host:port`, `[v6]` or `[v6]:port`. -/
def splitHostPort (text : List Char) : Option (List Char × Option Nat) :=
  let portOf port := (parseNumber 65535 port).filter fun port => port > 0
  match text with
  | '[' :: inner => do
    let (host, after) ← splitOnce ']' inner
    match after with
    | [] => some (host, none)
    | ':' :: port => do pure (host, some (← portOf port))
    | _ => none
  | _ =>
    match Target.rsplitOnce ':' text with
    | some (host, port) =>
      if !host.contains ':' then do pure (host, some (← portOf port))
      else some (text, none)
    | none => if text.isEmpty then none else some (text, none)

/-- Whether a text is a proxy's URL. -/
def isProxy (text : List Char) : Bool :=
  match splitOnceText "://".toList (Text.trim text) with
  | none => false
  | some (scheme, rest) =>
    let scheme := scheme.map toAsciiLower
    let rest := (rest.reverse.dropWhile (· = '/')).reverse
    let (user, address) := match Target.rsplitOnce '@' rest with
      | some (user, address) => (some user, address)
      | none => (none, rest)
    ["socks5".toList, "socks5h".toList, "socks".toList, "http".toList].contains scheme &&
      !(user.any fun user => failsWith (checkUser user)) &&
      (splitHostPort address).any fun (host, _) => !failsWith (checkName host)

/-- Whether a text can be an S3 endpoint: `host[:port]`, and no path. -/
def isEndpoint (text : List Char) : Bool :=
  let text := Text.trim text
  let rest := match splitOnceText "://".toList text with
    | some (scheme, rest) =>
      if ["http".toList, "https".toList].contains (scheme.map toAsciiLower) then some rest
      else none
    | none => some text
  rest.any fun rest =>
    let rest := (rest.reverse.dropWhile (· = '/')).reverse
    !rest.isEmpty && !rest.contains '/' &&
      match parseEndpoint rest with
      | .ok (user, _, _) => user.isNone
      | .error _ => false

def isRegion (region : List Char) : Bool :=
  !region.isEmpty && region.all fun c => c.isAlphanum || c == '-' || c == '_'

/-- `WIDTHxHEIGHT`, 200 to 8192 each. -/
def parseResolution (text : List Char) : Option (Nat × Nat) := do
  let text := Text.trim text
  let isTimes := fun c => c = 'x' || c = 'X' || c = '×'
  let side := fun text =>
    (parseNumber 65535 (Text.trim text)).filter fun side => 200 ≤ side && side ≤ 8192
  let width := text.takeWhile (!isTimes ·)
  match text.dropWhile (!isTimes ·) with
  | [] => none
  | _ :: height => do pure (← side width, ← side height)

def isName (name : List Char) : Bool :=
  !name.isEmpty && !startsWithDash name && !name.any fun c =>
    isWhitespace c || isControl c || c ∈ ['/', '?', '#', '&', '@']

def isContext (context : List Char) : Bool :=
  !context.isEmpty && !startsWithDash context && !context.any fun c => isWhitespace c || isControl c

/-- The words of a command line: quotes keep what they enclose together. -/
def splitLine (quote : Option Char) (inWord : Bool) (word : List Char) :
    List Char → Option (List (List Char))
  | [] => if quote.isSome then none else some (if inWord then [word] else [])
  | c :: rest =>
    match quote with
    | some opening =>
      if c = opening then splitLine none inWord word rest
      else splitLine quote inWord (word ++ [c]) rest
    | none =>
      if c = '"' ∨ c = '\'' then splitLine (some c) true word rest
      else if isWhitespace c then
        if inWord then (splitLine none false [] rest).map (word :: ·)
        else splitLine none false word rest
      else splitLine none true (word ++ [c]) rest

def splitCommand (line : List Char) : Option (List (List Char)) :=
  (splitLine none false [] line).filter fun words => !words.isEmpty

def checkContainer (options : ContainerOptions) : List Problem :=
  (if (filledText options.namespaceName).any fun name => !isName name then
    [("container.namespace", "invalid")] else []) ++
  (if (filledText options.podContainer).any fun name => !isName name then
    [("container.pod_container", "invalid")] else []) ++
  (if (filledText options.context).any fun context => !isContext context then
    [("container.context", "invalid")] else []) ++
  (if (filledText options.shell).any fun line =>
      match splitCommand line with
      | none => true
      | some words => words.head?.any startsWithDash
    then [("container.shell", "invalid")] else [])

/-- Field problems of SSH options. -/
def checkSsh (ssh : SshOptions) : List Problem :=
  (if (filledText ssh.proxy).any fun proxy => !isProxy proxy then
    [("ssh.proxy", "invalid")] else []) ++
  (if ssh.authOrder.any fun order =>
      order.isEmpty || order.any fun method => trim method ∉ defaultAuthOrder
    then [("ssh.auth_order", "invalid")] else []) ++
  (if ssh.env.any fun env => env.1.any fun (name, _) =>
      name = "" || !name.toList.all fun c => c.isAlphanum || c == '_'
    then [("ssh.env", "invalid")] else [])

namespace HostsFile

variable (file : HostsFile)

def host (id : String) : Option Host := file.hosts.find? fun host => host.id == id

def sameName (name other : String) : Bool :=
  name.toList.map toAsciiLower == other.toList.map toAsciiLower

/-- The host with an id, else the first one with that name. -/
def findHost (idOrName : String) : Option Host :=
  (file.host (trim idOrName)).or (file.hosts.find? fun host => sameName host.name (trim idOrName))

def badHop (hop : String) : Bool :=
  (file.findHost hop).isNone && failsWith (parseEndpoint (Text.trim hop.toList))

end HostsFile

/-- Whether an address is one of its protocol. -/
def validAddress (protocol : Protocol) (address : List Char) : Bool :=
  match protocol with
  | .serial => !startsWithDash address && !address.any isControl
  | .localShell => true
  | .docker | .kube =>
    !startsWithDash address && !address.any fun c => isWhitespace c || isControl c
  | .s3 => isEndpoint address
  | .ssh | .sftp | .telnet | .mosh | .rdp | .vnc =>
    !failsWith (checkName address) && !address.any fun c => c = '[' || c = ']'

def needsAddress (protocol : Protocol) : Bool := protocol ≠ .localShell && protocol ≠ .s3

namespace Host

def addressProblems (host : Host) : List Problem :=
  let address := Text.trim host.address.toList
  if needsAddress host.protocol && address.isEmpty then [("address", "required")]
  else if !address.isEmpty && !validAddress host.protocol address then [("address", "invalid")]
  else []

/-- What is wrong with a host before its jump hosts and its group are looked at. -/
def problemsBefore (host : Host) : List Problem :=
  (if trim host.name = "" then [("name", "required")] else []) ++
  host.addressProblems ++
  (if (filledText host.user).any fun user => failsWith (checkUser user) then
    [("user", "invalid")] else []) ++
  (if host.port = some 0 then [("port", "invalid")] else []) ++
  (if host.identityFile.any fun file => startsWithDash (file.toList.dropWhile isWhitespace) then
    [("identity_file", "invalid")] else [])

/-- What is wrong with the options of a host. -/
def problemsAfter (host : Host) : List Problem :=
  checkSsh host.ssh ++
  (if host.protocol = .docker ∨ host.protocol = .kube then checkContainer host.container
    else []) ++
  (if (filledText host.rdp.resolution).any fun text => (parseResolution text).isNone then
    [("rdp.resolution", "invalid")] else []) ++
  (if host.rdp.domain.any fun domain =>
      startsWithDash (Text.trim domain.toList) || domain.toList.any isControl
    then [("rdp.domain", "invalid")] else []) ++
  (if (filledText host.s3.region).any fun region => !isRegion region then
    [("s3.region", "invalid")] else [])

end Host

namespace HostsFile

variable (file : HostsFile)

/-- What is wrong with a host before it is saved. -/
def validateHost (host : Host) : List Problem :=
  host.problemsBefore ++
  (if host.jump.any fun jump => jump.any file.badHop then [("jump", "invalid")] else []) ++
  (if host.group.any fun group => (file.group group).isNone then [("group", "unknown")]
    else []) ++
  host.problemsAfter

/-- What is wrong with a group before it is saved. -/
def validateGroup (group : Group) : List Problem :=
  (if trim group.name = "" then [("name", "required")] else []) ++
  (if group.parent.any fun parent => (file.group parent).isNone ||
      (group.id ≠ "" && (file.plain.subtree group.id).contains parent)
    then [("parent", "invalid")] else []) ++
  (if (filledText group.defaults.user).any fun user => failsWith (checkUser user) then
    [("user", "invalid")] else []) ++
  (if group.defaults.port = some 0 then [("port", "invalid")] else []) ++
  (if group.defaults.jump.any fun jump => jump.any file.badHop then [("jump", "invalid")]
    else []) ++
  checkSsh group.defaults.ssh

end HostsFile

end Opensesh.Saved
