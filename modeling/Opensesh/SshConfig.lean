/-
Reading an OpenSSH client configuration line by line: which hosts the `Host` lines name,
and what the lines of their blocks add to them. The files an `Include` line reads are a
parameter.
-/
import Opensesh.Keyed
import Opensesh.SshConfigText

namespace Opensesh

open Target (parseNumber)
open Text (toAsciiLower)

namespace SshConfig

abbrev Alias := List Char

/-- A host named in the file. -/
structure SshHost where
  hostAlias : Alias
  hostName : Option (List Char) := none
  user : Option (List Char) := none
  port : Option Nat := none
  identityFiles : List (List Char) := []
  /-- `ProxyJump` hops, first first. -/
  proxyJump : Option (List (List Char)) := none
  forwards : List SshForward := []
  /-- The file of its first `Host` line. -/
  file : String
  line : Nat

structure ImportWarning where
  file : String
  line : Nat
  message : String

end SshConfig

structure SshConfig where
  /-- In the order they first appear. -/
  hosts : List SshConfig.SshHost := []
  warnings : List SshConfig.ImportWarning := []
  files : List String := []

namespace SshConfig

structure Parser where
  config : SshConfig := {}
  /-- The aliases of the current `Host` block; `none` outside one. -/
  current : Option (List Alias) := none
  warnedOutside : Bool := false

/-- The options of a block that are kept in the host itself. -/
inductive Setting where
  | hostName
  | user
  | port
  | identityFile
  | proxyJump
deriving DecidableEq

inductive Keyword where
  | host
  | matchBlock
  | includeFiles
  | forward (kind : Tunnels.Kind)
  | setting (setting : Setting)
  | other
deriving DecidableEq

/-- The keyword of a word in small letters. -/
def Keyword.of (word : List Char) : Keyword :=
  if word = "host".toList then .host
  else if word = "match".toList then .matchBlock
  else if word = "include".toList then .includeFiles
  else if word = "localforward".toList then .forward .localPort
  else if word = "remoteforward".toList then .forward .remote
  else if word = "dynamicforward".toList then .forward .dynamic
  else if word = "hostname".toList then .setting .hostName
  else if word = "user".toList then .setting .user
  else if word = "port".toList then .setting .port
  else if word = "identityfile".toList then .setting .identityFile
  else if word = "proxyjump".toList then .setting .proxyJump
  else .other

/-- The keyword and the arguments of a line, unless it is blank or a comment. -/
def readLine (raw : List Char) : Option (Except String (Keyword × List (List Char))) :=
  let trimmed := Text.trim raw
  if trimmed = [] ∨ trimmed.head? = some '#' then none
  else (splitKeyword trimmed).map fun (keyword, rest) =>
    (splitArgs rest).map fun args => (Keyword.of keyword, args)

/-- The hops of a `ProxyJump` value. -/
def hopsOf (value : List Char) : List (List Char) :=
  if value.map toAsciiLower = "none".toList then []
  else ((Text.splitOn ',' value).map Text.trim).filter (· ≠ [])

/-- What one option of its block adds to a host, and what is wrong with its value. -/
def SshHost.apply (hostAlias : Alias) (setting : Setting) (args : List (List Char))
    (host : SshHost) : SshHost × Option String :=
  let first := args.headD []
  match setting with
  | .hostName =>
    if host.hostName.isNone && first ≠ [] then
      let name := replaceName hostAlias first
      if startsWithDash name then
        (host, some ("HostName " ++ String.ofList name ++ " can't be used"))
      else ({ host with hostName := some name }, none)
    else (host, none)
  | .user =>
    if host.user.isNone && first ≠ [] then
      if startsWithDash first then
        (host, some ("User " ++ String.ofList first ++ " can't be used"))
      else ({ host with user := some first }, none)
    else (host, none)
  | .port =>
    if host.port.isNone then
      match (parseNumber 65535 first).filter (0 < ·) with
      | some port => ({ host with port := some port }, none)
      | none => (host, some ("Port " ++ String.ofList first ++ " is not a port"))
    else (host, none)
  | .identityFile =>
    if first ≠ [] ∧ first.map toAsciiLower ≠ "none".toList ∧ first ∉ host.identityFiles then
      ({ host with identityFiles := host.identityFiles ++ [first] }, none)
    else (host, none)
  | .proxyJump =>
    if host.proxyJump.isNone && first ≠ [] then
      ({ host with proxyJump := some (hopsOf first) }, none)
    else (host, none)

/-- The host of an alias, changed. -/
def updateHost (hostAlias : Alias) (change : SshHost → SshHost) (hosts : List SshHost) :
    List SshHost :=
  updateKey SshHost.hostAlias hostAlias change hosts

def hostOf (hostAlias : Alias) (hosts : List SshHost) : Option SshHost :=
  findKey SshHost.hostAlias hostAlias hosts

namespace Parser

def warn (parser : Parser) (file : String) (line : Nat) (message : String) : Parser :=
  { parser with
    config := { parser.config with
      warnings := parser.config.warnings ++ [⟨file, line, message⟩] } }

def setHosts (parser : Parser) (hosts : List SshHost) : Parser :=
  { parser with config := { parser.config with hosts := hosts } }

/-- One pattern of a `Host` line, with the aliases before it. -/
def startPattern (file : String) (line : Nat) (before : Parser × List Alias)
    (pattern : List Char) : Parser × List Alias :=
  let (parser, aliases) := before
  if hasWildcard pattern then
    (parser.warn file line ("pattern " ++ String.ofList pattern ++
      " is skipped (only plain host names are imported)"), aliases)
  else if startsWithDash pattern then
    (parser.warn file line (String.ofList pattern ++ " can't be a host name; skipped"), aliases)
  else
    let parser :=
      if (hostOf pattern parser.config.hosts).isNone then
        parser.setHosts (parser.config.hosts ++ [{ hostAlias := pattern, file, line }])
      else parser
    (parser, aliases ++ [pattern])

def startHost (parser : Parser) (patterns : List (List Char)) (file : String) (line : Nat) :
    Parser :=
  let (parser, aliases) := patterns.foldl (startPattern file line) (parser, [])
  { parser with current := some aliases }

/-- One option of a block, for one of its aliases. -/
def apply (setting : Setting) (args : List (List Char)) (file : String) (line : Nat)
    (parser : Parser) (hostAlias : Alias) : Parser :=
  match hostOf hostAlias parser.config.hosts with
  | none => parser
  | some host =>
    let parser := parser.setHosts
      (updateHost hostAlias (fun host => (host.apply hostAlias setting args).1) parser.config.hosts)
    match (host.apply hostAlias setting args).2 with
    | some message => parser.warn file line message
    | none => parser

/-- One forward of a block, for one of its aliases. -/
def push (forward : SshForward) (parser : Parser) (hostAlias : Alias) : Parser :=
  parser.setHosts (updateHost hostAlias
    (fun host => { host with forwards := host.forwards ++ [forward] }) parser.config.hosts)

section

/- What an `Include` line reads from the disk, and the file that is read. -/
variable (includes : Parser → List (List Char) → Nat → Parser) (file : String)

/-- One line of the file. -/
def line (parser : Parser) (numbered : List Char × Nat) : Parser :=
  let (raw, number) := numbered
  match readLine raw with
  | none => parser
  | some (.error message) => parser.warn file number message
  | some (.ok (.host, args)) => parser.startHost args file number
  | some (.ok (.matchBlock, _)) =>
    { parser with current := some [] }.warn file number
      "Match blocks are skipped (OpenSSH still applies them)"
  | some (.ok (.includeFiles, args)) => includes parser args number
  | some (.ok (.forward kind, args)) =>
    match parser.current with
    | none => parser
    | some aliases =>
      match parseForward kind args number with
      | .ok forward => aliases.foldl (push forward) parser
      | .error message => parser.warn file number message
  | some (.ok (.setting setting, args)) =>
    match parser.current with
    | none =>
      if parser.warnedOutside then parser
      else { parser with warnedOutside := true }.warn file number
        "options outside a Host block with plain names are skipped"
    | some aliases => aliases.foldl (apply setting args file number) parser
  | some (.ok (.other, _)) => parser

def parse (parser : Parser) (text : List Char) : Parser :=
  ((Text.lines text).zipIdx 1).foldl (line includes file) { parser with warnedOutside := false }

end

end Parser

/-- Parses a text as if it were the file `origin`. -/
def parseStr (includes : Parser → List (List Char) → Nat → Parser) (text : List Char)
    (origin : String) : SshConfig :=
  (Parser.parse includes origin { config := { files := [origin] } } text).config

end SshConfig

end Opensesh
