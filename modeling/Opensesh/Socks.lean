/-
The SOCKS5 client that reaches a host through a proxy, and the SOCKS5 server of dynamic
forwarding, each other's other side.
-/
import Opensesh.Duplex
import Opensesh.IpText
import Opensesh.LossyUtf8

namespace Opensesh.Socks

open Text Ip

structure NetworkError where
  target : List Char
  message : List Char

/-- `host:port`, with brackets around IPv6 addresses. -/
def address (host : List Char) (port : UInt16) : List Char :=
  if ':' ∈ host ∧ host.head? ≠ some '[' then
    '[' :: host ++ [']', ':'] ++ Nat.toDigits 10 port.toNat
  else host ++ ':' :: Nat.toDigits 10 port.toNat

/-- A host without the brackets around it. -/
def bare (host : List Char) : List Char :=
  ((host.dropWhile (· = '[')).reverse.dropWhile (· = ']')).reverse

/-- What the client asks for: a connection to an address, or to a name of at most 255 bytes. -/
def request (host : List Char) (port : UInt16) : Option (List UInt8) :=
  match IpAddr.parse (bare host) with
  | some (.v4 ip) => some ([5, 1, 0, 1] ++ ip.octets ++ toBe16 port)
  | some (.v6 ip) => some ([5, 1, 0, 4] ++ ip.octets ++ toBe16 port)
  | none =>
    if (bytes (bare host)).length ≤ 255 then
      some ([5, 1, 0, 3, UInt8.ofNat (bytes (bare host)).length] ++ bytes (bare host) ++
        toBe16 port)
    else none

/-- What the client says of a proxy's refusal. -/
def refusal (code : UInt8) : String :=
  if code = 2 then "the connection is not allowed by its rules"
  else if code = 3 then "the network is unreachable"
  else if code = 4 then "the host is unreachable"
  else if code = 5 then "the connection was refused"
  else if code = 6 then "the connection timed out"
  else "the connection failed"

/-- What the client's end is about: the host and port it wants, and the login it has. -/
structure Client where
  host : List Char
  port : UInt16
  login : Option (List Char × List Char)

namespace Client

abbrev Result := Except NetworkError Unit

def error (client : Client) (message : String) : Result :=
  .error ⟨address client.host client.port, "SOCKS5 proxy: ".toList ++ message.toList⟩

def fail (client : Client) (message : String) : Proc Result := .done (client.error message) false

/-- The stream ended while bytes were awaited. -/
def eof (client : Client) : Result := client.error "early eof"

/-- Skips the bound address and port. -/
def finish (client : Client) (skip : Nat) : Proc Result :=
  .read (skip + 2) (fun _ => .done (.ok ()) true) client.eof

/-- Reads the proxy's reply. -/
def replied (client : Client) (reply : List UInt8) : Proc Result :=
  if reply.getD 1 0 ≠ 0 then client.fail (refusal (reply.getD 1 0))
  else if reply.getD 3 0 = 1 then client.finish 4
  else if reply.getD 3 0 = 4 then client.finish 16
  else if reply.getD 3 0 = 3 then
    .read 1 (fun length => client.finish (length.getD 0 0).toNat) client.eof
  else client.fail "an unknown address type in its reply"

/-- Asks for the connection. -/
def connect (client : Client) : Proc Result :=
  match request client.host client.port with
  | some request => .write request (.read 4 client.replied client.eof)
  | none => client.fail "the host name is too long"

/-- Logs in with the user name and password method. -/
def authenticate (client : Client) : Proc Result :=
  match client.login with
  | none => client.fail "it asks for a user name and password"
  | some (user, password) =>
    if (bytes user).length ≤ 255 ∧ (bytes password).length ≤ 255 then
      .write ([1, UInt8.ofNat (bytes user).length] ++ bytes user ++
          [UInt8.ofNat (bytes password).length] ++ bytes password)
        (.read 2 (fun status =>
          if status.getD 1 0 ≠ 0 then client.fail "the user name or password was refused"
          else client.connect) client.eof)
    else client.fail "the user name or password is longer than 255 bytes"

/-- Reads which method the proxy chose. -/
def chosen (client : Client) (choice : List UInt8) : Proc Result :=
  if choice.getD 0 0 ≠ 5 then client.fail "not a SOCKS5 proxy"
  else if choice.getD 1 0 = 0 then client.connect
  else if choice.getD 1 0 = 2 then client.authenticate
  else if choice.getD 1 0 = 0xFF then
    client.fail "none of our authentication methods is accepted"
  else client.fail "it chose an unknown authentication method"

/-- The methods the client offers. -/
def methods (client : Client) : List UInt8 := if client.login.isSome then [0, 2] else [0]

/-- Asks a SOCKS5 proxy for a connection. -/
def socks5 (client : Client) : Proc Result :=
  .write ([5, UInt8.ofNat client.methods.length] ++ client.methods)
    (.read 2 client.chosen client.eof)

end Client

inductive SocksError where
  | version (version : UInt8)
  | noMethod
  | command (command : UInt8)
  | addressType (kind : UInt8)
  | io

inductive Reply where
  | succeeded
  | generalFailure
  | notAllowed
  | hostUnreachable
  | connectionRefused
  | commandNotSupported
  | addressTypeNotSupported
deriving DecidableEq

def Reply.code : Reply → UInt8
  | .succeeded => 0
  | .generalFailure => 1
  | .notAllowed => 2
  | .hostUnreachable => 4
  | .connectionRefused => 5
  | .commandNotSupported => 7
  | .addressTypeNotSupported => 8

namespace Server

/-- Where a client wants to go, or why it was turned away. -/
abbrev Result := Except SocksError (List Char × UInt16)

def fail (error : SocksError) : Proc Result := .done (.error error) false

def eof : Result := .error .io

/-- Answers a CONNECT. -/
def reply (answer : Reply) (next : Proc Result) : Proc Result :=
  .write [5, answer.code, 0, 1, 0, 0, 0, 0, 0, 0] next

/-- Reads the port; `command` is what the client asked for. -/
def acceptPort (ok : List Char → UInt16 → Proc Result) (command : UInt8) (host : List Char) :
    Proc Result :=
  .read 2 (fun port =>
    if command ≠ 1 then reply .commandNotSupported (fail (.command command))
    else ok host (ofBe16 (port.getD 0 0) (port.getD 1 0))) eof

/-- Reads the host of a request. -/
def acceptRequest (ok : List Char → UInt16 → Proc Result) (request : List UInt8) : Proc Result :=
  if request.getD 0 0 ≠ 5 then fail (.version (request.getD 0 0))
  else if request.getD 3 0 = 1 then
    .read 4 (fun octets => acceptPort ok (request.getD 1 0) (Ipv4Addr.ofOctets octets).display) eof
  else if request.getD 3 0 = 3 then
    .read 1 (fun length => .read (length.getD 0 0).toNat (fun name =>
      acceptPort ok (request.getD 1 0) (fromUtf8Lossy name)) eof) eof
  else if request.getD 3 0 = 4 then
    .read 16 (fun octets => acceptPort ok (request.getD 1 0) (Ipv6Addr.ofOctets octets).display) eof
  else reply .addressTypeNotSupported (fail (.addressType (request.getD 3 0)))

def acceptMethods (ok : List Char → UInt16 → Proc Result) (methods : List UInt8) : Proc Result :=
  if 0 ∈ methods then .write [5, 0] (.read 4 (acceptRequest ok) eof)
  else .write [5, 0xFF] (fail .noMethod)

/-- Greets a client and reads where it wants to go. -/
def accept (ok : List Char → UInt16 → Proc Result) : Proc Result :=
  .read 2 (fun head =>
    if head.getD 0 0 ≠ 5 then fail (.version (head.getD 0 0))
    else .read (head.getD 1 0).toNat (acceptMethods ok) eof) eof

/-- Gives a client that wants to go somewhere an outcome; only a connection keeps the stream. -/
def answer (outcome : Reply) (host : List Char) (port : UInt16) : Proc Result :=
  reply outcome (.done (.ok (host, port)) (outcome = .succeeded))

def serve (outcome : Reply) : Proc Result := accept (answer outcome)

end Server

/-- A client and a server that have said nothing yet. -/
def start (client : Client) (outcome : Reply) : Duplex Client.Result Server.Result :=
  ⟨client.socks5, [], Server.serve outcome, []⟩

/-- The host as the server is told it: an address in its canonical spelling, or the name. -/
def destination (host : List Char) : List Char :=
  match IpAddr.parse (bare host) with
  | some ip => ip.display
  | none => bare host

/-- Names the protocol has no room for. -/
def TooLong (host : List Char) : Prop :=
  IpAddr.parse (bare host) = none ∧ 255 < (bytes (bare host)).length

/-- The six bytes of an answer after its first four. -/
def boundAddress : List UInt8 := [0, 0, 0, 0, 0, 0]

/-- How client and server end. -/
def ended (client : Client) (outcome : Reply) : Duplex Client.Result Server.Result :=
  if outcome = .succeeded then
    ⟨.done (.ok ()) true, [], .done (.ok (destination client.host, client.port)) true, []⟩
  else
    ⟨client.fail (refusal outcome.code), boundAddress,
      .done (.ok (destination client.host, client.port)) false, []⟩

/-- How they end when the name is too long. -/
def endedLong (client : Client) : Duplex Client.Result Server.Result :=
  ⟨client.fail "the host name is too long", [], Server.fail .io, []⟩

end Opensesh.Socks
