/-
The telnet protocol of a connection: what the server's bytes come to, and two ends that both
answer this way, joined by two channels.
-/
import Mathlib.Logic.Function.Basic
import Mathlib.Data.List.Basic

namespace Opensesh.Telnet

def BINARY : UInt8 := 0
def ECHO : UInt8 := 1
def SGA : UInt8 := 3
def TTYPE : UInt8 := 24
def NAWS : UInt8 := 31

def IAC : UInt8 := 255
def DONT : UInt8 := 254
def DO : UInt8 := 253
def WONT : UInt8 := 252
def WILL : UInt8 := 251
def SB : UInt8 := 250
def SE : UInt8 := 240
def CR : UInt8 := 13
def TTYPE_IS : UInt8 := 0
def TTYPE_SEND : UInt8 := 1

/-- The longest subnegotiation kept. -/
def MAX_SUBNEGOTIATION : Nat := 4096

/-- Options the server may turn on for itself. -/
def THEIRS : List UInt8 := [ECHO, SGA, BINARY]

/-- Options the client turns on when asked. -/
def OURS : List UInt8 := [SGA, BINARY, NAWS, TTYPE]

inductive State where
  | data
  | cr
  | iac
  | negotiate (verb : UInt8)
  | sub
  | subIac
deriving DecidableEq

structure TermSize where
  columns : UInt16
  lines : UInt16

structure Received where
  data : List UInt8 := []
  reply : List UInt8 := []

def Received.append (first second : Received) : Received :=
  ⟨first.data ++ second.data, first.reply ++ second.reply⟩

/-- One telnet connection's protocol state. -/
structure Nvt where
  state : State
  sub : List UInt8
  ours : UInt8 → Bool
  theirs : UInt8 → Bool
  term : List UInt8
  size : TermSize

/-- A number's two bytes, the high one first. -/
def beBytes (value : UInt16) : List UInt8 :=
  [UInt8.ofNat (value.toNat / 256), UInt8.ofNat (value.toNat % 256)]

namespace Nvt

/-- A connection with nothing negotiated yet. -/
def new (term : List UInt8) (size : TermSize) : Nvt :=
  { state := .data, sub := [], ours := fun _ => false, theirs := fun _ => false, term, size }

/-- The window size subnegotiation; a 255 in the numbers is doubled. -/
def windowSize (nvt : Nvt) : List UInt8 :=
  [IAC, SB, NAWS] ++
    (beBytes nvt.size.columns ++ beBytes nvt.size.lines).flatMap
      (fun byte => if byte = IAC then [byte, IAC] else [byte]) ++ [IAC, SE]

/-- Answers a command; the second part is the reply. -/
def negotiate (nvt : Nvt) (verb code : UInt8) : Nvt × List UInt8 :=
  if verb = WILL then
    if code ∉ THEIRS then (nvt, [IAC, DONT, code])
    else if !nvt.theirs code then
      ({ nvt with theirs := Function.update nvt.theirs code true }, [IAC, DO, code])
    else (nvt, [])
  else if verb = WONT then
    if nvt.theirs code then
      ({ nvt with theirs := Function.update nvt.theirs code false }, [IAC, DONT, code])
    else (nvt, [])
  else if verb = DO then
    if code ∉ OURS then (nvt, [IAC, WONT, code])
    else if !nvt.ours code then
      ({ nvt with ours := Function.update nvt.ours code true },
        [IAC, WILL, code] ++ if code = NAWS then nvt.windowSize else [])
    else (nvt, [])
  else if verb = DONT then
    if nvt.ours code then
      ({ nvt with ours := Function.update nvt.ours code false }, [IAC, WONT, code])
    else (nvt, [])
  else (nvt, [])

def toAsciiUppercase (byte : UInt8) : UInt8 := if 97 ≤ byte ∧ byte ≤ 122 then byte - 32 else byte

/-- Answers a whole subnegotiation. -/
def subnegotiation (nvt : Nvt) : Nvt × List UInt8 :=
  ({ nvt with sub := [] },
    if nvt.sub = [TTYPE, TTYPE_SEND] ∧ nvt.ours TTYPE then
      [IAC, SB, TTYPE, TTYPE_IS] ++ (nvt.term.map toAsciiUppercase).filter (· ≠ IAC) ++ [IAC, SE]
    else [])

/-- Keeps a byte of a subnegotiation, up to the limit. -/
def keep (nvt : Nvt) (byte : UInt8) : Nvt :=
  if nvt.sub.length < MAX_SUBNEGOTIATION then { nvt with sub := nvt.sub ++ [byte] } else nvt

/-- One byte of text. -/
def text (nvt : Nvt) (byte : UInt8) : Nvt × Received :=
  let afterCr := nvt.state = .cr
  let nvt := { nvt with state := .data }
  if byte = IAC then ({ nvt with state := .iac }, {})
  else if byte = 0 ∧ afterCr then (nvt, {})
  else if byte = CR ∧ !nvt.theirs BINARY then ({ nvt with state := .cr }, { data := [CR] })
  else (nvt, { data := [byte] })

/-- One byte from the other end. -/
def receiveByte (nvt : Nvt) (byte : UInt8) : Nvt × Received :=
  match nvt.state with
  | .data => nvt.text byte
  | .cr => nvt.text byte
  | .iac =>
    let nvt := { nvt with state := .data }
    if byte = IAC then (nvt, { data := [IAC] })
    else if byte = WILL ∨ byte = WONT ∨ byte = DO ∨ byte = DONT then
      ({ nvt with state := .negotiate byte }, {})
    else if byte = SB then ({ nvt with sub := [], state := .sub }, {})
    else (nvt, {})
  | .negotiate verb =>
    let answered := { nvt with state := .data }.negotiate verb byte
    (answered.1, { reply := answered.2 })
  | .sub => if byte = IAC then ({ nvt with state := .subIac }, {}) else (nvt.keep byte, {})
  | .subIac =>
    if byte = SE then
      let answered := { nvt with state := .data }.subnegotiation
      (answered.1, { reply := answered.2 })
    else if byte = IAC then ({ nvt with state := .sub }.keep IAC, {})
    else ({ nvt with state := .data }, {})

/-- Takes the other end's bytes apart. -/
def receive (nvt : Nvt) : List UInt8 → Nvt × Received
  | [] => (nvt, {})
  | byte :: rest =>
    let first := nvt.receiveByte byte
    let others := first.1.receive rest
    (others.1, first.2.append others.2)

end Nvt

/-- Two connections and the bytes on the way to each. -/
structure Net where
  party : Bool → Nvt
  inbox : Bool → List UInt8

/-- Some bytes reach one end, and its reply is on the way to the other. -/
inductive Delivers : Net → Net → Prop where
  | deliver {net : Net} (side : Bool) {front rest : List UInt8} (hsome : front ≠ [])
      (hinbox : net.inbox side = front ++ rest) :
      Delivers net
        { party := Function.update net.party side ((net.party side).receive front).1
          inbox := Function.update (Function.update net.inbox side rest) (!side)
            (net.inbox (!side) ++ ((net.party side).receive front).2.reply) }

/-- A run of so many deliveries. -/
inductive Run : Nat → Net → Net → Prop where
  | none (net : Net) : Run 0 net net
  | more {count : Nat} {net middle last : Net} :
      Run count net middle → Delivers middle last → Run (count + 1) net last

/-- Which of its two states a party keeps for an option a command is about. -/
inductive Kind where
  | theirs
  | ours
deriving DecidableEq

/-- An option command: WILL and WONT are about the receiver's `theirs`, DO and DONT about its
`ours`. -/
structure Command where
  kind : Kind
  on : Bool
  code : UInt8

def Command.verb (command : Command) : UInt8 :=
  match command.kind, command.on with
  | .theirs, true => WILL
  | .theirs, false => WONT
  | .ours, true => DO
  | .ours, false => DONT

def Command.bytes (command : Command) : List UInt8 := [IAC, command.verb, command.code]

/-- Two new connections, with commands on the way to both. -/
def start (term : Bool → List UInt8) (size : Bool → TermSize) (sent : Bool → List Command) : Net :=
  { party := fun side => Nvt.new (term side) (size side)
    inbox := fun side => (sent side).flatMap Command.bytes }

/-- What one end has on is known to the other. -/
def Agrees (net : Net) : Prop :=
  ∀ side code, (net.party side).ours code = (net.party (!side)).theirs code

/-- Negotiation ends, and then both ends know the same options. -/
structure Settles (net : Net) : Prop where
  ends : ¬ ∃ states : Nat → Net, states 0 = net ∧ ∀ n, Delivers (states n) (states (n + 1))
  agrees : ∀ count last, Run count net last → (∀ side, last.inbox side = []) → Agrees last

/-- The options both sides of which an end turns on. -/
def Mutual (code : UInt8) : Prop := code ∈ THEIRS ∧ code ∈ OURS

/-- No command on the way takes back an offer before it, of an option both ends turn on. -/
def Steady (sent : List Command) : Prop :=
  ∀ before kind code between after, Mutual code →
    sent ≠ before ++ ⟨kind, true, code⟩ :: between ++ ⟨kind, false, code⟩ :: after

end Opensesh.Telnet
