/-
IP addresses as text: how an address is read, how it is written, and its octets.
-/
import Opensesh.Text

namespace Opensesh.Ip

open Text

structure Ipv4Addr where
  a : UInt8
  b : UInt8
  c : UInt8
  d : UInt8
deriving DecidableEq

structure Ipv6Addr where
  s0 : UInt16
  s1 : UInt16
  s2 : UInt16
  s3 : UInt16
  s4 : UInt16
  s5 : UInt16
  s6 : UInt16
  s7 : UInt16
deriving DecidableEq

inductive IpAddr where
  | v4 (address : Ipv4Addr)
  | v6 (address : Ipv6Addr)
deriving DecidableEq

/-- A number's two bytes, the high one first. -/
def toBe16 (value : UInt16) : List UInt8 :=
  [UInt8.ofNat (value.toNat / 256), UInt8.ofNat (value.toNat % 256)]

def ofBe16 (high low : UInt8) : UInt16 := UInt16.ofNat (high.toNat * 256 + low.toNat)

theorem ofBe16_toBe16 (value : UInt16) :
    ofBe16 (UInt8.ofNat (value.toNat / 256)) (UInt8.ofNat (value.toNat % 256)) = value := by
  have hvalue := value.toNat_lt
  rw [ofBe16, ← UInt16.toNat_inj, UInt16.toNat_ofNat', UInt8.toNat_ofNat', UInt8.toNat_ofNat']
  omega

namespace Ipv4Addr

def octets (address : Ipv4Addr) : List UInt8 := [address.a, address.b, address.c, address.d]

/-- The address of four octets. -/
def ofOctets (octets : List UInt8) : Ipv4Addr :=
  ⟨octets.getD 0 0, octets.getD 1 0, octets.getD 2 0, octets.getD 3 0⟩

def display (address : Ipv4Addr) : List Char :=
  joinWith '.' (address.octets.map fun octet => Nat.toDigits 10 octet.toNat)

end Ipv4Addr

namespace Ipv6Addr

def segments (address : Ipv6Addr) : List UInt16 :=
  [address.s0, address.s1, address.s2, address.s3, address.s4, address.s5, address.s6, address.s7]

/-- The address of eight segments. -/
def ofSegments (segments : List UInt16) : Ipv6Addr :=
  ⟨segments.getD 0 0, segments.getD 1 0, segments.getD 2 0, segments.getD 3 0, segments.getD 4 0,
    segments.getD 5 0, segments.getD 6 0, segments.getD 7 0⟩

def octets (address : Ipv6Addr) : List UInt8 := address.segments.flatMap toBe16

/-- Bytes two by two. -/
def pairs : List UInt8 → List UInt16
  | high :: low :: rest => ofBe16 high low :: pairs rest
  | _ => []

/-- The address of sixteen octets. -/
def ofOctets (octets : List UInt8) : Ipv6Addr := ofSegments (pairs octets)

/-- Where the first of the longest runs of zero segments starts, and how long it is. -/
def zeroes (segments : List UInt16) : Nat × Nat :=
  (segments.zipIdx.foldl (fun (longest, current) (segment, index) =>
    if segment = 0 then
      let current := (if current.2 = 0 then index else current.1, current.2 + 1)
      (if current.2 > longest.2 then current else longest, current)
    else (longest, (0, 0))) ((0, 0), ((0, 0) : Nat × Nat))).1

/-- Segments in lower case hexadecimal, with colons between them. -/
def displaySegments (segments : List UInt16) : List Char :=
  joinWith ':' (segments.map fun segment => Nat.toDigits 16 segment.toNat)

def display (address : Ipv6Addr) : List Char :=
  if address.segments.take 5 = [0, 0, 0, 0, 0] ∧ address.s5 = 0xFFFF then
    "::ffff:".toList ++ (Ipv4Addr.ofOctets (address.octets.drop 12)).display
  else
    let (start, length) := zeroes address.segments
    if length > 1 then
      displaySegments (address.segments.take start) ++ [':', ':'] ++
        displaySegments (address.segments.drop (start + length))
    else displaySegments address.segments

end Ipv6Addr

namespace IpAddr

def display : IpAddr → List Char
  | .v4 address => address.display
  | .v6 address => address.display

def digitOf (radix : Nat) (c : Char) : Option Nat :=
  let value :=
    if '0' ≤ c ∧ c ≤ '9' then some (c.toNat - 48)
    else if 'a' ≤ c ∧ c ≤ 'z' then some (c.toNat - 87)
    else if 'A' ≤ c ∧ c ≤ 'Z' then some (c.toNat - 55)
    else none
  value.filter (· < radix)

/-- A number of at most so many digits, and what comes after it. -/
def readNumber (radix maxDigits : Nat) (allowZeroPrefix : Bool) (max : Nat) (text : List Char) :
    Option (Nat × List Char) :=
  let digits := text.takeWhile fun c => (digitOf radix c).isSome
  let value := digits.foldl (fun value c => value * radix + (digitOf radix c).getD 0) 0
  if digits = [] ∨ digits.length > maxDigits ∨ value > max then none
  else if !allowZeroPrefix ∧ digits.head? = some '0' ∧ digits.length > 1 then none
  else some (value, text.drop digits.length)

/-- What is read after a separator, unless it comes first. -/
def afterSeparator (separator : Char) (index : Nat) (text : List Char) : Option (List Char) :=
  if index = 0 then some text
  else match text with
    | c :: rest => if c = separator then some rest else none
    | [] => none

/-- The octets of an IPv4 address from the given one on. -/
def readOctets : Nat → Nat → List Char → Option (List UInt8 × List Char)
  | 0, _, text => some ([], text)
  | left + 1, index, text => do
    let text ← afterSeparator '.' index text
    let (octet, text) ← readNumber 10 3 false 255 text
    let (octets, text) ← readOctets left (index + 1) text
    some (UInt8.ofNat octet :: octets, text)

def readIpv4Addr (text : List Char) : Option (List UInt8 × List Char) := readOctets 4 0 text

/-- Up to so many groups of an IPv6 address, from the given one on, whether an IPv4 address
ended them, and what comes after. -/
def readGroups : Nat → Nat → List Char → List UInt16 × Bool × List Char
  | 0, _, text => ([], false, text)
  | left + 1, index, text =>
    let ipv4 := if left ≥ 1 then (afterSeparator ':' index text).bind readIpv4Addr else none
    match ipv4 with
    | some (octets, text) => (Ipv6Addr.pairs octets, true, text)
    | none =>
      match (afterSeparator ':' index text).bind (readNumber 16 4 true 0xFFFF) with
      | some (group, text) =>
        let (groups, ended, text) := readGroups left (index + 1) text
        (UInt16.ofNat group :: groups, ended, text)
      | none => ([], false, text)

def readIpv6Addr (text : List Char) : Option (Ipv6Addr × List Char) :=
  let (head, headIpv4, text) := readGroups 8 0 text
  if head.length = 8 then some (Ipv6Addr.ofSegments head, text)
  else if headIpv4 then none
  else match text with
    | ':' :: ':' :: rest =>
      let (tail, _, rest) := readGroups (7 - head.length) 0 rest
      some (Ipv6Addr.ofSegments
        (head ++ List.replicate (8 - head.length - tail.length) 0 ++ tail), rest)
    | _ => none

/-- The address a whole text is, if it is one. -/
def parse (text : List Char) : Option IpAddr :=
  let address : Option (IpAddr × List Char) :=
    match readIpv4Addr text with
    | some (octets, rest) => some (.v4 (Ipv4Addr.ofOctets octets), rest)
    | none => (readIpv6Addr text).map fun (address, rest) => (.v6 address, rest)
  match address with
  | some (address, []) => some address
  | _ => none

end IpAddr

theorem Ipv6Addr.ofOctets_octets (address : Ipv6Addr) : ofOctets address.octets = address := by
  have hpairs : pairs address.octets = address.segments.map fun segment =>
      ofBe16 (UInt8.ofNat (segment.toNat / 256)) (UInt8.ofNat (segment.toNat % 256)) := rfl
  have hsame : (address.segments.map fun segment =>
      ofBe16 (UInt8.ofNat (segment.toNat / 256)) (UInt8.ofNat (segment.toNat % 256))) =
      address.segments := by
    have hid := List.map_congr_left (l := address.segments) fun segment _ => ofBe16_toBe16 segment
    rwa [List.map_id'] at hid
  rw [ofOctets, hpairs, hsame]
  rfl

example : IpAddr.parse "192.168.0.1".toList = some (.v4 ⟨192, 168, 0, 1⟩) := by decide
example : IpAddr.parse "2001:DB8:0:0::1".toList = some (.v6 ⟨0x2001, 0xDB8, 0, 0, 0, 0, 0, 1⟩) := by
  decide +kernel
example : Ipv6Addr.display ⟨0x2001, 0xDB8, 0, 0, 0, 0, 0, 1⟩ = "2001:db8::1".toList := by
  decide +kernel

end Opensesh.Ip
