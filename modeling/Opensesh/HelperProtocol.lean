/-
The messages of the remote desktop helper: a kind byte, a length and a payload, what reading
them gives, and which of them, whole or cut short, are carried.
-/
import Opensesh.Bytes
import Opensesh.Percent
import Opensesh.RdpFrame

namespace Opensesh.Helper

open List
open Text

/-- The largest message accepted. -/
def maxMessage : Nat := 64 * 1024 * 1024

structure Connect where
  address : List Char
  port : UInt16
  serverName : List Char
  user : List Char
  domain : Option (List Char)
  width : UInt16
  height : UInt16
  scaleFactor : UInt32
  keyboardLayout : UInt32
  clipboard : Bool
  timeoutSecs : UInt64
  clientName : List Char
  readOnly : Bool
  quality : Option UInt8
  shared : Bool

inductive Button where
  | left
  | middle
  | right
  | back
  | forward

inductive Control where
  | connect (connect : Connect)
  | certificate (accept : Bool)
  | key (code : UInt8) (extended pressed : Bool)
  | keysym (keysym : UInt32) (pressed : Bool)
  | unicode (character : Char) (pressed : Bool)
  | move (x y : UInt16)
  | button (button : Button) (pressed : Bool)
  | wheel (vertical horizontal : Int16)
  | releaseAll
  | locks (caps num scroll : Bool)
  | ctrlAltDel
  | resize (width height : UInt16)
  | reconnect
  | disconnect

/-- A message to the helper. -/
inductive ToHelper where
  | control (control : Control)
  | password (password : List Char)
  | clipboard (text : List Char)

inductive Status where
  | connecting (label : List Char)
  | authenticating (label : List Char)
  | connected (width height : UInt16)
  | disconnected (code reason : List Char)

inductive Event where
  | status (status : Status)
  | certificate (fingerprint subject keyType : List Char)
  | size (width height : UInt16)
  | pointerDefault
  | pointerHidden
  | unencrypted

/-- A rectangle of the desktop and its RGBA pixels. -/
structure Pixels where
  rect : Rdp.Rect
  rgba : List UInt8

structure PointerPicture where
  width : UInt16
  height : UInt16
  hotX : UInt16
  hotY : UInt16
  rgba : List UInt8

/-- A message from the helper. -/
inductive FromHelper where
  | event (event : Event)
  | pixels (pixels : Pixels)
  | pointer (picture : PointerPicture)
  | clipboard (text : List Char)

/-- How control and events are written in JSON and read. -/
structure Json where
  writeControl : Control → List UInt8
  readControl : List UInt8 → Option Control
  writeEvent : Event → List UInt8
  readEvent : List UInt8 → Option Event

inductive Error where
  | unexpectedEof
  | invalid (what : String)
deriving DecidableEq

/-- A kind byte, a length of 32 bits and a payload. -/
def writeRaw (kind : UInt8) (payload : List UInt8) : Except Error (List UInt8) :=
  if payload.length < 2 ^ 32 then .ok (kind :: toLe 4 payload.length ++ payload)
  else .error (.invalid "message too big")

/-- A message's kind and payload, or nothing at the end of the stream, and the stream after. -/
def readRaw (input : List UInt8) : Except Error (Option (UInt8 × List UInt8) × List UInt8) :=
  match input with
  | kind :: a :: b :: c :: d :: rest =>
    let length := ofLe [a, b, c, d]
    if maxMessage < length then .error (.invalid "message too big")
    else if rest.length < length then .error .unexpectedEof
    else .ok (some (kind, rest.take length), rest.drop length)
  -- A header cut short is an end of the stream, too.
  | _ => .ok (none, [])

def text (payload : List UInt8) : Except Error (List Char) :=
  match Target.fromUtf8 payload with
  | some text => .ok text
  | none => .error (.invalid "not UTF-8")

def u16At (bytes : List UInt8) (position : Nat) : Except Error UInt16 :=
  match bytes.drop position with
  | low :: high :: _ => .ok (UInt16.ofNat (ofLe [low, high]))
  | _ => .error (.invalid "short message")

def u16Bytes (value : UInt16) : List UInt8 := toLe 2 value.toNat

/-- Reads a message of either side, nothing at the end of the stream. -/
def readWith {α : Type} (parse : UInt8 → List UInt8 → Except Error α) (input : List UInt8) :
    Except Error (Option α × List UInt8) := do
  match ← readRaw input with
  | (none, rest) => return (none, rest)
  | (some (kind, payload), rest) => return (some (← parse kind payload), rest)

namespace ToHelper

def write (json : Json) : ToHelper → Except Error (List UInt8)
  | .control sent => writeRaw 1 (json.writeControl sent)
  | .password secret => writeRaw 2 (bytes secret)
  | .clipboard copied => writeRaw 3 (bytes copied)

def parse (json : Json) (kind : UInt8) (payload : List UInt8) : Except Error ToHelper :=
  if kind = 1 then
    match json.readControl payload with
    | some sent => .ok (.control sent)
    | none => .error (.invalid "control")
  else if kind = 2 then (text payload).map .password
  else if kind = 3 then (text payload).map .clipboard
  else .error (.invalid "unknown message")

def read (json : Json) (input : List UInt8) :
    Except Error (Option ToHelper × List UInt8) := readWith (parse json) input

end ToHelper

namespace FromHelper

def write (json : Json) : FromHelper → Except Error (List UInt8)
  | .event told => writeRaw 1 (json.writeEvent told)
  | .pixels ⟨rect, rgba⟩ =>
    writeRaw 2 ([rect.x, rect.y, rect.width, rect.height].flatMap u16Bytes ++ rgba)
  | .pointer picture =>
    writeRaw 3 ([picture.width, picture.height, picture.hotX,
      picture.hotY].flatMap u16Bytes ++ picture.rgba)
  | .clipboard copied => writeRaw 4 (bytes copied)

def parse (json : Json) (kind : UInt8) (payload : List UInt8) : Except Error FromHelper := do
  if kind = 1 then
    match json.readEvent payload with
    | some told => return .event told
    | none => .error (.invalid "event")
  else if kind = 2 then
    let rect : Rdp.Rect := ⟨← u16At payload 0, ← u16At payload 2, ← u16At payload 4,
      ← u16At payload 6⟩
    let rgba := payload.drop 8
    if rgba.length ≠ rect.width.toNat * rect.height.toNat * 4 then
      .error (.invalid "pixels")
    else return .pixels ⟨rect, rgba⟩
  else if kind = 3 then
    let width ← u16At payload 0
    let height ← u16At payload 2
    let hotX ← u16At payload 4
    let hotY ← u16At payload 6
    let rgba := payload.drop 8
    if rgba.length ≠ width.toNat * height.toNat * 4 then .error (.invalid "pointer")
    else return .pointer ⟨width, height, hotX, hotY, rgba⟩
  else if kind = 4 then (text payload).map .clipboard
  else .error (.invalid "unknown message")

def read (json : Json) (input : List UInt8) :
    Except Error (Option FromHelper × List UInt8) := readWith (parse json) input

end FromHelper

/-- Reading what is written gives the message, and leaves the stream after it. -/
def Carries {α : Type} (written : Except Error (List UInt8))
    (read : List UInt8 → Except Error (Option α × List UInt8)) (message : α) : Prop :=
  ∃ wire, written = .ok wire ∧ ∀ rest, read (wire ++ rest) = .ok (some message, rest)

def Refuses {α : Type} (read : List UInt8 → Except Error (Option α × List UInt8))
    (input : List UInt8) : Prop :=
  ∃ error, read input = .error error

section Framing

variable {kind : UInt8} {payload wire rest front : List UInt8}

theorem readRaw_header (kind : UInt8) (length : Nat) (rest : List UInt8) :
    readRaw (kind :: toLe 4 length ++ rest) =
      if maxMessage < ofLe (toLe 4 length) then .error (.invalid "message too big")
      else if rest.length < ofLe (toLe 4 length) then .error .unexpectedEof
      else .ok (some (kind, rest.take (ofLe (toLe 4 length))),
        rest.drop (ofLe (toLe 4 length))) := rfl

theorem readRaw_short (h : front.length < 5) : readRaw front = .ok (none, []) := by
  rcases front with _ | ⟨_, _ | ⟨_, _ | ⟨_, _ | ⟨_, _ | ⟨_, rest⟩⟩⟩⟩⟩
  · rfl
  · rfl
  · rfl
  · rfl
  · rfl
  · simp only [length_cons] at h
    omega

theorem writeRaw_eq_ok (h : writeRaw kind payload = .ok wire) :
    payload.length < 2 ^ 32 ∧ wire = kind :: toLe 4 payload.length ++ payload := by
  rw [writeRaw] at h
  split at h
  · rename_i hlength
    exact ⟨hlength, (Except.ok.inj h).symm⟩
  · cases h

theorem readRaw_written (h : writeRaw kind payload = .ok wire) (rest : List UInt8) :
    readRaw (wire ++ rest) =
      if maxMessage < payload.length then .error (.invalid "message too big")
      else .ok (some (kind, payload), rest) := by
  obtain ⟨hlength, rfl⟩ := writeRaw_eq_ok h
  rw [List.append_assoc, readRaw_header, ofLe_toLe hlength]
  split
  · rfl
  · rw [if_neg (by rw [length_append]; omega), take_left, drop_left]

/-- A message cut short after its header is refused. -/
theorem readRaw_cut (h : writeRaw kind payload = .ok wire) (hfront : front <+: wire)
    (hproper : front ≠ wire) (hlong : 5 ≤ front.length) :
    ∃ error, readRaw front = .error error := by
  obtain ⟨hlength, rfl⟩ := writeRaw_eq_ok h
  obtain ⟨left, rfl⟩ : ∃ left, front = kind :: toLe 4 payload.length ++ left := by
    have htake := prefix_iff_eq_take.mp hfront
    refine ⟨payload.take (front.length - 5), ?_⟩
    rw [htake, take_append, take_of_length_le (by simpa using hlong)]
    simp
  have hleft : left.length < payload.length := by
    have hle := hfront.length_le
    simp only [length_append] at hle
    refine Nat.lt_of_le_of_ne (by omega) fun heq => hproper (hfront.eq_of_length ?_)
    simp only [length_append, heq]
  rw [readRaw_header, ofLe_toLe hlength]
  split
  · exact ⟨_, rfl⟩
  · exact ⟨_, rfl⟩

theorem readWith_short {α : Type} {parse : UInt8 → List UInt8 → Except Error α}
    (h : front.length < 5) : readWith parse front = .ok (none, []) := by
  rw [readWith, readRaw_short h]
  rfl

theorem carries_iff {α : Type} {parse : UInt8 → List UInt8 → Except Error α} {message : α}
    (hparse : parse kind payload = .ok message) :
    Carries (writeRaw kind payload) (readWith parse) message ↔ payload.length ≤ maxMessage := by
  constructor
  · rintro ⟨wire, hwire, hread⟩
    by_contra hover
    have hnil := hread []
    rw [readWith, readRaw_written hwire, if_pos (Nat.lt_of_not_le hover)] at hnil
    cases hnil
  · intro hlimit
    have hlength : payload.length < 2 ^ 32 := Nat.lt_of_le_of_lt hlimit (by decide)
    have hwire : writeRaw kind payload = .ok (kind :: toLe 4 payload.length ++ payload) :=
      if_pos hlength
    refine ⟨_, hwire, fun rest => ?_⟩
    rw [readWith, readRaw_written hwire, if_neg (Nat.not_lt.mpr hlimit)]
    change (parse kind payload >>= fun found => Except.ok (some found, rest)) = _
    rw [hparse]
    rfl

/-- A message cut short is refused when its header is whole, and only then. -/
theorem refuses_iff {α : Type} {parse : UInt8 → List UInt8 → Except Error α}
    (h : writeRaw kind payload = .ok wire) (hfront : front <+: wire) (hproper : front ≠ wire) :
    Refuses (readWith parse) front ↔ 5 ≤ front.length := by
  constructor
  · rintro ⟨error, herror⟩
    by_contra hshort
    rw [readWith_short (Nat.lt_of_not_le hshort)] at herror
    cases herror
  · intro hlong
    obtain ⟨error, herror⟩ := readRaw_cut h hfront hproper hlong
    refine ⟨error, ?_⟩
    rw [readWith, herror]
    rfl

end Framing

theorem text_bytes (chars : List Char) : text (bytes chars) = .ok chars := by
  rw [text, Target.fromUtf8_bytes]

theorem u16At_bytes (before : List UInt8) (value : UInt16) (rest : List UInt8) :
    u16At (before ++ (u16Bytes value ++ rest)) before.length = .ok value := by
  have hvalue : UInt16.ofNat (ofLe (u16Bytes value)) = value := by
    rw [u16Bytes, ofLe_toLe value.toNat_lt, UInt16.ofNat_toNat]
  rw [u16At, drop_left]
  exact congrArg Except.ok hvalue

/-- The four numbers that a picture begins with, and what follows them. -/
theorem u16At_four (a b c d : UInt16) (rgba : List UInt8) :
    let payload := [a, b, c, d].flatMap u16Bytes ++ rgba
    u16At payload 0 = .ok a ∧ u16At payload 2 = .ok b ∧ u16At payload 4 = .ok c ∧
      u16At payload 6 = .ok d ∧ payload.drop 8 = rgba := by
  have hpayload : [a, b, c, d].flatMap u16Bytes ++ rgba =
      u16Bytes a ++ (u16Bytes b ++ (u16Bytes c ++ (u16Bytes d ++ rgba))) := rfl
  refine ⟨u16At_bytes [] a _, u16At_bytes (u16Bytes a) b _,
    u16At_bytes (u16Bytes a ++ u16Bytes b) c _,
    u16At_bytes (u16Bytes a ++ u16Bytes b ++ u16Bytes c) d rgba, rfl⟩

namespace ToHelper

/-- What a message is written as: its kind and its payload. -/
def payload (json : Json) : ToHelper → UInt8 × List UInt8
  | .control sent => (1, json.writeControl sent)
  | .password secret => (2, bytes secret)
  | .clipboard copied => (3, bytes copied)

/-- The JSON of the message's control is read as it was written. -/
def Readable (json : Json) : ToHelper → Prop
  | .control sent => json.readControl (json.writeControl sent) = some sent
  | _ => True

theorem write_eq (json : Json) (message : ToHelper) :
    message.write json = writeRaw (message.payload json).1 (message.payload json).2 := by
  cases message <;> rfl

theorem parse_payload {json : Json} {message : ToHelper} (h : message.Readable json) :
    parse json (message.payload json).1 (message.payload json).2 = .ok message := by
  cases message with
  | control sent =>
    have hread : json.readControl (json.writeControl sent) = some sent := h
    rw [payload, parse, if_pos rfl, hread]
  | password secret =>
    rw [payload]
    dsimp only
    rw [parse, if_neg (by decide), if_pos rfl, text_bytes]
    rfl
  | clipboard copied =>
    rw [payload]
    dsimp only
    rw [parse, if_neg (by decide), if_neg (by decide), if_pos rfl, text_bytes]
    rfl

end ToHelper

namespace FromHelper

def payload (json : Json) : FromHelper → UInt8 × List UInt8
  | .event told => (1, json.writeEvent told)
  | .pixels ⟨rect, rgba⟩ =>
    (2, [rect.x, rect.y, rect.width, rect.height].flatMap u16Bytes ++ rgba)
  | .pointer picture =>
    (3, [picture.width, picture.height, picture.hotX, picture.hotY].flatMap u16Bytes ++
      picture.rgba)
  | .clipboard copied => (4, bytes copied)

def Readable (json : Json) : FromHelper → Prop
  | .event told => json.readEvent (json.writeEvent told) = some told
  | _ => True

/-- Both processes fill a picture's rectangle. -/
def Filled : FromHelper → Prop
  | .pixels ⟨rect, rgba⟩ => rgba.length = rect.width.toNat * rect.height.toNat * 4
  | .pointer picture => picture.rgba.length = picture.width.toNat * picture.height.toNat * 4
  | _ => True

theorem write_eq (json : Json) (message : FromHelper) :
    message.write json = writeRaw (message.payload json).1 (message.payload json).2 := by
  cases message <;> rfl

theorem parse_payload {json : Json} {message : FromHelper} (h : message.Readable json)
    (hfilled : message.Filled) :
    parse json (message.payload json).1 (message.payload json).2 = .ok message := by
  cases message with
  | event told =>
    have hread : json.readEvent (json.writeEvent told) = some told := h
    rw [payload, parse, if_pos rfl, hread]
    rfl
  | pixels pixels =>
    obtain ⟨rect, rgba⟩ := pixels
    obtain ⟨hx, hy, hwidth, hheight, hrgba⟩ := u16At_four rect.x rect.y rect.width rect.height rgba
    rw [payload]
    dsimp only
    rw [parse, if_neg (by decide), if_pos rfl]
    dsimp only at hx hy hwidth hheight hrgba ⊢
    rw [hx, hy, hwidth, hheight, hrgba]
    exact if_neg fun hnot => hnot hfilled
  | pointer picture =>
    obtain ⟨hwidth, hheight, hx, hy, hrgba⟩ :=
      u16At_four picture.width picture.height picture.hotX picture.hotY picture.rgba
    rw [payload]
    dsimp only
    rw [parse, if_neg (by decide), if_neg (by decide), if_pos rfl]
    dsimp only at hx hy hwidth hheight hrgba ⊢
    rw [hx, hy, hwidth, hheight, hrgba]
    exact if_neg fun hnot => hnot hfilled
  | clipboard copied =>
    rw [payload]
    dsimp only
    rw [parse, if_neg (by decide), if_neg (by decide), if_neg (by decide), if_pos rfl, text_bytes]
    rfl

end FromHelper

/-- A message of either side is carried when its payload is within the limit, and only then;
cut short it is refused when its header is whole, and only then. -/
theorem messages_carried (json : Json) :
    (∀ message : ToHelper, message.Readable json →
      (Carries (message.write json) (ToHelper.read json) message ↔
        (message.payload json).2.length ≤ maxMessage) ∧
      ∀ wire front, message.write json = .ok wire → front <+: wire → front ≠ [] → front ≠ wire →
        (Refuses (ToHelper.read json) front ↔ 5 ≤ front.length)) ∧
    ∀ message : FromHelper, message.Readable json → message.Filled →
      (Carries (message.write json) (FromHelper.read json) message ↔
        (message.payload json).2.length ≤ maxMessage) ∧
      ∀ wire front, message.write json = .ok wire → front <+: wire → front ≠ [] → front ≠ wire →
        (Refuses (FromHelper.read json) front ↔ 5 ≤ front.length) := by
  refine ⟨fun message hreadable => ⟨?_, ?_⟩, fun message hreadable hfilled => ⟨?_, ?_⟩⟩
  · rw [message.write_eq]
    exact carries_iff (ToHelper.parse_payload hreadable)
  · intro wire front hwire hfront _ hproper
    rw [message.write_eq] at hwire
    exact refuses_iff hwire hfront hproper
  · rw [message.write_eq]
    exact carries_iff (FromHelper.parse_payload hreadable hfilled)
  · intro wire front hwire hfront _ hproper
    rw [message.write_eq] at hwire
    exact refuses_iff hwire hfront hproper

/-- `WIDTHxHEIGHT` (200 to 8192 each). -/
def parseResolution (resolution : List Char) : Option (Nat × Nat) :=
  let side (text : List Char) : Option Nat :=
    (Target.parseNumber 65535 (Text.trim text)).filter fun side => 200 ≤ side && side ≤ 8192
  let trimmed := Text.trim resolution
  match trimmed.dropWhile fun c => c ≠ 'x' && c ≠ 'X' && c ≠ '×' with
  | [] => none
  | _ :: height => do
      let width ← side (trimmed.takeWhile fun c => c ≠ 'x' && c ≠ 'X' && c ≠ '×')
      let height ← side height
      return (width, height)

namespace ProtocolWitness

def reconnectText : List UInt8 := bytes "\x7b\"do\":\"reconnect\"\x7d".toList

/-- The JSON of one message. -/
def json : Json where
  writeControl _ := reconnectText
  readControl payload := if payload = reconnectText then some .reconnect else none
  writeEvent _ := []
  readEvent _ := none

def small : FromHelper := .pixels ⟨⟨1, 0, 2, 1⟩, [1, 2, 3, 4, 5, 6, 7, 8]⟩

theorem reconnect_carried :
    Carries ((ToHelper.control .reconnect).write json) (ToHelper.read json) (.control .reconnect) ∧
    Carries (small.write json) (FromHelper.read json) small ∧
    Refuses (FromHelper.read json) [2, 16, 0, 0, 0, 1, 0] :=
  ⟨((messages_carried json).1 (.control .reconnect) rfl).1.mpr (by decide),
    ((messages_carried json).2 small trivial rfl).1.mpr (by decide),
    (((messages_carried json).2 small trivial rfl).2 _ _ rfl (by decide) (by decide)
      (by decide)).mpr (by decide)⟩

/-- A whole desktop of a size. -/
def desktop (side : UInt16) : FromHelper :=
  .pixels ⟨⟨0, 0, side, side⟩, List.replicate (side.toNat * side.toNat * 4) 0⟩

theorem desktop_filled (side : UInt16) : (desktop side).Filled := length_replicate

theorem desktop_carries (side : UInt16) :
    Carries ((desktop side).write json) (FromHelper.read json) (desktop side) ↔
      8 + side.toNat * side.toNat * 4 ≤ maxMessage := by
  have hlength : ((desktop side).payload json).2.length = 8 + side.toNat * side.toNat * 4 := by
    rw [desktop, FromHelper.payload]
    dsimp only
    rw [length_append, length_replicate]
    rfl
  rw [FromHelper.write_eq, ← hlength]
  exact carries_iff (FromHelper.parse_payload trivial (desktop_filled side))

/-- A message cut inside its header is the end of the stream, and the whole desktop of the
largest resolution of a host is written and refused. -/
theorem cut_and_desktop :
    (∃ wire, (ToHelper.password ['a']).write json = .ok wire ∧ [2, 1] <+: wire ∧
      ToHelper.read json [2, 1] = .ok (none, [])) ∧
    parseResolution "8192x8192".toList = some (8192, 8192) ∧ (desktop 8192).Filled ∧
      ¬ Carries ((desktop 8192).write json) (FromHelper.read json) (desktop 8192) := by
  refine ⟨⟨_, rfl, by decide, rfl⟩, by decide, desktop_filled 8192, ?_⟩
  rw [desktop_carries]
  decide

end ProtocolWitness

end Opensesh.Helper
