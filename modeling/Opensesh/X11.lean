/-
The first message of a forwarded X11 connection: a setup that carries the cookie made up for the
session, sent on to the display with the display's own, which `xauth` prints.
-/
import Opensesh.Bytes
import Opensesh.LossyUtf8
import Opensesh.Outcome
import Opensesh.Target

namespace Opensesh.X11

open List Option
open Text (fromUtf8Lossy lines splitWhitespace splitOnce)
open Target (hex parseNumber rsplitOnce)

/-- "MIT-MAGIC-COOKIE-1". -/
def MIT_MAGIC_COOKIE : List UInt8 :=
  [0x4D, 0x49, 0x54, 0x2D, 0x4D, 0x41, 0x47, 0x49, 0x43, 0x2D, 0x43, 0x4F, 0x4F, 0x4B, 0x49, 0x45,
    0x2D, 0x31]

/-- The longest name and cookie taken. -/
def MAX_SETUP : Nat := 4096

def nextMultipleOf4 (n : Nat) : Nat := (n + 3) / 4 * 4

inductive Error where
  | ended
  | invalid (what : String)

/-- The made-up cookie, and the display's own when it takes one. -/
structure Forwarding where
  fake : List UInt8
  real : Option (List UInt8)
  length_fake : fake.length = 16

def Forwarding.new (fake : Block 16) (real : Option (List UInt8)) : Forwarding :=
  ⟨fake.bytes, real, fake.size⟩

/-- Where the local X server listens. -/
inductive Display where
  | unix (path : List Char) (number screen : Nat)
  | tcp (host : List Char) (number screen : Nat)
  deriving DecidableEq

def Display.isUnix : Display → Bool
  | unix .. => true
  | tcp .. => false

def trimBrackets (host : List Char) : List Char :=
  let bracket (c : Char) : Bool := c = '[' || c = ']'
  ((host.dropWhile bracket).reverse.dropWhile bracket).reverse

/-- Reads `DISPLAY`. -/
def Display.parse (text : List Char) : Option Display := do
  let (host, rest) ← rsplitOnce ':' (Text.trim text)
  let (number, screen) ← match splitOnce '.' rest with
    | some (number, screen) => do
      pure (← parseNumber 65535 number, ← parseNumber 65535 screen)
    | none => do pure (← parseNumber 65535 rest, 0)
  if host = [] ∨ host = "unix".toList then
    some (.unix ("/tmp/.X11-unix/X".toList ++ (toString number).toList) number screen)
  else if host.head? = some '/' then some (.unix host number screen)
  else some (.tcp (trimBrackets host) number screen)

example : Display.parse "[::1]:2.1".toList = some (.tcp "::1".toList 2 1) := by decide

def u8FromHex (high low : UInt8) : Option UInt8 :=
  -- a number may have a plus sign
  if high = 0x2B then hex low else do pure ((← hex high) * 16 + (← hex low))

/-- The bytes that two digits each spell. -/
def fromHex : List UInt8 → Option (List UInt8)
  | high :: low :: rest => do pure ((← u8FromHex high low) :: (← fromHex rest))
  | _ => some []

/-- A cookie from the lines `xauth list` prints. -/
def cookieFromXauth (output : List Char) : Option (List UInt8) :=
  (lines output).findSome? fun line =>
    match splitWhitespace line with
    | _ :: protocol :: digits :: _ =>
      if Text.bytes protocol ≠ MIT_MAGIC_COOKIE ∨ (Text.bytes digits).length % 2 ≠ 0 then none
      else fromHex (Text.bytes digits)
    | _ => none

/-- How running a program went. -/
inductive Ran where
  | notFound
  | failed (error : List Char)
  | ended (success : Bool) (stdout : List UInt8)

/-- Why forwarding can't be made ready. -/
inductive Unready where
  | noDisplay
  | notDisplay (display : List Char)
  | noUnixSockets (display : List Char)
  | noFolder (error : List Char)
  | notRun (error : List Char)
  | noSecurity
  | noCookie

structure X11Spec where
  display : List Char
  trusted : Bool

/-- X11 forwarding for one connection. -/
structure Live where
  forwarding : Forwarding
  display : Display

variable (run : List (List Char) → Ran)

/-- The cookie that `xauth` prints when run with some arguments. -/
def xauth (args : List (List Char)) : Except Unready (Option (List UInt8)) :=
  match run args with
  | .notFound => .ok none
  | .failed error => .error (.notRun error)
  | .ended _ stdout => .ok (cookieFromXauth (fromUtf8Lossy stdout))

/-- A cookie made for this connection, in a file of its own. -/
def untrustedCookie (file : Except (List Char) (List Char)) (display : List Char) :
    Except Unready (Option (List UInt8)) :=
  match file with
  | .error error => .error (.noFolder error)
  | .ok file =>
    match run ["-f".toList, file, "generate".toList, display, "MIT-MAGIC-COOKIE-1".toList,
      "untrusted".toList, "timeout".toList, "1200".toList] with
    | .notFound => .ok none
    | .failed error => .error (.notRun error)
    | .ended false _ => .error .noSecurity
    | .ended true _ =>
      match xauth run ["-f".toList, file, "list".toList, display] with
      | .ok none => .error .noCookie
      | found => found

/-- The display's own cookie, or one with the limits of the X SECURITY extension. -/
def realCookie (file : Except (List Char) (List Char)) (spec : X11Spec) :
    Except Unready (Option (List UInt8)) :=
  if spec.trusted then xauth run ["list".toList, spec.display]
  else untrustedCookie run file spec.display

/-- Gets forwarding ready, with the made-up cookie `fake`; `file` is one in a new folder. -/
def prepare (unix : Bool) (file : Except (List Char) (List Char)) (fake : Block 16)
    (spec : X11Spec) : Except Unready Live :=
  if Text.trim spec.display = [] then .error .noDisplay
  else match Display.parse spec.display with
    | none => .error (.notDisplay spec.display)
    | some display =>
      if !unix && display.isUnix then .error (.noUnixSockets spec.display)
      else do
        let real ← realCookie run file spec
        pure ⟨.new fake real, display⟩

/-- Reads so many bytes, from as many pieces as it takes. -/
def readExact : Nat → List (List UInt8) → Except Error (List UInt8 × List (List UInt8))
  | 0, pieces => .ok ([], pieces)
  | count + 1, pieces =>
    match pieces.dropWhile List.isEmpty with
    | (byte :: piece) :: rest => do
      let read ← readExact count (piece :: rest)
      pure (byte :: read.1, read.2)
    | _ => .error .ended

/-- A 16-bit number in the sender's byte order. -/
def readU16 (bigEndian : Bool) (bytes : List UInt8) : Nat :=
  if bigEndian then ofBe bytes else ofLe bytes

def writeU16 (bigEndian : Bool) (value : Nat) : List UInt8 :=
  let value := if value < 65536 then value else 0
  if bigEndian then toBe 2 value else toLe 2 value

def byteOrder (byte : UInt8) : Option Bool :=
  if byte = 0x42 then some true else if byte = 0x6C then some false else none

def slice (bytes : List UInt8) (start stop : Nat) : List UInt8 := (bytes.take stop).drop start

/-- Zeros up to a multiple of four. -/
def padded (bytes : List UInt8) : List UInt8 :=
  bytes ++ List.replicate (nextMultipleOf4 bytes.length - bytes.length) 0

/-- The first message with `real` in place of `fake`. -/
def substitute (header : List UInt8) (bigEndian : Bool) (name data fake : List UInt8)
    (real : Option (List UInt8)) : Except Error (List UInt8) :=
  if name ≠ MIT_MAGIC_COOKIE ∨ data ≠ fake then
    .error (.invalid "an X11 connection without this session's cookie")
  else
    let ours := match real with
      | some real => (MIT_MAGIC_COOKIE, real)
      | none => ([], [])
    .ok (padded (padded (slice header 0 6 ++ writeU16 bigEndian ours.1.length ++
      writeU16 bigEndian ours.2.length ++ slice header 10 12 ++ ours.1) ++ ours.2))

/-- Reads the client's first message; what is left to read comes with the message to send on. -/
def firstMessage (forwarding : Forwarding) (pieces : List (List UInt8)) :
    Except Error (List UInt8 × List (List UInt8)) := do
  let header ← readExact 12 pieces
  match byteOrder (header.1.getD 0 0) with
  | none => .error (.invalid "not an X11 connection")
  | some bigEndian =>
    let nameLen := readU16 bigEndian (slice header.1 6 8)
    let dataLen := readU16 bigEndian (slice header.1 8 10)
    let restLen := nextMultipleOf4 nameLen + nextMultipleOf4 dataLen
    if MAX_SETUP < restLen then .error (.invalid "an X11 setup too long")
    else do
      let rest ← readExact restLen header.2
      let dataAt := nextMultipleOf4 nameLen
      let message ← substitute header.1 bigEndian (slice rest.1 0 nameLen)
        (slice rest.1 dataAt (dataAt + dataLen)) forwarding.fake forwarding.real
      pure (message, rest.2)

/-- A connection setup of the X11 protocol. -/
structure Setup where
  bigEndian : Bool
  unused : UInt8
  version : Block 4
  name : List UInt8
  data : List UInt8
  unusedEnd : Block 2

/-- The setup's bytes, padded with zeros. -/
def Setup.spell (setup : Setup) : List UInt8 :=
  [if setup.bigEndian then 0x42 else 0x6C, setup.unused] ++ setup.version.bytes ++
    writeU16 setup.bigEndian setup.name.length ++ writeU16 setup.bigEndian setup.data.length ++
    setup.unusedEnd.bytes ++ padded setup.name ++ padded setup.data

/-- A setup at the start of some bytes, and what comes after it. -/
def parse : List UInt8 → Option (Setup × List UInt8)
  | order :: unused :: a :: b :: c :: d :: n :: n' :: m :: m' :: e :: e' :: rest =>
    (byteOrder order).bind fun bigEndian =>
      let nameLen := readU16 bigEndian [n, n']
      let dataLen := readU16 bigEndian [m, m']
      let dataAt := nextMultipleOf4 nameLen
      if rest.length < dataAt + nextMultipleOf4 dataLen then none
      else some
        ({ bigEndian
           unused
           version := ⟨[a, b, c, d], rfl⟩
           name := slice rest 0 nameLen
           data := slice rest dataAt (dataAt + dataLen)
           unusedEnd := ⟨[e, e'], rfl⟩ },
          rest.drop (dataAt + nextMultipleOf4 dataLen))
  | _ => none

/-- The setup with the display's own cookie, or with none. -/
def Forwarding.own (forwarding : Forwarding) (setup : Setup) : Setup :=
  match forwarding.real with
  | some real => { setup with name := MIT_MAGIC_COOKIE, data := real }
  | none => { setup with name := [], data := [] }

/-- What is let through is one setup with the session's cookie, sent on as the same setup with the
display's own, and what comes after it. -/
def Sane (forwarding : Forwarding) : Prop :=
  ∀ pieces message left, firstMessage forwarding pieces = .ok (message, left) →
    ∃ setup, parse pieces.flatten = some (setup, left.flatten) ∧
      setup.name = MIT_MAGIC_COOKIE ∧ setup.data = forwarding.fake ∧
      message = (forwarding.own setup).spell ∧
      parse (message ++ left.flatten) = some (forwarding.own setup, left.flatten)

theorem flatten_dropWhile (pieces : List (List UInt8)) :
    (pieces.dropWhile List.isEmpty).flatten = pieces.flatten := by
  induction pieces with
  | nil => rfl
  | cons piece rest ih =>
    cases piece with
    | nil => rw [dropWhile_cons_of_pos rfl, ih]; rfl
    | cons byte piece => rw [dropWhile_cons_of_neg (by simp)]

theorem readExact_eq {count : Nat} {pieces : List (List UInt8)} {read : List UInt8}
    {left : List (List UInt8)} (h : readExact count pieces = .ok (read, left)) :
    read.length = count ∧ read ++ left.flatten = pieces.flatten := by
  induction count generalizing pieces read left with
  | zero =>
    obtain ⟨rfl, rfl⟩ := Prod.mk.inj (Except.ok.inj h)
    exact ⟨rfl, rfl⟩
  | succ count ih =>
    rw [readExact] at h
    rw [← flatten_dropWhile pieces]
    split at h
    · rename_i byte piece rest hpieces
      rw [hpieces]
      cases hread : readExact count (piece :: rest) with
      | error error =>
        rw [hread] at h
        cases h
      | ok found =>
        rw [hread] at h
        obtain ⟨rfl, rfl⟩ := Prod.mk.inj (Except.ok.inj h)
        obtain ⟨hlength, hflatten⟩ := ih hread
        refine ⟨congrArg (· + 1) hlength, ?_⟩
        rw [cons_append, hflatten]
        rfl
    · cases h

theorem le_nextMultipleOf4 (n : Nat) : n ≤ nextMultipleOf4 n := by
  rw [nextMultipleOf4]
  omega

theorem length_padded (bytes : List UInt8) :
    (padded bytes).length = nextMultipleOf4 bytes.length := by
  have hle := le_nextMultipleOf4 bytes.length
  rw [padded, length_append, length_replicate]
  omega

/-- After whole words only what follows is padded. -/
theorem padded_append {front : List UInt8} (h : front.length % 4 = 0) (bytes : List UInt8) :
    padded (front ++ bytes) = front ++ padded bytes := by
  have hcount : nextMultipleOf4 (front.length + bytes.length) - (front.length + bytes.length) =
      nextMultipleOf4 bytes.length - bytes.length := by
    rw [nextMultipleOf4, nextMultipleOf4]
    omega
  rw [padded, padded, length_append, hcount, List.append_assoc]

theorem mod_nextMultipleOf4 (n : Nat) : nextMultipleOf4 n % 4 = 0 := Nat.mul_mod_left _ 4

theorem writeU16_eq (bigEndian : Bool) {value : Nat} (h : value < 65536) :
    ∃ n n', writeU16 bigEndian value = [n, n'] ∧ readU16 bigEndian [n, n'] = value := by
  have hbound : value < 256 ^ 2 := h
  have hlittle : toLe 2 value = [UInt8.ofNat value, UInt8.ofNat (value / 256)] := rfl
  have hbig : toBe 2 value = [UInt8.ofNat (value / 256), UInt8.ofNat value] := rfl
  rw [writeU16, if_pos h]
  cases bigEndian with
  | false =>
    refine ⟨UInt8.ofNat value, UInt8.ofNat (value / 256), hlittle, ?_⟩
    rw [readU16, ← hlittle]
    exact ofLe_toLe hbound
  | true =>
    refine ⟨UInt8.ofNat (value / 256), UInt8.ofNat value, hbig, ?_⟩
    rw [readU16, ← hbig]
    exact ofBe_toBe hbound

theorem length_writeU16 (bigEndian : Bool) (value : Nat) :
    (writeU16 bigEndian value).length = 2 := by
  rw [writeU16]
  cases bigEndian
  · exact length_toLe 2 _
  · exact length_toBe 2 _

theorem byteOrder_eq {order : UInt8} {bigEndian : Bool} (h : byteOrder order = some bigEndian) :
    order = if bigEndian then 0x42 else 0x6C := by
  rw [byteOrder] at h
  split at h
  · rename_i horder
    rw [← some.inj h, horder]
    rfl
  · split at h
    · rename_i horder
      rw [← some.inj h, horder]
      rfl
    · cases h

theorem byteOrder_spelled (bigEndian : Bool) :
    byteOrder (if bigEndian then 0x42 else 0x6C) = some bigEndian := by
  cases bigEndian <;> rfl

theorem slice_append {bytes : List UInt8} {start stop : Nat} (h : stop ≤ bytes.length)
    (rest : List UInt8) : slice (bytes ++ rest) start stop = slice bytes start stop := by
  rw [slice, slice, take_append_of_le_length h]

theorem slice_padded (bytes rest : List UInt8) :
    slice (padded bytes ++ rest) 0 bytes.length = bytes := by
  rw [slice, drop_zero, padded, List.append_assoc, take_left]

variable {start : Nat} {front : List UInt8} {setup : Setup} {forwarding : Forwarding}

theorem slice_after (h : front.length = start) (bytes : List UInt8) (count : Nat) :
    slice (front ++ bytes) start (start + count) = slice bytes 0 count := by
  rw [slice, slice, ← h, take_append, take_of_length_le (Nat.le_add_right _ _),
    Nat.add_sub_cancel_left, drop_left, drop_zero]

theorem block4 (block : Block 4) : ∃ a b c d, block = ⟨[a, b, c, d], rfl⟩ := by
  obtain ⟨bytes, hsize⟩ := block
  match bytes, hsize with
  | [a, b, c, d], _ => exact ⟨a, b, c, d, rfl⟩

theorem block2 (block : Block 2) : ∃ e e', block = ⟨[e, e'], rfl⟩ := by
  obtain ⟨bytes, hsize⟩ := block
  match bytes, hsize with
  | [e, e'], _ => exact ⟨e, e', rfl⟩

theorem parse_spell (hname : setup.name.length < 65536) (hdata : setup.data.length < 65536)
    (rest : List UInt8) : parse (setup.spell ++ rest) = some (setup, rest) := by
  obtain ⟨bigEndian, unused, version, name, data, unusedEnd⟩ := setup
  obtain ⟨a, b, c, d, rfl⟩ := block4 version
  obtain ⟨e, e', rfl⟩ := block2 unusedEnd
  obtain ⟨n, n', hn, hnameLen⟩ := writeU16_eq bigEndian hname
  obtain ⟨m, m', hm, hdataLen⟩ := writeU16_eq bigEndian hdata
  dsimp only at hn hm hnameLen hdataLen
  have hbytes : Setup.spell ⟨bigEndian, unused, ⟨[a, b, c, d], rfl⟩, name, data, ⟨[e, e'], rfl⟩⟩ ++
      rest = (if bigEndian then 0x42 else 0x6C) :: unused :: a :: b :: c :: d :: n :: n' :: m ::
        m' :: e :: e' :: (padded name ++ (padded data ++ rest)) := by
    rw [Setup.spell]
    dsimp only
    rw [hn, hm]
    simp only [cons_append, List.nil_append, List.append_assoc]
  have hlength : (padded name ++ (padded data ++ rest)).length =
      nextMultipleOf4 name.length + (nextMultipleOf4 data.length + rest.length) := by
    rw [length_append, length_append, length_padded, length_padded]
  rw [hbytes, parse, byteOrder_spelled, bind_some]
  dsimp only
  rw [hnameLen, hdataLen, if_neg (by omega), slice_padded,
    slice_after (length_padded name), slice_padded, ← List.append_assoc]
  rw [drop_append_of_le_length (by rw [length_append, length_padded, length_padded]),
    drop_of_length_le (by rw [length_append, length_padded, length_padded])]
  rfl

/-- The name and the cookie the display gets. -/
def Forwarding.ours (forwarding : Forwarding) : List UInt8 × List UInt8 :=
  match forwarding.real with
  | some real => (MIT_MAGIC_COOKIE, real)
  | none => ([], [])

theorem Forwarding.own_eq (forwarding : Forwarding) (setup : Setup) : forwarding.own setup =
    { setup with name := forwarding.ours.1, data := forwarding.ours.2 } := by
  rw [Forwarding.own, Forwarding.ours]
  cases forwarding.real <;> rfl

theorem padded_padded (hfront : front.length = 12) (name data : List UInt8) :
    padded (padded (front ++ name) ++ data) = front ++ padded name ++ padded data := by
  have hwords : (front ++ padded name).length % 4 = 0 := by
    have hmod := mod_nextMultipleOf4 name.length
    rw [length_append, length_padded, hfront]
    omega
  rw [@padded_append front (by rw [hfront]) name, padded_append hwords]

theorem substitute_eq {forwarding : Forwarding} {setup : Setup} {header message : List UInt8}
    (hbegin : slice header 0 6 =
      [if setup.bigEndian then 0x42 else 0x6C, setup.unused] ++ setup.version.bytes)
    (hend : slice header 10 12 = setup.unusedEnd.bytes)
    (h : substitute header setup.bigEndian setup.name setup.data forwarding.fake forwarding.real =
      .ok message) :
    setup.name = MIT_MAGIC_COOKIE ∧ setup.data = forwarding.fake ∧
      message = (forwarding.own setup).spell := by
  rw [substitute.eq_def] at h
  split at h
  · cases h
  · rename_i hsession
    rw [not_or, not_not, not_not] at hsession
    refine ⟨hsession.1, hsession.2, ?_⟩
    have hmessage := (Except.ok.inj h).symm
    have hours : (match forwarding.real with
        | some real => (MIT_MAGIC_COOKIE, real)
        | none => ([], [])) = forwarding.ours := rfl
    rw [hours] at hmessage
    have hsize : (slice header 0 6 ++ writeU16 setup.bigEndian forwarding.ours.1.length ++
        writeU16 setup.bigEndian forwarding.ours.2.length ++ slice header 10 12).length = 12 := by
      rw [hbegin, hend, length_append, length_append, length_append,
        length_writeU16, length_writeU16, setup.unusedEnd.size, length_append,
        setup.version.size]
      rfl
    rw [hmessage, padded_padded hsize, hbegin, hend, forwarding.own_eq, Setup.spell]

/-- What is let through starts with a setup of the session's cookie. -/
theorem firstMessage_eq {pieces left : List (List UInt8)} {message : List UInt8}
    (h : firstMessage forwarding pieces = .ok (message, left)) :
    ∃ setup, parse pieces.flatten = some (setup, left.flatten) ∧
      setup.name = MIT_MAGIC_COOKIE ∧ setup.data = forwarding.fake ∧
      message = (forwarding.own setup).spell := by
  rw [firstMessage] at h
  obtain ⟨⟨header, between⟩, hheader, h⟩ := bind_eq_ok.mp h
  obtain ⟨hsize, hstart⟩ := readExact_eq hheader
  match header, hsize with
  | [order, unused, a, b, c, d, n, n', m, m', e, e'], _ =>
    have hnameLen : slice [order, unused, a, b, c, d, n, n', m, m', e, e'] 6 8 = [n, n'] := rfl
    have hdataLen : slice [order, unused, a, b, c, d, n, n', m, m', e, e'] 8 10 = [m, m'] := rfl
    have horder : [order, unused, a, b, c, d, n, n', m, m', e, e'].getD 0 0 = order := rfl
    dsimp only at h
    rw [hnameLen, hdataLen, horder] at h
    split at h
    · cases h
    · rename_i bigEndian hbigEndian
      split at h
      · cases h
      · obtain ⟨⟨rest, after⟩, hrest, hsubstitute⟩ := bind_eq_ok.mp h
        obtain ⟨hlength, hafter⟩ := readExact_eq hrest
        obtain ⟨sent, hsent, hpure⟩ := bind_eq_ok.mp hsubstitute
        obtain ⟨rfl, rfl⟩ := Prod.mk.inj (Except.ok.inj hpure)
        refine ⟨_, ?_, @substitute_eq forwarding ⟨bigEndian, unused, ⟨[a, b, c, d], rfl⟩, _, _,
          ⟨[e, e'], rfl⟩⟩ _ _ ?_ rfl hsent⟩
        · have hname : nextMultipleOf4 (readU16 bigEndian [n, n']) ≤ rest.length := by omega
          have hdata : nextMultipleOf4 (readU16 bigEndian [n, n']) +
              readU16 bigEndian [m, m'] ≤ rest.length := by
            have hpadding := le_nextMultipleOf4 (readU16 bigEndian [m, m'])
            omega
          have hpadding := le_nextMultipleOf4 (readU16 bigEndian [n, n'])
          rw [← hstart, ← hafter]
          simp only [cons_append, List.nil_append]
          rw [parse, hbigEndian, bind_some]
          dsimp only
          rw [if_neg (by rw [length_append]; omega), slice_append (by omega),
            slice_append hdata, ← hlength, drop_left]
          rfl
        · rw [byteOrder_eq hbigEndian]
          rfl

/-- What is let through is the setup with the display's cookie, when its length fits. -/
theorem sane_of_fits (hfits : ∀ real ∈ forwarding.real, real.length < 65536) : Sane forwarding := by
  intro pieces message left h
  obtain ⟨setup, hparse, hname, hdata, rfl⟩ := firstMessage_eq h
  refine ⟨setup, hparse, hname, hdata, rfl, parse_spell ?_ ?_ left.flatten⟩
  · rw [forwarding.own_eq, Forwarding.ours]
    dsimp only
    split
    · exact (by decide : MIT_MAGIC_COOKIE.length < 65536)
    · exact (by decide : 0 < 65536)
  · rw [forwarding.own_eq, Forwarding.ours]
    dsimp only
    split
    · rename_i real hreal
      exact hfits real hreal
    · exact (by decide : 0 < 65536)

theorem length_fromHex {digits cookie : List UInt8} (h : fromHex digits = some cookie) :
    2 * cookie.length ≤ digits.length := by
  induction digits using fromHex.induct generalizing cookie with
  | case1 high low rest ih =>
    rw [fromHex] at h
    obtain ⟨byte, -, h⟩ := bind_eq_some_iff.mp h
    obtain ⟨tail, htail, h⟩ := bind_eq_some_iff.mp h
    have hle := ih htail
    rw [← some.inj h, length_cons, length_cons, length_cons]
    omega
  | case2 digits hshort =>
    rw [fromHex] at h
    · rw [← some.inj h]
      exact Nat.zero_le _
    · exact hshort

/-- An Xauthority file gives the length of a cookie in sixteen bits: so many digits are printed at
most, two for a byte. -/
def Listed (output : List Char) : Prop :=
  ∀ line ∈ lines output, ∀ digits ∈ (splitWhitespace line)[2]?,
    (Text.bytes digits).length < 2 * 65536

theorem cookieFromXauth_fits {output : List Char} (hlisted : Listed output)
    {cookie : List UInt8} (h : cookieFromXauth output = some cookie) : cookie.length < 65536 := by
  rw [cookieFromXauth] at h
  obtain ⟨line, hline, h⟩ := exists_of_findSome?_eq_some h
  split at h
  · rename_i display protocol digits rest hwords
    split at h
    · cases h
    · have hdigits := hlisted line hline digits (by rw [hwords]; rfl)
      have hlength := length_fromHex h
      omega
  · cases h

variable {run}

theorem xauth_fits
    (hrun : ∀ args success stdout, run args = .ended success stdout → Listed (fromUtf8Lossy stdout))
    {args : List (List Char)} {real : Option (List UInt8)} (h : xauth run args = .ok real) :
    ∀ cookie ∈ real, cookie.length < 65536 := by
  intro cookie hcookie
  rw [xauth] at h
  split at h
  · rw [← Except.ok.inj h] at hcookie
    cases hcookie
  · cases h
  · rename_i success stdout hended
    rw [← Except.ok.inj h] at hcookie
    exact cookieFromXauth_fits (hrun args success stdout hended) hcookie

theorem untrustedCookie_fits
    (hrun : ∀ args success stdout, run args = .ended success stdout → Listed (fromUtf8Lossy stdout))
    {file : Except (List Char) (List Char)} {display : List Char} {real : Option (List UInt8)}
    (h : untrustedCookie run file display = .ok real) :
    ∀ cookie ∈ real, cookie.length < 65536 := by
  rw [untrustedCookie.eq_def] at h
  split at h
  · cases h
  · split at h
    · rw [← Except.ok.inj h]
      exact nofun
    · cases h
    · cases h
    · split at h
      · cases h
      · exact xauth_fits hrun h

/-- Forwarding made ready with the cookies an Xauthority file holds lets through setups with the
session's cookie only, and sends each on as the same setup with the display's own. -/
theorem prepared_forwards
    (hrun : ∀ args success stdout, run args = .ended success stdout → Listed (fromUtf8Lossy stdout))
    {unix : Bool} {file : Except (List Char) (List Char)} {fake : Block 16} {spec : X11Spec}
    {live : Live} (h : prepare run unix file fake spec = .ok live) : Sane live.forwarding := by
  rw [prepare] at h
  split at h
  · cases h
  · split at h
    · cases h
    · split at h
      · cases h
      · obtain ⟨real, hreal, h⟩ := bind_eq_ok.mp h
        have hfits : ∀ cookie ∈ real, cookie.length < 65536 := by
          rw [realCookie] at hreal
          split at hreal
          · exact xauth_fits hrun hreal
          · exact untrustedCookie_fits hrun hreal
        rw [← Except.ok.inj h]
        exact sane_of_fits hfits

namespace X11Witness

/-- What `xauth` prints of a file with one cookie, of two bytes. -/
def listed : List Char := "box/unix:0  MIT-MAGIC-COOKIE-1  0aF3".toList

def listing (args : List (List Char)) : Ran :=
  if args = ["list".toList, ":0".toList] then
    .ended true ((listed ++ ['\n']).map fun c => .ofNat c.toNat)
  else .notFound

theorem listing_listed (args : List (List Char)) (success : Bool) (stdout : List UInt8)
    (h : listing args = .ended success stdout) : Listed (fromUtf8Lossy stdout) := by
  have hlines : lines (fromUtf8Lossy ((listed ++ ['\n']).map fun c => .ofNat c.toNat)) =
      [listed] := by decide
  have hwords : (splitWhitespace listed)[2]? = some "0aF3".toList := by decide
  rw [listing] at h
  split at h
  · injection h with hsuccess hstdout
    intro line hline digits hdigits
    rw [← hstdout, hlines, mem_singleton] at hline
    rw [hline, hwords] at hdigits
    rw [← some.inj hdigits]
    decide
  · cases h

def session : Block 16 := ⟨List.replicate 16 7, rfl⟩

/-- Forwarding for `:0`, as `prepare` makes it. -/
def ready : Live := ⟨.new session (some [0x0A, 0xF3]), .unix "/tmp/.X11-unix/X0".toList 0 0⟩

/-- A big-endian setup in two pieces, with two bytes after it. -/
def sent : List (List UInt8) :=
  [[0x42, 0, 0, 11, 0, 0, 0, 18, 0],
    [16, 0, 0] ++ MIT_MAGIC_COOKIE ++ [0, 0] ++ List.replicate 16 7 ++ [1, 2]]

def forwarded : List UInt8 :=
  [0x42, 0, 0, 11, 0, 0, 0, 18, 0, 2, 0, 0] ++ MIT_MAGIC_COOKIE ++ [0, 0, 0x0A, 0xF3, 0, 0]

/-- The setup is sent on with the two bytes of the display's own cookie, padded. -/
theorem sent_forwarded : firstMessage ready.forwarding sent = .ok (forwarded, [[1, 2]]) ∧
    ∃ setup, parse sent.flatten = some (setup, [1, 2]) ∧ setup.data = session.bytes ∧
      parse (forwarded ++ [1, 2]) = some (ready.forwarding.own setup, [1, 2]) := by
  have hfirst : firstMessage ready.forwarding sent = .ok (forwarded, [[1, 2]]) := rfl
  obtain ⟨setup, hparse, -, hdata, -, hforwarded⟩ :=
    @prepared_forwards listing listing_listed true (.error []) session ⟨":0".toList, true⟩ ready
      rfl _ _ _ hfirst
  exact ⟨hfirst, setup, hparse, hdata, hforwarded⟩

end X11Witness

end Opensesh.X11
