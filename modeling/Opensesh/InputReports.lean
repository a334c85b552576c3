/-
Mouse and focus reports, keys and text on their way to the backend: what the session's codec
leaves as it is, and at which cells it rewrites a mouse report.
-/
import Opensesh.InputKeys
import Opensesh.LossyUtf8

namespace Opensesh.Input

open Option
open Text Target

inductive MouseButton where
  | left
  | middle
  | right
  | wheelUp
  | wheelDown
  | wheelLeft
  | wheelRight
  | none

inductive MouseAction where
  | press
  | release
  | move
deriving DecidableEq

/-- One mouse event, in grid cells counted from 0. -/
structure MouseInput where
  action : MouseAction
  button : MouseButton
  column : UInt16
  row : UInt16
  mods : Modifiers := {}

inductive MouseProtocol where
  | x10
  | normal
  | buttonEvent
  | anyEvent
deriving DecidableEq

/-- The active mouse protocol, if any. -/
def mouseProtocol (modes : InputModes) : Option MouseProtocol :=
  if modes.x10Mouse then some .x10
  else if modes.term.mouseMotion then some .anyEvent
  else if modes.term.mouseDrag then some .buttonEvent
  else if modes.term.mouseReportClick then some .normal
  else none

def buttonCode : MouseButton → Option Nat
  | .left => some 0
  | .middle => some 1
  | .right => some 2
  | .wheelUp => some 64
  | .wheelDown => some 65
  | .wheelLeft => some 66
  | .wheelRight => some 67
  | .none => none

def modifierBits (mods : Modifiers) : Nat :=
  4 * mods.shift.toNat + 8 * mods.alt.toNat + 16 * mods.ctrl.toNat

/-- The button code of an event and whether it is a release, if the protocol reports it. -/
def mouseCode (protocol : MouseProtocol) (sgr : Bool) (input : MouseInput) : Option (Nat × Bool) :=
  let button := buttonCode input.button
  let modifiers := modifierBits input.mods
  if protocol = .x10 then
    if input.action = .press then (button.filter (· ≤ 2)).map fun button => (button, false)
    else none
  else
    match input.action with
    | .press => button.map fun button => (button + modifiers, false)
    | .release =>
      (button.filter (· ≤ 2)).map fun button => ((if sgr then button else 3) + modifiers, true)
    | .move =>
      match button with
      | some button =>
        if button ≤ 2 ∧ (protocol = .buttonEvent ∨ protocol = .anyEvent) then
          some (32 + button + modifiers, false)
        else none
      | none =>
        if protocol = .anyEvent then some (32 + 3 + modifiers, false) else none

/-- One value of the default (one byte) or UTF-8 (one or two bytes) encoding. -/
def pushLegacy (value : Nat) (utf8 : Bool) : Option (List UInt8) :=
  if utf8 ∧ 0x80 ≤ value then
    if 0x7FF < value then none
    else some [(0xC0 : UInt8) ||| UInt8.ofNat (value >>> 6),
        (0x80 : UInt8) ||| UInt8.ofNat (value &&& 0x3F)]
  else if value ≤ 255 then some [UInt8.ofNat value]
  else none

/-- The report of a mouse event, if there is one. -/
def encodeMouse (input : MouseInput) (modes : InputModes) : Option (List UInt8) := do
  let protocol ← mouseProtocol modes
  let (code, release) ← mouseCode protocol modes.term.sgrMouse input
  let column := input.column.toNat + 1
  let row := input.row.toNat + 1
  if modes.term.sgrMouse then
    some ([0x1B, 0x5B, 0x3C] ++ decimal code ++ [0x3B] ++ decimal column ++ [0x3B] ++
      decimal row ++ [if release then 0x6D else 0x4D])
  else
    let code ← pushLegacy (32 + code) modes.term.utf8Mouse
    let column ← pushLegacy (32 + column) modes.term.utf8Mouse
    let row ← pushLegacy (32 + row) modes.term.utf8Mouse
    some ([0x1B, 0x5B, 0x4D] ++ code ++ column ++ row)

def maxAlternateScrollLines : Nat := 1000

/-- The wheel as arrow keys on the alternate screen. -/
def alternateScroll (lines : Int) (modes : InputModes) : Option (List UInt8) :=
  let term := modes.term
  if lines = 0 ∨ !(term.altScreen && term.alternateScroll) ∨ (mouseProtocol modes).isSome then
    none
  else
    let final := if lines > 0 then 0x41 else 0x42
    let introducer := if term.appCursor then 0x4F else 0x5B
    some ((List.replicate (min lines.natAbs maxAlternateScrollLines)
      [0x1B, introducer, final]).flatten)

def encodeFocus (focused : Bool) (modes : InputModes) : Option (List UInt8) :=
  if !modes.term.focusInOut then none
  else some (if focused then [0x1B, 0x5B, 0x49] else [0x1B, 0x5B, 0x4F])

/-- An encoding's table: the bytes of a character, if it has it. -/
abbrev Table := Char → Option (List UInt8)

/-- Characters in an encoding; those it lacks become `?`. -/
def written (table : Table) (text : List Char) : List UInt8 :=
  text.flatMap fun c => (table c).getD [0x3F]

/-- Typed input for the program; bytes that are not UTF-8 pass. -/
def encode (table : Table) (input : List UInt8) : List UInt8 :=
  match fromUtf8 input with
  | some text => written table text
  | none => input

/-- What the backend is given for input; `none` is a session in UTF-8. -/
def writeInput (codec : Option Table) (input : List UInt8) : List UInt8 :=
  match codec with
  | some table => encode table input
  | none => input

/-- What a session is given: reports, keys, text, and another encoding. -/
inductive Event where
  | mouse (input : MouseInput) (modes : InputModes)
  | scroll (lines : Int) (modes : InputModes)
  | focus (focused : Bool) (modes : InputModes)
  | key (input : KeyInput) (modes : InputModes) (options : KeyOptions)
  | text (input : List UInt8)
  | options (encoding : List Char)

/-- What the backend is given for an event, if anything. -/
def Event.sent (codec : Option Table) : Event → Option (List UInt8)
  | .mouse input modes => (encodeMouse input modes).map (writeInput codec)
  | .scroll lines modes => (alternateScroll lines modes).map (writeInput codec)
  | .focus focused modes => encodeFocus focused modes
  | .key input modes set => (encodeKey input modes set).map (writeInput codec)
  | .text input => some (writeInput codec input)
  | .options _ => none

/-- The codec after an event; `encoders` is what the encodings' names stand for. -/
def Event.codec (encoders : List Char → Option Table) (codec : Option Table) : Event → Option Table
  | .options encoding => encoders encoding
  | _ => codec

/-- All that the backend is given. -/
def delivered (encoders : List Char → Option Table) : Option Table → List Event → List (List UInt8)
  | _, [] => []
  | codec, event :: rest =>
    (event.sent codec).toList ++ delivered encoders (event.codec encoders codec) rest

/-- What the backend should be given: reports and ASCII keys as they are, other text in the
session's encoding. -/
def Event.due (codec : Option Table) : Event → Option (List UInt8)
  | .mouse input modes => encodeMouse input modes
  | .scroll lines modes => alternateScroll lines modes
  | .focus focused modes => encodeFocus focused modes
  | .key input modes set =>
    (encodeKey input modes set).map fun sent =>
      if Ascii sent then sent else writeInput codec sent
  | .text input => some (writeInput codec input)
  | .options _ => none

def allDue (encoders : List Char → Option Table) : Option Table → List Event → List (List UInt8)
  | _, [] => []
  | codec, event :: rest =>
    (event.due codec).toList ++ allDue encoders (event.codec encoders codec) rest

/-- The byte of a column or row, or its character in UTF-8 mouse mode. -/
def cell (position : UInt16) : Nat := position.toNat + 33

/-- The encoding has the characters, with the bytes they have in UTF-8. -/
def SameBytes (table : Table) (text : List Char) : Prop := written table text = bytes text

/-- Bytes that are one character in UTF-8. -/
def TwoBytes (first second : Nat) : Prop :=
  0xC2 ≤ first ∧ first ≤ 0xDF ∧ 0x80 ≤ second ∧ second ≤ 0xBF

/-- The character of two such bytes. -/
def pair (first second : Nat) : Char := Char.ofNat ((first - 0xC0) * 64 + (second - 0x80))

/-- Where a report on a cell is left alone: in SGR, where the encoding writes the characters
of its coordinates as UTF-8 does, and in the default encoding where they are no character. -/
def Untouched (table : Table) (input : MouseInput) (modes : InputModes) : Prop :=
  if modes.term.sgrMouse then True
  else if modes.term.utf8Mouse then
    SameBytes table [Char.ofNat (cell input.column), Char.ofNat (cell input.row)]
  else
    TwoBytes (cell input.column) (cell input.row) →
      SameBytes table [pair (cell input.column) (cell input.row)]

/-- The encodings a session may have: ASCII is itself in all of them. -/
def AsciiCompatible (table : Table) : Prop :=
  ∀ c : Char, c.toNat < 128 → table c = some [UInt8.ofNat c.toNat]

variable {byte second : UInt8} {front pushed : List UInt8} {c : Char} {value : Nat}
  {input : MouseInput} {modes : InputModes}

theorem bytes_ascii (hascii : byte < 128) (text : List Char) :
    bytes (Char.ofNat byte.toNat :: text) = byte :: bytes text := by
  have hlt : byte.toNat < 128 := UInt8.lt_iff_toNat_lt.mp hascii
  obtain ⟨first, others, heq, -, hfirst⟩ := utf8EncodeChar_eq_cons (Char.ofNat byte.toNat)
  rw [toNat_ofNat hlt] at hfirst
  rcases hfirst with ⟨-, hsame, rfl⟩ | ⟨hge, -⟩
  · rw [bytes_cons, heq, UInt8.toNat_inj.mp hsame]
    rfl
  · omega

theorem ascii_of_bytes (hascii : byte < 128) {text : List Char} {rest : List UInt8}
    (htext : bytes text = byte :: rest) :
    ∃ others, text = Char.ofNat byte.toNat :: others ∧ bytes others = rest := by
  have hlt : byte.toNat < 128 := UInt8.lt_iff_toNat_lt.mp hascii
  cases text with
  | nil => cases htext
  | cons c others =>
    obtain ⟨first, tail, heq, -, hfirst⟩ := utf8EncodeChar_eq_cons c
    rw [bytes_cons, heq, List.cons_append] at htext
    obtain ⟨rfl, hrest⟩ := List.cons.inj htext
    rcases hfirst with ⟨-, hsame, rfl⟩ | ⟨-, hge⟩
    · refine ⟨others, ?_, hrest⟩
      rw [hsame, Char.ofNat_toNat]
    · omega

theorem fromUtf8_ascii_cons (hascii : byte < 128) (rest : List UInt8) :
    fromUtf8 (byte :: rest) = (fromUtf8 rest).map (Char.ofNat byte.toNat :: ·) := by
  cases hrest : fromUtf8 rest with
  | some text =>
    have hbytes := bytes_of_fromUtf8 hrest
    rw [← hbytes, ← bytes_ascii hascii text, fromUtf8_bytes]
    rfl
  | none =>
    cases hwhole : fromUtf8 (byte :: rest) with
    | none => rfl
    | some text =>
      obtain ⟨others, rfl, hothers⟩ := ascii_of_bytes hascii (bytes_of_fromUtf8 hwhole)
      rw [← hothers, fromUtf8_bytes] at hrest
      cases hrest

/-- An ASCII byte in front stays, and what follows is encoded by itself. -/
theorem encode_ascii_cons {table : Table} (htable : AsciiCompatible table) (hascii : byte < 128)
    (rest : List UInt8) : encode table (byte :: rest) = byte :: encode table rest := by
  have hlt : byte.toNat < 128 := UInt8.lt_iff_toNat_lt.mp hascii
  have hbyte : table (Char.ofNat byte.toNat) = some [byte] := by
    have h := htable (Char.ofNat byte.toNat) (by rw [toNat_ofNat hlt]; exact hlt)
    rwa [toNat_ofNat hlt, UInt8.ofNat_toNat] at h
  rw [encode, encode, fromUtf8_ascii_cons hascii]
  cases fromUtf8 rest with
  | some text =>
    change written table (Char.ofNat byte.toNat :: text) = byte :: written table text
    rw [written, List.flatMap_cons, hbyte]
    rfl
  | none => rfl

theorem encode_ascii_append {table : Table} (htable : AsciiCompatible table) (hascii : Ascii front)
    (rest : List UInt8) : encode table (front ++ rest) = front ++ encode table rest := by
  induction front with
  | nil => rfl
  | cons byte front ih =>
    rw [List.cons_append, encode_ascii_cons htable (hascii byte List.mem_cons_self),
      ih fun other hmem => hascii other (List.mem_cons_of_mem byte hmem), List.cons_append]

theorem encode_nil (table : Table) : encode table [] = [] := rfl

theorem encode_ascii {table : Table} (htable : AsciiCompatible table) {input : List UInt8}
    (hascii : Ascii input) : encode table input = input := by
  have h := encode_ascii_append htable hascii []
  rwa [encode_nil, List.append_nil] at h

theorem utf8EncodeChar_two (hlow : 128 ≤ c.toNat) (hhigh : c.toNat < 2048) :
    String.utf8EncodeChar c =
      [UInt8.ofNat (c.toNat / 64 + 0xC0), UInt8.ofNat (c.toNat % 64 + 0x80)] := by
  rw [Char.toNat] at hlow hhigh
  rw [String.utf8EncodeChar, Char.toNat]
  rw [if_neg (by omega), if_pos (by omega), Nat.mod_eq_of_lt (by omega)]

theorem utf8EncodeChar_long (hlow : 2048 ≤ c.toNat) : 3 ≤ (String.utf8EncodeChar c).length := by
  rw [Char.toNat] at hlow
  rw [String.utf8EncodeChar]
  rw [if_neg (by omega), if_neg (by omega)]
  split
  · exact Nat.le_refl 3
  · exact Nat.le_succ 3

theorem toNat_ofNat_two (hvalue : value < 2048) : (Char.ofNat value).toNat = value := by
  rw [Char.ofNat, dif_pos (Or.inl (by omega))]
  rfl

theorem bytes_pair {first : UInt8} (htwo : TwoBytes first.toNat second.toNat) :
    bytes [pair first.toNat second.toNat] = [first, second] := by
  obtain ⟨hlow, hhigh, hmin, hmax⟩ := htwo
  have hvalue : (pair first.toNat second.toNat).toNat =
      (first.toNat - 0xC0) * 64 + (second.toNat - 0x80) := by
    rw [pair, toNat_ofNat_two (by omega)]
  rw [bytes_cons, utf8EncodeChar_two (by omega) (by omega), hvalue]
  have hfirst : UInt8.ofNat (((first.toNat - 0xC0) * 64 + (second.toNat - 0x80)) / 64 + 0xC0) =
      first := by
    rw [← UInt8.toNat_inj, UInt8.toNat_ofNat']
    omega
  have hsecond : UInt8.ofNat (((first.toNat - 0xC0) * 64 + (second.toNat - 0x80)) % 64 + 0x80) =
      second := by
    rw [← UInt8.toNat_inj, UInt8.toNat_ofNat']
    omega
  rw [hfirst, hsecond]
  rfl

theorem twoBytes_of_text {first : UInt8} (hfirst : 128 ≤ first) {text : List Char}
    (htext : bytes text = [first, second]) : TwoBytes first.toNat second.toNat := by
  have hge : 128 ≤ first.toNat := UInt8.le_iff_toNat_le.mp hfirst
  cases text with
  | nil => cases htext
  | cons c others =>
    rw [bytes_cons] at htext
    have hlengths := congrArg List.length htext
    rw [List.length_append] at hlengths
    have hsmall : c.toNat < 2048 := by
      by_contra h
      have hlong := utf8EncodeChar_long (Nat.le_of_not_lt h)
      have htwo : [first, second].length = 2 := rfl
      omega
    have hlarge : 128 ≤ c.toNat := by
      by_contra h
      obtain ⟨head, tail, heq, -, hhead⟩ := utf8EncodeChar_eq_cons c
      rw [heq, List.cons_append] at htext
      obtain ⟨rfl, -⟩ := List.cons.inj htext
      rcases hhead with ⟨hlow, hsame, -⟩ | ⟨hlow, -⟩
      · omega
      · omega
    rw [utf8EncodeChar_two hlarge hsmall, List.cons_append, List.cons_append] at htext
    obtain ⟨rfl, hrest⟩ := List.cons.inj htext
    obtain ⟨rfl, -⟩ := List.cons.inj hrest
    rw [TwoBytes, UInt8.toNat_ofNat', UInt8.toNat_ofNat']
    omega

theorem not_text_single (hbyte : 128 ≤ byte) : fromUtf8 [byte] = none := by
  have hge : 128 ≤ byte.toNat := UInt8.le_iff_toNat_le.mp hbyte
  cases hread : fromUtf8 [byte] with
  | none => rfl
  | some text =>
    refine absurd (bytes_of_fromUtf8 hread) fun htext => ?_
    cases text with
    | nil => cases htext
    | cons c others =>
      rw [bytes_cons] at htext
      have hlengths := congrArg List.length htext
      rw [List.length_append, List.length_singleton] at hlengths
      obtain ⟨head, tail, heq, -, hhead⟩ := utf8EncodeChar_eq_cons c
      rcases hhead with ⟨hlow, hsame, -⟩ | ⟨hlow, -⟩
      · rw [heq, List.cons_append] at htext
        obtain ⟨rfl, -⟩ := List.cons.inj htext
        omega
      · by_cases hsmall : c.toNat < 2048
        · rw [utf8EncodeChar_two hlow hsmall] at hlengths
          have htwo : ∀ x y : UInt8, [x, y].length = 2 := fun _ _ => rfl
          rw [htwo] at hlengths
          omega
        · have hlong := utf8EncodeChar_long (Nat.le_of_not_lt hsmall)
          omega

theorem encode_two_iff {table : Table} (htable : AsciiCompatible table) (first second : UInt8) :
    encode table [first, second] = [first, second] ↔
      (TwoBytes first.toNat second.toNat → SameBytes table [pair first.toNat second.toNat]) := by
  by_cases hfirst : 128 ≤ first
  · cases hread : fromUtf8 [first, second] with
    | none =>
      refine ⟨fun _ htwo => ?_, fun _ => by rw [encode, hread]⟩
      rw [← bytes_pair htwo, fromUtf8_bytes] at hread
      cases hread
    | some text =>
      have htext := bytes_of_fromUtf8 hread
      have htwo := twoBytes_of_text hfirst htext
      obtain rfl := bytes_injective (htext.trans (bytes_pair htwo).symm)
      rw [encode, hread]
      refine ⟨fun h _ => h.trans htext.symm, fun h => (h htwo).trans htext⟩
  · have hascii : first < 128 := Nat.lt_of_not_le hfirst
    refine iff_of_true ?_ fun htwo => ?_
    · rw [encode_ascii_cons htable hascii]
      by_cases hsecond : 128 ≤ second
      · rw [encode, not_text_single hsecond]
      · have hsingle : Ascii [second] := fun byte hmem => by
          rw [List.mem_singleton.mp hmem]
          exact Nat.lt_of_not_le hsecond
        rw [encode_ascii htable hsingle]
    · have hlt : first.toNat < 128 := UInt8.lt_iff_toNat_lt.mp hascii
      have hge := htwo.1
      omega

theorem modifierBits_le (mods : Modifiers) : modifierBits mods ≤ 28 := by
  have hshift := mods.shift.toNat_le
  have halt := mods.alt.toNat_le
  have hctrl := mods.ctrl.toNat_le
  rw [modifierBits]
  omega

theorem buttonCode_le {button : MouseButton} {code : Nat} (hcode : buttonCode button = some code) :
    code ≤ 67 := by
  cases button <;> cases hcode <;> decide

/-- The button part of a report is ASCII. -/
theorem mouseCode_le {protocol : MouseProtocol} {sgr : Bool} {code : Nat} {release : Bool}
    (hcode : mouseCode protocol sgr input = some (code, release)) : code ≤ 95 := by
  have hmods := modifierBits_le input.mods
  rw [mouseCode] at hcode
  split at hcode
  · split at hcode
    · obtain ⟨button, hbutton, hpair⟩ := map_eq_some_iff.mp hcode
      obtain ⟨rfl, -⟩ := Prod.mk.inj hpair
      have hle := buttonCode_le (filter_eq_some_iff.mp hbutton |>.1)
      omega
    · cases hcode
  · split at hcode
    · obtain ⟨button, hbutton, hpair⟩ := map_eq_some_iff.mp hcode
      obtain ⟨rfl, -⟩ := Prod.mk.inj hpair
      have hle := buttonCode_le hbutton
      omega
    · obtain ⟨button, hbutton, hpair⟩ := map_eq_some_iff.mp hcode
      obtain ⟨rfl, -⟩ := Prod.mk.inj hpair
      have hle := buttonCode_le (filter_eq_some_iff.mp hbutton |>.1)
      split <;> omega
    · split at hcode
      · split at hcode
        next hheld =>
          obtain ⟨rfl, -⟩ := Prod.mk.inj (some.inj hcode)
          have hle := hheld.1
          omega
        next => cases hcode
      · split at hcode
        · obtain ⟨rfl, -⟩ := Prod.mk.inj (some.inj hcode)
          omega
        · cases hcode

theorem ascii_append {back : List UInt8} (hfront : Ascii front) (hback : Ascii back) :
    Ascii (front ++ back) := by
  intro byte hmem
  rcases List.mem_append.mp hmem with h | h
  · exact hfront byte h
  · exact hback byte h

theorem ascii_decimal (value : Nat) : Ascii (decimal value) := by
  intro byte hmem
  obtain ⟨c, hc, rfl⟩ := List.mem_map.mp hmem
  have hdigit := Nat.isDigit_of_mem_toDigits (by decide) (by decide) hc
  rw [Char.isDigit, Bool.and_eq_true, decide_eq_true_eq, decide_eq_true_eq] at hdigit
  have hle : c.toNat ≤ 57 := hdigit.2
  rw [UInt8.lt_iff_toNat_lt, UInt8.toNat_ofNat']
  have h128 : (128 : UInt8).toNat = 128 := rfl
  omega

/-- A value of at most eleven bits, in UTF-8 mode, is written as the character's bytes. -/
theorem pushLegacy_utf8 (hpush : pushLegacy value true = some pushed) :
    bytes [Char.ofNat value] = pushed := by
  rw [pushLegacy] at hpush
  split at hpush
  next hlarge =>
    split at hpush
    next => cases hpush
    next hfits =>
      have hvalue : (Char.ofNat value).toNat = value := toNat_ofNat_two (by omega)
      obtain rfl := some.inj hpush
      have hfirst : ∀ n < 32, UInt8.ofNat (n + 0xC0) = (0xC0 : UInt8) ||| UInt8.ofNat n := by
        decide
      have hsecond : ∀ n < 64, UInt8.ofNat (n + 0x80) = (0x80 : UInt8) ||| UInt8.ofNat n := by
        decide
      have hshift : value >>> 6 = value / 64 := Nat.shiftRight_eq_div_pow value 6
      have hmask : value &&& 0x3F = value % 64 := Nat.and_two_pow_sub_one_eq_mod value 6
      rw [bytes_cons, utf8EncodeChar_two (by omega) (by omega), hvalue,
        hfirst (value / 64) (by omega), hsecond (value % 64) (by omega), hshift, hmask]
      rfl
  next hsmall =>
    split at hpush
    next =>
      obtain rfl := some.inj hpush
      have hlt : value < 128 := by
        by_contra h
        exact hsmall ⟨rfl, Nat.le_of_not_lt h⟩
      have hbyte : UInt8.ofNat value < 128 := by
        rw [UInt8.lt_iff_toNat_lt, UInt8.toNat_ofNat']
        have h128 : (128 : UInt8).toNat = 128 := rfl
        omega
      have h := bytes_ascii hbyte []
      rwa [UInt8.toNat_ofNat', Nat.mod_eq_of_lt (by omega)] at h
    next => cases hpush

theorem pushLegacy_byte (hpush : pushLegacy value false = some pushed) :
    value ≤ 255 ∧ pushed = [UInt8.ofNat value] := by
  rw [pushLegacy, if_neg fun h => Bool.noConfusion h.1] at hpush
  split at hpush
  next hle => exact ⟨hle, (some.inj hpush).symm⟩
  next => cases hpush

theorem pushLegacy_ascii (utf8 : Bool) (hvalue : value < 128) :
    pushLegacy value utf8 = some [UInt8.ofNat value] ∧ Ascii [UInt8.ofNat value] := by
  refine ⟨?_, fun byte hmem => ?_⟩
  · rw [pushLegacy, if_neg (by omega), if_pos (by omega)]
  · rw [List.mem_singleton.mp hmem, UInt8.lt_iff_toNat_lt, UInt8.toNat_ofNat']
    have h128 : (128 : UInt8).toNat = 128 := rfl
    omega

/-- A report passes a codec as it is exactly at the cells `Untouched` names. -/
theorem encode_mouse_iff {table : Table} (htable : AsciiCompatible table) {report : List UInt8}
    (hreport : encodeMouse input modes = some report) :
    encode table report = report ↔ Untouched table input modes := by
  obtain ⟨protocol, _, hreport⟩ := bind_eq_some_iff.mp hreport
  obtain ⟨⟨code, release⟩, hcode, hreport⟩ := bind_eq_some_iff.mp hreport
  have hsmall := mouseCode_le hcode
  dsimp only at hreport
  rw [Untouched]
  split at hreport
  next hsgr =>
    obtain rfl := some.inj hreport
    rw [if_pos hsgr]
    refine iff_of_true (encode_ascii htable ?_) trivial
    have hstart : Ascii [0x1B, 0x5B, 0x3C] := by decide
    have hbetween : Ascii [0x3B] := by decide
    have hlast : Ascii [if release then 0x6D else 0x4D] := by cases release <;> decide
    exact ascii_append (ascii_append (ascii_append (ascii_append (ascii_append (ascii_append
      hstart (ascii_decimal _)) hbetween) (ascii_decimal _)) hbetween) (ascii_decimal _)) hlast
  next hsgr =>
    obtain ⟨button, hbutton, hreport⟩ := bind_eq_some_iff.mp hreport
    obtain ⟨column, hcolumn, hreport⟩ := bind_eq_some_iff.mp hreport
    obtain ⟨row, hrow, hreport⟩ := bind_eq_some_iff.mp hreport
    obtain rfl := some.inj hreport
    have hcodeLt : 32 + code < 128 := by omega
    obtain ⟨hpushed, hascii⟩ := pushLegacy_ascii modes.term.utf8Mouse hcodeLt
    obtain rfl := some.inj (hbutton.symm.trans hpushed)
    have hfront : Ascii ([0x1B, 0x5B, 0x4D] ++ [UInt8.ofNat (32 + code)]) :=
      ascii_append (by decide) hascii
    have hcell : ∀ position : UInt16, 32 + (position.toNat + 1) = cell position := by
      intro position
      rw [cell]
      omega
    rw [hcell] at hcolumn hrow
    rw [if_neg hsgr, List.append_assoc, encode_ascii_append htable hfront,
      List.append_cancel_left_eq]
    cases hutf8 : modes.term.utf8Mouse with
    | true =>
      rw [hutf8] at hcolumn hrow
      rw [if_pos rfl, ← pushLegacy_utf8 hcolumn, ← pushLegacy_utf8 hrow]
      have hboth : bytes [Char.ofNat (cell input.column)] ++ bytes [Char.ofNat (cell input.row)] =
          bytes [Char.ofNat (cell input.column), Char.ofNat (cell input.row)] := by
        rw [bytes_cons _ [Char.ofNat (cell input.row)], bytes_cons _ []]
        simp only [bytes, List.flatMap_nil, List.append_nil]
      rw [hboth, encode, fromUtf8_bytes]
      rfl
    | false =>
      rw [hutf8] at hcolumn hrow
      obtain ⟨hcolumnLe, rfl⟩ := pushLegacy_byte hcolumn
      obtain ⟨hrowLe, rfl⟩ := pushLegacy_byte hrow
      rw [if_neg Bool.false_ne_true, List.singleton_append, encode_two_iff htable,
        UInt8.toNat_ofNat', UInt8.toNat_ofNat', Nat.mod_eq_of_lt (by omega),
        Nat.mod_eq_of_lt (by omega)]

theorem ascii_alternateScroll {lines : Int} {sent : List UInt8}
    (hsent : alternateScroll lines modes = some sent) : Ascii sent := by
  rw [alternateScroll] at hsent
  split at hsent
  · cases hsent
  · obtain rfl := some.inj hsent
    intro byte hmem
    obtain ⟨sequence, hsequence, hbyte⟩ := List.mem_flatten.mp hmem
    rw [List.eq_of_mem_replicate hsequence] at hbyte
    rcases List.mem_cons.mp hbyte with rfl | hbyte
    · decide
    rcases List.mem_cons.mp hbyte with rfl | hbyte
    · split <;> decide
    · rw [List.mem_singleton.mp hbyte]
      split <;> decide

/-- The codec a session has after some events. -/
def codecAfter (encoders : List Char → Option Table) (codec : Option Table)
    (events : List Event) : Option Table :=
  events.foldl (fun codec event => event.codec encoders codec) codec

/-- An event in a session whose codec leaves it alone. -/
def Event.Quiet (codec : Option Table) : Event → Prop
  | .mouse input modes =>
    ∀ table, codec = some table → (encodeMouse input modes).isSome → Untouched table input modes
  | _ => True

theorem sent_eq_due_iff {codec : Option Table}
    (hcodec : ∀ table, codec = some table → AsciiCompatible table) (event : Event) :
    (event.sent codec).toList.length = (event.due codec).toList.length ∧
      (event.sent codec = event.due codec ↔ event.Quiet codec) := by
  cases event with
  | mouse input modes =>
    rw [Event.sent, Event.due, Event.Quiet]
    cases hreport : encodeMouse input modes with
    | none => exact ⟨rfl, iff_of_true rfl fun _ _ h => Bool.noConfusion h⟩
    | some report =>
      refine ⟨rfl, ?_⟩
      rw [map_some, some.injEq]
      cases codec with
      | none => exact iff_of_true rfl fun _ h => by cases h
      | some table =>
        refine (encode_mouse_iff (hcodec table rfl) hreport).trans ⟨fun h other hsame _ => ?_,
          fun h => h table rfl rfl⟩
        rw [← some.inj hsame]
        exact h
  | scroll lines modes =>
    rw [Event.sent, Event.due]
    cases hsent : alternateScroll lines modes with
    | none => exact ⟨rfl, iff_of_true rfl trivial⟩
    | some sent =>
      refine ⟨rfl, iff_of_true ?_ trivial⟩
      rw [map_some]
      cases codec with
      | none => rfl
      | some table =>
        exact congrArg some (encode_ascii (hcodec table rfl) (ascii_alternateScroll hsent))
  | focus focused modes => exact ⟨rfl, iff_of_true rfl trivial⟩
  | key input modes set =>
    rw [Event.sent, Event.due]
    cases encodeKey input modes set with
    | none => exact ⟨rfl, iff_of_true rfl trivial⟩
    | some sent =>
      refine ⟨rfl, iff_of_true ?_ trivial⟩
      rw [map_some, map_some]
      cases codec with
      | none =>
        split
        · rfl
        · rfl
      | some table =>
        split
        next hascii => exact congrArg some (encode_ascii (hcodec table rfl) hascii)
        next => rfl
  | text input => exact ⟨rfl, iff_of_true rfl trivial⟩
  | options encoding => exact ⟨rfl, iff_of_true rfl trivial⟩

theorem toList_injective {Item : Type} {first second : Option Item}
    (h : first.toList = second.toList) : first = second := by
  cases first with
  | none =>
    cases second with
    | none => rfl
    | some _ => cases h
  | some _ =>
    cases second with
    | none => cases h
    | some _ =>
      obtain ⟨rfl, -⟩ := List.cons.inj h
      rfl

theorem delivered_eq_iff {encoders : List Char → Option Table} {codec : Option Table}
    (hencoders : ∀ encoding table, encoders encoding = some table → AsciiCompatible table)
    (hcodec : ∀ table, codec = some table → AsciiCompatible table) (events : List Event) :
    delivered encoders codec events = allDue encoders codec events ↔
      ∀ before event after, events = before ++ event :: after →
        event.Quiet (codecAfter encoders codec before) := by
  induction events generalizing codec with
  | nil =>
    refine iff_of_true rfl fun before event after h => ?_
    cases before <;> cases h
  | cons first rest ih =>
    obtain ⟨hlength, hfirst⟩ := sent_eq_due_iff hcodec first
    have hnext : ∀ table, first.codec encoders codec = some table → AsciiCompatible table := by
      cases first with
      | options encoding => exact hencoders encoding
      | _ => exact hcodec
    rw [delivered, allDue]
    constructor
    · intro hsame before event after heq
      obtain ⟨hsent, hrest⟩ := List.append_inj hsame hlength
      cases before with
      | nil =>
        obtain ⟨rfl, -⟩ := List.cons.inj heq
        exact hfirst.mp (toList_injective hsent)
      | cons other before =>
        obtain ⟨rfl, hrest'⟩ := List.cons.inj heq
        exact (ih hnext).mp hrest before event after hrest'
    · intro hquiet
      have hrest := (ih hnext).mpr fun before event after heq =>
        hquiet (first :: before) event after (congrArg (first :: ·) heq)
      rw [hfirst.mpr (hquiet [] first rest rfl), hrest]

/-- In every session the backend is given each report and each ASCII key as it was produced
exactly when every mouse event that is reported stands at a cell its encoding leaves alone. -/
theorem reports_iff {encoders : List Char → Option Table}
    (hencoders : ∀ encoding table, encoders encoding = some table → AsciiCompatible table)
    (encoding : List Char) (events : List Event) :
    delivered encoders (encoders encoding) events = allDue encoders (encoders encoding) events ↔
      ∀ before input modes after, events = before ++ .mouse input modes :: after →
        ∀ table, codecAfter encoders (encoders encoding) before = some table →
          (encodeMouse input modes).isSome → Untouched table input modes := by
  refine (delivered_eq_iff hencoders (hencoders encoding) events).trans ⟨?_, ?_⟩
  · intro h before input modes after heq
    exact h before (.mouse input modes) after heq
  · intro h before event after heq
    cases event with
    | mouse input modes => exact h before input modes after heq
    | _ => trivial

namespace ReportsWitness

/-- windows-1252 as far as it is ISO-8859-1. -/
def latin : Table := fun c =>
  if c.toNat < 128 ∨ 0xA0 ≤ c.toNat ∧ c.toNat ≤ 0xFF then some [UInt8.ofNat c.toNat] else none

def encoders (encoding : List Char) : Option Table :=
  if encoding = "windows-1252".toList then some latin else none

theorem encoders_ascii (encoding : List Char) (table : Table)
    (hencoder : encoders encoding = some table) : AsciiCompatible table := by
  rw [encoders] at hencoder
  split at hencoder
  · obtain rfl := some.inj hencoder
    intro c hc
    rw [latin, if_pos (Or.inl hc)]
  · cases hencoder

def clicks (utf8 : Bool) : InputModes := { term := { mouseReportClick := true, utf8Mouse := utf8 } }

def press (column row : UInt16) : MouseInput := { action := .press, button := .left, column, row }

/-- A click near the corner, a focus report and the up key, in windows-1252. -/
def quietEvents : List Event :=
  [.mouse (press 3 4) (clicks false), .focus true { term := { focusInOut := true } },
    .key { key := .up, mods := {}, text := [] } {} {}]

theorem quiet_delivered :
    delivered encoders (encoders "windows-1252".toList) quietEvents =
      allDue encoders (encoders "windows-1252".toList) quietEvents := by
  refine (reports_iff encoders_ascii "windows-1252".toList quietEvents).mpr ?_
  intro before input modes after heq table hcodec _
  have hmouse : .mouse input modes ∈ quietEvents := heq ▸ List.mem_append_right _ List.mem_cons_self
  simp only [quietEvents, List.mem_cons, List.not_mem_nil, reduceCtorEq, or_false,
    Event.mouse.injEq] at hmouse
  obtain ⟨rfl, rfl⟩ := hmouse
  intro htwo
  exact absurd htwo.1 (by decide)

/-- At column 163 and row 137 the two bytes are the letter é, at column 200 in UTF-8 mode the
column is the letter è: the encoding has both in one byte. -/
theorem letters_rewritten :
    delivered encoders (encoders "windows-1252".toList)
        [.mouse (press 162 136) (clicks false), .mouse (press 199 0) (clicks true)] =
      [[0x1B, 0x5B, 0x4D, 0x20, 0xE9], [0x1B, 0x5B, 0x4D, 0x20, 0xE8, 0x21]] ∧
    allDue encoders (encoders "windows-1252".toList)
        [.mouse (press 162 136) (clicks false), .mouse (press 199 0) (clicks true)] =
      [[0x1B, 0x5B, 0x4D, 0x20, 0xC3, 0xA9], [0x1B, 0x5B, 0x4D, 0x20, 0xC3, 0xA8, 0x21]] := by
  refine ⟨?_, ?_⟩
  · have hfirst : fromUtf8 [0x1B, 0x5B, 0x4D, 0x20, 0xC3, 0xA9] =
        some ['\x1b', '[', 'M', ' ', 'é'] := fromUtf8_bytes ['\x1b', '[', 'M', ' ', 'é']
    have hsecond : fromUtf8 [0x1B, 0x5B, 0x4D, 0x20, 0xC3, 0xA8, 0x21] =
        some ['\x1b', '[', 'M', ' ', 'è', '!'] := fromUtf8_bytes ['\x1b', '[', 'M', ' ', 'è', '!']
    have hencoder : encoders "windows-1252".toList = some latin := if_pos rfl
    have hclick : encodeMouse (press 162 136) (clicks false) =
        some [0x1B, 0x5B, 0x4D, 0x20, 0xC3, 0xA9] := by decide
    have hutf8 : encodeMouse (press 199 0) (clicks true) =
        some [0x1B, 0x5B, 0x4D, 0x20, 0xC3, 0xA8, 0x21] := by decide
    simp only [delivered, Event.sent, Event.codec, hencoder, hclick, hutf8, Option.map_some,
      writeInput, encode, hfirst, hsecond]
    decide
  · decide

end ReportsWitness

end Opensesh.Input
