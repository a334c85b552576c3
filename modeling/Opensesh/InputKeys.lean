/-
What a key press writes to the program: the control byte, the sequence or the text of each
key, under the terminal's modes and the user's options.
-/
import Opensesh.Percent

namespace Opensesh.Input

open Text

/-- The engine's modes that input depends on. -/
structure TermMode where
  appCursor : Bool := false
  appKeypad : Bool := false
  lineFeedNewLine : Bool := false
  altScreen : Bool := false
  alternateScroll : Bool := false
  focusInOut : Bool := false
  mouseReportClick : Bool := false
  mouseDrag : Bool := false
  mouseMotion : Bool := false
  utf8Mouse : Bool := false
  sgrMouse : Bool := false
  bracketedPaste : Bool := false

structure InputModes where
  term : TermMode := {}
  x10Mouse : Bool := false

structure Modifiers where
  shift : Bool := false
  ctrl : Bool := false
  alt : Bool := false
  super : Bool := false
deriving DecidableEq

/-- A key on the numeric keypad that produced a character. -/
inductive KeypadKey where
  | digit (value : UInt8)
  | multiply
  | add
  | separator
  | subtract
  | decimal
  | divide
  | equal

namespace KeypadKey

def asChar : KeypadKey → Char
  | .digit value => Char.ofNat (48 + min value.toNat 9)
  | .multiply => '*'
  | .add => '+'
  | .separator => ','
  | .subtract => '-'
  | .decimal => '.'
  | .divide => '/'
  | .equal => '='

/-- The final byte of the application keypad sequence. -/
def vt220Final : KeypadKey → UInt8
  | .digit value => 0x70 + min value 9
  | .multiply => 0x6A
  | .add => 0x6B
  | .separator => 0x6C
  | .subtract => 0x6D
  | .decimal => 0x6E
  | .divide => 0x6F
  | .equal => 0x58

end KeypadKey

inductive Key where
  | enter
  | keypadEnter
  | tab
  | backtab
  | backspace
  | escape
  | up
  | down
  | left
  | right
  | home
  | endKey
  | begin
  | pageUp
  | pageDown
  | insert
  | delete
  | menu
  | f (number : UInt8)
  | keypad (key : KeypadKey)
  | character (c : Option Char)
  | ignored

structure KeyInput where
  key : Key
  mods : Modifiers
  text : List Char

structure KeyOptions where
  backspaceSendsCtrlH : Bool := false
  altSendsEscape : Bool := true
  deleteSendsDel : Bool := false
  vt220Keypad : Bool := false

/-- The escape codes of F5 to F24. -/
def functionKeyCodes : List Nat :=
  [15, 17, 18, 19, 20, 21, 23, 24, 25, 26, 28, 29, 31, 32, 33, 34, 42, 43, 44, 45]

/-- The only character of a text that has exactly one. -/
def singleChar : List Char → Option Char
  | [c] => some c
  | _ => none

/-- The control byte Ctrl with a character sends. -/
def ctrlByte (c : Char) : Option UInt8 :=
  if c.isAlpha then some (UInt8.ofNat c.toNat &&& 0x1F)
  else if c ∈ ['@', ' ', '2', '\x60'] then some 0x00
  else if c ∈ ['[', '3', '\x7b'] then some 0x1B
  else if c ∈ ['\\', '4', '|'] then some 0x1C
  else if c ∈ [']', '5', '\x7d'] then some 0x1D
  else if c ∈ ['^', '6', '~'] then some 0x1E
  else if c ∈ ['_', '7', '/'] then some 0x1F
  else if c ∈ ['8', '?'] then some 0x7F
  else none

/-- The byte of a text that is a single control character. -/
def loneControl (text : List Char) : Option UInt8 :=
  ((singleChar text).filter fun c => c < ' ' || c = '\x7f').map fun c => UInt8.ofNat c.toNat

def vt220Keypad (term : TermMode) (options : KeyOptions) : Bool :=
  options.vt220Keypad && term.appKeypad

/-- What Enter sends. -/
def newline (term : TermMode) : List UInt8 :=
  if term.lineFeedNewLine then [0x0D, 0x0A] else [0x0D]

/-- The modifier parameter of a sequence. -/
def modifierParameter (mods : Modifiers) : Nat :=
  1 + mods.shift.toNat + 2 * mods.alt.toNat + 4 * mods.ctrl.toNat + 8 * mods.super.toNat

def withEsc (esc : Bool) (bytes : List UInt8) : List UInt8 :=
  if esc then 0x1B :: bytes else bytes

def ss3 (final : UInt8) : List UInt8 := [0x1B, 0x4F, final]

/-- A number in decimal digits. -/
def decimal (value : Nat) : List UInt8 := (Nat.toDigits 10 value).map fun c => UInt8.ofNat c.toNat

def csiModified (final : UInt8) (parameter : Nat) : List UInt8 :=
  [0x1B, 0x5B, 0x31, 0x3B] ++ decimal parameter ++ [final]

def cursorKey (final : UInt8) (mods : Modifiers) (term : TermMode) : List UInt8 :=
  if modifierParameter mods > 1 then csiModified final (modifierParameter mods)
  else if term.appCursor then ss3 final
  else [0x1B, 0x5B, final]

def tildeKey (code : Nat) (mods : Modifiers) : List UInt8 :=
  let parameter :=
    if modifierParameter mods > 1 then 0x3B :: decimal (modifierParameter mods) else []
  [0x1B, 0x5B] ++ decimal code ++ parameter ++ [0x7E]

def functionKey (number : UInt8) (mods : Modifiers) : Option (List UInt8) :=
  if 1 ≤ number ∧ number ≤ 4 then
    let final := 0x50 + (number - 1)
    some (if modifierParameter mods > 1 then csiModified final (modifierParameter mods)
      else ss3 final)
  else if 5 ≤ number ∧ number ≤ 24 then
    functionKeyCodes[number.toNat - 5]?.map fun code => tildeKey code mods
  else none

/-- A character key: the control byte, the text, and the prefix of Alt. -/
def character (key : Option Char) (text : List Char) (mods : Modifiers) (options : KeyOptions) :
    Option (List UInt8) :=
  let esc := mods.alt && options.altSendsEscape
  let control := if mods.ctrl then (key.bind ctrlByte).or (loneControl text) else none
  match control with
  | some byte => some (withEsc esc [byte])
  | none =>
    let typed :=
      match key with
      | some c => if text = [] ∧ mods.ctrl ∧ '!' ≤ c ∧ c ≤ '~' then [c] else text
      | none => text
    if typed = [] then none
    else some (withEsc (esc && (singleChar typed).isSome) (bytes typed))

/-- The bytes of a key press, if it sends any. -/
def encodeKey (input : KeyInput) (modes : InputModes) (options : KeyOptions) :
    Option (List UInt8) :=
  let mods := input.mods
  let term := modes.term
  let esc := mods.alt && options.altSendsEscape
  match input.key with
  | .ignored => none
  | .enter => some (withEsc esc (newline term))
  | .keypadEnter =>
    some (if vt220Keypad term options then ss3 0x4D else withEsc esc (newline term))
  | .tab => some (withEsc esc (if mods.shift then [0x1B, 0x5B, 0x5A] else [0x09]))
  | .backtab => some (withEsc esc [0x1B, 0x5B, 0x5A])
  | .backspace =>
    some (withEsc esc (if options.backspaceSendsCtrlH != mods.ctrl then [0x08] else [0x7F]))
  | .escape => some (withEsc esc [0x1B])
  | .up => some (cursorKey 0x41 mods term)
  | .down => some (cursorKey 0x42 mods term)
  | .right => some (cursorKey 0x43 mods term)
  | .left => some (cursorKey 0x44 mods term)
  | .home => some (cursorKey 0x48 mods term)
  | .endKey => some (cursorKey 0x46 mods term)
  | .begin => some (cursorKey 0x45 mods term)
  | .insert => some (tildeKey 2 mods)
  | .delete =>
    some (if options.deleteSendsDel ∧ mods = {} then [0x7F] else tildeKey 3 mods)
  | .pageUp => some (tildeKey 5 mods)
  | .pageDown => some (tildeKey 6 mods)
  | .menu => some (tildeKey 29 mods)
  | .f number => functionKey number mods
  | .keypad key =>
    if vt220Keypad term options then some (ss3 key.vt220Final)
    else character (some key.asChar) (if input.text = [] then [key.asChar] else input.text)
      mods options
  | .character c => character c input.text mods options

/-- Whether all bytes are ASCII. -/
def Ascii (bytes : List UInt8) : Prop := ∀ byte ∈ bytes, byte < 128

instance (bytes : List UInt8) : Decidable (Ascii bytes) :=
  List.decidableBAll (fun byte => byte < 128) bytes

end Opensesh.Input
