/-
A shell's reading of a command, one character at a time: quoting, words, operators, comments and
expansions, and the words that the grammar takes for more than words: reserved words, assignments,
the variables of loops and the names of functions. A character is either written in the command or
stands for itself (`lit`). The reading gives every character its role, and the role says how the
reading goes on. A shell that only runs a command has no aliases. Here-documents, and back quotes
from a backslash in them on, are left unread.
-/
import Mathlib.Data.List.Basic
import Mathlib.Tactic.SplitIfs
import Mathlib.Tactic.Tauto

namespace Opensesh.Shell

open List

/-- A character of a command as it is written, or one that stands for itself. -/
inductive Symbol where
  | ch (c : Char)
  | lit (c : Char)
  deriving DecidableEq

namespace Symbol

def char : Symbol → Char
  | ch c => c
  | lit c => c

def isWritten : Symbol → Bool
  | ch _ => true
  | lit _ => false

/-- The symbol once it is text of the command like any other. -/
def typed (x : Symbol) : Symbol := .ch x.char

@[simp] theorem typed_ch (c : Char) : (ch c).typed = ch c := rfl

@[simp] theorem typed_lit (c : Char) : (lit c).typed = ch c := rfl

@[simp] theorem typed_typed (x : Symbol) : x.typed.typed = x.typed := rfl

end Symbol

/-- What the shell takes a character for. -/
inductive Role where
  | text
  /-- A character that its backslash keeps, where a backslash keeps only some. -/
  | escaped
  | quoting
  /-- A newline that a backslash takes away. -/
  | joined
  | comment
  /-- A blank or an operator, and whether the grammar knows the word before it. -/
  | blank (known : Bool)
  | operator (known : Bool)
  /-- A redirection with the number of a descriptor before it. -/
  | numbered
  /-- The parenthesis after the name of a function. -/
  | function
  | assignment
  | pattern
  | tilde
  | login
  /-- In the word that ends a here-document. -/
  | delimiter
  | dollar
  | parameter
  | bracket
  /-- Text that the shell reads at another time, or a second time. -/
  | later
  deriving DecidableEq

/-- The grammar knows the word that ends here. -/
def Role.known : Role → Bool
  | blank known | operator known => known
  | _ => false

def isDigit (c : Char) : Bool := '0' ≤ c && c ≤ '9'

def isNameStart (c : Char) : Bool := ('a' ≤ c && c ≤ 'z') || ('A' ≤ c && c ≤ 'Z') || c == '_'

def isNameChar (c : Char) : Bool := isNameStart c || isDigit c

def isName : List Char → Bool
  | [] => false
  | c :: chars => isNameStart c && chars.all isNameChar

/-- The parameters that one character names. -/
def isSpecial (c : Char) : Bool := ['@', '*', '#', '?', '-', '$', '!'].contains c

/-- The characters that file names are matched with. -/
def globs (c : Char) : Bool := ['*', '?', '['].contains c

def reserved : List (List Char) :=
  ["!", "\x7b", "\x7d", "case", "do", "done", "elif", "else", "esac", "fi", "for", "if", "in",
    "then", "until", "while"].map String.toList

/-- Where in a command's word the next character comes. -/
inductive Place where
  | start
  /-- After a `<`: a second one starts a here-document. -/
  | less
  | greater
  /-- After a `;`: a second one ends a part of a `case`. -/
  | semi
  /-- In a word that may be a number, a name or a reserved word so far. -/
  | bare (symbols : List Symbol)
  | word
  /-- In the user name after a tilde, which may be in an assignment's value. -/
  | login (value : Bool)
  /-- In an assignment's value, after this symbol of it. -/
  | value (last : Symbol)
  | comment
  deriving DecidableEq

namespace Place

def typed : Place → Place
  | bare symbols => bare (symbols.map Symbol.typed)
  | value last => value last.typed
  | place => place

/-- No word has started. -/
def opens : Place → Bool
  | start | less | greater | semi => true
  | _ => false

def isWord : Place → Bool
  | bare _ | word | login _ | value _ => true
  | _ => false

def isValue : Place → Bool
  | login inside => inside
  | value _ => true
  | _ => false

def isLogin : Place → Bool
  | login _ => true
  | _ => false

/-- The place after a quoted character, a quoted text or an expansion. -/
def inner : Place → Place
  | comment => comment
  | place => if place.isValue then value (.ch '\\') else word

/-- The place after the first character of a word. -/
def opening (x : Symbol) : Place :=
  if isNameChar x.char || ['!', '{', '}'].contains x.char then bare [x] else word

/-- The place after a character of a word. -/
def next (place : Place) (x : Symbol) : Place :=
  match place with
  | start | less | greater | semi => opening x
  | bare symbols => if isNameChar x.char then bare (symbols ++ [x]) else word
  | word => word
  | login inside => if inside then value x else word
  | value _ => value x
  | comment => comment

/-- The place after a blank or an operator. -/
def operate (place : Place) (c : Char) : Place :=
  if c = ';' then if place = semi then start else semi
  else if c = '<' then if place = less then start else less
  else if c = '>' then if place = less ∨ place = greater then start else greater
  else start

def chars : Place → List Char
  | bare symbols => symbols.map Symbol.char
  | _ => []

/-- All of the word so far is written in the command, and is one of these. -/
def spells (place : Place) (words : List Char → Bool) : Bool :=
  match place with
  | bare symbols => symbols.all Symbol.isWritten && words place.chars
  | _ => false

def number (place : Place) : Bool := place.spells fun word => word.all isDigit

def name (place : Place) : Bool := place.spells isName

/-- A tilde here stands for a home directory. -/
def home : Place → Bool
  | value last => last == .ch ':'
  | place => place.opens

end Place

/-- What the grammar expects of a word. -/
inductive Spot where
  /-- The first word of a command. -/
  | command
  /-- The name of the command, after assignments and redirections. -/
  | lead
  /-- A command's second word: parentheses in its place make the first one a function's name. -/
  | called (first : Place)
  | words
  | forName
  | forIn
  | caseWord
  | caseIn
  /-- The first pattern of a part of a `case`. -/
  | pattern
  | patterns
  deriving DecidableEq

def Spot.typed : Spot → Spot
  | called first => called first.typed
  | spot => spot

/-- The spot after a word that the grammar does not know. -/
def Spot.next (spot : Spot) (place : Place) : Spot :=
  match spot with
  | command => if place.isValue then lead else called place
  | lead => if place.isValue then lead else words
  | forName => forIn
  | caseWord => caseIn
  | pattern | patterns => patterns
  | _ => words

/-- What a word is for besides: a redirection's file, or the end of a here-document. -/
inductive Aim where
  | none
  | file
  | delimiter
  deriving DecidableEq

/-- Where in a list of commands a word is. -/
structure Site where
  spot : Spot
  aim : Aim
  /-- How many `case`s are open. -/
  cases : Nat
  /-- The list is in parentheses. -/
  nested : Bool
  deriving DecidableEq

namespace Site

def typed (site : Site) : Site := { site with spot := site.spot.typed }

/-- At the start of a command. -/
def fresh (site : Site) : Site := { site with spot := .command, aim := .none }

def inPattern (site : Site) : Bool := site.spot == .pattern || site.spot == .patterns

/-- An equals sign after a name makes an assignment. -/
def assigns (site : Site) : Bool :=
  site.aim == .none && (site.spot == .command || site.spot == .lead)

/-- Words here are matched with names of files, or are patterns themselves. -/
def matched (site : Site) : Bool :=
  site.aim == .none && site.spot != .caseWord && site.spot != .forName

/-- The grammar knows this word here. -/
def knowsWord (site : Site) (word : List Char) : Bool :=
  site.aim == .none &&
    match site.spot with
    | .command => reserved.contains word
    | .forName => isName word
    | .forIn => word == "in".toList || word == "do".toList
    | .caseIn => word == "in".toList
    | .pattern => word == "esac".toList
    | _ => false

def knows (site : Site) (place : Place) : Bool := place.spells site.knowsWord

/-- Parentheses after the word make it a function's name. -/
def function (site : Site) (place : Place) : Bool :=
  site.aim == .none &&
    match site.spot with
    | .command => place.name
    | .called first => !place.isWord && first.name
    | _ => false

/-- After a word that the grammar knows. -/
def enter (site : Site) (word : List Char) : Site :=
  if site.spot = .forName then { site with spot := .forIn }
  else if word = "in".toList then
    if site.spot = .caseIn then { site with spot := .pattern, cases := site.cases + 1 }
    else { site with spot := if site.spot = .forIn then .words else .command }
  else if word = "case".toList then { site with spot := .caseWord }
  else if word = "for".toList then { site with spot := .forName }
  else if word = "esac".toList then { site with spot := .command, cases := site.cases - 1 }
  else site.fresh

/-- After the word, if there is one, which the grammar may know. -/
def finish (site : Site) (place : Place) (known : Bool) : Site :=
  if place.isWord = false then site
  else if site.aim ≠ .none then
    { site with aim := .none, spot := if site.spot = .command then .lead else site.spot }
  else if known then site.enter place.chars
  else { site with spot := site.spot.next place }

/-- A part of a `case` ends. -/
def part (site : Site) : Site :=
  if 0 < site.cases then { site.fresh with spot := .pattern } else site.fresh

/-- After a blank or an operator. -/
def operate (site : Site) (place : Place) (c : Char) : Site :=
  if c = ' ' ∨ c = '\t' then site
  else if c = '<' then { site with aim := if place = .less then .delimiter else .file }
  else if c = '>' then { site with aim := .file }
  else if c = '&' ∧ (place = .less ∨ place = .greater) ∨ c = '|' ∧ place = .greater then site
  else if (c = ';' ∨ c = '&') ∧ place = .semi then site.part
  else if c = '|' ∧ site.inPattern then { site with spot := .patterns }
  else if c = '(' ∧ site.spot = .pattern then site
  else if c = '\n' ∧ (site.spot = .forIn ∨ site.spot = .caseIn ∨ site.spot = .pattern) then
    { site with aim := .none }
  else site.fresh

end Site

/-- The start of a list of commands. -/
def Site.list (nested : Bool) : Site := ⟨.command, .none, 0, nested⟩

/-- The parts of a parameter expansion in braces. -/
inductive Part where
  | start
  | name
  | colon
  | trim (c : Char)
  | first
  | word
  | login
  deriving DecidableEq

/-- The text a character is in. -/
inductive Mode where
  /-- Commands: the whole text, or what parentheses hold. -/
  | command (place : Place) (site : Site)
  | single
  | double
  /-- A parameter expansion: whether it is quoted, and whether its word is matched. -/
  | braces (part : Part) (quoted matched : Bool)
  /-- An arithmetic expansion, with one parenthesis more than this open. -/
  | arithmetic (depth : Nat)
  /-- From here on the command is read later. -/
  | later
  deriving DecidableEq

/-- The character before, where it says how the next one is read. -/
inductive After where
  | none
  | backslash
  | dollar
  | name
  | paren
  deriving DecidableEq

structure State where
  mode : Mode
  outer : List Mode
  after : After
  /-- A here-document starts with the next line. -/
  document : Bool
  /-- In back quotes, the text around them. -/
  ticks : Option (Mode × List Mode)

/-- The reading starts at the first word of a command. -/
def State.initial : State := ⟨.command .start (.list false), [], .none, false, none⟩

def Mode.typed : Mode → Mode
  | .command place site => .command place.typed site.typed
  | mode => mode

/-- The state once the text so far is text of the command like any other. -/
def State.typed (s : State) : State :=
  { s with
    mode := s.mode.typed
    outer := s.outer.map Mode.typed
    ticks := s.ticks.map fun text => (text.1.typed, text.2.map Mode.typed) }

namespace State

/-- Inside a text that starts here and has an end of its own. -/
def push (s : State) (back mode : Mode) : State :=
  { s with mode := mode, outer := back :: s.outer, after := .none }

def pop (s : State) : State :=
  match s.outer with
  | [] => { s with after := .none }
  | mode :: outer => { s with mode := mode, outer := outer, after := .none }

def goto (s : State) (mode : Mode) : State := { s with mode := mode, after := .none }

def awaiting (s : State) (mode : Mode) (after : After) : State :=
  { s with mode := mode, after := after }

end State

/-- A backslash in double quotes keeps these from their meaning. -/
def keeps (c : Char) : Bool := ['$', '`', '"', '\\'].contains c

/-- The characters that end a word outside quotes. -/
def delimits (c : Char) : Bool := [' ', '\t', '\n', '|', '&', ';', '(', ')', '<', '>'].contains c

def redirects (c : Char) : Bool := c == '<' || c == '>'

/-- The role of a blank or an operator. -/
def Site.delimiterRole (site : Site) (place : Place) (c : Char) : Role :=
  if redirects c && place.number then .numbered
  else if c == ' ' || c == '\t' then .blank (site.knows place)
  else if site.knows place then .operator true
  else if c == '(' && site.function place then .function
  else .operator false

/-- The role of another character of a word. -/
def Site.wordRole (site : Site) (place : Place) (c : Char) : Role :=
  if c = '#' ∧ place.opens then .comment
  else if site.aim = .delimiter then .delimiter
  else if c = '~' ∧ place.home then .tilde
  else if c = '=' ∧ site.assigns ∧ place.name then .assignment
  else if globs c ∧ site.matched ∧ place.isValue = false then .pattern
  else if place.isLogin ∧ c ≠ '/' ∧ ¬ (c = ':' ∧ place.isValue) then .login
  else .text

/-- The role of a character of a command outside quotes. -/
def Site.role (site : Site) (place : Place) (c : Char) : Role :=
  if place = .comment ∧ c ≠ '\n' then .comment
  else if ['\\', '\'', '"'].contains c then .quoting
  else if c = '$' then .dollar
  else if delimits c then site.delimiterRole place c
  else site.wordRole place c

/-- The part after this character, when it belongs to the parameter and what is done with it. -/
def Part.step (part : Part) (c : Char) : Option Part :=
  match part with
  | .start => if isNameChar c || isSpecial c then some .name else none
  | .name =>
    if isNameChar c then some .name
    else if c = ':' then some .colon
    else if ['-', '=', '?', '+'].contains c then some .first
    else if ['%', '#'].contains c then some (.trim c)
    else none
  | .colon => if ['-', '=', '?', '+'].contains c then some .first else none
  | .trim d => if c = d then some .first else none
  | _ => none

/-- The word of the expansion starts here. -/
def Part.starts : Part → Bool
  | trim _ | first => true
  | _ => false

/-- What is trimmed is matched, in double quotes too. -/
def Part.mode (part : Part) (quoted matched : Bool) : Mode :=
  match part with
  | trim c => .braces (.trim c) false true
  | part => .braces part quoted matched

/-- The role of a character of a parameter expansion in braces. -/
def Part.role (part : Part) (quoted matched : Bool) (c : Char) : Role :=
  if c = '}' then .bracket
  else if (part.step c).isSome then .parameter
  else if c = '\\' ∨ c = '"' ∨ (c = '\'' ∧ quoted = false) then .quoting
  else if c = '$' then .dollar
  else if c = '~' ∧ part.starts ∧ quoted = false then .tilde
  else if globs c ∧ matched then .pattern
  else if part = .login ∧ c ≠ '/' then .login
  else .text

namespace Mode

def role (mode : Mode) (c : Char) : Role :=
  match mode with
  | command place site => site.role place c
  | single => if c = '\'' then .quoting else .text
  | double => if c = '"' ∨ c = '\\' then .quoting else if c = '$' then .dollar else .text
  | braces part quoted matched => part.role quoted matched c
  | arithmetic _ =>
    if c = '(' ∨ c = ')' then .bracket
    else if c = '\\' then .quoting
    else if c = '$' then .dollar
    else .text
  | later => .later

/-- The role of a character that stands for itself: it is text wherever it is. -/
def textRole : Mode → Role
  | command place _ => if place = .comment then .comment else .text
  | _ => .text

/-- Back quotes open here. -/
def ticks : Mode → Bool
  | command place _ => place != .comment
  | single | later => false
  | _ => true

/-- The mode after a quoted text or an expansion. -/
def inner : Mode → Mode
  | command place site => command place.inner site
  | braces _ quoted matched => braces .word quoted matched
  | mode => mode

/-- The grammar knows the word that would end here. -/
def knows : Mode → Bool
  | command place site => site.knows place
  | _ => false

def isQuoted : Mode → Bool
  | double | arithmetic _ => true
  | braces _ quoted _ => quoted
  | _ => false

def matched : Mode → Bool
  | command place site => site.matched && !place.isValue
  | braces _ _ matched => matched
  | _ => false

/-- The role of a character after a backslash. -/
def backslashRole (mode : Mode) (c : Char) : Role :=
  match mode with
  | later => .later
  | mode =>
    if c = '\n' then .joined
    else if mode.isQuoted && keeps c then .escaped
    else mode.textRole

end Mode

/-- The role of a character that goes on with an expansion. -/
def After.takes (after : After) (c : Char) : Option Role :=
  match after with
  | .dollar =>
    if c = '(' ∨ c = '{' then some .bracket
    else if isNameChar c || isSpecial c then some .parameter
    else .none
  | .name => if isNameChar c then some .parameter else .none
  | .paren => if c = '(' then some .bracket else .none
  | _ => .none

namespace State

/-- The role of a character, when the one before says nothing about it. -/
def plainRole (s : State) (c : Char) : Role :=
  if c = '`' ∧ s.ticks.isSome then .operator s.mode.knows
  else if c = '`' ∧ s.mode.ticks then .bracket
  else if c = '\\' ∧ s.ticks.isSome then .later
  else s.mode.role c

/-- The role of the command's next character. -/
def role (s : State) : Symbol → Role
  | .ch c =>
    if s.after = .backslash then s.mode.backslashRole c
    else (s.after.takes c).getD (s.plainRole c)
  | .lit _ => s.mode.textRole

/-- A back quote opens or closes. -/
def tick (s : State) : State :=
  match s.ticks with
  | none =>
    { s with
      mode := .command .start (.list false)
      outer := []
      after := .none
      ticks := some (s.mode.inner, s.outer) }
  | some (mode, outer) => { s with mode := mode, outer := outer, after := .none, ticks := none }

/-- After a blank or an operator of a command. -/
def delimit (s : State) (place : Place) (site : Site) (role : Role) (c : Char) : State :=
  let ended := if role = .numbered then site else site.finish place role.known
  let next := Mode.command (place.operate c) (ended.operate place c)
  if c = '\n' ∧ s.document then s.goto .later
  else if c = '(' ∧ ended.spot ≠ .pattern then s.push next (.command .start (.list true))
  else if c = ')' ∧ ended.nested ∧ ended.inPattern = false then s.pop
  else { s.goto next with document := s.document || (c == '<' && place == .less) }

/-- After a character of quoting. -/
def quote (s : State) (c : Char) : State :=
  if c = '\\' then s.awaiting s.mode .backslash
  else match s.mode with
    | .single | .double => s.pop
    | mode => s.push mode.inner (if c = '"' then .double else .single)

/-- After a bracket of an expansion. -/
def bracket (s : State) (c : Char) : State :=
  if c = '`' then s.tick
  else if s.after = .dollar ∧ c = '(' then
    { s.push s.mode (.command .start (.list true)) with after := .paren }
  else if s.after = .dollar ∧ c = '{' then
    s.push s.mode (.braces .start s.mode.isQuoted s.mode.matched)
  else match s.mode with
    | .command _ _ => s.goto (.arithmetic 1)
    | .arithmetic depth =>
      if c = '(' then s.goto (.arithmetic (depth + 1))
      else if depth = 0 then s.pop
      else s.goto (.arithmetic (depth - 1))
    | _ => s.pop

/-- After a character of a parameter. -/
def parameter (s : State) (c : Char) : State :=
  match s.after with
  | .dollar => if isNameStart c then s.awaiting s.mode .name else s.goto s.mode
  | .name => s
  | _ => match s.mode with
    | .braces part quoted matched => s.goto (((part.step c).getD part).mode quoted matched)
    | mode => s.goto mode

end State

/-- The place after a character that no word ends with. -/
def Place.take (place : Place) (role : Role) (x : Symbol) (kept : Bool) : Place :=
  match role with
  | .comment => comment
  | .delimiter => word
  | .tilde => login place.isValue
  | .assignment => value (.ch ':')
  | .login | .joined => place
  | _ => if kept then place.inner else place.next x

/-- The mode after a character that stays in it, which a backslash may have kept. -/
def Mode.take (mode : Mode) (role : Role) (x : Symbol) (kept : Bool) : Mode :=
  match mode with
  | command place site => command (place.take role x kept) site
  | braces part quoted matched =>
    braces (if role = .joined then part else if role = .tilde ∨ role = .login then .login
      else .word) quoted matched
  | mode => mode

/-- The state after a symbol that has this role. -/
def State.advance (s : State) (role : Role) (x : Symbol) : State :=
  match role with
  | .quoting => s.quote x.char
  | .dollar => s.awaiting s.mode.inner .dollar
  | .parameter => s.parameter x.char
  | .bracket => s.bracket x.char
  | .blank _ | .operator _ | .numbered | .function =>
    if x.char = '`' then s.tick
    else match s.mode with
      | .command place site => s.delimit place site role x.char
      | mode => s.goto mode
  | .later =>
    if x.char = '\\' ∧ s.ticks.isSome ∧ s.after ≠ .backslash then s.awaiting .later .backslash
    else s.goto .later
  | role => s.goto (s.mode.take role x (s.after == .backslash))

/-- The role of every character of a command. -/
def readFrom (s : State) : List Symbol → List (Char × Role)
  | [] => []
  | x :: symbols => (x.char, s.role x) :: readFrom (s.advance (s.role x) x) symbols

/-- A command as the shell reads it: its words, operators, quoting and expansions. The end of the
command ends its last line. -/
def read (symbols : List Symbol) : List (Char × Role) := readFrom .initial (symbols ++ [.ch '\n'])

/-- The character is read as text after `place`. -/
def Site.ordinary (site : Site) (place : Place) (c : Char) : Bool :=
  if place = .comment then c != '\n'
  else
    !(['\\', '\'', '"'].contains c) && c != '$' && !delimits c && !(c == '#' && place.opens) &&
      site.aim != .delimiter && !(c == '~' && place.typed.home) &&
      !(c == '=' && site.assigns && place.typed.name) &&
      !(globs c && site.matched && !place.isValue) &&
      !(place.isLogin && c != '/' && !(c == ':' && place.isValue))

/-- The character is read as text in this mode. -/
def Mode.ordinary (mode : Mode) (c : Char) : Bool :=
  match mode with
  | command place site => site.ordinary place c
  | single => c != '\''
  | double => !(['"', '\\', '$'].contains c)
  | braces part quoted matched =>
    c != '}' && (part.step c).isNone && c != '\\' && c != '"' && !(c == '\'' && !quoted) &&
      c != '$' && !(c == '~' && part.starts && !quoted) && !(globs c && matched) &&
      !(part == .login && c != '/')
  | arithmetic _ => !(['(', ')', '\\', '$'].contains c)
  | later => false

/-- A character is read as text where it stands, and not only taken as such. -/
def State.ordinary (s : State) (c : Char) : Bool :=
  if s.after = .backslash then
    s.mode != .later && c != '\n' && !(s.mode.isQuoted && keeps c)
  else
    (s.after.takes c).isNone && !(c == '`' && (s.ticks.isSome || s.mode.ticks)) &&
      !(c == '\\' && s.ticks.isSome) && s.mode.ordinary c

/-- The character written after `place` means the same after the text as after its spelling. -/
def Site.settled (site : Site) (place : Place) (c : Char) : Bool :=
  place == .comment && c != '\n' ||
    (!redirects c || place.typed.number == place.number) &&
      (!delimits c || redirects c && place.number ||
        site.typed.knows place.typed == site.knows place) &&
      (c != '(' || site.knows place || site.typed.function place.typed == site.function place) &&
      (c != '=' || !site.assigns || place.typed.name == place.name) &&
      (c != '~' || site.aim == .delimiter || place.typed.home == place.home)

def State.settled (s : State) (c : Char) : Bool :=
  if c = '`' ∧ s.ticks.isSome then s.mode.typed.knows == s.mode.knows
  else match s.mode with
    | .command place site => site.settled place c
    | _ => true

/-- The symbol means in this state what its character means in it. -/
def State.harmless (s : State) : Symbol → Bool
  | .ch c => s.after == .backslash || (s.after.takes c).isSome || s.settled c
  | .lit c => s.ordinary c

/-- Every symbol of the command means where it stands what its character means there. -/
def harmlessFrom (s : State) : List Symbol → Bool
  | [] => true
  | x :: symbols => s.harmless x && harmlessFrom (s.advance (s.role x) x) symbols

def harmless (symbols : List Symbol) : Bool := harmlessFrom .initial (symbols ++ [.ch '\n'])

namespace Place

variable {place : Place}

example : (bare [.lit 'a']).typed = bare [.ch 'a'] := by simp [typed]

@[simp] theorem opens_typed (place : Place) : place.typed.opens = place.opens := by
  cases place <;> rfl

@[simp] theorem isValue_typed (place : Place) : place.typed.isValue = place.isValue := by
  cases place <;> rfl

@[simp] theorem isLogin_typed (place : Place) : place.typed.isLogin = place.isLogin := by
  cases place <;> rfl

@[simp] theorem typed_eq_comment (place : Place) : place.typed = .comment ↔ place = .comment := by
  cases place <;> simp [typed]

end Place

namespace Spot

example : (called .word).typed = called .word := by simp [typed, Place.typed]

@[simp] theorem typed_eq_lead (spot : Spot) : spot.typed = .lead ↔ spot = .lead := by
  cases spot <;> simp [typed]

@[simp] theorem typed_eq_caseWord (spot : Spot) : spot.typed = .caseWord ↔ spot = .caseWord := by
  cases spot <;> simp [typed]

@[simp] theorem typed_eq_patterns (spot : Spot) : spot.typed = .patterns ↔ spot = .patterns := by
  cases spot <;> simp [typed]

end Spot

namespace Site

variable {site : Site} {place : Place}

theorem assigns_typed (site : Site) : site.typed.assigns = site.assigns := by
  obtain ⟨spot, aim, cases, nested⟩ := site
  cases spot <;> rfl

theorem matched_typed (site : Site) : site.typed.matched = site.matched := by
  obtain ⟨spot, aim, cases, nested⟩ := site
  cases spot <;> rfl

end Site

namespace State

@[simp] theorem push_typed (s : State) (back mode : Mode) :
    (s.push back mode).typed = s.typed.push back.typed mode.typed := rfl

@[simp] theorem after_typed (s : State) : s.typed.after = s.after := rfl

@[simp] theorem mode_typed (s : State) : s.typed.mode = s.mode.typed := rfl

@[simp] theorem isSome_ticks (s : State) : s.typed.ticks.isSome = s.ticks.isSome :=
  Option.isSome_map

end State

namespace Mode

theorem ticks_typed (mode : Mode) : mode.typed.ticks = mode.ticks := by
  cases mode with
  | command place site =>
    rw [Bool.eq_iff_iff]
    simp only [typed, ticks, bne_iff_ne, ne_eq, Place.typed_eq_comment]
  | _ => rfl

theorem matched_typed (mode : Mode) : mode.typed.matched = mode.matched := by
  cases mode with
  | command place site => simp only [typed, matched, Site.matched_typed, Place.isValue_typed]
  | _ => rfl

theorem textRole_typed (mode : Mode) : mode.typed.textRole = mode.textRole := by
  cases mode with
  | command place site => simp only [typed, textRole, Place.typed_eq_comment]
  | _ => rfl

theorem backslashRole_typed (mode : Mode) (c : Char) :
    mode.typed.backslashRole c = mode.backslashRole c := by
  cases mode with
  | command place site =>
    have htext := textRole_typed (command place site)
    simp only [typed, backslashRole] at htext ⊢
    rw [htext]
    rfl
  | _ => rfl

end Mode

namespace State

end State

namespace Site

variable {site : Site} {place : Place} {c : Char}

theorem delimiterRole_iff (hdelimits : delimits c = true) :
    site.typed.delimiterRole place.typed c = site.delimiterRole place c ↔
      (redirects c = true → place.typed.number = place.number) ∧
      ((redirects c && place.number) = true ∨ site.typed.knows place.typed = site.knows place) ∧
      (c = '(' → site.knows place = true ∨
        site.typed.function place.typed = site.function place) := by
  simp only [delimiterRole]
  generalize place.typed.number = number', place.number = number,
    site.typed.knows place.typed = knows', site.knows place = knows,
    site.typed.function place.typed = function', site.function place = function
  simp only [delimits, contains_cons, contains_nil, Bool.or_false, Bool.or_eq_true, beq_iff_eq]
    at hdelimits
  rcases hdelimits with rfl | rfl | rfl | rfl | rfl | rfl | rfl | rfl | rfl | rfl <;>
    revert number' number knows' knows function' function <;> decide

theorem wordRole_iff :
    site.typed.wordRole place.typed c = site.wordRole place c ↔
      (c = '=' → site.assigns = true → place.typed.name = place.name) ∧
      (c = '~' → site.aim ≠ .delimiter → place.typed.home = place.home) := by
  have haim : site.typed.aim = site.aim := rfl
  simp only [wordRole, haim, Place.opens_typed, Place.isValue_typed, Place.isLogin_typed,
    assigns_typed, matched_typed]
  by_cases hhash : c = '#'
  · subst hhash
    simp
  by_cases hdelimiter : site.aim = .delimiter
  · simp [hhash, hdelimiter, assigns]
  by_cases htilde : c = '~'
  · subst htilde
    cases place.home <;> cases place.typed.home <;> simp [hdelimiter]
    all_goals split_ifs <;> simp
  by_cases hequals : c = '='
  · subst hequals
    cases site.assigns <;> cases place.name <;> cases place.typed.name <;> simp [hdelimiter]
    all_goals split_ifs <;> simp
  simp [htilde, hequals]

theorem settled_iff (hplace : place ≠ .comment ∨ c = '\n') : site.settled place c = true ↔
    (redirects c = true → place.typed.number = place.number) ∧
    (delimits c = true → (redirects c && place.number) = true ∨
      site.typed.knows place.typed = site.knows place) ∧
    (c = '(' → site.knows place = true ∨ site.typed.function place.typed = site.function place) ∧
    (c = '=' → site.assigns = true → place.typed.name = place.name) ∧
    (c = '~' → site.aim ≠ .delimiter → place.typed.home = place.home) := by
  have hcomment : (place == .comment && c != '\n') = false := by
    rw [Bool.and_eq_false_iff, beq_eq_false_iff_ne, bne_eq_false_iff_eq]
    exact hplace
  simp only [settled, hcomment, Bool.false_or, Bool.and_eq_true, Bool.or_eq_true, beq_iff_eq,
    Bool.not_eq_true', bne_iff_ne, ne_eq, imp_iff_not_or, Bool.not_eq_true, not_not, and_assoc,
    or_assoc]

theorem role_iff : site.typed.role place.typed c = site.role place c ↔
    site.settled place c = true := by
  by_cases hcomment : place = .comment ∧ c ≠ '\n'
  · simp [role, settled, hcomment]
  have hplace : place ≠ .comment ∨ c = '\n' := by rwa [not_and_or, not_not] at hcomment
  have hnumber : redirects c = true → delimits c = true := by
    rw [redirects, Bool.or_eq_true, beq_iff_eq, beq_iff_eq]
    rintro (rfl | rfl) <;> rfl
  have hparen : c = '(' → delimits c = true := by rintro rfl; rfl
  have hother : c = '=' ∨ c = '~' → delimits c = false := by rintro (rfl | rfl) <;> rfl
  rw [settled_iff hplace]
  simp only [role, Place.typed_eq_comment, if_neg hcomment]
  by_cases hquoting : ['\\', '\'', '"'].contains c = true
  · have hc : c = '\\' ∨ c = '\'' ∨ c = '"' := by simpa using hquoting
    rcases hc with rfl | rfl | rfl <;> simp [redirects, delimits]
  by_cases hdollar : c = '$'
  · subst hdollar
    simp [redirects, delimits]
  simp only [if_neg hquoting, if_neg hdollar]
  cases hdelimits : delimits c with
  | true =>
    have hequals : c ≠ '=' := fun h => by rw [hother (.inl h)] at hdelimits; cases hdelimits
    have htilde : c ≠ '~' := fun h => by rw [hother (.inr h)] at hdelimits; cases hdelimits
    simp only [if_true, delimiterRole_iff hdelimits, hequals, htilde, true_implies, false_implies,
      and_true]
  | false =>
    have hredirects : redirects c = false := by
      rw [← Bool.not_eq_true]
      exact fun h => by rw [hnumber h] at hdelimits; cases hdelimits
    have hopens : c ≠ '(' := fun h => by rw [hparen h] at hdelimits; cases hdelimits
    simp only [Bool.false_eq_true, if_false, wordRole_iff, hredirects, hopens, false_implies,
      true_and]

end Site

theorem Site.delimiterRole_ne (site : Site) (place : Place) (c : Char) :
    site.delimiterRole place c ≠ .text ∧ site.delimiterRole place c ≠ .comment := by
  unfold delimiterRole
  split_ifs <;> simp

theorem Mode.role_text_iff (mode : Mode) (c : Char) :
    mode.typed.role c = mode.textRole ↔ mode.ordinary c = true := by
  cases mode with
  | command place site =>
    have haim : site.typed.aim = site.aim := rfl
    obtain ⟨htext, hcomment'⟩ := site.typed.delimiterRole_ne place.typed c
    simp only [typed, role, Site.role, textRole, ordinary, Site.ordinary, Place.typed_eq_comment]
    by_cases hcomment : place = .comment
    · subst hcomment
      by_cases hline : c = '\n'
      · subst hline
        simpa [delimits] using hcomment'
      · simp [hline]
    simp only [hcomment, false_and, if_false, Site.wordRole, haim, Place.opens_typed,
      Place.isValue_typed, Place.isLogin_typed, Site.assigns_typed, Site.matched_typed]
    simp [ite_eq_iff, htext, imp_iff_not_or, and_assoc, or_assoc]
  | braces part quoted matched =>
    simp [typed, role, Part.role, textRole, ordinary, ite_eq_iff, imp_iff_not_or, and_assoc,
      or_assoc]
  | single | double | arithmetic _ | later =>
    simp [typed, role, textRole, ordinary, ite_eq_iff, and_assoc]

namespace State

theorem backslashRole_text_iff (s : State) {c : Char} (hafter : s.after = .backslash) :
    s.mode.typed.backslashRole c = s.mode.textRole ↔ s.ordinary c = true := by
  rw [Mode.backslashRole_typed, ordinary, if_pos hafter]
  cases s.mode with
  | command place site =>
    simp only [Mode.backslashRole, Mode.isQuoted, Mode.textRole]
    split_ifs <;> simp_all
  | _ => simp [Mode.backslashRole, Mode.isQuoted, Mode.textRole, ite_eq_iff, imp_iff_not_or]

/-- The roles of back quotes and of expansions are none of a character of text. -/
theorem ne_textRole {role : Role} (htext : role ≠ .text) (hcomment : role ≠ .comment)
    (mode : Mode) : role ≠ mode.textRole := by
  cases mode with
  | command place site =>
    simp only [Mode.textRole]
    split_ifs <;> assumption
  | _ => exact htext

theorem takes_ne {after : After} {c : Char} {role : Role} (h : after.takes c = some role)
    (mode : Mode) : role ≠ mode.textRole := by
  have hrole : role = .bracket ∨ role = .parameter := by
    cases after with
    | none | backslash => cases h
    | dollar | name | paren =>
      simp only [After.takes] at h
      split_ifs at h <;> simp_all
  rcases hrole with rfl | rfl <;> exact ne_textRole (by simp) (by simp) mode

theorem plainRole_text_iff (s : State) (c : Char) : s.typed.plainRole c = s.mode.textRole ↔
    (!(c == '`' && (s.ticks.isSome || s.mode.ticks)) && !(c == '\\' && s.ticks.isSome) &&
      s.mode.ordinary c) = true := by
  simp only [plainRole, isSome_ticks, mode_typed, Mode.ticks_typed]
  have hoperator := ne_textRole (nofun : Role.operator s.mode.typed.knows ≠ .text) nofun s.mode
  have hbracket := ne_textRole (nofun : Role.bracket ≠ .text) nofun s.mode
  have hlater := ne_textRole (nofun : Role.later ≠ .text) nofun s.mode
  by_cases htick : c = '`'
  · cases hsome : s.ticks.isSome <;> cases hticks : s.mode.ticks <;>
      simp [htick, hoperator, hbracket, Mode.role_text_iff]
  by_cases hbackslash : c = '\\'
  · cases hsome : s.ticks.isSome <;> simp [hbackslash, hlater, Mode.role_text_iff]
  simp [htick, hbackslash, Mode.role_text_iff]

theorem plainRole_iff (s : State) (c : Char) :
    s.typed.plainRole c = s.plainRole c ↔ s.settled c = true := by
  simp only [plainRole, isSome_ticks, mode_typed, Mode.ticks_typed, settled]
  by_cases htick : c = '`' ∧ s.ticks.isSome = true
  · simp only [if_pos htick, Role.operator.injEq, beq_iff_eq]
  simp only [if_neg htick]
  cases hmode : s.mode with
  | command place site =>
    simp only [Mode.typed, Mode.role]
    split_ifs with hticks hbackslash
    · simp [hticks.1, Site.settled, redirects, delimits]
    · simp [hbackslash.1, Site.settled, redirects, delimits]
    · exact Site.role_iff
  | _ => simp [Mode.typed, Mode.role]

/-- A symbol has the role that its character has in the state exactly when it is harmless. -/
theorem role_iff (s : State) (x : Symbol) :
    s.typed.role x.typed = s.role x ↔ s.harmless x = true := by
  cases x with
  | ch c =>
    simp only [Symbol.typed_ch, role, after_typed, mode_typed, Mode.backslashRole_typed, harmless]
    by_cases hafter : s.after = .backslash
    · simp [hafter]
    cases htakes : s.after.takes c with
    | none => simpa [hafter] using s.plainRole_iff c
    | some role => simp [hafter]
  | lit c =>
    simp only [Symbol.typed_lit, role, after_typed, mode_typed, harmless]
    by_cases hafter : s.after = .backslash
    · simpa only [hafter, if_true] using s.backslashRole_text_iff hafter
    cases htakes : s.after.takes c with
    | none => simpa [hafter, ordinary, htakes, and_assoc] using s.plainRole_text_iff c
    | some role => simpa [hafter, ordinary, htakes] using takes_ne htakes s.mode

end State

end Opensesh.Shell
