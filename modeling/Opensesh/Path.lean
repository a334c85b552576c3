/-
Paths are strings on every file system: `/` separated on servers, native on
this computer.
-/
import Mathlib.Tactic.Basic

namespace Opensesh

/-- How a file system writes paths. -/
inductive Style where
  /-- A server: `/` separated. -/
  | posix
  /-- This computer. -/
  | native (windows : Bool)
deriving DecidableEq

namespace Path

def splitOn (isSeparator : Char → Bool) : List Char → List (List Char)
  | [] => [[]]
  | c :: rest =>
    if isSeparator c then [] :: splitOn isSeparator rest
    else
      match splitOn isSeparator rest with
      | [] => [[c]]
      | part :: parts => (c :: part) :: parts

/-- What stands before and after the last dot. -/
def rsplitDot (name : List Char) : Option (List Char × List Char) :=
  match name.reverse.span (· ≠ '.') with
  | (_, []) => none
  | (extension, _ :: stem) => some (stem.reverse, extension.reverse)

def isSeparator : Style → Char → Bool
  | .posix, c | .native false, c => c = '/'
  | .native true, c => c = '/' || c = '\\'

/-- A drive, as `C:`. -/
def isDrive : List Char → Bool
  | [letter, ':'] => letter.isAlpha
  | _ => false

/-- A reversed path without the separators and `.` components it ends with; the
root stays. -/
def trimEnd (style : Style) : List Char → List Char
  | [] => []
  | [c] => [c]
  | c :: c' :: rest =>
    if isSeparator style c then
      if style = .native true ∧ isDrive (c' :: rest).reverse then c :: c' :: rest
      else trimEnd style (c' :: rest)
    else if c = '.' ∧ isSeparator style c' then trimEnd style (c' :: rest)
    else c :: c' :: rest

/-- `normalize_posix`, one component: the parts read so far, the last first. -/
def pushPart (absolute : Bool) (parts : List (List Char)) (part : List Char) : List (List Char) :=
  if part = [] ∨ part = ['.'] then parts
  else if part = ['.', '.'] then
    match parts with
    | last :: rest =>
      if last ≠ ['.', '.'] then rest
      else if absolute then parts else part :: parts
    | [] => if absolute then [] else [part]
  else part :: parts

/-- `/a//b/./c/../d` becomes `/a/b/d`. -/
def normalizePosix (path : String) : String :=
  let absolute := path.toList.head? = some '/'
  let parts := (splitOn (· = '/') path.toList).foldl (pushPart absolute) []
  let joined := ['/'].intercalate parts.reverse
  if absolute then String.ofList ('/' :: joined)
  else if joined = [] then "."
  else String.ofList joined

/-- Whether a name from a listing is one plain name. -/
def isPlainName (style : Style) (name : String) : Bool :=
  let posix := name ≠ "" ∧ name ≠ "." ∧ name ≠ ".." ∧
    !(name.toList.contains '/' || name.toList.contains '\x00')
  match style with
  | .posix => posix
  | .native windows =>
    -- Such a name is one normal component.
    posix && !(windows && (name.toList.contains '\\' || name.toList.contains ':'))

/-- What a path starts with on Windows: a drive, a share of a server, or nothing. -/
def pathPrefix (path : List Char) : List Char :=
  let separator := isSeparator (.native true)
  if isDrive (path.take 2) then path.take 2
  else match path with
    | c :: c' :: rest =>
      let server := rest.takeWhile fun c => !separator c
      let share := (rest.drop (server.length + 1)).takeWhile fun c => !separator c
      if separator c && separator c' && !server.isEmpty && !share.isEmpty then
        path.take (server.length + share.length + 3)
      else []
    | _ => []

/-- `PathBuf::join`: a path with a root or a prefix replaces what it is joined
to. -/
def joinNative (windows : Bool) (dir name : List Char) : List Char :=
  let separator := isSeparator (.native windows)
  let rooted := (name.head?.map separator).getD false
  let needed := (dir.getLast?.map fun c => !separator c).getD false
  if windows then
    let shared := rooted && !(pathPrefix name).isEmpty
    if shared || isDrive (name.take 2) then name
    else if rooted then pathPrefix dir ++ name
    else if needed && !isDrive dir then dir ++ '\\' :: name
    else dir ++ name
  else if rooted then name
  else if needed then dir ++ '/' :: name
  else dir ++ name

/-- `name` inside `dir`. -/
def join (style : Style) (dir name : String) : String :=
  match style with
  | .posix =>
    if dir = "" then name
    else if dir.toList.getLast? = some '/' then dir ++ name
    else dir ++ "/" ++ name
  | .native windows =>
    if dir = "" ∧ windows ∧ name.toList.getLast? = some ':' then name ++ "\\"
    else String.ofList (joinNative windows dir.toList name.toList)

/-- The folder holding `path`; none at the top. -/
def parent (style : Style) (path : String) : Option String :=
  match style with
  | .posix =>
    let normal := normalizePosix path
    if normal = "/" ∨ normal = "." then none
    else
      match normal.toList.reverse.span (· ≠ '/') with
      | (_, []) => some "."
      | (_, [_]) => some "/"
      | (_, _ :: dir) => some (String.ofList dir.reverse)
  | .native windows =>
    if path = "" then none
    else
      let trimmed := trimEnd style path.toList.reverse
      let rest := trimmed.dropWhile fun c => !isSeparator style c
      if trimmed = rest then if windows then some "" else none
      else some (String.ofList (trimEnd style rest).reverse)

/-- The last component (the whole path when it has none). -/
def fileName (style : Style) (path : String) : String :=
  match style with
  | .posix =>
    let normal := normalizePosix path
    match (splitOn (· = '/') normal.toList).reverse.find? (· ≠ []) with
    | some part => String.ofList part
    | none => normal
  | .native windows =>
    let trimmed := trimEnd style path.toList.reverse
    let last := (trimmed.takeWhile fun c => !isSeparator style c).reverse
    if last = [] ∨ last = ['.'] ∨ last = ['.', '.'] ∨ windows ∧ isDrive last then
      path
    else String.ofList last

/-- A name that doesn't collide: `name (1).ext`, `name (2).ext`. -/
def numbered (name : String) (n : Nat) : String :=
  match rsplitDot name.toList with
  | some (stem, extension) =>
    if stem ≠ [] then
      String.ofList stem ++ " (" ++ toString n ++ ")." ++ String.ofList extension
    else name ++ " (" ++ toString n ++ ")"
  | none => name ++ " (" ++ toString n ++ ")"

/-- Whether POSIX path `candidate` is `root` or inside it. -/
def within (candidate root : String) : Bool :=
  let root := (root.toList.reverse.dropWhile (· = '/')).reverse
  let candidate := candidate.toList
  candidate = root || root = [] ||
    root.isPrefixOf candidate && (candidate.drop root.length).head? = some '/'

example : (normalizePosix "/a//b/./c/../d/", normalizePosix "a/../..") =
    ("/a/b/d", "..") := by decide

example : (parent .posix "/etc/ssh", fileName .posix "/etc/ssh/") =
    (some "/etc", "ssh") := by decide

example : (numbered "report.pdf" 2, numbered ".bashrc" 1, numbered "folder" 3) =
    ("report (2).pdf", ".bashrc (1)", "folder (3)") := by decide

end Path

end Opensesh
