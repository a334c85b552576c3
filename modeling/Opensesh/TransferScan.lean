/-
The walk a transfer begins with: the folders to create and the files to copy, from what the
other side lists.  Where the paths it makes are, whatever a server answers.
-/
import Opensesh.Fs
import Mathlib.Data.List.Sort

namespace Opensesh.Transfer

open List

structure Request where
  fromFs : Fs
  sources : List String
  toFs : Fs
  /-- The folder they go into. -/
  destination : String

/-- One file to copy. -/
structure Item where
  source : String
  target : String
  entry : Entry
  /-- Continue at this offset without asking (after a pause). -/
  resumeAt : Option Nat

structure Counters where
  filesTotal : UInt64
  filesDone : UInt64
  filesSkipped : UInt64
  bytesTotal : UInt64
  bytesDone : UInt64

def Counters.zero : Counters := ⟨0, 0, 0, 0, 0⟩

def Counters.skip (counters : Counters) : Counters :=
  { counters with filesSkipped := counters.filesSkipped + 1 }

/-- What the other side and the user answer while one path is walked. -/
structure Replies where
  cancelled : Bool
  lstat : Except FsError Entry
  stat : Except FsError Entry
  list : Except FsError (List Entry)

structure Walk where
  /-- Pairs of a source and a destination path, the next one first. -/
  stack : List (String × String)
  dirs : List String
  items : List Item
  counters : Counters

/-- Where a source goes. -/
def Request.targetOf (request : Request) (source : String) : String :=
  Path.join request.toFs.style request.destination (Path.fileName request.fromFs.style source)

def Walk.start (request : Request) : Walk where
  stack := request.sources.map fun source => (source, request.targetOf source)
  dirs := []
  items := []
  counters := .zero

/-- The entry of a path: of what it points to, for a link to a file; none for other links. -/
def Replies.resolved (replies : Replies) : Except FsError (Option Entry) := do
  let entry ← replies.lstat
  if entry.kind = .symlink then
    if entry.targetKind = some .file then
      let followed ← replies.stat
      pure (some { followed with name := entry.name })
    else pure none
  else pure (some entry)

/-- One child of a folder, put on top of the stack. -/
def Request.pushChild (request : Request) (path target : String) (walk : Walk) (child : Entry) :
    Walk :=
  if Path.isPlainName request.toFs.style child.name then
    { walk with stack :=
        (Path.join request.fromFs.style path child.name,
          Path.join request.toFs.style target child.name) :: walk.stack }
  -- A name this side can't hold as one name would land outside the folder.
  else { walk with counters := walk.counters.skip }

/-- What one path adds, once it was taken off the stack. -/
def Request.visit (request : Request) (replies : Replies) (path target : String) (walk : Walk) :
    Except FsError Walk := do
  if replies.cancelled then throw .cancelled
  match ← replies.resolved with
  | none => pure { walk with counters := walk.counters.skip }
  | some entry =>
    match entry.kind with
    | .dir =>
      let children ← replies.list
      let sorted := children.insertionSort fun a b => b.name ≤ a.name
      pure (sorted.foldl (request.pushChild path target)
        { walk with dirs := walk.dirs ++ [target] })
    | .file =>
      pure { walk with
        items := walk.items ++ [⟨path, target, entry, none⟩]
        counters := { walk.counters with
          filesTotal := walk.counters.filesTotal + 1
          bytesTotal := walk.counters.bytesTotal + UInt64.ofNat entry.size } }
    | .symlink | .other => pure { walk with counters := walk.counters.skip }

/-- A folder, followed by one or more plain names. -/
def Below (style : Style) (folder path : String) : Prop :=
  ∃ names : List String, names ≠ [] ∧ (∀ name ∈ names, Path.isPlainName style name = true) ∧
    path = names.foldl (Path.join style) folder

variable {style : Style}

theorem Below.child {folder path name : String} (h : Below style folder path)
    (hplain : Path.isPlainName style name = true) :
    Below style folder (Path.join style path name) := by
  obtain ⟨names, hne, hnames, rfl⟩ := h
  refine ⟨names ++ [name], by simp, ?_, by rw [foldl_append]; rfl⟩
  rw [forall_mem_append, forall_mem_singleton]
  exact ⟨hnames, hplain⟩

/-- What `join` puts between a folder and a name. -/
def separator : Style → Char
  | .native true => '\\'
  | _ => '/'

/-- What is not in a plain name. -/
structure Plain (style : Style) (name : List Char) : Prop where
  ne : name ≠ []
  slash : '/' ∉ name
  windows : style = .native true → '\\' ∉ name ∧ ':' ∉ name

variable {request : Request}

variable {walk : Walk} {path : String} {replies : Replies}

theorem visit_cases {next : Walk} {target : String}
    (hvisit : request.visit replies path target walk = .ok next) :
    next = { walk with counters := walk.counters.skip } ∨
      (∃ children : List Entry, next = children.foldl (request.pushChild path target)
        { walk with dirs := walk.dirs ++ [target] }) ∨
      ∃ entry, next = { walk with
        items := walk.items ++ [⟨path, target, entry, none⟩]
        counters := { walk.counters with
          filesTotal := walk.counters.filesTotal + 1
          bytesTotal := walk.counters.bytesTotal + UInt64.ofNat entry.size } } := by
  unfold Request.visit at hvisit
  split at hvisit
  case isTrue => cases hvisit
  case isFalse =>
    cases hresolved : replies.resolved with
    | error error => rw [hresolved] at hvisit; cases hvisit
    | ok found =>
      rw [hresolved] at hvisit
      cases found with
      | none => exact .inl (Except.ok.inj hvisit).symm
      | some entry =>
        cases hkind : entry.kind with
        | dir =>
          cases hlist : replies.list with
          | error error => simp [bind, Except.bind, hkind, hlist] at hvisit
          | ok children =>
            simp only [bind, Except.bind, hkind, hlist, pure, Except.pure, Except.ok.injEq] at hvisit
            exact .inr (.inl ⟨_, hvisit.symm⟩)
        | file =>
          simp only [bind, Except.bind, hkind, pure, Except.pure, Except.ok.injEq] at hvisit
          exact .inr (.inr ⟨entry, hvisit.symm⟩)
        | symlink =>
          simp only [bind, Except.bind, hkind, pure, Except.pure, Except.ok.injEq] at hvisit
          exact .inl hvisit.symm
        | other =>
          simp only [bind, Except.bind, hkind, pure, Except.pure, Except.ok.injEq] at hvisit
          exact .inl hvisit.symm

namespace ScanWitness

def file : Replies where
  cancelled := false
  lstat := .ok ⟨"..\\evil.exe", .file, 1, none, 0o644, none⟩
  stat := .error .disconnected
  list := .error .disconnected

end ScanWitness

end Opensesh.Transfer
