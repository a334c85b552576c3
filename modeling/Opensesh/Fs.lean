/-
This computer's files, a server's and S3 storage: what a listing tells of a file, and why an
operation fails.
-/
import Opensesh.Path

namespace Opensesh

inductive FsKind where
  /-- This computer. -/
  | native (windows : Bool)
  /-- A server, over SFTP. -/
  | remote
  /-- S3 storage: buckets and objects. -/
  | s3
deriving DecidableEq

/-- A file system, with the session it is reached through. -/
structure Fs where
  kind : FsKind
  session : Nat
deriving DecidableEq

inductive Kind where
  | file
  | dir
  | symlink
  | other
deriving DecidableEq

/-- One file of a listing. -/
structure Entry where
  name : String
  kind : Kind
  size : Nat
  modified : Option Int
  mode : Nat
  /-- What a link points to (none when it is broken). -/
  targetKind : Option Kind

/-- A folder, or a link to one. -/
def Entry.isDirLike (entry : Entry) : Bool := entry.kind = .dir ∨ entry.targetKind = some .dir

inductive FsError where
  | notFound (path : String)
  | permissionDenied (path : String)
  /-- Something is in the way. -/
  | alreadyExists (path : String)
  | failed (path message : String)
  | disconnected
  | timeout
  | unsupported (what : String)
  | cancelled
deriving DecidableEq

namespace Fs

def style (fs : Fs) : Style :=
  match fs.kind with
  | .native windows => .native windows
  | .remote | .s3 => .posix

/-- Whether a file can be written from an offset; S3 starts over. -/
def canResume (fs : Fs) : Bool := fs.kind ≠ .s3

/-- Whether both are the same file system. -/
def same (fs other : Fs) : Bool :=
  match fs.kind, other.kind with
  | .native _, .native _ => true
  | _, _ => fs = other

/-- The names a listing leaves out: those that are not plain. -/
def listed (fs : Fs) (name : String) : Bool :=
  match fs.kind with
  | .native _ => true
  | .remote | .s3 => Path.isPlainName .posix name

end Fs

end Opensesh
