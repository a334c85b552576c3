/-
Saving a file whole or not at all: the new contents in a temporary file that is renamed
over the old one, and the replaced versions kept as numbered backups, with every step
that can fail on its own.
-/
import Opensesh.Saves
import Opensesh.Outcome
import Opensesh.Machine

namespace Opensesh.FsUtil

/-- The files one save touches: the one the path leads to, the backups next to it, and the
hidden ones, told apart by a counter. -/
inductive Place where
  | target
  | backup (index : Nat)
  | temp (number : Nat)
  | copy (number : Nat)
  deriving DecidableEq

def Place.isHidden : Place → Bool
  | .temp _ => true
  | .copy _ => true
  | _ => false

/-- The step of a save that failed. -/
inductive SaveError where
  | parents
  | write
  | rename
  | syncDir
  | backups

/-- What is in the files, and the counter of the hidden ones: those it has not reached are
not there. -/
structure Disk where
  files : Place → Option (List UInt8)
  counter : Nat

def Disk.put (disk : Disk) (place : Place) (bytes : Option (List UInt8)) : Disk :=
  { disk with files := fun other => if other = place then bytes else disk.files other }

/-- What goes wrong during one save; a write or a copy that fails leaves what it wrote. -/
structure Faults where
  read : Bool
  parents : Bool
  write : Option (Option (List UInt8))
  removeTemp : Bool
  copy : Option (Option (List UInt8))
  rename : Bool
  removeOldest : Bool
  shift : Nat → Bool
  place : Bool
  discard : Bool
  syncDir : Bool

abbrev SaveOp (α : Type) := Attempt Disk SaveError α

def put (place : Place) (bytes : Option (List UInt8)) : SaveOp Unit :=
  Attempt.modify fun disk => disk.put place bytes

/-- Moves a file onto another. -/
def moveFile (source goal : Place) : SaveOp Unit := Attempt.modify fun disk =>
  (disk.put goal (disk.files source)).put source none

/-- Removes a file, as far as that works. -/
def tryRemove (fails : Bool) (place : Place) : SaveOp Unit :=
  if fails then pure () else put place none

/-- A number for a new hidden file. -/
def tempPath : SaveOp Nat := fun disk =>
  (.ok disk.counter, { disk with counter := disk.counter + 1 })

section Save

variable (faults : Faults)

def writeSynced (place : Place) (contents : List UInt8) : SaveOp Unit :=
  match faults.write with
  | none => put place (some contents)
  | some left => do
    put place left
    Attempt.fail .write

/-- A copy of the current file next to the backups; none when there is nothing to copy or
copying failed. -/
def copyAside : SaveOp (Option Place) := do
  let disk ← Attempt.state
  match disk.files .target with
  | none => pure none
  | some current => do
    let number ← tempPath
    match faults.copy with
    | none => do
      put (.copy number) (some current)
      pure (some (.copy number))
    | some left => do
      put (.copy number) left
      pure none

/-- The copy for the backups, when there are to be any. -/
def backUp (backups : Nat) : SaveOp (Option Place) :=
  if 0 < backups then copyAside faults else pure none

def removeIfPresent (place : Place) : SaveOp Unit :=
  if faults.removeOldest then Attempt.fail .backups else put place none

/-- Moves a backup to the next number, when it is there. -/
def shiftOne (index : Nat) : SaveOp Unit := do
  let disk ← Attempt.state
  if (disk.files (.backup index)).isNone then pure ()
  else if faults.shift index then Attempt.fail .backups
  else moveFile (.backup index) (.backup (index + 1))

/-- Moves the backups up to this number, the last one first. -/
def shiftBackups : Nat → SaveOp Unit
  | 0 => pure ()
  | index + 1 => do
    shiftOne faults (index + 1)
    shiftBackups index

/-- Drops the oldest backup, shifts the others and puts the replaced version first. -/
def rotateBackups (previous : Place) (backups : Nat) : SaveOp Unit := do
  removeIfPresent faults (.backup backups)
  shiftBackups faults (backups - 1)
  if faults.place then Attempt.fail .backups else moveFile previous (.backup 1)

/-- A problem with the backups does not block the save. -/
def keepBackups (previous : Option Place) (backups : Nat) : SaveOp Unit :=
  match previous with
  | none => pure ()
  | some previous => do
    let rotated ← (rotateBackups faults previous backups).attempt
    match rotated with
    | .ok () => pure ()
    | .error _ => tryRemove faults.discard previous

/-- Renames the temporary file over the old one. -/
def putInPlace (temp : Place) (previous : Option Place) : SaveOp Unit :=
  if faults.rename then do
    tryRemove faults.removeTemp temp
    match previous with
    | none => Attempt.fail .rename
    | some previous => do
      tryRemove faults.discard previous
      Attempt.fail .rename
  else moveFile temp .target

/-- The new contents in a temporary file, which goes again when they cannot be written. -/
def writeTemp (contents : List UInt8) : SaveOp Place := do
  let number ← tempPath
  let written ← (writeSynced faults (.temp number) contents).attempt
  match written with
  | .ok () => pure (.temp number)
  | .error error => do
    tryRemove faults.removeTemp (.temp number)
    Attempt.fail error

/-- Replaces the file with these contents, keeping this many replaced versions. -/
def atomicWrite (contents : List UInt8) (backups : Nat) : SaveOp WriteOutcome := do
  let disk ← Attempt.state
  if faults.read = false ∧ disk.files .target = some contents then pure .unchanged
  else if faults.parents then Attempt.fail .parents
  else do
    let temp ← writeTemp faults contents
    let previous ← backUp faults backups
    putInPlace faults temp previous
    keepBackups faults previous backups
    if faults.syncDir then Attempt.fail .syncDir else pure .written

end Save

end Opensesh.FsUtil
