/-
The settings of one instance and `config.toml`: changes that queue saves, the
writer that merges, other programs that replace the file, and a watcher whose
reads are told from the instance's own writes by their text.
-/
import Opensesh.Config
import Opensesh.Machine

namespace Opensesh

/-- How `config.toml` is parsed and displayed. -/
structure ConfigFormat (τ : Type) where
  codec : Codec τ
  display : Document → τ
  /-- Puts the file's header comment before a text. -/
  header : τ → τ

/-- A displayed table reads as that table. -/
structure ConfigFormat.Lawful {τ : Type} (format : ConfigFormat τ) : Prop where
  codec : format.codec.Lawful
  display : ∀ d, ∃ e, format.codec.parse (format.header (format.display d)) = .ok e ∧ d.Same e

/-- Our own writes of `config.toml`, in the order they were queued. -/
structure OwnWrites (τ : Type) where
  nextSeq : Nat
  /-- Queued and not yet finished, oldest first. -/
  pending : List (Nat × τ)
  /-- What the last successful write put on disk. -/
  lastWritten : Option τ

namespace OwnWrites

variable {τ : Type}

/-- Bound for `pending` if the writer stopped answering. -/
def maxPending : Nat := 64

/-- Remembers a queued write, under the next sequence number. -/
def queued (own : OwnWrites τ) (text : τ) : OwnWrites τ :=
  let kept :=
    if own.pending.length = maxPending then own.pending.tail else own.pending
  { own with
    nextSeq := own.nextSeq + 1
    pending := kept ++ [(own.nextSeq, text)] }

/-- Write `seq` finished, and every one queued before it. -/
def settled (own : OwnWrites τ) (seq : Nat) (written : Option τ) : OwnWrites τ :=
  { own with
    pending := own.pending.dropWhile fun queued => queued.1 ≤ seq
    lastWritten := written.or own.lastWritten }

/-- Whether a text read from disk is one of our writes. -/
def isEcho [DecidableEq τ] (own : OwnWrites τ) (text : τ) : Bool :=
  own.lastWritten == some text || own.pending.any fun queued => queued.2 == text

end OwnWrites

/-- Why the file must not be written. -/
inductive Protection where
  | none
  | newerSchema
  | unreadable
deriving DecidableEq

/-- Result of reading `config.toml`. -/
inductive Reload where
  | loaded (config : Config) (readOnly : Bool)
  | failed (detail : String)

section Texts

variable {τ : Type} (format : ConfigFormat τ)

/-- `Config::from_toml_str`: the settings, and whether they come from a newer
schema. -/
def Config.fromTomlStr (text : τ) : Except String (Config × Bool) := do
  let root ← format.codec.parse text
  let version := match root.table.lookup "schema_version" with
    | some (.integer version) => version
    | _ => schemaVersion
  pure (Config.fromRoot root, version > schemaVersion)

def Config.toTomlString (config : Config) : τ := format.header (format.display config.toRoot)

def parseConfig (text : τ) : Reload :=
  match Config.fromTomlStr format text with
  | .ok (config, readOnly) => .loaded config readOnly
  | .error message => .failed message

/-- `read_config`: a missing file means the defaults. -/
def readConfig : Option τ → Reload
  | some text => parseConfig format text
  | none => .loaded .default false

end Texts

/-- The settings of one instance, and its file. -/
structure AppSettings (τ : Type) where
  disk : Option τ
  baseline : Option τ
  config : Config
  protection : Protection
  ownWrites : OwnWrites τ
  /-- The writer's pending text, with the number of its write. -/
  job : Option (Nat × τ)
  /-- Writes that finished, whose `write_done` is still to run. -/
  written : List (Nat × τ)
  /-- What the watcher read, whose `file_changed` is still to run. -/
  reads : List (Option τ)
  /-- The file was replaced since the watcher read it. -/
  unread : Bool

inductive SettingsEvent (τ : Type) where
  | change (apply : Config → Option Config)
  | fire
  | writeDone
  | external (text : τ)
  | read
  | handle

section Model

variable {τ : Type} (format : ConfigFormat τ)

namespace AppSettings

/-- `save`: queues the settings in memory, unless the file is protected. -/
def save (s : AppSettings τ) : AppSettings τ :=
  if s.protection = .none then
    let text := s.config.toTomlString format
    { s with
      ownWrites := s.ownWrites.queued text
      job := some (s.ownWrites.nextSeq, text) }
  else s

/-- `change`: saves when `apply` changed something. -/
def change (s : AppSettings τ) (apply : Config → Option Config) : AppSettings τ :=
  match apply s.config with
  | some config => save format { s with config }
  | none => s

def applyReload (s : AppSettings τ) : Reload → AppSettings τ
  | .loaded config readOnly =>
    { s with config, protection := if readOnly then .newerSchema else .none }
  | .failed _ => { s with protection := .unreadable }

variable [DecidableEq τ]

/-- Whether what was read is one of our writes. -/
def isEcho (s : AppSettings τ) (read : Option τ) : Bool := read.any s.ownWrites.isEcho

/-- `file_changed`: our own writes are not reloaded. -/
def fileChanged (s : AppSettings τ) (read : Option τ) : AppSettings τ :=
  if s.protection = .none ∧ s.isEcho read then s
  else s.applyReload (readConfig format read)

end AppSettings

open AppSettings in
def settingsStep [DecidableEq τ] (s : AppSettings τ) : SettingsEvent τ → Option (AppSettings τ)
  | .change apply => some (s.change format apply)
  | .fire =>
    s.job.map fun job =>
      let saved := writeMerging format.codec s.disk s.baseline job.2
      { s with
        disk := some saved.file
        baseline := saved.baseline
        job := none
        written := s.written ++ [job]
        unread := s.unread || s.disk ≠ some saved.file }
  | .writeDone =>
    match s.written with
    | [] => none
    | (seq, text) :: rest =>
      some
        { s with
          written := rest
          ownWrites := s.ownWrites.settled seq (some text) }
  | .external text => some { s with disk := some text, unread := true }
  | .read =>
    some
      { s with
        -- A file that is not there leaves the baseline.
        baseline := s.disk.or s.baseline
        reads := s.reads ++ [s.disk]
        unread := false }
  | .handle =>
    match s.reads with
    | [] => none
    | text :: rest => some (fileChanged format { s with reads := rest } text)

/-- The settings a file gives. -/
def configOf (disk : Option τ) : Config :=
  match readConfig format disk with
  | .loaded config _ => config
  | .failed _ => .default

end Model

end Opensesh
