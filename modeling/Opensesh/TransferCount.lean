/-
The counters of a transfer: what each file has put into them at every place of its copy, and
what they add up to over a whole job, with its pauses, skips and copies on the server.
-/
import Opensesh.TransferScan
import Mathlib.Algebra.BigOperators.Group.List.Basic
import Mathlib.Algebra.GroupWithZero.Nat
import Mathlib.Algebra.Order.BigOperators.Group.List
import Mathlib.Algebra.Order.Ring.Nat

namespace Opensesh.Transfer

open List

/-- What to do when a file is in the way. -/
inductive Policy where
  | ask
  | overwrite
  | overwriteIfNewer
  | resume
  | skip
  | rename

/-- Where a file's copy starts. -/
inductive Start where
  | fresh
  | offset (bytes : Nat)
  | skip

def newer : Option Int → Option Int → Bool
  | some source, some existing => existing < source
  | some _, none => true
  | none, _ => false

/-- What is at the destination, the policy (after the user's answer) and whether the last
bytes of a partial file match the source. -/
structure Destination where
  existing : Except FsError (Option Entry)
  policy : Policy
  tailsMatch : Except FsError Bool

/-- What to do when something is at the destination. -/
def decideStart (toFs : Fs) (source : Entry) (target : String) (found : Destination) :
    Except FsError Start := do
  match ← found.existing with
  | none => pure .fresh
  | some existing =>
    if existing.isDirLike then throw (.alreadyExists target)
    match found.policy with
    | .ask | .overwrite => pure .fresh
    | .skip => pure .skip
    | .overwriteIfNewer =>
      pure (if newer source.modified existing.modified then .fresh else .skip)
    | .resume =>
      if existing.size ≤ source.size && 0 < existing.size then
        if ← found.tailsMatch then
          pure (if existing.size = source.size then .skip
            else if toFs.canResume then .offset existing.size else .fresh)
        else pure .fresh
      else pure .fresh
    -- Under the next free name.
    | .rename => pure .fresh

/-- Where the copy of one file is. -/
inductive Stage where
  /-- Among the files to hand out. -/
  | pending
  /-- Among those of the next round. -/
  | paused
  | deciding
  /-- About to copy from this offset on. -/
  | opened (offset : Nat)
  | copying (written : Nat)
  /-- All bytes were written, the destination is about to be closed. -/
  | closing
  /-- Its bytes are counted, the file is not yet. -/
  | moved
  /-- The file is counted, its bytes are not yet. -/
  | counted
  | done
  /-- Given up, with this many bytes counted. -/
  | failed (bytes : Nat)
deriving DecidableEq

structure Task where
  item : Item
  stage : Stage

def Task.fresh (item : Item) : Task := ⟨item, .pending⟩

def Task.size (task : Task) : Nat := task.item.entry.size

/-- The bytes a chunk has at most. -/
def chunkSize : Nat := 256 * 1024

inductive TaskEvent where
  /-- Handed out. -/
  | start
  /-- Left for the next round: the job was paused meanwhile. -/
  | hold
  | decide (found : Destination)
  /-- The storage copies it by itself. -/
  | copyFile
  | open
  /-- This many bytes were read and written. -/
  | chunk (read : Nat)
  | pause
  | eof
  | close
  /-- The second of two counters. -/
  | count
  /-- An operation failed, or the job was cancelled. -/
  | fail

def Counters.addBytes (counters : Counters) (bytes : Nat) : Counters :=
  { counters with bytesDone := counters.bytesDone + UInt64.ofNat bytes }

def Counters.subBytes (counters : Counters) (bytes : Nat) : Counters :=
  { counters with bytesDone := counters.bytesDone - UInt64.ofNat bytes }

def Counters.addFiles (counters : Counters) (files : Nat) : Counters :=
  { counters with filesDone := counters.filesDone + UInt64.ofNat files }

/-- One step of `FileJob::copy`, up to the next time others run. -/
def Request.copyStep (request : Request) (counters : Counters) (task : Task) :
    TaskEvent → Option (Counters × Task)
  | .start =>
    if task.stage = .pending then
      match task.item.resumeAt with
      | some offset => some (counters, { task with stage := .opened offset })
      | none => some (counters, { task with stage := .deciding })
    else none
  | .hold =>
    if task.stage = .pending then some (counters, { task with stage := .paused }) else none
  | .decide found =>
    if task.stage = .deciding then
      match decideStart request.toFs task.item.entry task.item.target found with
      | .error _ => some (counters, { task with stage := .failed 0 })
      | .ok .skip => some (counters.skip.addFiles 1, { task with stage := .counted })
      | .ok .fresh => some (counters, { task with stage := .opened 0 })
      | .ok (.offset bytes) => some (counters.addBytes bytes, { task with stage := .opened bytes })
    else none
  | .copyFile =>
    match task.stage with
    | .opened _ =>
      if request.toFs.kind = .s3 && request.fromFs.same request.toFs then
        some (counters.addBytes task.size, { task with stage := .moved })
      else none
    | _ => none
  | .open =>
    match task.stage with
    | .opened offset =>
      if request.toFs.kind = .s3 && request.fromFs.same request.toFs then none
      else some (counters, { task with stage := .copying offset })
    | _ => none
  | .chunk read =>
    match task.stage with
    | .copying written =>
      -- The source has the size the scan found.
      if 0 < read ∧ read ≤ chunkSize ∧ written + read ≤ task.size then
        some (counters.addBytes read, { task with stage := .copying (written + read) })
      else none
    | _ => none
  | .pause =>
    match task.stage with
    | .copying written =>
      if request.toFs.canResume then
        some (counters, ⟨{ task.item with resumeAt := some written }, .paused⟩)
      -- The upload is abandoned, and starts over.
      else some (counters.subBytes written, ⟨{ task.item with resumeAt := some 0 }, .paused⟩)
    | _ => none
  | .eof =>
    if task.stage = .copying task.size then some (counters, { task with stage := .closing })
    else none
  | .close =>
    if task.stage = .closing then some (counters.addFiles 1, { task with stage := .done })
    else none
  | .count =>
    match task.stage with
    | .moved => some (counters.addFiles 1, { task with stage := .done })
    | .counted => some (counters.addBytes task.size, { task with stage := .done })
    | _ => none
  | .fail =>
    match task.stage with
    | .deciding => some (counters, { task with stage := .failed 0 })
    | .opened offset => some (counters, { task with stage := .failed offset })
    | .copying written => some (counters, { task with stage := .failed written })
    | .closing => some (counters, { task with stage := .failed task.size })
    | _ => none

/-- What a job has after its scan. -/
structure Files where
  dirs : List String
  tasks : List Task
  counters : Counters

inductive Job where
  | scanning (walk : Walk)
  /-- A copy within one server, with the sources it still tries. -/
  | onServer (sources : List String) (files : Files)
  /-- One source was copied there: its files are counted, their bytes not yet. -/
  | counting (sources : List String) (files : Files)
  | copying (files : Files)
  | done (files : Files)
  | failed (files : Files)

def Walk.files (walk : Walk) : Files := ⟨walk.dirs, walk.items.map Task.fresh, walk.counters⟩

def Job.files : Job → Files
  | .scanning walk => walk.files
  | .onServer _ files | .counting _ files | .copying files | .done files | .failed files => files

/-- What the server says to the copy of one source. -/
inductive ServerReply where
  /-- Something is at the destination. -/
  | taken
  | copied
  | unsupported

/-- The server copied all that goes to `target`. -/
def Files.served (files : Files) (target : String) : Files where
  dirs := files.dirs.filter fun dir => !Path.within dir target
  tasks := files.tasks.map fun task =>
    if task.stage = .pending && Path.within task.item.target target then
      { task with stage := .counted }
    else task
  counters := files.counters.addFiles (files.tasks.filter fun task =>
    task.stage = .pending && Path.within task.item.target target).length

def Files.countBytes (files : Files) : Files where
  dirs := files.dirs
  tasks := files.tasks.map fun task =>
    if task.stage = .counted then { task with stage := .done } else task
  counters := files.counters.addBytes
    ((files.tasks.filter fun task => task.stage = .counted).map Task.size).sum

/-- All files were handed out, and came back. -/
def Files.joined (files : Files) : Bool :=
  files.tasks.all fun task =>
    match task.stage with
    | .paused | .done | .failed _ => true
    | _ => false

def Stage.isFailed : Stage → Bool
  | .failed _ => true
  | _ => false

def Files.anyFailed (files : Files) : Bool := files.tasks.any fun task => task.stage.isFailed

inductive JobEvent where
  | scan (replies : Replies)
  | scanned
  | server (reply : ServerReply)
  | serverBytes
  | serverEnd
  | file (index : Nat) (event : TaskEvent)
  /-- The paused files are handed out again. -/
  | nextRound
  | finish
  /-- An operation of the job itself failed, or it was cancelled. -/
  | stop

def Request.step (request : Request) : Job → JobEvent → Option Job
  | .scanning walk, .scan replies =>
    match walk.stack with
    | [] => none
    | (path, target) :: stack =>
      match request.visit replies path target { walk with stack } with
      | .ok next => some (.scanning next)
      | .error _ => some (.failed walk.files)
  | .scanning walk, .scanned =>
    if walk.stack = [] then
      if request.fromFs.same request.toFs && request.fromFs.kind = .remote then
        some (.onServer request.sources walk.files)
      else some (.copying walk.files)
    else none
  | .onServer (source :: rest) files, .server reply =>
    let target := Path.join request.toFs.style request.destination
      (Path.fileName request.toFs.style source)
    if Path.within request.destination source then some (.onServer rest files)
    else
      match reply with
      | .taken => some (.onServer rest files)
      | .copied => some (.counting rest (files.served target))
      | .unsupported => some (.copying files)
  | .onServer [] files, .serverEnd => some (.copying files)
  | .onServer _ files, .stop => some (.failed files)
  | .counting sources files, .serverBytes => some (.onServer sources files.countBytes)
  | .copying files, .file index event =>
    match files.tasks[index]? with
    | none => none
    | some task =>
      match request.copyStep files.counters task event with
      | none => none
      | some (counters, next) =>
        some (.copying { files with tasks := files.tasks.set index next, counters := counters })
  | .copying files, .nextRound =>
    if files.joined && !files.anyFailed then
      some (.copying { files with tasks := files.tasks.map fun task =>
        if task.stage = .paused then { task with stage := .pending } else task })
    else none
  | .copying files, .finish =>
    if files.tasks.all fun task => task.stage = .done then some (.done files) else none
  | .copying files, .stop => some (.failed files)
  | _, _ => none

def Request.run (request : Request) : List JobEvent → Option Job
  | [] => some (.scanning (.start request))
  | event :: before => (request.run before).bind fun job => request.step job event

def Task.bytes (task : Task) : Nat :=
  match task.stage with
  | .pending | .paused => task.item.resumeAt.getD 0
  | .deciding | .counted => 0
  | .opened bytes | .copying bytes | .failed bytes => bytes
  | .closing | .moved | .done => task.size

def Task.files (task : Task) : Nat :=
  match task.stage with
  | .counted | .done => 1
  | _ => 0

def Files.size (files : Files) : Nat := (files.tasks.map Task.size).sum

/-- No more bytes are counted for a file than it has; a destination that starts over has none
of it. -/
structure Task.Sound (toFs : Fs) (task : Task) : Prop where
  le : task.bytes ≤ task.size
  deciding : task.stage = .deciding → task.item.resumeAt = none
  startsOver : toFs.canResume = false →
    match task.stage with
    | .pending | .paused => task.item.resumeAt.getD 0 = 0
    | .opened offset => offset = 0
    | _ => True

/-- The two counters that move, beside what the files have put into them. -/
structure Ledger (counters : Counters) (bytes files : Nat) : Prop where
  bytesDone : counters.bytesDone = UInt64.ofNat bytes
  filesDone : counters.filesDone = UInt64.ofNat files

theorem Ledger.addBytes {counters : Counters} {bytes files : Nat}
    (h : Ledger counters bytes files) (more : Nat) :
    Ledger (counters.addBytes more) (bytes + more) files := by
  refine ⟨?_, h.filesDone⟩
  rw [Counters.addBytes, h.bytesDone, UInt64.ofNat_add]

theorem Ledger.addFiles {counters : Counters} {bytes files : Nat}
    (h : Ledger counters bytes files) (more : Nat) :
    Ledger (counters.addFiles more) bytes (files + more) := by
  refine ⟨h.bytesDone, ?_⟩
  rw [Counters.addFiles, h.filesDone, UInt64.ofNat_add]

theorem Ledger.subBytes {counters : Counters} {bytes files less : Nat}
    (h : Ledger counters (bytes + less) files) : Ledger (counters.subBytes less) bytes files := by
  refine ⟨?_, h.filesDone⟩
  rw [Counters.subBytes, h.bytesDone, UInt64.ofNat_add, UInt64.add_sub_cancel]

theorem Ledger.skip {counters : Counters} {bytes files : Nat}
    (h : Ledger counters bytes files) : Ledger counters.skip bytes files :=
  ⟨h.bytesDone, h.filesDone⟩

/-- The totals stay what the scan made them. -/
structure SameTotals (before after : Counters) : Prop where
  bytesTotal : after.bytesTotal = before.bytesTotal
  filesTotal : after.filesTotal = before.filesTotal

theorem decideStart_offset {toFs : Fs} {source : Entry} {target : String} {found : Destination}
    {bytes : Nat} (h : decideStart toFs source target found = .ok (.offset bytes)) :
    bytes ≤ source.size ∧ toFs.canResume = true := by
  unfold decideStart at h
  cases hexisting : found.existing with
  | error error => rw [hexisting] at h; cases h
  | ok existing =>
    rw [hexisting] at h
    cases existing with
    | none => cases h
    | some existing =>
      cases hdir : existing.isDirLike with
      | true => simp [bind, Except.bind, hdir, throw, throwThe, MonadExceptOf.throw] at h
      | false =>
        cases htails : found.tailsMatch with
        | error error =>
          cases hpolicy : found.policy <;>
            simp [bind, Except.bind, pure, Except.pure, hdir, hpolicy, htails] at h <;>
            grind
        | ok tails =>
          cases hpolicy : found.policy <;>
            simp [bind, Except.bind, pure, Except.pure, hdir, hpolicy, htails] at h <;>
            grind

/-- A file before and after a step: its part of the counters moved with it. -/
structure Moves (toFs : Fs) (bytes files : Nat) (counters : Counters) (task : Task)
    (counters' : Counters) (task' : Task) : Prop where
  ledger : Ledger counters' (bytes + task'.bytes) (files + task'.files)
  sound : task'.Sound toFs
  size : task'.size = task.size
  totals : SameTotals counters counters'

variable {request : Request} {counters counters' : Counters} {task task' : Task} {bytes files : Nat}

theorem Moves.still {toFs : Fs} {stage : Stage}
    (hledger : Ledger counters (bytes + task.bytes) (files + task.files))
    (hbytes : (Task.mk task.item stage).bytes = task.bytes)
    (hfiles : (Task.mk task.item stage).files = task.files)
    (hsound : (Task.mk task.item stage).Sound toFs) :
    Moves toFs bytes files counters task counters ⟨task.item, stage⟩ := by
  refine ⟨?_, hsound, rfl, rfl, rfl⟩
  rw [hbytes, hfiles]
  exact hledger

theorem moves_decide {found : Destination} (hsound : task.Sound request.toFs)
    (hledger : Ledger counters (bytes + task.bytes) (files + task.files))
    (hstep : request.copyStep counters task (.decide found) = some (counters', task')) :
    Moves request.toFs bytes files counters task counters' task' := by
  rw [Request.copyStep] at hstep
  split at hstep
  case isFalse => cases hstep
  case isTrue hstage =>
    obtain ⟨item, stage⟩ := task
    obtain rfl : stage = .deciding := hstage
    have hnone : item.resumeAt = none := hsound.deciding rfl
    split at hstep
    case h_1 =>
      obtain ⟨rfl, rfl⟩ := hstep
      exact .still hledger rfl rfl ⟨Nat.zero_le _, nofun, fun _ => trivial⟩
    case h_2 =>
      obtain ⟨rfl, rfl⟩ := hstep
      exact ⟨hledger.skip.addFiles 1, ⟨Nat.zero_le _, nofun, fun _ => trivial⟩, rfl, rfl, rfl⟩
    case h_3 =>
      obtain ⟨rfl, rfl⟩ := hstep
      exact .still hledger rfl rfl ⟨Nat.zero_le _, nofun, fun _ => rfl⟩
    case h_4 offset hstart =>
      obtain ⟨rfl, rfl⟩ := hstep
      obtain ⟨hle, hresume⟩ := decideStart_offset hstart
      refine ⟨hledger.addBytes offset, ⟨hle, nofun, ?_⟩, rfl, rfl, rfl⟩
      intro hnot
      rw [hresume] at hnot
      cases hnot

theorem moves_chunk {read : Nat}
    (hledger : Ledger counters (bytes + task.bytes) (files + task.files))
    (hstep : request.copyStep counters task (.chunk read) = some (counters', task')) :
    Moves request.toFs bytes files counters task counters' task' := by
  obtain ⟨item, stage⟩ := task
  rw [Request.copyStep] at hstep
  split at hstep
  case h_1 written hstage =>
    obtain rfl : stage = .copying written := hstage
    split at hstep
    case isTrue hread =>
      obtain ⟨rfl, rfl⟩ := hstep
      have hmore := hledger.addBytes read
      rw [Nat.add_assoc] at hmore
      exact ⟨hmore, ⟨hread.2.2, nofun, fun _ => trivial⟩, rfl, rfl, rfl⟩
    case isFalse => cases hstep
  case h_2 => cases hstep

/-- A pause keeps what was written, or takes all of it back. -/
theorem moves_pause (hsound : task.Sound request.toFs)
    (hledger : Ledger counters (bytes + task.bytes) (files + task.files))
    (hstep : request.copyStep counters task .pause = some (counters', task')) :
    Moves request.toFs bytes files counters task counters' task' := by
  obtain ⟨item, stage⟩ := task
  rw [Request.copyStep] at hstep
  split at hstep
  case h_1 written hstage =>
    obtain rfl : stage = .copying written := hstage
    split at hstep
    case isTrue hresume =>
      obtain ⟨rfl, rfl⟩ := hstep
      refine ⟨hledger, ⟨hsound.le, nofun, ?_⟩, rfl, rfl, rfl⟩
      intro hnot
      rw [hresume] at hnot
      cases hnot
    case isFalse =>
      obtain ⟨rfl, rfl⟩ := hstep
      exact ⟨hledger.subBytes, ⟨Nat.zero_le _, nofun, fun _ => rfl⟩, rfl, rfl, rfl⟩
  case h_2 => cases hstep

theorem moves_copyFile (hsound : task.Sound request.toFs)
    (hledger : Ledger counters (bytes + task.bytes) (files + task.files))
    (hstep : request.copyStep counters task .copyFile = some (counters', task')) :
    Moves request.toFs bytes files counters task counters' task' := by
  obtain ⟨item, stage⟩ := task
  rw [Request.copyStep] at hstep
  split at hstep
  case h_1 offset hstage =>
    obtain rfl : stage = .opened offset := hstage
    split at hstep
    case isTrue hs3 =>
      obtain ⟨rfl, rfl⟩ := hstep
      have hkind : request.toFs.kind = .s3 := by
        simp only [Bool.and_eq_true, decide_eq_true_eq] at hs3
        exact hs3.1
      obtain rfl : offset = 0 := hsound.startsOver (by simp [Fs.canResume, hkind])
      exact ⟨hledger.addBytes _, ⟨Nat.le_refl _, nofun, fun _ => trivial⟩, rfl, rfl, rfl⟩
    case isFalse => cases hstep
  case h_2 => cases hstep

theorem moves_step {event : TaskEvent} (hsound : task.Sound request.toFs)
    (hledger : Ledger counters (bytes + task.bytes) (files + task.files))
    (hstep : request.copyStep counters task event = some (counters', task')) :
    Moves request.toFs bytes files counters task counters' task' := by
  cases event with
  | decide found => exact moves_decide hsound hledger hstep
  | chunk read => exact moves_chunk hledger hstep
  | pause => exact moves_pause hsound hledger hstep
  | copyFile => exact moves_copyFile hsound hledger hstep
  | start =>
    obtain ⟨⟨source, target, entry, resumeAt⟩, stage⟩ := task
    rw [Request.copyStep] at hstep
    split at hstep
    case isFalse => cases hstep
    case isTrue hstage =>
      obtain rfl : stage = .pending := hstage
      cases resumeAt with
      | none =>
        obtain ⟨rfl, rfl⟩ := hstep
        exact .still hledger rfl rfl ⟨Nat.zero_le _, fun _ => rfl, fun _ => trivial⟩
      | some offset =>
        obtain ⟨rfl, rfl⟩ := hstep
        exact .still hledger rfl rfl ⟨hsound.le, nofun, hsound.startsOver⟩
  | hold =>
    obtain ⟨item, stage⟩ := task
    rw [Request.copyStep] at hstep
    split at hstep
    case isFalse => cases hstep
    case isTrue hstage =>
      obtain rfl : stage = .pending := hstage
      obtain ⟨rfl, rfl⟩ := hstep
      exact .still hledger rfl rfl ⟨hsound.le, nofun, hsound.startsOver⟩
  | «open» =>
    obtain ⟨item, stage⟩ := task
    rw [Request.copyStep] at hstep
    split at hstep
    case h_1 offset hstage =>
      obtain rfl : stage = .opened offset := hstage
      split at hstep
      case isTrue => cases hstep
      case isFalse =>
        obtain ⟨rfl, rfl⟩ := hstep
        exact .still hledger rfl rfl ⟨hsound.le, nofun, fun _ => trivial⟩
    case h_2 => cases hstep
  | eof =>
    obtain ⟨item, stage⟩ := task
    rw [Request.copyStep] at hstep
    split at hstep
    case isFalse => cases hstep
    case isTrue hstage =>
      obtain rfl : stage = .copying item.entry.size := hstage
      obtain ⟨rfl, rfl⟩ := hstep
      exact .still hledger rfl rfl ⟨Nat.le_refl _, nofun, fun _ => trivial⟩
  | close =>
    obtain ⟨item, stage⟩ := task
    rw [Request.copyStep] at hstep
    split at hstep
    case isFalse => cases hstep
    case isTrue hstage =>
      obtain rfl : stage = .closing := hstage
      obtain ⟨rfl, rfl⟩ := hstep
      exact ⟨hledger.addFiles 1, ⟨Nat.le_refl _, nofun, fun _ => trivial⟩, rfl, rfl, rfl⟩
  | count =>
    obtain ⟨item, stage⟩ := task
    rw [Request.copyStep] at hstep
    split at hstep
    case h_1 hstage =>
      obtain rfl : stage = .moved := hstage
      obtain ⟨rfl, rfl⟩ := hstep
      exact ⟨hledger.addFiles 1, ⟨Nat.le_refl _, nofun, fun _ => trivial⟩, rfl, rfl, rfl⟩
    case h_2 hstage =>
      obtain rfl : stage = .counted := hstage
      obtain ⟨rfl, rfl⟩ := hstep
      exact ⟨hledger.addBytes _, ⟨Nat.le_refl _, nofun, fun _ => trivial⟩, rfl, rfl, rfl⟩
    case h_3 => cases hstep
  | fail =>
    obtain ⟨item, stage⟩ := task
    cases stage with
    | deciding | opened | copying | closing =>
      obtain ⟨rfl, rfl⟩ := hstep
      exact .still hledger rfl rfl ⟨hsound.le, nofun, fun _ => trivial⟩
    | _ => cases hstep

/-- The counters are what the files have put into them. -/
structure Balanced (toFs : Fs) (files : Files) : Prop where
  filesTotal : files.counters.filesTotal = UInt64.ofNat files.tasks.length
  bytesTotal : files.counters.bytesTotal = UInt64.ofNat files.size
  ledger : Ledger files.counters (files.tasks.map Task.bytes).sum (files.tasks.map Task.files).sum
  sound : ∀ task ∈ files.tasks, task.Sound toFs

theorem sum_middle (part : Task → Nat) (before after : List Task) (task : Task) :
    ((before ++ task :: after).map part).sum =
      (before.map part).sum + (after.map part).sum + part task := by
  rw [map_append, sum_append, map_cons, sum_cons]
  omega

theorem Balanced.moves {toFs : Fs} {files : Files} (h : Balanced toFs files) {index : Nat}
    {counters' : Counters} {task task' : Task} (hfile : files.tasks[index]? = some task)
    (hmoves : ∀ bytes done, Ledger files.counters (bytes + task.bytes) (done + task.files) →
      Moves toFs bytes done files.counters task counters' task') :
    Balanced toFs { files with tasks := files.tasks.set index task', counters := counters' } := by
  obtain ⟨hlt, htask⟩ := List.getElem?_eq_some_iff.mp hfile
  obtain ⟨before, after, hbefore, -, hset⟩ := @exists_of_set Task index task' files.tasks hlt
  rw [htask] at hbefore
  obtain ⟨hfilesTotal, hbytesTotal, hledger, hsound⟩ := h
  rw [hbefore, sum_middle, sum_middle] at hledger
  obtain ⟨hafter, hkept, hsize, htotals⟩ := hmoves _ _ hledger
  refine ⟨?_, ?_, ?_, ?_⟩
  · rw [length_set, htotals.filesTotal, hfilesTotal]
  · rw [htotals.bytesTotal, hbytesTotal, Files.size, Files.size, hset, hbefore, sum_middle,
      sum_middle, hsize]
  · rw [hset, sum_middle, sum_middle]
    exact hafter
  · rw [hset]
    rw [hbefore, forall_mem_append, forall_mem_cons] at hsound
    rw [forall_mem_append, forall_mem_cons]
    exact ⟨hsound.1, hkept, hsound.2.2⟩

theorem sum_update {part : Task → Nat} {change : Task → Task} (more : Task → Nat)
    (chosen : Task → Bool) {tasks : List Task}
    (hpart : ∀ task ∈ tasks, part (change task) =
      part task + if chosen task then more task else 0) :
    ((tasks.map change).map part).sum =
      (tasks.map part).sum + ((tasks.filter chosen).map more).sum := by
  induction tasks with
  | nil => rfl
  | cons task rest ih =>
    obtain ⟨hfirst, hrest⟩ := forall_mem_cons.mp hpart
    have hsum := ih hrest
    simp only [map_cons, sum_cons, hfirst, hsum, filter_cons]
    cases chosen task with
    | false => simp only [Bool.false_eq_true, if_false]; omega
    | true => simp only [if_true, map_cons, sum_cons]; omega

theorem sum_same {part : Task → Nat} {change : Task → Task} {tasks : List Task}
    (hpart : ∀ task ∈ tasks, part (change task) = part task) :
    ((tasks.map change).map part).sum = (tasks.map part).sum := by
  rw [map_map]
  exact congrArg List.sum (map_congr_left hpart)

/-- What the scan found. -/
structure Found (walk : Walk) : Prop where
  filesTotal : walk.counters.filesTotal = UInt64.ofNat walk.items.length
  bytesTotal : walk.counters.bytesTotal =
    UInt64.ofNat (walk.items.map fun item => item.entry.size).sum
  ledger : Ledger walk.counters 0 0
  fresh : ∀ item ∈ walk.items, item.resumeAt = none

theorem Found.pushChild {walk : Walk} (h : Found walk) (path target : String) (child : Entry) :
    Found (request.pushChild path target walk child) := by
  rw [Request.pushChild]
  split
  · exact ⟨h.filesTotal, h.bytesTotal, h.ledger, h.fresh⟩
  · exact ⟨h.filesTotal, h.bytesTotal, h.ledger.skip, h.fresh⟩

theorem Found.children {walk : Walk} (h : Found walk) (path target : String)
    (children : List Entry) : Found (children.foldl (request.pushChild path target) walk) := by
  induction children generalizing walk with
  | nil => exact h
  | cons child rest ih => exact ih (h.pushChild path target child)

theorem Found.visit {walk next : Walk} (h : Found walk) {path target : String} {replies : Replies}
    (hvisit : request.visit replies path target walk = .ok next) : Found next := by
  rcases visit_cases hvisit with rfl | ⟨children, rfl⟩ | ⟨entry, rfl⟩
  · exact ⟨h.filesTotal, h.bytesTotal, h.ledger.skip, h.fresh⟩
  · have hdirs : Found { walk with dirs := walk.dirs ++ [target] } :=
      ⟨h.filesTotal, h.bytesTotal, h.ledger, h.fresh⟩
    exact hdirs.children path target children
  · refine ⟨?_, ?_, ⟨h.ledger.bytesDone, h.ledger.filesDone⟩, ?_⟩
    · rw [h.filesTotal, length_append, UInt64.ofNat_add]
      rfl
    · rw [h.bytesTotal, map_append, sum_append, UInt64.ofNat_add]
      rfl
    · exact forall_mem_append.mpr ⟨h.fresh, forall_mem_singleton.mpr rfl⟩

theorem Found.balanced {walk : Walk} (h : Found walk) (toFs : Fs) : Balanced toFs walk.files := by
  have hbytes : ∀ item ∈ walk.items, (Task.fresh item).bytes = 0 := by
    intro item hitem
    change item.resumeAt.getD 0 = 0
    rw [h.fresh item hitem]
    rfl
  have hzero : ∀ part : Task → Nat, (∀ item ∈ walk.items, part (.fresh item) = 0) →
      (walk.files.tasks.map part).sum = 0 := by
    intro part hpart
    rw [Walk.files]
    exact sum_eq_zero (forall_mem_map.mpr (forall_mem_map.mpr hpart))
  refine ⟨?_, ?_, ?_, ?_⟩
  · rw [Walk.files, length_map]
    exact h.filesTotal
  · rw [Files.size, Walk.files, map_map]
    exact h.bytesTotal
  · rw [hzero Task.bytes hbytes, hzero Task.files fun _ _ => rfl]
    exact h.ledger
  · refine forall_mem_map.mpr fun item hitem => ⟨?_, nofun, fun _ => ?_⟩
    · rw [hbytes item hitem]
      exact Nat.zero_le _
    · exact hbytes item hitem

theorem Balanced.served {toFs : Fs} {files : Files} (h : Balanced toFs files)
    (hfresh : ∀ task ∈ files.tasks, task.item.resumeAt = none) (target : String) :
    Balanced toFs (files.served target) := by
  refine ⟨?_, ?_, ⟨?_, ?_⟩, ?_⟩
  · rw [Files.served, length_map]
    exact h.filesTotal
  · rw [Files.size, Files.served, sum_same]
    · exact h.bytesTotal
    · intro task _
      split <;> rfl
  · rw [Files.served, sum_same]
    · exact h.ledger.bytesDone
    · intro task htask
      split
      case isTrue hchosen =>
        simp only [Bool.and_eq_true, decide_eq_true_eq] at hchosen
        simp only [Task.bytes, hchosen.1, hfresh task htask, Option.getD_none]
      case isFalse => rfl
  · rw [Files.served, sum_update (fun _ => 1)
      fun task => task.stage = .pending && Path.within task.item.target target]
    · have hadd := (h.ledger.addFiles (files.tasks.filter fun task =>
        task.stage = .pending && Path.within task.item.target target).length).filesDone
      simpa using hadd
    · intro task _
      split
      case isTrue hchosen =>
        simp only [Bool.and_eq_true, decide_eq_true_eq] at hchosen
        simp only [Task.files, hchosen.1]
      case isFalse => rfl
  · refine forall_mem_map.mpr fun task htask => ?_
    split
    · exact ⟨Nat.zero_le _, nofun, fun _ => trivial⟩
    · exact h.sound task htask

theorem Balanced.countBytes {toFs : Fs} {files : Files} (h : Balanced toFs files) :
    Balanced toFs files.countBytes := by
  refine ⟨?_, ?_, ⟨?_, ?_⟩, ?_⟩
  · rw [Files.countBytes, length_map]
    exact h.filesTotal
  · rw [Files.size, Files.countBytes, sum_same]
    · exact h.bytesTotal
    · intro task _
      split <;> rfl
  · rw [Files.countBytes, sum_update Task.size fun task => task.stage = .counted]
    · exact (h.ledger.addBytes _).bytesDone
    · intro task _
      by_cases hstage : task.stage = .counted <;> simp [Task.bytes, Task.size, hstage]
  · rw [Files.countBytes, sum_same]
    · exact h.ledger.filesDone
    · intro task _
      split
      case isTrue hstage => simp only [Task.files, hstage]
      case isFalse => rfl
  · refine forall_mem_map.mpr fun task htask => ?_
    split
    · exact ⟨Nat.le_refl _, nofun, fun _ => trivial⟩
    · exact h.sound task htask

theorem Balanced.nextRound {toFs : Fs} {files : Files} (h : Balanced toFs files) :
    Balanced toFs { files with tasks := files.tasks.map fun task =>
      if task.stage = .paused then { task with stage := .pending } else task } := by
  have hbytes : ∀ task : Task, (if task.stage = .paused then { task with stage := .pending }
      else task : Task).bytes = task.bytes := by
    intro task
    split
    case isTrue hstage => simp only [Task.bytes, hstage]
    case isFalse => rfl
  refine ⟨?_, ?_, ?_, ?_⟩
  · rw [length_map]
    exact h.filesTotal
  · rw [Files.size, sum_same]
    · exact h.bytesTotal
    · intro task _
      split <;> rfl
  · rw [sum_same fun task _ => hbytes task, sum_same]
    · exact h.ledger
    · intro task _
      split
      case isTrue hstage => simp only [Task.files, hstage]
      case isFalse => rfl
  · refine forall_mem_map.mpr fun task htask => ?_
    obtain ⟨hle, hdeciding, hstarts⟩ := h.sound task htask
    obtain ⟨item, stage⟩ := task
    split
    case isTrue hstage =>
      obtain rfl : stage = .paused := hstage
      exact ⟨hle, nofun, hstarts⟩
    case isFalse => exact ⟨hle, hdeciding, hstarts⟩

/-- Nothing was paused yet. -/
def Job.early : Job → Bool
  | .scanning _ | .onServer _ _ | .counting _ _ => true
  | .copying _ | .done _ | .failed _ => false

def Job.isDone : Job → Bool
  | .done _ => true
  | _ => false

/-- What every step of a job keeps. -/
structure Kept (request : Request) (job : Job) : Prop where
  balanced : Balanced request.toFs job.files
  found : ∀ walk, job = .scanning walk → Found walk
  early : job.early = true → ∀ task ∈ job.files.tasks, task.item.resumeAt = none
  done : job.isDone = true → ∀ task ∈ job.files.tasks, task.stage = .done

theorem Found.kept {walk : Walk} (h : Found walk) : Kept request (.scanning walk) where
  balanced := h.balanced _
  found := fun _ heq => Job.scanning.inj heq ▸ h
  early := fun _ => forall_mem_map.mpr h.fresh
  done := nofun

theorem kept_start (request : Request) : Kept request (.scanning (.start request)) :=
  Found.kept ⟨rfl, rfl, ⟨rfl, rfl⟩, forall_mem_nil _⟩

theorem kept_copying {files : Files} (h : Balanced request.toFs files) :
    Kept request (.copying files) := ⟨h, nofun, nofun, nofun⟩

theorem kept_failed {files : Files} (h : Balanced request.toFs files) :
    Kept request (.failed files) := ⟨h, nofun, nofun, nofun⟩

theorem kept_onServer {files : Files} (h : Balanced request.toFs files)
    (hfresh : ∀ task ∈ files.tasks, task.item.resumeAt = none) (sources : List String) :
    Kept request (.onServer sources files) := ⟨h, nofun, fun _ => hfresh, nofun⟩

theorem kept_step {job next : Job} (h : Kept request job) {event : JobEvent}
    (hstep : request.step job event = some next) : Kept request next := by
  unfold Request.step at hstep
  split at hstep
  case h_1 walk replies =>
    have hfound := h.found walk rfl
    split at hstep
    case h_1 => cases hstep
    case h_2 path target stack hstack =>
      split at hstep
      case h_1 after hvisit =>
        obtain rfl := Option.some.inj hstep
        have hrest : Found { walk with stack } :=
          ⟨hfound.filesTotal, hfound.bytesTotal, hfound.ledger, hfound.fresh⟩
        exact (hrest.visit hvisit).kept
      case h_2 =>
        obtain rfl := Option.some.inj hstep
        exact kept_failed h.balanced
  case h_2 walk =>
    split at hstep
    case isFalse => cases hstep
    case isTrue =>
      split at hstep
      · obtain rfl := Option.some.inj hstep
        exact kept_onServer h.balanced (h.early rfl) _
      · obtain rfl := Option.some.inj hstep
        exact kept_copying h.balanced
  case h_3 source rest files reply =>
    dsimp only at hstep
    split at hstep
    · obtain rfl := Option.some.inj hstep
      exact kept_onServer h.balanced (h.early rfl) _
    · split at hstep
      · obtain rfl := Option.some.inj hstep
        exact kept_onServer h.balanced (h.early rfl) _
      · obtain rfl := Option.some.inj hstep
        refine ⟨h.balanced.served (h.early rfl) _, nofun, fun _ => ?_, nofun⟩
        refine forall_mem_map.mpr fun task htask => ?_
        split
        · exact h.early rfl task htask
        · exact h.early rfl task htask
      · obtain rfl := Option.some.inj hstep
        exact kept_copying h.balanced
  case h_4 files =>
    obtain rfl := Option.some.inj hstep
    exact kept_copying h.balanced
  case h_5 =>
    obtain rfl := Option.some.inj hstep
    exact kept_failed h.balanced
  case h_6 sources files =>
    obtain rfl := Option.some.inj hstep
    refine kept_onServer h.balanced.countBytes ?_ _
    refine forall_mem_map.mpr fun task htask => ?_
    split
    · exact h.early rfl task htask
    · exact h.early rfl task htask
  case h_7 files index event =>
    split at hstep
    case h_1 => cases hstep
    case h_2 task htask =>
      split at hstep
      case h_1 => cases hstep
      case h_2 counters' task' hcopy =>
        obtain rfl := Option.some.inj hstep
        have hsound := h.balanced.sound task (mem_of_getElem? htask)
        exact kept_copying (h.balanced.moves htask fun bytes done hledger =>
          moves_step hsound hledger hcopy)
  case h_8 files =>
    split at hstep
    · obtain rfl := Option.some.inj hstep
      exact kept_copying h.balanced.nextRound
    · cases hstep
  case h_9 files =>
    split at hstep
    case isTrue hall =>
      obtain rfl := Option.some.inj hstep
      refine ⟨h.balanced, nofun, nofun, fun _ task htask => ?_⟩
      exact of_decide_eq_true (all_eq_true.mp hall task htask)
    case isFalse => cases hstep
  case h_10 =>
    obtain rfl := Option.some.inj hstep
    exact kept_failed h.balanced
  case h_11 => cases hstep

theorem kept_run {events : List JobEvent} {job : Job} (hrun : request.run events = some job) :
    Kept request job := by
  induction events generalizing job with
  | nil =>
    obtain rfl := Option.some.inj hrun
    exact kept_start request
  | cons event before ih =>
    obtain ⟨last, hbefore, hstep⟩ := Option.bind_eq_some_iff.mp hrun
    exact kept_step (ih hbefore) hstep

theorem Balanced.bytes_le {toFs : Fs} {files : Files} (h : Balanced toFs files) :
    (files.tasks.map Task.bytes).sum ≤ files.size :=
  sum_le_sum fun task htask => (h.sound task htask).le

theorem Task.files_le (task : Task) : task.files ≤ 1 := by
  unfold Task.files
  split <;> omega

theorem files_le (tasks : List Task) : (tasks.map Task.files).sum ≤ tasks.length := by
  have hle : (tasks.map Task.files).sum ≤ (tasks.map fun _ => 1).sum :=
    sum_le_sum fun task _ => task.files_le
  simpa using hle

theorem toNat_ofNat_small {n bound : Nat} (hle : n ≤ bound) (hbound : bound < 2 ^ 64) :
    (UInt64.ofNat n).toNat = n := by
  rw [UInt64.toNat_ofNat', Nat.mod_eq_of_lt (Nat.lt_of_le_of_lt hle hbound)]

/-- The counters of a job that ends well have reached their totals.  As long as the totals fit
their counters, what is done is never more than there is, and what an abandoned upload takes back
is there. -/
theorem counters_add_up {events : List JobEvent} {job : Job}
    (hrun : request.run events = some job) :
    (job.isDone = true →
      job.files.counters.bytesDone = job.files.counters.bytesTotal ∧
      job.files.counters.filesDone = job.files.counters.filesTotal) ∧
    (job.files.size < 2 ^ 64 → job.files.tasks.length < 2 ^ 64 →
      job.files.counters.bytesDone ≤ job.files.counters.bytesTotal ∧
      job.files.counters.filesDone ≤ job.files.counters.filesTotal ∧
      ∀ task ∈ job.files.tasks, ∀ written, task.stage = .copying written →
        written ≤ job.files.counters.bytesDone.toNat) := by
  have h := kept_run hrun
  obtain ⟨hfilesTotal, hbytesTotal, hledger, hsound⟩ := h.balanced
  have hbytes := h.balanced.bytes_le
  have hfiles := files_le job.files.tasks
  constructor
  · intro hdone
    have hall := h.done hdone
    have hsize : (job.files.tasks.map Task.bytes).sum = job.files.size := by
      refine congrArg List.sum (List.map_congr_left fun task htask => ?_)
      rw [Task.bytes, hall task htask]
    have hlength : (job.files.tasks.map Task.files).sum = job.files.tasks.length := by
      have hone : job.files.tasks.map Task.files = job.files.tasks.map fun _ => 1 := by
        refine List.map_congr_left fun task htask => ?_
        rw [Task.files, hall task htask]
      simp [hone]
    rw [hledger.bytesDone, hledger.filesDone, hbytesTotal, hfilesTotal, hsize, hlength]
    exact ⟨rfl, rfl⟩
  · intro hsize hlength
    rw [UInt64.le_iff_toNat_le, UInt64.le_iff_toNat_le, hledger.bytesDone, hledger.filesDone,
      hbytesTotal, hfilesTotal, toNat_ofNat_small hbytes hsize, toNat_ofNat_small hfiles hlength,
      toNat_ofNat_small le_rfl hsize, toNat_ofNat_small le_rfl hlength]
    refine ⟨hbytes, hfiles, fun task htask written hstage => ?_⟩
    have hmem : task.bytes ∈ job.files.tasks.map Task.bytes := List.mem_map_of_mem htask
    have hle := List.le_sum_of_mem hmem
    rwa [Task.bytes, hstage] at hle

namespace CountWitness

/-- Two files of a server, into a folder of this computer. -/
def twoFiles : Request where
  fromFs := ⟨.remote, 1⟩
  sources := ["/a", "/b"]
  toFs := ⟨.native false, 0⟩
  destination := "/d"

def file (size : Nat) : Replies where
  cancelled := false
  lstat := .ok ⟨"a", .file, size, none, 0o644, none⟩
  stat := .error .disconnected
  list := .error .disconnected

/-- A file of that name is there, and is to stay. -/
def there : Destination where
  existing := .ok (some ⟨"a", .file, 1, none, 0o644, none⟩)
  policy := .skip
  tailsMatch := .ok false

/-- Both files were found and the first one was skipped; the last event comes first. -/
def skipsOne (size : Nat) : List JobEvent :=
  [.file 0 .count, .file 0 (.decide there), .file 0 .start, .scanned, .scan (file size),
    .scan (file size)]

/-- Two files for which the server gives a size of 8 EiB: the sizes add up to 0. -/
theorem wraps : ∃ job, twoFiles.run (skipsOne (2 ^ 63)) = some job ∧
    (∀ task ∈ job.files.tasks, task.size < 2 ^ 64) ∧
    job.files.counters.bytesTotal < job.files.counters.bytesDone :=
  ⟨_, rfl, by decide, by decide⟩

/-- Two files of 3 bytes each: the one that was skipped is counted. -/
theorem skipsOne_adds_up : ∃ job, twoFiles.run (skipsOne 3) = some job ∧
    job.files.counters.bytesDone = 3 ∧ job.files.counters.bytesTotal = 6 ∧
    job.files.counters.bytesDone ≤ job.files.counters.bytesTotal :=
  ⟨_, rfl, rfl, rfl, ((@counters_add_up twoFiles (skipsOne 3) _ rfl).2 (by decide) (by decide)).1⟩

end CountWitness

end Opensesh.Transfer
