/-
Editing a remote file: local saves are uploaded after a check of the server's copy, with
others writing there, conflict answers, and sudo uploads beside them.
-/
import Opensesh.Fs
import Opensesh.Machine
import Mathlib.Data.List.Lattice
import Mathlib.Data.List.Nodup

namespace Opensesh.RemoteEdit

open List Option

/-- A file's time and size. -/
abbrev Stamp : Type := Option Int × Nat

structure File where
  content : List UInt8
  modified : Option Int

def File.stamp (file : File) : Stamp := (file.modified, file.content.length)

/-- What a stat saw: the stamp, and besides it the content and how often the file had been
written. -/
structure Seen where
  stamp : Stamp
  content : List UInt8
  writes : Nat
deriving DecidableEq

inductive Writer where
  | others
  | edit
deriving DecidableEq

/-- Why an upload didn't happen; `byOthers` tells whether somebody else had written. -/
inductive UploadError where
  | changed (byOthers : Bool)
  | fs (error : FsError)
deriving DecidableEq

inductive Kind where
  | upload (force : Bool) (known : Seen)
  | sudo
  | download
deriving DecidableEq

/-- What a task waits for. -/
inductive Phase where
  /-- An upload's check. -/
  | checking
  | reading
  /-- Whether sudo asks for a password. -/
  | ready (bytes : List UInt8)
  | writing (bytes : List UInt8)
  /-- The stat after a write. -/
  | asking (bytes : List UInt8)
  /-- A download's stat, its reading, and the writing of the copy. -/
  | looking
  | fetching (seen : Seen)
  | storing (seen : Seen) (bytes : List UInt8)
  | done (result : Except UploadError Seen)
deriving DecidableEq

structure Task where
  kind : Kind
  phase : Phase
  /-- What its check saw, and whether it has changed the file. -/
  found : Option Seen := none
  begun : Bool := false

inductive EditState where
  | downloading
  | watching
  | uploading
  | saved
  | conflict
  | denied
  | failed

/-- The first write of an upload: what its check saw, what it was to see, and what it
replaced. -/
structure Replaced where
  force : Bool
  known : Seen
  found : Option Seen
  old : List UInt8
  writes : Nat

structure State where
  /-- The edit. -/
  known : Seen := ⟨(none, 0), [], 0⟩
  state : EditState := .downloading
  watcher : Bool := false
  uploading : Bool := false
  again : Bool := false
  /-- Whether the pane is connected. -/
  connected : Bool := true
  tasks : List Task := [{ kind := .download, phase := .looking }]
  /-- The local copy, whether the watcher has seen a change, and its calls under way. -/
  copy : Option (List UInt8) := none
  changed : Bool := false
  queued : Nat := 0
  file : File
  /-- Every file that was there, who wrote (the last one first), the uploads' first writes and
  the reported conflicts. -/
  past : List File
  log : List Writer := [.others]
  replaced : List Replaced := []
  reports : List Bool := []
  /-- The overwrite answers while no upload ran, and the forced uploads. -/
  overwrites : Nat := 0
  forced : Nat := 0
  /-- Since a transfer was last started: one failed, others wrote, or a save was not watched. -/
  failed : Bool := false
  others : Bool := false
  unwatched : Bool := false
  /-- Whether two transfers ever ran at once, and one ever failed after it began to write. -/
  raced : Bool := false
  stuck : Bool := false

namespace State

/-- The edit begins, with a download. -/
def start (file : File) : State := { file, past := [file, ⟨[], none⟩] }

def seen (state : State) : Seen := ⟨state.file.stamp, state.file.content, state.log.length⟩

/-- A write; the same time and size always come with the same content. -/
def put (state : State) (writer : Writer) (file : File) : Option State :=
  if state.past.all fun other => other.stamp ≠ file.stamp || other.content = file.content then
    some { state with file, past := file :: state.past, log := writer :: state.log }
  else none

/-- A transfer starts. -/
def begins (state : State) (task : Task) : State :=
  { state with
    tasks := task :: state.tasks
    failed := false, others := false, unwatched := false
    raced := state.raced || !state.tasks.isEmpty }

def uploadEdit (state : State) (force : Bool) : State :=
  if state.uploading then { state with again := true }
  else if state.copy.isNone then state
  else if !state.connected then { state with state := .failed, failed := true }
  else
    { state.begins
        ⟨.upload force state.known, if force then .reading else .checking, none, false⟩ with
      uploading := true
      state := .uploading
      forced := if force then state.forced + 1 else state.forced }

/-- The watcher's call: the local copy changed. -/
def saved (state : State) : Option State :=
  if state.queued = 0 then none
  else some ({ state with queued := state.queued - 1 }.uploadEdit false)

/-- Whether an upload that is asked for starts at once. -/
def starts (state : State) : Bool := !state.uploading && state.copy.isSome && state.connected

def overwrite (state : State) : State :=
  { state with
    overwrites := if state.starts then state.overwrites + 1 else state.overwrites }.uploadEdit true

def discard (state : State) : State :=
  if state.connected then
    { state.begins ⟨.download, .looking, none, false⟩ with watcher := false, changed := false }
  else state

def keepWaiting (state : State) : State := { state with state := .watching }

def saveWithSudo (state : State) : State :=
  if state.connected then
    { state.begins ⟨.sudo, .reading, none, false⟩ with state := .uploading }
  else { state with state := .failed, failed := true }

/-- An upload ended, with what it returned. -/
def uploadEnded (state : State) (result : Except UploadError Seen) : State :=
  let ended := { state with uploading := false, again := false }
  match result with
  | .ok known => { ended with known, state := .saved }
  | .error (.changed byOthers) =>
    { ended with state := .conflict, failed := true, reports := byOthers :: state.reports }
  | .error (.fs (.permissionDenied _)) => { ended with state := .denied, failed := true }
  | .error (.fs _) => { ended with state := .failed, failed := true }

def sudoEnded (state : State) : Except UploadError Seen → State
  | .ok known => { state with known, state := .saved }
  | .error _ => { state with state := .failed, failed := true }

/-- A download ended; the copy is watched again when the watch can be made. -/
def downloadEnded (state : State) (watches : Bool) : Except UploadError Seen → State
  | .ok known => { state with known, watcher := watches, state := .watching }
  | .error _ => { state with state := .failed, failed := true }

def setTask (state : State) (i : Nat) (task : Task) : State :=
  { state with tasks := state.tasks.set i task }

/-- Who wrote since. -/
def since (state : State) (writes : Nat) : List Writer := state.log.take (state.log.length - writes)

def stat (state : State) (i : Nat) (task : Task) : Option State :=
  match task.kind, task.phase with
  | .upload _ known, .checking =>
    if state.file.stamp ≠ known.stamp then
      some (state.setTask i { task with
        phase := .done (.error (.changed ((state.since known.writes).contains .others))) })
    else some (state.setTask i { task with phase := .reading, found := some state.seen })
  | _, .asking _ => some (state.setTask i { task with phase := .done (.ok state.seen) })
  | .download, .looking => some (state.setTask i { task with phase := .fetching state.seen })
  | _, _ => none

def readLocal (state : State) (i : Nat) (task : Task) : Option State :=
  match task.phase, state.copy with
  | .reading, some bytes =>
    some (state.setTask i { task with
      phase := if task.kind = .sudo then .ready bytes else .writing bytes })
  | _, _ => none

def allowed (state : State) (i : Nat) (task : Task) : Option State :=
  match task.phase with
  | .ready bytes => some (state.setTask i { task with phase := .writing bytes })
  | _ => none

/-- The history of a write: an upload's first one. -/
def replacing (state : State) (task : Task) : State :=
  match task.kind with
  | .upload force known =>
    if task.begun then state
    else { state with
      replaced := ⟨force, known, task.found, state.file.content, state.log.length⟩ ::
        state.replaced }
  | _ => state

/-- While it is written the file can hold anything. -/
def part (state : State) (i : Nat) (task : Task) (file : File) : Option State := do
  match task.phase with
  | .writing _ =>
    let written ← (state.replacing task).put .edit file
    some (written.setTask i { task with begun := true })
  | _ => none

/-- The last of the bytes. -/
def whole (state : State) (i : Nat) (task : Task) (modified : Option Int) : Option State := do
  match task.phase with
  | .writing bytes =>
    let written ← (state.replacing task).put .edit ⟨bytes, modified⟩
    some (written.setTask i { task with phase := .asking bytes, begun := true })
  | _ => none

def fetch (state : State) (i : Nat) (task : Task) : Option State :=
  match task.phase with
  | .fetching seen =>
    some (state.setTask i { task with phase := .storing seen state.file.content })
  | _ => none

def store (state : State) (i : Nat) (task : Task) : Option State :=
  match task.phase with
  | .storing seen bytes =>
    some ({ state with copy := some bytes, changed := state.changed || state.watcher }.setTask i
      { task with phase := .done (.ok seen) })
  | _ => none

/-- A step fails; the copy can be left half written. -/
def fails (state : State) (i : Nat) (task : Task) (error : FsError)
    (left : Option (List UInt8)) : Option State :=
  let failed := { task with phase := .done (.error (.fs error)) }
  match task.phase with
  | .done _ => none
  | .storing .. =>
    some ({ state with copy := left, changed := state.changed || state.watcher }.setTask i failed)
  | _ => some ({ state with stuck := state.stuck || task.begun }.setTask i failed)

/-- The task's result reaches the edit. -/
def finish (state : State) (i : Nat) (task : Task) (watches : Bool) : Option State :=
  match task.phase with
  | .done result =>
    let without := { state with tasks := state.tasks.eraseIdx i }
    match task.kind with
    | .upload .. =>
      let ended := without.uploadEnded result
      some (if state.again then ended.uploadEdit false else ended)
    | .sudo => some (without.sudoEnded result)
    | .download => some (without.downloadEnded watches result)
  | _ => none

end State

inductive Event where
  | save (content : List UInt8)
  | remove
  | notice
  | saved
  | overwrite
  | discard
  | keepWaiting
  | saveWithSudo
  | connection (connected : Bool)
  | othersWrite (file : File)
  | stat (i : Nat)
  | readLocal (i : Nat)
  | allowed (i : Nat)
  | part (i : Nat) (file : File)
  | whole (i : Nat) (modified : Option Int)
  | fetch (i : Nat)
  | store (i : Nat)
  | fails (i : Nat) (error : FsError) (left : Option (List UInt8))
  | finish (i : Nat) (watches : Bool)

/-- The local copy changes. -/
def State.touched (state : State) (copy : Option (List UInt8)) : State :=
  if state.watcher then { state with copy, changed := true }
  else { state with copy, unwatched := true }

def step (state : State) : Event → Option State
  | .save content => some (state.touched (some content))
  | .remove => some (state.touched none)
  | .notice =>
    if state.watcher && state.changed then
      some { state with changed := false, queued := state.queued + 1 }
    else none
  | .saved => state.saved
  | .overwrite => some state.overwrite
  | .discard => some state.discard
  | .keepWaiting => some state.keepWaiting
  | .saveWithSudo => some state.saveWithSudo
  | .connection connected => some { state with connected }
  | .othersWrite file => { state with others := true }.put .others file
  | .stat i => state.tasks[i]?.bind fun task => state.stat i task
  | .readLocal i => state.tasks[i]?.bind fun task => state.readLocal i task
  | .allowed i => state.tasks[i]?.bind fun task => state.allowed i task
  | .part i file => state.tasks[i]?.bind fun task => state.part i task file
  | .whole i modified => state.tasks[i]?.bind fun task => state.whole i task modified
  | .fetch i => state.tasks[i]?.bind fun task => state.fetch i task
  | .store i => state.tasks[i]?.bind fun task => state.store i task
  | .fails i error left => state.tasks[i]?.bind fun task => state.fails i task error left
  | .finish i watches => state.tasks[i]?.bind fun task => state.finish i task watches

section Invariant

variable {state after : State} {i : Nat} {task : Task}

/-- A stat saw a file that was there, and unless it was written since, it is still there. -/
structure Saw (state : State) (seen : Seen) : Prop where
  past : ∃ file ∈ state.past, file.stamp = seen.stamp ∧ file.content = seen.content
  writes : seen.writes ≤ state.log.length
  still : seen.writes = state.log.length →
    state.file.stamp = seen.stamp ∧ state.file.content = seen.content

/-- Only others wrote since. -/
def OthersOnly (state : State) (seen : Seen) : Prop :=
  ∀ writer ∈ state.since seen.writes, writer = .others

/-- The stat that becomes the reference when the task ends well. -/
def Phase.holds : Phase → Option Seen
  | .fetching seen | .storing seen _ | .done (.ok seen) => some seen
  | _ => none

/-- Before the file is written. -/
def Phase.early : Phase → Bool
  | .writing _ | .asking _ | .done _ => false
  | _ => true

/-- Between the check and the end of the write. -/
def Phase.checked : Phase → Bool
  | .reading | .ready _ | .writing _ => true
  | _ => false

structure TaskKept (state : State) (task : Task) : Prop where
  known : ∀ force known, task.kind = .upload force known → Saw state known
  found : ∀ seen, task.found = some seen → Saw state seen
  holds : ∀ seen, task.phase.holds = some seen → Saw state seen
  checked : ∀ known, task.kind = .upload false known → task.phase.checked = true →
    ∃ seen, task.found = some seen ∧ seen.content = known.content
  early : task.phase.early = true → task.begun = false
  stuck : ∀ error, task.phase = .done (.error error) → task.begun = true → state.stuck = true
  report : ∀ byOthers, task.phase = .done (.error (.changed byOthers)) →
    byOthers = true ∨ state.raced = true ∨ state.stuck = true

/-- A first write follows an overwrite answer, or a check that found what the reference was
taken of; what it replaces is that, unless the file was written since the check. -/
def Replaced.Fair (replaced : Replaced) : Prop :=
  replaced.force = true ∨ ∃ seen, replaced.found = some seen ∧
    seen.content = replaced.known.content ∧
      (replaced.old = seen.content ∨ seen.writes < replaced.writes)

/-- The edit itself has not written since the stats that count. -/
structure Clean (state : State) : Prop where
  known : (∀ task ∈ state.tasks, task.begun = false) → OthersOnly state state.known
  upload : ∀ task ∈ state.tasks, task.begun = false → ∀ force known,
    task.kind = .upload force known → OthersOnly state known
  holds : ∀ task ∈ state.tasks, ∀ seen, task.phase.holds = some seen → OthersOnly state seen

structure Core (state : State) : Prop where
  file : state.file ∈ state.past
  past : ∀ file ∈ state.past, ∀ other ∈ state.past, file.stamp = other.stamp →
    file.content = other.content
  known : Saw state state.known
  tasks : ∀ task ∈ state.tasks, TaskKept state task
  replaced : ∀ replaced ∈ state.replaced, replaced.Fair
  single : state.raced = true ∨ state.tasks.length ≤ 1
  clean : state.raced = true ∨ state.stuck = true ∨ Clean state
  reports : ∀ byOthers ∈ state.reports, byOthers = true ∨ state.raced = true ∨ state.stuck = true

theorem since_start (file : File) (writes : Nat) :
    ∀ writer ∈ (State.start file).since writes, writer = .others := by
  intro writer hwriter
  exact mem_singleton.mp (mem_of_mem_take hwriter)

theorem content_of_empty {file : File} (h : file.stamp = (none, 0)) : file.content = [] :=
  eq_nil_of_length_eq_zero (Prod.mk.inj h).2

theorem core_start (file : File) : Core (State.start file) where
  file := mem_cons_self
  past := by
    -- of size 0 there is one content
    have hempty : ∀ other : File, other.stamp = File.stamp ⟨[], none⟩ → other.content = [] :=
      fun other hother => content_of_empty hother
    intro first hfirst second hsecond hstamp
    rcases mem_cons.mp hfirst with rfl | hfirst
    · rcases mem_cons.mp hsecond with rfl | hsecond
      · rfl
      · obtain rfl := mem_singleton.mp hsecond
        exact hempty _ hstamp
    · obtain rfl := mem_singleton.mp hfirst
      exact (hempty second hstamp.symm).symm
  known := ⟨⟨⟨[], none⟩, mem_cons_of_mem _ mem_cons_self, rfl, rfl⟩, Nat.zero_le _,
    fun h => absurd h (by decide : (0 : Nat) ≠ [Writer.others].length)⟩
  tasks := by
    intro task htask
    obtain rfl := mem_singleton.mp htask
    exact ⟨nofun, nofun, nofun, nofun, fun _ => rfl, nofun, nofun⟩
  replaced := fun _ hreplaced => absurd hreplaced not_mem_nil
  single := Or.inr (Nat.le_refl 1)
  clean := by
    refine Or.inr (Or.inr ⟨fun _ => since_start file _, fun task htask => ?_, fun task htask => ?_⟩)
    · obtain rfl := mem_singleton.mp htask
      exact nofun
    · obtain rfl := mem_singleton.mp htask
      exact nofun
  reports := fun _ hreport => absurd hreport not_mem_nil

/-- The server's file and the history are as they were. -/
structure SameFile (state after : State) : Prop where
  file : after.file = state.file
  past : after.past = state.past
  log : after.log = state.log
  raced : state.raced = true → after.raced = true
  stuck : state.stuck = true → after.stuck = true

theorem Saw.of_same {seen : Seen} (h : Saw state seen) (hsame : SameFile state after) :
    Saw after seen := by
  refine ⟨?_, ?_, ?_⟩
  · rw [hsame.past]
    exact h.past
  · rw [hsame.log]
    exact h.writes
  · rw [hsame.log, hsame.file]
    exact h.still

theorem OthersOnly.of_same {seen : Seen} (h : OthersOnly state seen)
    (hsame : SameFile state after) : OthersOnly after seen := by
  rw [OthersOnly, State.since, hsame.log]
  exact h

theorem TaskKept.of_same (h : TaskKept state task) (hsame : SameFile state after) :
    TaskKept after task where
  known := fun force known hkind => (h.known force known hkind).of_same hsame
  found := fun seen hfound => (h.found seen hfound).of_same hsame
  holds := fun seen hholds => (h.holds seen hholds).of_same hsame
  checked := h.checked
  early := h.early
  stuck := fun error hphase hbegun => hsame.stuck (h.stuck error hphase hbegun)
  report := fun byOthers hphase =>
    (h.report byOthers hphase).imp_right (Or.imp hsame.raced hsame.stuck)

/-- A step that changes neither the tasks nor what they are about. -/
theorem Core.of_same (h : Core state) (hsame : SameFile state after)
    (hknown : after.known = state.known) (htasks : after.tasks = state.tasks)
    (hreplaced : after.replaced = state.replaced) (hreports : after.reports = state.reports) :
    Core after where
  file := by
    rw [hsame.file, hsame.past]
    exact h.file
  past := by
    rw [hsame.past]
    exact h.past
  known := by
    rw [hknown]
    exact h.known.of_same hsame
  tasks := by
    rw [htasks]
    exact fun task htask => (h.tasks task htask).of_same hsame
  replaced := by
    rw [hreplaced]
    exact h.replaced
  single := by
    rw [htasks]
    exact h.single.imp_left hsame.raced
  clean := by
    refine h.clean.imp hsame.raced (Or.imp hsame.stuck fun hclean => ?_)
    refine ⟨?_, ?_, ?_⟩
    · rw [htasks, hknown]
      exact fun hnone => (hclean.known hnone).of_same hsame
    · rw [htasks]
      exact fun task htask hbegun force known hkind =>
        (hclean.upload task htask hbegun force known hkind).of_same hsame
    · rw [htasks]
      exact fun task htask seen hholds => (hclean.holds task htask seen hholds).of_same hsame
  reports := by
    rw [hreports]
    exact fun byOthers hreport =>
      (h.reports byOthers hreport).imp_right (Or.imp hsame.raced hsame.stuck)

/-- With no two transfers at once, a task is the only one. -/
theorem tasks_eq (hsingle : state.tasks.length ≤ 1) (hi : state.tasks[i]? = some task) :
    state.tasks = [task] ∧ i = 0 := by
  cases htasks : state.tasks with
  | nil =>
    rw [htasks] at hi
    cases hi
  | cons first rest =>
    rw [htasks] at hsingle hi
    obtain rfl : rest = [] := length_eq_zero_iff.mp (Nat.le_zero.mp
      (Nat.le_of_succ_le_succ hsingle))
    cases i with
    | zero => exact ⟨congrArg (· :: []) (some.inj hi), rfl⟩
    | succ i => cases hi

/-- A task that was just made. -/
structure Fresh (state : State) (task : Task) : Prop where
  begun : task.begun = false
  found : task.found = none
  holds : task.phase.holds = none
  known : ∀ force known, task.kind = .upload force known → known = state.known
  checked : ∀ known, task.kind = .upload false known → task.phase.checked = false
  going : ∀ result, task.phase ≠ .done result

theorem Core.begins (h : Core state) (hfresh : Fresh state task) : Core (state.begins task) := by
  have hsame : SameFile state (state.begins task) :=
    ⟨rfl, rfl, rfl, fun hraced => by rw [State.begins, hraced]; rfl, id⟩
  refine ⟨h.file, h.past, h.known.of_same hsame, fun other hother => ?_, h.replaced, ?_, ?_,
    fun byOthers hreport => (h.reports byOthers hreport).imp_right (Or.imp hsame.raced id)⟩
  · rcases mem_cons.mp hother with rfl | hold
    · refine ⟨fun force known hkind => ?_, fun seen hfound => ?_, fun seen hholds => ?_,
        fun known hkind hchecked => ?_, fun _ => hfresh.begun, fun error hdone => ?_,
        fun byOthers hdone => absurd hdone (hfresh.going _)⟩
      · rw [hfresh.known force known hkind]
        exact h.known.of_same hsame
      · rw [hfresh.found] at hfound
        cases hfound
      · rw [hfresh.holds] at hholds
        cases hholds
      · rw [hfresh.checked known hkind] at hchecked
        cases hchecked
      · exact absurd hdone (hfresh.going _)
    · exact (h.tasks other hold).of_same hsame
  · cases htasks : state.tasks with
    | nil => exact Or.inr (by rw [State.begins, htasks]; exact Nat.le_refl 1)
    | cons first rest => exact Or.inl (by rw [State.begins, htasks]; exact Bool.or_true _)
  · cases htasks : state.tasks with
    | cons first rest => exact Or.inl (by rw [State.begins, htasks]; exact Bool.or_true _)
    | nil =>
      refine h.clean.imp hsame.raced (Or.imp id fun hclean => ?_)
      have hknown : OthersOnly (state.begins task) state.known := by
        refine (hclean.known fun other hother => ?_).of_same hsame
        rw [htasks] at hother
        exact absurd hother not_mem_nil
      refine ⟨fun _ => hknown, fun other hother _ force known hkind => ?_,
        fun other hother seen hholds => ?_⟩
      · rw [State.begins, htasks] at hother
        obtain rfl := mem_singleton.mp hother
        rw [hfresh.known force known hkind]
        exact hknown
      · rw [State.begins, htasks] at hother
        obtain rfl := mem_singleton.mp hother
        rw [hfresh.holds] at hholds
        cases hholds

theorem setTask_singleton {next : Task} (htasks : state.tasks = [task]) :
    (state.setTask 0 next).tasks = [next] := by
  rw [State.setTask, htasks]
  rfl

/-- A task goes on, and the file is not written. -/
theorem Core.set_task {next : Task} (h : Core state) (hi : state.tasks[i]? = some task)
    (hkind : next.kind = task.kind) (hbegun : next.begun = task.begun) (hkept : TaskKept state next)
    (hholds : Clean state → ∀ seen, next.phase.holds = some seen → OthersOnly state seen) :
    Core (state.setTask i next) := by
  have hsame : SameFile state (state.setTask i next) := ⟨rfl, rfl, rfl, id, id⟩
  refine ⟨h.file, h.past, h.known.of_same hsame, fun other hother => ?_, h.replaced,
    h.single.imp_right fun hle => ?_, ?_, h.reports⟩
  · rcases mem_or_eq_of_mem_set hother with hold | rfl
    · exact (h.tasks other hold).of_same hsame
    · exact hkept.of_same hsame
  · exact Nat.le_trans (Nat.le_of_eq length_set) hle
  · rcases h.single with hraced | hsingle
    · exact Or.inl hraced
    · obtain ⟨htasks, rfl⟩ := tasks_eq hsingle hi
      have hnext : (state.setTask 0 next).tasks = [next] := setTask_singleton htasks
      refine h.clean.imp_right (Or.imp_right fun hclean => ⟨fun hnone => ?_, ?_, ?_⟩)
      · rw [hnext] at hnone
        refine (hclean.known fun other hother => ?_).of_same hsame
        rw [htasks] at hother
        obtain rfl := mem_singleton.mp hother
        exact hbegun.symm.trans (hnone next mem_cons_self)
      · rw [hnext]
        intro other hother hfree force known hother'
        obtain rfl := mem_singleton.mp hother
        refine (hclean.upload task ?_ (hbegun.symm.trans hfree) force known
          (hkind.symm.trans hother')).of_same hsame
        rw [htasks]
        exact mem_cons_self
      · rw [hnext]
        intro other hother seen hseen
        obtain rfl := mem_singleton.mp hother
        exact (hholds hclean seen hseen).of_same hsame

variable {writer : Writer} {modified : Option Int} {phase : Phase} {known : Seen}
  {result : Except UploadError Seen} {watches : Bool}

theorem put_eq_some {file : File} (h : state.put writer file = some after) :
    (∀ other ∈ state.past, other.stamp = file.stamp → other.content = file.content) ∧
      after = { state with file, past := file :: state.past, log := writer :: state.log } := by
  rw [State.put] at h
  split at h
  · rename_i hall
    refine ⟨fun other hother hstamp => ?_, (some.inj h).symm⟩
    have hone := all_eq_true.mp hall other hother
    rw [Bool.or_eq_true, decide_eq_true_iff, decide_eq_true_iff] at hone
    exact hone.resolve_left fun hne => hne hstamp
  · cases h

theorem Saw.put {seen : Seen} {file : File} (h : Saw state seen)
    (hput : state.put writer file = some after) : Saw after seen := by
  obtain ⟨-, rfl⟩ := put_eq_some hput
  obtain ⟨old, hold, hstamp⟩ := h.past
  refine ⟨⟨old, mem_cons_of_mem _ hold, hstamp⟩, Nat.le_succ_of_le h.writes, fun heq => ?_⟩
  exact absurd (heq ▸ h.writes) (Nat.not_succ_le_self _)

theorem TaskKept.put {file : File} (h : TaskKept state task)
    (hput : state.put writer file = some after) : TaskKept after task := by
  have hsame := (put_eq_some hput).2
  refine ⟨fun force known hkind => (h.known force known hkind).put hput,
    fun seen hfound => (h.found seen hfound).put hput,
    fun seen hholds => (h.holds seen hholds).put hput, h.checked, h.early, ?_, ?_⟩
  · rw [hsame]
    exact h.stuck
  · rw [hsame]
    exact h.report

/-- One more write of somebody else. -/
theorem OthersOnly.put {seen : Seen} {file : File} (h : OthersOnly state seen)
    (hput : state.put .others file = some after) : OthersOnly after seen := by
  obtain ⟨-, rfl⟩ := put_eq_some hput
  intro writer hwriter
  rw [State.since] at hwriter
  change writer ∈ (Writer.others :: state.log).take (state.log.length + 1 - seen.writes) at hwriter
  by_cases hle : seen.writes ≤ state.log.length
  · rw [Nat.sub_add_comm hle, take_succ_cons] at hwriter
    rcases mem_cons.mp hwriter with rfl | hold
    · rfl
    · exact h writer hold
  · rw [Nat.sub_eq_zero_of_le (Nat.lt_of_not_le hle)] at hwriter
    cases hwriter

/-- What a write keeps, whoever writes. -/
theorem past_put {file : File} (h : Core state) (hput : state.put writer file = some after) :
    after.file ∈ after.past ∧ ∀ first ∈ after.past, ∀ second ∈ after.past,
      first.stamp = second.stamp → first.content = second.content := by
  obtain ⟨hpast, rfl⟩ := put_eq_some hput
  refine ⟨mem_cons_self, fun first hfirst second hsecond hstamp => ?_⟩
  rcases mem_cons.mp hfirst with hnew | hold
  · rcases mem_cons.mp hsecond with hsame | hother
    · rw [hnew, hsame]
    · rw [hnew] at hstamp ⊢
      exact (hpast second hother hstamp.symm).symm
  · rcases mem_cons.mp hsecond with hsame | hother
    · rw [hsame] at hstamp ⊢
      exact hpast first hold hstamp
    · exact h.past first hold second hother hstamp

theorem core_others {file : File} (h : Core state)
    (hput : state.put .others file = some after) : Core after := by
  obtain ⟨hfile, hpast⟩ := past_put h hput
  have hsame := (put_eq_some hput).2
  refine ⟨hfile, hpast, ?_, ?_, ?_, ?_, ?_, ?_⟩
  · have hknown := h.known.put hput
    rwa [hsame] at hknown ⊢
  · have htasks : after.tasks = state.tasks := by rw [hsame]
    rw [htasks]
    exact fun task htask => (h.tasks task htask).put hput
  · rw [hsame]
    exact h.replaced
  · rw [hsame]
    exact h.single
  · have hclean := h.clean
    have hraced : after.raced = state.raced := by rw [hsame]
    have hstuck : after.stuck = state.stuck := by rw [hsame]
    have htasks : after.tasks = state.tasks := by rw [hsame]
    have hknown : after.known = state.known := by rw [hsame]
    rw [hraced, hstuck]
    refine hclean.imp_right (Or.imp_right fun hclean => ⟨?_, ?_, ?_⟩)
    · rw [htasks, hknown]
      exact fun hnone => (hclean.known hnone).put hput
    · rw [htasks]
      exact fun task htask hbegun force known hkind =>
        (hclean.upload task htask hbegun force known hkind).put hput
    · rw [htasks]
      exact fun task htask seen hholds => (hclean.holds task htask seen hholds).put hput
  · rw [hsame]
    exact h.reports

/-- What an upload is about to replace is what its check found, unless it was written since. -/
theorem core_replacing (h : Core state) (htask : task ∈ state.tasks)
    (hchecked : task.phase.checked = true) : Core (state.replacing task) := by
  rw [State.replacing]
  split
  · rename_i force known hkind
    split
    · exact h
    · have hsame : SameFile state { state with
          replaced := ⟨force, known, task.found, state.file.content, state.log.length⟩ ::
            state.replaced } := ⟨rfl, rfl, rfl, id, id⟩
      refine ⟨h.file, h.past, h.known.of_same hsame,
        fun other hother => (h.tasks other hother).of_same hsame, fun replaced hreplaced => ?_,
        h.single, h.clean.imp_right (Or.imp_right fun hclean =>
          ⟨hclean.known, hclean.upload, hclean.holds⟩), h.reports⟩
      rcases mem_cons.mp hreplaced with rfl | hold
      · have hkept := h.tasks task htask
        cases force with
        | true => exact Or.inl rfl
        | false =>
          obtain ⟨seen, hfound, hcontent⟩ := hkept.checked known hkind hchecked
          have hsaw := hkept.found seen hfound
          refine Or.inr ⟨seen, hfound, hcontent, ?_⟩
          rcases Nat.lt_or_eq_of_le hsaw.writes with hlt | heq
          · exact Or.inr hlt
          · exact Or.inl (hsaw.still heq).2
      · exact h.replaced replaced hold
  · exact h

theorem replacing_same (state : State) (task : Task) :
    (state.replacing task).tasks = state.tasks ∧ (state.replacing task).file = state.file ∧
      (state.replacing task).copy = state.copy := by
  rw [State.replacing]
  split
  · split <;> exact ⟨rfl, rfl, rfl⟩
  · exact ⟨rfl, rfl, rfl⟩

theorem core_write {next : Task} {file : File} (h : Core state)
    (hput : state.put .edit file = some after) (hi : state.tasks[i]? = some task)
    (hkind : next.kind = task.kind) (hfound : next.found = task.found)
    (hbegun : next.begun = true) (hholds : next.phase.holds = none)
    (hchecked : next.phase.checked = true → task.phase.checked = true)
    (hearly : next.phase.early = false) (hgoing : ∀ result, next.phase ≠ .done result) :
    Core (after.setTask i next) := by
  obtain ⟨hfile, hpast⟩ := past_put h hput
  have hold : task ∈ state.tasks := mem_of_getElem? hi
  have hkept := (h.tasks task hold).put hput
  have hsame : SameFile after (after.setTask i next) := ⟨rfl, rfl, rfl, id, id⟩
  have hafter := (put_eq_some hput).2
  have htasks : after.tasks = state.tasks := by rw [hafter]
  refine ⟨hfile, hpast, ?_, fun other hother => ?_, ?_, ?_, ?_, ?_⟩
  · have hknown := h.known.put hput
    refine Saw.of_same ?_ hsame
    rwa [hafter] at hknown ⊢
  · rcases mem_or_eq_of_mem_set hother with hmem | rfl
    · rw [htasks] at hmem
      exact ((h.tasks other hmem).put hput).of_same hsame
    · refine TaskKept.of_same ⟨?_, ?_, ?_, ?_, ?_, ?_, ?_⟩ hsame
      · rw [hkind]
        exact hkept.known
      · rw [hfound]
        exact hkept.found
      · intro seen hseen
        rw [hholds] at hseen
        cases hseen
      · rw [hkind, hfound]
        exact fun known hupload hyes => hkept.checked known hupload (hchecked hyes)
      · intro hyes
        rw [hearly] at hyes
        cases hyes
      · exact fun error hdone => absurd hdone (hgoing _)
      · exact fun byOthers hdone => absurd hdone (hgoing _)
  · change ∀ replaced ∈ after.replaced, replaced.Fair
    rw [hafter]
    exact h.replaced
  · refine Or.imp ?_ ?_ h.single
    · intro hraced
      change after.raced = true
      rw [hafter]
      exact hraced
    · intro hle
      change (after.tasks.set i next).length ≤ 1
      rw [length_set, htasks]
      exact hle
  · rcases h.single with hraced | hsingle
    · refine Or.inl ?_
      change after.raced = true
      rw [hafter]
      exact hraced
    · -- the only task has begun, and holds no stat
      refine Or.inr (Or.inr ?_)
      obtain ⟨heq, rfl⟩ := tasks_eq hsingle hi
      have hnext : (after.setTask 0 next).tasks = [next] := setTask_singleton (htasks.trans heq)
      refine ⟨fun hnone => ?_, fun other hother hfree => ?_, fun other hother seen hseen => ?_⟩
      · rw [hnext] at hnone
        have hfree := hnone next mem_cons_self
        rw [hbegun] at hfree
        cases hfree
      · rw [hnext] at hother
        obtain rfl := mem_singleton.mp hother
        rw [hbegun] at hfree
        cases hfree
      · rw [hnext] at hother
        obtain rfl := mem_singleton.mp hother
        rw [hholds] at hseen
        cases hseen
  · change ∀ byOthers ∈ after.reports, _ ∨ after.raced = true ∨ after.stuck = true
    rw [hafter]
    exact h.reports

theorem core_part {file : File} (h : Core state) (hi : state.tasks[i]? = some task)
    (hpart : state.part i task file = some after) : Core after := by
  rw [State.part] at hpart
  split at hpart
  · rename_i bytes hphase
    obtain ⟨written, hput, hafter⟩ := bind_eq_some_iff.mp hpart
    obtain rfl := some.inj hafter
    have hchecked : task.phase.checked = true := by
      rw [hphase]
      rfl
    have hreplacing := core_replacing h (mem_of_getElem? hi) hchecked
    have hsame : (state.replacing task).tasks[i]? = some task := by
      rw [(replacing_same state task).1]
      exact hi
    refine core_write hreplacing hput hsame rfl rfl rfl ?_ id ?_ ?_
    · rw [hphase]
      rfl
    · rw [hphase]
      rfl
    · rw [hphase]
      exact nofun
  · cases hpart

theorem core_whole (h : Core state) (hi : state.tasks[i]? = some task)
    (hwhole : state.whole i task modified = some after) : Core after := by
  rw [State.whole] at hwhole
  split at hwhole
  · rename_i bytes hphase
    obtain ⟨written, hput, hafter⟩ := bind_eq_some_iff.mp hwhole
    obtain rfl := some.inj hafter
    have hchecked : task.phase.checked = true := by
      rw [hphase]
      rfl
    have hreplacing := core_replacing h (mem_of_getElem? hi) hchecked
    have hsame : (state.replacing task).tasks[i]? = some task := by
      rw [(replacing_same state task).1]
      exact hi
    exact core_write hreplacing hput hsame rfl rfl rfl rfl nofun rfl nofun
  · cases hwhole

theorem Core.saw_seen (h : Core state) : Saw state state.seen :=
  ⟨⟨state.file, h.file, rfl, rfl⟩, Nat.le_refl _, fun _ => ⟨rfl, rfl⟩⟩

theorem othersOnly_seen (state : State) : OthersOnly state state.seen := by
  intro writer hwriter
  rw [State.since, State.seen, Nat.sub_self] at hwriter
  cases hwriter

/-- A check that finds another file: it was written since, and not by the edit. -/
theorem Core.changed {known : Seen} (h : Core state) (hsaw : Saw state known)
    (hclean : Clean state → OthersOnly state known) (hstamp : state.file.stamp ≠ known.stamp) :
    (state.since known.writes).contains .others = true ∨ state.raced = true ∨
      state.stuck = true := by
  rcases h.clean with hraced | hstuck | hown
  · exact Or.inr (Or.inl hraced)
  · exact Or.inr (Or.inr hstuck)
  · refine Or.inl ?_
    have hless : known.writes < state.log.length :=
      Nat.lt_of_le_of_ne hsaw.writes fun heq => hstamp (hsaw.still heq).1
    have hlength : 0 < (state.since known.writes).length := by
      rw [State.since, length_take]
      omega
    obtain ⟨writer, hwriter⟩ := exists_mem_of_length_pos hlength
    have hothers := hclean hown writer hwriter
    rw [contains_iff_mem]
    exact hothers ▸ hwriter

/-- A phase before the write that knows no more than the one before it. -/
theorem TaskKept.with_phase (h : TaskKept state task)
    (hholds : ∀ seen, phase.holds = some seen → Saw state seen)
    (hchecked : phase.checked = true → task.phase.checked = true)
    (hearly : phase.early = true → task.phase.early = true)
    (hstuck : ∀ error, phase = .done (.error error) → task.begun = true → state.stuck = true)
    (hreport : ∀ byOthers, phase = .done (.error (.changed byOthers)) →
      byOthers = true ∨ state.raced = true ∨ state.stuck = true) :
    TaskKept state { task with phase } where
  known := h.known
  found := h.found
  holds := hholds
  checked := fun known hkind hyes => h.checked known hkind (hchecked hyes)
  early := fun hyes => h.early (hearly hyes)
  stuck := hstuck
  report := hreport

theorem core_stat (h : Core state) (hi : state.tasks[i]? = some task)
    (hstat : state.stat i task = some after) : Core after := by
  have hmem := mem_of_getElem? hi
  have hkept := h.tasks task hmem
  rw [State.stat] at hstat
  split at hstat
  · rename_i force known hkind hphase
    have hsaw := hkept.known force known hkind
    have hfree : task.begun = false := hkept.early (by rw [hphase]; rfl)
    split at hstat
    · rename_i hstamp
      obtain rfl := some.inj hstat
      have hchanged := h.changed hsaw
        (fun hclean => hclean.upload task hmem hfree force known hkind) hstamp
      refine h.set_task hi rfl rfl (hkept.with_phase nofun nofun nofun ?_ ?_) fun _ => nofun
      · intro error _ hbegun
        rw [hfree] at hbegun
        cases hbegun
      · rintro byOthers ⟨⟩
        exact hchanged
    · rename_i hstamp
      obtain rfl := some.inj hstat
      rw [Decidable.not_not] at hstamp
      refine h.set_task hi rfl rfl ⟨hkept.known, ?_, nofun, ?_, fun _ => hfree, nofun, nofun⟩
        fun _ => nofun
      · rintro seen ⟨⟩
        exact h.saw_seen
      · -- the same time and size, so the same content
        intro other hother _
        obtain rfl := (Kind.upload.inj (hkind.symm.trans hother)).2
        obtain ⟨old, hold, hsame, hcontent⟩ := hsaw.past
        refine ⟨state.seen, rfl, ?_⟩
        rw [← hcontent]
        exact h.past state.file h.file old hold (hstamp.trans hsame.symm)
  · rename_i bytes hphase
    obtain rfl := some.inj hstat
    refine h.set_task hi rfl rfl (hkept.with_phase ?_ nofun nofun nofun nofun) fun _ => ?_
    · rintro seen ⟨⟩
      exact h.saw_seen
    · rintro seen ⟨⟩
      exact othersOnly_seen state
  · rename_i hkind hphase
    obtain rfl := some.inj hstat
    refine h.set_task hi rfl rfl (hkept.with_phase ?_ nofun ?_ nofun nofun) fun _ => ?_
    · rintro seen ⟨⟩
      exact h.saw_seen
    · intro _
      rw [hphase]
      rfl
    · rintro seen ⟨⟩
      exact othersOnly_seen state
  · cases hstat

theorem core_readLocal (h : Core state) (hi : state.tasks[i]? = some task)
    (hread : state.readLocal i task = some after) : Core after := by
  have hkept := h.tasks task (mem_of_getElem? hi)
  rw [State.readLocal] at hread
  split at hread
  · rename_i bytes hphase hcopy
    obtain rfl := some.inj hread
    split
    · refine h.set_task hi rfl rfl (hkept.with_phase nofun ?_ ?_ nofun nofun) fun _ => nofun
      all_goals
        intro _
        rw [hphase]
        rfl
    · refine h.set_task hi rfl rfl (hkept.with_phase nofun ?_ nofun nofun nofun) fun _ => nofun
      intro _
      rw [hphase]
      rfl
  · cases hread

theorem core_allowed (h : Core state) (hi : state.tasks[i]? = some task)
    (hallowed : state.allowed i task = some after) : Core after := by
  have hkept := h.tasks task (mem_of_getElem? hi)
  rw [State.allowed] at hallowed
  split at hallowed
  · rename_i bytes hphase
    obtain rfl := some.inj hallowed
    refine h.set_task hi rfl rfl (hkept.with_phase nofun ?_ nofun nofun nofun) fun _ => nofun
    intro _
    rw [hphase]
    rfl
  · cases hallowed

theorem Core.same_stat (h : Core state) (hi : state.tasks[i]? = some task)
    (hholds : phase.holds = task.phase.holds) (hchecked : phase.checked = false)
    (hearly : phase.early = true → task.phase.early = true)
    (hdone : ∀ error, phase ≠ .done (.error error)) :
    Core (state.setTask i { task with phase }) := by
  have hmem := mem_of_getElem? hi
  have hkept := h.tasks task hmem
  refine h.set_task hi rfl rfl (hkept.with_phase ?_ ?_ hearly ?_ ?_) fun hclean => ?_
  · rw [hholds]
    exact hkept.holds
  · intro hyes
    rw [hchecked] at hyes
    cases hyes
  · exact fun error heq => absurd heq (hdone error)
  · exact fun byOthers heq => absurd heq (hdone _)
  · rw [hholds]
    exact hclean.holds task hmem

theorem core_fetch (h : Core state) (hi : state.tasks[i]? = some task)
    (hfetch : state.fetch i task = some after) : Core after := by
  rw [State.fetch] at hfetch
  split at hfetch
  · rename_i seen hphase
    obtain rfl := some.inj hfetch
    refine h.same_stat hi ?_ rfl ?_ nofun
    · rw [hphase]
      rfl
    · intro _
      rw [hphase]
      rfl
  · cases hfetch

theorem Core.with_copy (h : Core state) (copy : Option (List UInt8)) (changed : Bool) :
    Core { state with copy, changed } :=
  h.of_same ⟨rfl, rfl, rfl, id, id⟩ rfl rfl rfl rfl

theorem core_store (h : Core state) (hi : state.tasks[i]? = some task)
    (hstore : state.store i task = some after) : Core after := by
  rw [State.store] at hstore
  split at hstore
  · rename_i seen bytes hphase
    obtain rfl := some.inj hstore
    refine (h.with_copy (some bytes) (state.changed || state.watcher)).same_stat hi ?_ rfl nofun
      nofun
    rw [hphase]
    rfl
  · cases hstore

theorem core_fails {error : FsError} {left : Option (List UInt8)} (h : Core state)
    (hi : state.tasks[i]? = some task) (hfails : state.fails i task error left = some after) :
    Core after := by
  have hmem := mem_of_getElem? hi
  rw [State.fails] at hfails
  split at hfails
  · cases hfails
  · rename_i seen bytes hphase
    obtain rfl := some.inj hfails
    have hcopied := h.with_copy left (state.changed || state.watcher)
    have hkept := hcopied.tasks task hmem
    refine hcopied.set_task hi rfl rfl (hkept.with_phase nofun nofun nofun ?_ nofun) fun _ => nofun
    intro _ _ hbegun
    have hfree := hkept.early (by rw [hphase]; rfl)
    rw [hfree] at hbegun
    cases hbegun
  · obtain rfl := some.inj hfails
    have hstuck : Core { state with stuck := state.stuck || task.begun } :=
      h.of_same ⟨rfl, rfl, rfl, id, fun hold => by
        change (state.stuck || task.begun) = true
        rw [hold]
        rfl⟩ rfl rfl rfl rfl
    have hkept := hstuck.tasks task hmem
    refine hstuck.set_task hi rfl rfl (hkept.with_phase nofun nofun nofun ?_ nofun) fun _ => nofun
    intro _ _ hbegun
    change (state.stuck || task.begun) = true
    rw [hbegun]
    exact Bool.or_true _

/-- A task is over, with the reference that is left. -/
theorem Core.erase (h : Core state) (hi : state.tasks[i]? = some task) (hsaw : Saw state known)
    (hothers : state.tasks = [task] → Clean state → state.stuck = true ∨ OthersOnly state known) :
    Core { state with tasks := state.tasks.eraseIdx i, known } := by
  have hsame : SameFile state { state with tasks := state.tasks.eraseIdx i, known } :=
    ⟨rfl, rfl, rfl, id, id⟩
  refine ⟨h.file, h.past, hsaw.of_same hsame, fun other hother => ?_, h.replaced,
    h.single.imp_right fun hle => ?_, ?_, h.reports⟩
  · exact (h.tasks other (mem_of_mem_eraseIdx hother)).of_same hsame
  · exact Nat.le_trans (length_eraseIdx_le _ _) hle
  · rcases h.single with hraced | hsingle
    · exact Or.inl hraced
    · obtain ⟨htasks, rfl⟩ := tasks_eq hsingle hi
      have hnone : state.tasks.eraseIdx 0 = [] := by
        rw [htasks]
        rfl
      refine h.clean.imp_right ?_
      rintro (hstuck | hclean)
      · exact Or.inl hstuck
      · refine (hothers htasks hclean).imp_right fun hknown => ?_
        rw [hnone]
        exact ⟨fun _ => hknown.of_same ⟨rfl, rfl, rfl, id, id⟩,
          fun _ hmem => absurd hmem not_mem_nil, fun _ hmem => absurd hmem not_mem_nil⟩

/-- The reference after a task. -/
def reference (known : Seen) : Except UploadError Seen → Seen
  | .ok known => known
  | .error _ => known

theorem core_over (h : Core state) (hi : state.tasks[i]? = some task)
    (hphase : task.phase = .done result) :
    Core { state with
      tasks := state.tasks.eraseIdx i, known := reference state.known result } := by
  have hmem := mem_of_getElem? hi
  have hkept := h.tasks task hmem
  cases result with
  | ok known =>
    have hholds : task.phase.holds = some known := by
      rw [hphase]
      rfl
    exact h.erase hi (hkept.holds known hholds) fun _ hclean =>
      Or.inr (hclean.holds task hmem known hholds)
  | error error =>
    refine h.erase hi h.known fun htasks hclean => ?_
    cases hbegun : task.begun with
    | true => exact Or.inl (hkept.stuck error hphase hbegun)
    | false =>
      refine Or.inr (hclean.known fun other hother => ?_)
      rw [htasks] at hother
      obtain rfl := mem_singleton.mp hother
      exact hbegun

theorem fresh_upload (force : Bool) :
    Fresh state ⟨.upload force state.known, if force then .reading else .checking, none, false⟩ where
  begun := rfl
  found := rfl
  holds := by cases force <;> rfl
  known := by
    rintro force known ⟨⟩
    rfl
  checked := by
    rintro known ⟨⟩
    rfl
  going := by cases force <;> exact nofun

theorem core_uploadEdit (h : Core state) (force : Bool) : Core (state.uploadEdit force) := by
  rw [State.uploadEdit]
  split
  · exact h.of_same ⟨rfl, rfl, rfl, id, id⟩ rfl rfl rfl rfl
  · split
    · exact h
    · split
      · exact h.of_same ⟨rfl, rfl, rfl, id, id⟩ rfl rfl rfl rfl
      · exact (h.begins (fresh_upload force)).of_same ⟨rfl, rfl, rfl, id, id⟩ rfl rfl rfl rfl

theorem core_uploadEnded {without : State}
    (h : Core { without with known := reference without.known result })
    (hreport : ∀ byOthers, result = .error (.changed byOthers) →
      byOthers = true ∨ without.raced = true ∨ without.stuck = true) :
    Core (without.uploadEnded result) := by
  cases result with
  | ok known => exact h.of_same ⟨rfl, rfl, rfl, id, id⟩ rfl rfl rfl rfl
  | error error =>
    cases error with
    | changed byOthers =>
      have hended : Core { without with
          uploading := false, again := false, state := .conflict, failed := true } :=
        h.of_same ⟨rfl, rfl, rfl, id, id⟩ rfl rfl rfl rfl
      refine ⟨hended.file, hended.past, hended.known.of_same ⟨rfl, rfl, rfl, id, id⟩,
        fun other hother => (hended.tasks other hother).of_same ⟨rfl, rfl, rfl, id, id⟩,
        hended.replaced, hended.single, hended.clean.imp_right (Or.imp_right fun hclean =>
          ⟨hclean.known, hclean.upload, hclean.holds⟩), fun other hother => ?_⟩
      rcases mem_cons.mp hother with rfl | hold
      · exact hreport _ rfl
      · exact h.reports other hold
    | fs error => cases error <;> exact h.of_same ⟨rfl, rfl, rfl, id, id⟩ rfl rfl rfl rfl

theorem core_finish (h : Core state) (hi : state.tasks[i]? = some task)
    (hfinish : state.finish i task watches = some after) : Core after := by
  have hkept := h.tasks task (mem_of_getElem? hi)
  rw [State.finish] at hfinish
  split at hfinish
  · rename_i result hphase
    have hover := core_over h hi hphase
    dsimp only at hfinish
    split at hfinish
    · obtain rfl := some.inj hfinish
      have hended : Core (State.uploadEnded
          { state with tasks := state.tasks.eraseIdx i } result) :=
        core_uploadEnded hover fun byOthers heq => hkept.report byOthers (heq ▸ hphase)
      split
      · exact core_uploadEdit hended false
      · exact hended
    · obtain rfl := some.inj hfinish
      cases result <;> exact hover.of_same ⟨rfl, rfl, rfl, id, id⟩ rfl rfl rfl rfl
    · obtain rfl := some.inj hfinish
      cases result <;> exact hover.of_same ⟨rfl, rfl, rfl, id, id⟩ rfl rfl rfl rfl
  · cases hfinish

theorem fresh_download : Fresh state ⟨.download, .looking, none, false⟩ :=
  ⟨rfl, rfl, rfl, by rintro force known ⟨⟩, by rintro known ⟨⟩, by rintro result ⟨⟩⟩

theorem fresh_sudo : Fresh state ⟨.sudo, .reading, none, false⟩ :=
  ⟨rfl, rfl, rfl, by rintro force known ⟨⟩, by rintro known ⟨⟩, by rintro result ⟨⟩⟩

theorem core_step {event : Event} (h : Core state) (hstep : step state event = some after) :
    Core after := by
  cases event with
  | save content | remove =>
    obtain rfl := some.inj hstep
    rw [State.touched]
    split <;> exact h.of_same ⟨rfl, rfl, rfl, id, id⟩ rfl rfl rfl rfl
  | notice =>
    rw [step] at hstep
    split at hstep
    · obtain rfl := some.inj hstep
      exact h.of_same ⟨rfl, rfl, rfl, id, id⟩ rfl rfl rfl rfl
    · cases hstep
  | saved =>
    rw [step, State.saved] at hstep
    split at hstep
    · cases hstep
    · obtain rfl := some.inj hstep
      have hless : Core { state with queued := state.queued - 1 } :=
        h.of_same ⟨rfl, rfl, rfl, id, id⟩ rfl rfl rfl rfl
      exact core_uploadEdit hless false
  | overwrite =>
    obtain rfl := some.inj hstep
    have hanswered : ∀ overwrites, Core { state with overwrites } := fun _ =>
      h.of_same ⟨rfl, rfl, rfl, id, id⟩ rfl rfl rfl rfl
    exact core_uploadEdit (hanswered _) true
  | discard =>
    obtain rfl := some.inj hstep
    rw [State.discard]
    split
    · exact (h.begins fresh_download).of_same ⟨rfl, rfl, rfl, id, id⟩ rfl rfl rfl rfl
    · exact h
  | keepWaiting =>
    obtain rfl := some.inj hstep
    exact h.of_same ⟨rfl, rfl, rfl, id, id⟩ rfl rfl rfl rfl
  | saveWithSudo =>
    obtain rfl := some.inj hstep
    rw [State.saveWithSudo]
    split
    · exact (h.begins fresh_sudo).of_same ⟨rfl, rfl, rfl, id, id⟩ rfl rfl rfl rfl
    · exact h.of_same ⟨rfl, rfl, rfl, id, id⟩ rfl rfl rfl rfl
  | connection connected =>
    obtain rfl := some.inj hstep
    exact h.of_same ⟨rfl, rfl, rfl, id, id⟩ rfl rfl rfl rfl
  | othersWrite file =>
    have hothers : Core { state with others := true } :=
      h.of_same ⟨rfl, rfl, rfl, id, id⟩ rfl rfl rfl rfl
    exact core_others hothers hstep
  | stat i =>
    obtain ⟨task, hi, htask⟩ := bind_eq_some_iff.mp hstep
    exact core_stat h hi htask
  | readLocal i =>
    obtain ⟨task, hi, htask⟩ := bind_eq_some_iff.mp hstep
    exact core_readLocal h hi htask
  | allowed i =>
    obtain ⟨task, hi, htask⟩ := bind_eq_some_iff.mp hstep
    exact core_allowed h hi htask
  | part i file =>
    obtain ⟨task, hi, htask⟩ := bind_eq_some_iff.mp hstep
    exact core_part h hi htask
  | whole i modified =>
    obtain ⟨task, hi, htask⟩ := bind_eq_some_iff.mp hstep
    exact core_whole h hi htask
  | fetch i =>
    obtain ⟨task, hi, htask⟩ := bind_eq_some_iff.mp hstep
    exact core_fetch h hi htask
  | store i =>
    obtain ⟨task, hi, htask⟩ := bind_eq_some_iff.mp hstep
    exact core_store h hi htask
  | fails i error left =>
    obtain ⟨task, hi, htask⟩ := bind_eq_some_iff.mp hstep
    exact core_fails h hi htask
  | finish i watches =>
    obtain ⟨task, hi, htask⟩ := bind_eq_some_iff.mp hstep
    exact core_finish h hi htask

def Kind.isUpload : Kind → Bool
  | .upload .. => true
  | _ => false

/-- What a task has of the copy: its bytes, and once it has written also the server. -/
def Phase.Sound (copy : Option (List UInt8)) (content : List UInt8) : Phase → Prop
  | .ready bytes | .writing bytes => copy = some bytes
  | .asking bytes => copy = some bytes ∧ content = bytes
  | .done (.ok _) => copy = some content
  | _ => True

/-- The server holds the copy, or the only task brings it there. -/
def Sound (state : State) : Prop :=
  match state.tasks with
  | [] => state.copy = some state.file.content
  | task :: _ => task.phase.Sound state.copy state.file.content

/-- Why the server may not hold the copy; a save that was noticed comes later. -/
inductive Excused (state : State) : Prop
  | failed (h : state.failed = true)
  | others (h : state.others = true)
  | unwatched (h : state.unwatched = true)
  | raced (h : state.raced = true)
  | changed (h : state.changed = true)
  | queued (h : 0 < state.queued)
  | again (h : state.again = true)
  | gone (h : state.copy = none)

structure Settles (state : State) : Prop where
  again : state.again = true → state.uploading = true
  uploading : state.uploading = true → ∃ task ∈ state.tasks, task.kind.isUpload = true
  stored : state.others = true ∨ state.raced = true ∨
    ∀ task ∈ state.tasks, ∀ seen bytes, task.phase = .storing seen bytes →
      state.file.content = bytes
  settled : Excused state ∨ Sound state
  forced : state.forced = state.overwrites

theorem settles_start (file : File) : Settles (State.start file) where
  again := nofun
  uploading := nofun
  stored := by
    refine Or.inr (Or.inr fun task htask => ?_)
    obtain rfl := mem_singleton.mp htask
    exact nofun
  settled := Or.inl (.gone rfl)
  forced := rfl

/-- A transfer that starts has nothing of the copy yet. -/
theorem Settles.begins (h : Settles state) (hsound : ∀ copy content, task.phase.Sound copy content)
    (hstoring : ∀ seen bytes, task.phase ≠ .storing seen bytes) :
    Settles (state.begins task) where
  again := h.again
  uploading := fun huploading => by
    obtain ⟨other, hother, hkind⟩ := h.uploading huploading
    exact ⟨other, mem_cons_of_mem _ hother, hkind⟩
  stored := by
    cases htasks : state.tasks with
    | cons first rest =>
      exact Or.inr (Or.inl (by rw [State.begins, htasks]; exact Bool.or_true _))
    | nil =>
      refine Or.inr (Or.inr fun other hother seen bytes hphase => ?_)
      rw [State.begins, htasks] at hother
      obtain rfl := mem_singleton.mp hother
      exact absurd hphase (hstoring seen bytes)
  settled := Or.inr (hsound _ _)
  forced := h.forced

/-- Only the reference, the watcher or what is shown changes. -/
structure SameSettled (state after : State) : Prop where
  again : after.again = state.again
  uploading : after.uploading = state.uploading
  copy : after.copy = state.copy
  changed : after.changed = state.changed
  queued : after.queued = state.queued
  file : after.file = state.file
  failed : after.failed = state.failed
  others : after.others = state.others
  unwatched : after.unwatched = state.unwatched
  raced : after.raced = state.raced
  forced : after.forced = state.forced
  overwrites : after.overwrites = state.overwrites

theorem Excused.of_same (h : Excused state) (hsame : SameSettled state after) : Excused after := by
  cases h with
  | failed h => exact .failed (hsame.failed.trans h)
  | others h => exact .others (hsame.others.trans h)
  | unwatched h => exact .unwatched (hsame.unwatched.trans h)
  | raced h => exact .raced (hsame.raced.trans h)
  | changed h => exact .changed (hsame.changed.trans h)
  | queued h => exact .queued (hsame.queued ▸ h)
  | again h => exact .again (hsame.again.trans h)
  | gone h => exact .gone (hsame.copy.trans h)

theorem Settles.of_same (h : Settles state) (hsame : SameSettled state after)
    (htasks : after.tasks = state.tasks) : Settles after where
  again := by
    rw [hsame.again, hsame.uploading]
    exact h.again
  uploading := by
    rw [hsame.uploading, htasks]
    exact h.uploading
  stored := by
    rw [hsame.others, hsame.raced, htasks, hsame.file]
    exact h.stored
  settled := by
    refine h.settled.imp (fun hexcused => hexcused.of_same hsame) fun hsound => ?_
    rw [Sound, htasks, hsame.copy, hsame.file]
    exact hsound
  forced := by
    rw [hsame.forced, hsame.overwrites]
    exact h.forced

/-- What the rest of a state needs when it is excused. -/
structure Steady (state : State) : Prop where
  again : state.again = true → state.uploading = true
  uploading : state.uploading = true → ∃ task ∈ state.tasks, task.kind.isUpload = true
  stored : state.others = true ∨ state.raced = true ∨
    ∀ task ∈ state.tasks, ∀ seen bytes, task.phase = .storing seen bytes →
      state.file.content = bytes

/-- An upload that is asked for settles what was noticed: it starts, or follows the one that
runs, or cannot. -/
theorem settles_uploadEdit {force : Bool} (h : Steady state)
    (hforced : (if force && state.starts then state.forced + 1 else state.forced) =
      state.overwrites) : Settles (state.uploadEdit force) := by
  have hstays : state.starts = false → state.forced = state.overwrites := fun hno => by
    rwa [hno, Bool.and_false, if_neg Bool.false_ne_true] at hforced
  rw [State.uploadEdit]
  split
  · rename_i huploading
    refine ⟨fun _ => huploading, h.uploading, h.stored, Or.inl (.again rfl), hstays ?_⟩
    rw [State.starts, huploading]
    rfl
  · rename_i huploading
    split
    · rename_i hcopy
      rw [isNone_iff_eq_none] at hcopy
      refine ⟨h.again, h.uploading, h.stored, Or.inl (.gone hcopy), hstays ?_⟩
      rw [State.starts, hcopy, isSome_none, Bool.and_false]
      rfl
    · rename_i hcopy
      split
      · rename_i hconnected
        rw [Bool.not_eq_true'] at hconnected
        refine ⟨h.again, h.uploading, h.stored, Or.inl (.failed rfl), hstays ?_⟩
        rw [State.starts, hconnected, Bool.and_false]
      · rename_i hconnected
        have hstarts : state.starts = true := by
          rw [Bool.not_eq_true', Bool.not_eq_false] at hconnected
          rw [Bool.not_eq_true] at huploading hcopy
          rw [State.starts, huploading, hconnected, ← not_isNone, hcopy]
          rfl
        rw [hstarts, Bool.and_true] at hforced
        refine ⟨fun _ => rfl, fun _ => ⟨_, mem_cons_self, rfl⟩, ?_, Or.inr ?_, hforced⟩
        · cases htasks : state.tasks with
          | cons first rest =>
            exact Or.inr (Or.inl (by rw [State.begins, htasks]; exact Bool.or_true _))
          | nil =>
            refine Or.inr (Or.inr fun other hother seen stored hphase => ?_)
            rw [State.begins, htasks] at hother
            obtain rfl := mem_singleton.mp hother
            cases force <;> cases hphase
        · rw [Sound, State.begins]
          cases force <;> trivial

theorem exists_upload_set {next : Task} (hi : state.tasks[i]? = some task)
    (hkind : next.kind = task.kind) (h : ∃ other ∈ state.tasks, other.kind.isUpload = true) :
    ∃ other ∈ state.tasks.set i next, other.kind.isUpload = true := by
  obtain ⟨other, hother, hupload⟩ := h
  obtain ⟨j, hj⟩ := mem_iff_getElem?.mp hother
  by_cases hij : i = j
  · subst hij
    obtain rfl := some.inj (hi.symm.trans hj)
    exact ⟨next, mem_set (List.getElem?_eq_some_iff.mp hi).1 next, hkind ▸ hupload⟩
  · exact ⟨other, mem_iff_getElem?.mpr ⟨j, (List.getElem?_set_ne hij).trans hj⟩, hupload⟩

theorem Settles.set_task {next : Task} (h : Settles state) (hi : state.tasks[i]? = some task)
    (hsingle : state.raced = true ∨ state.tasks.length ≤ 1) (hkind : next.kind = task.kind)
    (hstored : ∀ seen bytes, next.phase = .storing seen bytes → state.file.content = bytes)
    (hsound : task.phase.Sound state.copy state.file.content →
      next.phase.Sound state.copy state.file.content) :
    Settles (state.setTask i next) where
  again := h.again
  uploading := fun huploading => exists_upload_set hi hkind (h.uploading huploading)
  stored := by
    refine h.stored.imp id (Or.imp id fun hold other hother seen bytes hphase => ?_)
    rcases mem_or_eq_of_mem_set hother with hmem | rfl
    · exact hold other hmem seen bytes hphase
    · exact hstored seen bytes hphase
  settled := by
    rcases h.settled with hexcused | hold
    · exact Or.inl (hexcused.of_same ⟨rfl, rfl, rfl, rfl, rfl, rfl, rfl, rfl, rfl, rfl, rfl, rfl⟩)
    · rcases hsingle with hraced | hle
      · exact Or.inl (.raced hraced)
      · obtain ⟨htasks, rfl⟩ := tasks_eq hle hi
        refine Or.inr ?_
        rw [Sound, setTask_singleton htasks]
        rw [Sound, htasks] at hold
        exact hsound hold
  forced := h.forced

theorem settles_stat (h : Settles state) (hcore : Core state) (hi : state.tasks[i]? = some task)
    (hstat : state.stat i task = some after) : Settles after := by
  rw [State.stat] at hstat
  split at hstat
  · split at hstat
    · obtain rfl := some.inj hstat
      exact h.set_task hi hcore.single rfl nofun fun _ => trivial
    · obtain rfl := some.inj hstat
      exact h.set_task hi hcore.single rfl nofun fun _ => trivial
  · rename_i bytes hphase
    obtain rfl := some.inj hstat
    refine h.set_task hi hcore.single rfl nofun fun hsound => ?_
    rw [hphase] at hsound
    exact hsound.1.trans (congrArg some hsound.2.symm)
  · obtain rfl := some.inj hstat
    exact h.set_task hi hcore.single rfl nofun fun _ => trivial
  · cases hstat

theorem settles_readLocal (h : Settles state) (hcore : Core state)
    (hi : state.tasks[i]? = some task) (hread : state.readLocal i task = some after) :
    Settles after := by
  rw [State.readLocal] at hread
  split at hread
  · rename_i bytes hphase hcopy
    obtain rfl := some.inj hread
    split
    · exact h.set_task hi hcore.single rfl nofun fun _ => hcopy
    · exact h.set_task hi hcore.single rfl nofun fun _ => hcopy
  · cases hread

theorem settles_allowed (h : Settles state) (hcore : Core state)
    (hi : state.tasks[i]? = some task) (hallowed : state.allowed i task = some after) :
    Settles after := by
  rw [State.allowed] at hallowed
  split at hallowed
  · rename_i bytes hphase
    obtain rfl := some.inj hallowed
    refine h.set_task hi hcore.single rfl nofun fun hsound => ?_
    rw [hphase] at hsound
    exact hsound
  · cases hallowed

theorem settles_fetch (h : Settles state) (hcore : Core state)
    (hi : state.tasks[i]? = some task) (hfetch : state.fetch i task = some after) :
    Settles after := by
  rw [State.fetch] at hfetch
  split at hfetch
  · rename_i seen hphase
    obtain rfl := some.inj hfetch
    refine h.set_task hi hcore.single rfl ?_ fun _ => trivial
    rintro other bytes ⟨⟩
    rfl
  · cases hfetch

/-- With no two transfers at once only the task that goes on matters. -/
theorem settled_only {next : Task} (hi : state.tasks[i]? = some task)
    (hsingle : state.raced = true ∨ state.tasks.length ≤ 1)
    (hraced : state.raced = true → after.raced = true)
    (htasks : after.tasks = state.tasks.set i next) (hnext : state.tasks = [task] → Excused after ∨
    next.phase.Sound after.copy after.file.content) :
    Excused after ∨ Sound after := by
  rcases hsingle with hrace | hle
  · exact Or.inl (.raced (hraced hrace))
  · obtain ⟨heq, rfl⟩ := tasks_eq hle hi
    refine (hnext heq).imp_right fun hsound => ?_
    rw [Sound, htasks, heq]
    exact hsound

theorem stored_only {next : Task} (hi : state.tasks[i]? = some task)
    (hsingle : state.raced = true ∨ state.tasks.length ≤ 1)
    (hraced : state.raced = true → after.raced = true)
    (htasks : after.tasks = state.tasks.set i next)
    (hnext : ∀ seen bytes, next.phase ≠ .storing seen bytes) :
    after.others = true ∨ after.raced = true ∨
      ∀ other ∈ after.tasks, ∀ seen bytes, other.phase = .storing seen bytes →
        after.file.content = bytes := by
  rcases hsingle with hrace | hle
  · exact Or.inr (Or.inl (hraced hrace))
  · obtain ⟨heq, rfl⟩ := tasks_eq hle hi
    refine Or.inr (Or.inr fun other hother seen bytes hphase => ?_)
    rw [htasks, heq] at hother
    obtain rfl := mem_singleton.mp hother
    exact absurd hphase (hnext seen bytes)

theorem Settles.write {next : Task} {written : State} {file : File} (h : Settles state)
    (hcore : Core state) (hi : state.tasks[i]? = some task)
    (hput : (state.replacing task).put .edit file = some written)
    (hkind : next.kind = task.kind) (hnext : ∀ seen bytes, next.phase ≠ .storing seen bytes)
    (hsound : task.phase.Sound state.copy state.file.content →
      next.phase.Sound state.copy file.content) : Settles (written.setTask i next) := by
  have hwritten := (put_eq_some hput).2
  have hsame : SameSettled { state with file } (written.setTask i next) := by
    rw [hwritten, State.replacing]
    split
    · split <;> exact ⟨rfl, rfl, rfl, rfl, rfl, rfl, rfl, rfl, rfl, rfl, rfl, rfl⟩
    · exact ⟨rfl, rfl, rfl, rfl, rfl, rfl, rfl, rfl, rfl, rfl, rfl, rfl⟩
  have htasks : (written.setTask i next).tasks = state.tasks.set i next := by
    rw [State.setTask, hwritten]
    exact congrArg (·.set i next) (replacing_same state task).1
  have hraced : state.raced = true → (written.setTask i next).raced = true := fun hold =>
    hsame.raced.trans hold
  refine ⟨?_, ?_, stored_only hi hcore.single hraced htasks hnext,
    settled_only hi hcore.single hraced htasks fun heq => ?_, ?_⟩
  · rw [hsame.again, hsame.uploading]
    exact h.again
  · rw [hsame.uploading, htasks]
    exact fun huploading => exists_upload_set hi hkind (h.uploading huploading)
  · rcases h.settled with hexcused | hold
    · have hmoved : Excused { state with file } := by
        cases hexcused with
        | failed h => exact .failed h
        | others h => exact .others h
        | unwatched h => exact .unwatched h
        | raced h => exact .raced h
        | changed h => exact .changed h
        | queued h => exact .queued h
        | again h => exact .again h
        | gone h => exact .gone h
      exact Or.inl (hmoved.of_same hsame)
    · rw [Sound, heq] at hold
      rw [hsame.copy, hsame.file]
      exact Or.inr (hsound hold)
  · rw [hsame.forced, hsame.overwrites]
    exact h.forced

theorem settles_part {file : File} (h : Settles state) (hcore : Core state)
    (hi : state.tasks[i]? = some task) (hpart : state.part i task file = some after) :
    Settles after := by
  rw [State.part] at hpart
  split at hpart
  · rename_i bytes hphase
    obtain ⟨written, hput, hafter⟩ := bind_eq_some_iff.mp hpart
    obtain rfl := some.inj hafter
    refine h.write hcore hi hput rfl ?_ ?_
    · rw [hphase]
      exact nofun
    · rw [hphase]
      exact id
  · cases hpart

theorem settles_whole (h : Settles state) (hcore : Core state) (hi : state.tasks[i]? = some task)
    (hwhole : state.whole i task modified = some after) : Settles after := by
  rw [State.whole] at hwhole
  split at hwhole
  · rename_i bytes hphase
    obtain ⟨written, hput, hafter⟩ := bind_eq_some_iff.mp hwhole
    obtain rfl := some.inj hafter
    refine h.write hcore hi hput rfl nofun ?_
    rw [hphase]
    exact fun hsound => ⟨hsound, rfl⟩
  · cases hwhole

theorem settles_store (h : Settles state) (hcore : Core state) (hi : state.tasks[i]? = some task)
    (hstore : state.store i task = some after) : Settles after := by
  rw [State.store] at hstore
  split at hstore
  · rename_i seen bytes hphase
    obtain rfl := some.inj hstore
    refine ⟨h.again, fun huploading => exists_upload_set hi rfl (h.uploading huploading),
      stored_only hi hcore.single id rfl nofun, ?_, h.forced⟩
    rcases h.stored with hothers | hraced | hstored
    · exact Or.inl (.others hothers)
    · exact Or.inl (.raced hraced)
    · refine settled_only hi hcore.single id rfl fun _ => Or.inr ?_
      exact congrArg some (hstored task (mem_of_getElem? hi) seen bytes hphase).symm
  · cases hstore

theorem settles_fails {error : FsError} {left : Option (List UInt8)} (h : Settles state)
    (hcore : Core state) (hi : state.tasks[i]? = some task)
    (hfails : state.fails i task error left = some after) : Settles after := by
  rw [State.fails] at hfails
  split at hfails
  · cases hfails
  · obtain rfl := some.inj hfails
    exact ⟨h.again, fun huploading => exists_upload_set hi rfl (h.uploading huploading),
      stored_only hi hcore.single id rfl nofun,
      settled_only hi hcore.single id rfl fun _ => Or.inr trivial, h.forced⟩
  · obtain rfl := some.inj hfails
    exact ⟨h.again, fun huploading => exists_upload_set hi rfl (h.uploading huploading),
      stored_only hi hcore.single id rfl nofun,
      settled_only hi hcore.single id rfl fun _ => Or.inr trivial, h.forced⟩

theorem exists_upload_erase (hi : state.tasks[i]? = some task)
    (hkind : task.kind.isUpload = false) (h : ∃ other ∈ state.tasks, other.kind.isUpload = true) :
    ∃ other ∈ state.tasks.eraseIdx i, other.kind.isUpload = true := by
  obtain ⟨other, hother, hupload⟩ := h
  obtain ⟨j, hj⟩ := mem_iff_getElem?.mp hother
  refine ⟨other, mem_eraseIdx_iff_getElem?.mpr ⟨j, ?_, hj⟩, hupload⟩
  rintro rfl
  obtain rfl := some.inj (hi.symm.trans hj)
  rw [hkind] at hupload
  cases hupload

/-- A task that ended well leaves the copy and the server the same; another is a failure. -/
theorem settled_over (h : Settles state) (hcore : Core state) (hi : state.tasks[i]? = some task)
    (hphase : task.phase = .done result) (htasks : after.tasks = state.tasks.eraseIdx i)
    (hexcused : Excused state → Excused after) (hcopy : after.copy = state.copy)
    (hfile : after.file = state.file) (hraced : after.raced = state.raced)
    (hfailed : ∀ error, result = .error error → after.failed = true) :
    Excused after ∨ Sound after := by
  cases result with
  | error error => exact Or.inl (.failed (hfailed error rfl))
  | ok known =>
    rcases h.settled with hold | hold
    · exact Or.inl (hexcused hold)
    · rcases hcore.single with hrace | hle
      · exact Or.inl (.raced (hraced.trans hrace))
      · obtain ⟨heq, rfl⟩ := tasks_eq hle hi
        refine Or.inr ?_
        rw [Sound, heq] at hold
        have hsound : task.phase.Sound state.copy state.file.content := hold
        rw [hphase] at hsound
        rw [Sound, htasks, heq, hcopy, hfile]
        exact hsound

theorem Settles.stored_erase (h : Settles state) : state.others = true ∨ state.raced = true ∨
    ∀ other ∈ state.tasks.eraseIdx i, ∀ seen bytes, other.phase = .storing seen bytes →
      state.file.content = bytes :=
  h.stored.imp id (Or.imp id fun hold other hother => hold other (mem_of_mem_eraseIdx hother))

theorem uploadEnded_same (without : State) (result : Except UploadError Seen) :
    let ended := without.uploadEnded result
    ended.again = false ∧ ended.uploading = false ∧ ended.tasks = without.tasks ∧
      ended.file = without.file ∧ ended.copy = without.copy ∧ ended.changed = without.changed ∧
      ended.queued = without.queued ∧ ended.others = without.others ∧
      ended.unwatched = without.unwatched ∧ ended.raced = without.raced ∧
      ended.forced = without.forced ∧ ended.overwrites = without.overwrites ∧
      (without.failed = true → ended.failed = true) ∧
      ∀ error, result = .error error → ended.failed = true := by
  cases result with
  | ok known => exact ⟨rfl, rfl, rfl, rfl, rfl, rfl, rfl, rfl, rfl, rfl, rfl, rfl, id, nofun⟩
  | error error =>
    cases error with
    | changed byOthers =>
      exact ⟨rfl, rfl, rfl, rfl, rfl, rfl, rfl, rfl, rfl, rfl, rfl, rfl, fun _ => rfl,
        fun _ _ => rfl⟩
    | fs error =>
      cases error <;>
        exact ⟨rfl, rfl, rfl, rfl, rfl, rfl, rfl, rfl, rfl, rfl, rfl, rfl, fun _ => rfl,
          fun _ _ => rfl⟩

theorem settles_uploadOver (h : Settles state) (hcore : Core state)
    (hi : state.tasks[i]? = some task) (hphase : task.phase = .done result)
    (hafter : (if state.again then
        (State.uploadEnded { state with tasks := state.tasks.eraseIdx i } result).uploadEdit false
      else State.uploadEnded { state with tasks := state.tasks.eraseIdx i } result) = after) :
    Settles after := by
  obtain ⟨hagain, huploading, htasks, hfile, hcopy, hchanged, hqueued, hothers, hunwatched, hraced,
    hforced, hoverwrites, hfailed, herror⟩ :=
    uploadEnded_same { state with tasks := state.tasks.eraseIdx i } result
  have hstored := h.stored_erase (i := i)
  have hsteady : Steady
      (State.uploadEnded { state with tasks := state.tasks.eraseIdx i } result) := by
    refine ⟨fun hyes => ?_, fun hyes => ?_, ?_⟩
    · rw [hagain] at hyes
      cases hyes
    · rw [huploading] at hyes
      cases hyes
    · rw [hothers, hraced, htasks, hfile]
      exact hstored
  have hsame := hforced.trans (h.forced.trans hoverwrites.symm)
  split at hafter
  · subst hafter
    exact settles_uploadEdit hsteady hsame
  · rename_i hnot
    subst hafter
    refine ⟨hsteady.again, hsteady.uploading, hsteady.stored,
      settled_over h hcore hi hphase htasks (fun hexcused => ?_) hcopy hfile hraced herror, hsame⟩
    cases hexcused with
    | failed h => exact .failed (hfailed h)
    | others h => exact .others (hothers.trans h)
    | unwatched h => exact .unwatched (hunwatched.trans h)
    | raced h => exact .raced (hraced.trans h)
    | changed h => exact .changed (hchanged.trans h)
    | queued h => exact .queued (Nat.lt_of_lt_of_eq h hqueued.symm)
    | again h => exact absurd h hnot
    | gone h => exact .gone (hcopy.trans h)

theorem settles_otherOver (h : Settles state) (hcore : Core state)
    (hi : state.tasks[i]? = some task) (hphase : task.phase = .done result)
    (hkind : task.kind.isUpload = false) {shown : EditState} {watcher failed : Bool}
    (hfailed : state.failed = true → failed = true)
    (herror : ∀ error, result = .error error → failed = true) :
    Settles { state with
      tasks := state.tasks.eraseIdx i, state := shown, known, watcher, failed } := by
  refine ⟨h.again, fun huploading => exists_upload_erase hi hkind (h.uploading huploading),
    h.stored_erase, settled_over h hcore hi hphase rfl (fun hexcused => ?_) rfl rfl rfl herror,
    h.forced⟩
  cases hexcused with
  | failed h => exact .failed (hfailed h)
  | others h => exact .others h
  | unwatched h => exact .unwatched h
  | raced h => exact .raced h
  | changed h => exact .changed h
  | queued h => exact .queued h
  | again h => exact .again h
  | gone h => exact .gone h

theorem settles_finish (h : Settles state) (hcore : Core state) (hi : state.tasks[i]? = some task)
    (hfinish : state.finish i task watches = some after) : Settles after := by
  rw [State.finish] at hfinish
  split at hfinish
  · rename_i result hphase
    dsimp only at hfinish
    split at hfinish
    · exact settles_uploadOver h hcore hi hphase (some.inj hfinish)
    · rename_i hkind
      obtain rfl := some.inj hfinish
      have hnot : task.kind.isUpload = false := by rw [hkind]; rfl
      cases result with
      | ok known => exact settles_otherOver h hcore hi hphase hnot id nofun
      | error error =>
        exact settles_otherOver h hcore hi hphase hnot (fun _ => rfl) fun _ _ => rfl
    · rename_i hkind
      obtain rfl := some.inj hfinish
      have hnot : task.kind.isUpload = false := by rw [hkind]; rfl
      cases result with
      | ok known => exact settles_otherOver h hcore hi hphase hnot id nofun
      | error error =>
        exact settles_otherOver h hcore hi hphase hnot (fun _ => rfl) fun _ _ => rfl
  · cases hfinish

theorem settles_touched {copy : Option (List UInt8)} (h : Settles state) :
    Settles (state.touched copy) := by
  rw [State.touched]
  split
  · exact ⟨h.again, h.uploading, h.stored, Or.inl (.changed rfl), h.forced⟩
  · exact ⟨h.again, h.uploading, h.stored, Or.inl (.unwatched rfl), h.forced⟩

theorem settles_others {file : File} (h : Settles state)
    (hput : { state with others := true }.put .others file = some after) : Settles after := by
  obtain rfl := (put_eq_some hput).2
  exact ⟨h.again, h.uploading, Or.inl rfl, Or.inl (.others rfl), h.forced⟩

/-- The overwrite answers and the forced uploads are counted at the same time. -/
theorem settles_overwrite (h : Settles state) : Settles state.overwrite := by
  refine settles_uploadEdit ⟨h.again, h.uploading, h.stored⟩ ?_
  rw [Bool.true_and]
  change (if state.starts = true then state.forced + 1 else state.forced) =
    if state.starts = true then state.overwrites + 1 else state.overwrites
  rw [h.forced]

theorem settles_step {event : Event} (h : Settles state) (hcore : Core state)
    (hstep : step state event = some after) : Settles after := by
  cases event with
  | save content | remove =>
    obtain rfl := some.inj hstep
    exact settles_touched h
  | notice =>
    rw [step] at hstep
    split at hstep
    · obtain rfl := some.inj hstep
      exact ⟨h.again, h.uploading, h.stored, Or.inl (.queued (Nat.succ_pos _)), h.forced⟩
    · cases hstep
  | saved =>
    rw [step, State.saved] at hstep
    split at hstep
    · cases hstep
    · obtain rfl := some.inj hstep
      exact settles_uploadEdit ⟨h.again, h.uploading, h.stored⟩ h.forced
  | overwrite =>
    obtain rfl := some.inj hstep
    exact settles_overwrite h
  | discard =>
    obtain rfl := some.inj hstep
    rw [State.discard]
    split
    · have hbegins : Settles (state.begins ⟨.download, .looking, none, false⟩) :=
        h.begins (fun _ _ => trivial) nofun
      exact ⟨hbegins.again, hbegins.uploading, hbegins.stored, Or.inr trivial, hbegins.forced⟩
    · exact h
  | keepWaiting =>
    obtain rfl := some.inj hstep
    exact h.of_same ⟨rfl, rfl, rfl, rfl, rfl, rfl, rfl, rfl, rfl, rfl, rfl, rfl⟩ rfl
  | saveWithSudo =>
    obtain rfl := some.inj hstep
    rw [State.saveWithSudo]
    split
    · have hbegins : Settles (state.begins ⟨.sudo, .reading, none, false⟩) :=
        h.begins (fun _ _ => trivial) nofun
      exact hbegins.of_same ⟨rfl, rfl, rfl, rfl, rfl, rfl, rfl, rfl, rfl, rfl, rfl, rfl⟩ rfl
    · exact ⟨h.again, h.uploading, h.stored, Or.inl (.failed rfl), h.forced⟩
  | connection connected =>
    obtain rfl := some.inj hstep
    exact h.of_same ⟨rfl, rfl, rfl, rfl, rfl, rfl, rfl, rfl, rfl, rfl, rfl, rfl⟩ rfl
  | othersWrite file => exact settles_others h hstep
  | stat i =>
    obtain ⟨task, hi, htask⟩ := bind_eq_some_iff.mp hstep
    exact settles_stat h hcore hi htask
  | readLocal i =>
    obtain ⟨task, hi, htask⟩ := bind_eq_some_iff.mp hstep
    exact settles_readLocal h hcore hi htask
  | allowed i =>
    obtain ⟨task, hi, htask⟩ := bind_eq_some_iff.mp hstep
    exact settles_allowed h hcore hi htask
  | part i file =>
    obtain ⟨task, hi, htask⟩ := bind_eq_some_iff.mp hstep
    exact settles_part h hcore hi htask
  | whole i modified =>
    obtain ⟨task, hi, htask⟩ := bind_eq_some_iff.mp hstep
    exact settles_whole h hcore hi htask
  | fetch i =>
    obtain ⟨task, hi, htask⟩ := bind_eq_some_iff.mp hstep
    exact settles_fetch h hcore hi htask
  | store i =>
    obtain ⟨task, hi, htask⟩ := bind_eq_some_iff.mp hstep
    exact settles_store h hcore hi htask
  | fails i error left =>
    obtain ⟨task, hi, htask⟩ := bind_eq_some_iff.mp hstep
    exact settles_fails h hcore hi htask
  | finish i watches =>
    obtain ⟨task, hi, htask⟩ := bind_eq_some_iff.mp hstep
    exact settles_finish h hcore hi htask

/-- Nothing is under way, and nothing is known to stand between the copy and the server. -/
structure Quiet (state : State) : Prop where
  tasks : state.tasks = []
  changed : state.changed = false
  queued : state.queued = 0
  failed : state.failed = false
  others : state.others = false
  unwatched : state.unwatched = false
  raced : state.raced = false

theorem Settles.quiet (h : Settles state) (hquiet : Quiet state) :
    state.copy = none ∨ state.copy = some state.file.content := by
  have hidle : state.again = false := by
    refine Bool.eq_false_iff.mpr fun hagain => ?_
    obtain ⟨task, htask, -⟩ := h.uploading (h.again hagain)
    rw [hquiet.tasks] at htask
    cases htask
  rcases h.settled with hexcused | hsound
  · cases hexcused with
    | failed h => exact absurd h (Bool.eq_false_iff.mp hquiet.failed)
    | others h => exact absurd h (Bool.eq_false_iff.mp hquiet.others)
    | unwatched h => exact absurd h (Bool.eq_false_iff.mp hquiet.unwatched)
    | raced h => exact absurd h (Bool.eq_false_iff.mp hquiet.raced)
    | changed h => exact absurd h (Bool.eq_false_iff.mp hquiet.changed)
    | queued h => exact absurd hquiet.queued (Nat.pos_iff_ne_zero.mp h)
    | again h => exact absurd h (Bool.eq_false_iff.mp hidle)
    | gone h => exact Or.inl h
  · rw [Sound, hquiet.tasks] at hsound
    exact Or.inr hsound

theorem kept_of_run {events : List Event} (hcore : Core state) (h : Settles state)
    (hrun : runFrom step state events = some after) : Core after ∧ Settles after := by
  induction events generalizing state with
  | nil =>
    obtain rfl := some.inj hrun
    exact ⟨hcore, h⟩
  | cons event rest ih =>
    obtain ⟨next, hnext, hrest⟩ := bind_eq_some_iff.mp hrun
    exact ih (core_step hcore hnext) (settles_step h hcore hnext) hrest

end Invariant

/-- In every run of one edit: what an upload replaces is what its check found, unless the file
was written since the check or the user chose to overwrite; at rest the server holds the last
local save; an overwrite that can start starts; and a conflict means that others wrote, or
that the edit's own transfers raced or broke off. -/
theorem edit_keeps {file : File} {events : List Event} {state : State}
    (hrun : runFrom step (State.start file) events = some state) :
    (∀ replaced ∈ state.replaced, replaced.Fair) ∧
      (Quiet state → ∀ copy, state.copy = some copy → state.file.content = copy) ∧
      state.forced = state.overwrites ∧
      ∀ byOthers ∈ state.reports, byOthers = true ∨ state.raced = true ∨ state.stuck = true := by
  obtain ⟨hcore, hsettles⟩ := kept_of_run (core_start file) (settles_start file) hrun
  refine ⟨hcore.replaced, fun hquiet copy hcopy => ?_, hsettles.forced, hcore.reports⟩
  rcases hsettles.quiet hquiet with hnone | hsome
  · rw [hnone] at hcopy
    cases hcopy
  · exact Option.some.inj (hsome.symm.trans hcopy)

namespace EditWitness

def original : File := ⟨[1], some 1⟩

/-- The file comes down, is saved, and the save is noticed. -/
def opened : List Event := [.stat 0, .fetch 0, .store 0, .finish 0 true, .save [2], .notice, .saved]

/-- Others write between the check and the write. -/
def between : List Event :=
  opened ++ [.stat 0, .othersWrite ⟨[9], some 5⟩, .readLocal 0, .whole 0 (some 7), .stat 0,
    .finish 0 true]

/-- Others write before the check; the user overwrites. -/
def answered : List Event :=
  opened ++ [.othersWrite ⟨[9], some 5⟩, .stat 0, .finish 0 true, .overwrite, .readLocal 0,
    .part 0 ⟨[], some 6⟩, .whole 0 (some 7), .stat 0, .finish 0 true]

theorem kept_answered : ∃ state, runFrom step (State.start original) answered = some state ∧
    state.reports = [true] ∧ state.forced = 1 ∧
      (∀ replaced ∈ state.replaced, replaced.Fair) ∧
      (Quiet state → ∀ copy, state.copy = some copy → state.file.content = copy) ∧
      state.forced = state.overwrites ∧
      ∀ byOthers ∈ state.reports, byOthers = true ∨ state.raced = true ∨ state.stuck = true := by
  obtain ⟨state, hrun⟩ : ∃ state, runFrom step (State.start original) answered = some state :=
    ⟨_, rfl⟩
  have hkept := edit_keeps hrun
  obtain rfl := Option.some.inj hrun
  exact ⟨_, rfl, rfl, rfl, hkept⟩

/-- The overwrite answer comes while a later save is checked. -/
def answeredLate : List Event :=
  opened ++ [.othersWrite ⟨[9], some 5⟩, .stat 0, .finish 0 true, .save [3], .notice, .saved,
    .overwrite, .stat 0, .finish 0 true, .stat 0, .finish 0 true]

/-- A write breaks off, and the next save finds what it left. -/
def brokenOff : List Event :=
  opened ++ [.stat 0, .readLocal 0, .part 0 ⟨[], some 6⟩,
    .fails 0 .disconnected none, .finish 0 true, .save [3], .notice, .saved,
    .stat 0, .finish 0 true]

/-- A sudo upload read the copy before the last save and writes after it. -/
def sudoLast : List Event :=
  opened ++ [.stat 0, .saveWithSudo, .readLocal 0, .save [3], .notice, .saved, .readLocal 1,
    .whole 1 (some 6), .stat 1, .finish 1 true, .stat 0, .readLocal 0, .whole 0 (some 7),
    .stat 0, .finish 0 true, .allowed 0, .whole 0 (some 8), .stat 0, .finish 0 true]

/-- What others wrote is replaced with no conflict and no answer; an overwrite answer uploads
nothing; a conflict is reported although nobody else wrote; and the last save is not on the
server although nothing is under way and nothing failed. -/
theorem edits_lost :
    (∃ state, runFrom step (State.start original) between = some state ∧
      state.reports = [] ∧ state.overwrites = 0 ∧ ∃ replaced ∈ state.replaced,
        replaced.force = false ∧ replaced.known.content = [1] ∧ replaced.old = [9]) ∧
      (∃ state, runFrom step (State.start original) answeredLate = some state ∧
        state.tasks = [] ∧ state.replaced = [] ∧ state.file.content = [9]) ∧
      (∃ state, runFrom step (State.start original) brokenOff = some state ∧
        state.reports = [false] ∧ state.others = false) ∧
      ∃ state, runFrom step (State.start original) sudoLast = some state ∧
        state.tasks = [] ∧ state.queued = 0 ∧ state.changed = false ∧ state.failed = false ∧
          state.others = false ∧ state.copy = some [3] ∧ state.file.content = [2] := by
  refine ⟨⟨_, rfl, rfl, rfl, _, List.mem_singleton.mpr rfl, rfl, rfl, rfl⟩, ?_, ?_, ?_⟩
  · exact ⟨_, rfl, rfl, rfl, rfl⟩
  · exact ⟨_, rfl, rfl, rfl⟩
  · exact ⟨_, rfl, rfl, rfl, rfl, rfl, rfl, rfl, rfl⟩

end EditWitness

end Opensesh.RemoteEdit
