/-
An object upload as a writer: the bytes go through a pipe to a task that sends them in one
request or in parts, while any request may fail and the writer may be dropped.
-/
import Opensesh.Machine
import Opensesh.S3Store
import Mathlib.Algebra.Group.Nat.Defs
import Mathlib.Logic.Function.Basic

namespace Opensesh.S3.Upload

open List Option

/-- What the server keeps of a multipart upload: each part's tag and bytes. -/
abbrev Parts : Type := Nat → Option (String × List UInt8)

/-- The object at the key, and the multipart uploads that are open. -/
structure Remote where
  object : Option (List UInt8)
  uploads : String → Option Parts

/-- The bytes of the listed parts, when the server has them all. -/
def assemble (stored : Parts) : List (Nat × String) → Option (List UInt8)
  | [] => some []
  | (number, tag) :: rest => do
      let found ← stored number
      let after ← assemble stored rest
      if found.1 = tag then some (found.2 ++ after) else none

namespace Remote

/-- A new multipart upload, under an id that is not in use. -/
def create (remote : Remote) (id : String) : Option Remote :=
  if (remote.uploads id).isSome then none
  else some { remote with uploads := Function.update remote.uploads id (some fun _ => none) }

def uploadPart (remote : Remote) (id : String) (number : Nat) (tag : String)
    (content : List UInt8) : Option Remote := do
  let stored ← remote.uploads id
  some { remote with
    uploads := Function.update remote.uploads id
      (some (Function.update stored number (some (tag, content)))) }

def complete (remote : Remote) (id : String) (parts : List (Nat × String)) : Option Remote := do
  let stored ← remote.uploads id
  let content ← assemble stored parts
  some ⟨some content, Function.update remote.uploads id none⟩

def abort (remote : Remote) (id : String) : Remote :=
  { remote with uploads := Function.update remote.uploads id none }

end Remote

/-- The pipe between the writer and its upload task. -/
def PIPE : Nat := 1024 * 1024

/-- What the upload task waits for: bytes, or the answer to a request. -/
inductive Task where
  | filling (buffer : List UInt8)
  | creating (buffer : List UInt8)
  | uploading (id : String) (number : Nat) (buffer : List UInt8) (last : Bool)
  | putting (buffer : List UInt8)
  | completing (id : String)
  | aborting (id : String) (error : S3Error)
  | ended (result : Except S3Error Unit)

structure State where
  /-- Whether the writer still has its end of the pipe, and the receiver of the result. -/
  pipe : Bool := true
  done : Bool := true
  dropped : Bool := false
  finishing : Bool := false
  /-- What is in the pipe. -/
  bytes : List UInt8 := []
  /-- What the task sent of how the upload ended. -/
  report : Option (Except S3Error Unit) := none
  task : Task := .filling []
  uploadId : Option String := none
  parts : List (Nat × String) := []
  remote : Remote
  /-- What the writes accepted, the part numbers that were requested, what the writer was told
  of the upload's end, and whether a shutdown returned without an error. -/
  accepted : List UInt8 := []
  numbers : List Nat := []
  told : Option (Except S3Error Unit) := none
  shutdownOk : Bool := false
  /-- Whether a request failed, and whether giving the upload up did. -/
  failed : Bool := false
  abortFailed : Bool := false

inductive Poll (α : Type) where
  | ready (value : α)
  | pending

inductive IoError where
  | brokenPipe
  | other (reason : S3Error)

abbrev IoResult (α : Type) : Type := Except IoError α

namespace State

/-- The task has ended, and its end of the pipe is closed. -/
def readerGone (state : State) : Bool :=
  match state.task with
  | .ended _ => true
  | _ => false

/-- Why the upload stopped, when it already did; otherwise `error` as it is. -/
def uploadError (state : State) (error : IoError) : IoError × State :=
  match state.done, state.report with
  | true, some (.error reason) =>
    (.other reason, { state with done := false, told := some (.error reason) })
  | _, _ => (error, state)

def pollWrite (state : State) (buffer : List UInt8) : Poll (IoResult Nat) × State :=
  if !state.pipe then (.ready (.error .brokenPipe), state)
  else if state.readerGone then
    let (error, after) := state.uploadError .brokenPipe
    (.ready (.error error), after)
  else if PIPE ≤ state.bytes.length then (.pending, state)
  else
    let written := buffer.take (PIPE - state.bytes.length)
    (.ready (.ok written.length), { state with
      bytes := state.bytes ++ written
      accepted := state.accepted ++ written })

def pollFlush (state : State) : Poll (IoResult Unit) × State := (.ready (.ok ()), state)

/-- Takes the result, when there is one. -/
def takeResult (state : State) : Poll (IoResult Unit) × State :=
  if !state.done then (.ready (.ok ()), { state with shutdownOk := true })
  else
    match state.report with
    | none => (.pending, state)
    | some (.ok ()) =>
      (.ready (.ok ()), { state with done := false, told := some (.ok ()), shutdownOk := true })
    | some (.error error) =>
      (.ready (.error (.other error)), { state with done := false, told := some (.error error) })

def pollShutdown (state : State) : Poll (IoResult Unit) × State :=
  { state with finishing := true, pipe := false }.takeResult

def drop (state : State) : State := { state with pipe := false, done := false, dropped := true }

/-- The task fails: an upload that was started is given up. -/
def fail (state : State) (error : S3Error) : State :=
  { state with
    task :=
      match state.uploadId with
      | some id => .aborting id error
      | none => .ended (.error error) }

end State

def nextNumber (parts : List (Nat × String)) : Except S3Error Nat :=
  if parts.length + 1 < 2 ^ 31 ∧ parts.length + 1 ≤ 10000 then .ok (parts.length + 1)
  else .error (.invalid "the file has more than 10,000 parts")

namespace State

/-- Sends a part. -/
def sendPart (state : State) (id : String) (buffer : List UInt8) (last : Bool) : State :=
  match nextNumber state.parts with
  | .ok number =>
    { state with
      task := .uploading id number buffer last
      numbers := state.numbers ++ [number] }
  | .error error => state.fail error

/-- What follows when the buffer is full or the bytes ended. -/
def filled (state : State) (buffer : List UInt8) (atEnd : Bool) : State :=
  if atEnd then
    if !state.finishing then state.fail .cancelled
    else
      match state.uploadId with
      | none => { state with task := .putting buffer }
      | some id =>
        if buffer ≠ [] then state.sendPart id buffer true
        else { state with task := .completing id }
  else
    match state.uploadId with
    | none => { state with task := .creating buffer }
    | some id => state.sendPart id buffer false

/-- One read into the buffer; none while there is nothing to read. -/
def fill (partSize : Nat) (state : State) (buffer : List UInt8) : Option State :=
  if state.bytes = [] then
    if state.pipe then none else some (state.filled buffer true)
  else
    let size := max partSize 1
    let taken := state.bytes.take (size - buffer.length)
    let rest := { state with bytes := state.bytes.drop (size - buffer.length) }
    if (buffer ++ taken).length < size then some { rest with task := .filling (buffer ++ taken) }
    else some (rest.filled (buffer ++ taken) false)

def read (partSize : Nat) (state : State) : Option State :=
  match state.task with
  | .filling buffer => state.fill partSize buffer
  | _ => none

/-- The server started an upload. -/
def created (state : State) (buffer : List UInt8) (id : String) : Option State := do
  let remote ← state.remote.create id
  some ({ state with remote, uploadId := some id }.sendPart id buffer false)

/-- The server has a part. -/
def uploaded (state : State) (id : String) (number : Nat) (buffer : List UInt8) (last : Bool)
    (tag : String) : Option State := do
  let remote ← state.remote.uploadPart id number tag buffer
  some { state with
    remote
    parts := state.parts ++ [(number, tag)]
    task := if last then .completing id else .filling [] }

def completed (state : State) (id : String) : Option State := do
  let remote ← state.remote.complete id state.parts
  some { state with remote, task := .ended (.ok ()) }

/-- The request takes effect, and the server's answer arrives: an upload's id, a part's tag. -/
def succeeds (state : State) (answer : String) : Option State :=
  match state.task with
  | .creating buffer => state.created buffer answer
  | .uploading id number buffer last => state.uploaded id number buffer last answer
  | .putting buffer =>
    some { state with
      remote := { state.remote with object := some buffer }
      task := .ended (.ok ()) }
  | .completing id => state.completed id
  | .aborting id error =>
    some { state with remote := state.remote.abort id, task := .ended (.error error) }
  | _ => none

def givesUp (state : State) (error : S3Error) : State := { state with failed := true }.fail error

/-- The request fails, without effect. -/
def fails (state : State) (error : S3Error) : Option State :=
  match state.task with
  | .creating _ | .uploading .. | .putting _ | .completing _ => some (state.givesUp error)
  | .aborting _ first =>
    some { state with failed := true, abortFailed := true, task := .ended (.error first) }
  | _ => none

def sendReport (state : State) : Option State :=
  match state.task, state.report with
  | .ended result, none => some { state with report := some result }
  | _, _ => none

end State

inductive Event where
  | write (buffer : List UInt8)
  | flush
  | shutdown
  | drop
  | read
  | succeeds (answer : String)
  | fails (error : S3Error)
  | report

/-- One call on the writer, or one step of the task. -/
def step (partSize : Nat) (state : State) : Event → Option State
  | .write buffer => if state.dropped then none else some (state.pollWrite buffer).2
  | .flush => if state.dropped then none else some state.pollFlush.2
  | .shutdown => if state.dropped then none else some state.pollShutdown.2
  | .drop => if state.dropped then none else some state.drop
  | .read => state.read partSize
  | .succeeds answer => state.succeeds answer
  | .fails error => state.fails error
  | .report => state.sendReport

/-- An upload that was just started. -/
def start (remote : Remote) : State := { remote }

section Invariant

variable {before : Remote} {state after : State} {partSize : Nat}

/-- The server has the open upload besides what it had, when there is one. -/
def Opened (before : Remote) (state : State) : Prop :=
  state.remote.object = before.object ∧
    match state.uploadId with
    | none => state.remote.uploads = before.uploads
    | some id => before.uploads id = none ∧
        ∃ stored, state.remote.uploads = Function.update before.uploads id (some stored)

/-- What was accepted is uploaded in parts, held by the task or in the pipe. -/
structure Sends (before : Remote) (state : State) (held : List UInt8) : Prop where
  opened : Opened before state
  parts : ∀ part ∈ state.parts, part.1 ≤ state.parts.length
  accepted : match state.uploadId with
    | none => state.parts = [] ∧ state.accepted = held ++ state.bytes
    | some id => ∃ stored sent, state.remote.uploads id = some stored ∧
        assemble stored state.parts = some sent ∧ state.accepted = sent ++ held ++ state.bytes

/-- No more bytes come: the writer was shut down. -/
structure Finished (state : State) : Prop where
  bytes : state.bytes = []
  pipe : state.pipe = false
  finishing : state.finishing = true

/-- What holds wherever the task is. -/
def Stands (before : Remote) (state : State) : Task → Prop
  | .filling buffer => Sends before state buffer ∧ state.numbers.length = state.parts.length
  | .creating buffer => Sends before state buffer ∧ state.uploadId = none ∧
      state.numbers.length = state.parts.length
  | .uploading id number buffer last => Sends before state buffer ∧ state.uploadId = some id ∧
      number = state.parts.length + 1 ∧ state.numbers.length = state.parts.length + 1 ∧
        (last = true → Finished state)
  | .putting buffer => Sends before state buffer ∧ state.uploadId = none ∧ Finished state
  | .completing id => Sends before state [] ∧ state.uploadId = some id ∧ Finished state
  | .aborting id _ => Opened before state ∧ state.uploadId = some id
  | .ended (.ok ()) => state.remote.object = some state.accepted ∧
      state.remote.uploads = before.uploads ∧ Finished state
  | .ended (.error _) => state.remote.object = before.object ∧
      (state.abortFailed = false → state.remote.uploads = before.uploads)

/-- The task was told to stop, or did. -/
def Task.failing : Task → Bool
  | .aborting .. | .ended (.error _) => true
  | _ => false

structure Kept (before : Remote) (state : State) : Prop where
  stands : Stands before state state.task
  numbers : state.numbers = List.range' 1 state.numbers.length
  numbers_le : state.numbers.length ≤ 10000
  failed : state.failed = true → state.task.failing = true
  reported : ∀ result, state.report = some result → state.task = .ended result
  told : ∀ result, state.told = some result → state.report = some result
  done : state.done = false → state.dropped = true ∨ state.told ≠ none

theorem kept_start (before : Remote) : Kept before (start before) where
  stands := ⟨⟨⟨rfl, rfl⟩, fun _ hpart => absurd hpart not_mem_nil, rfl, rfl⟩, rfl⟩
  numbers := rfl
  numbers_le := Nat.zero_le _
  failed := nofun
  reported := nofun
  told := nofun
  done := nofun

/-- The task and the server are as they were. -/
structure SameUpload (state after : State) : Prop where
  task : after.task = state.task
  uploadId : after.uploadId = state.uploadId
  parts : after.parts = state.parts
  remote : after.remote = state.remote
  numbers : after.numbers = state.numbers
  report : after.report = state.report
  failed : after.failed = state.failed
  abortFailed : after.abortFailed = state.abortFailed

theorem Opened.of_same (h : Opened before state) (hsame : SameUpload state after) :
    Opened before after := by
  rw [Opened, hsame.remote, hsame.uploadId]
  exact h

variable {held more buffer : List UInt8} {task : Task} {parts : List (Nat × String)} {tag : String}
  {last : Bool} {remote : Remote} {events : List Event}

theorem Sends.of_accepted (h : Sends before state held) (hsame : SameUpload state after)
    (hbytes : after.bytes = state.bytes ++ more)
    (haccepted : after.accepted = state.accepted ++ more) : Sends before after held where
  opened := h.opened.of_same hsame
  parts := by
    rw [hsame.parts]
    exact h.parts
  accepted := by
    have hold := h.accepted
    rw [hsame.uploadId, hsame.parts, hsame.remote, hbytes, haccepted]
    cases hid : state.uploadId with
    | none =>
      rw [hid] at hold
      exact ⟨hold.1, by rw [hold.2, List.append_assoc]⟩
    | some id =>
      rw [hid] at hold
      obtain ⟨stored, sent, hstored, hsent, hall⟩ := hold
      exact ⟨stored, sent, hstored, hsent, by rw [hall, List.append_assoc]⟩

theorem Sends.of_same (h : Sends before state held) (hsame : SameUpload state after)
    (hbytes : after.bytes = state.bytes) (haccepted : after.accepted = state.accepted) :
    Sends before after held :=
  h.of_accepted hsame (hbytes.trans (List.append_nil _).symm)
    (haccepted.trans (List.append_nil _).symm)

theorem Stands.of_same (h : Stands before state task) (hsame : SameUpload state after)
    (hbytes : after.bytes = state.bytes) (haccepted : after.accepted = state.accepted)
    (hfinished : Finished state → Finished after) : Stands before after task := by
  cases task with
  | filling buffer =>
    rw [Stands, hsame.numbers, hsame.parts]
    exact ⟨h.1.of_same hsame hbytes haccepted, h.2⟩
  | creating buffer =>
    rw [Stands, hsame.numbers, hsame.parts, hsame.uploadId]
    exact ⟨h.1.of_same hsame hbytes haccepted, h.2⟩
  | uploading id number buffer last =>
    rw [Stands, hsame.numbers, hsame.parts, hsame.uploadId]
    obtain ⟨hsends, hid, hnumber, hcount, hlast⟩ := h
    exact ⟨hsends.of_same hsame hbytes haccepted, hid, hnumber, hcount, hfinished ∘ hlast⟩
  | putting buffer =>
    rw [Stands, hsame.uploadId]
    exact ⟨h.1.of_same hsame hbytes haccepted, h.2.1, hfinished h.2.2⟩
  | completing id =>
    rw [Stands, hsame.uploadId]
    exact ⟨h.1.of_same hsame hbytes haccepted, h.2.1, hfinished h.2.2⟩
  | aborting id error =>
    rw [Stands, hsame.uploadId]
    exact ⟨h.1.of_same hsame, h.2⟩
  | ended result =>
    cases result with
    | ok _ =>
      rw [Stands, hsame.remote, haccepted]
      exact ⟨h.1, h.2.1, hfinished h.2.2⟩
    | error error =>
      rw [Stands, hsame.remote, hsame.abortFailed]
      exact h

/-- The writer's own part of the invariant. -/
structure Kept.Writer (state : State) : Prop where
  told : ∀ result, state.told = some result → state.report = some result
  done : state.done = false → state.dropped = true ∨ state.told ≠ none

theorem Kept.of_same (h : Kept before state) (hsame : SameUpload state after)
    (hstands : Stands before after state.task) (hwriter : Kept.Writer after) :
    Kept before after where
  stands := hsame.task ▸ hstands
  numbers := by
    rw [hsame.numbers]
    exact h.numbers
  numbers_le := by
    rw [hsame.numbers]
    exact h.numbers_le
  failed := by
    rw [hsame.failed, hsame.task]
    exact h.failed
  reported := by
    rw [hsame.report, hsame.task]
    exact h.reported
  told := hwriter.told
  done := hwriter.done

theorem kept_uploadError (h : Kept before state) (error : IoError) :
    Kept before (state.uploadError error).2 := by
  rw [State.uploadError]
  split
  · rename_i reason hdone hreport
    refine h.of_same ⟨rfl, rfl, rfl, rfl, rfl, rfl, rfl, rfl⟩ ?_ ⟨?_, ?_⟩
    · exact h.stands.of_same ⟨rfl, rfl, rfl, rfl, rfl, rfl, rfl, rfl⟩ rfl rfl
        fun hfinished => ⟨hfinished.bytes, hfinished.pipe, hfinished.finishing⟩
    · rintro result ⟨⟩
      exact hreport
    · exact fun _ => Or.inr (some_ne_none _)
  · exact h

theorem Stands.of_accepted (h : Stands before state task) (hpipe : state.pipe = true)
    (hreads : ∀ result, task ≠ .ended result) (hsame : SameUpload state after)
    (hbytes : after.bytes = state.bytes ++ more)
    (haccepted : after.accepted = state.accepted ++ more) : Stands before after task := by
  have hopen : ¬Finished state := fun hfinished => by
    rw [hfinished.pipe] at hpipe
    cases hpipe
  cases task with
  | filling buffer =>
    rw [Stands, hsame.numbers, hsame.parts]
    exact ⟨h.1.of_accepted hsame hbytes haccepted, h.2⟩
  | creating buffer =>
    rw [Stands, hsame.numbers, hsame.parts, hsame.uploadId]
    exact ⟨h.1.of_accepted hsame hbytes haccepted, h.2⟩
  | uploading id number buffer last =>
    rw [Stands, hsame.numbers, hsame.parts, hsame.uploadId]
    obtain ⟨hsends, hid, hnumber, hcount, hlast⟩ := h
    exact ⟨hsends.of_accepted hsame hbytes haccepted, hid, hnumber, hcount,
      fun hyes => absurd (hlast hyes) hopen⟩
  | putting buffer => exact absurd h.2.2 hopen
  | completing id => exact absurd h.2.2 hopen
  | aborting id error =>
    rw [Stands, hsame.uploadId]
    exact ⟨h.1.of_same hsame, h.2⟩
  | ended result => exact absurd rfl (hreads result)

theorem kept_pollWrite (h : Kept before state) (buffer : List UInt8) :
    Kept before (state.pollWrite buffer).2 := by
  rw [State.pollWrite]
  split
  · exact h
  · rename_i hpipe
    split
    · exact kept_uploadError h .brokenPipe
    · rename_i hreads
      split
      · exact h
      · have hsame : SameUpload state { state with
            bytes := state.bytes ++ buffer.take (PIPE - state.bytes.length)
            accepted := state.accepted ++ buffer.take (PIPE - state.bytes.length) } :=
          ⟨rfl, rfl, rfl, rfl, rfl, rfl, rfl, rfl⟩
        refine h.of_same hsame ?_ ⟨h.told, h.done⟩
        refine h.stands.of_accepted ?_ (fun result hended => hreads ?_) hsame rfl rfl
        · rwa [Bool.not_eq_true', Bool.not_eq_false] at hpipe
        · rw [State.readerGone, hended]

theorem kept_takeResult (h : Kept before state) : Kept before state.takeResult.2 := by
  rw [State.takeResult]
  split
  · refine h.of_same ⟨rfl, rfl, rfl, rfl, rfl, rfl, rfl, rfl⟩ ?_ ⟨h.told, h.done⟩
    exact h.stands.of_same ⟨rfl, rfl, rfl, rfl, rfl, rfl, rfl, rfl⟩ rfl rfl
      fun hfinished => ⟨hfinished.bytes, hfinished.pipe, hfinished.finishing⟩
  · split
    · exact h
    all_goals
      rename_i hreport
      refine h.of_same ⟨rfl, rfl, rfl, rfl, rfl, rfl, rfl, rfl⟩ ?_ ⟨?_, ?_⟩
      · exact h.stands.of_same ⟨rfl, rfl, rfl, rfl, rfl, rfl, rfl, rfl⟩ rfl rfl
          fun hfinished => ⟨hfinished.bytes, hfinished.pipe, hfinished.finishing⟩
      · rintro result ⟨⟩
        exact hreport
      · exact fun _ => Or.inr (some_ne_none _)

theorem kept_pollShutdown (h : Kept before state) : Kept before state.pollShutdown.2 := by
  refine kept_takeResult (h.of_same ⟨rfl, rfl, rfl, rfl, rfl, rfl, rfl, rfl⟩ ?_ ⟨h.told, h.done⟩)
  exact h.stands.of_same ⟨rfl, rfl, rfl, rfl, rfl, rfl, rfl, rfl⟩ rfl rfl
    fun hfinished => ⟨hfinished.bytes, rfl, rfl⟩

theorem kept_drop (h : Kept before state) : Kept before state.drop := by
  refine h.of_same ⟨rfl, rfl, rfl, rfl, rfl, rfl, rfl, rfl⟩ ?_ ⟨h.told, fun _ => Or.inl rfl⟩
  exact h.stands.of_same ⟨rfl, rfl, rfl, rfl, rfl, rfl, rfl, rfl⟩ rfl rfl
    fun hfinished => ⟨hfinished.bytes, rfl, hfinished.finishing⟩

theorem assemble_append {stored : Parts} {more : List (Nat × String)} {sent content : List UInt8}
    (hsent : assemble stored parts = some sent) (hmore : assemble stored more = some content) :
    assemble stored (parts ++ more) = some (sent ++ content) := by
  induction parts generalizing sent with
  | nil =>
    obtain rfl := some.inj hsent
    exact hmore
  | cons part parts ih =>
    obtain ⟨found, hfound, hrest⟩ := bind_eq_some_iff.mp hsent
    obtain ⟨rest, hassembled, hall⟩ := bind_eq_some_iff.mp hrest
    split at hall
    · rename_i htag
      obtain rfl := some.inj hall
      rw [List.append_assoc]
      refine bind_eq_some_iff.mpr ⟨found, hfound, ?_⟩
      exact bind_eq_some_iff.mpr ⟨rest ++ content, ih hassembled, if_pos htag⟩
    · cases hall

theorem assemble_update {stored : Parts} {number : Nat} (hnew : ∀ part ∈ parts, part.1 < number)
    (entry : Option (String × List UInt8)) :
    assemble (Function.update stored number entry) parts = assemble stored parts := by
  induction parts with
  | nil => rfl
  | cons part parts ih =>
    have hother : Function.update stored number entry part.1 = stored part.1 :=
      Function.update_of_ne (Nat.ne_of_lt (hnew part mem_cons_self)) entry stored
    rw [assemble, assemble, hother, ih fun other hmem => hnew other (mem_cons_of_mem _ hmem)]

theorem assemble_last {stored : Parts} {sent content : List UInt8} {number : Nat}
    (hsent : assemble stored parts = some sent) (hnew : ∀ part ∈ parts, part.1 < number) :
    assemble (Function.update stored number (some (tag, content))) (parts ++ [(number, tag)]) =
      some (sent ++ content) := by
  refine assemble_append ((assemble_update hnew _).trans hsent) ?_
  rw [assemble, Function.update_self]
  exact (if_pos (rfl : tag = tag)).trans (by rw [List.append_nil])

/-- The numbers that were requested. -/
def Numbered (state : State) : Prop :=
  state.numbers = List.range' 1 state.numbers.length ∧ state.numbers.length ≤ 10000

/-- What a step of the task needs for the invariant. -/
structure Advances (before : Remote) (after : State) : Prop where
  stands : Stands before after after.task
  numbered : Numbered after

theorem Kept.of_task (h : Kept before state) (hworks : state.readerGone = false)
    (hadvances : Advances before after) (hreport : after.report = state.report)
    (htold : after.told = state.told) (hdone : after.done = state.done)
    (hdropped : after.dropped = state.dropped)
    (hfailed : after.failed = true → after.task.failing = true) : Kept before after where
  stands := hadvances.stands
  numbers := hadvances.numbered.1
  numbers_le := hadvances.numbered.2
  failed := hfailed
  reported := by
    intro result hresult
    rw [hreport] at hresult
    rw [State.readerGone, h.reported result hresult] at hworks
    cases hworks
  told := by
    rw [htold, hreport]
    exact h.told
  done := by
    rw [hdone, hdropped, htold]
    exact h.done

theorem failing_fail (state : State) (error : S3Error) :
    (state.fail error).task.failing = true := by
  rw [State.fail]
  cases state.uploadId <;> rfl

theorem advances_fail (h : Opened before state) (hnumbered : Numbered state) (error : S3Error) :
    Advances before (state.fail error) := by
  refine ⟨?_, hnumbered⟩
  cases hid : state.uploadId with
  | none =>
    have htask : (state.fail error).task = .ended (.error error) := by rw [State.fail, hid]
    rw [htask]
    rw [Opened, hid] at h
    exact ⟨h.1, fun _ => h.2⟩
  | some id =>
    have htask : (state.fail error).task = .aborting id error := by rw [State.fail, hid]
    rw [htask]
    exact ⟨h, hid⟩

theorem nextNumber_ok {number : Nat} (h : nextNumber parts = .ok number) :
    number = parts.length + 1 ∧ number ≤ 10000 := by
  rw [nextNumber] at h
  split at h
  · rename_i hle
    obtain rfl := Except.ok.inj h
    exact ⟨rfl, hle.2⟩
  · cases h

theorem Sends.with_task (h : Sends before state held) (task : Task) (numbers : List Nat) :
    Sends before { state with task, numbers } held :=
  ⟨h.opened, h.parts, h.accepted⟩

theorem advances_sendPart {id : String} (h : Sends before state buffer)
    (hid : state.uploadId = some id) (hcount : state.numbers.length = state.parts.length)
    (hnumbered : Numbered state) (hlast : last = true → Finished state) :
    Advances before (state.sendPart id buffer last) := by
  rw [State.sendPart]
  split
  · rename_i number hnumber
    obtain ⟨rfl, hle⟩ := nextNumber_ok hnumber
    have hlength : (state.numbers ++ [state.parts.length + 1]).length = state.parts.length + 1 := by
      rw [length_append, length_singleton, hcount]
    refine ⟨⟨h.with_task _ _, hid, rfl, hlength, fun hyes => ?_⟩, ?_, ?_⟩
    · exact ⟨(hlast hyes).bytes, (hlast hyes).pipe, (hlast hyes).finishing⟩
    · change state.numbers ++ _ = List.range' 1 (state.numbers ++ _).length
      rw [hlength, range'_1_concat, ← hcount, ← hnumbered.1, Nat.add_comm]
    · exact Nat.le_trans (Nat.le_of_eq hlength) hle
  · exact advances_fail h.opened hnumbered _

theorem advances_filled {atEnd : Bool} (h : Sends before state buffer)
    (hcount : state.numbers.length = state.parts.length) (hnumbered : Numbered state)
    (hend : atEnd = true → state.bytes = [] ∧ state.pipe = false) :
    Advances before (state.filled buffer atEnd) := by
  rw [State.filled]
  split
  · rename_i hyes
    obtain ⟨hbytes, hpipe⟩ := hend hyes
    split
    · exact advances_fail h.opened hnumbered _
    · rename_i hfinishing
      rw [Bool.not_eq_true', Bool.not_eq_false] at hfinishing
      have hfinished : Finished state := ⟨hbytes, hpipe, hfinishing⟩
      split
      · rename_i hid
        exact ⟨⟨h.with_task _ _, hid, hbytes, hpipe, hfinishing⟩, hnumbered⟩
      · rename_i id hid
        split
        · exact advances_sendPart h hid hcount hnumbered fun _ => hfinished
        · rename_i hbuffer
          rw [Decidable.not_not] at hbuffer
          subst hbuffer
          exact ⟨⟨h.with_task _ _, hid, hbytes, hpipe, hfinishing⟩, hnumbered⟩
  · split
    · rename_i hid
      exact ⟨⟨h.with_task _ _, hid, hcount⟩, hnumbered⟩
    · rename_i id hid
      exact advances_sendPart h hid hcount hnumbered nofun

/-- The fields that only the writer's calls change, and whether a request failed. -/
structure SameWriter (state after : State) : Prop where
  report : after.report = state.report
  told : after.told = state.told
  done : after.done = state.done
  dropped : after.dropped = state.dropped
  failed : after.failed = state.failed
  shutdownOk : after.shutdownOk = state.shutdownOk

theorem sameWriter_sendPart (id : String) (buffer : List UInt8) (last : Bool) :
    SameWriter state (state.sendPart id buffer last) := by
  rw [State.sendPart]
  split <;> exact ⟨rfl, rfl, rfl, rfl, rfl, rfl⟩

theorem sameWriter_filled (buffer : List UInt8) (atEnd : Bool) :
    SameWriter state (state.filled buffer atEnd) := by
  rw [State.filled]
  split
  · split
    · exact ⟨rfl, rfl, rfl, rfl, rfl, rfl⟩
    · split
      · exact ⟨rfl, rfl, rfl, rfl, rfl, rfl⟩
      · split
        · exact sameWriter_sendPart _ _ _
        · exact ⟨rfl, rfl, rfl, rfl, rfl, rfl⟩
  · split
    · exact ⟨rfl, rfl, rfl, rfl, rfl, rfl⟩
    · exact sameWriter_sendPart _ _ _

/-- A step of a task that has met no failure. -/
theorem Kept.works (h : Kept before state) (hworks : state.task.failing = false)
    (hreads : state.readerGone = false) (hadvances : Advances before after)
    (hsame : SameWriter state after) : Kept before after := by
  refine h.of_task hreads hadvances hsame.report hsame.told hsame.done hsame.dropped
    fun hfailed => ?_
  rw [hsame.failed] at hfailed
  rw [h.failed hfailed] at hworks
  cases hworks

theorem kept_fill (h : Kept before state) (htask : state.task = .filling buffer)
    (hfill : state.fill partSize buffer = some after) : Kept before after := by
  have hstands := h.stands
  rw [htask] at hstands
  obtain ⟨hsends, hcount⟩ := hstands
  have hnumbered : Numbered state := ⟨h.numbers, h.numbers_le⟩
  have hworks : state.task.failing = false := by rw [htask]; rfl
  have hreads : state.readerGone = false := by rw [State.readerGone, htask]
  rw [State.fill] at hfill
  split at hfill
  · rename_i hbytes
    split at hfill
    · cases hfill
    · rename_i hpipe
      obtain rfl := some.inj hfill
      rw [Bool.not_eq_true] at hpipe
      exact h.works hworks hreads
        (advances_filled hsends hcount hnumbered fun _ => ⟨hbytes, hpipe⟩)
        (sameWriter_filled _ _)
  · -- what was in the pipe is taken, in order
    have hrest : Sends before
        { state with bytes := state.bytes.drop (max partSize 1 - buffer.length) }
        (buffer ++ state.bytes.take (max partSize 1 - buffer.length)) := by
      refine ⟨hsends.opened, hsends.parts, ?_⟩
      have haccepted := hsends.accepted
      cases hid : state.uploadId with
      | none =>
        rw [hid] at haccepted
        refine ⟨haccepted.1, haccepted.2.trans ?_⟩
        rw [List.append_assoc, take_append_drop]
      | some id =>
        rw [hid] at haccepted
        obtain ⟨stored, sent, hstored, hsent, hall⟩ := haccepted
        refine ⟨stored, sent, hstored, hsent, hall.trans ?_⟩
        rw [List.append_assoc, List.append_assoc, List.append_assoc, take_append_drop]
    dsimp only at hfill
    split at hfill
    · obtain rfl := some.inj hfill
      exact h.works hworks hreads
        ⟨⟨⟨hrest.opened, hrest.parts, hrest.accepted⟩, hcount⟩, hnumbered⟩
        ⟨rfl, rfl, rfl, rfl, rfl, rfl⟩
    · obtain rfl := some.inj hfill
      have hsame := @sameWriter_filled { state with
          bytes := state.bytes.drop (max partSize 1 - buffer.length) }
        (buffer ++ state.bytes.take (max partSize 1 - buffer.length)) false
      exact h.works hworks hreads (advances_filled hrest hcount hnumbered nofun)
        ⟨hsame.report, hsame.told, hsame.done, hsame.dropped, hsame.failed,
        hsame.shutdownOk⟩

theorem kept_givesUp {error : S3Error} (h : Kept before state) (hopened : Opened before state)
    (hreads : state.readerGone = false) : Kept before (state.givesUp error) :=
  have hfailed : Opened before { state with failed := true } := hopened
  h.of_task hreads (advances_fail hfailed ⟨h.numbers, h.numbers_le⟩ error) rfl rfl rfl rfl
    fun _ => failing_fail _ _

theorem uploads_removed {id : String} (hopened : Opened before state)
    (hid : state.uploadId = some id)
    (hremote : remote.uploads = Function.update state.remote.uploads id none) :
    remote.uploads = before.uploads := by
  rw [Opened, hid] at hopened
  obtain ⟨-, hfree, stored, huploads⟩ := hopened
  rw [hremote, huploads, Function.update_idem, ← hfree, Function.update_eq_self]

theorem kept_created {id : String} (h : Kept before state) (htask : state.task = .creating buffer)
    (hcreated : state.created buffer id = some after) : Kept before after := by
  have hstands := h.stands
  rw [htask] at hstands
  obtain ⟨hsends, hid, hcount⟩ := hstands
  obtain ⟨remote, hcreate, hafter⟩ := bind_eq_some_iff.mp hcreated
  obtain rfl := some.inj hafter
  have hopened := hsends.opened
  have haccepted := hsends.accepted
  rw [Opened, hid] at hopened
  rw [hid] at haccepted
  rw [Remote.create] at hcreate
  split at hcreate
  · cases hcreate
  · rename_i hfree
    rw [Bool.not_eq_true, isSome_eq_false_iff, isNone_iff_eq_none] at hfree
    have huploads : remote.uploads = Function.update before.uploads id (some fun _ => none) := by
      rw [← some.inj hcreate, ← hopened.2]
    have hobject : remote.object = before.object := by
      rw [← some.inj hcreate, ← hopened.1]
    have hstarted : Sends before { state with remote, uploadId := some id } buffer := by
      refine ⟨⟨hobject, hopened.2 ▸ hfree, fun _ => none, huploads⟩, hsends.parts,
        fun _ => none, [], ?_, ?_, haccepted.2⟩
      · rw [huploads, Function.update_self]
      · rw [haccepted.1]
        rfl
    have hsame := @sameWriter_sendPart { state with remote, uploadId := some id } id buffer false
    exact h.works (by rw [htask]; rfl) (by rw [State.readerGone, htask])
      (advances_sendPart hstarted rfl hcount ⟨h.numbers, h.numbers_le⟩ nofun)
      ⟨hsame.report, hsame.told, hsame.done, hsame.dropped, hsame.failed, hsame.shutdownOk⟩

/-- One more part is on the server, and none of its bytes are held any more. -/
theorem Sends.uploaded {id : String} (h : Sends before state buffer)
    (hid : state.uploadId = some id)
    (hpart : state.remote.uploadPart id (state.parts.length + 1) tag buffer = some remote) :
    Sends before { state with
      remote
      parts := state.parts ++ [(state.parts.length + 1, tag)]
      task } [] := by
  obtain ⟨stored, hstored, hremote⟩ := bind_eq_some_iff.mp hpart
  have huploads : remote.uploads = Function.update state.remote.uploads id
      (some (Function.update stored (state.parts.length + 1) (some (tag, buffer)))) := by
    rw [← some.inj hremote]
  have hobject : remote.object = state.remote.object := by rw [← some.inj hremote]
  have hopened := h.opened
  have haccepted := h.accepted
  rw [Opened, hid] at hopened
  rw [hid] at haccepted
  obtain ⟨hsame, hfree, earlier, hearlier⟩ := hopened
  obtain ⟨found, sent, hfound, hsent, hall⟩ := haccepted
  obtain rfl := some.inj (hstored.symm.trans hfound)
  have hlength : (state.parts ++ [(state.parts.length + 1, tag)]).length =
      state.parts.length + 1 := by rw [length_append, length_singleton]
  refine ⟨?_, fun part hmem => ?_, ?_⟩
  · simp only [Opened, hid]
    exact ⟨hobject.trans hsame, hfree, _, by rw [huploads, hearlier, Function.update_idem]⟩
  · rw [hlength]
    rcases mem_append.mp hmem with hold | hnew
    · exact Nat.le_succ_of_le (h.parts part hold)
    · exact Nat.le_of_eq (congrArg Prod.fst (mem_singleton.mp hnew))
  · simp only [hid]
    refine ⟨_, sent ++ buffer, by rw [huploads, Function.update_self], ?_, ?_⟩
    · exact assemble_last hsent fun part hmem => Nat.lt_succ_of_le (h.parts part hmem)
    · rw [List.append_nil]
      exact hall

theorem kept_uploaded {id : String} {number : Nat} (h : Kept before state)
    (htask : state.task = .uploading id number buffer last)
    (huploaded : state.uploaded id number buffer last tag = some after) : Kept before after := by
  have hstands := h.stands
  rw [htask] at hstands
  obtain ⟨hsends, hid, rfl, hcount, hlast⟩ := hstands
  obtain ⟨remote, hpart, hafter⟩ := bind_eq_some_iff.mp huploaded
  obtain rfl := some.inj hafter
  refine h.works (by rw [htask]; rfl) (by rw [State.readerGone, htask])
    ⟨?_, h.numbers, h.numbers_le⟩ ⟨rfl, rfl, rfl, rfl, rfl, rfl⟩
  cases last with
  | true =>
    have hfinished := hlast rfl
    exact ⟨hsends.uploaded hid hpart, hid, hfinished.bytes, hfinished.pipe, hfinished.finishing⟩
  | false =>
    refine ⟨hsends.uploaded hid hpart, hcount.trans ?_⟩
    rw [length_append, length_singleton]

theorem kept_completed {id : String} (h : Kept before state)
    (htask : state.task = .completing id) (hcompleted : state.completed id = some after) :
    Kept before after := by
  have hstands := h.stands
  rw [htask] at hstands
  obtain ⟨hsends, hid, hfinished⟩ := hstands
  obtain ⟨remote, hcomplete, hafter⟩ := bind_eq_some_iff.mp hcompleted
  obtain ⟨stored, hstored, hrest⟩ := bind_eq_some_iff.mp hcomplete
  obtain ⟨content, hcontent, hremote⟩ := bind_eq_some_iff.mp hrest
  obtain rfl := some.inj hremote
  obtain rfl := some.inj hafter
  have haccepted := hsends.accepted
  rw [hid, hfinished.bytes] at haccepted
  obtain ⟨found, sent, hfound, hsent, hall⟩ := haccepted
  obtain rfl := some.inj (hstored.symm.trans hfound)
  obtain rfl := some.inj (hcontent.symm.trans hsent)
  rw [List.append_nil, List.append_nil] at hall
  refine h.works (by rw [htask]; rfl) (by rw [State.readerGone, htask])
    ⟨⟨congrArg some hall.symm, ?_, hfinished.bytes, hfinished.pipe, hfinished.finishing⟩,
      h.numbers, h.numbers_le⟩ ⟨rfl, rfl, rfl, rfl, rfl, rfl⟩
  exact uploads_removed hsends.opened hid rfl

theorem kept_read (h : Kept before state) (hread : state.read partSize = some after) :
    Kept before after := by
  rw [State.read] at hread
  split at hread
  · rename_i buffer htask
    exact kept_fill h htask hread
  · cases hread

theorem kept_succeeds {answer : String} (h : Kept before state)
    (hsucceeds : state.succeeds answer = some after) : Kept before after := by
  have hstands := h.stands
  have hnumbered : Numbered state := ⟨h.numbers, h.numbers_le⟩
  rw [State.succeeds] at hsucceeds
  split at hsucceeds
  · rename_i buffer htask
    exact kept_created h htask hsucceeds
  · rename_i id number buffer last htask
    exact kept_uploaded h htask hsucceeds
  · rename_i buffer htask
    rw [htask] at hstands
    obtain ⟨hsends, hid, hfinished⟩ := hstands
    obtain rfl := some.inj hsucceeds
    have hopened := hsends.opened
    have haccepted := hsends.accepted
    rw [Opened, hid] at hopened
    rw [hid, hfinished.bytes, List.append_nil] at haccepted
    refine h.works (by rw [htask]; rfl) (by rw [State.readerGone, htask])
      ⟨⟨?_, hopened.2, hfinished.bytes, hfinished.pipe, hfinished.finishing⟩, hnumbered⟩
      ⟨rfl, rfl, rfl, rfl, rfl, rfl⟩
    exact congrArg some haccepted.2.symm
  · rename_i id htask
    exact kept_completed h htask hsucceeds
  · rename_i id error htask
    rw [htask] at hstands
    obtain rfl := some.inj hsucceeds
    exact h.of_task (by rw [State.readerGone, htask])
      ⟨⟨hstands.1.1, fun _ => uploads_removed hstands.1 hstands.2 rfl⟩, hnumbered⟩
      rfl rfl rfl rfl fun _ => rfl
  · cases hsucceeds

theorem kept_fails {error : S3Error} (h : Kept before state)
    (hfails : state.fails error = some after) : Kept before after := by
  have hstands := h.stands
  rw [State.fails] at hfails
  split at hfails
  case h_1 buffer htask | h_2 id number buffer last htask | h_3 buffer htask | h_4 id htask =>
      rw [htask] at hstands
      obtain rfl := some.inj hfails
      exact kept_givesUp h hstands.1.opened (by rw [State.readerGone, htask])
  case h_5 id first htask =>
      rw [htask] at hstands
      obtain rfl := some.inj hfails
      exact h.of_task (by rw [State.readerGone, htask])
        ⟨⟨hstands.1.1, nofun⟩, h.numbers, h.numbers_le⟩ rfl rfl rfl rfl fun _ => rfl
  case h_6 => cases hfails

theorem kept_sendReport (h : Kept before state) (hsent : state.sendReport = some after) :
    Kept before after := by
  rw [State.sendReport] at hsent
  split at hsent
  · rename_i result htask hreport
    obtain rfl := some.inj hsent
    refine ⟨?_, h.numbers, h.numbers_le, h.failed, ?_, ?_, h.done⟩
    · have hstands := h.stands
      change Stands before _ state.task
      rw [htask] at hstands ⊢
      cases result with
      | ok _ =>
        exact ⟨hstands.1, hstands.2.1, hstands.2.2.bytes, hstands.2.2.pipe, hstands.2.2.finishing⟩
      | error error => exact hstands
    · rintro other ⟨⟩
      exact htask
    · intro other hother
      rw [h.told other hother] at hreport
      cases hreport
  · cases hsent

theorem kept_step (h : Kept before state) {event : Event}
    (hstep : step partSize state event = some after) : Kept before after := by
  cases event with
  | write buffer =>
    rw [step, ite_none_left_eq_some] at hstep
    obtain rfl := some.inj hstep.2
    exact kept_pollWrite h buffer
  | flush =>
    rw [step, ite_none_left_eq_some] at hstep
    obtain rfl := some.inj hstep.2
    exact h
  | shutdown =>
    rw [step, ite_none_left_eq_some] at hstep
    obtain rfl := some.inj hstep.2
    exact kept_pollShutdown h
  | drop =>
    rw [step, ite_none_left_eq_some] at hstep
    obtain rfl := some.inj hstep.2
    exact kept_drop h
  | read => exact kept_read h hstep
  | succeeds answer => exact kept_succeeds h hstep
  | fails error => exact kept_fails h hstep
  | report => exact kept_sendReport h hstep

theorem kept_run {state after : State} (h : Kept before state)
    (hrun : runFrom (step partSize) state events = some after) : Kept before after := by
  induction events generalizing state with
  | nil =>
    obtain rfl := some.inj hrun
    exact h
  | cons event rest ih =>
    obtain ⟨next, hnext, hrest⟩ := bind_eq_some_iff.mp hrun
    exact ih (kept_step h hnext) hrest

/-- A shutdown comes before anything returned the upload's error. -/
def beforeError (state : State) : Event → Bool
  | .shutdown =>
    match state.told with
    | some (.error _) => false
    | _ => true
  | _ => true

/-- A shutdown that returned Ok was told of the upload's success. -/
def Honest (state : State) : Prop := state.shutdownOk = true → state.told = some (.ok ())

theorem honest_takeResult (h : Kept before state) (hhonest : Honest state)
    (hdropped : state.dropped = false) (htold : ∀ error, state.told ≠ some (.error error)) :
    Honest state.takeResult.2 := by
  rw [State.takeResult]
  split
  · rename_i hdone
    rw [Bool.not_eq_true'] at hdone
    intro _
    rcases h.done hdone with hgone | hsome
    · rw [hdropped] at hgone
      cases hgone
    · obtain ⟨result, hresult⟩ := ne_none_iff_exists'.mp hsome
      cases result with
      | ok done => exact hresult
      | error error => exact absurd hresult (htold error)
  · rename_i hdone
    rw [Bool.not_eq_true', Bool.not_eq_false] at hdone
    split
    · exact hhonest
    · exact fun _ => rfl
    · rename_i error hreport
      intro hok
      have hearlier := hhonest hok
      rw [h.told _ hearlier] at hreport
      cases hreport

/-- Only a shutdown, or a write that fails, takes the result. -/
theorem honest_uploadError (h : Kept before state) (hhonest : Honest state) (error : IoError) :
    Honest (state.uploadError error).2 := by
  rw [State.uploadError]
  split
  · rename_i reason hdone hreport
    intro hok
    rw [h.told _ (hhonest hok)] at hreport
    cases hreport
  · exact hhonest

theorem honest_pollWrite (h : Kept before state) (hhonest : Honest state)
    (buffer : List UInt8) : Honest (state.pollWrite buffer).2 := by
  rw [State.pollWrite]
  split
  · exact hhonest
  · split
    · exact honest_uploadError h hhonest .brokenPipe
    · split
      · exact hhonest
      · exact hhonest

/-- The task's steps neither take the result nor answer a shutdown. -/
theorem Honest.of_sameWriter (h : Honest state) (hsame : SameWriter state after) :
    Honest after := by
  rw [Honest, hsame.shutdownOk, hsame.told]
  exact h

theorem honest_read (h : Honest state) (hread : state.read partSize = some after) :
    Honest after := by
  rw [State.read] at hread
  split at hread
  · rw [State.fill] at hread
    split at hread
    · split at hread
      · cases hread
      · obtain rfl := some.inj hread
        exact h.of_sameWriter (sameWriter_filled _ _)
    · dsimp only at hread
      split at hread
      · obtain rfl := some.inj hread
        exact h
      · obtain rfl := some.inj hread
        rename_i buffer _ _ _
        have hrest : Honest { state with
            bytes := state.bytes.drop (max partSize 1 - buffer.length) } := h
        exact hrest.of_sameWriter (sameWriter_filled _ _)
  · cases hread

theorem honest_succeeds {answer : String} (h : Honest state)
    (hsucceeds : state.succeeds answer = some after) : Honest after := by
  rw [State.succeeds] at hsucceeds
  split at hsucceeds
  · obtain ⟨remote, -, hafter⟩ := bind_eq_some_iff.mp hsucceeds
    obtain rfl := some.inj hafter
    have hstarted : Honest { state with remote, uploadId := some answer } := h
    exact hstarted.of_sameWriter (sameWriter_sendPart _ _ _)
  · obtain ⟨remote, -, hafter⟩ := bind_eq_some_iff.mp hsucceeds
    obtain rfl := some.inj hafter
    exact h
  · obtain rfl := some.inj hsucceeds
    exact h
  · obtain ⟨remote, -, hafter⟩ := bind_eq_some_iff.mp hsucceeds
    obtain rfl := some.inj hafter
    exact h
  · obtain rfl := some.inj hsucceeds
    exact h
  · cases hsucceeds

theorem honest_step (h : Kept before state) (hhonest : Honest state) {event : Event}
    (hgood : beforeError state event = true)
    (hstep : step partSize state event = some after) : Honest after := by
  cases event with
  | write buffer =>
    rw [step, ite_none_left_eq_some] at hstep
    obtain rfl := some.inj hstep.2
    exact honest_pollWrite h hhonest buffer
  | flush =>
    rw [step, ite_none_left_eq_some] at hstep
    obtain rfl := some.inj hstep.2
    exact hhonest
  | shutdown =>
    rw [step, ite_none_left_eq_some] at hstep
    obtain rfl := some.inj hstep.2
    have hshut : Kept before { state with finishing := true, pipe := false } :=
      h.of_same ⟨rfl, rfl, rfl, rfl, rfl, rfl, rfl, rfl⟩
        (h.stands.of_same ⟨rfl, rfl, rfl, rfl, rfl, rfl, rfl, rfl⟩ rfl rfl
          fun hfinished => ⟨hfinished.bytes, rfl, rfl⟩) ⟨h.told, h.done⟩
    refine honest_takeResult hshut hhonest (Bool.not_eq_true _ ▸ hstep.1) fun error htold => ?_
    rw [beforeError, htold] at hgood
    cases hgood
  | drop =>
    rw [step, ite_none_left_eq_some] at hstep
    obtain rfl := some.inj hstep.2
    exact hhonest
  | read => exact honest_read hhonest hstep
  | succeeds answer => exact honest_succeeds hhonest hstep
  | fails error =>
    rw [step, State.fails] at hstep
    split at hstep <;> cases hstep <;> exact hhonest
  | report =>
    rw [step, State.sendReport] at hstep
    split at hstep <;> cases hstep
    exact hhonest

theorem honest_run {after : State}
    (hrun : GoodRun (step partSize) (fun s e => beforeError s e = true) state events after)
    (h : Kept before state) (hhonest : Honest state) : Honest after := by
  have hboth := hrun.invariant (p := fun s => Kept before s ∧ Honest s)
    (fun hs hgood hstep => ⟨kept_step hs.1 hstep, honest_step hs.1 hs.2 hgood hstep⟩)
    ⟨h, hhonest⟩
  exact hboth.2

theorem Kept.object (h : Kept before state) (htold : state.told = some (.ok ())) :
    state.remote.object = some state.accepted := by
  have hstands := h.stands
  rw [h.reported _ (h.told _ htold)] at hstands
  exact hstands.1

theorem Kept.unchanged (h : Kept before state)
    (hleft : state.failed = true ∨ state.finishing = false) :
    state.remote.object = before.object := by
  have hstands := h.stands
  cases htask : state.task with
  | filling buffer =>
    rw [htask] at hstands
    exact hstands.1.opened.1
  | creating buffer | uploading id number buffer last | putting buffer | completing id =>
    rw [htask] at hstands
    exact hstands.1.opened.1
  | aborting id error =>
    rw [htask] at hstands
    exact hstands.1.1
  | ended result =>
    rw [htask] at hstands
    cases result with
    | error error => exact hstands.1
    | ok done =>
      rcases hleft with hfailed | hfinishing
      · have hfailing := h.failed hfailed
        rw [htask] at hfailing
        cases hfailing
      · rw [hstands.2.2.finishing] at hfinishing
        cases hfinishing

theorem Kept.closed (h : Kept before state) {result : Except S3Error Unit}
    (htask : state.task = .ended result) (habort : state.abortFailed = false) :
    state.remote.uploads = before.uploads := by
  have hstands := h.stands
  rw [htask] at hstands
  cases result with
  | ok done => exact hstands.2.1
  | error error => exact hstands.2 habort

/-- In every state of an upload: dropped without a shutdown or with a failed request, the object
is what it was, and no multipart upload is left when the task has ended; the part numbers are
1, 2, 3 and so on; and when no shutdown came after the error was returned, one that returned
Ok means that the object is what the writes accepted. -/
theorem upload_all_or_nothing (partSize : Nat) (before : Remote) {events : List Event}
    {state : State} (hrun : runFrom (step partSize) (start before) events = some state) :
    (state.failed = true ∨ state.dropped = true ∧ state.finishing = false →
      state.remote.object = before.object ∧
        ∀ result, state.task = .ended result → state.abortFailed = false →
          state.remote.uploads = before.uploads) ∧
    state.numbers = List.range' 1 state.numbers.length ∧ state.numbers.length ≤ 10000 ∧
    (GoodRun (step partSize) (fun s e => beforeError s e = true) (start before) events state →
      state.shutdownOk = true → state.remote.object = some state.accepted) := by
  have hkept := kept_run (kept_start before) hrun
  refine ⟨fun hleft => ⟨?_, fun result => hkept.closed⟩, hkept.numbers, hkept.numbers_le,
    fun hgood hok => ?_⟩
  · exact hkept.unchanged (hleft.imp_right And.right)
  · exact hkept.object (honest_run hgood (kept_start before) nofun hok)

end Invariant

namespace WriterWitness

def nothing : Remote := ⟨none, fun _ => none⟩

/-- A byte is written, its request fails, and the writer is shut down twice. -/
def shutTwice : List Event :=
  [.write [7], .shutdown, .read, .read, .fails .timeout, .report, .shutdown, .shutdown]

/-- The second shutdown returns Ok, but there is no object. -/
theorem second_shutdown :
    (runFrom (step 5) (start nothing) shutTwice).map
      (fun state => (state.shutdownOk, state.accepted, state.remote.object)) =
        some (true, [7], none) := rfl

/-- Seven bytes in parts of three. -/
def inParts : List Event :=
  [.write [1, 2, 3, 4], .read, .succeeds "id", .succeeds "a", .read, .write [5, 6, 7], .shutdown,
    .read, .succeeds "b", .read, .read, .succeeds "c", .succeeds "", .report, .shutdown]

theorem in_parts :
    ∃ state, runFrom (step 3) (start nothing) inParts = some state ∧
      state.shutdownOk = true ∧ state.numbers = [1, 2, 3] ∧
        state.remote.object = some state.accepted :=
  have hgood : (runGood (step 3) (fun s e => beforeError s e = true) (start nothing)
      inParts).isSome = true := by decide
  ⟨_, rfl, rfl, rfl, (upload_all_or_nothing 3 nothing rfl).2.2.2 (GoodRun.of_isSome hgood rfl) rfl⟩

end WriterWitness

end Opensesh.S3.Upload
