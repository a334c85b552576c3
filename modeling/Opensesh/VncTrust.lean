/-
A VNC pane and its session task: the pane answers the certificates that connections present,
in a mailbox that keeps only the latest one, and its answers are matched by their order.
-/
import Opensesh.Machine
import Opensesh.VncDrive

namespace Opensesh.VncTrust

open List
open Vnc (ToHelper Control)

/-- What is known about a server's certificate. -/
inductive Trust where
  | known
  | new
  | changed (known : String)
deriving DecidableEq

inductive VncError where
  | auth
  | refused
  | timeout
  | io
  | unsupported
  | protocol
deriving DecidableEq

def VncError.code : VncError → String
  | .auth => "auth"
  | .refused => "refused"
  | .timeout => "timeout"
  | .io => "network"
  | .unsupported => "unsupported"
  | .protocol => "protocol"

inductive Status where
  | connecting
  | connected
  | disconnected (code : String)
deriving DecidableEq

/-- A certificate, and the connection that presented it. -/
structure Certificate where
  fingerprint : String
  connection : Nat
deriving DecidableEq

/-- A message to the task; `about` is what an acceptance was sent for, which it does not say. -/
structure Letter where
  message : ToHelper
  about : Option Certificate := none

def accept (certificate : Certificate) : Letter := ⟨.control (.certificate true), some certificate⟩

/-- Where the session task is. -/
inductive Task where
  | starting
  | connecting
  | deciding (fingerprint : String)
  /-- Past the certificate step, with what was accepted in it. -/
  | handshaking (accepted : Option String)
  | running
  | waiting
  | finished
deriving DecidableEq

/-- A connection that went past the certificate step: what this task had accepted before, and
what the acceptance it consumed was sent for. -/
structure Passed where
  fingerprint : String
  before : List String
  answer : Option Certificate
deriving DecidableEq

/-- The task, its inbox, what it remembers, and what the pane hasn't seen yet. -/
structure Session where
  task : Task := .starting
  inbox : List Letter := []
  password : List Char := []
  trusted : Option String := none
  status : Option Status := none
  certificate : Option Certificate := none
  ended : Bool := false
  latest : Option Status := none
  /-- What this task accepted so far. -/
  accepted : List String := []

inductive Question where
  | certificate (certificate : Certificate)
  | password (first : Bool)
  | jump

/-- How the jump host's connection is doing. -/
inductive Link where
  | connecting
  | connected
  | retrying (inSecs : Nat) (reason : String)
  | ended (code reason : String)
deriving DecidableEq

/-- What a pane connects to: through jump hosts, with a password that is saved by now. -/
structure Plan where
  jump : Bool
  saved : Bool

structure Pane where
  hasSession : Bool := false
  running : Bool := false
  /-- The connection's text says that it is disconnected. -/
  said : Bool := false
  question : Option (Nat × Question) := none
  nextQuestion : Nat := 1
  connectSent : Bool := false
  helperGone : Bool := false
  jumpPort : Option Nat := none
  jumpUp : Bool := false
  jumpEnded : Bool := false
  /-- Saved passwords that were asked for and haven't come. -/
  lookups : Nat := 0

structure World where
  session : Session := {}
  pane : Pane := {}
  /-- How many connections were begun, what went past the certificate step, and the
  certificates that the store knew or the user accepted. -/
  connection : Nat := 0
  passes : List Passed := []
  approved : List String := []

namespace Session

/-- Tells the pane. -/
def tell (session : Session) (status : Status) : Session :=
  { session with status := some status, latest := some status }

def finish (session : Session) : Session := { session with task := .finished, ended := true }

/-- What was accepted is remembered, however the connection ended. -/
def remember (session : Session) : Session :=
  match session.task with
  | .handshaking (some fingerprint) => { session with trusted := some fingerprint }
  | _ => session

end Session

namespace World

def withSession (world : World) (session : Session) : World := { world with session }

/-- A connection begins. -/
def connect (world : World) : World :=
  { world with
    session := { world.session with task := .connecting }.tell .connecting
    connection := world.connection + 1 }

/-- The connection ends: the pane is told why. -/
def fail (world : World) (error : VncError) : World :=
  world.withSession { world.session.remember.tell (.disconnected error.code) with task := .waiting }

/-- The task accepts the certificate it asked about. -/
def passed (world : World) (fingerprint : String) (answer : Option Certificate) : World :=
  { world with
    session := { world.session with
      task := .handshaking (some fingerprint)
      accepted := fingerprint :: world.session.accepted }
    passes := ⟨fingerprint, world.session.accepted, answer⟩ :: world.passes }

/-- The task gets a message while it waits for one. -/
def handle (world : World) (letter : Letter) : World :=
  match world.session.task, letter.message with
  | .starting, .control .connect => world.connect
  | .waiting, .control .reconnect => world.connect
  | .deciding fingerprint, .control (.certificate accept) =>
    if accept then world.passed fingerprint letter.about
    else world.fail .refused
  | _, .control .disconnect => world.withSession world.session.finish
  | .deciding _, _ => world
  | _, .password password => world.withSession { world.session with password }
  | _, _ => world

/-- Whether the task waits for a message. -/
def Task.receives : Task → Bool
  | .connecting | .handshaking _ | .finished => false
  | _ => true

def take (world : World) : Option World :=
  match world.session.inbox with
  | [] => none
  | letter :: inbox =>
    if Task.receives world.session.task then
      some ((world.withSession { world.session with inbox }).handle letter)
    else none

/-- A VeNCrypt server presents its certificate: the one that is trusted, or the app is asked. -/
def present (world : World) (fingerprint : String) : Option World :=
  if world.session.task = .connecting then
    if world.session.trusted = some fingerprint then
      some { world with
        session := { world.session with task := .handshaking none }
        passes := ⟨fingerprint, world.session.accepted, none⟩ :: world.passes }
    else
      some (world.withSession { world.session with
        task := .deciding fingerprint
        certificate := some ⟨fingerprint, world.connection⟩ })
  else none

def connected (world : World) : Option World :=
  match world.session.task with
  | .connecting | .handshaking _ =>
    some (world.withSession { world.session.remember.tell .connected with task := .running })
  | _ => none

/-- A connection fails or times out, or a session ends. -/
def fails (world : World) (error : VncError) : Option World :=
  match world.session.task with
  | .connecting | .handshaking _ | .deciding _ | .running => some (world.fail error)
  | _ => none

/-- The server ends a session. -/
def closes (world : World) : Option World :=
  if world.session.task = .running then
    some (world.withSession { world.session.tell (.disconnected "ended") with task := .waiting })
  else none

def send (world : World) (letter : Letter) : World :=
  if world.pane.hasSession then
    world.withSession { world.session with inbox := world.session.inbox ++ [letter] }
  else world

def withPane (world : World) (pane : Pane) : World := { world with pane }

def setStatus (world : World) (status : Status) : World :=
  world.withPane { world.pane with
    running := status = .connected
    said := match status with
      | .disconnected _ => true
      | _ => false }

/-- Asks the user; a question it replaces is dropped. -/
def ask (world : World) (question : Question) : World :=
  world.withPane { world.pane with
    question := some (world.pane.nextQuestion, question)
    nextQuestion := world.pane.nextQuestion + 1 }

def drainStatus (world : World) : Option Status → World
  | none => world
  | some status =>
    let shown := world.setStatus status
    -- a refused password is asked for again
    if status = .disconnected "auth" then shown.ask (.password false) else shown

/-- What the store says about a certificate decides whether the user is asked. -/
def drainCertificate (world : World) (trust : Option Trust) : Option Certificate → World
  | none => world
  | some certificate =>
    if trust = some .known then
      { world with approved := certificate.fingerprint :: world.approved }.send (accept certificate)
    else world.ask (.certificate certificate)

def drainEnded (world : World) (ended : Bool) : World :=
  if ended then
    let gone := world.withPane { world.pane with helperGone := true }
    if world.pane.said then gone else gone.setStatus (.disconnected "ended")
  else world

/-- The pane takes what happened. -/
def drain (world : World) (trust : Option Trust) : World :=
  if world.pane.hasSession then
    let session := world.session
    let taken := world.withSession { session with
      status := none, certificate := none, ended := false }
    ((taken.drainStatus session.status).drainCertificate trust session.certificate).drainEnded
      session.ended
  else world

def connectWith (world : World) (password : List Char) (first : Bool) : World :=
  if first then
    let sent := (world.send ⟨.password password, none⟩).send ⟨.control .connect, none⟩
    sent.withPane { sent.pane with connectSent := true }
  else (world.send ⟨.password password, none⟩).send ⟨.control .reconnect, none⟩

def beginPassword (plan : Plan) (world : World) : World :=
  if plan.saved then
    let shown := world.setStatus .connecting
    shown.withPane { shown.pane with lookups := shown.pane.lookups + 1 }
  else world.ask (.password true)

/-- A saved password comes: there is one, there is none, or the vault is locked. -/
def savedPassword (world : World) (found : Except Unit (Option (List Char))) : Option World :=
  if world.pane.lookups = 0 then none
  else
    let waited := world.withPane { world.pane with lookups := world.pane.lookups - 1 }
    match found with
    | .ok (some password) => some (waited.connectWith password true)
    | .ok none => some (waited.ask (.password true))
    | .error () => some (waited.setStatus (.disconnected "locked"))

/-- Goes on once the tunnel listens and its connection is up. -/
def jumpReady (plan : Plan) (world : World) : World :=
  if !world.pane.jumpUp || world.pane.jumpPort.isNone || world.pane.running then world
  else if world.pane.connectSent then world.send ⟨.control .reconnect, none⟩
  else world.beginPassword plan

def jumpFailed (world : World) (code : String) : World :=
  (world.withPane { world.pane with jumpUp := false, jumpEnded := true }).setStatus
    (.disconnected code)

/-- The jump host's connection changed. -/
def jumpLink (plan : Plan) (world : World) : Link → World
  | .connected => (world.withPane { world.pane with jumpUp := true }).jumpReady plan
  | .connecting => world.withPane { world.pane with jumpUp := false }
  | .retrying .. =>
    world.withPane { world.pane with jumpUp := false, said := true, running := false }
  | .ended code _ => world.jumpFailed code

/-- The tunnel listens, or failed. -/
def jumpReport (plan : Plan) (world : World) : Option Nat → World
  | some port => (world.withPane { world.pane with jumpPort := some port }).jumpReady plan
  | none => world.jumpFailed "listen"

def openJump (plan : Plan) (world : World) : World :=
  if plan.jump && world.pane.hasSession then
    (world.withPane { world.pane with jumpUp := false, jumpEnded := false }).setStatus .connecting
  else world

def begin (plan : Plan) (world : World) : World :=
  if plan.jump && !world.pane.jumpUp then world.openJump plan else world.beginPassword plan

def accepts (action : String) : Bool := action = "trust-once" || action = "trust-save"

/-- The user answers the question that is shown. -/
def answerQuestion (world : World) (action : String) (password : List Char) : Question → World
  | .certificate certificate =>
    if accepts action then
      { world with approved := certificate.fingerprint :: world.approved }.send (accept certificate)
    else world.send ⟨.control (.certificate false), none⟩
  | .password first =>
    if action = "submit" || action = "submit-remember" then world.connectWith password first
    else if first then world.setStatus (.disconnected "cancelled")
    else world
  | .jump => world

def answerPrompt (world : World) (id : Nat) (action : String) (password : List Char) : World :=
  match world.pane.question with
  | some (waiting, question) =>
    if waiting = id then
      (world.withPane { world.pane with question := none }).answerQuestion action password question
    else world
  | none => world

/-- Leaves the session: another task is started for the pane. -/
def leave (world : World) : World :=
  let told := world.send ⟨.control .disconnect, none⟩
  told.withPane { told.pane with hasSession := false, helperGone := false }

def reconnect (plan : Plan) (world : World) : World :=
  if world.pane.running || world.pane.question.isSome then world
  else if world.pane.helperGone || !world.pane.hasSession then world.leave
  else if world.pane.jumpEnded then world.openJump plan
  else if world.pane.connectSent then world.send ⟨.control .reconnect, none⟩
  else world.begin plan

def disconnect (world : World) : World :=
  if !world.pane.hasSession || world.pane.helperGone then world
  else
    let sent := world.send ⟨.control .disconnect, none⟩
    (sent.withPane { sent.pane with helperGone := true, question := none }).setStatus
      (.disconnected "closed")

/-- The pane's item is made again for the session that is there. -/
def remake (world : World) : World :=
  if world.pane.hasSession then
    let again := world.withPane {
      hasSession := true
      connectSent := world.session.latest.isSome
      helperGone := decide (world.session.task = .finished) }
    match world.session.latest with
    | some status => again.setStatus status
    | none => again
  else world

end World

inductive Event where
  | take
  | present (fingerprint : String)
  | connected
  | fails (error : VncError)
  | closes
  | drain (trust : Option Trust)
  | answer (id : Nat) (action : String) (password : List Char)
  | savedPassword (found : Except Unit (Option (List Char)))
  /-- Here and below: whether the host or its identity has a saved password by now. -/
  | reconnect (saved : Bool)
  | disconnect
  | jumpLink (link : Link) (saved : Bool)
  | jumpReport (port : Option Nat) (saved : Bool)
  | jumpAsks
  | remake
deriving DecidableEq

def step (jump : Bool) (world : World) : Event → Option World
  | .take => world.take
  | .present fingerprint => world.present fingerprint
  | .connected => world.connected
  | .fails error => world.fails error
  | .closes => world.closes
  | .drain trust => some (world.drain trust)
  | .answer id action password => some (world.answerPrompt id action password)
  | .savedPassword found => world.savedPassword found
  | .reconnect saved => some (world.reconnect ⟨jump, saved⟩)
  | .disconnect => some world.disconnect
  | .jumpLink link saved => some (world.jumpLink ⟨jump, saved⟩ link)
  | .jumpReport port saved => some (world.jumpReport ⟨jump, saved⟩ port)
  | .jumpAsks => some (world.ask .jump)
  | .remake => some world.remake

/-- A pane starts a session task. -/
def launch (plan : Plan) (pane : Pane) : World :=
  ({ pane := { pane with
      hasSession := true, question := none, connectSent := false, helperGone := false } } :
    World).begin plan

/-- The certificate that a pane's step sends an acceptance for. -/
def World.acceptedBy (world : World) : Event → Option Certificate
  | .drain (some .known) => world.session.certificate
  | .answer id action _ =>
    match world.pane.question with
    | some (waiting, .certificate certificate) =>
      if waiting = id ∧ World.accepts action then some certificate else none
    | _ => none
  | _ => none

/-- Whether the task's next message makes it connect. -/
def World.begins (world : World) : Bool :=
  match world.session.task, world.session.inbox with
  | .starting, letter :: _ => letter.message = .control .connect
  | .waiting, letter :: _ => letter.message = .control .reconnect
  | _, _ => false

def Letter.isAcceptance (letter : Letter) : Bool := letter.message = .control (.certificate true)

/-- An acceptance is sent only for the last connection's certificate, and none waits in the
inbox when another connection begins. -/
def World.timely (world : World) (event : Event) : Bool :=
  (world.acceptedBy event).all (fun certificate => certificate.connection = world.connection) &&
    !(decide (event = .take) && world.begins && world.session.inbox.tail.any Letter.isAcceptance)

section Invariant

variable {plan : Plan} {world middle after : World}

/-- A certificate that may still be answered, or that an answer is under way for. -/
def Held (world : World) (certificate : Certificate) : Prop :=
  world.session.certificate = some certificate ∨
    (∃ id, world.pane.question = some (id, .certificate certificate)) ∨
      ∃ letter ∈ world.session.inbox, letter.about = some certificate

/-- A message that accepts nothing. -/
def Plain (letter : Letter) : Prop := letter.about = none ∧ letter.isAcceptance = false

/-- A certificate of the connection that is under way is the one it asks about. -/
def Asked (certificate : Certificate) : Task → Prop
  | .connecting => False
  | .deciding fingerprint => certificate.fingerprint = fingerprint
  | _ => True

/-- It is what the task had accepted before, or the acceptance was sent for it. -/
def Justified (approved : List String) (pass : Passed) : Prop :=
  pass.fingerprint ∈ pass.before ∨
    ∃ certificate, pass.answer = some certificate ∧
      certificate.fingerprint = pass.fingerprint ∧ certificate.fingerprint ∈ approved

/-- An acceptance of the last connection's certificate. -/
def Timely (world : World) (letter : Letter) : Prop :=
  ∃ certificate, letter = accept certificate ∧ certificate.connection = world.connection ∧
    certificate.fingerprint ∈ world.approved

structure Kept (world : World) : Prop where
  older : ∀ certificate, Held world certificate → certificate.connection ≤ world.connection
  asked : ∀ certificate, Held world certificate → certificate.connection = world.connection →
    Asked certificate world.session.task
  letters : ∀ letter ∈ world.session.inbox, Plain letter ∨ Timely world letter
  trusted : ∀ fingerprint, world.session.trusted = some fingerprint →
    fingerprint ∈ world.session.accepted
  handshaking : ∀ fingerprint, world.session.task = .handshaking (some fingerprint) →
    fingerprint ∈ world.session.accepted
  justified : ∀ pass ∈ world.passes, Justified world.approved pass

/-- What the pane's steps do: they send, ask about what the task presented, and forget. -/
structure Moves (world after : World) : Prop where
  task : after.session.task = world.session.task
  trusted : after.session.trusted = world.session.trusted
  accepted : after.session.accepted = world.session.accepted
  connection : after.connection = world.connection
  passes : after.passes = world.passes
  approved : ∀ fingerprint ∈ world.approved, fingerprint ∈ after.approved
  held : ∀ certificate, Held after certificate → Held world certificate
  letters : ∀ letter ∈ after.session.inbox,
    letter ∈ world.session.inbox ∨ Plain letter ∨ Timely after letter

theorem Moves.refl (world : World) : Moves world world :=
  ⟨rfl, rfl, rfl, rfl, rfl, fun _ => id, fun _ => id, fun _ => Or.inl⟩

variable {letter : Letter} {certificate : Certificate} {event : Event} {task : Task}

theorem Timely.of_moves (h : Timely world letter) (hmoves : Moves world after) :
    Timely after letter := by
  obtain ⟨certificate, heq, hconnection, happroved⟩ := h
  exact ⟨certificate, heq, hconnection.trans hmoves.connection.symm, hmoves.approved _ happroved⟩

theorem Moves.trans (h : Moves world middle) (hnext : Moves middle after) : Moves world after where
  task := hnext.task.trans h.task
  trusted := hnext.trusted.trans h.trusted
  accepted := hnext.accepted.trans h.accepted
  connection := hnext.connection.trans h.connection
  passes := hnext.passes.trans h.passes
  approved := fun fingerprint hold => hnext.approved _ (h.approved _ hold)
  held := fun certificate hheld => h.held _ (hnext.held _ hheld)
  letters := by
    intro letter hletter
    rcases hnext.letters letter hletter with hmiddle | hnew
    · rcases h.letters letter hmiddle with hold | hplain | htimely
      · exact Or.inl hold
      · exact Or.inr (Or.inl hplain)
      · exact Or.inr (Or.inr (htimely.of_moves hnext))
    · exact Or.inr hnew

theorem Justified.mono {approved more : List String} {pass : Passed}
    (h : Justified approved pass)
    (hmore : ∀ fingerprint ∈ approved, fingerprint ∈ more) : Justified more pass := by
  refine h.imp_right ?_
  rintro ⟨certificate, hanswer, hsame, happroved⟩
  exact ⟨certificate, hanswer, hsame, hmore _ happroved⟩

theorem Kept.of_moves (h : Kept world) (hmoves : Moves world after) : Kept after where
  older := fun certificate hheld => by
    rw [hmoves.connection]
    exact h.older _ (hmoves.held _ hheld)
  asked := fun certificate hheld hconnection => by
    rw [hmoves.task]
    exact h.asked _ (hmoves.held _ hheld) (hconnection.trans hmoves.connection)
  letters := by
    intro letter hletter
    rcases hmoves.letters letter hletter with hold | hnew
    · exact (h.letters letter hold).imp_right fun htimely => htimely.of_moves hmoves
    · exact hnew
  trusted := by
    rw [hmoves.trusted, hmoves.accepted]
    exact h.trusted
  handshaking := by
    rw [hmoves.task, hmoves.accepted]
    exact h.handshaking
  justified := by
    rw [hmoves.passes]
    exact fun pass hpass => (h.justified pass hpass).mono hmoves.approved

theorem moves_withPane (pane : Pane)
    (hquestion : ∀ id certificate, pane.question = some (id, .certificate certificate) →
      Held world certificate) : Moves world (world.withPane pane) := by
  refine ⟨rfl, rfl, rfl, rfl, rfl, fun _ => id, fun certificate hheld => ?_, fun _ => Or.inl⟩
  rcases hheld with hmailbox | ⟨id, hasked⟩ | hletter
  · exact Or.inl hmailbox
  · exact hquestion id certificate hasked
  · exact Or.inr (Or.inr hletter)

theorem moves_pane (world : World) (pane : Pane) (hquestion : pane.question = world.pane.question) :
    Moves world (world.withPane pane) :=
  moves_withPane pane fun id _ hasked => Or.inr (Or.inl ⟨id, hquestion.symm.trans hasked⟩)

theorem moves_unasked (world : World) (pane : Pane) (hquestion : pane.question = none) :
    Moves world (world.withPane pane) :=
  moves_withPane pane fun id certificate hasked => by
    rw [hquestion] at hasked
    cases hasked

theorem moves_send (world : World) (hplain : Plain letter) : Moves world (world.send letter) := by
  rw [World.send]
  split
  · refine ⟨rfl, rfl, rfl, rfl, rfl, fun _ => id, fun certificate hheld => ?_,
      fun other hother => ?_⟩
    · rcases hheld with hmailbox | hquestion | ⟨other, hother, habout⟩
      · exact Or.inl hmailbox
      · exact Or.inr (Or.inl hquestion)
      · rcases mem_append.mp hother with hold | hnew
        · exact Or.inr (Or.inr ⟨other, hold, habout⟩)
        · rw [mem_singleton.mp hnew, hplain.1] at habout
          cases habout
    · rcases mem_append.mp hother with hold | hnew
      · exact Or.inl hold
      · rw [mem_singleton.mp hnew]
        exact Or.inr (Or.inl hplain)
  · exact Moves.refl world

theorem moves_setStatus (status : Status) : Moves world (world.setStatus status) :=
  moves_pane world _ rfl

theorem moves_ask {question : Question}
    (hquestion : ∀ certificate, question = .certificate certificate → Held world certificate) :
    Moves world (world.ask question) := by
  refine moves_withPane _ fun id certificate hasked => hquestion certificate ?_
  exact (Prod.mk.inj (Option.some.inj hasked)).2

theorem moves_drainStatus (status : Option Status) : Moves world (world.drainStatus status) := by
  cases status with
  | none => exact Moves.refl world
  | some status =>
    rw [World.drainStatus]
    split
    · exact (moves_setStatus status).trans (moves_ask nofun)
    · exact moves_setStatus status

theorem moves_drainEnded (ended : Bool) : Moves world (world.drainEnded ended) := by
  rw [World.drainEnded]
  split
  · have hgone : Moves world (world.withPane { world.pane with helperGone := true }) :=
      moves_pane world _ rfl
    dsimp only
    split
    · exact hgone
    · exact hgone.trans (moves_setStatus _)
  · exact Moves.refl world

theorem plain_password (password : List Char) : Plain ⟨.password password, none⟩ := ⟨rfl, rfl⟩

theorem plain_control (control : Control) (h : control ≠ .certificate true) :
    Plain ⟨.control control, none⟩ :=
  ⟨rfl, decide_eq_false fun heq => h (ToHelper.control.inj heq)⟩

theorem moves_connectWith (password : List Char) (first : Bool) :
    Moves world (world.connectWith password first) := by
  rw [World.connectWith]
  split
  · have hsent := (moves_send world (plain_password password)).trans
      (moves_send _ (plain_control .connect (by decide)))
    exact hsent.trans (moves_pane _ _ rfl)
  · exact (moves_send world (plain_password password)).trans
      (moves_send _ (plain_control .reconnect (by decide)))

theorem moves_beginPassword : Moves world (world.beginPassword plan) := by
  rw [World.beginPassword]
  split
  · exact (moves_setStatus _).trans (moves_pane _ _ rfl)
  · exact moves_ask nofun

theorem moves_jumpReady : Moves world (world.jumpReady plan) := by
  rw [World.jumpReady]
  split
  · exact Moves.refl world
  · split
    · exact moves_send world (plain_control .reconnect (by decide))
    · exact moves_beginPassword

theorem moves_jumpFailed (code : String) : Moves world (world.jumpFailed code) :=
  (moves_pane world { world.pane with jumpUp := false, jumpEnded := true } rfl).trans
    (moves_setStatus _)

theorem moves_jumpLink (link : Link) : Moves world (world.jumpLink plan link) := by
  cases link with
  | connected =>
    exact (moves_pane world { world.pane with jumpUp := true } rfl).trans moves_jumpReady
  | connecting => exact moves_pane world _ rfl
  | retrying inSecs reason => exact moves_pane world _ rfl
  | ended code reason => exact moves_jumpFailed code

theorem moves_jumpReport (port : Option Nat) : Moves world (world.jumpReport plan port) := by
  cases port with
  | some port =>
    exact (moves_pane world { world.pane with jumpPort := some port } rfl).trans moves_jumpReady
  | none => exact moves_jumpFailed "listen"

theorem moves_openJump : Moves world (world.openJump plan) := by
  rw [World.openJump]
  split
  · exact (moves_pane world { world.pane with jumpUp := false, jumpEnded := false } rfl).trans
      (moves_setStatus _)
  · exact Moves.refl world

theorem moves_begin : Moves world (world.begin plan) := by
  rw [World.begin]
  split
  · exact moves_openJump
  · exact moves_beginPassword

theorem moves_leave : Moves world world.leave :=
  (moves_send world (plain_control .disconnect (by decide))).trans (moves_pane _ _ rfl)

theorem moves_reconnect : Moves world (world.reconnect plan) := by
  rw [World.reconnect]
  split
  · exact Moves.refl world
  · split
    · exact moves_leave
    · split
      · exact moves_openJump
      · split
        · exact moves_send world (plain_control .reconnect (by decide))
        · exact moves_begin

theorem moves_disconnect : Moves world world.disconnect := by
  rw [World.disconnect]
  split
  · exact Moves.refl world
  · have hsent := moves_send world (plain_control .disconnect (by decide))
    exact (hsent.trans (moves_unasked _ _ rfl)).trans (moves_setStatus _)

theorem moves_remake : Moves world world.remake := by
  rw [World.remake]
  split
  · dsimp only
    split
    · exact (moves_unasked _ _ rfl).trans (moves_setStatus _)
    · exact moves_unasked _ _ rfl
  · exact Moves.refl world

theorem Moves.accepts (h : Moves world middle) (hheld : Held world certificate)
    (hconnection : certificate.connection = world.connection) :
    Moves world (({ middle with
      approved := certificate.fingerprint :: middle.approved } : World).send
        (accept certificate)) := by
  have happroved : Moves world { middle with
      approved := certificate.fingerprint :: middle.approved } := by
    refine h.trans ⟨rfl, rfl, rfl, rfl, rfl, fun _ => mem_cons_of_mem _, fun _ => id,
      fun _ => Or.inl⟩
  rw [World.send]
  split
  · refine ⟨happroved.task, happroved.trusted, happroved.accepted, happroved.connection,
      happroved.passes, happroved.approved, fun other hother => ?_, fun letter hletter => ?_⟩
    · rcases hother with hmailbox | hquestion | ⟨letter, hletter, habout⟩
      · exact happroved.held _ (Or.inl hmailbox)
      · exact happroved.held _ (Or.inr (Or.inl hquestion))
      · rcases mem_append.mp hletter with hold | hnew
        · exact happroved.held _ (Or.inr (Or.inr ⟨letter, hold, habout⟩))
        · rw [mem_singleton.mp hnew] at habout
          obtain rfl := Option.some.inj habout
          exact hheld
    · rcases mem_append.mp hletter with hold | hnew
      · exact happroved.letters letter hold
      · rw [mem_singleton.mp hnew]
        exact Or.inr (Or.inr ⟨certificate, rfl, hconnection.trans h.connection.symm, mem_cons_self⟩)
  · exact happroved

/-- A question about a certificate that was presented. -/
theorem Moves.asks (h : Moves world middle) (hheld : Held world certificate) :
    Moves world (middle.ask (.certificate certificate)) := by
  refine ⟨h.task, h.trusted, h.accepted, h.connection, h.passes, h.approved,
    fun other hother => ?_, h.letters⟩
  rcases hother with hmailbox | ⟨id, hquestion⟩ | hletter
  · exact h.held _ (Or.inl hmailbox)
  · have hsame := (Prod.mk.inj (Option.some.inj hquestion)).2
    rw [← Question.certificate.inj hsame]
    exact hheld
  · exact h.held _ (Or.inr (Or.inr hletter))

theorem timely_acceptedBy (htimely : world.timely event = true)
    (h : world.acceptedBy event = some certificate) :
    certificate.connection = world.connection := by
  rw [World.timely, Bool.and_eq_true, h] at htimely
  exact of_decide_eq_true htimely.1

theorem moves_drain {trust : Option Trust} (htimely : world.timely (.drain trust) = true) :
    Moves world (world.drain trust) := by
  rw [World.drain]
  split
  · have htaken : Moves world (world.withSession { world.session with
        status := none, certificate := none, ended := false }) := by
      refine ⟨rfl, rfl, rfl, rfl, rfl, fun _ => id, fun certificate hheld => ?_, fun _ => Or.inl⟩
      rcases hheld with hmailbox | hquestion | hletter
      · cases hmailbox
      · exact Or.inr (Or.inl hquestion)
      · exact Or.inr (Or.inr hletter)
    have hshown := htaken.trans (moves_drainStatus world.session.status)
    refine Moves.trans ?_ (moves_drainEnded world.session.ended)
    cases hcertificate : world.session.certificate with
    | none => exact hshown
    | some certificate =>
      have hheld : Held world certificate := Or.inl hcertificate
      rw [World.drainCertificate]
      split
      · rename_i hknown
        subst hknown
        exact hshown.accepts hheld (timely_acceptedBy htimely hcertificate)
      · exact hshown.asks hheld
  · exact Moves.refl world

theorem moves_answerPrompt {id : Nat} {action : String} {password : List Char}
    (htimely : world.timely (.answer id action password) = true) :
    Moves world (world.answerPrompt id action password) := by
  rw [World.answerPrompt]
  split
  · rename_i waiting question hquestion
    split
    · rename_i hwaiting
      have hnone := moves_unasked world { world.pane with question := none } rfl
      cases question with
      | certificate certificate =>
        rw [World.answerQuestion]
        split
        · rename_i haccepts
          refine hnone.accepts (Or.inr (Or.inl ⟨waiting, hquestion⟩)) ?_
          refine timely_acceptedBy htimely ?_
          rw [World.acceptedBy, hquestion]
          exact if_pos ⟨hwaiting, haccepts⟩
        · exact hnone.trans (moves_send _ (plain_control (.certificate false) (by decide)))
      | password first =>
        rw [World.answerQuestion]
        split
        · exact hnone.trans (moves_connectWith password first)
        · split
          · exact hnone.trans (moves_setStatus _)
          · exact hnone
      | jump => exact hnone
    · exact Moves.refl world
  · exact Moves.refl world

theorem moves_savedPassword {found : Except Unit (Option (List Char))}
    (h : world.savedPassword found = some after) : Moves world after := by
  rw [World.savedPassword] at h
  split at h
  · cases h
  · have hwaited := moves_pane world { world.pane with lookups := world.pane.lookups - 1 } rfl
    dsimp only at h
    split at h
    · obtain rfl := Option.some.inj h
      exact hwaited.trans (moves_connectWith _ true)
    · obtain rfl := Option.some.inj h
      exact hwaited.trans (moves_ask nofun)
    · obtain rfl := Option.some.inj h
      exact hwaited.trans (moves_setStatus _)

/-- The task goes on, with fewer messages and what it remembers. -/
theorem Kept.of_session (h : Kept world) {session : Session}
    (hcertificate : session.certificate = world.session.certificate)
    (hinbox : ∀ letter ∈ session.inbox, letter ∈ world.session.inbox)
    (htask : ∀ certificate, Asked certificate world.session.task → Asked certificate session.task)
    (htrusted : ∀ fingerprint, session.trusted = some fingerprint → fingerprint ∈ session.accepted)
    (hshaking : ∀ fingerprint, session.task = .handshaking (some fingerprint) →
      fingerprint ∈ session.accepted) : Kept (world.withSession session) := by
  have hheld : ∀ certificate, Held (world.withSession session) certificate →
      Held world certificate := by
    rintro certificate (hmailbox | hquestion | ⟨letter, hletter, habout⟩)
    · exact Or.inl (hcertificate.symm.trans hmailbox)
    · exact Or.inr (Or.inl hquestion)
    · exact Or.inr (Or.inr ⟨letter, hinbox letter hletter, habout⟩)
  exact ⟨fun certificate hc => h.older _ (hheld _ hc),
    fun certificate hc hconnection => htask _ (h.asked _ (hheld _ hc) hconnection),
    fun letter hletter => h.letters letter (hinbox letter hletter), htrusted, hshaking,
    h.justified⟩

/-- A task that isn't asking, or about to. -/
def Task.quiet : Task → Bool
  | .connecting | .deciding _ => false
  | _ => true

theorem asked_of_quiet (h : task.quiet = true) : Asked certificate task := by
  cases task with
  | connecting | deciding => cases h
  | starting | handshaking | running | waiting | finished => trivial

theorem Kept.remembered (h : Kept world) {fingerprint : String}
    (htrusted : world.session.remember.trusted = some fingerprint) :
    fingerprint ∈ world.session.accepted := by
  rw [Session.remember] at htrusted
  split at htrusted
  · rename_i accepted htask
    obtain rfl := Option.some.inj htrusted
    exact h.handshaking _ htask
  · exact h.trusted _ htrusted

theorem remember_same (session : Session) :
    session.remember.certificate = session.certificate ∧
      session.remember.inbox = session.inbox ∧ session.remember.accepted = session.accepted := by
  rw [Session.remember]
  split <;> exact ⟨rfl, rfl, rfl⟩

/-- The end of the certificate step, and of the connection. -/
theorem Kept.settled (h : Kept world) (status : Status) (hquiet : task.quiet = true)
    (htask : ∀ fingerprint, task ≠ .handshaking (some fingerprint)) :
    Kept (world.withSession { world.session.remember.tell status with task }) := by
  obtain ⟨hcertificate, hinbox, haccepted⟩ := remember_same world.session
  refine h.of_session hcertificate (fun letter hletter => ?_) (fun _ _ => asked_of_quiet hquiet)
    (fun fingerprint htrusted => ?_) fun fingerprint hshaking => absurd hshaking (htask _)
  · rw [← hinbox]
    exact hletter
  · change fingerprint ∈ world.session.remember.accepted
    rw [haccepted]
    exact h.remembered htrusted

theorem kept_connected (h : Kept world) (hstep : world.connected = some after) : Kept after := by
  rw [World.connected] at hstep
  split at hstep
  · obtain rfl := Option.some.inj hstep
    exact h.settled .connected rfl nofun
  · obtain rfl := Option.some.inj hstep
    exact h.settled .connected rfl nofun
  · cases hstep

theorem kept_fail (h : Kept world) (error : VncError) : Kept (world.fail error) :=
  h.settled (.disconnected error.code) rfl nofun

theorem kept_fails {error : VncError} (h : Kept world) (hstep : world.fails error = some after) :
    Kept after := by
  rw [World.fails] at hstep
  split at hstep <;> cases hstep <;> exact kept_fail h error

theorem kept_closes (h : Kept world) (hstep : world.closes = some after) : Kept after := by
  rw [World.closes] at hstep
  split at hstep
  · obtain rfl := Option.some.inj hstep
    exact h.of_session rfl (fun _ => id) (fun _ _ => trivial) h.trusted nofun
  · cases hstep

theorem kept_present {fingerprint : String} (h : Kept world)
    (hstep : world.present fingerprint = some after) : Kept after := by
  rw [World.present] at hstep
  split at hstep
  · rename_i htask
    split at hstep
    · rename_i htrusted
      obtain rfl := Option.some.inj hstep
      refine ⟨h.older, fun _ _ _ => trivial, h.letters, h.trusted, nofun, fun pass hpass => ?_⟩
      rcases mem_cons.mp hpass with rfl | hold
      · exact Or.inl (h.trusted _ htrusted)
      · exact h.justified pass hold
    · obtain rfl := Option.some.inj hstep
      -- what was presented before belongs to earlier connections
      have hcases : ∀ certificate, Held (world.withSession { world.session with
          task := .deciding fingerprint
          certificate := some ⟨fingerprint, world.connection⟩ }) certificate →
          certificate = ⟨fingerprint, world.connection⟩ ∨ Held world certificate := by
        rintro certificate (hmailbox | hrest)
        · exact Or.inl (Option.some.inj hmailbox).symm
        · exact Or.inr (Or.inr hrest)
      refine ⟨fun certificate hc => ?_, fun certificate hc hconnection => ?_, h.letters, h.trusted,
        nofun, h.justified⟩
      · rcases hcases certificate hc with rfl | hold
        · exact Nat.le_refl _
        · exact h.older _ hold
      · rcases hcases certificate hc with rfl | hold
        · exact rfl
        · have hasked := h.asked _ hold hconnection
          rw [htask] at hasked
          exact hasked.elim
  · cases hstep

/-- Another connection: nothing that is under way is about it. -/
theorem kept_connect (h : Kept world)
    (hplain : ∀ letter ∈ world.session.inbox, letter.isAcceptance = false) :
    Kept world.connect := by
  refine ⟨fun certificate hc => Nat.le_succ_of_le (h.older _ hc), fun certificate hc heq => ?_,
    fun letter hletter => ?_, h.trusted, nofun, h.justified⟩
  · have hle := h.older certificate hc
    rw [heq] at hle
    exact absurd hle (Nat.not_succ_le_self _)
  · rcases h.letters letter hletter with hplain' | ⟨certificate, rfl, -⟩
    · exact Or.inl hplain'
    · have haccepts := hplain _ hletter
      cases haccepts

theorem kept_passed {fingerprint : String} (h : Kept world)
    (hsame : certificate.fingerprint = fingerprint)
    (happroved : certificate.fingerprint ∈ world.approved) :
    Kept (world.passed fingerprint (some certificate)) := by
  refine ⟨h.older, fun _ _ _ => trivial, h.letters,
    fun other hother => mem_cons_of_mem _ (h.trusted other hother),
    fun other hother => ?_, fun pass hpass => ?_⟩
  · obtain rfl := Option.some.inj (Task.handshaking.inj hother)
    exact mem_cons_self
  · rcases mem_cons.mp hpass with rfl | hold
    · exact Or.inr ⟨certificate, rfl, hsame, happroved⟩
    · exact h.justified pass hold

theorem Kept.answered {fingerprint : String} (h : Kept world)
    (htask : world.session.task = .deciding fingerprint) (hletter : letter ∈ world.session.inbox)
    (haccepts : letter.isAcceptance = true) :
    ∃ certificate, letter.about = some certificate ∧ certificate.fingerprint = fingerprint ∧
      certificate.fingerprint ∈ world.approved := by
  rcases h.letters letter hletter with hplain | ⟨certificate, rfl, hconnection, happroved⟩
  · rw [hplain.2] at haccepts
    cases haccepts
  · have hheld : Held world certificate := Or.inr (Or.inr ⟨_, hletter, rfl⟩)
    have hasked := h.asked certificate hheld hconnection
    rw [htask] at hasked
    exact ⟨certificate, rfl, hasked, happroved⟩

theorem kept_handle (h : Kept world)
    (hbegins : letter.message = .control .connect ∧ world.session.task = .starting ∨
      letter.message = .control .reconnect ∧ world.session.task = .waiting →
        ∀ other ∈ world.session.inbox, other.isAcceptance = false)
    (hanswer : ∀ fingerprint, world.session.task = .deciding fingerprint →
      letter.isAcceptance = true → ∃ certificate, letter.about = some certificate ∧
        certificate.fingerprint = fingerprint ∧ certificate.fingerprint ∈ world.approved) :
    Kept (world.handle letter) := by
  rw [World.handle]
  split
  · rename_i htask hmessage
    exact kept_connect h (hbegins (Or.inl ⟨hmessage, htask⟩))
  · rename_i htask hmessage
    exact kept_connect h (hbegins (Or.inr ⟨hmessage, htask⟩))
  · rename_i fingerprint accepted htask hmessage
    split
    · rename_i haccepted
      subst haccepted
      obtain ⟨certificate, habout, hsame, happroved⟩ :=
        hanswer fingerprint htask (decide_eq_true hmessage)
      rw [habout]
      exact kept_passed h hsame happroved
    · exact kept_fail h .refused
  · exact h.of_session rfl (fun _ => id) (fun _ _ => trivial) h.trusted nofun
  · exact h
  · exact h.of_session rfl (fun _ => id) (fun _ => id) h.trusted h.handshaking
  · exact h

theorem kept_take (h : Kept world) (htimely : world.timely .take = true)
    (hstep : world.take = some after) : Kept after := by
  rw [World.take] at hstep
  split at hstep
  · cases hstep
  · rename_i letter inbox hinbox
    split at hstep
    · obtain rfl := Option.some.inj hstep
      have hless : Kept (world.withSession { world.session with inbox }) := by
        refine h.of_session rfl (fun other hother => ?_) (fun _ => id) h.trusted h.handshaking
        rw [hinbox]
        exact mem_cons_of_mem _ hother
      refine kept_handle hless (fun hbegins => ?_) fun fingerprint htask haccepts => ?_
      · have hnone : world.begins = true := by
          rw [World.begins]
          rcases hbegins with ⟨hmessage, htask⟩ | ⟨hmessage, htask⟩
          · have htask : world.session.task = .starting := htask
            rw [htask, hinbox]
            exact decide_eq_true hmessage
          · have htask : world.session.task = .waiting := htask
            rw [htask, hinbox]
            exact decide_eq_true hmessage
        rw [World.timely, hnone, hinbox, Bool.and_eq_true, Bool.not_eq_true'] at htimely
        have hany : inbox.any Letter.isAcceptance = false := htimely.2
        rw [any_eq_false] at hany
        exact fun other hother => Bool.eq_false_iff.mpr (hany other hother)
      · exact h.answered htask (by rw [hinbox]; exact mem_cons_self) haccepts
    · cases hstep

theorem kept_step {jump : Bool} (h : Kept world) (htimely : world.timely event = true)
    (hstep : step jump world event = some after) : Kept after := by
  cases event with
  | take => exact kept_take h htimely hstep
  | present fingerprint => exact kept_present h hstep
  | connected => exact kept_connected h hstep
  | fails error => exact kept_fails h hstep
  | closes => exact kept_closes h hstep
  | drain trust =>
    obtain rfl := Option.some.inj hstep
    exact h.of_moves (moves_drain htimely)
  | answer id action password =>
    obtain rfl := Option.some.inj hstep
    exact h.of_moves (moves_answerPrompt htimely)
  | savedPassword found => exact h.of_moves (moves_savedPassword hstep)
  | reconnect saved =>
    obtain rfl := Option.some.inj hstep
    exact h.of_moves moves_reconnect
  | disconnect =>
    obtain rfl := Option.some.inj hstep
    exact h.of_moves moves_disconnect
  | jumpLink link saved =>
    obtain rfl := Option.some.inj hstep
    exact h.of_moves (moves_jumpLink link)
  | jumpReport port saved =>
    obtain rfl := Option.some.inj hstep
    exact h.of_moves (moves_jumpReport port)
  | jumpAsks =>
    obtain rfl := Option.some.inj hstep
    exact h.of_moves (moves_ask nofun)
  | remake =>
    obtain rfl := Option.some.inj hstep
    exact h.of_moves moves_remake

theorem kept_launch (plan : Plan) (pane : Pane) : Kept (launch plan pane) := by
  refine Kept.of_moves ?_ moves_begin
  have hnone : ∀ certificate, ¬Held { pane := { pane with
      hasSession := true, question := none, connectSent := false, helperGone := false } }
        certificate := by
    rintro certificate (hmailbox | ⟨id, hquestion⟩ | ⟨letter, hletter, -⟩)
    · cases hmailbox
    · cases hquestion
    · cases hletter
  exact ⟨fun certificate hc => absurd hc (hnone _), fun certificate hc => absurd hc (hnone _),
    fun _ hletter => absurd hletter not_mem_nil, nofun, nofun,
    fun _ hpass => absurd hpass not_mem_nil⟩

/-- When acceptances are only sent for the last connection's certificate and none waits while
another connection begins, every certificate that went past was accepted before by this task,
or the acceptance it consumed was sent for it, known to the store or accepted by the user. -/
theorem certificates_matched (plan : Plan) (pane : Pane) {events : List Event} {world : World}
    (hrun : GoodRun (step plan.jump) (fun w e => w.timely e = true) (launch plan pane) events
      world) :
    ∀ pass ∈ world.passes, Justified world.approved pass :=
  (hrun.invariant (fun hkept htimely hstep => kept_step hkept htimely hstep)
    (kept_launch plan pane)).justified

end Invariant

namespace TrustWitness

def jumps : Plan := ⟨true, false⟩

/-- A pane connects through its jump host, and the server presents `"A"`, which the user is
asked about. -/
def asked : List Event :=
  [.jumpReport (some 4000) false, .jumpLink .connected false, .answer 1 "submit" ['p'], .take,
    .take, .present "A", .drain (some .new)]

/-- Accepted in time. -/
def accepted : List Event := asked ++ [.answer 2 "trust-once" [], .take]

/-- The connection times out and the jump host comes back; then the user accepts. -/
def late : List Event :=
  asked ++ [.fails .timeout, .drain none, .jumpLink (.retrying 1 "lost") false,
    .jumpLink .connected false, .take, .present "B", .answer 2 "trust-once" [], .take]

/-- The certificate `"B"` is accepted by an answer for `"A"`. -/
theorem late_accepted :
    (runFrom (step jumps.jump) (launch jumps {}) late).map World.passes =
      some [⟨"B", [], some ⟨"A", 1⟩⟩] ∧
    ∀ approved, ¬Justified approved ⟨"B", [], some ⟨"A", 1⟩⟩ := by
  refine ⟨by decide, ?_⟩
  rintro approved (hbefore | ⟨certificate, hanswer, hsame, -⟩)
  · cases hbefore
  · obtain rfl := Option.some.inj hanswer
    exact absurd hsame (by decide)

theorem accepted_matched :
    ∃ world, runFrom (step jumps.jump) (launch jumps {}) accepted = some world ∧
      world.passes = [⟨"A", [], some ⟨"A", 1⟩⟩] ∧
        ∀ pass ∈ world.passes, Justified world.approved pass :=
  have hgood : (runGood (step jumps.jump) (fun w e => w.timely e = true) (launch jumps {})
      accepted).isSome = true := by decide
  ⟨_, rfl, rfl, certificates_matched jumps {} (GoodRun.of_isSome hgood rfl)⟩

end TrustWitness

end Opensesh.VncTrust
