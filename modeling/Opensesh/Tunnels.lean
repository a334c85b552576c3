/-
The tunnels of `tunnels.toml` and their runs: what the operations do to the entries, what a
run's callbacks do when they come, and which sessions the tied tunnels follow.
-/
import Opensesh.Machine
import Opensesh.Text
import Opensesh.Value

namespace Opensesh.Tunnels

inductive Kind where
  | localPort
  | remote
  | dynamic
deriving DecidableEq

structure Tunnel where
  id : String
  name : String := ""
  kind : Kind := .localPort
  /-- A saved host's id, or empty. -/
  host : String := ""
  target : String := ""
  bindAddress : String := "127.0.0.1"
  bindPort : UInt16 := 0
  destinationHost : String := ""
  destinationPort : UInt16 := 0
  tied : Bool := false
  autostart : Bool := false
  reconnect : Bool := true
  extra : Table := []

/-- Every field, with the floats of the unknown keys compared as floats. -/
def Tunnel.eq (a b : Tunnel) : Bool :=
  a.id = b.id && a.name = b.name && a.kind = b.kind && a.host = b.host && a.target = b.target &&
    a.bindAddress = b.bindAddress && a.bindPort = b.bindPort &&
      a.destinationHost = b.destinationHost && a.destinationPort = b.destinationPort &&
        a.tied = b.tied && a.autostart = b.autostart && a.reconnect = b.reconnect &&
          Value.beqEntries a.extra b.extra

def maxText : Nat := 255

def validAddress (text : String) : Bool :=
  text.utf8ByteSize ≤ maxText && !text.toList.any fun c => isWhitespace c || isControl c

def isBlank (text : String) : Bool := Text.trim text.toList = []

/-- Why it can't be used, if it can't (the first problem found). -/
def Tunnel.problem (tunnel : Tunnel) : Option String :=
  if isBlank tunnel.host && isBlank tunnel.target then some "no host to go through"
  else if tunnel.tied && isBlank tunnel.host then
    some "a tunnel tied to a host needs a saved host"
  else if !validAddress tunnel.bindAddress then some "the listening address is not valid"
  else if tunnel.kind ≠ .dynamic &&
      (isBlank tunnel.destinationHost || !validAddress tunnel.destinationHost) then
    some "the destination host is not valid"
  else if tunnel.kind ≠ .dynamic && tunnel.destinationPort = 0 then
    some "the destination port must be 1 to 65535"
  else if maxText < tunnel.name.length || tunnel.name.toList.any isControl then
    some "the name is too long or has control characters"
  else none

/-- What the file holds; an id that is used twice was skipped. -/
structure TunnelsFile where
  tunnels : List Tunnel
  extra : Table := []
  readOnly : Bool := false
  distinct : (tunnels.map (·.id)).Nodup

inductive Answer where
  | trustOnce
  | trustAndRemember
  | secrets (texts : List String)
  | remember (texts : List String)
  | cancel
deriving DecidableEq

structure Request where
  id : Nat
  prompt : String

/-- How an independent tunnel's own connection is doing. -/
inductive Link where
  | connecting
  | connected
  | retrying (seconds : Nat) (reason : String)
  | ended (code reason : String)

inductive Report where
  | listening (port : UInt16)
  | waiting
  | failed (message : String)

structure Entry where
  tunnel : Tunnel
  on : Bool := false
  link : Option Link := none
  session : Bool := false
  listening : Option UInt16 := none
  waiting : Bool := false
  failure : Option String := none
  requests : List Request := []
  /-- Grows with each run. -/
  run : Nat := 0
  /-- Which of the started runs it is in. -/
  current : Option Nat := none

/-- A run that was started: what its callbacks carry, and whether its tunnel was tied. -/
structure Run where
  id : String
  number : Nat
  tied : Bool

/-- The live connections of the terminal sessions of one host. -/
structure Sessions where
  panes : List (Int × Nat) := []
  sender : Option Nat := none

/-- An answer that was given. -/
structure Given where
  request : Nat
  answer : Answer
  byUser : Bool
deriving DecidableEq

/-- What was said of a pane's connection; a closed pane is gone for every host but those it is
still to be taken from. -/
inductive Told where
  | live (host : String) (pane : Int)
  | gone (host : String) (pane : Int)
  | closed (pane : Int) (but : List String)

structure State where
  entries : List Entry := []
  extra : Table := []
  readOnly : Bool := false
  /-- The hosts that have a table of sessions, and the tables. -/
  hosts : List String := []
  sessions : String → Sessions := fun _ => {}
  /-- Whether there is an SSH runtime. -/
  runtime : Bool
  /-- The panes that are closed and the hosts they are still to be taken from. -/
  closing : List (String × Int) := []
  /-- The runs so far, the questions with the runs that asked them, the answers, and what was
  said of the panes (the last first). -/
  runs : List Run := []
  asked : List (Nat × Nat) := []
  answers : List Given := []
  told : List Told := []

/-- Stops the run and forgets what it said. -/
def Entry.halt (entry : Entry) : Entry :=
  { entry with
    run := entry.run + 1, link := none, listening := none, waiting := false, failure := none
    requests := [], current := none }

/-- A tied tunnel of the host is told whether a session is up. -/
def Entry.follows (host : String) (up : Bool) (entry : Entry) : Entry :=
  if entry.tunnel.tied && entry.tunnel.host = host then { entry with session := up } else entry

@[simp] theorem Entry.follows_tunnel (host : String) (up : Bool) (entry : Entry) :
    (entry.follows host up).tunnel = entry.tunnel := by
  rw [Entry.follows]
  split <;> rfl

@[simp] theorem Entry.follows_requests (host : String) (up : Bool) (entry : Entry) :
    (entry.follows host up).requests = entry.requests := by
  rw [Entry.follows]
  split <;> rfl

inductive Shown where
  | stopped
  | failed
  | retrying
  | connecting
  | waiting
  | running

/-- The state that the view shows. -/
def Entry.shown (entry : Entry) : Shown :=
  if !entry.on then .stopped
  else if entry.failure.isSome then .failed
  else match entry.link with
  | some (.ended ..) => .failed
  | some (.retrying ..) => .retrying
  | some .connecting => .connecting
  | _ =>
    if entry.tunnel.tied && !entry.session then .waiting
    else if entry.waiting then .waiting
    else if entry.listening.isSome then .running
    else .connecting

namespace State

def entry (state : State) (id : String) : Option Entry :=
  state.entries.find? fun entry => entry.tunnel.id = id

/-- The entry with an id is replaced. -/
def put (state : State) (id : String) (entry : Entry) : State :=
  { state with
    entries := state.entries.replaceF fun other =>
      if other.tunnel.id = id then some entry else none }

/-- Questions that are answered with `Cancel`. -/
def cancel (state : State) (requests : List Request) : State :=
  { state with answers := state.answers ++ requests.map fun request =>
      ⟨request.id, .cancel, false⟩ }

def sessionsOf (state : State) (host : String) : State :=
  { state with hosts := if host ∈ state.hosts then state.hosts else host :: state.hosts }

/-- Starts a tunnel; `refused` says why its connections can't be made. -/
def start (state : State) (id : String) (refused : Option String) : State :=
  if !state.runtime then state
  else match state.entry id with
  | none => state
  | some entry =>
    let halted := { entry.halt with on := true }
    let run : Run := ⟨id, halted.run, entry.tunnel.tied⟩
    let started := { halted with current := some state.runs.length }
    let state := state.cancel entry.requests
    if entry.tunnel.tied then
      let host := entry.tunnel.host
      { (state.sessionsOf host).put id
          { started with session := (state.sessions host).sender.isSome } with
        runs := state.runs ++ [run] }
    else match refused with
    | some detail => state.put id { halted with link := some (.ended "invalid" detail) }
    | none => { state.put id started with runs := state.runs ++ [run] }

/-- Tunnels are started one after the other. -/
def startEach (refuses : String → Option String) (state : State) (ids : List String) : State :=
  ids.foldl (fun state id => state.start id (refuses id)) state

def load (state : State) (file : TunnelsFile) (autostart : Bool)
    (refuses : String → Option String) : State :=
  let state := { state.cancel (state.entries.flatMap (·.requests)) with
    extra := file.extra, readOnly := file.readOnly
    entries := file.tunnels.map fun tunnel => { tunnel } }
  if autostart then
    startEach refuses state ((file.tunnels.filter (·.autostart)).map (·.id))
  else state

/-- Where `reload` is: the entries not looked at (in the state) and those of the file. -/
structure Reload where
  state : State
  kept : List Entry := []
  restart : List String := []

def reloadOne (reload : Reload) (tunnel : Tunnel) : Reload :=
  match reload.state.entry tunnel.id with
  | some entry =>
    let state := { reload.state with
      entries := reload.state.entries.eraseP fun other => other.tunnel.id = tunnel.id }
    if entry.tunnel.eq tunnel then { reload with state, kept := reload.kept ++ [entry] }
    else
      { state := state.cancel entry.requests
        kept := reload.kept ++ [{ entry.halt with tunnel }]
        restart := if entry.on then reload.restart ++ [tunnel.id] else reload.restart }
  | none => { reload with kept := reload.kept ++ [{ tunnel }] }

def reload (state : State) (file : TunnelsFile) (refuses : String → Option String) : State :=
  let done := file.tunnels.foldl reloadOne
    { state := { state with extra := file.extra, readOnly := file.readOnly } }
  startEach refuses
    { done.state.cancel (done.state.entries.flatMap (·.requests)) with entries := done.kept }
    done.restart

def upsert (state : State) (tunnel : Tunnel) (refused : Option String) :
    Except String String × State :=
  match tunnel.problem with
  | some problem => (.error problem, state)
  | none =>
    match state.entry tunnel.id with
    | some entry =>
      if entry.tunnel.eq tunnel then (.ok tunnel.id, state)
      else
        let state := (state.cancel entry.requests).put tunnel.id { entry.halt with tunnel }
        (.ok tunnel.id, if entry.on then state.start tunnel.id refused else state)
    | none => (.ok tunnel.id, { state with entries := state.entries ++ [{ tunnel }] })

def remove (state : State) (id : String) : Bool × State :=
  match state.entry id with
  | none => (false, state)
  | some entry =>
    (true, { state.cancel entry.requests with
      entries := state.entries.eraseP fun other => other.tunnel.id = id })

/-- Puts an entry after the one with an id. -/
def insertAfter (id : String) (copy : Entry) : List Entry → List Entry
  | [] => []
  | entry :: rest =>
    if entry.tunnel.id = id then entry :: copy :: rest
    else entry :: insertAfter id copy rest

/-- A copy with a new id, off. -/
def duplicate (state : State) (id newId : String) : Option String × State :=
  match state.entry id with
  | none => (none, state)
  | some entry =>
    let copy : Entry := { tunnel := { entry.tunnel with id := newId, autostart := false } }
    (some newId, { state with entries := insertAfter id copy state.entries })

def setOn (state : State) (id : String) (on : Bool) (refused : Option String) : Bool × State :=
  match state.entry id with
  | none => (false, state)
  | some entry =>
    if entry.on = on then (true, state)
    else if on then (true, state.start id refused)
    else (true, (state.cancel entry.requests).put id { entry.halt with on := false })

def answer (state : State) (id : String) (request : Nat) (answer : Answer) : Bool × State :=
  match state.entry id with
  | none => (false, state)
  | some entry =>
    if entry.requests.any fun pending => pending.id = request then
      (true, { state.put id { entry with
          requests := entry.requests.eraseP fun pending => pending.id = request } with
        answers := state.answers ++ [⟨request, answer, true⟩] })
    else (false, state)

def stopAll (state : State) : State :=
  { state.cancel (state.entries.flatMap (·.requests)) with
    entries := state.entries.map fun entry => { entry.halt with on := false } }

/-- A pane's session of a host is up on a connection, or gone. -/
def sessionLive (state : State) (host : String) (pane : Int) (connection : Option Nat) : State :=
  let state := state.sessionsOf host
  let sessions := state.sessions host
  let panes := sessions.panes.filter (·.1 ≠ pane) ++ (connection.map fun c => (pane, c)).toList
  let current := panes.head?.map (·.2)
  { state with
    sessions := fun other =>
      if other = host then
        { panes, sender := if sessions.sender = current then sessions.sender else current }
      else state.sessions other
    entries := state.entries.map (Entry.follows host current.isSome)
    told := (if connection.isSome then .live host pane else .gone host pane) :: state.told }

/-- The first half of `session_closed`: the hosts are looked up, and the lock is let go. -/
def sessionClosed (state : State) (pane : Int) : State :=
  let hosts := state.hosts.filter fun host => (state.sessions host).panes.any (·.1 = pane)
  { state with
    closing := state.closing ++ hosts.map fun host => (host, pane)
    told := .closed pane hosts :: state.told }

/-- Runs a callback on the entry, unless a newer run replaced it. -/
def update (state : State) (run : Run) (change : Entry → Entry) : State :=
  match state.entry run.id with
  | none => state
  | some entry => if entry.run ≠ run.number then state else state.put run.id (change entry)

def report (state : State) (run : Run) : Report → State
  | .listening port => state.update run fun entry =>
    { entry with listening := some port, waiting := false, failure := none }
  | .waiting => state.update run fun entry => { entry with waiting := true }
  | .failed message =>
    match state.entry run.id with
    | none => state
    | some entry =>
      if entry.run ≠ run.number then state
      else (state.cancel entry.requests).put run.id
        { entry with failure := some message, requests := [] }

def link (state : State) (run : Run) (link : Link) : State :=
  state.update run fun entry => { entry with link := some link }

/-- A question of a run that ended is cancelled at once. -/
def ask (state : State) (run : Run) (request : Request) : State :=
  match state.entry run.id with
  | some entry =>
    if entry.run = run.number then
      state.put run.id { entry with requests := entry.requests ++ [request] }
    else state.cancel [request]
  | none => state.cancel [request]

end State

inductive Event where
  | load (file : TunnelsFile) (autostart : Bool) (refuses : String → Option String)
  | reload (file : TunnelsFile) (refuses : String → Option String)
  | upsert (tunnel : Tunnel) (refused : Option String)
  | remove (id : String)
  | duplicate (id newId : String)
  | setOn (id : String) (on : Bool) (refused : Option String)
  | answer (id : String) (request : Nat) (answer : Answer)
  | stopAll
  | sessionLive (host : String) (pane : Int) (connection : Option Nat)
  | sessionClosed (pane : Int)
  /-- A closed pane is taken from one of its hosts. -/
  | takenFrom (i : Nat)
  /-- A callback of the run with a number among the runs so far. -/
  | report (g : Nat) (report : Report)
  | link (g : Nat) (link : Link)
  | ask (g : Nat) (request : Request)

/-- The run whose callback it is. -/
def Event.caller : Event → Option Nat
  | .report g _ | .link g _ | .ask g _ => some g
  | _ => none

/-- New ids and the numbers of questions are not used twice; only an independent tunnel has a
link and questions. -/
def step (state : State) : Event → Option State
  | .load file autostart refuses => some (state.load file autostart refuses)
  | .reload file refuses => some (state.reload file refuses)
  | .upsert tunnel refused => some (state.upsert tunnel refused).2
  | .remove id => some (state.remove id).2
  | .duplicate id newId =>
    if newId ∈ state.entries.map (·.tunnel.id) then none
    else some (state.duplicate id newId).2
  | .setOn id on refused => some (state.setOn id on refused).2
  | .answer id request answer => some (state.answer id request answer).2
  | .stopAll => some state.stopAll
  | .sessionLive host pane connection => some (state.sessionLive host pane connection)
  | .sessionClosed pane => some (state.sessionClosed pane)
  | .takenFrom i => state.closing[i]?.map fun (host, pane) =>
    { state with closing := state.closing.eraseIdx i }.sessionLive host pane none
  | .report g report => state.runs[g]?.map fun run => state.report run report
  | .link g link => state.runs[g]?.bind fun run =>
    if run.tied then none else some (state.link run link)
  | .ask g request => state.runs[g]?.bind fun run =>
    if run.tied || (state.asked.map (·.1)).contains request.id then none
    else some ({ state with asked := state.asked ++ [(request.id, g)] }.ask run request)

end Opensesh.Tunnels
