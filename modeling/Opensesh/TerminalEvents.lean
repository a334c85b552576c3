/-
A terminal session between its engine, its SSH connection and the item that shows it: what
happened is kept until an item takes it, and the attached item is woken once for each batch.
-/
import Mathlib.Data.List.Basic

namespace Opensesh.Terminal

open List Option

/-- What the engine tells about a session. -/
inductive Notice where
  | dirty
  | title (title : String)
  | resetTitle
  | workingDirectory (directory : String)
  | shellDirectory (directory : String)
  | bell
  | exited (code : Option Int)
  | cursorBlinking (on : Bool)
  | clipboard (text : String)

/-- What stays true until the program says otherwise. -/
structure SessionInfo where
  title : Option String := none
  workingDirectory : Option String := none
  shellDirectory : Option String := none
  exit : Option (Option Int) := none

/-- What happened since the attached item last took the events. -/
structure Events where
  dirty : Bool := false
  bell : Bool := false
  info : Bool := false
  exited : Bool := false
  clipboard : Option String := none
  ssh : Bool := false

def Events.any (events : Events) : Bool :=
  events.dirty || events.bell || events.info || events.exited || events.clipboard.isSome ||
    events.ssh

inductive KeyInstall where
  | added
  | alreadyThere
  | failed (why : String)

/-- What a pane shows about its connection, with readings `μ` of the server. -/
inductive SshStatus (μ : Type) where
  | connecting (index count : Nat) (label : String)
  | authenticating (label : String)
  | connected
  | disconnected (code reason : String) (retryIn : Option Nat)
  | ended
  | osDetected (icon : String)
  | keyInstall (result : KeyInstall)
  | live (connection : Nat)
  | monitor (reading : μ)

/-- A question `π` that waits for an answer. -/
structure Request (π : Type) where
  id : Nat
  prompt : π

inductive HostInfoState (η : Type) where
  | reading
  | ready (info : η)
  | failed (why : String)

def HostInfoState.ofResult {η : Type} : Except String η → HostInfoState η
  | .ok info => .ready info
  | .error why => .failed why

structure SshState (π μ η : Type) where
  active : Bool := false
  status : Option (SshStatus μ) := none
  os : Option String := none
  keyInstall : Option KeyInstall := none
  live : Option Nat := none
  requests : List (Request π) := []
  monitor : Option μ := none
  info : Option (HostInfoState η) := none

structure SessionState (π μ η : Type) where
  info : SessionInfo := {}
  events : Events := {}
  ssh : SshState π μ η := {}
  /-- The token of the attached item. -/
  attachment : Option Nat := none
  queued : Bool := false
  /-- Whether the session plays a recording. -/
  player : Bool := false

section Session

variable {π μ η : Type} (state : SessionState π μ η)

def SessionState.isAttached (token : Nat) : Bool := state.attachment = some token

def SessionState.record (notice : Notice) : SessionState π μ η :=
  match notice with
  | .dirty => { state with events := { state.events with dirty := true } }
  | .title title =>
    { state with
      info := { state.info with title := some title }
      events := { state.events with info := true } }
  | .resetTitle =>
    { state with
      info := { state.info with title := none }
      events := { state.events with info := true } }
  | .workingDirectory directory =>
    { state with
      info := { state.info with workingDirectory := some directory }
      events := { state.events with info := true } }
  | .shellDirectory directory =>
    { state with
      info := { state.info with shellDirectory := some directory }
      events := { state.events with info := true } }
  | .bell => { state with events := { state.events with bell := true } }
  | .exited code =>
    { state with
      info := { state.info with exit := some code }
      events := { state.events with exited := true } }
  | .cursorBlinking _ => state
  | .clipboard text =>
    if state.player then state
    else { state with events := { state.events with clipboard := some text } }

/-- The attached item is woken once for each batch of events: the state after, and the token
of the wake-up that was posted. -/
def SessionState.wake (queues : Nat → Bool) : SessionState π μ η × Option Nat :=
  if state.queued || !state.events.any then (state, none)
  else
    match state.attachment with
    | some token =>
      ({ state with queued := queues token }, if queues token then some token else none)
    | none => (state, none)

/-- A change of the connection's state. -/
def SessionState.onSsh (ssh : SshState π μ η) : SessionState π μ η :=
  { state with ssh, events := { state.events with ssh := true } }

def SshState.ask (ssh : SshState π μ η) (request : Request π) : SshState π μ η :=
  { ssh with requests := ssh.requests ++ [request] }

def SshState.report (ssh : SshState π μ η) (status : SshStatus μ) : SshState π μ η :=
  match status with
  | .osDetected icon => { ssh with os := some icon }
  | .monitor reading => { ssh with monitor := some reading }
  | .keyInstall result => { ssh with keyInstall := some result }
  | .live connection => { ssh with live := some connection }
  | .connected => { ssh with status := some .connected }
  -- the readings were of the connection that went away
  | other => { ssh with live := none, monitor := none, status := some other }

/-- The question is taken out, wherever it waits. -/
def SshState.answer (ssh : SshState π μ η) (id : Nat) : SshState π μ η :=
  { ssh with requests := ssh.requests.eraseP fun request => request.id = id }

def SessionState.attach (token : Nat) : SessionState π μ η :=
  { state with attachment := some token, queued := false }

def SessionState.detach (token : Nat) : SessionState π μ η :=
  if state.isAttached token then { state with attachment := none, queued := false } else state

def SessionState.takeEvents (token : Nat) : Option (Events × SessionInfo) × SessionState π μ η :=
  if state.isAttached token then
    (some (state.events, state.info), { state with queued := false, events := {} })
  else (none, state)

def SessionState.shutdown : SessionState π μ η := { state with attachment := none, queued := false }

end Session

/-- One event recorded. -/
inductive Mark where
  | dirty
  | bell
  | info
  | exited
  | clipboard (text : String)
  | ssh
deriving DecidableEq

/-- What a notice has to tell; a recording played back does not write the clipboard. -/
def Notice.marks (player : Bool) : Notice → List Mark
  | .dirty => [.dirty]
  | .title _ | .resetTitle | .workingDirectory _ | .shellDirectory _ => [.info]
  | .bell => [.bell]
  | .exited _ => [.exited]
  | .cursorBlinking _ => []
  | .clipboard text => if player then [] else [.clipboard text]

def Mark.text : Mark → Option String
  | .clipboard text => some text
  | _ => none

/-- A batch of events as an item takes it: of several clipboard texts, the latest. -/
def Events.ofMarks (marks : List Mark) : Events where
  dirty := .dirty ∈ marks
  bell := .bell ∈ marks
  info := .info ∈ marks
  exited := .exited ∈ marks
  clipboard := (marks.filterMap Mark.text).getLast?
  ssh := .ssh ∈ marks

structure World (π μ η : Type) where
  state : SessionState π μ η
  /-- The wake-ups posted to the items' thread and not yet taken. -/
  posted : List Nat := []
  /-- How many readings of the host info have not answered. -/
  reading : Nat := 0
  /-- Everything recorded so far. -/
  recorded : List Mark := []
  /-- What the items took, with the token and the info each got. -/
  taken : List (Nat × Events × SessionInfo) := []
  /-- The info the attached item got last, once it took events. -/
  seen : Option SessionInfo := none

inductive Step (π μ η : Type) where
  | notice (notice : Notice)
  | ask (request : Request π)
  | report (status : SshStatus μ)
  | readHostInfo
  | hostInfo (result : Except String η)
  | answer (id : Nat)
  | takeKeyInstall
  | attach (token : Nat)
  | detach (token : Nat)
  | takeEvents (token : Nat)
  /-- The wake-up in this place runs. -/
  | deliver (index : Nat)
  | shutdown

section Runs

variable {π μ η : Type} (queues : Nat → Bool) (world : World π μ η)

/-- The state changed and the attached item is woken. -/
def World.wake (state : SessionState π μ η) : World π μ η :=
  { world with
    state := (state.wake queues).1
    posted := world.posted ++ (state.wake queues).2.toList }

/-- The state changed by what the marks say. -/
def World.tell (marks : List Mark) (state : SessionState π μ η) : World π μ η :=
  { world.wake queues state with recorded := world.recorded ++ marks }

def World.takeEvents (token : Nat) : World π μ η :=
  match world.state.takeEvents token with
  | (some (events, info), state) =>
    { world with state, taken := world.taken ++ [(token, events, info)], seen := some info }
  | (none, _) => world

def World.step : Step π μ η → World π μ η
  | .notice notice =>
    world.tell queues (notice.marks world.state.player) (world.state.record notice)
  | .ask request =>
    world.tell queues [.ssh] (world.state.onSsh (world.state.ssh.ask request))
  | .report status =>
    world.tell queues [.ssh] (world.state.onSsh (world.state.ssh.report status))
  | .readHostInfo =>
    match world.state.ssh.live with
    | none => world
    | some _ =>
      { world.tell queues [.ssh]
          (world.state.onSsh { world.state.ssh with info := some .reading }) with
        reading := world.reading + 1 }
  | .hostInfo result =>
    match world.reading with
    | 0 => world
    | reading + 1 =>
      { world.tell queues [.ssh]
          (world.state.onSsh { world.state.ssh with info := some (.ofResult result) }) with
        reading }
  | .answer id => world.tell queues [.ssh] (world.state.onSsh (world.state.ssh.answer id))
  | .takeKeyInstall =>
    { world with
      state := { world.state with ssh := { world.state.ssh with keyInstall := none } } }
  | .attach token => { world.wake queues (world.state.attach token) with seen := none }
  | .detach token =>
    if world.state.isAttached token then
      { world with state := world.state.detach token, seen := none }
    else world
  | .takeEvents token => world.takeEvents token
  | .deliver index =>
    match world.posted[index]? with
    | none => world
    | some token => { world with posted := world.posted.eraseIdx index }.takeEvents token
  | .shutdown => { world with state := world.state.shutdown, seen := none }

/-- A session that just started. -/
def World.start (active player : Bool) : World π μ η := { state := { ssh := { active }, player } }

def World.run (steps : List (Step π μ η)) : World π μ η := steps.foldl (World.step queues) world

end Runs

section Step

variable {π μ η : Type} {world : World π μ η} {state : SessionState π μ η}

/-- The waker of an item that is still there succeeds. -/
def works : Nat → Bool := fun _ => true

theorem ofMarks_snoc (marks : List Mark) (mark : Mark) :
    Events.ofMarks (marks ++ [mark]) =
      match mark with
      | .dirty => { Events.ofMarks marks with dirty := true }
      | .bell => { Events.ofMarks marks with bell := true }
      | .info => { Events.ofMarks marks with info := true }
      | .exited => { Events.ofMarks marks with exited := true }
      | .clipboard text => { Events.ofMarks marks with clipboard := some text }
      | .ssh => { Events.ofMarks marks with ssh := true } := by
  cases mark <;> simp [Events.ofMarks, Mark.text]

theorem record_events {pending : List Mark} (notice : Notice)
    (h : state.events = Events.ofMarks pending) :
    (state.record notice).events = Events.ofMarks (pending ++ notice.marks state.player) := by
  cases notice with
  | cursorBlinking on => exact h.trans (congrArg _ (List.append_nil pending).symm)
  | clipboard text =>
    rw [SessionState.record, Notice.marks]
    split
    · exact h.trans (congrArg _ (List.append_nil pending).symm)
    · rw [ofMarks_snoc, h]
  | _ => rw [Notice.marks, ofMarks_snoc, ← h, SessionState.record]

/-- Whoever is attached stays so, and waits for the same wake-up. -/
theorem record_attachment (notice : Notice) :
    (state.record notice).attachment = state.attachment ∧
      (state.record notice).queued = state.queued := by
  cases notice with
  | clipboard text =>
    rw [SessionState.record]
    split <;> exact ⟨rfl, rfl⟩
  | _ => exact ⟨rfl, rfl⟩

theorem record_info (notice : Notice) (hinfo : (state.record notice).events.info = false)
    (hexited : (state.record notice).events.exited = false) :
    (state.record notice).info = state.info ∧ state.events.info = false ∧
      state.events.exited = false := by
  cases notice with
  | dirty => exact ⟨rfl, hinfo, hexited⟩
  | bell => exact ⟨rfl, hinfo, hexited⟩
  | cursorBlinking on => exact ⟨rfl, hinfo, hexited⟩
  | exited code => cases hexited
  | clipboard text =>
    by_cases hplayer : state.player = true
    · rw [SessionState.record, if_pos hplayer] at hinfo hexited ⊢
      exact ⟨rfl, hinfo, hexited⟩
    · rw [SessionState.record, if_neg hplayer] at hinfo hexited ⊢
      exact ⟨rfl, hinfo, hexited⟩
  | _ => cases hinfo

/-- A wake-up of the attached item is on its way while events are pending. -/
structure Woken (state : SessionState π μ η) (posted : List Nat) : Prop where
  queued : ∀ token, state.attachment = some token → state.events.any → state.queued
  posted : ∀ token, state.attachment = some token → state.queued → token ∈ posted

/-- The events recorded, in batches: those an item took, and those still pending. -/
def Batched (recorded : List Mark) (taken : List (Nat × Events × SessionInfo))
    (events : Events) : Prop :=
  ∃ (batches : List (List Mark)) (pending : List Mark),
    recorded = batches.flatten ++ pending ∧
      taken.map (·.2.1) = batches.map Events.ofMarks ∧ events = Events.ofMarks pending

/-- The info an item got is the session's until an event says otherwise. -/
def UpToDate (seen : Option SessionInfo) (state : SessionState π μ η) : Prop :=
  ∀ info, seen = some info → state.events.info = false → state.events.exited = false →
    info = state.info

structure World.Kept (world : World π μ η) : Prop where
  woken : Woken world.state world.posted
  batched : Batched world.recorded world.taken world.state.events
  upToDate : UpToDate world.seen world.state

/-- Either there is nobody to wake and nothing to wake for, or the attached item is. -/
theorem wake_cases (state : SessionState π μ η) :
    state.wake works = (state, none) ∧
        (state.attachment = none ∨ state.queued = true ∨ state.events.any = false) ∨
      ∃ token, state.attachment = some token ∧
        state.wake works = ({ state with queued := true }, some token) := by
  rw [SessionState.wake]
  split
  · rename_i hidle
    rw [Bool.or_eq_true, Bool.not_eq_true'] at hidle
    exact Or.inl ⟨rfl, Or.inr hidle⟩
  · cases hattachment : state.attachment with
    | none => exact Or.inl ⟨rfl, Or.inl rfl⟩
    | some token => exact Or.inr ⟨token, rfl, rfl⟩

/-- After a wake the attached item has been told of what is pending. -/
theorem wake_woken (hposted : ∀ token, state.attachment = some token → state.queued →
    token ∈ world.posted) :
    Woken (world.wake works state).state (world.wake works state).posted := by
  rw [World.wake]
  rcases wake_cases state with ⟨hwake, hidle⟩ | ⟨attached, hattachment, hwake⟩
  · rw [hwake]
    refine ⟨fun token hattached hany => ?_, fun token hattached hqueued => ?_⟩
    · rcases hidle with hnobody | hqueued | hnothing
      · rw [hnobody] at hattached
        cases hattached
      · exact hqueued
      · rw [hnothing] at hany
        cases hany
    · exact mem_append_left _ (hposted token hattached hqueued)
  · rw [hwake]
    refine ⟨fun _ _ _ => rfl, fun token hattached _ => ?_⟩
    obtain rfl := some.inj (hattachment.symm.trans hattached)
    exact mem_append_right _ mem_cons_self

@[simp] theorem wake_events : (world.wake works state).state.events = state.events := by
  rw [World.wake]
  rcases wake_cases state with ⟨hwake, -⟩ | ⟨token, -, hwake⟩ <;> rw [hwake]

@[simp] theorem wake_info : (world.wake works state).state.info = state.info := by
  rw [World.wake]
  rcases wake_cases state with ⟨hwake, -⟩ | ⟨token, -, hwake⟩ <;> rw [hwake]

variable {recorded : List Mark} {taken : List (Nat × Events × SessionInfo)} {events : Events}

theorem Batched.add {marks : List Mark} {after : Events} (h : Batched recorded taken events)
    (hafter : ∀ pending, events = Events.ofMarks pending → after =
    Events.ofMarks (pending ++ marks)) : Batched (recorded ++ marks) taken after := by
  obtain ⟨batches, pending, hrecorded, htaken, hevents⟩ := h
  refine ⟨batches, pending ++ marks, ?_, htaken, hafter pending hevents⟩
  rw [hrecorded, List.append_assoc]

/-- What was pending becomes the batch of one item. -/
theorem Batched.take (h : Batched recorded taken events) (token : Nat) (info : SessionInfo) :
    Batched recorded (taken ++ [(token, events, info)]) {} := by
  obtain ⟨batches, pending, hrecorded, htaken, hevents⟩ := h
  refine ⟨batches ++ [pending], [], ?_, ?_, rfl⟩
  · rw [hrecorded, flatten_append, List.append_nil]
    exact congrArg _ (List.append_nil pending).symm
  · rw [map_append, map_append, htaken, hevents]
    rfl

/-- A change that records what it did and wakes the attached item. -/
theorem World.Kept.tell (h : world.Kept) {marks : List Mark}
    (hattachment : state.attachment = world.state.attachment)
    (hqueued : state.queued = world.state.queued)
    (hevents : ∀ pending, world.state.events = Events.ofMarks pending → state.events =
    Events.ofMarks (pending ++ marks))
    (hinfo : state.events.info = false → state.events.exited = false → state.info =
    world.state.info ∧ world.state.events.info = false ∧ world.state.events.exited = false) :
    (world.tell works marks state).Kept := by
  refine ⟨wake_woken fun token hattached hwaits => ?_, ?_, fun info hseen hno hrunning => ?_⟩
  · rw [hattachment] at hattached
    rw [hqueued] at hwaits
    exact h.woken.posted token hattached hwaits
  · rw [World.tell, wake_events]
    exact h.batched.add hevents
  · rw [World.tell, wake_events] at hno hrunning
    rw [World.tell, wake_info]
    obtain ⟨hsame, hbefore, hstill⟩ := hinfo hno hrunning
    rw [hsame]
    exact h.upToDate info hseen hbefore hstill

theorem World.Kept.onSsh (h : world.Kept) (ssh : SshState π μ η) :
    (world.tell works [.ssh] (world.state.onSsh ssh)).Kept :=
  h.tell rfl rfl
    (fun pending hevents => by rw [ofMarks_snoc, ← hevents, SessionState.onSsh])
    (fun hinfo hexited => ⟨rfl, hinfo, hexited⟩)

theorem take_kept {token : Nat}
    (hqueued : ∀ attached, world.state.attachment = some attached → world.state.events.any →
      world.state.queued)
    (hposted : ∀ attached, attached ≠ token → world.state.attachment = some attached →
      world.state.queued → attached ∈ world.posted)
    (hbatched : Batched world.recorded world.taken world.state.events)
    (hseen : UpToDate world.seen world.state) : (world.takeEvents token).Kept := by
  rw [World.takeEvents, SessionState.takeEvents]
  by_cases hattached : world.state.isAttached token = true
  · rw [if_pos hattached]
    refine ⟨⟨fun _ _ hany => ?_, fun _ _ hwaits => ?_⟩, hbatched.take token _, ?_⟩
    · cases hany
    · cases hwaits
    · rintro info hinfo - -
      exact (some.inj hinfo).symm
  · rw [if_neg hattached]
    refine ⟨⟨hqueued, fun attached hother => hposted attached ?_ hother⟩, hbatched, hseen⟩
    rintro rfl
    exact hattached (decide_eq_true hother)

/-- An item that was not told yet is woken for what is pending. -/
theorem World.Kept.attach (h : world.Kept) (token : Nat) :
    World.Kept { world.wake works (world.state.attach token) with seen := none } := by
  refine ⟨wake_woken fun _ _ hqueued => ?_, ?_, fun _ hinfo => ?_⟩
  · cases hqueued
  · rw [wake_events]
    exact h.batched
  · cases hinfo

/-- With nobody attached only the events stay. -/
theorem World.Kept.alone (h : world.Kept) (hnobody : state.attachment = none)
    (hevents : state.events = world.state.events) :
    World.Kept { world with state, seen := none } := by
  refine ⟨⟨fun token hattached => ?_, fun token hattached => ?_⟩, ?_, fun _ hinfo => ?_⟩
  · rw [hnobody] at hattached
    cases hattached
  · rw [hnobody] at hattached
    cases hattached
  · exact hevents ▸ h.batched
  · cases hinfo

/-- Every step keeps the events, their wake-up and the info. -/
theorem World.Kept.step (h : world.Kept) (step : Step π μ η) : (world.step works step).Kept := by
  cases step with
  | notice notice =>
    exact h.tell (record_attachment notice).1 (record_attachment notice).2
      (fun _ hevents => record_events notice hevents) (record_info notice)
  | ask request => exact h.onSsh _
  | report status => exact h.onSsh _
  | readHostInfo =>
    rw [World.step]
    split
    · exact h
    · have hkept := h.onSsh { world.state.ssh with info := some .reading }
      exact ⟨hkept.woken, hkept.batched, hkept.upToDate⟩
  | hostInfo result =>
    rw [World.step]
    split
    · exact h
    · have hkept := h.onSsh { world.state.ssh with info := some (.ofResult result) }
      exact ⟨hkept.woken, hkept.batched, hkept.upToDate⟩
  | answer id => exact h.onSsh _
  | takeKeyInstall =>
    exact ⟨⟨h.woken.queued, h.woken.posted⟩, h.batched, h.upToDate⟩
  | attach token => exact h.attach token
  | detach token =>
    rw [World.step]
    split
    · rename_i hattached
      rw [SessionState.detach, if_pos hattached]
      exact h.alone rfl rfl
    · exact h
  | takeEvents token =>
    exact take_kept h.woken.queued (fun attached _ => h.woken.posted attached) h.batched h.upToDate
  | deliver index =>
    rw [World.step]
    split
    · exact h
    · rename_i token htoken
      refine take_kept h.woken.queued (fun attached hne hattached hqueued => ?_) h.batched
        h.upToDate
      -- another wake-up than the one that runs stays in the queue
      obtain ⟨place, hplace⟩ := mem_iff_getElem?.mp (h.woken.posted attached hattached hqueued)
      refine mem_eraseIdx_iff_getElem?.mpr ⟨place, ?_, hplace⟩
      rintro rfl
      exact hne (some.inj (hplace.symm.trans htoken))
  | shutdown => exact h.alone rfl rfl

theorem start_kept (active player : Bool) : (World.start active player : World π μ η).Kept := by
  refine ⟨⟨fun _ hattached => ?_, fun _ hattached => ?_⟩, ⟨[], [], rfl, rfl, rfl⟩,
    fun _ hinfo => ?_⟩
  · cases hattached
  · cases hattached
  · cases hinfo

theorem World.Kept.run (h : world.Kept) (steps : List (Step π μ η)) :
    (world.run works steps).Kept := by
  induction steps generalizing world with
  | nil => exact h
  | cons step rest ih => exact ih (h.step step)

/-- In every run: an attached item with events pending has a wake-up on its way; the events
recorded are, in order, the batches the items took and what is pending, and of the clipboard
texts of one batch the latest is taken; and with nothing pending the info the attached item
took is the session's. -/
theorem run_delivers (active player : Bool) (steps : List (Step π μ η)) :
    let world := (World.start active player).run works steps
    (∀ token, world.state.attachment = some token → world.state.events.any →
      world.state.queued ∧ token ∈ world.posted) ∧
    (∃ (batches : List (List Mark)) (pending : List Mark),
      world.recorded = batches.flatten ++ pending ∧
        world.taken.map (·.2.1) = batches.map Events.ofMarks ∧
          world.state.events = Events.ofMarks pending) ∧
    ∀ info, world.seen = some info → world.state.events.any = false → info = world.state.info := by
  have hkept := (start_kept active player).run steps
  refine ⟨fun token hattached hany => ?_, hkept.batched, fun info hseen hnothing => ?_⟩
  · have hqueued := hkept.woken.queued token hattached hany
    exact ⟨hqueued, hkept.woken.posted token hattached hqueued⟩
  · simp only [Events.any, Bool.or_eq_false_iff] at hnothing
    exact hkept.upToDate info hseen hnothing.1.1.1.2 hnothing.1.1.2

end Step

namespace EventsWitness

/-- The program sets the clipboard twice before the item comes. -/
def copies : List (Step Unit Unit Unit) :=
  [.notice (.clipboard "first"), .notice (.clipboard "second"), .attach 1, .deliver 0]

/-- Nothing is pending, and no item got the first text. -/
theorem first_lost :
    let world := (World.start false false).run works copies
    .clipboard "first" ∈ world.recorded ∧ world.state.events.any = false ∧
      ∀ given ∈ world.taken, given.2.1.clipboard ≠ some "first" := by
  decide

end EventsWitness

end Opensesh.Terminal
