/-
Reconnecting: an SSH session that connects again by itself or when Enter is pressed. It counts
every loss it ever had.
-/
import Opensesh.Machine
import Opensesh.TerminalEvents
import Mathlib.Tactic.IntervalCases

namespace Opensesh.Ssh

open Option
open Terminal (SshStatus)

structure TermSize where
  columns : UInt16
  lines : UInt16
  cellWidth : UInt16
  cellHeight : UInt16
deriving DecidableEq

inductive Command where
  | input (bytes : List UInt8)
  | resize (size : TermSize)
  | shutdown
deriving DecidableEq

inductive SshError where
  | network (target message : String)
  | hostKey (host reason : String)
  | auth (target tried : String)
  | cancelled
  | secretsLocked
  | protocol (text : String)
  | refused (what : String)
  | timeout (what : String)
  | localIo (what message : String)

namespace SshError

def code : SshError → String
  | network .. => "network"
  | hostKey .. => "host-key"
  | auth .. => "auth"
  | cancelled => "cancelled"
  | secretsLocked => "locked"
  | protocol _ => "protocol"
  | refused _ => "refused"
  | timeout _ => "timeout"
  | localIo .. => "local"

def text : SshError → String
  | network target message => "could not reach " ++ target ++ ": " ++ message
  | hostKey host reason => "the host key of " ++ host ++ " was not accepted: " ++ reason
  | auth target tried => "authentication to " ++ target ++ " failed (" ++ tried ++ ")"
  | cancelled => "cancelled"
  | secretsLocked => "the vault is locked: unlock it, then press Enter to connect"
  | protocol text => "SSH error: " ++ text
  | refused what => "the server refused " ++ what
  | timeout what => what ++ " timed out"
  | localIo what message => what ++ ": " ++ message

/-- Whether an error needs the user rather than another attempt. -/
def needsTheUser : SshError → Bool
  | hostKey .. | auth .. | cancelled | secretsLocked => true
  | _ => false

end SshError

/-- How one connection ended. -/
inductive Ended where
  | exited (code : Option Int)
  | shutdown
  | lost (code reason : String) (finalError : Bool)

def lost (error : SshError) : Ended := .lost error.code error.text error.needsTheUser

def connectionLost : Ended := .lost "lost" "Connection lost." false

/-- The seconds before an automatic attempt, counted from 1: 1, 2, 4, 8, 16, then 30. -/
def backoff (attempt : Nat) : Nat := min (2 ^ min (attempt - 1) 5) 30

def u32Max : Nat := 2 ^ 32 - 1

structure Reconnect where
  automatic : Bool
  maxAttempts : Nat

/-- Where a session is: the channel's exit while it is up, the wait and whether the error was
final while it is not. -/
inductive Phase where
  | connecting
  | up (exited : Bool) (exitCode : Option Int)
  | waiting (delay : Option Nat) (finalError : Bool)
  | finished
deriving DecidableEq

structure Session where
  phase : Phase
  size : TermSize
  failures : Nat := 0
  /-- The commands sent and not yet received, and whether nobody can send any more. -/
  queue : List Command := []
  closed : Bool := false
  told : List (SshStatus Unit) := []
  /-- The automatic attempts since the session was last connected. -/
  retries : Nat := 0
  /-- The attempts that failed since then. -/
  failedInARow : Nat := 0

/-- What the session's channel says. -/
inductive ChannelMsg where
  | data (taken : Bool)
  | exitStatus (status : Nat)
  | exitSignal
  | eof
  | close (connectionClosed : Bool)
  | other

inductive Event where
  | send (command : Command)
  | dropped
  | connected (connection : Nat)
  | failed (error : SshError)
  | channel (message : ChannelMsg)
  /-- The next command is received; input may not reach the channel. -/
  | receive (delivered : Bool)
  | timer

def isEnter (byte : UInt8) : Bool := byte = 13 || byte = 10

namespace Session

/-- The next command; a closed channel is a shutdown. -/
def next (session : Session) : Option Command :=
  match session.queue with
  | command :: _ => some command
  | [] => if session.closed then some .shutdown else none

/-- How the connection ends by what happens, if it does. -/
def ends (session : Session) (event : Event) : Option Ended :=
  match session.phase, event with
  | .connecting, .failed error => some (lost error)
  | .connecting, .receive _ => if session.next = some .shutdown then some .shutdown else none
  | .up _ _, .failed error => some (lost error)
  | .up _ _, .channel (.data false) => some .shutdown
  | .up exited exitCode, .channel (.close connectionClosed) =>
    if exited then some (.exited exitCode)
    else if connectionClosed then some connectionLost
    else some (.exited exitCode)
  | .up _ _, .receive delivered =>
    match session.next with
    | some (.input _) => if delivered then none else some connectionLost
    | some .shutdown => some .shutdown
    | _ => none
  | _, _ => none

/-- The command that was received leaves the queue. -/
def received (session : Session) : Session := { session with queue := session.queue.tail }

/-- The session with what the event took off its queue. -/
def taken (session : Session) : Event → Session
  | .receive _ => session.received
  | _ => session

/-- What a session does when its connection ended. -/
def finish (reconnect : Reconnect) (session : Session) : Ended → Session
  | .exited _ => { session with phase := .finished, told := session.told ++ [.ended] }
  | .shutdown => { session with phase := .finished }
  | .lost code reason finalError =>
    let failures := min (session.failures + 1) u32Max
    let delay :=
      if reconnect.automatic && !finalError && decide (failures ≤ reconnect.maxAttempts) then
        some (backoff failures)
      else none
    { session with
      failures
      told := session.told ++ [.disconnected code reason delay]
      phase := .waiting delay finalError
      failedInARow :=
        if session.phase = .connecting then session.failedInARow + 1
        else session.failedInARow }

/-- A command that does not end the connection, or one received while waiting. -/
def obey (session : Session) : Option Session :=
  match session.phase, session.next with
  | .finished, _ => none
  | _, none => none
  | .waiting _ _, some (.input bytes) =>
    if bytes.any isEnter then some { session.received with phase := .connecting }
    else some session.received
  | .waiting _ _, some .shutdown => some { session.received with phase := .finished }
  | _, some (.resize size) => some { session.received with size }
  | _, some _ => some session.received

/-- What happens while the connection does not end. -/
def goOn (session : Session) (event : Event) : Option Session :=
  match event with
  | .send command =>
    if session.closed then none
    else some { session with queue := session.queue ++ [command] }
  | .dropped => some { session with closed := true }
  | .connected connection =>
    if session.phase = .connecting then
      some { session with
        phase := .up false none
        told := session.told ++ [.connected, .live connection]
        retries := 0
        failedInARow := 0 }
    else none
  | .failed _ => none
  | .channel message =>
    match session.phase with
    | .up exited exitCode =>
      match message with
      | .exitStatus status =>
        some { session with
          phase := .up true (if status < 2 ^ 31 then some (status : Int) else none) }
      | .exitSignal => some { session with phase := .up true none }
      | .eof => some { session with phase := .up true exitCode }
      | .data _ | .close _ | .other => some { session with phase := .up exited exitCode }
    | _ => none
  | .receive _ => session.obey
  | .timer =>
    match session.phase with
    | .waiting (some _) _ =>
      some { session with phase := .connecting, retries := session.retries + 1 }
    | _ => none

def step (reconnect : Reconnect) (session : Session) (event : Event) : Option Session :=
  match session.ends event with
  | some ended => some ((session.taken event).finish reconnect ended)
  | none => session.goOn event

def start (size : TermSize) : Session := { phase := .connecting, size }

end Session

section Step

variable {reconnect : Reconnect} {session after : Session} {event : Event}

/-- Everything the counting of attempts reads is as it was. -/
structure Session.Same (session after : Session) : Prop where
  phase : after.phase = session.phase
  failures : after.failures = session.failures
  retries : after.retries = session.retries
  failedInARow : after.failedInARow = session.failedInARow

/-- What a session does while its connection does not end. -/
inductive Session.Goes (session after : Session) : Prop
  | same (hsame : session.Same after)
  | up (hphase : ∃ exited exitCode, after.phase = .up exited exitCode)
      (hretries : session.phase = .connecting ∧ after.retries = 0 ∨
        (∃ exited exitCode, session.phase = .up exited exitCode) ∧ after.retries = session.retries)
  | enter {delay : Option Nat} {finalError : Bool}
      (hwaiting : session.phase = .waiting delay finalError)
      (hafter : after.phase = .connecting) (hretries : after.retries = session.retries)
      (hrow : after.failedInARow = session.failedInARow)
  | retry {delay : Nat} {finalError : Bool}
      (hwaiting : session.phase = .waiting (some delay) finalError)
      (hafter : after.phase = .connecting) (hretries : after.retries = session.retries + 1)
      (hrow : after.failedInARow = session.failedInARow)
  | finished (hwaiting : ∃ delay finalError, session.phase = .waiting delay finalError)
      (hafter : after.phase = .finished)

theorem obey_goes (h : session.obey = some after) : session.Goes after := by
  rw [Session.obey] at h
  split at h
  · cases h
  · cases h
  · rename_i hwaiting hnext
    split at h
    · obtain rfl := some.inj h
      exact .enter hwaiting rfl rfl rfl
    · obtain rfl := some.inj h
      exact .same ⟨rfl, rfl, rfl, rfl⟩
  · rename_i hwaiting hnext
    obtain rfl := some.inj h
    exact .finished ⟨_, _, hwaiting⟩ rfl
  · obtain rfl := some.inj h
    exact .same ⟨rfl, rfl, rfl, rfl⟩
  · obtain rfl := some.inj h
    exact .same ⟨rfl, rfl, rfl, rfl⟩

theorem goOn_goes (h : session.goOn event = some after) : session.Goes after := by
  cases event with
  | send command =>
    rw [Session.goOn] at h
    split at h
    · cases h
    · obtain rfl := some.inj h
      exact .same ⟨rfl, rfl, rfl, rfl⟩
  | dropped =>
    obtain rfl := some.inj h
    exact .same ⟨rfl, rfl, rfl, rfl⟩
  | connected connection =>
    rw [Session.goOn] at h
    split at h
    · rename_i hconnecting
      obtain rfl := some.inj h
      exact .up ⟨_, _, rfl⟩ (Or.inl ⟨hconnecting, rfl⟩)
    · cases h
  | failed error => cases h
  | channel message =>
    rw [Session.goOn] at h
    split at h
    · rename_i exited exitCode hup
      have hstays : ∀ phase, (∃ exited exitCode, phase = Phase.up exited exitCode) →
          session.Goes { session with phase } :=
        fun phase hphase => .up hphase (Or.inr ⟨⟨_, _, hup⟩, rfl⟩)
      cases message with
      | exitStatus status =>
        obtain rfl := some.inj h
        exact hstays _ ⟨_, _, rfl⟩
      | _ =>
        obtain rfl := some.inj h
        exact hstays _ ⟨_, _, rfl⟩
    · cases h
  | receive delivered => exact obey_goes h
  | timer =>
    rw [Session.goOn] at h
    split at h
    · rename_i hwaiting
      obtain rfl := some.inj h
      exact .retry hwaiting rfl rfl rfl
    · cases h

theorem ends_phase {ended : Ended} (h : session.ends event = some ended) :
    session.phase = .connecting ∨ ∃ exited exitCode, session.phase = .up exited exitCode := by
  cases hphase : session.phase with
  | connecting => exact Or.inl rfl
  | up exited exitCode => exact Or.inr ⟨exited, exitCode, rfl⟩
  | waiting delay finalError => simp [Session.ends, hphase] at h
  | finished => simp [Session.ends, hphase] at h

theorem taken_same (session : Session) (event : Event) : session.Same (session.taken event) := by
  cases event <;> exact ⟨rfl, rfl, rfl, rfl⟩

theorem step_cases (h : session.step reconnect event = some after) :
    (∃ ended, session.ends event = some ended ∧
      after = (session.taken event).finish reconnect ended) ∨
    session.ends event = none ∧ session.Goes after := by
  rw [Session.step] at h
  cases hends : session.ends event with
  | some ended =>
    rw [hends] at h
    exact Or.inl ⟨ended, rfl, (some.inj h).symm⟩
  | none =>
    rw [hends] at h
    exact Or.inr ⟨rfl, goOn_goes h⟩

theorem finish_lost (reconnect : Reconnect) (session : Session) (code reason : String)
    (finalError : Bool) :
    ∃ delay, (session.finish reconnect (.lost code reason finalError)).phase =
        .waiting delay finalError ∧
      (∀ seconds, delay = some seconds → reconnect.automatic ∧ finalError = false ∧
        min (session.failures + 1) u32Max ≤ reconnect.maxAttempts ∧
        seconds = backoff (min (session.failures + 1) u32Max)) ∧
      (delay = none → reconnect.automatic → finalError = false →
        reconnect.maxAttempts < min (session.failures + 1) u32Max) := by
  refine ⟨_, rfl, fun seconds hdelay => ?_, fun hdelay hautomatic hagain => ?_⟩
  · split at hdelay
    · rename_i hretry
      simp only [Bool.and_eq_true, Bool.not_eq_true', decide_eq_true_eq] at hretry
      exact ⟨hretry.1.1, hretry.1.2, hretry.2, (some.inj hdelay).symm⟩
    · cases hdelay
  · split at hdelay
    · cases hdelay
    · rename_i hretry
      simpa [hautomatic, hagain] using hretry

theorem backoff_of_le {attempt : Nat} (h : 6 ≤ attempt) : backoff attempt = 30 := by
  rw [backoff, Nat.min_eq_right (show 5 ≤ attempt - 1 by omega)]
  rfl

/-- What is always so: only a loss that another attempt may help is retried by itself, and no
attempt is counted twice. -/
structure Session.Kept (reconnect : Reconnect) (session : Session) : Prop where
  waiting : ∀ delay finalError, session.phase = .waiting delay finalError →
    session.retries ≤ session.failedInARow
  connecting : session.phase = .connecting → session.retries ≤ session.failedInARow + 1
  up : ∀ exited exitCode, session.phase = .up exited exitCode → session.retries = 0
  again : ∀ delay finalError, session.phase = .waiting (some delay) finalError →
    reconnect.automatic ∧ finalError = false

/-- Attempts are counted in a row: the wait is that of the next automatic attempt since the
session was connected, and only enough failed attempts since then end them. -/
structure Session.Counts (reconnect : Reconnect) (session : Session) : Prop where
  waits : ∀ delay finalError, session.phase = .waiting (some delay) finalError →
    delay = backoff (session.retries + 1)
  stops : session.phase = .waiting none false → reconnect.automatic →
    reconnect.maxAttempts ≤ session.failedInARow

/-- Before a loss that another attempt may help, each loss so far was followed by an automatic
attempt that did not connect. -/
def Session.Careful (session : Session) (event : Event) : Prop :=
  ∀ code reason, session.ends event = some (.lost code reason false) →
    session.failures = min session.retries u32Max

theorem Session.Kept.of_connecting (hphase : session.phase = .connecting)
    (h : session.retries ≤ session.failedInARow + 1) : session.Kept reconnect := by
  refine ⟨?_, fun _ => h, ?_, ?_⟩ <;> rw [hphase] <;> exact nofun

theorem Session.Kept.of_up {exited : Bool} {exitCode : Option Int}
    (hphase : session.phase = .up exited exitCode) (h : session.retries = 0) :
    session.Kept reconnect := by
  refine ⟨?_, ?_, fun _ _ _ => h, ?_⟩ <;> rw [hphase] <;> exact nofun

theorem Session.Kept.of_over (hphase : session.phase = .finished) : session.Kept reconnect := by
  refine ⟨?_, ?_, ?_, ?_⟩ <;> rw [hphase] <;> exact nofun

theorem Session.Counts.of_not_waiting
    (h : ∀ delay finalError, session.phase ≠ .waiting delay finalError) :
    session.Counts reconnect :=
  ⟨fun _ _ hwaiting => absurd hwaiting (h _ _), fun hwaiting => absurd hwaiting (h _ _)⟩

theorem step_kept (h : session.Kept reconnect)
    (hstep : session.step reconnect event = some after) : after.Kept reconnect := by
  rcases step_cases hstep with ⟨ended, hends, rfl⟩ | ⟨-, hgoes⟩
  · have hsame := taken_same session event
    cases ended with
    | exited code => exact .of_over rfl
    | shutdown => exact .of_over rfl
    | lost code reason finalError =>
      obtain ⟨delay, hphase, hagain, -⟩ :=
        finish_lost reconnect (session.taken event) code reason finalError
      refine ⟨fun _ _ _ => ?_, ?_, ?_, fun seconds finalError' hwaiting => ?_⟩
      · change (session.taken event).retries ≤ if (session.taken event).phase = .connecting
          then (session.taken event).failedInARow + 1 else (session.taken event).failedInARow
        rw [hsame.phase, hsame.retries, hsame.failedInARow]
        rcases ends_phase hends with hconnecting | ⟨exited, exitCode, hup⟩
        · rw [if_pos hconnecting]
          exact h.connecting hconnecting
        · rw [h.up exited exitCode hup]
          exact Nat.zero_le _
      · rw [hphase]
        exact nofun
      · rw [hphase]
        exact nofun
      · rw [hphase] at hwaiting
        obtain ⟨hdelay, hfinal⟩ := Phase.waiting.inj hwaiting
        have hretried := hagain seconds hdelay
        exact ⟨hretried.1, hfinal ▸ hretried.2.1⟩
  · cases hgoes with
    | same hsame =>
      refine ⟨?_, ?_, ?_, ?_⟩ <;> simp only [hsame.phase, hsame.retries, hsame.failedInARow]
      · exact h.waiting
      · exact h.connecting
      · exact h.up
      · exact h.again
    | up hphase hretries =>
      obtain ⟨exited, exitCode, hup⟩ := hphase
      refine .of_up hup ?_
      rcases hretries with ⟨-, hzero⟩ | ⟨⟨exited', exitCode', hwas⟩, hsame⟩
      · exact hzero
      · exact hsame.trans (h.up exited' exitCode' hwas)
    | enter hwaiting hafter hretries hrow =>
      refine .of_connecting hafter ?_
      rw [hretries, hrow]
      exact Nat.le_trans (h.waiting _ _ hwaiting) (Nat.le_succ _)
    | retry hwaiting hafter hretries hrow =>
      refine .of_connecting hafter ?_
      rw [hretries, hrow]
      exact Nat.succ_le_succ (h.waiting _ _ hwaiting)
    | finished hwaiting hafter => exact .of_over hafter

/-- A loss that comes after retries only begins the wait of the next one. -/
theorem lost_counts (h : session.Kept reconnect) {code reason : String} {finalError : Bool}
    (hends : session.ends event = some (.lost code reason finalError))
    (hcareful : session.Careful event) :
    ((session.taken event).finish reconnect (.lost code reason finalError)).Counts reconnect := by
  have hsame := taken_same session event
  obtain ⟨delay, hphase, hwaits, hstops⟩ :=
    finish_lost reconnect (session.taken event) code reason finalError
  rw [hsame.failures] at hwaits hstops
  refine ⟨fun seconds finalError' hwaiting => ?_, fun hwaiting hautomatic => ?_⟩
  · rw [hphase] at hwaiting
    obtain ⟨hdelay, -⟩ := Phase.waiting.inj hwaiting
    obtain ⟨-, rfl, -, rfl⟩ := hwaits seconds hdelay
    change _ = backoff ((session.taken event).retries + 1)
    rw [hsame.retries, hcareful code reason hends]
    -- the counter stops at its largest value, long after the wait stopped growing
    by_cases hsmall : session.retries + 1 ≤ u32Max
    · rw [Nat.min_eq_left (by omega : session.retries ≤ u32Max), Nat.min_eq_left hsmall]
    · have hlarge : 6 ≤ u32Max := by decide
      rw [backoff_of_le (by omega), backoff_of_le (by omega)]
  · rw [hphase] at hwaiting
    obtain ⟨hdelay, rfl⟩ := Phase.waiting.inj hwaiting
    have hmax := hstops hdelay hautomatic rfl
    have hcount := hcareful code reason hends
    change _ ≤ if (session.taken event).phase = .connecting
      then (session.taken event).failedInARow + 1 else (session.taken event).failedInARow
    rw [hsame.phase, hsame.failedInARow]
    have hretries : reconnect.maxAttempts ≤ session.retries := by omega
    rcases ends_phase hends with hconnecting | ⟨exited, exitCode, hup⟩
    · rw [if_pos hconnecting]
      exact Nat.le_trans hretries (h.connecting hconnecting)
    · rw [h.up exited exitCode hup] at hretries
      exact Nat.le_trans hretries (Nat.zero_le _)

theorem step_counts (h : session.Kept reconnect) (hcounts : session.Counts reconnect)
    (hcareful : session.Careful event)
    (hstep : session.step reconnect event = some after) : after.Counts reconnect := by
  rcases step_cases hstep with ⟨ended, hends, rfl⟩ | ⟨-, hgoes⟩
  · cases ended with
    | exited code => exact .of_not_waiting fun _ _ => nofun
    | shutdown => exact .of_not_waiting fun _ _ => nofun
    | lost code reason finalError => exact lost_counts h hends hcareful
  · cases hgoes with
    | same hsame =>
      refine ⟨?_, ?_⟩ <;> simp only [hsame.phase, hsame.retries, hsame.failedInARow]
      · exact hcounts.waits
      · exact hcounts.stops
    | up hphase =>
      obtain ⟨exited, exitCode, hup⟩ := hphase
      exact .of_not_waiting (by rw [hup]; exact fun _ _ => nofun)
    | enter hwaiting hafter => exact .of_not_waiting (by rw [hafter]; exact fun _ _ => nofun)
    | retry hwaiting hafter => exact .of_not_waiting (by rw [hafter]; exact fun _ _ => nofun)
    | finished hwaiting hafter => exact .of_not_waiting (by rw [hafter]; exact fun _ _ => nofun)

theorem step_over (hover : session.phase = .finished)
    (hstep : session.step reconnect event = some after) : after.phase = .finished := by
  rcases step_cases hstep with ⟨ended, hends, -⟩ | ⟨-, hgoes⟩
  · rcases ends_phase hends with hconnecting | ⟨exited, exitCode, hup⟩
    · rw [hover] at hconnecting
      cases hconnecting
    · rw [hover] at hup
      cases hup
  · cases hgoes with
    | same hsame => exact hsame.phase.trans hover
    | up hphase hretries =>
      rcases hretries with ⟨hconnecting, -⟩ | ⟨⟨exited, exitCode, hup⟩, -⟩
      · rw [hover] at hconnecting
        cases hconnecting
      · rw [hover] at hup
        cases hup
    | enter hwaiting =>
      rw [hover] at hwaiting
      cases hwaiting
    | retry hwaiting =>
      rw [hover] at hwaiting
      cases hwaiting
    | finished hwaiting hafter => exact hafter

/-- What ends a session, and that no attempt follows by itself. -/
structure Session.Stops (reconnect : Reconnect) (session : Session) : Prop where
  ended : ∀ event ended after, session.ends event = some ended →
    (ended = .shutdown ∨ ∃ code, ended = .exited code) →
      session.step reconnect event = some after → after.phase = .finished
  shutdown : ∀ delivered after, session.next = some .shutdown →
    session.step reconnect (.receive delivered) = some after → after.phase = .finished
  finalError : ∀ event code reason after,
    session.ends event = some (.lost code reason true) →
      session.step reconnect event = some after → after.phase = .waiting none true
  finished : session.phase = .finished → ∀ later last,
    runFrom (Session.step reconnect) session later = some last → last.phase = .finished

theorem ended_over {ended : Ended} (hends : session.ends event = some ended)
    (hended : ended = .shutdown ∨ ∃ code, ended = .exited code)
    (hstep : session.step reconnect event = some after) : after.phase = .finished := by
  rw [Session.step, hends] at hstep
  obtain rfl := some.inj hstep
  rcases hended with rfl | ⟨code, rfl⟩ <;> rfl

theorem shutdown_over {delivered : Bool} (hnext : session.next = some .shutdown)
    (hstep : session.step reconnect (.receive delivered) = some after) :
    after.phase = .finished := by
  cases hphase : session.phase with
  | connecting =>
    have hends : session.ends (.receive delivered) = some .shutdown := by
      simp [Session.ends, hphase, hnext]
    exact ended_over hends (Or.inl rfl) hstep
  | up exited exitCode =>
    have hends : session.ends (.receive delivered) = some .shutdown := by
      simp [Session.ends, hphase, hnext]
    exact ended_over hends (Or.inl rfl) hstep
  | waiting delay finalError =>
    have hends : session.ends (.receive delivered) = none := by simp [Session.ends, hphase]
    rw [Session.step, hends] at hstep
    simp only [Session.goOn, Session.obey, hphase, hnext] at hstep
    obtain rfl := some.inj hstep
    rfl
  | finished => exact step_over hphase hstep

theorem finalError_waits {code reason : String}
    (hends : session.ends event = some (.lost code reason true))
    (hstep : session.step reconnect event = some after) :
    after.phase = .waiting none true := by
  rw [Session.step, hends] at hstep
  obtain rfl := some.inj hstep
  obtain ⟨delay, hphase, hagain, -⟩ := finish_lost reconnect (session.taken event) code reason true
  cases delay with
  | none => exact hphase
  | some seconds => cases (hagain seconds rfl).2.1

theorem over_stays (hover : session.phase = .finished) {later : List Event} {last : Session}
    (h : runFrom (Session.step reconnect) session later = some last) :
    last.phase = .finished := by
  induction later generalizing session with
  | nil =>
    obtain rfl := some.inj h
    exact hover
  | cons event rest ih =>
    obtain ⟨next, hstep, hrest⟩ := bind_eq_some_iff.mp h
    exact ih (step_over hover hstep) hrest

theorem session_stops (reconnect : Reconnect) (session : Session) : session.Stops reconnect where
  ended _ _ _ := ended_over
  shutdown _ _ := shutdown_over
  finalError _ _ _ _ := finalError_waits
  finished hover _ _ := over_stays hover

theorem start_kept (size : TermSize) : (Session.start size).Kept reconnect :=
  .of_connecting rfl (Nat.zero_le _)

theorem runFrom_kept {events : List Event} (h : session.Kept reconnect)
    (hrun : runFrom (Session.step reconnect) session events = some after) :
    after.Kept reconnect := by
  induction events generalizing session with
  | nil =>
    obtain rfl := some.inj hrun
    exact h
  | cons event rest ih =>
    obtain ⟨next, hstep, hrest⟩ := bind_eq_some_iff.mp hrun
    exact ih (step_kept h hstep) hrest

/-- In every run nothing but a loss that another attempt may help is retried by itself, and
nothing follows a shutdown or an exit; and in every run whose losses come after automatic
attempts only, each wait is that of its attempt since the session was last connected, and
only as many failed attempts as were set end them. -/
theorem reconnection_counts (reconnect : Reconnect) (size : TermSize) (events : List Event)
    (session : Session) :
    (runFrom (Session.step reconnect) (Session.start size) events = some session →
      session.Stops reconnect ∧
        ∀ delay finalError, session.phase = .waiting (some delay) finalError →
          reconnect.automatic ∧ finalError = false) ∧
    (GoodRun (Session.step reconnect) Session.Careful (Session.start size) events session →
      session.Counts reconnect) := by
  refine ⟨fun hrun => ⟨session_stops reconnect session,
    (runFrom_kept (start_kept size) hrun).again⟩, fun hrun => ?_⟩
  refine (hrun.invariant (p := fun session =>
    session.Kept reconnect ∧ session.Counts reconnect) ?_ ⟨start_kept size, ?_⟩).2
  · rintro before next event ⟨hkept, hcounts⟩ hcareful hstep
    exact ⟨step_kept hkept hstep, step_counts hkept hcounts hcareful hstep⟩
  · exact .of_not_waiting fun _ _ => nofun

end Step

namespace ReconnectWitness

def size : TermSize := ⟨80, 24, 0, 0⟩

def once : Reconnect := ⟨true, 1⟩

/-- The connection is lost, comes up again by itself, and is lost once more. -/
def flaky : List Event :=
  [.connected 1, .channel (.close true), .timer, .connected 2, .channel (.close true)]

/-- No attempt ever failed, and yet there is no other. -/
theorem flaky_gives_up :
    ∃ session, runFrom (Session.step once) (Session.start size) flaky = some session ∧
      session.phase = .waiting none false ∧ session.failedInARow = 0 ∧ ¬session.Counts once := by
  refine ⟨_, rfl, rfl, rfl, fun hcounts => ?_⟩
  exact absurd (hcounts.stops rfl rfl) (by decide)

def twice : Reconnect := ⟨true, 2⟩

/-- The connection is lost, and the attempt that follows fails. -/
def down : List Event :=
  [.connected 1, .channel (.close true), .timer, .failed (.timeout "connecting")]

instance (session : Session) (event : Event) : Decidable (session.Careful event) :=
  match h : session.ends event with
  | some (.lost code reason false) =>
    if hcount : session.failures = min session.retries u32Max then
      .isTrue fun _ _ _ => hcount
    else .isFalse fun hall => hcount (hall code reason h)
  | some (.lost _ _ true) => .isTrue fun _ _ hends => by rw [h] at hends; cases hends
  | some (.exited _) => .isTrue fun _ _ hends => by rw [h] at hends; cases hends
  | some .shutdown => .isTrue fun _ _ hends => by rw [h] at hends; cases hends
  | none => .isTrue fun _ _ hends => by rw [h] at hends; cases hends

theorem down_counts :
    ∃ session, runFrom (Session.step twice) (Session.start size) down = some session ∧
      session.phase = .waiting (some 2) false ∧ session.Counts twice := by
  have hgood : (runGood (Session.step twice) Session.Careful (Session.start size) down).isSome :=
    by decide
  exact ⟨_, rfl, rfl, (reconnection_counts twice size down _).2 (GoodRun.of_isSome hgood rfl)⟩

end ReconnectWitness

end Opensesh.Ssh
