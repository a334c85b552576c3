/-
The player of a recording: a thread that sends what is due and waits, and controls that change
what it does next.  What was sent against the position it reports, over every run.
-/
import Opensesh.Cast
import Mathlib.Data.NNRat.Defs

namespace Opensesh.Recording

open List Option

/-- The longest pause a recording plays. -/
def IDLE_LIMIT : ℚ := 2

/-- The outputs and when each plays, from a time of the recording that plays at `played`. -/
def timelineFrom (previous played : ℚ) : List Event → List (ℚ × List Char)
  | [] => []
  | .output time text :: rest =>
    (played + min (time - previous) IDLE_LIMIT, text) ::
      timelineFrom time (played + min (time - previous) IDLE_LIMIT) rest
  | .resize time _ _ :: rest =>
    timelineFrom time (played + min (time - previous) IDLE_LIMIT) rest

/-- The recording with long pauses shortened. -/
def timeline (cast : Cast) : List (ℚ × List Char) := timelineFrom 0 0 cast.events

/-- When the last output plays. -/
def durationOf (outputs : List (ℚ × List Char)) : ℚ := (outputs.getLast?.map Prod.fst).getD 0

/-- What the player is doing, shared with its controls. -/
structure PlayState where
  playing : Bool
  speed : ℚ
  position : ℚ
  /-- Known once the recording is loaded. -/
  duration : ℚ
  restart : Bool
  seek : Option ℚ
  stop : Bool

def PlayState.new : PlayState where
  playing := false
  speed := 1
  position := 0
  duration := 0
  restart := false
  seek := none
  stop := false

inductive Control where
  | play
  | pause
  | setSpeed (speed : ℚ)
  | restart
  | seek (seconds : ℚ)
  | shutdown

/-- What a control changes, under the lock. -/
def Control.change (state : PlayState) : Control → PlayState
  | .play =>
    { state with
      restart := state.restart || decide (0 < state.duration ∧ state.duration ≤ state.position)
      playing := true }
  | .pause => { state with playing := false }
  | .setSpeed speed => { state with speed := max (1 / 4) (min speed 16) }
  | .restart => { state with restart := true, playing := true }
  | .seek seconds => { state with seek := some (max seconds 0) }
  | .shutdown => { state with stop := true }

/-- What goes to the terminal. -/
inductive Sent where
  /-- The full reset, which clears the screen and the modes. -/
  | reset
  | output (text : List Char)

/-- Where the player's thread is. -/
inductive Thread where
  | loading
  /-- It waits, with the output it sends next. -/
  | waiting (next : Nat)
  | ended

structure Player where
  state : PlayState
  thread : Thread
  sent : List Sent
  /-- How many more messages the terminal takes before it is gone; none when it stays. -/
  takes : Option Nat

def Player.new (takes : Option Nat) : Player := ⟨.new, .loading, [], takes⟩

def Player.send (message : Sent) (p : Player) : Option Player :=
  match p.takes with
  | none => some { p with sent := p.sent ++ [message] }
  | some 0 => none
  | some (n + 1) => some { p with sent := p.sent ++ [message], takes := some n }

/-- Sends what is due of the outputs from `next` on, and waits again. -/
def Player.sendDue (catchUp : Bool) : List (ℚ × List Char) → Nat → Player → Player
  -- The end: it stops there.
  | [], next, p =>
    { p with
      state := { p.state with playing := false, position := p.state.duration }
      thread := .waiting next }
  | (time, text) :: rest, next, p =>
    if (p.state.playing || catchUp) = false ∨ p.state.position < time then
      { p with thread := .waiting next }
    else
      match p.send (.output text) with
      | some p => p.sendDue catchUp rest (next + 1)
      | none => { p with thread := .ended }

/-- A jump to `target`: back, or to restart, from the start again. -/
def Player.jump (outputs : List (ℚ × List Char)) (restart : Bool) (target : ℚ) (next : Nat)
    (p : Player) : Player :=
  if restart ∨ target < p.state.position then
    match p.send .reset with
    | some p => { p with state := { p.state with position := target } }.sendDue true outputs 0
    | none => { p with thread := .ended }
  else
    { p with state := { p.state with position := target } }.sendDue true (outputs.drop next) next

/-- Where a restart or a seek asks to go. -/
def PlayState.target (state : PlayState) : Option ℚ :=
  if state.restart then some 0 else state.seek

/-- One turn of the loop, so long after the last one. -/
def Player.turn (outputs : List (ℚ × List Char)) (elapsed : ℚ≥0) (next : Nat) (p : Player) :
    Player :=
  if p.state.stop then { p with thread := .ended }
  else
    let taken := { p with state := { p.state with restart := false, seek := none } }
    match p.state.target with
    | some target => taken.jump outputs p.state.restart (min target p.state.duration) next
    | none =>
      if p.state.playing then
        { taken with state := { taken.state with
            position := p.state.position + elapsed * p.state.speed } }.sendDue false
          (outputs.drop next) next
      else taken.sendDue false (outputs.drop next) next

/-- What happens to a player of a recording. -/
inductive Input where
  | control (control : Control)
  /-- The thread has read the recording. -/
  | loaded
  /-- The thread wakes up, for whatever reason. -/
  | wake (elapsed : ℚ≥0)

def Player.step (outputs : List (ℚ × List Char)) (p : Player) : Input → Player
  | .control control => { p with state := control.change p.state }
  | .loaded =>
    match p.thread with
    | .loading =>
      { p with
        state := { p.state with duration := durationOf outputs }
        thread := .waiting 0 }
    | .waiting _ | .ended => p
  | .wake elapsed =>
    match p.thread with
    | .waiting next => p.turn outputs elapsed next
    | .loading | .ended => p

/-- The player of a recording after a run. -/
def Player.after (cast : Cast) (takes : Option Nat) (inputs : List Input) : Player :=
  inputs.foldl (Player.step (timeline cast)) (.new takes)

/-- What was shown since the last full reset. -/
def sinceReset : List Sent → List (List Char)
  | sent => sent.foldl (fun shown message =>
    match message with
    | .reset => []
    | .output text => shown ++ [text]) []

/-- Outputs from 0 on, each no earlier than the ones before. -/
structure Timed (outputs : List (ℚ × List Char)) : Prop where
  sorted : outputs.Pairwise fun earlier later => earlier.1 ≤ later.1
  nonneg : ∀ output ∈ outputs, 0 ≤ output.1

variable {previous : ℚ} {events : List Event} {outputs : List (ℚ × List Char)} {message : Sent}
  {p : Player} {cast : Cast}

theorem pause_nonneg {time : ℚ} (h : previous ≤ time) : 0 ≤ min (time - previous) IDLE_LIMIT :=
  le_min (by linarith) (by norm_num [IDLE_LIMIT])

theorem le_timelineFrom (played : ℚ) (h : InOrder previous events) :
    ∀ output ∈ timelineFrom previous played events, played ≤ output.1 := by
  induction events generalizing previous played with
  | nil => simp [timelineFrom]
  | cons event rest ih =>
    intro output houtput
    have hpause := pause_nonneg h.1
    cases event with
    | output time text =>
      rcases mem_cons.mp houtput with rfl | hrest
      · exact le_add_of_nonneg_right hpause
      · exact le_trans (le_add_of_nonneg_right hpause) (ih _ h.2 output hrest)
    | resize time columns lines =>
      exact le_trans (le_add_of_nonneg_right hpause) (ih _ h.2 output houtput)

theorem timelineFrom_sorted (played : ℚ) (h : InOrder previous events) :
    (timelineFrom previous played events).Pairwise fun earlier later => earlier.1 ≤ later.1 := by
  induction events generalizing previous played with
  | nil => exact .nil
  | cons event rest ih =>
    cases event with
    | output time text => exact .cons (le_timelineFrom _ h.2) (ih _ h.2)
    | resize time columns lines => exact ih _ h.2

theorem timeline_timed (cast : Cast) : Timed (timeline cast) :=
  ⟨timelineFrom_sorted 0 cast.inOrder, le_timelineFrom 0 cast.inOrder⟩

theorem timelineFrom_texts (previous played : ℚ) (events : List Event) :
    (timelineFrom previous played events).map Prod.snd = events.filterMap Event.text? := by
  induction events generalizing previous played with
  | nil => rfl
  | cons event rest ih =>
    cases event with
    | output time text => exact congrArg (text :: ·) (ih _ _)
    | resize time columns lines => exact ih _ _

theorem timeline_texts (cast : Cast) : (timeline cast).map Prod.snd = cast.outputs :=
  timelineFrom_texts 0 0 cast.events

theorem exists_later_timelineFrom {played : ℚ} (h : InOrder previous events)
    (hprevious : 0 ≤ previous) (hplayed : 0 ≤ played) (hsame : 0 < played ↔ 0 < previous) :
    (∃ output ∈ timelineFrom previous played events, 0 < output.1) ↔
      ∃ event ∈ events, event.text?.isSome ∧ 0 < event.time := by
  induction events generalizing previous played with
  | nil => simp [timelineFrom]
  | cons event rest ih =>
    have hpause := pause_nonneg h.1
    have hle : previous ≤ event.time := h.1
    have hnow : 0 < played + min (event.time - previous) IDLE_LIMIT ↔ 0 < event.time := by
      constructor
      · intro hpos
        by_contra hzero
        have hprev : ¬ 0 < previous := by linarith
        have hmin := min_le_left (event.time - previous) IDLE_LIMIT
        have hnot : ¬ 0 < played := fun hplay => hprev (hsame.mp hplay)
        linarith
      · intro hpos
        rcases hprevious.lt_or_eq with hlt | heq
        · linarith [hsame.mpr hlt]
        · have hmin : 0 < min (event.time - previous) IDLE_LIMIT :=
            lt_min (by linarith) (by norm_num [IDLE_LIMIT])
          linarith
    have hrest := @ih event.time (played + min (event.time - previous) IDLE_LIMIT) h.2
      (le_trans hprevious hle) (by linarith) hnow
    cases event with
    | output time text =>
      simp only [timelineFrom, mem_cons, exists_eq_or_imp]
      exact or_congr (hnow.trans (by simp [Event.text?])) hrest
    | resize time columns lines => exact hrest.trans (by simp [Event.text?])

theorem durationOf_concat (outputs : List (ℚ × List Char)) (output : ℚ × List Char) :
    durationOf (outputs ++ [output]) = output.1 := by
  simp [durationOf]

theorem Timed.le_duration (h : Timed outputs) :
    ∀ output ∈ outputs, output.1 ≤ durationOf outputs := by
  rcases eq_nil_or_concat outputs with rfl | ⟨front, last, rfl⟩
  · simp
  · rw [concat_eq_append] at h ⊢
    rw [durationOf_concat]
    intro output houtput
    rcases mem_append.mp houtput with hfront | hlast
    · exact (pairwise_append.mp h.sorted).2.2 output hfront last mem_cons_self
    · exact le_of_eq (congrArg Prod.fst (mem_singleton.mp hlast))

theorem Timed.duration_nonneg (h : Timed outputs) : 0 ≤ durationOf outputs := by
  cases outputs with
  | nil => exact le_refl _
  | cons output rest =>
    exact le_trans (h.nonneg output mem_cons_self) (h.le_duration output mem_cons_self)

theorem durationOf_le {position : ℚ} (hnonneg : 0 ≤ position)
    (h : ∀ output ∈ outputs, output.1 ≤ position) : durationOf outputs ≤ position := by
  rcases eq_nil_or_concat outputs with rfl | ⟨front, last, rfl⟩
  · exact hnonneg
  · rw [concat_eq_append] at h ⊢
    rw [durationOf_concat]
    exact h last (by simp)

theorem Timed.duration_pos (h : Timed outputs) :
    0 < durationOf outputs ↔ ∃ output ∈ outputs, 0 < output.1 := by
  constructor
  · intro hpos
    rcases eq_nil_or_concat outputs with rfl | ⟨front, last, rfl⟩
    · exact absurd hpos (lt_irrefl _)
    · rw [concat_eq_append, durationOf_concat] at hpos
      exact ⟨last, by simp, hpos⟩
  · rintro ⟨output, houtput, hpos⟩
    exact lt_of_lt_of_le hpos (h.le_duration output houtput)

/-- Those not later than a position are a prefix, up to the first one that is later. -/
theorem Timed.take_eq_filter (h : Timed outputs) {n : Nat} {position : ℚ}
    (htaken : ∀ output ∈ outputs.take n, output.1 ≤ position)
    (hnext : ∀ output, outputs[n]? = some output → position < output.1) :
    outputs.take n = outputs.filter fun output => output.1 ≤ position := by
  have hlater : ∀ output ∈ outputs.drop n, position < output.1 := by
    intro output houtput
    cases hdrop : outputs.drop n with
    | nil => simp [hdrop] at houtput
    | cons first rest =>
      have hfirst := hnext first (by rw [← List.head?_drop, hdrop]; rfl)
      have hsorted := hdrop ▸ h.sorted.sublist (drop_sublist n outputs)
      rw [hdrop] at houtput
      rcases mem_cons.mp houtput with rfl | hrest
      · exact hfirst
      · exact lt_of_lt_of_le hfirst ((pairwise_cons.mp hsorted).1 output hrest)
  conv_rhs => rw [← take_append_drop n outputs, filter_append]
  rw [List.filter_eq_self.mpr (by simpa using htaken), filter_eq_nil_iff.mpr (by
    simpa using hlater), List.append_nil]

theorem sinceReset_reset (sent : List Sent) : sinceReset (sent ++ [.reset]) = [] := by
  rw [sinceReset, foldl_append]
  rfl

theorem sinceReset_outputs (sent : List Sent) (texts : List (List Char)) :
    sinceReset (sent ++ texts.map Sent.output) = sinceReset sent ++ texts := by
  induction texts generalizing sent with
  | nil => simp
  | cons text rest ih =>
    rw [map_cons, append_cons, ih, sinceReset, foldl_append]
    simp [sinceReset]

theorem Player.send_eq_some {q : Player} (h : p.send message = some q) :
    q.sent = p.sent ++ [message] ∧ q.state = p.state ∧ (p.takes = none → q.takes = none) := by
  unfold Player.send at h
  split at h
  · obtain rfl := some.inj h
    exact ⟨rfl, rfl, id⟩
  · cases h
  · rename_i n htakes
    obtain rfl := some.inj h
    exact ⟨rfl, rfl, fun hnone => by simp [htakes] at hnone⟩

theorem Player.send_eq_none (h : p.send message = none) : p.takes = some 0 := by
  unfold Player.send at h
  split at h
  · cases h
  · assumption
  · cases h

/-- What sending the outputs that are due leads to: `n` of them were sent, and the player waits
at the end or before one that is not due, or the terminal is gone. -/
structure Player.SentDue (catchUp : Bool) (rest : List (ℚ × List Char)) (next n : Nat)
    (p q : Player) : Prop where
  sent : q.sent = p.sent ++ ((rest.take n).map Prod.snd).map Sent.output
  due : ∀ output ∈ rest.take n, output.1 ≤ p.state.position
  left : n ≤ rest.length
  takes : p.takes = none → q.takes = none
  ended : q.thread = .ended ∧ q.takes = some 0 ∧ q.state = p.state ∨
    q.thread = .waiting (next + n) ∧ n = rest.length ∧
      q.state = { p.state with playing := false, position := p.state.duration } ∨
    q.thread = .waiting (next + n) ∧ q.state = p.state ∧ ∃ output, rest[n]? = some output ∧
      ((p.state.playing || catchUp) = true → p.state.position < output.1)

theorem Player.sendDue_sent (catchUp : Bool) (rest : List (ℚ × List Char)) (next : Nat)
    (p : Player) : ∃ n, SentDue catchUp rest next n p (p.sendDue catchUp rest next) := by
  induction rest generalizing next p with
  | nil =>
    exact ⟨0, by simp [Player.sendDue], by simp, le_refl _, id, .inr (.inl ⟨rfl, rfl, rfl⟩)⟩
  | cons output rest ih =>
    obtain ⟨time, text⟩ := output
    rw [Player.sendDue]
    split
    · rename_i hnot
      refine ⟨0, by simp, by simp, Nat.zero_le _, id, .inr (.inr ⟨rfl, rfl, _, rfl, ?_⟩)⟩
      intro hgo
      exact hnot.resolve_left (by simp [hgo])
    · rename_i hdue
      rw [not_or, not_lt] at hdue
      split
      · rename_i p' hsend
        obtain ⟨hsent, hstate, htakes⟩ := Player.send_eq_some hsend
        obtain ⟨n, hrest⟩ := ih (next + 1) p'
        refine ⟨n + 1, ?_, ?_, Nat.succ_le_succ hrest.left, hrest.takes ∘ htakes, ?_⟩
        · rw [hrest.sent, hsent]
          simp
        · rw [take_succ_cons, forall_mem_cons]
          exact ⟨hdue.2, hstate ▸ hrest.due⟩
        · have hended := hrest.ended
          rw [hstate, Nat.add_assoc, Nat.add_comm 1 n] at hended
          simpa using hended
      · rename_i hsend
        exact ⟨0, by simp, by simp, Nat.zero_le _, id,
          .inl ⟨rfl, (Player.send_eq_none hsend :), rfl⟩⟩

/-- Since the last reset, the first `next` outputs were shown, none later than the position. -/
structure Player.Shown (outputs : List (ℚ × List Char)) (next : Nat) (p : Player) : Prop where
  sent : sinceReset p.sent = (outputs.take next).map Prod.snd
  notLater : ∀ output ∈ outputs.take next, output.1 ≤ p.state.position

/-- What holds while it waits, with the output it sends next. -/
structure Player.Waits (outputs : List (ℚ × List Char)) (next : Nat) (p : Player) : Prop where
  left : next ≤ outputs.length
  shown : p.Shown outputs next
  duration : p.state.duration = durationOf outputs
  within : p.state.position ≤ durationOf outputs
  atEnd : next = outputs.length → p.state.position = durationOf outputs

structure PlayState.Sound (state : PlayState) : Prop where
  position : 0 ≤ state.position
  speed : 0 ≤ state.speed
  seek : ∀ target, state.seek = some target → 0 ≤ target

structure Player.Kept (outputs : List (ℚ × List Char)) (p : Player) : Prop where
  sound : p.state.Sound
  loading : p.thread = .loading → p.sent = [] ∧ p.state.position = 0 ∧ p.state.duration = 0
  waiting : ∀ next, p.thread = .waiting next → p.Waits outputs next
  ended : p.thread = .ended → (∃ next, p.Shown outputs next) ∧
    (p.takes ≠ some 0 → p.state.position ≤ p.state.duration)

theorem Player.new_kept (outputs : List (ℚ × List Char)) (takes : Option Nat) :
    (Player.new takes).Kept outputs where
  sound := ⟨le_refl _, by norm_num [Player.new, PlayState.new], by simp [Player.new, PlayState.new]⟩
  loading := fun _ => ⟨rfl, rfl, rfl⟩
  waiting := by simp [Player.new]
  ended := by simp [Player.new]

theorem Control.change_kept (control : Control) {state : PlayState} (h : state.Sound) :
    (control.change state).Sound ∧ (control.change state).position = state.position ∧
      (control.change state).duration = state.duration := by
  obtain ⟨hposition, hspeed, hseek⟩ := h
  cases control with
  | setSpeed speed =>
    refine ⟨⟨hposition, ?_, hseek⟩, rfl, rfl⟩
    exact le_trans (by norm_num) (le_max_left (1 / 4 : ℚ) (min speed 16))
  | seek seconds =>
    refine ⟨⟨hposition, hspeed, ?_⟩, rfl, rfl⟩
    rintro target ⟨⟩
    exact le_max_right _ _
  | play | pause | restart | shutdown => exact ⟨⟨hposition, hspeed, hseek⟩, rfl, rfl⟩

theorem Player.Shown.congr {next : Nat} {q : Player} (h : p.Shown outputs next)
    (hsent : q.sent = p.sent) (hposition : p.state.position ≤ q.state.position) :
    q.Shown outputs next :=
  ⟨hsent ▸ h.sent, fun output houtput => le_trans (h.notLater output houtput) hposition⟩

theorem Player.control_kept (control : Control) (h : p.Kept outputs) :
    (p.step outputs (.control control)).Kept outputs := by
  obtain ⟨hsound, hposition, hduration⟩ := control.change_kept h.sound
  refine ⟨hsound, fun hthread => ?_, fun next hthread => ?_, fun hthread => ?_⟩
  · change _ ∧ (control.change p.state).position = 0 ∧ (control.change p.state).duration = 0
    rw [hposition, hduration]
    exact h.loading hthread
  · have hwaits := h.waiting next hthread
    exact ⟨hwaits.left, hwaits.shown.congr rfl (le_of_eq hposition.symm),
      hduration.trans hwaits.duration, le_of_eq_of_le hposition hwaits.within,
      fun heq => hposition.trans (hwaits.atEnd heq)⟩
  · obtain ⟨⟨next, hshown⟩, hwithin⟩ := h.ended hthread
    refine ⟨⟨next, hshown.congr rfl (le_of_eq hposition.symm)⟩, fun htakes => ?_⟩
    change (control.change p.state).position ≤ (control.change p.state).duration
    rw [hposition, hduration]
    exact hwithin htakes

theorem Player.loaded_kept (htimed : Timed outputs) (h : p.Kept outputs) :
    (p.step outputs .loaded).Kept outputs := by
  rw [Player.step]
  split
  · rename_i hthread
    obtain ⟨hsent, hposition, -⟩ := h.loading hthread
    refine ⟨⟨h.sound.position, h.sound.speed, h.sound.seek⟩, by simp, ?_, by simp⟩
    rintro next ⟨⟩
    have hzero : p.state.position ≤ durationOf outputs :=
      le_of_eq_of_le hposition htimed.duration_nonneg
    refine ⟨Nat.zero_le _, ⟨by simp [hsent, sinceReset], by simp⟩, rfl, hzero, fun heq => ?_⟩
    rw [length_eq_zero_iff.mp heq.symm]
    exact hposition
  · exact h
  · exact h

theorem Player.sendDue_kept {outputs : List (ℚ × List Char)} (htimed : Timed outputs) {p : Player}
    {next : Nat} (catchUp : Bool) (hleft : next ≤ outputs.length) (hshown : p.Shown outputs next)
    (hsound : p.state.Sound) (hduration : p.state.duration = durationOf outputs)
    (hwithin : (p.state.playing || catchUp) = false → p.state.position ≤ durationOf outputs) :
    (p.sendDue catchUp (outputs.drop next) next).Kept outputs := by
  obtain ⟨n, hsent⟩ := Player.sendDue_sent catchUp (outputs.drop next) next p
  generalize p.sendDue catchUp (outputs.drop next) next = q at hsent
  have htake : outputs.take (next + n) = outputs.take next ++ (outputs.drop next).take n := take_add
  have hlength := hsent.left
  rw [length_drop] at hlength
  have hbegins : sinceReset q.sent = (outputs.take (next + n)).map Prod.snd := by
    rw [hsent.sent, sinceReset_outputs, hshown.sent, htake, map_append]
  have hdue : ∀ output ∈ outputs.take (next + n), output.1 ≤ p.state.position := by
    rw [htake, forall_mem_append]
    exact ⟨hshown.notLater, hsent.due⟩
  rcases hsent.ended with ⟨hthread, htakes, hstate⟩ | ⟨hthread, hn, hstate⟩ |
    ⟨hthread, hstate, output, houtput, hlater⟩
  · refine ⟨hstate ▸ hsound, by simp [hthread], by simp [hthread], fun _ => ⟨⟨next + n, ?_⟩, ?_⟩⟩
    · exact ⟨hbegins, hstate ▸ hdue⟩
    · exact fun hnot => absurd htakes hnot
  · have hposition : q.state.position = durationOf outputs := by rw [hstate, ← hduration]
    have hall : next + n = outputs.length := by rw [hn, length_drop]; omega
    refine ⟨⟨?_, ?_, ?_⟩, by simp [hthread], fun other hother => ?_, by simp [hthread]⟩
    · rw [hposition]
      exact htimed.duration_nonneg
    · rw [hstate]
      exact hsound.speed
    · rw [hstate]
      exact hsound.seek
    · obtain rfl : next + n = other := by simpa [hthread] using hother
      refine ⟨le_of_eq hall, ⟨hbegins, fun output houtput => ?_⟩, by rw [hstate, ← hduration],
        le_of_eq hposition, fun _ => hposition⟩
      rw [hposition]
      exact htimed.le_duration output (mem_of_mem_take houtput)
  · rw [List.getElem?_drop] at houtput
    refine ⟨hstate ▸ hsound, by simp [hthread], fun other hother => ?_, by simp [hthread]⟩
    obtain rfl : next + n = other := by simpa [hthread] using hother
    have hlt := (List.getElem?_eq_some_iff.mp houtput).1
    refine ⟨by omega, ⟨hbegins, hstate ▸ hdue⟩, hstate ▸ hduration, ?_, fun heq => by omega⟩
    rw [hstate]
    cases hgo : p.state.playing || catchUp with
    | false => exact hwithin hgo
    | true =>
      exact le_trans (hlater hgo).le (htimed.le_duration output (mem_of_getElem? houtput))

/-- The outputs that play no later than a position. -/
def upTo (position : ℚ) (outputs : List (ℚ × List Char)) : List (List Char) :=
  (outputs.filter fun output => output.1 ≤ position).map Prod.snd

/-- After catching up, exactly the outputs not later than the position were shown. -/
structure Player.CaughtUp (outputs : List (ℚ × List Char)) (next : Nat) (p q : Player) :
    Prop where
  sent : q.sent = p.sent ++ (upTo p.state.position (outputs.drop next)).map Sent.output
  shown : sinceReset q.sent = upTo p.state.position outputs
  position : q.state.position = p.state.position
  playing : p.state.position < durationOf outputs → q.state.playing = p.state.playing

theorem Player.sendDue_caughtUp {outputs : List (ℚ × List Char)} (htimed : Timed outputs)
    {p : Player} {next : Nat} (hshown : p.Shown outputs next)
    (hduration : p.state.duration = durationOf outputs)
    (hnonneg : 0 ≤ p.state.position) (hwithin : p.state.position ≤ durationOf outputs)
    (hgone : (p.sendDue true (outputs.drop next) next).thread ≠ .ended) :
    p.CaughtUp outputs next (p.sendDue true (outputs.drop next) next) := by
  obtain ⟨n, hsent⟩ := Player.sendDue_sent true (outputs.drop next) next p
  generalize p.sendDue true (outputs.drop next) next = q at hsent hgone
  have htimedDrop : Timed (outputs.drop next) :=
    ⟨htimed.sorted.sublist (drop_sublist next outputs),
      fun output houtput => htimed.nonneg output (mem_of_mem_drop houtput)⟩
  have hdue : (outputs.drop next).take n =
        (outputs.drop next).filter (fun output => output.1 ≤ p.state.position) ∧
      q.state.position = p.state.position ∧
      (p.state.position < durationOf outputs → q.state.playing = p.state.playing) := by
    rcases hsent.ended with ⟨hthread, -, -⟩ | ⟨-, hn, hstate⟩ | ⟨-, hstate, output, houtput, hlater⟩
    · exact absurd hthread hgone
    · have hend : durationOf outputs ≤ p.state.position := by
        have hdropped := hsent.due
        rw [hn, take_length] at hdropped
        refine durationOf_le hnonneg ?_
        rw [← take_append_drop next outputs]
        exact forall_mem_append.mpr ⟨hshown.notLater, hdropped⟩
      refine ⟨htimedDrop.take_eq_filter hsent.due fun output houtput => ?_, ?_,
        fun hlt => absurd hlt (not_lt.mpr hend)⟩
      · rw [hn, List.getElem?_eq_none (le_refl _)] at houtput
        cases houtput
      · rw [hstate]
        exact hduration.trans (le_antisymm hend hwithin)
    · refine ⟨htimedDrop.take_eq_filter hsent.due fun other hother => ?_, by rw [hstate],
        fun _ => by rw [hstate]⟩
      rw [houtput] at hother
      obtain rfl := some.inj hother
      exact hlater (Bool.or_true _)
  have htaken : (outputs.take next).filter (fun output => output.1 ≤ p.state.position) =
      outputs.take next := List.filter_eq_self.mpr (by simpa using hshown.notLater)
  refine ⟨by rw [hsent.sent, hdue.1, upTo], ?_, hdue.2.1, hdue.2.2⟩
  rw [hsent.sent, sinceReset_outputs, hshown.sent, hdue.1, ← map_append, ← htaken,
    ← filter_append, take_append_drop, upTo]

theorem PlayState.Sound.target_nonneg {state : PlayState} (h : state.Sound) {target : ℚ}
    (htarget : state.target = some target) : 0 ≤ target := by
  unfold PlayState.target at htarget
  split at htarget
  · obtain rfl := some.inj htarget
    exact le_refl _
  · exact h.seek target htarget

theorem Player.jump_kept (htimed : Timed outputs) {next : Nat} (restart : Bool) {target : ℚ}
    (h : p.Waits outputs next) (hsound : p.state.Sound) (hnonneg : 0 ≤ target)
    (hwithin : target ≤ durationOf outputs) :
    (p.jump outputs restart target next).Kept outputs := by
  rw [Player.jump]
  have hsound' : ({ p.state with position := target } : PlayState).Sound :=
    ⟨hnonneg, hsound.speed, hsound.seek⟩
  split
  · split
    · rename_i p' hsend
      obtain ⟨hsent, hstate, -⟩ := Player.send_eq_some hsend
      have hkept := @Player.sendDue_kept _ htimed
        { p' with state := { p'.state with position := target } } 0 true (Nat.zero_le _)
        ⟨by rw [hsent, sinceReset_reset]; rfl, by simp⟩ (by rw [hstate]; exact hsound')
        (by rw [hstate]; exact h.duration) (fun _ => hwithin)
      rwa [drop_zero] at hkept
    · rename_i hsend
      refine ⟨hsound, by simp, by simp, fun _ => ⟨⟨next, h.shown.congr rfl (le_refl _)⟩, ?_⟩⟩
      exact fun hnot => absurd (Player.send_eq_none hsend) hnot
  · rename_i hforward
    rw [not_or, not_lt] at hforward
    exact Player.sendDue_kept htimed true h.left (h.shown.congr rfl hforward.2) hsound' h.duration
      (fun _ => hwithin)

theorem Player.turn_kept (htimed : Timed outputs) {next : Nat} (elapsed : ℚ≥0)
    (h : p.Waits outputs next) (hsound : p.state.Sound) :
    (p.turn outputs elapsed next).Kept outputs := by
  have hpassed : 0 ≤ (elapsed : ℚ) * p.state.speed := mul_nonneg elapsed.2 hsound.speed
  have hsound' : ({ p.state with restart := false, seek := none } : PlayState).Sound :=
    ⟨hsound.position, hsound.speed, by simp⟩
  rw [Player.turn]
  split
  · refine ⟨hsound, by simp, by simp, fun _ => ⟨⟨next, h.shown.congr rfl (le_refl _)⟩, ?_⟩⟩
    exact fun _ => le_of_le_of_eq h.within h.duration.symm
  · dsimp only
    split
    · rename_i target htarget
      refine Player.jump_kept htimed _
        ⟨h.left, h.shown.congr rfl (le_refl _), h.duration, h.within, h.atEnd⟩ hsound' ?_ ?_
      · rw [h.duration]
        exact le_min (hsound.target_nonneg htarget) htimed.duration_nonneg
      · rw [h.duration]
        exact min_le_right _ _
    · split
      · rename_i hplaying
        refine Player.sendDue_kept htimed false h.left
          (h.shown.congr rfl (le_add_of_nonneg_right hpassed)) ?_ h.duration ?_
        · exact ⟨add_nonneg hsound.position hpassed, hsound.speed, by simp⟩
        · intro hpaused
          exact absurd hplaying (by simpa using hpaused)
      · exact Player.sendDue_kept htimed false h.left (h.shown.congr rfl (le_refl _)) hsound'
          h.duration (fun _ => h.within)

theorem Player.step_kept (htimed : Timed outputs) (input : Input) (h : p.Kept outputs) :
    (p.step outputs input).Kept outputs := by
  cases input with
  | control control => exact Player.control_kept control h
  | loaded => exact Player.loaded_kept htimed h
  | wake elapsed =>
    rw [Player.step]
    split
    · rename_i next hthread
      exact Player.turn_kept htimed elapsed (h.waiting next hthread) h.sound
    · exact h
    · exact h

theorem Player.run_kept (htimed : Timed outputs) (inputs : List Input) (h : p.Kept outputs) :
    (inputs.foldl (Player.step outputs) p).Kept outputs := by
  induction inputs generalizing p with
  | nil => exact h
  | cons input rest ih => exact ih (Player.step_kept htimed input h)

theorem Player.after_kept (cast : Cast) (takes : Option Nat) (inputs : List Input) :
    (Player.after cast takes inputs).Kept (timeline cast) :=
  Player.run_kept (timeline_timed cast) inputs (Player.new_kept _ takes)

/-- Outputs up to some point were shown, none later than the position, which stays within the
recording as long as the terminal takes what is sent. -/
structure ShowsPrefix (cast : Cast) (p : Player) : Prop where
  shown : ∃ next, sinceReset p.sent = cast.outputs.take next ∧
    ∀ output ∈ (timeline cast).take next, output.1 ≤ p.state.position
  nonneg : 0 ≤ p.state.position
  within : p.takes ≠ some 0 → p.state.position ≤ p.state.duration

/-- Whether the player has to go back to show a target. -/
def PlayState.goesBack (state : PlayState) (target : ℚ) : Prop :=
  state.restart = true ∨ min target state.duration < state.position

/-- A jump that was handled: where it leads to, and a reset first if it goes back. -/
structure Jumped (cast : Cast) (p q : Player) (target : ℚ) : Prop where
  position : q.state.position = min target (durationOf (timeline cast))
  shown : sinceReset q.sent = upTo q.state.position (timeline cast)
  back : p.state.goesBack target →
    q.sent = p.sent ++ .reset :: (upTo q.state.position (timeline cast)).map Sent.output
  forward : ¬ p.state.goesBack target →
    ∃ texts : List (List Char), q.sent = p.sent ++ texts.map Sent.output
  /-- Playing or paused as it was, unless that is the end. -/
  playing : q.state.position < durationOf (timeline cast) → q.state.playing = p.state.playing

/-- What handles a jump, unless the player ends there. -/
def JumpsTruly (cast : Cast) (p : Player) : Prop :=
  ∀ next target elapsed, p.thread = .waiting next → p.state.target = some target →
    (p.step (timeline cast) (.wake elapsed)).thread ≠ .ended →
      Jumped cast p (p.step (timeline cast) (.wake elapsed)) target

/-- Played at the end, it starts again from the first output, whatever else the controls change
before it wakes up. -/
def StartsAgain (cast : Cast) (p : Player) : Prop :=
  cast.outputs ≠ [] → p.thread = .waiting cast.outputs.length → p.state.stop = false →
  ∀ controls : List Control, Control.shutdown ∉ controls → ∀ elapsed q,
    q = ((Control.play :: controls).map Input.control ++ [Input.wake elapsed]).foldl
      (Player.step (timeline cast)) p → q.thread ≠ .ended →
    q.sent = p.sent ++ .reset :: (upTo 0 (timeline cast)).map Sent.output ∧
      q.state.position = 0 ∧ (Control.pause ∉ controls → q.state.playing = true)

/-- The player shows a prefix and never skips, in every state of every run. -/
def ShowsTruly (cast : Cast) : Prop :=
  ∀ takes inputs, ShowsPrefix cast (.after cast takes inputs) ∧
    JumpsTruly cast (.after cast takes inputs) ∧ StartsAgain cast (.after cast takes inputs)

theorem showsPrefix_of_kept (h : p.Kept (timeline cast)) : ShowsPrefix cast p := by
  have hshows : ∀ {next}, p.Shown (timeline cast) next →
      ∃ next, sinceReset p.sent = cast.outputs.take next ∧
        ∀ output ∈ (timeline cast).take next, output.1 ≤ p.state.position := fun {next} hshown =>
    ⟨next, by rw [hshown.sent, map_take, timeline_texts], hshown.notLater⟩
  cases hthread : p.thread with
  | loading =>
    obtain ⟨hsent, hposition, hduration⟩ := h.loading hthread
    exact ⟨⟨0, by rw [hsent]; rfl, by simp⟩, h.sound.position,
      fun _ => le_of_eq (hposition.trans hduration.symm)⟩
  | waiting next =>
    have hwaits := h.waiting next hthread
    exact ⟨hshows hwaits.shown, h.sound.position,
      fun _ => le_of_le_of_eq hwaits.within hwaits.duration.symm⟩
  | ended =>
    obtain ⟨⟨next, hshown⟩, hwithin⟩ := h.ended hthread
    exact ⟨hshows hshown, h.sound.position, hwithin⟩

theorem Player.jump_caughtUp (htimed : Timed outputs) {next : Nat} (restart : Bool) {target : ℚ}
    (h : p.Waits outputs next) (hnonneg : 0 ≤ target) (hwithin : target ≤ durationOf outputs)
    (hgone : (p.jump outputs restart target next).thread ≠ .ended) :
    (p.jump outputs restart target next).state.position = target ∧
    sinceReset (p.jump outputs restart target next).sent = upTo target outputs ∧
    (restart = true ∨ target < p.state.position →
      (p.jump outputs restart target next).sent =
        p.sent ++ .reset :: (upTo target outputs).map Sent.output) ∧
    (¬ (restart = true ∨ target < p.state.position) →
      (p.jump outputs restart target next).sent =
        p.sent ++ (upTo target (outputs.drop next)).map Sent.output) ∧
    (target < durationOf outputs →
      (p.jump outputs restart target next).state.playing = p.state.playing) := by
  rw [Player.jump] at hgone ⊢
  split at hgone
  · rename_i hback
    rw [if_pos hback]
    split at hgone
    · rename_i p' hsend
      obtain ⟨hsent, hstate, -⟩ := Player.send_eq_some hsend
      have hcaught := @Player.sendDue_caughtUp _ htimed
        { p' with state := { p'.state with position := target } } 0
        ⟨by rw [hsent, sinceReset_reset]; rfl, by simp⟩ (by rw [hstate]; exact h.duration)
        hnonneg hwithin (by rwa [drop_zero])
      rw [drop_zero] at hcaught
      refine ⟨hcaught.position, hcaught.shown, fun _ => hcaught.sent.trans ?_,
        fun hnot => absurd hback hnot, fun hlt => (hcaught.playing hlt).trans (by rw [hstate])⟩
      change p'.sent ++ (upTo target (outputs.drop 0)).map Sent.output = _
      rw [hsent, List.append_assoc, drop_zero]
      rfl
    · exact absurd rfl hgone
  · rename_i hforward
    rw [if_neg hforward]
    have hle := not_lt.mp (not_or.mp hforward).2
    have hcaught := @Player.sendDue_caughtUp _ htimed
      { p with state := { p.state with position := target } } next
      (h.shown.congr rfl hle) h.duration hnonneg hwithin hgone
    exact ⟨hcaught.position, hcaught.shown, fun hback => absurd hback hforward,
      fun _ => hcaught.sent, hcaught.playing⟩

theorem jumpsTruly_of_kept (h : p.Kept (timeline cast)) : JumpsTruly cast p := by
  intro next target elapsed hthread htarget hgone
  have htimed := timeline_timed cast
  have hwaits := h.waiting next hthread
  rw [Player.step, hthread] at hgone ⊢
  change (p.turn (timeline cast) elapsed next).thread ≠ .ended at hgone
  change Jumped cast p (p.turn (timeline cast) elapsed next) target
  rw [Player.turn] at hgone ⊢
  split at hgone
  · exact absurd rfl hgone
  · rename_i hstop
    rw [if_neg hstop]
    simp only [htarget] at hgone ⊢
    obtain ⟨hposition, hshown, hback, hforward, hplaying⟩ := Player.jump_caughtUp htimed p.state.restart
      (p := { p with state := { p.state with restart := false, seek := none } })
      ⟨hwaits.left, hwaits.shown.congr rfl (le_refl _), hwaits.duration, hwaits.within,
        hwaits.atEnd⟩
      (le_min (h.sound.target_nonneg htarget) (hwaits.duration ▸ htimed.duration_nonneg))
      (le_of_le_of_eq (min_le_right _ _) hwaits.duration) hgone
    refine ⟨?_, ?_, fun hgoes => ?_, fun hstays => ⟨_, hforward hstays⟩,
      fun hlt => hplaying (hposition ▸ hlt)⟩
    · rw [hposition, hwaits.duration]
    · rw [hshown, hposition]
    · rw [hback hgoes, hposition]

theorem Player.foldl_control (outputs : List (ℚ × List Char)) (controls : List Control)
    (p : Player) : (controls.map Input.control).foldl (Player.step outputs) p =
      { p with state := controls.foldl Control.change p.state } := by
  induction controls generalizing p with
  | nil => rfl
  | cons control rest ih =>
    rw [map_cons, foldl_cons, ih]
    rfl

/-- Controls that come after a restart was asked for leave it asked for. -/
theorem Control.foldl_restart {controls : List Control} (hshutdown : Control.shutdown ∉ controls)
    {state : PlayState} (hrestart : state.restart = true) (hstop : state.stop = false) :
    (controls.foldl Control.change state).restart = true ∧
      (controls.foldl Control.change state).stop = false ∧
      (Control.pause ∉ controls → state.playing = true →
        (controls.foldl Control.change state).playing = true) := by
  induction controls generalizing state with
  | nil => exact ⟨hrestart, hstop, fun _ hplaying => hplaying⟩
  | cons control rest ih =>
    rw [mem_cons, not_or] at hshutdown
    have hnext : (control.change state).restart = true ∧ (control.change state).stop = false ∧
        (Control.pause ≠ control → state.playing = true →
          (control.change state).playing = true) := by
      cases control with
      | shutdown => exact absurd rfl hshutdown.1
      | play => exact ⟨by simp [Control.change, hrestart], hstop, fun _ _ => rfl⟩
      | restart => exact ⟨rfl, hstop, fun _ _ => rfl⟩
      | pause => exact ⟨hrestart, hstop, fun hnot => absurd rfl hnot⟩
      | seek | setSpeed => exact ⟨hrestart, hstop, fun _ hplaying => hplaying⟩
    obtain ⟨hasked, hgoes, hplay⟩ := hnext
    obtain ⟨hasked', hgoes', hplay'⟩ := ih hshutdown.2 hasked hgoes
    refine ⟨hasked', hgoes', fun hpause hplaying => ?_⟩
    rw [mem_cons, not_or] at hpause
    exact hplay' hpause.2 (hplay hpause.1 hplaying)

theorem startsAgain_of_kept (h : p.Kept (timeline cast)) (hlater : 0 < durationOf (timeline cast)) :
    StartsAgain cast p := by
  rintro - hthread hstop controls hshutdown elapsed q rfl hgone
  have hlength : cast.outputs.length = (timeline cast).length := by
    rw [← timeline_texts, length_map]
  have hwaits := h.waiting _ (hlength ▸ hthread)
  have hend := hwaits.atEnd rfl
  have hrestart : (Control.play.change p.state).restart = true := by
    simp [Control.change, hwaits.duration, hend, hlater]
  obtain ⟨hasked, -, hplaying⟩ := Control.foldl_restart hshutdown hrestart hstop
  have hkept := Player.run_kept (timeline_timed cast)
    ((Control.play :: controls).map Input.control) h
  rw [foldl_append, foldl_cons, foldl_nil] at hgone ⊢
  have hfold := Player.foldl_control (timeline cast) (Control.play :: controls) p
  generalize ((Control.play :: controls).map Input.control).foldl
    (Player.step (timeline cast)) p = p' at hkept hgone hfold ⊢
  have hstate : p'.state = controls.foldl Control.change (Control.play.change p.state) := by
    rw [hfold]
    rfl
  have hwaiting : p'.thread = .waiting cast.outputs.length := by rw [hfold, hthread]
  have hsent : p'.sent = p.sent := by rw [hfold]
  rw [← hstate] at hasked hplaying
  have htarget : p'.state.target = some 0 := by rw [PlayState.target, if_pos hasked]
  have hjumped := jumpsTruly_of_kept hkept _ 0 elapsed hwaiting htarget hgone
  have hposition := hjumped.position
  rw [min_eq_left hlater.le] at hposition
  refine ⟨?_, hposition, fun hpause => ?_⟩
  · rw [hjumped.back (Or.inl hasked), hposition, hsent]
  · rw [hjumped.playing (by rw [hposition]; exact hlater)]
    exact hplaying hpause rfl

/-- A recording whose outputs are all at time zero, played to its end. -/
def playedOut : List Input := [.loaded, .control .play, .wake 0]

theorem Player.playedOut_waits (htimed : Timed outputs) (hzero : durationOf outputs = 0) :
    (playedOut.foldl (Player.step outputs) (.new none)).thread = .waiting outputs.length ∧
      (playedOut.foldl (Player.step outputs) (.new none)).state = { PlayState.new with } := by
  let p : Player := ⟨{ PlayState.new with playing := true }, .waiting 0, [], none⟩
  have heq : playedOut.foldl (Player.step outputs) (.new none) = p.sendDue false outputs 0 := by
    simp [p, playedOut, Player.step, Player.new, PlayState.new, Control.change, hzero,
      Player.turn, PlayState.target]
  obtain ⟨n, hsent⟩ := Player.sendDue_sent false outputs 0 p
  rw [heq]
  rcases hsent.ended with ⟨-, hgone, -⟩ | ⟨hthread, hn, hend⟩ | ⟨-, -, output, houtput, hlater⟩
  · rw [hsent.takes rfl] at hgone
    cases hgone
  · exact ⟨by rw [hthread, hn, Nat.zero_add], hend⟩
  · have hle := htimed.le_duration output (mem_of_getElem? houtput)
    rw [hzero] at hle
    exact absurd (hlater rfl) (not_lt.mpr hle)

theorem not_startsAgain {cast : Cast} (houtputs : cast.outputs ≠ [])
    (hzero : durationOf (timeline cast) = 0) :
    ¬ StartsAgain cast (.after cast none playedOut) := by
  intro hagain
  obtain ⟨hthread, hstate⟩ := Player.playedOut_waits (timeline_timed cast) hzero
  have hlength : cast.outputs.length = (timeline cast).length := by
    rw [← timeline_texts, length_map]
  change (Player.after cast none playedOut).thread = _ at hthread
  change (Player.after cast none playedOut).state = _ at hstate
  generalize Player.after cast none playedOut = p at hagain hthread hstate
  obtain ⟨state, thread, sent, takes⟩ := p
  subst hthread hstate
  have hsame := hagain houtputs (by rw [hlength]) rfl [] not_mem_nil 0 _ rfl
  simp [Player.step, PlayState.new, Control.change, Player.turn, PlayState.target,
    Player.sendDue] at hsame

/-- The promises are kept in every run exactly when the recording has no output, or one after
time zero. -/
theorem player_shows_truly_iff (cast : Cast) :
    ShowsTruly cast ↔ cast.outputs = [] ∨
      ∃ event ∈ cast.events, event.text?.isSome ∧ 0 < event.time := by
  have htimed := timeline_timed cast
  have hlater := exists_later_timelineFrom cast.inOrder (le_refl 0) (le_refl 0) Iff.rfl
  rw [← hlater]
  change _ ↔ _ ∨ ∃ output ∈ timeline cast, 0 < output.1
  rw [← htimed.duration_pos]
  constructor
  · intro htruly
    by_contra hnot
    rw [not_or, not_lt] at hnot
    exact not_startsAgain hnot.1 (le_antisymm hnot.2 htimed.duration_nonneg)
      (htruly none playedOut).2.2
  · intro hcase takes inputs
    have hkept := Player.after_kept cast takes inputs
    refine ⟨showsPrefix_of_kept hkept, jumpsTruly_of_kept hkept, ?_⟩
    rcases hcase with hnone | hpos
    · exact fun hsome => absurd hnone hsome
    · exact startsAgain_of_kept hkept hpos

namespace PlayerWitness

/-- One output, at time zero. -/
def flash : Cast where
  header := ⟨80, 24, none, none⟩
  events := [.output 0 "a".toList]
  inOrder := ⟨le_refl 0, trivial⟩

/-- Played to its end and played again, the player sends nothing more. -/
theorem flash_not_shown_again : ¬ ShowsTruly flash := fun htruly =>
  @not_startsAgain flash (by decide) (by decide +kernel) (htruly none playedOut).2.2

end PlayerWitness

end Opensesh.Recording
