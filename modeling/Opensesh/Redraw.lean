/-
Frames of a terminal: the engine changes the screen and marks it, a snapshot clears the mark
and fills a frame.  Two flags, a lock and a synchronized update that holds frames back, one
atomic step after the other.
-/
import Opensesh.Machine

namespace Opensesh.Redraw

open Option

/-- Where the engine is between two of its atomic steps. -/
inductive Engine where
  | idle
  /-- A chunk was parsed and the lock dropped; `synchronized` is still to be stored. -/
  | parsed
  /-- In `mark_dirty`, before its swap. -/
  | marking
  /-- The swap found the flag clear; the notice is still to be sent. -/
  | sending
deriving DecidableEq

/-- Where the GUI is between two of its atomic steps. -/
inductive Gui where
  | idle
  /-- `dirty` was cleared; `synchronized` is still to be loaded. -/
  | begun
  /-- The fill waits for the lock. -/
  | filling
deriving DecidableEq

structure State where
  /-- How often the terminal changed, under the lock. -/
  changes : Nat
  /-- The changes the last filled frame contains. -/
  shown : Nat
  dirty : Bool
  synchronized : Bool
  /-- The side parser is inside a synchronized update. -/
  updating : Bool
  /-- Whether the engine holds the redraw back, with a deadline. -/
  syncHold : Bool
  engine : Engine
  gui : Gui
  /-- Changes made through a handle whose `Redraw` is still to be sent. -/
  owed : Nat
  /-- `Redraw` commands that wait for the engine. -/
  redraws : Nat
  /-- Snapshots that began. -/
  begun : Nat
  /-- `Dirty` notices that were sent, and those sent after the last snapshot began. -/
  sent : Nat
  sentSince : Nat

def State.initial : State where
  changes := 0
  shown := 0
  dirty := false
  synchronized := false
  updating := false
  syncHold := false
  engine := .idle
  gui := .idle
  owed := 0
  redraws := 0
  begun := 0
  sent := 0
  sentSince := 0

inductive Event where
  /-- The engine parses a chunk under the lock: what it changes, and whether it ends inside
  a synchronized update. -/
  | parse (changes : Nat) (updating : Bool)
  /-- The engine resizes the terminal or moves its focus, under the lock. -/
  | adjust (changes : Nat)
  /-- The deadline of a synchronized update. -/
  | timeout
  /-- The engine handles a `Redraw`. -/
  | command
  /-- The engine's next atomic step. -/
  | engine
  /-- A handle scrolls, selects or recolors, under the lock. -/
  | touch (changes : Nat)
  /-- The handle sends its `Redraw`. -/
  | ask
  /-- A snapshot begins: `snapshot`, or `snapshot_full`. -/
  | snapshot (full : Bool)
  /-- The GUI's next atomic step. -/
  | gui

namespace State

/-- The engine inside `parse_chunk` and `mark_dirty`. -/
def engineStep (s : State) : Option State :=
  match s.engine with
  | .idle => none
  | .parsed =>
    some (match s.updating, s.syncHold with
      | true, false => { s with syncHold := true, synchronized := true, engine := .idle }
      | true, true => { s with engine := .idle }
      | false, _ => { s with syncHold := false, synchronized := false, engine := .marking })
  | .marking =>
    some { s with dirty := true, engine := if s.dirty then .idle else .sending }
  | .sending =>
    some { s with sent := s.sent + 1, sentSince := s.sentSince + 1, engine := .idle }

/-- The GUI inside `snapshot`. -/
def guiStep (s : State) : Option State :=
  match s.gui with
  | .idle => none
  -- Nothing new until the update ends: the renderer keeps what it has.
  | .begun => some { s with gui := if s.synchronized then .idle else .filling }
  | .filling => some { s with shown := s.changes, gui := .idle }

def step (s : State) : Event → Option State
  | .parse changes updating =>
    if s.engine = .idle then
      some { s with changes := s.changes + changes, updating, engine := .parsed }
    else none
  | .adjust changes =>
    if s.engine = .idle then
      some { s with changes := s.changes + changes, engine := .marking }
    else none
  | .timeout =>
    if s.engine = .idle ∧ s.syncHold then
      some { s with
        syncHold := false, updating := false, synchronized := false, engine := .marking }
    else none
  | .command =>
    if s.engine = .idle ∧ 0 < s.redraws then
      some { s with redraws := s.redraws - 1, engine := .marking }
    else none
  | .engine => s.engineStep
  | .touch changes => some { s with changes := s.changes + changes, owed := s.owed + 1 }
  | .ask =>
    if 0 < s.owed then some { s with owed := s.owed - 1, redraws := s.redraws + 1 } else none
  | .snapshot full =>
    if s.gui = .idle then
      some { s with
        dirty := false, begun := s.begun + 1, sentSince := 0
        gui := if full then .filling else .begun }
    else none
  | .gui => s.guiStep

/-- Nothing is left for the engine to do, and no synchronized update is open. -/
structure Quiet (s : State) : Prop where
  engine : s.engine = .idle
  asked : s.owed = 0 ∧ s.redraws = 0
  closed : s.updating = false

/-- The engine, a handle or the GUI is still to see the last changes. -/
def Pending (s : State) : Prop :=
  s.updating = true ∨ s.engine = .parsed ∨ s.engine = .marking ∨ 0 < s.owed ∨
    0 < s.redraws ∨ s.gui ≠ .idle

structure Kept (s : State) : Prop where
  /-- Frames are held back only for an update, or until the engine goes on. -/
  held : s.synchronized = true → s.updating = true ∨ s.engine = .parsed
  /-- A marked screen was told of after the last snapshot began. -/
  told : s.dirty = true → 0 < s.sentSince ∨ s.engine = .sending
  /-- A change that is not shown is marked, or on its way. -/
  marked : s.shown ≠ s.changes → s.dirty = true ∨ s.Pending
  /-- Every notice but the first was made room for by a snapshot. -/
  counted : s.sent + (if s.engine = .sending then 1 else 0) + (if s.dirty then 0 else 1) ≤
    s.begun + 1

theorem initial_kept : Kept initial where
  held h := nomatch h
  told h := nomatch h
  marked h := absurd rfl h
  counted := Nat.le_refl 1

variable {s t : State}

theorem kept_parse (hkept : Kept s) (hidle : s.engine = .idle) (changes : Nat) (updating : Bool) :
    Kept { s with changes := s.changes + changes, updating, engine := .parsed } where
  held _ := .inr rfl
  told hdirty := by
    have htold := hkept.told hdirty
    rw [hidle] at htold
    exact .inl (htold.resolve_right Engine.noConfusion)
  marked _ := .inr (.inr (.inl rfl))
  counted := by simpa [hidle] using hkept.counted

/-- Before its swap the engine owes the mark, so the screen may have changed in any way. -/
theorem kept_marking (hkept : Kept s) (hidle : s.engine = .idle ∨ s.engine = .parsed)
    (ht : t.engine = .marking) (hheld : t.synchronized = true → t.updating = true)
    (hdirty : t.dirty = s.dirty) (hsince : t.sentSince = s.sentSince) (hsent : t.sent = s.sent)
    (hbegun : t.begun = s.begun) : Kept t where
  held h := .inl (hheld h)
  told h := by
    rw [hdirty] at h
    rw [hsince]
    rcases hkept.told h with htold | hsending
    · exact .inl htold
    · rcases hidle with hidle | hidle <;> simp [hidle] at hsending
  marked _ := .inr (.inr (.inr (.inl ht)))
  counted := by
    have hcounted := hkept.counted
    rw [ht, hdirty, hsent, hbegun]
    rcases hidle with hidle | hidle <;> simpa [hidle] using hcounted

theorem updating_of_idle (hkept : Kept s) (hidle : s.engine = .idle)
    (h : s.synchronized = true) : s.updating = true := by
  have hheld := hkept.held h
  rw [hidle] at hheld
  exact hheld.resolve_right Engine.noConfusion

theorem kept_engine (hkept : Kept s) (hstep : s.engineStep = some t) : Kept t := by
  unfold engineStep at hstep
  split at hstep
  case h_1 => cases hstep
  case h_2 hparsed =>
    obtain rfl := some.inj hstep
    have hcounted := hkept.counted
    have htold : s.dirty = true → 0 < s.sentSince := fun hdirty => by
      simpa [hparsed] using hkept.told hdirty
    rw [hparsed] at hcounted
    split
    case h_1 hupdating _ =>
      exact ⟨fun _ => .inl hupdating, fun hdirty => .inl (htold hdirty),
        fun _ => .inr (.inl hupdating), by simpa using hcounted⟩
    case h_2 hupdating _ =>
      exact ⟨fun _ => .inl hupdating, fun hdirty => .inl (htold hdirty),
        fun _ => .inr (.inl hupdating), by simpa using hcounted⟩
    case h_3 =>
      exact kept_marking hkept (.inr hparsed) rfl (fun h => nomatch h) rfl rfl rfl rfl
  case h_3 hmarking =>
    obtain rfl := some.inj hstep
    have hcounted := hkept.counted
    have hheld := hkept.held
    rw [hmarking] at hcounted hheld
    cases hdirty : s.dirty with
    | true =>
      have htold : 0 < s.sentSince := by simpa [hmarking] using hkept.told hdirty
      exact ⟨fun h => .inl ((hheld h).resolve_right Engine.noConfusion), fun _ => .inl htold,
        fun _ => .inl rfl, by simpa [hdirty] using hcounted⟩
    | false =>
      exact ⟨fun h => .inl ((hheld h).resolve_right Engine.noConfusion), fun _ => .inr rfl,
        fun _ => .inl rfl, by simpa [hdirty] using hcounted⟩
  case h_4 hsending =>
    obtain rfl := some.inj hstep
    have hcounted := hkept.counted
    have hheld := hkept.held
    have hmarked := hkept.marked
    rw [hsending] at hcounted hheld
    refine ⟨fun h => .inl ((hheld h).resolve_right Engine.noConfusion),
      fun _ => .inl (Nat.succ_pos _), fun hstale => ?_, by simpa using hcounted⟩
    simpa [Pending, hsending] using hmarked hstale

theorem kept_gui (hkept : Kept s) (hstep : s.guiStep = some t) : Kept t := by
  unfold guiStep at hstep
  split at hstep
  case h_1 => cases hstep
  case h_2 =>
    obtain rfl := some.inj hstep
    refine ⟨hkept.held, hkept.told, fun hstale => ?_, hkept.counted⟩
    cases hsync : s.synchronized with
    | true =>
      -- The snapshot declines: the engine still has to end the update and mark.
      rcases hkept.held hsync with hupdating | hparsed
      · exact .inr (.inl hupdating)
      · exact .inr (.inr (.inl hparsed))
    | false => exact .inr (.inr (.inr (.inr (.inr (.inr Gui.noConfusion)))))
  case h_3 =>
    obtain rfl := some.inj hstep
    exact ⟨hkept.held, hkept.told, fun hstale => absurd rfl hstale, hkept.counted⟩

theorem kept_snapshot (hkept : Kept s) (full : Bool) :
    Kept { s with
      dirty := false, begun := s.begun + 1, sentSince := 0
      gui := if full then .filling else .begun } where
  held := hkept.held
  told h := nomatch h
  marked _ := by
    refine .inr (.inr (.inr (.inr (.inr (.inr ?_)))))
    cases full <;> exact Gui.noConfusion
  counted := by
    have hcounted := hkept.counted
    simp only [Bool.false_eq_true, if_false]
    omega

theorem kept_step (hkept : Kept s) {event : Event} (hstep : s.step event = some t) : Kept t := by
  cases event with
  | parse changes updating =>
    obtain ⟨hidle, rfl⟩ := by simpa [step] using hstep
    exact kept_parse hkept hidle changes updating
  | adjust changes =>
    obtain ⟨hidle, rfl⟩ := by simpa [step] using hstep
    exact kept_marking hkept (.inl hidle) rfl (@updating_of_idle s hkept hidle) rfl rfl rfl rfl
  | timeout =>
    obtain ⟨⟨hidle, -⟩, rfl⟩ := by simpa [step] using hstep
    exact kept_marking hkept (.inl hidle) rfl (fun h => nomatch h) rfl rfl rfl rfl
  | command =>
    obtain ⟨⟨hidle, -⟩, rfl⟩ := by simpa [step] using hstep
    exact kept_marking hkept (.inl hidle) rfl (@updating_of_idle s hkept hidle) rfl rfl rfl rfl
  | engine => exact kept_engine hkept hstep
  | touch changes =>
    obtain rfl := some.inj hstep
    exact ⟨hkept.held, hkept.told,
      fun _ => .inr (.inr (.inr (.inr (.inl (Nat.succ_pos _))))), hkept.counted⟩
  | ask =>
    obtain ⟨-, rfl⟩ := by simpa [step] using hstep
    exact ⟨hkept.held, hkept.told,
      fun _ => .inr (.inr (.inr (.inr (.inr (.inl (Nat.succ_pos _)))))), hkept.counted⟩
  | snapshot full =>
    obtain ⟨-, rfl⟩ := by simpa [step] using hstep
    exact kept_snapshot hkept full
  | gui => exact kept_gui hkept hstep

theorem kept_run {events : List Event} (hkept : Kept s) (hrun : runFrom step s events = some t) :
    Kept t := by
  induction events generalizing s with
  | nil =>
    obtain rfl := some.inj hrun
    exact hkept
  | cons event rest ih =>
    obtain ⟨middle, hstep, hrest⟩ := bind_eq_some_iff.mp hrun
    exact ih (kept_step hkept hstep) hrest

end State

/-- Once the engine has nothing to do and no update is open, the last frame contains every
change, or a notice was sent after the last snapshot began, or that snapshot goes on and will
not decline.  The notices are never more than one ahead of the snapshots. -/
theorem changes_shown {events : List Event} {s : State}
    (hrun : runFrom State.step .initial events = some s) :
    (s.Quiet → s.shown = s.changes ∨ 0 < s.sentSince ∨
      (s.gui ≠ .idle ∧ s.synchronized = false)) ∧ s.sent ≤ s.begun + 1 := by
  have hkept := State.kept_run State.initial_kept hrun
  refine ⟨fun hquiet => ?_, by have hcounted := hkept.counted; omega⟩
  have hsync : s.synchronized = false := by
    rw [Bool.eq_false_iff]
    intro h
    exact absurd (State.updating_of_idle hkept hquiet.engine h) (by simp [hquiet.closed])
  by_cases hshown : s.shown = s.changes
  · exact .inl hshown
  rcases hkept.marked hshown with hdirty | hpending
  · have htold : 0 < s.sentSince := by simpa [hquiet.engine] using hkept.told hdirty
    exact .inr (.inl htold)
  · have hgui : s.gui ≠ .idle := by
      simpa [State.Pending, hquiet.engine, hquiet.asked, hquiet.closed] using hpending
    exact .inr (.inr ⟨hgui, hsync⟩)

namespace RedrawWitness

/-- Output is parsed, marked and told of. -/
def output : List Event := [.parse 1 false, .engine, .engine, .engine]

/-- A snapshot during a synchronized update, and one after its deadline. -/
def heldBack : List Event :=
  [.parse 1 true, .engine, .snapshot false, .gui, .timeout, .engine, .engine, .snapshot false,
    .gui, .gui]

def heldBackEnd : State := { State.initial with changes := 1, shown := 1, begun := 2, sent := 1 }

theorem heldBack_shown :
    (heldBackEnd.Quiet → heldBackEnd.shown = heldBackEnd.changes ∨ 0 < heldBackEnd.sentSince ∨
      (heldBackEnd.gui ≠ .idle ∧ heldBackEnd.synchronized = false)) ∧
      heldBackEnd.sent ≤ heldBackEnd.begun + 1 :=
  changes_shown (show runFrom State.step .initial heldBack = some heldBackEnd from rfl)

/-- A snapshot that began has cleared the mark and not filled its frame yet; and a notice
decided before it may be sent after it began, before the next one. -/
theorem between_steps :
    (∃ s, runFrom State.step .initial (output ++ [.snapshot false]) = some s ∧ s.Quiet ∧
      s.shown ≠ s.changes ∧ s.sentSince = 0) ∧
    ∃ s, runFrom State.step .initial
      ([.parse 1 false, .engine, .engine, .snapshot false, .engine] ++ output : List Event) =
        some s ∧ s.sentSince = 2 :=
  ⟨⟨_, rfl, ⟨rfl, ⟨rfl, rfl⟩, rfl⟩, by decide, rfl⟩, _, rfl, rfl⟩

end RedrawWitness

end Opensesh.Redraw
