/-
Recordings of a session: a header and what happened, in time order.  Times are in seconds,
over the rationals.
-/
import Mathlib.Algebra.Order.Ring.Rat
import Mathlib.Tactic.Linarith

namespace Opensesh.Recording

structure Header where
  width : UInt16
  height : UInt16
  timestamp : Option Int
  title : Option (List Char)

/-- One event of a recording. -/
inductive Event where
  | output (time : ℚ) (text : List Char)
  | resize (time : ℚ) (columns lines : UInt16)

/-- When it happened, from the start. -/
def Event.time : Event → ℚ
  | .output time _ => time
  | .resize time _ _ => time

def Event.withTime (time : ℚ) : Event → Event
  | .output _ text => .output time text
  | .resize _ columns lines => .resize time columns lines

/-- What the program printed, if it is an output. -/
def Event.text? : Event → Option (List Char)
  | .output _ text => some text
  | .resize _ _ _ => none

@[simp] theorem Event.time_withTime (time : ℚ) (event : Event) :
    (event.withTime time).time = time := by
  cases event <;> rfl

@[simp] theorem Event.text?_withTime (time : ℚ) (event : Event) :
    (event.withTime time).text? = event.text? := by
  cases event <;> rfl

/-- Events from a time on whose times never go back. -/
def InOrder : ℚ → List Event → Prop
  | _, [] => True
  | last, event :: rest => last ≤ event.time ∧ InOrder event.time rest

instance InOrder.decidable : (last : ℚ) → (events : List Event) → Decidable (InOrder last events)
  | _, [] => isTrue trivial
  | last, event :: rest =>
    haveI := InOrder.decidable event.time rest
    inferInstanceAs (Decidable (last ≤ event.time ∧ InOrder event.time rest))

/-- A recording. -/
structure Cast where
  header : Header
  events : List Event
  inOrder : InOrder 0 events

/-- What the program printed, output by output. -/
def Cast.outputs (cast : Cast) : List (List Char) := cast.events.filterMap Event.text?

/-- Times that go back are taken as the latest one before. -/
def settle : ℚ → List Event → List Event
  | _, [] => []
  | last, event :: rest =>
    event.withTime (max event.time last) :: settle (max event.time last) rest

theorem settle_inOrder (last : ℚ) (events : List Event) : InOrder last (settle last events) := by
  induction events generalizing last with
  | nil => trivial
  | cons event rest ih =>
    rw [settle, InOrder, Event.time_withTime]
    exact ⟨le_max_right _ _, ih _⟩

end Opensesh.Recording
