/-
The socket of the running instance: processes that create it, probe whoever has its name,
replace it and remove it, in any order. The process that serves is the one that is reached as
long as nobody replaces a live one.
-/
import Opensesh.Machine
import Mathlib.Data.List.Infix

namespace Opensesh.Ipc

open Option

universe u

/-- What is at the path: nothing, a file nobody listens on any more, or a process's socket. -/
inductive Socket (ι : Type u) where
  | missing
  | stale
  | bound (owner : ι)

/-- How far a process is with `serve`. -/
inductive Phase where
  | absent
  | probing
  | replacing
  | serving
  | failed
  | ended
  | killed
  deriving DecidableEq

structure World (ι : Type u) where
  socket : Socket ι
  phase : ι → Phase

/-- A step of one process: creating without overwriting (which may fail for another reason), the
probe and whether it was answered in time, creating with overwriting, dropping the server at a
normal end, and being killed. -/
inductive Event (ι : Type u) where
  | create (process : ι)
  | createFails (process : ι)
  | probe (process : ι) (answered : Bool)
  | replace (process : ι)
  | replaceFails (process : ι)
  | drop (process : ι)
  | kill (process : ι)

section Model

variable {ι : Type u} [DecidableEq ι]

def World.enter (world : World ι) (process : ι) (phase : Phase) : World ι :=
  { world with phase := fun other => if other = process then phase else world.phase other }

/-- Creates the socket when the name is free; else someone owns the name. -/
def World.create (world : World ι) (process : ι) : World ι :=
  match world.socket with
  | .missing => { world.enter process .serving with socket := .bound process }
  | _ => world.enter process .probing

/-- The process a new client's connection reaches. -/
def World.reached (world : World ι) : Option ι :=
  match world.socket with
  | .bound owner => if world.phase owner = .serving then some owner else none
  | _ => none

/-- The probe: only a live instance can answer, in time or not. -/
def World.probe (world : World ι) (process : ι) (answered : Bool) : Option (World ι) :=
  if answered then
    if world.reached.isSome then some (world.enter process .failed) else none
  else some (world.enter process .replacing)

/-- A process's next step, when it is there. -/
def World.step (world : World ι) : Event ι → Option (World ι)
  | .create process =>
    if world.phase process = .absent then some (world.create process) else none
  | .createFails process =>
    if world.phase process = .absent then some (world.enter process .failed) else none
  | .probe process answered =>
    if world.phase process = .probing then world.probe process answered else none
  | .replace process =>
    if world.phase process = .replacing then
      some { world.enter process .serving with socket := .bound process }
    else none
  | .replaceFails process =>
    if world.phase process = .replacing then some (world.enter process .failed) else none
  | .drop process =>
    if world.phase process = .serving then
      some { world.enter process .ended with socket := .missing }
    else none
  | .kill process => some (world.enter process .killed)

/-- Nobody has started; a file may be left from an instance that was killed. -/
def World.start (left : Bool) : World ι :=
  { socket := if left then .stale else .missing, phase := fun _ => .absent }

/-- A process that serves is the one that is reached. -/
def World.Owned (world : World ι) : Prop :=
  ∀ process, world.phase process = .serving → world.reached = some process

/-- Creating with overwriting meets no live owner. -/
def World.Careful (world : World ι) : Event ι → Prop
  | .replace process => world.phase process = .replacing → world.reached = none
  | _ => True

end Model

section Step

variable {ι : Type u} [DecidableEq ι] {world next : World ι} {process other : ι} {phase : Phase}

theorem enter_phase : (world.enter process phase).phase other =
    if other = process then phase else world.phase other := rfl

omit [DecidableEq ι] in
theorem reached_eq : world.reached = some process ↔
    world.socket = .bound process ∧ world.phase process = .serving := by
  rw [World.reached]
  cases hsocket : world.socket with
  | missing => exact ⟨(nomatch ·), fun h => (nomatch h.1)⟩
  | stale => exact ⟨(nomatch ·), fun h => (nomatch h.1)⟩
  | bound owner =>
    dsimp only
    split
    · rename_i hserving
      constructor
      · intro h
        obtain rfl := some.inj h
        exact ⟨rfl, hserving⟩
      · rintro ⟨h, -⟩
        exact congrArg some (Socket.bound.inj h)
    · rename_i hidle
      refine ⟨(nomatch ·), fun h => ?_⟩
      obtain rfl := Socket.bound.inj h.1
      exact absurd h.2 hidle

omit [DecidableEq ι] in
theorem World.Owned.socket (h : world.Owned) (hserving : world.phase process = .serving) :
    world.socket = .bound process := (reached_eq.1 (h process hserving)).1

theorem World.Owned.enter (h : world.Owned) (hphase : phase ≠ .serving) :
    (world.enter process phase).Owned := by
  intro other hserving
  rw [enter_phase] at hserving
  split at hserving
  · exact absurd hserving hphase
  · rename_i hne
    rw [reached_eq, enter_phase, if_neg hne]
    exact ⟨h.socket hserving, hserving⟩

/-- A new owner, when nobody serves. -/
theorem owned_bind (hnobody : ∀ other, world.phase other ≠ .serving) (process : ι) :
    World.Owned { world.enter process .serving with socket := .bound process } := by
  intro other hserving
  change (world.enter process .serving).phase other = .serving at hserving
  rw [enter_phase] at hserving
  split at hserving
  · rename_i heq
    subst heq
    rw [reached_eq]
    exact ⟨rfl, if_pos rfl⟩
  · exact absurd hserving (hnobody other)

omit [DecidableEq ι] in
theorem World.Owned.nobody (h : world.Owned) (hnone : world.reached = none) (other : ι) :
    world.phase other ≠ .serving := by
  intro hserving
  have hreached := h other hserving
  rw [hnone] at hreached
  cases hreached

theorem step_owned (h : world.Owned) {event : Event ι} (hcareful : world.Careful event)
    (hstep : world.step event = some next) : next.Owned := by
  cases event with
  | create process =>
    rw [World.step] at hstep
    split at hstep
    · rename_i habsent
      obtain rfl := some.inj hstep
      rw [World.create]
      cases hsocket : world.socket with
      | missing =>
        refine owned_bind (fun other => h.nobody ?_ other) process
        rw [World.reached, hsocket]
      | stale => exact h.enter (by decide)
      | bound owner => exact h.enter (by decide)
    · cases hstep
  | createFails process =>
    rw [World.step] at hstep
    split at hstep
    · rename_i habsent
      obtain rfl := some.inj hstep
      exact h.enter (by decide)
    · cases hstep
  | probe process answered =>
    rw [World.step] at hstep
    split at hstep
    · rename_i hprobing
      rw [World.probe] at hstep
      split at hstep
      · split at hstep
        · obtain rfl := some.inj hstep
          exact h.enter (by decide)
        · cases hstep
      · obtain rfl := some.inj hstep
        exact h.enter (by decide)
    · cases hstep
  | replace process =>
    rw [World.step] at hstep
    split at hstep
    · rename_i hreplacing
      obtain rfl := some.inj hstep
      exact owned_bind (h.nobody (hcareful hreplacing)) process
    · cases hstep
  | replaceFails process =>
    rw [World.step] at hstep
    split at hstep
    · rename_i hreplacing
      obtain rfl := some.inj hstep
      exact h.enter (by decide)
    · cases hstep
  | drop process =>
    rw [World.step] at hstep
    split at hstep
    · rename_i hserving
      obtain rfl := some.inj hstep
      -- only the process itself served, since it had the name
      intro other hother
      change (world.enter process .ended).phase other = .serving at hother
      rw [enter_phase] at hother
      split at hother
      · cases hother
      · rename_i hne
        have hbound := (h.socket hother).symm.trans (h.socket hserving)
        exact absurd (Socket.bound.inj hbound) hne
    · cases hstep
  | kill process =>
    obtain rfl := some.inj hstep
    exact h.enter (by decide)

/-- A replacement of a live owner leaves one that is not reached. -/
theorem replace_disowns (hreplacing : world.phase process = .replacing)
    (hlive : world.reached ≠ none) :
    ∃ next, world.step (.replace process) = some next ∧ ¬next.Owned := by
  refine ⟨_, if_pos hreplacing, fun h => ?_⟩
  obtain ⟨owner, howner⟩ := ne_none_iff_exists'.1 hlive
  have hserving := (reached_eq.1 howner).2
  have hne : owner ≠ process := by
    rintro rfl
    rw [hreplacing] at hserving
    cases hserving
  have hreached := h owner (by
    change (world.enter process .serving).phase owner = .serving
    rw [enter_phase, if_neg hne]
    exact hserving)
  exact hne (Socket.bound.inj (reached_eq.1 hreached).1).symm

end Step

section Run

variable {ι : Type u} [DecidableEq ι]

omit [DecidableEq ι] in
theorem start_owned (left : Bool) : (World.start left : World ι).Owned :=
  fun _ hserving => (nomatch hserving)

/-- In every state of a run each process that serves is the one that is reached, exactly when
no step of the run replaces a live owner. -/
theorem owned_iff_careful (left : Bool) (events : List (Event ι)) :
    (∀ before world, before <+: events →
      runFrom World.step (World.start left) before = some world → world.Owned) ↔
    ∀ before event world, before ++ [event] <+: events →
      runFrom World.step (World.start left) before = some world → world.Careful event := by
  constructor
  · intro howned before event world hprefix hrun
    cases event with
    | replace process =>
      intro hreplacing
      by_contra hlive
      obtain ⟨next, hnext, hbad⟩ := replace_disowns hreplacing hlive
      refine hbad (howned (before ++ [.replace process]) next hprefix ?_)
      rw [runFrom_append, hrun]
      change (runFrom World.step world [.replace process]) = some next
      rw [runFrom, hnext]
      rfl
    | _ => trivial
  · intro hcareful before
    induction before using List.reverseRecOn with
    | nil =>
      intro world _ hrun
      obtain rfl := Option.some.inj hrun
      exact start_owned left
    | append_singleton before event ih =>
      intro world hprefix hrun
      rw [runFrom_append] at hrun
      obtain ⟨middle, hmiddle, hlast⟩ := Option.bind_eq_some_iff.1 hrun
      rw [runFrom] at hlast
      obtain ⟨next, hnext, hend⟩ := Option.bind_eq_some_iff.1 hlast
      obtain rfl := Option.some.inj hend
      have hmiddleOwned := ih middle ((List.prefix_append before [event]).trans hprefix) hmiddle
      exact step_owned hmiddleOwned (hcareful before event middle hprefix hmiddle) hnext

end Run

namespace EndpointWitness

/-- The claimed property fails in a run of two processes. -/
theorem not_owned : ¬∀ before (world : World Bool), before <+:
    [.create false, .create true, .probe true false, .replace true] →
      runFrom World.step (World.start false) before = some world → world.Owned := by
  intro howned
  have h := howned _ _ (List.prefix_refl _) rfl
  have hreached := h false rfl
  cases hreached

end EndpointWitness

end Opensesh.Ipc
