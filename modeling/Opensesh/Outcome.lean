/-
Steps that may fail: what it takes for one of them after another to succeed, and steps on
a state that may have changed it when they fail.
-/
import Mathlib.Tactic.Basic

namespace Opensesh

universe u

theorem bind_eq_ok {α β ε : Type} {x : Except ε α} {f : α → Except ε β} {b : β} :
    x >>= f = .ok b ↔ ∃ a, x = .ok a ∧ f a = .ok b := by
  cases x with
  | error error => exact ⟨(nomatch ·), fun ⟨_, heq, _⟩ => (nomatch heq)⟩
  | ok a =>
    refine ⟨fun h => ⟨a, rfl, h⟩, fun ⟨_, heq, h⟩ => ?_⟩
    obtain rfl := Except.ok.inj heq
    exact h

/-- A step that gives a result or an error, and the state it leaves in either case. -/
def Attempt (σ ε α : Type) : Type := σ → Except ε α × σ

namespace Attempt

variable {σ ε α β : Type}

def done (a : α) : Attempt σ ε α := fun s => (.ok a, s)

def fail (error : ε) : Attempt σ ε α := fun s => (.error error, s)

/-- A result that leaves the state alone. -/
def lift (result : Except ε α) : Attempt σ ε α := fun s => (result, s)

def state : Attempt σ ε σ := fun s => (.ok s, s)

def modify (f : σ → σ) : Attempt σ ε Unit := fun s => (.ok (), f s)

/-- The second step goes on from what the first one left; an error ends both. -/
def andThen (x : Attempt σ ε α) (f : α → Attempt σ ε β) : Attempt σ ε β := fun s =>
  match x s with
  | (.ok a, t) => f a t
  | (.error error, t) => (.error error, t)

instance : Monad (Attempt σ ε) where
  pure := done
  bind := andThen

instance : LawfulMonad (Attempt σ ε) := LawfulMonad.mk' _
  (fun x => funext fun s => by
    change andThen x done s = x s
    rw [andThen]
    cases x s with
    | mk result t => cases result <;> rfl)
  (fun _ _ => rfl)
  (fun x f g => funext fun s => by
    change andThen (andThen x f) g s = andThen x (fun a => andThen (f a) g) s
    simp only [andThen]
    cases x s with
    | mk result t => cases result <;> rfl)

/-- The error of a step, when it fails; the step itself never does. -/
def attempt (x : Attempt σ ε α) : Attempt σ ε (Except ε α) := fun s => (.ok (x s).1, (x s).2)

section Rules

variable {x : Attempt σ ε α} {f : α → Attempt σ ε β} {s t : σ}

theorem state_bind (f : σ → Attempt σ ε β) (s : σ) :
    (Attempt.state >>= f : Attempt σ ε β) s = f s s := rfl

theorem bind_eq_ok_iff {b : β} : (x >>= f) s = (.ok b, t) ↔
    ∃ a u, x s = (.ok a, u) ∧ f a u = (.ok b, t) := by
  change andThen x f s = _ ↔ _
  rw [andThen]
  cases hx : x s with
  | mk result u =>
    cases result with
    | error error =>
      refine ⟨fun h => ?_, fun ⟨a, v, h, _⟩ => ?_⟩
      · cases h
      · cases h
    | ok a =>
      refine ⟨fun h => ⟨a, u, rfl, h⟩, fun ⟨a', v, h, hf⟩ => ?_⟩
      cases h
      exact hf

theorem bind_eq_error_iff {error : ε} : (x >>= f) s = (.error error, t) ↔
    x s = (.error error, t) ∨ ∃ a u, x s = (.ok a, u) ∧ f a u = (.error error, t) := by
  change andThen x f s = _ ↔ _
  rw [andThen]
  cases hx : x s with
  | mk result u =>
    cases result with
    | error other =>
      constructor
      · intro h
        obtain ⟨herror, rfl⟩ := Prod.mk.inj h
        exact Or.inl (Prod.ext (congrArg Except.error (Except.error.inj herror)) rfl)
      · rintro (h | ⟨a, v, h, -⟩)
        · obtain ⟨herror, rfl⟩ := Prod.mk.inj h
          exact Prod.ext (congrArg Except.error (Except.error.inj herror)) rfl
        · cases h
    | ok a =>
      constructor
      · exact fun h => Or.inr ⟨a, u, rfl, h⟩
      · rintro (h | ⟨a', v, h, hf⟩)
        · cases h
        · cases h
          exact hf

theorem bind_of_ok {a : α} {u : σ} (h : x s = (.ok a, u)) : (x >>= f) s = f a u := by
  change andThen x f s = _
  rw [andThen, h]

theorem bind_of_error {error : ε} {u : σ} (h : x s = (.error error, u)) :
    (x >>= f) s = (.error error, u) := by
  change andThen x f s = _
  rw [andThen, h]

end Rules

end Attempt

end Opensesh
