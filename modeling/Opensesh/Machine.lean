/-
Systems that take one step for each event: where a list of events leads, and
runs whose every step meets a condition on the state it starts from.
-/
import Mathlib.Tactic.Basic

namespace Opensesh

open Option

universe u v

variable {σ : Type u} {ε : Type v}

/-- The state the events lead to; none when one of them cannot happen. -/
def runFrom (step : σ → ε → Option σ) : σ → List ε → Option σ
  | s, [] => some s
  | s, e :: rest => (step s e).bind fun t => runFrom step t rest

/-- A run whose steps are all `good`. -/
inductive GoodRun (step : σ → ε → Option σ) (good : σ → ε → Prop) :
    σ → List ε → σ → Prop
  | nil (s : σ) : GoodRun step good s [] s
  | cons {s t u : σ} {e : ε} {rest : List ε} (hgood : good s e)
      (hstep : step s e = some t) (hrest : GoodRun step good t rest u) :
      GoodRun step good s (e :: rest) u

/-- The state good events lead to; none when one of them is not good. -/
def runGood (step : σ → ε → Option σ) (good : σ → ε → Prop)
    [∀ s e, Decidable (good s e)] : σ → List ε → Option σ
  | s, [] => some s
  | s, e :: rest =>
    if good s e then (step s e).bind fun t => runGood step good t rest
    else none

section Runs

variable {step : σ → ε → Option σ} {good : σ → ε → Prop}

theorem runFrom_append (s : σ) (earlier later : List ε) :
    runFrom step s (earlier ++ later) =
      (runFrom step s earlier).bind fun t => runFrom step t later := by
  induction earlier generalizing s with
  | nil => rfl
  | cons e rest ih =>
    rw [List.cons_append, runFrom, runFrom, bind_assoc]
    exact congrArg _ (funext ih)

theorem GoodRun.of_runGood [∀ s e, Decidable (good s e)] {s t : σ}
    {events : List ε} (h : runGood step good s events = some t) :
    GoodRun step good s events t := by
  induction events generalizing s with
  | nil =>
    obtain rfl := some.inj h
    exact .nil s
  | cons e rest ih =>
    rw [runGood] at h
    split at h
    · rename_i hgood
      obtain ⟨next, hnext, hrest⟩ := bind_eq_some_iff.mp h
      exact .cons hgood hnext (ih hrest)
    · cases h

theorem GoodRun.runFrom_eq {s t : σ} {events : List ε}
    (h : GoodRun step good s events t) : runFrom step s events = some t := by
  induction h with
  | nil => rfl
  | cons _ hstep _ ih => rw [runFrom, hstep, bind_some, ih]

theorem GoodRun.of_isSome [∀ s e, Decidable (good s e)] {s t : σ} {events : List ε}
    (h : (runGood step good s events).isSome) (hrun : runFrom step s events = some t) :
    GoodRun step good s events t := by
  obtain ⟨u, hu⟩ := isSome_iff_exists.mp h
  have hgood := GoodRun.of_runGood hu
  rw [hgood.runFrom_eq] at hrun
  obtain rfl := some.inj hrun
  exact hgood

/-- What holds at first and is kept by every good step holds in the end. -/
theorem GoodRun.invariant {p : σ → Prop}
    (hstep : ∀ {s t : σ} {e : ε}, p s → good s e → step s e = some t → p t)
    {s t : σ} {events : List ε} (h : GoodRun step good s events t) (hs : p s) :
    p t := by
  induction h with
  | nil => exact hs
  | cons hgood hnext _ ih => exact ih (hstep hs hgood hnext)

theorem GoodRun.of_append {s t : σ} {earlier later : List ε}
    (h : GoodRun step good s (earlier ++ later) t) :
    ∃ middle, GoodRun step good s earlier middle ∧ GoodRun step good middle later t := by
  induction earlier generalizing s with
  | nil => exact ⟨s, .nil s, h⟩
  | cons e rest ih =>
    cases h with
    | cons hgood hstep hrest =>
      obtain ⟨middle, hfirst, hlast⟩ := ih hrest
      exact ⟨middle, .cons hgood hstep hfirst, hlast⟩

theorem GoodRun.split {s t : σ} {events : List ε}
    (h : GoodRun step good s events t) {e : ε} (he : e ∈ events) :
    ∃ before after earlier later, GoodRun step good s earlier before ∧
      good before e ∧ step before e = some after ∧
      GoodRun step good after later t := by
  obtain ⟨earlier, later, rfl⟩ := List.append_of_mem he
  obtain ⟨before, hfirst, hlast⟩ := h.of_append
  cases hlast with
  | cons hgood hstep hrest =>
    exact ⟨before, _, earlier, later, hfirst, hgood, hstep, hrest⟩

end Runs

end Opensesh
