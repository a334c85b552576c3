/-
Programs that log events: what every event of a log meets given those before it,
and pre- and postconditions over a summary of the log.
-/
import Mathlib.Data.List.Basic

namespace Opensesh

open List

universe u

/-- What a program did so far, and the state it keeps. -/
structure Trace (ε ς : Type) where
  log : List ε
  own : ς

namespace Trace

variable {ε ς χ α β : Type}

/-- Adds an event to the log. -/
def emit (e : ε) : EStateM χ (Trace ε ς) Unit := fun t => .ok () { t with log := t.log ++ [e] }

def getLog : EStateM χ (Trace ε ς) (List ε) := fun t => .ok t.log t

def getOwn : EStateM χ (Trace ε ς) ς := fun t => .ok t.own t

def setOwn (own : ς) : EStateM χ (Trace ε ς) Unit := fun t => .ok () { t with own }

section Spec

variable {ω : Type} (next : ω → ε → ω) (start : ω) (ok : ω → ε → Prop)

/-- The summary of a log. -/
def seen (log : List ε) : ω := log.foldl next start

/-- Every event is as it may be after those before it. -/
def Every (log : List ε) : Prop :=
  ∀ before e after, log = before ++ e :: after → ok (seen next start before) e

/-- The log is as it may be, and its summary and the state meet a condition. -/
def Holds (p : ω → ς → Prop) (t : Trace ε ς) : Prop :=
  Every next start ok t.log ∧ p (seen next start t.log) t.own

/-- From `p` the program leads to `q`, or fails with `err`. -/
def Spec (p : ω → ς → Prop) (m : EStateM χ (Trace ε ς) α) (q : α → ω → ς → Prop)
    (err : ω → ς → Prop) : Prop :=
  ∀ t, Holds next start ok p t →
    match m t with
    | .ok a t' => Holds next start ok (q a) t'
    | .error _ t' => Holds next start ok err t'

variable {next start ok}

theorem seen_append (log : List ε) (e : ε) :
    seen next start (log ++ [e]) = next (seen next start log) e := by
  rw [seen, foldl_append]
  rfl

theorem every_nil : Every next start ok [] := by
  intro before e after h
  cases before <;> cases h

theorem every_append {log : List ε} {e : ε} (h : Every next start ok log)
    (he : ok (seen next start log) e) : Every next start ok (log ++ [e]) := by
  intro before f after heq
  rcases eq_nil_or_concat after with rfl | ⟨after, last, rfl⟩
  · obtain ⟨rfl, hlast⟩ := append_inj' heq rfl
    obtain rfl := (List.cons.inj hlast).1
    exact he
  · rw [concat_eq_append, ← cons_append, ← List.append_assoc] at heq
    exact h before f after (append_inj' heq rfl).1

variable {p p' : ω → ς → Prop} {q q' : α → ω → ς → Prop} {r : β → ω → ς → Prop}
  {err err' : ω → ς → Prop}

theorem Spec.pure {a : α} (h : ∀ w own, p w own → q a w own) :
    Spec next start ok p (Pure.pure a : EStateM χ (Trace ε ς) α) q err :=
  fun _ ht => ⟨ht.1, h _ _ ht.2⟩

theorem Spec.throw {e : χ} (h : ∀ w own, p w own → err w own) :
    Spec next start ok p (MonadExcept.throw e : EStateM χ (Trace ε ς) α) q err :=
  fun _ ht => ⟨ht.1, h _ _ ht.2⟩

theorem Spec.bind {m : EStateM χ (Trace ε ς) α} {f : α → EStateM χ (Trace ε ς) β}
    (hm : Spec next start ok p m q err) (hf : ∀ a, Spec next start ok (q a) (f a) r err) :
    Spec next start ok p (m >>= f) r err := by
  intro t ht
  have hfirst := hm t ht
  change match EStateM.bind m f t with | .ok a t' => _ | .error _ t' => _
  unfold EStateM.bind
  cases hrun : m t with
  | ok a t' =>
    rw [hrun] at hfirst
    exact hf a t' hfirst
  | error e t' =>
    rw [hrun] at hfirst
    exact hfirst

theorem Spec.weaken {m : EStateM χ (Trace ε ς) α} (hm : Spec next start ok p' m q' err')
    (hp : ∀ w own, p w own → p' w own) (hq : ∀ a w own, q' a w own → q a w own)
    (herr : ∀ w own, err' w own → err w own) : Spec next start ok p m q err := by
  intro t ht
  have hrun := hm t ⟨ht.1, hp _ _ ht.2⟩
  cases h : m t with
  | ok a t' =>
    rw [h] at hrun
    exact ⟨hrun.1, hq a _ _ hrun.2⟩
  | error e t' =>
    rw [h] at hrun
    exact ⟨hrun.1, herr _ _ hrun.2⟩

theorem Spec.emit {e : ε} {q : Unit → ω → ς → Prop}
    (h : ∀ w own, p w own → ok w e ∧ q () (next w e) own) :
    Spec (χ := χ) next start ok p (Trace.emit e) q err := by
  intro t ht
  obtain ⟨hok, hq⟩ := h _ _ ht.2
  refine ⟨every_append ht.1 hok, ?_⟩
  change q () (seen next start (t.log ++ [e])) t.own
  rw [seen_append]
  exact hq

theorem Spec.getLog {q : List ε → ω → ς → Prop} (h : ∀ log w own, p w own → q log w own) :
    Spec (χ := χ) next start ok p Trace.getLog q err :=
  fun _ ht => ⟨ht.1, h _ _ _ ht.2⟩

theorem Spec.getOwn {q : ς → ω → ς → Prop} (h : ∀ w own, p w own → q own w own) :
    Spec (χ := χ) next start ok p Trace.getOwn q err :=
  fun _ ht => ⟨ht.1, h _ _ ht.2⟩

theorem Spec.setOwn {own : ς} {q : Unit → ω → ς → Prop} (h : ∀ w old, p w old → q () w own) :
    Spec (χ := χ) next start ok p (Trace.setOwn own) q err :=
  fun _ ht => ⟨ht.1, h _ _ ht.2⟩

theorem Spec.tryCatch {m : EStateM χ (Trace ε ς) α} {f : χ → EStateM χ (Trace ε ς) α}
    (hm : Spec next start ok p m q err') (hf : ∀ e, Spec next start ok err' (f e) q err) :
    Spec next start ok p (tryCatch m f) q err := by
  intro t ht
  have hfirst := hm t ht
  change match EStateM.tryCatch m f t with | .ok a t' => _ | .error _ t' => _
  unfold EStateM.tryCatch
  cases hrun : m t with
  | ok a t' =>
    simp only [hrun] at hfirst ⊢
    exact hfirst
  | error e t' =>
    simp only [hrun] at hfirst ⊢
    exact hf e t' hfirst

end Spec

end Trace

end Opensesh
