/-
A flag that some entries of a list set and others clear: it is set after a list exactly
when an entry set it and none after that one cleared it.
-/
import Mathlib.Data.List.Induction
import Mathlib.Tactic.Tauto

namespace Opensesh

open List

universe u

variable {α : Type u}

/-- An entry sets the flag, and none after it clears it. Both may look at what came
before. -/
def LeftSet (sets clears : List α → α → Prop) (entries : List α) : Prop :=
  ∃ before entry after, entries = before ++ entry :: after ∧ sets before entry ∧
    ∀ middle other rest, after = middle ++ other :: rest →
      ¬ clears (before ++ entry :: middle) other

section Latch

variable {sets clears : List α → α → Prop}

theorem not_leftSet_nil : ¬ LeftSet sets clears [] := by
  rintro ⟨before, entry, after, heq, -, -⟩
  simp at heq

theorem leftSet_append {entries : List α} {entry : α} :
    LeftSet sets clears (entries ++ [entry]) ↔
      sets entries entry ∨ LeftSet sets clears entries ∧ ¬ clears entries entry := by
  constructor
  · rintro ⟨before, first, after, heq, hset, hkept⟩
    rcases eq_nil_or_concat after with rfl | ⟨middle, last, rfl⟩
    · obtain ⟨rfl, hlast⟩ := append_inj' heq rfl
      obtain rfl := singleton_inj.mp hlast
      exact Or.inl hset
    · have hsplit : entries ++ [entry] = (before ++ first :: middle) ++ [last] := by
        rw [heq, List.append_assoc, cons_append, concat_eq_append]
      obtain ⟨rfl, hlast⟩ := append_inj' hsplit rfl
      obtain rfl := singleton_inj.mp hlast
      refine Or.inr ⟨⟨before, first, middle, rfl, hset, fun front other rest hmiddle => ?_⟩,
        hkept middle entry [] (concat_eq_append)⟩
      exact hkept front other (rest ++ [entry])
        (by rw [hmiddle, concat_eq_append, List.append_assoc, cons_append])
  · rintro (hset | ⟨⟨before, first, after, rfl, hset, hkept⟩, hclear⟩)
    · exact ⟨entries, entry, [], rfl, hset, fun middle other rest heq => by simp at heq⟩
    · refine ⟨before, first, after ++ [entry], by simp, hset, ?_⟩
      intro middle other rest heq
      rcases eq_nil_or_concat rest with rfl | ⟨front, last, rfl⟩
      · obtain ⟨rfl, hlast⟩ := append_inj' heq rfl
        obtain rfl := singleton_inj.mp hlast
        exact hclear
      · have hsplit : after ++ [entry] = (middle ++ other :: front) ++ [last] := by
          rw [heq, concat_eq_append, List.append_assoc, cons_append]
        exact hkept middle other front (append_inj' hsplit rfl).1

theorem held_iff_leftSet {held live : List α → Prop} (hnil : ¬ held [])
    (hlive : ∀ {entries entry}, live (entries ++ [entry]) → live entries)
    (hstep : ∀ {entries entry}, live (entries ++ [entry]) →
      (held (entries ++ [entry]) ↔ sets entries entry ∨ held entries ∧ ¬ clears entries entry))
    {entries : List α} (h : live entries) : held entries ↔ LeftSet sets clears entries := by
  induction entries using List.reverseRecOn with
  | nil => exact ⟨fun hheld => absurd hheld hnil, fun hset => absurd hset not_leftSet_nil⟩
  | append_singleton entries entry ih => rw [hstep h, leftSet_append, ih (hlive h)]

end Latch

/-- Entries that say what they do themselves: the later ones decide first. -/
theorem leftSet_append_list {sets clears : α → Prop} (entries others : List α) :
    LeftSet (fun _ => sets) (fun _ => clears) (entries ++ others) ↔
      LeftSet (fun _ => sets) (fun _ => clears) others ∨
        LeftSet (fun _ => sets) (fun _ => clears) entries ∧ ∀ other ∈ others, ¬ clears other := by
  induction others using List.reverseRecOn with
  | nil => simp [not_leftSet_nil]
  | append_singleton others other ih =>
    rw [← List.append_assoc, leftSet_append, leftSet_append, ih]
    simp only [mem_append, mem_singleton, or_imp, forall_and, forall_eq]
    tauto

theorem not_leftSet_of_forall {sets clears : α → Prop} {entries : List α}
    (h : ∀ entry ∈ entries, ¬ sets entry) :
    ¬ LeftSet (fun _ => sets) (fun _ => clears) entries := by
  rintro ⟨before, entry, after, rfl, hset, -⟩
  exact h entry (by simp) hset

end Opensesh
