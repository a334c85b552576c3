/-
The pieces of a target's text: numbers read back from their digits, and what a name, a
user and a list of jump hosts is to be accepted.
-/
import Opensesh.Target
import Opensesh.Outcome

namespace Opensesh.Target

open Text

theorem all_isDigit_digits (n : Nat) : (digits n).all Char.isDigit = true :=
  List.all_eq_true.mpr fun _ hc => Nat.isDigit_of_mem_toDigits (by decide) (by decide) hc

variable {c : Char} {text name : List Char}

theorem notMem_digits (h : c.isDigit = false) (n : Nat) : c ∉ digits n :=
  fun hmem => by
    rw [List.all_eq_true.mp (all_isDigit_digits n) c hmem] at h
    cases h

theorem digits_ne_nil (n : Nat) : digits n ≠ [] := Nat.toDigits_ne_nil

theorem withoutPlus_eq_self (h : '+' ∉ text) : withoutPlus text = text := by
  cases text with
  | nil => rfl
  | cons c rest =>
    have hc : c ≠ '+' := fun heq => h (heq ▸ List.mem_cons_self)
    rw [withoutPlus, if_neg hc]

/-- A number reads back from its digits. -/
theorem parseNumber_digits {max n : Nat} (h : n ≤ max) : parseNumber max (digits n) = some n := by
  have hplus := withoutPlus_eq_self (notMem_digits (by decide : '+'.isDigit = false) n)
  rw [parseNumber]
  dsimp only
  rw [hplus, if_neg, digits, Nat.ofDigitChars_ten_toDigits, if_pos h]
  rw [all_isDigit_digits, List.isEmpty_eq_false_iff.mpr (digits_ne_nil n)]
  decide

/-- What a name must be to pass. -/
theorem checkName_eq_ok : checkName name = .ok () ↔
    name ≠ [] ∧ name.head? ≠ some '-' ∧
      ∀ c ∈ name, isWhitespace c = false ∧ isControl c = false ∧ c ≠ '@' ∧ c ≠ '/' := by
  rw [checkName]
  constructor
  · intro h
    split at h
    · cases h
    · rename_i hbad
      simpa [not_or, and_assoc] using hbad
  · rintro ⟨hne, hhead, hchars⟩
    rw [if_neg]
    simpa [not_or, and_assoc, hne, hhead] using hchars

theorem checkUser_eq_ok : checkUser name = .ok () ↔
    name ≠ [] ∧ name.head? ≠ some '-' ∧
      ∀ c ∈ name, isWhitespace c = false ∧ isControl c = false ∧ c ≠ '/' := by
  rw [checkUser]
  constructor
  · intro h
    split at h
    · cases h
    · rename_i hbad
      simpa [not_or, and_assoc] using hbad
  · rintro ⟨hne, hhead, hchars⟩
    rw [if_neg]
    simpa [not_or, and_assoc, hne, hhead] using hchars

/-- The split is at the last separator. -/
theorem rsplitOnce_append {after : List Char} (h : c ∉ after) (before : List Char) :
    rsplitOnce c (before ++ c :: after) = some (before, after) := by
  have hafter : c ∉ after.reverse := by rwa [List.mem_reverse]
  have hreverse : (before ++ c :: after).reverse = after.reverse ++ c :: before.reverse := by simp
  rw [rsplitOnce, hreverse, splitOnce_append hafter, Option.map_some]
  simp

theorem rsplitOnce_eq_none (h : c ∉ text) : rsplitOnce c text = none := by
  rw [rsplitOnce, splitOnce_eq_none (by rwa [List.mem_reverse])]
  rfl

theorem notMem_of_mem_splitOn {piece : List Char} (h : piece ∈ splitOn c text) : c ∉ piece := by
  induction text generalizing piece with
  | nil =>
    obtain rfl := List.mem_singleton.mp h
    exact List.not_mem_nil
  | cons d rest ih =>
    rw [splitOn] at h
    split at h
    · rcases List.mem_cons.mp h with rfl | hrest
      · exact List.not_mem_nil
      · exact ih hrest
    · rename_i hd
      split at h
      · obtain rfl := List.mem_singleton.mp h
        exact fun hmem => hd (List.mem_singleton.mp hmem).symm
      · rename_i front pieces hsplit
        rcases List.mem_cons.mp h with rfl | hrest
        · have hfront := ih (hsplit ▸ List.mem_cons_self)
          exact fun hmem => (List.mem_cons.mp hmem).elim (fun hc => hd hc.symm) hfront
        · exact ih (hsplit ▸ List.mem_cons_of_mem _ hrest)

/-- Each hop of an accepted list reads. -/
theorem checkJump_eq_ok {items : List (List Char)} : checkJump items = .ok () ↔
    ∀ item ∈ items, ∃ endpoint, parseEndpoint item = .ok endpoint := by
  induction items with
  | nil => simp [checkJump]
  | cons item items ih =>
    rw [checkJump, bind_eq_ok, List.forall_mem_cons, ih]
    simp

end Opensesh.Target
