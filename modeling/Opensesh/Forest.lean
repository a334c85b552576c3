/-
Partial functions as forests: each node has a parent or is at the top.  A walk
upwards ends at the top or meets a node twice, and the node that closes the
loop lies on a cycle.
-/
import Mathlib.Logic.Relation
import Mathlib.Logic.Function.Basic
import Mathlib.Data.List.Perm.Subperm

namespace Opensesh

open List Option

universe u

variable {α : Type u}

/-- One step up. -/
def Up (parent : α → Option α) (x y : α) : Prop := parent x = some y

/-- The parents of a node end at the top. -/
inductive Climbs (parent : α → Option α) : α → Prop
  | top {x : α} (h : parent x = none) : Climbs parent x
  | up {x y : α} (h : parent x = some y) (hy : Climbs parent y) : Climbs parent x

section Climbing

variable {parent parent' : α → Option α} {x y : α}

theorem Climbs.not_cycle (hx : Climbs parent x) : ¬ Relation.TransGen (Up parent) x x := by
  induction hx with
  | top htop =>
    intro hcycle
    obtain ⟨y, hup, -⟩ := Relation.TransGen.head'_iff.mp hcycle
    rw [Up, htop] at hup
    cases hup
  | up hup _ ih =>
    intro hcycle
    obtain ⟨z, hfirst, hrest⟩ := Relation.TransGen.head'_iff.mp hcycle
    rw [Up, hup] at hfirst
    obtain rfl := some.inj hfirst
    exact ih (Relation.TransGen.tail' hrest hup)

/-- Cutting parents off keeps what ends at the top. -/
theorem Climbs.of_cut (hcut : ∀ z, parent' z = parent z ∨ parent' z = none)
    (hx : Climbs parent x) : Climbs parent' x := by
  induction hx with
  | @top x htop => exact .top ((hcut x).elim (fun h => h.trans htop) id)
  | @up x y hup _ ih =>
    rcases hcut x with h | h
    · exact .up (h.trans hup) ih
    · exact .top h

end Climbing

section Walks

variable [DecidableEq α] (parent : α → Option α)

/-- The first node met twice on the way up, in at most so many steps. -/
def firstTwice : Nat → List α → Option α → Option α
  | 0, _, _ => none
  | _, _, none => none
  | steps + 1, seen, some x =>
    if x ∈ seen then some x else firstTwice steps (x :: seen) (parent x)

example : firstTwice some 2 [] (some 3) = some 3 := by simp [firstTwice]

variable {parent}

theorem firstTwice_cycle {steps : Nat} {seen : List α} {x c : α}
    (hseen : ∀ y ∈ seen, Relation.TransGen (Up parent) y x)
    (h : firstTwice parent steps seen (some x) = some c) :
    Relation.TransGen (Up parent) c c := by
  induction steps generalizing seen x with
  | zero => cases h
  | succ steps ih =>
    rw [firstTwice] at h
    split at h
    · rename_i hmem
      obtain rfl := some.inj h
      exact hseen x hmem
    · cases hup : parent x with
      | none =>
        rw [hup] at h
        cases steps <;> cases h
      | some y =>
        rw [hup] at h
        refine ih (fun z hz => ?_) h
        rcases mem_cons.mp hz with rfl | hz
        · exact .single hup
        · exact (hseen z hz).tail hup

/-- Where a loop is closed, a cut ends the walk. -/
theorem climbs_of_firstTwice {parent' : α → Option α} {steps : Nat}
    {seen : List α} {x c : α}
    (h : firstTwice parent steps seen (some x) = some c) (htop : parent' c = none)
    (hsame : ∀ y, y ≠ c → parent' y = parent y) : Climbs parent' x := by
  induction steps generalizing seen x with
  | zero => cases h
  | succ steps ih =>
    by_cases hx : x = c
    · subst x
      exact .top htop
    · rw [firstTwice] at h
      split at h
      · exact absurd (some.inj h) hx
      · cases hup : parent x with
        | none =>
          rw [hup] at h
          cases steps <;> cases h
        | some y =>
          rw [hup] at h
          exact .up ((hsame x hx).trans hup) (ih h)

/-- A walk with a step for each node and one more meets a node twice, or ends at
the top. -/
theorem climbs_of_firstTwice_none {nodes : List α} {steps : Nat} {seen : List α}
    {x : α} (hnodes : ∀ y z, parent y = some z → z ∈ nodes)
    (hnodup : seen.Nodup) (hseen : seen ⊆ nodes) (hx : x ∈ nodes)
    (hsteps : nodes.length < seen.length + steps)
    (h : firstTwice parent steps seen (some x) = none) : Climbs parent x := by
  induction steps generalizing seen x with
  | zero =>
    have hle := (subperm_of_subset hnodup hseen).length_le
    omega
  | succ steps ih =>
    rw [firstTwice] at h
    split at h
    · cases h
    · rename_i hmem
      cases hup : parent x with
      | none => exact .top hup
      | some y =>
        rw [hup] at h
        refine .up hup (ih (nodup_cons.mpr ⟨hmem, hnodup⟩)
          (cons_subset.mpr ⟨hx, hseen⟩) (hnodes x y hup) ?_ h)
        rw [length_cons]
        omega

end Walks

/-- A node and the nodes above it, up to the top. -/
inductive Path (parent : α → Option α) : α → List α → Prop
  | top {x : α} (h : parent x = none) : Path parent x [x]
  | up {x y : α} {above : List α} (h : parent x = some y) (hy : Path parent y above) :
      Path parent x (x :: above)

section Paths

variable {parent parent' : α → Option α} {x y : α} {above : List α}

theorem Climbs.path (hx : Climbs parent x) : ∃ above, Path parent x above := by
  induction hx with
  | top htop => exact ⟨_, .top htop⟩
  | up hup _ ih =>
    obtain ⟨above, hpath⟩ := ih
    exact ⟨_, .up hup hpath⟩

theorem Path.climbs (hx : Path parent x above) : Climbs parent x := by
  induction hx with
  | top htop => exact .top htop
  | up hup _ ih => exact .up hup ih

theorem Path.mem_iff (hx : Path parent x above) :
    y ∈ above ↔ Relation.ReflTransGen (Up parent) x y := by
  induction hx with
  | @top x htop =>
    rw [mem_singleton]
    constructor
    · rintro rfl
      exact .refl
    · intro hreach
      rcases Relation.ReflTransGen.cases_head hreach with rfl | ⟨z, hup, -⟩
      · rfl
      · rw [Up, htop] at hup
        cases hup
  | @up x z above hup _ ih =>
    rw [mem_cons, ih]
    constructor
    · rintro (rfl | hreach)
      · exact .refl
      · exact .head hup hreach
    · intro hreach
      rcases Relation.ReflTransGen.cases_head hreach with rfl | ⟨w, hfirst, hrest⟩
      · exact .inl rfl
      · rw [Up, hup] at hfirst
        obtain rfl := some.inj hfirst
        exact .inr hrest

/-- No node is met twice on the way to the top. -/
theorem Path.nodup (hx : Path parent x above) : above.Nodup := by
  induction hx with
  | top => simp
  | up hup hy ih =>
    refine nodup_cons.mpr ⟨fun hmem => ?_, ih⟩
    have hcycle : Relation.TransGen (Up parent) _ _ :=
      Relation.TransGen.head' hup (hy.mem_iff.mp hmem)
    exact (Climbs.up hup hy.climbs).not_cycle hcycle

theorem Path.of_agree (hagree : ∀ z ∈ above, parent' z = parent z)
    (hx : Path parent x above) : Path parent' x above := by
  induction hx with
  | top htop => exact .top ((hagree _ mem_cons_self).trans htop)
  | up hup _ ih =>
    exact .up ((hagree _ mem_cons_self).trans hup) (ih fun z hz => hagree z (mem_cons_of_mem _ hz))

/-- A node may be put under another one that is not below it. -/
theorem Climbs.of_moved {c : α} (hsame : ∀ z, z ≠ c → parent' z = parent z)
    (hmoved : ∀ p, parent' c = some p → Climbs parent p ∧ ¬ Relation.ReflTransGen (Up parent) p c)
    (hx : Climbs parent x) : Climbs parent' x := by
  have hc : Climbs parent' c := by
    cases hp : parent' c with
    | none => exact .top hp
    | some p =>
      obtain ⟨hclimbs, hbelow⟩ := hmoved p hp
      obtain ⟨above, hpath⟩ := hclimbs.path
      refine .up hp (hpath.of_agree fun z hz => hsame z ?_).climbs
      rintro rfl
      exact hbelow (hpath.mem_iff.mp hz)
  induction hx with
  | @top x htop =>
    by_cases hxc : x = c
    · exact hxc ▸ hc
    · exact .top ((hsame x hxc).trans htop)
  | @up x y hup _ ih =>
    by_cases hxc : x = c
    · exact hxc ▸ hc
    · exact .up ((hsame x hxc).trans hup) ih

/-- When a node is taken out and what was under it goes to its parent, every other
path loses that node only. -/
theorem Path.of_removed [DecidableEq α] {c : α}
    (hunder : ∀ z, z ≠ c → parent z = some c → parent' z = parent c)
    (hsame : ∀ z, z ≠ c → parent z ≠ some c → parent' z = parent z)
    (hx : Path parent x above) (hne : x ≠ c) :
    Path parent' x (above.filter (· ≠ c)) := by
  have hboth : (x ≠ c → Path parent' x (above.filter (· ≠ c))) ∧
      (x = c → ∀ z, z ≠ c → parent' z = parent c → Path parent' z (z :: above.filter (· ≠ c))) := by
    clear hne
    induction hx with
    | @top x htop =>
      constructor
      · intro hne
        have hstill : parent x ≠ some c := by simp [htop]
        simpa [hne] using Path.top ((hsame x hne hstill).trans htop)
      · rintro rfl z hz hup
        simpa using Path.top (hup.trans htop)
    | @up x y above hup hy ih =>
      constructor
      · intro hne
        rw [filter_cons_of_pos (by simpa using hne)]
        by_cases hyc : y = c
        · exact ih.2 hyc x hne (hunder x hne (hyc ▸ hup))
        · refine .up ((hsame x hne ?_).trans hup) (ih.1 hyc)
          rw [hup]
          exact fun heq => hyc (some.inj heq)
      · rintro rfl z hz hnew
        rw [filter_cons_of_neg (by simp)]
        have hyx : y ≠ x := by
          rintro rfl
          exact (Climbs.up hup hy.climbs).not_cycle (.single hup)
        exact .up (hnew.trans hup) (ih.1 hyx)
  exact hboth.1 hne

end Paths

end Opensesh
