/-
The split tree of a tab stays valid: panes are told apart, ratios stay within
bounds, and each operation changes the list of panes as it says.
-/
import Opensesh.Layout
import Mathlib.Data.List.Nodup
import Mathlib.Tactic.NormNum
import Mathlib.Algebra.Order.Field.Rat

namespace Opensesh

open List Option

namespace Layout

theorem half_within : minRatio ≤ 1 / 2 ∧ 1 / 2 ≤ maxRatio := by
  unfold minRatio maxRatio
  norm_num

theorem clampRatio_within (ratio : Option Rat) :
    minRatio ≤ clampRatio ratio ∧ clampRatio ratio ≤ maxRatio := by
  cases ratio with
  | none => exact half_within
  | some ratio =>
    have hle := half_within.1.trans half_within.2
    exact ⟨le_max_left _ _, max_le hle (min_le_left _ _)⟩

/-- `new` next to `target`, in a list of panes. -/
def insertNext (target new : PaneId) (after : Bool) (panes : List PaneId) : List PaneId :=
  panes.flatMap fun pane =>
    if pane = target then if after then [target, new] else [new, target]
    else [pane]

section Insert

variable {target new : PaneId} {after : Bool}

theorem insertNext_of_not_mem {panes : List PaneId} (h : target ∉ panes) :
    insertNext target new after panes = panes := by
  induction panes with
  | nil => rfl
  | cons pane rest ih =>
    rw [mem_cons, not_or] at h
    have hrest := ih h.2
    rw [insertNext] at hrest ⊢
    simp [flatMap_cons, Ne.symm h.1, hrest]

theorem insertNext_append (panes others : List PaneId) :
    insertNext target new after (panes ++ others) =
      insertNext target new after panes ++ insertNext target new after others :=
  flatMap_append

theorem insertNext_perm {panes : List PaneId} (hnodup : panes.Nodup) (h : target ∈ panes) :
    (insertNext target new after panes).Perm (new :: panes) := by
  induction panes with
  | nil => cases h
  | cons pane rest ih =>
    rw [nodup_cons] at hnodup
    by_cases hpane : pane = target
    · subst pane
      have hrest : insertNext target new after rest = rest := insertNext_of_not_mem hnodup.1
      rw [insertNext] at hrest ⊢
      rw [flatMap_cons, hrest, if_pos rfl]
      cases after
      · exact .refl _
      · exact .swap _ _ _
    · have hperm := ih hnodup.2 ((mem_cons.mp h).resolve_left (Ne.symm hpane))
      rw [insertNext] at hperm ⊢
      rw [flatMap_cons, if_neg hpane]
      exact (hperm.cons pane).trans (.swap _ _ _)

end Insert

namespace Node

/-- How many splits a tree has. -/
def splits {R : Type} : Node R → Nat
  | .pane _ => 0
  | .split _ _ first second => first.splits + second.splits + 1

def RatiosWithin : Node Rat → Prop
  | .pane _ => True
  | .split _ ratio first second =>
    (minRatio ≤ ratio ∧ ratio ≤ maxRatio) ∧ first.RatiosWithin ∧ second.RatiosWithin

theorem length_panes {R : Type} (node : Node R) : node.panes.length = node.splits + 1 := by
  induction node with
  | pane id => rfl
  | split axis ratio first second hfirst hsecond =>
    rw [panes, splits, length_append, hfirst, hsecond]
    omega

theorem ratiosWithin_fix (node : Node (Option Rat)) : node.fix.RatiosWithin := by
  induction node with
  | pane id => trivial
  | split axis ratio first second hfirst hsecond =>
    exact ⟨clampRatio_within ratio, hfirst, hsecond⟩

theorem firstPane_mem (node : Node Rat) : node.firstPane ∈ node.panes := by
  induction node with
  | pane id => exact mem_singleton_self id
  | split axis ratio first second hfirst _ =>
    exact mem_append_left _ hfirst

theorem lastPane_mem (node : Node Rat) : node.lastPane ∈ node.panes := by
  induction node with
  | pane id => exact mem_singleton_self id
  | split axis ratio first second _ hsecond =>
    exact mem_append_right _ hsecond

section Split

variable (target : PaneId) (axis : Axis) (new : PaneId) (after : Bool)

theorem splitAt_found (node : Node Rat) :
    (node.splitAt target axis new after).2 = true ↔ target ∈ node.panes := by
  induction node with
  | pane id =>
    rw [splitAt, panes, mem_singleton]
    split
    · cases after <;> simp_all
    · simp_all [eq_comm]
  | split along ratio first second hfirst hsecond =>
    rw [splitAt, panes, mem_append, ← hfirst, ← hsecond]
    split <;> simp_all

theorem splitAt_not_found (node : Node Rat) (h : (node.splitAt target axis new after).2 = false) :
    (node.splitAt target axis new after).1 = node := by
  induction node with
  | pane id =>
    rw [splitAt] at h ⊢
    split at h
    · cases after <;> cases h
    · rw [if_neg ‹_›]
  | split along ratio first second hfirst hsecond =>
    rw [splitAt] at h ⊢
    split at h
    · cases h
    · exact congrArg (split along ratio first) (hsecond h)

theorem panes_splitAt {node : Node Rat} (hnodup : node.panes.Nodup) :
    (node.splitAt target axis new after).1.panes = insertNext target new after node.panes := by
  induction node with
  | pane id =>
    rw [splitAt]
    by_cases hid : id = target
    · subst id
      cases after <;> simp [insertNext, panes]
    · simp [insertNext, panes, hid]
  | split along ratio first second hfirst hsecond =>
    rw [panes, nodup_append'] at hnodup
    have hfound := splitAt_found target axis new after first
    have hsame := splitAt_not_found target axis new after first
    have hpanes := hfirst hnodup.1
    rw [splitAt, panes, insertNext_append]
    split
    · rename_i first' hmatch
      rw [hmatch] at hfound hpanes
      have hnot := hnodup.2.2 (hfound.mp rfl)
      rw [panes, hpanes, insertNext_of_not_mem hnot]
    · rename_i hmatch
      rw [hmatch] at hfound
      have hnot : target ∉ first.panes := fun hmem => by simpa using hfound.mpr hmem
      rw [insertNext_of_not_mem hnot, ← hsecond hnodup.2.1]
      rfl

theorem ratiosWithin_splitAt {node : Node Rat} (h : node.RatiosWithin) :
    (node.splitAt target axis new after).1.RatiosWithin := by
  induction node with
  | pane id =>
    rw [splitAt]
    split
    · cases after <;> exact ⟨half_within, trivial, trivial⟩
    · trivial
  | split along ratio first second hfirst hsecond =>
    obtain ⟨hratio, hin, hother⟩ := h
    have hnew := hfirst hin
    rw [splitAt]
    split
    · rename_i first' hmatch
      rw [hmatch] at hnew
      exact ⟨hratio, hnew, hother⟩
    · exact ⟨hratio, hin, hsecond hother⟩

end Split

section Close

variable (target : PaneId)

theorem closeAt_some {node node' : Node Rat} {focus : PaneId}
    (hnodup : node.panes.Nodup) (h : node.closeAt target = some (node', focus)) :
    target ∈ node.panes ∧ node'.panes = node.panes.erase target ∧
      focus ∈ node'.panes ∧ (node.RatiosWithin → node'.RatiosWithin) := by
  induction node generalizing node' focus with
  | pane id => cases h
  | split axis ratio first second hfirst hsecond =>
    rw [panes, nodup_append'] at hnodup
    rw [closeAt] at h
    split at h
    · rename_i htarget
      obtain ⟨rfl, rfl⟩ := Prod.mk.inj (some.inj h)
      subst first
      refine ⟨by simp [panes], by simp [panes], firstPane_mem _, fun hr => hr.2.2⟩
    · split at h
      · rename_i htarget
        obtain ⟨rfl, rfl⟩ := Prod.mk.inj (some.inj h)
        subst second
        have hnot : target ∉ first.panes := fun hmem => hnodup.2.2 hmem (mem_singleton_self target)
        refine ⟨by simp [panes], ?_, lastPane_mem _, fun hr => hr.2.1⟩
        simp [panes, erase_append_right _ hnot]
      · split at h
        · rename_i first' focus' hclose
          obtain ⟨rfl, rfl⟩ := Prod.mk.inj (some.inj h)
          obtain ⟨hmem, hpanes, hfocus, hratios⟩ := hfirst hnodup.1 hclose
          refine ⟨mem_append_left _ hmem, ?_, mem_append_left _ hfocus,
            fun hr => ⟨hr.1, hratios hr.2.1, hr.2.2⟩⟩
          rw [panes, panes, hpanes, erase_append_left _ hmem]
        · obtain ⟨⟨second', focus'⟩, hclose, hnode⟩ := map_eq_some_iff.mp h
          obtain ⟨rfl, rfl⟩ := Prod.mk.inj hnode
          obtain ⟨hmem, hpanes, hfocus, hratios⟩ := hsecond hnodup.2.1 hclose
          have hnot : target ∉ first.panes := fun hin => hnodup.2.2 hin hmem
          refine ⟨mem_append_right _ hmem, ?_, mem_append_right _ hfocus,
            fun hr => ⟨hr.1, hr.2.1, hratios hr.2.2⟩⟩
          rw [panes, panes, hpanes, erase_append_right _ hnot]

/-- Only a pane that is not there, or the last one, cannot be closed. -/
theorem closeAt_none {node : Node Rat} (h : node.closeAt target = none) :
    target ∉ node.panes ∨ node = .pane target := by
  induction node with
  | pane id =>
    by_cases hid : id = target
    · exact Or.inr (hid ▸ rfl)
    · exact Or.inl (by simp [panes, Ne.symm hid])
  | split axis ratio first second hfirst hsecond =>
    rw [closeAt] at h
    split at h
    · cases h
    · split at h
      · cases h
      · rename_i hnotFirst hnotSecond
        split at h
        · cases h
        · rename_i hclose
          have hin := (hfirst hclose).resolve_right hnotFirst
          have hother := (hsecond (map_eq_none_iff.mp h)).resolve_right hnotSecond
          exact Or.inl (by simp [panes, hin, hother])

end Close

theorem setRatioAt_some {value : Rat} {path : List Bool} {node node' : Node Rat}
    (h : node.setRatioAt value path = some node') :
    node'.panes = node.panes ∧ (minRatio ≤ value ∧ value ≤ maxRatio →
      node.RatiosWithin → node'.RatiosWithin) := by
  induction node generalizing path node' with
  | pane id => cases path <;> cases h
  | split axis ratio first second hfirst hsecond =>
    cases path with
    | nil =>
      obtain rfl := some.inj h
      exact ⟨rfl, fun hvalue hr => ⟨hvalue, hr.2⟩⟩
    | cons side path =>
      cases side with
      | false =>
        obtain ⟨first', hset, rfl⟩ := map_eq_some_iff.mp h
        obtain ⟨hpanes, hratios⟩ := hfirst hset
        exact ⟨by rw [panes, panes, hpanes], fun hvalue hr => ⟨hr.1, hratios hvalue hr.2.1, hr.2.2⟩⟩
      | true =>
        obtain ⟨second', hset, rfl⟩ := map_eq_some_iff.mp h
        obtain ⟨hpanes, hratios⟩ := hsecond hset
        exact ⟨by rw [panes, panes, hpanes], fun hvalue hr => ⟨hr.1, hr.2.1, hratios hvalue hr.2.2⟩⟩

/-- One pane for the other, and the other for the one. -/
def exchange (a b id : PaneId) : PaneId := if id = a then b else if id = b then a else id

theorem exchange_exchange (a b id : PaneId) : exchange a b (exchange a b id) = id := by
  unfold exchange
  split_ifs <;> simp_all

theorem panes_swapPanes (a b : PaneId) (node : Node Rat) :
    (node.swapPanes a b).panes = node.panes.map (exchange a b) := by
  induction node with
  | pane id => rfl
  | split axis ratio first second hfirst hsecond =>
    rw [swapPanes, panes, panes, hfirst, hsecond, map_append]

theorem ratiosWithin_swapPanes (a b : PaneId) {node : Node Rat}
    (h : node.RatiosWithin) : (node.swapPanes a b).RatiosWithin := by
  induction node with
  | pane id => trivial
  | split axis ratio first second hfirst hsecond =>
    exact ⟨h.1, hfirst h.2.1, hsecond h.2.2⟩

theorem panes_evenly (node : Node Rat) : node.evenly.panes = node.panes := by
  induction node with
  | pane id => rfl
  | split axis ratio first second hfirst hsecond =>
    rw [evenly, panes, panes, hfirst, hsecond]

theorem ratiosWithin_evenly (node : Node Rat) : node.evenly.RatiosWithin := by
  induction node with
  | pane id => trivial
  | split axis ratio first second hfirst hsecond =>
    exact ⟨half_within, hfirst, hsecond⟩

end Node

/-- What every layout keeps: panes are told apart, ratios are within bounds, and
there is one pane more than splits. -/
structure Valid (layout : Layout) : Prop where
  nodup : layout.panes.Nodup
  ratios : layout.root.RatiosWithin
  count : layout.panes.length = layout.root.splits + 1

theorem Valid.intro {layout : Layout} (hnodup : layout.panes.Nodup)
    (hratios : layout.root.RatiosWithin) : layout.Valid :=
  ⟨hnodup, hratios, layout.root.length_panes⟩

theorem valid_single (pane : PaneId) : (single pane).Valid := .intro (nodup_singleton pane) trivial

theorem nodup_of_isChain {panes : List PaneId} (hsorted : panes.Pairwise (· ≤ ·))
    (hchain : panes.IsChain (· ≠ ·)) : panes.Nodup := by
  induction panes with
  | nil => exact nodup_nil
  | cons pane rest ih =>
    rw [pairwise_cons] at hsorted
    rw [nodup_cons]
    cases rest with
    | nil => simp
    | cons next rest =>
      rw [isChain_cons_cons] at hchain
      have hnext := (pairwise_cons.mp hsorted.2).1
      refine ⟨fun hmem => ?_, ih hsorted.2 hchain.2⟩
      rcases mem_cons.mp hmem with heq | hrest
      · exact hchain.1 heq
      · have hle := hnext pane hrest
        have hge := hsorted.1 next mem_cons_self
        exact hchain.1 (le_antisymm hge hle)

/-- A list is as long as its sorted version without repetitions when nothing is
in it twice. -/
theorem nodup_of_length_destutter {panes : List PaneId}
    (h : ((panes.insertionSort (· ≤ ·)).destutter (· ≠ ·)).length = panes.length) :
    panes.Nodup := by
  have hsub := (panes.insertionSort (· ≤ ·)).destutter_sublist (· ≠ ·)
  have hperm := panes.perm_insertionSort (· ≤ ·)
  rw [← hperm.length_eq] at h
  have hchain := (destutter_eq_self_iff _ _).mp (hsub.eq_of_length h)
  exact hperm.nodup_iff.mp (nodup_of_isChain (panes.pairwise_insertionSort (· ≤ ·)) hchain)

theorem valid_fromNode {root : Node (Option Rat)} {layout : Layout}
    (h : fromNode root = .ok layout) : layout.Valid := by
  simp only [fromNode] at h
  split at h
  · cases h
  · rename_i hlength
    obtain rfl := Except.ok.inj h
    exact .intro (nodup_of_length_destutter (not_not.mp hlength)) (Node.ratiosWithin_fix root)

/-- What can be done to a layout. -/
inductive Op where
  | split (target : PaneId) (axis : Axis) (new : PaneId) (after : Bool)
  | close (target : PaneId)
  | setRatio (path : List Bool) (value : Option Rat)
  | resize (pane : PaneId) (direction : Direction) (step : Option Rat)
  | swap (a b : PaneId)
  | equalize

def apply (layout : Layout) : Op → Layout
  | .split target axis new after => (layout.split target axis new after).1
  | .close target => (layout.close target).1
  | .setRatio path value => (layout.setRatio path value).1
  | .resize pane direction step => (layout.resize pane direction step).1
  | .swap a b => (layout.swap a b).1
  | .equalize => layout.equalize

/-- What an operation does to the list of panes, and to the tree when it
answers no. -/
def Documented (layout : Layout) : Op → Prop
  | .split target axis new after =>
    match layout.split target axis new after with
    | (next, true) => target ∈ layout.panes ∧ new ∉ layout.panes ∧
        next.panes = insertNext target new after layout.panes
    | (next, false) => next = layout ∧ (target ∉ layout.panes ∨ new ∈ layout.panes)
  | .close target =>
    match layout.close target with
    | (next, some focus) => target ∈ layout.panes ∧
        next.panes = layout.panes.erase target ∧ focus ∈ next.panes
    | (next, none) => next = layout ∧ (target ∉ layout.panes ∨ layout.panes = [target])
  | .setRatio path value =>
    (layout.setRatio path value).1.panes = layout.panes ∧
      ((layout.setRatio path value).2 = false → (layout.setRatio path value).1 = layout)
  | .resize pane direction step =>
    (layout.resize pane direction step).1.panes = layout.panes ∧
      ((layout.resize pane direction step).2 = false →
        (layout.resize pane direction step).1 = layout)
  | .swap a b =>
    match layout.swap a b with
    | (next, true) => a ∈ layout.panes ∧ b ∈ layout.panes ∧
        next.panes = layout.panes.map (Node.exchange a b)
    | (next, false) => next = layout ∧ (a = b ∨ a ∉ layout.panes ∨ b ∉ layout.panes)
  | .equalize => layout.equalize.panes = layout.panes

section Steps

variable {layout : Layout}

example : ((single 1).split 2 .vertical 3 true).2 = false ∧ Documented (single 1) .equalize ∧
    ((single 1).close 1).2 = none ∧ ((single 1).setRatio [] none).2 = false := by
  simp [split, Documented, equalize, close, setRatio, contains, panes, single, Node.panes,
    Node.splitAt, Node.evenly, Node.closeAt, Node.setRatioAt]

theorem documented_split (h : layout.Valid) (target : PaneId) (axis : Axis)
    (new : PaneId) (after : Bool) :
    (layout.split target axis new after).1.Valid ∧
      Documented layout (.split target axis new after) := by
  have hfound := Node.splitAt_found target axis new after layout.root
  have hsame := Node.splitAt_not_found target axis new after layout.root
  have hpanes := Node.panes_splitAt target axis new after h.nodup
  have hratios := Node.ratiosWithin_splitAt target axis new after h.ratios
  by_cases hnew : new ∈ layout.panes
  · have hsplit : layout.split target axis new after = (layout, false) := by
      simp [split, contains, hnew]
    rw [Documented, hsplit]
    exact ⟨h, rfl, Or.inr hnew⟩
  · have hsplit : layout.split target axis new after =
        (⟨(layout.root.splitAt target axis new after).1⟩,
          (layout.root.splitAt target axis new after).2) := by
      simp [split, contains, hnew]
    rw [Documented, hsplit]
    cases hcase : (layout.root.splitAt target axis new after).2 with
    | true =>
      have htarget := hfound.mp hcase
      refine ⟨.intro ?_ hratios, htarget, hnew, hpanes⟩
      have hperm : (insertNext target new after layout.panes).Perm
          (new :: layout.panes) := insertNext_perm h.nodup htarget
      rw [panes, hpanes]
      exact hperm.nodup_iff.mpr (nodup_cons.mpr ⟨hnew, h.nodup⟩)
    | false =>
      have hlayout : (⟨(layout.root.splitAt target axis new after).1⟩ : Layout) =
        layout := by rw [hsame hcase]
      rw [hlayout]
      refine ⟨h, rfl, Or.inl fun htarget => ?_⟩
      rw [hfound.mpr htarget] at hcase
      cases hcase

theorem documented_close (h : layout.Valid) (target : PaneId) :
    (layout.close target).1.Valid ∧ Documented layout (.close target) := by
  cases hclose : layout.root.closeAt target with
  | none =>
    have hnext : layout.close target = (layout, none) := by simp [close, hclose]
    rw [Documented, hnext]
    refine ⟨h, rfl, (Node.closeAt_none target hclose).imp_right fun hroot => ?_⟩
    rw [panes, hroot, Node.panes]
  | some found =>
    obtain ⟨root, focus⟩ := found
    have hnext : layout.close target = (⟨root⟩, some focus) := by
      simp [close, hclose]
    obtain ⟨hmem, hpanes, hfocus, hratios⟩ := Node.closeAt_some target h.nodup hclose
    rw [Documented, hnext]
    refine ⟨.intro ?_ (hratios h.ratios), hmem, hpanes, hfocus⟩
    rw [panes, hpanes]
    exact h.nodup.erase target

theorem documented_setRatio (h : layout.Valid) (path : List Bool) (value : Option Rat) :
    (layout.setRatio path value).1.Valid ∧ Documented layout (.setRatio path value) := by
  cases hset : layout.root.setRatioAt (clampRatio value) path with
  | none =>
    have hnext : layout.setRatio path value = (layout, false) := by
      simp [setRatio, hset]
    rw [Documented, hnext]
    exact ⟨h, rfl, fun _ => rfl⟩
  | some root =>
    have hnext : layout.setRatio path value = (⟨root⟩, true) := by
      simp [setRatio, hset]
    obtain ⟨hpanes, hratios⟩ := Node.setRatioAt_some hset
    rw [Documented, hnext]
    refine ⟨.intro ?_ (hratios (clampRatio_within value) h.ratios), hpanes, nofun⟩
    rw [panes, hpanes]
    exact h.nodup

/-- A divider is moved by setting a ratio, or nothing happens. -/
theorem resize_eq (layout : Layout) (pane : PaneId) (direction : Direction) (step : Option Rat) :
    layout.resize pane direction step = (layout, false) ∨
      ∃ path value, layout.resize pane direction step = layout.setRatio path value := by
  unfold resize
  split
  · split
    all_goals
      dsimp only
      split
      · exact Or.inl rfl
      · exact Or.inr ⟨_, _, rfl⟩
  · exact Or.inl rfl

theorem documented_resize (h : layout.Valid) (pane : PaneId)
    (direction : Direction) (step : Option Rat) :
    (layout.resize pane direction step).1.Valid ∧
      Documented layout (.resize pane direction step) := by
  rcases resize_eq layout pane direction step with hnext | ⟨path, value, hnext⟩
  · rw [Documented, hnext]
    exact ⟨h, rfl, fun _ => rfl⟩
  · rw [Documented, hnext]
    exact documented_setRatio h path value

theorem documented_swap (h : layout.Valid) (a b : PaneId) :
    (layout.swap a b).1.Valid ∧ Documented layout (.swap a b) := by
  by_cases hboth : a = b ∨ a ∉ layout.panes ∨ b ∉ layout.panes
  · have hnext : layout.swap a b = (layout, false) := by
      unfold swap
      rw [if_pos (by simpa [contains] using hboth)]
    rw [Documented, hnext]
    exact ⟨h, rfl, hboth⟩
  · have hnext : layout.swap a b = (⟨layout.root.swapPanes a b⟩, true) := by
      unfold swap
      rw [if_neg (by simpa [contains] using hboth)]
    have hpanes := Node.panes_swapPanes a b layout.root
    simp only [not_or, not_not] at hboth
    rw [Documented, hnext]
    refine ⟨.intro ?_ (Node.ratiosWithin_swapPanes a b h.ratios), hboth.2.1, hboth.2.2, hpanes⟩
    rw [panes, hpanes]
    exact h.nodup.map (Function.LeftInverse.injective (Node.exchange_exchange a b))

theorem documented_equalize (h : layout.Valid) :
    layout.equalize.Valid ∧ Documented layout .equalize := by
  have hpanes := Node.panes_evenly layout.root
  refine ⟨.intro ?_ (Node.ratiosWithin_evenly layout.root), hpanes⟩
  rw [panes, equalize, hpanes]
  exact h.nodup

theorem apply_valid (h : layout.Valid) (op : Op) :
    (layout.apply op).Valid ∧ Documented layout op := by
  cases op with
  | split target axis new after => exact documented_split h target axis new after
  | close target => exact documented_close h target
  | setRatio path value => exact documented_setRatio h path value
  | resize pane direction step => exact documented_resize h pane direction step
  | swap a b => exact documented_swap h a b
  | equalize => exact documented_equalize h

end Steps

/-- Where layouts come from. -/
inductive Built : Layout → Prop
  | single (pane : PaneId) : Built (single pane)
  | fromNode {root : Node (Option Rat)} {layout : Layout}
      (h : fromNode root = .ok layout) : Built layout

theorem Built.valid {layout : Layout} (h : Built layout) : layout.Valid := by
  cases h with
  | single pane => exact valid_single pane
  | fromNode h => exact valid_fromNode h

theorem foldl_apply_valid (ops : List Op) {layout : Layout} (h : layout.Valid) :
    (ops.foldl apply layout).Valid := by
  induction ops generalizing layout with
  | nil => exact h
  | cons op rest ih => exact ih (apply_valid h op).1

/-- Whatever is done to a layout, it stays valid, and what is done next does
what it says. -/
theorem layout_stays_valid {layout : Layout} (hbuilt : Built layout) (ops : List Op) :
    (ops.foldl apply layout).Valid ∧ ∀ op, Documented (ops.foldl apply layout) op := by
  have hvalid := foldl_apply_valid ops hbuilt.valid
  exact ⟨hvalid, fun op => (apply_valid hvalid op).2⟩

section Undone

variable {node : Node Rat} {target new : PaneId}

theorem Node.closeAt_eq_none (h : target ∉ node.panes) : node.closeAt target = none := by
  induction node with
  | pane id => rfl
  | split axis ratio first second hfirst hsecond =>
    rw [Node.panes, List.mem_append, not_or] at h
    have hne : ∀ child : Node Rat, target ∉ child.panes → child ≠ .pane target := by
      rintro _ hchild rfl
      exact hchild (List.mem_singleton.mpr rfl)
    rw [Node.closeAt, if_neg (hne first h.1), if_neg (hne second h.2), hfirst h.1, hsecond h.2]
    rfl

/-- A tree in which a pane was split is no pane. -/
theorem Node.splitAt_ne_pane {axis : Axis} {after : Bool}
    (h : (node.splitAt target axis new after).2 = true) (id : PaneId) :
    (node.splitAt target axis new after).1 ≠ .pane id := by
  cases node with
  | pane other =>
    rw [Node.splitAt] at h ⊢
    by_cases hid : other = target
    · rw [if_pos hid]
      cases after <;> exact fun heq => nomatch heq
    · rw [if_neg hid] at h
      cases h
  | split along ratio first second =>
    rw [Node.splitAt]
    split <;> exact fun heq => nomatch heq

/-- Closing the pane that was made puts back what was split. -/
theorem Node.closeAt_splitAt {axis : Axis} {after : Bool} (hnew : new ∉ node.panes)
    (h : (node.splitAt target axis new after).2 = true) :
    (node.splitAt target axis new after).1.closeAt new = some (node, target) := by
  induction node with
  | pane id =>
    rw [Node.splitAt] at h ⊢
    split at h
    · rename_i hid
      obtain rfl := hid
      have hne : id ≠ new := fun heq => hnew (List.mem_singleton.mpr heq.symm)
      rw [if_pos rfl]
      cases after with
      | true =>
        change (Node.split axis (1 / 2) (.pane id) (.pane new)).closeAt new = _
        rw [Node.closeAt, if_neg (by simpa using hne), if_pos rfl]
        rfl
      | false =>
        change (Node.split axis (1 / 2) (.pane new) (.pane id)).closeAt new = _
        rw [Node.closeAt, if_pos rfl]
        rfl
    · cases h
  | split along ratio first second hfirst hsecond =>
    rw [Node.panes, List.mem_append, not_or] at hnew
    have hne : ∀ child : Node Rat, new ∉ child.panes → child ≠ .pane new := by
      rintro _ hchild rfl
      exact hchild (List.mem_singleton.mpr rfl)
    rw [Node.splitAt] at h ⊢
    cases hfound : first.splitAt target axis new after with
    | mk first' found =>
      rw [hfound] at h
      cases found with
      | true =>
        have hclosed := hfirst hnew.1 (by rw [hfound])
        have hchild := first.splitAt_ne_pane (by rw [hfound]) new
        rw [hfound] at hclosed hchild
        change (Node.split along ratio first' second).closeAt new = _
        rw [Node.closeAt, if_neg hchild, if_neg (hne second hnew.2), hclosed]
      | false =>
        change (Node.split along ratio first (second.splitAt target axis new after).1).closeAt new = _
        rw [Node.closeAt, if_neg (hne first hnew.1), if_neg (second.splitAt_ne_pane h new),
          Node.closeAt_eq_none hnew.1, hsecond hnew.2 h]
        rfl

theorem Node.swapPanes_swapPanes (a b : PaneId) (node : Node Rat) :
    (node.swapPanes a b).swapPanes a b = node := by
  induction node with
  | pane id => exact congrArg Node.pane (exchange_exchange a b id)
  | split axis ratio first second hfirst hsecond =>
    rw [Node.swapPanes, Node.swapPanes, hfirst, hsecond]

/-- Closing the pane that a split made gives the layout from before, with the focus on the pane
that was split, and exchanging two panes twice changes nothing. -/
theorem split_and_swap_undone (layout : Layout) (target new a b : PaneId) (axis : Axis)
    (after : Bool) :
    ((layout.split target axis new after).2 = true →
      (layout.split target axis new after).1.close new = (layout, some target)) ∧
      ((layout.swap a b).1.swap a b).1 = layout := by
  constructor
  · intro h
    rw [Layout.split] at h ⊢
    split at h
    · cases h
    · rename_i hnew
      rw [if_neg hnew]
      dsimp only at h ⊢
      rw [Layout.close, Node.closeAt_splitAt (fun hmem => hnew (decide_eq_true hmem)) h]
  · by_cases hsame : a = b ∨ (!layout.contains a) = true ∨ (!layout.contains b) = true
    · have hkept : layout.swap a b = (layout, false) := if_pos hsame
      rw [hkept, hkept]
    · have hswapped : layout.swap a b = (⟨layout.root.swapPanes a b⟩, true) := if_neg hsame
      have hmem : ∀ id, Node.exchange a b id ∈ layout.panes →
          contains ⟨layout.root.swapPanes a b⟩ id = true := by
        intro id hid
        rw [contains, panes, Node.panes_swapPanes, decide_eq_true_iff]
        exact List.mem_map.mpr ⟨_, hid, Node.exchange_exchange a b id⟩
      simp only [contains, not_or, Bool.not_eq_true', decide_eq_false_iff_not, not_not] at hsame
      have ha := hmem a (by simpa [Node.exchange] using hsame.2.2)
      have hb := hmem b (by
        rw [Node.exchange, if_neg (Ne.symm hsame.1), if_pos rfl]
        exact hsame.2.1)
      rw [hswapped, Layout.swap, ha, hb, if_neg (by simpa using hsame.1), Node.swapPanes_swapPanes]

end Undone

end Layout

namespace LayoutWitness

open Layout

/-- 1 | (2 / 3): pane 1 on the left, 2 above 3 on the right. -/
def three : List Op := [.split 1 .horizontal 2 true, .split 2 .vertical 3 true]

theorem three_valid :
    (three.foldl apply (single 1)).Valid ∧
      Documented (three.foldl apply (single 1)) (.close 2) := by
  have hvalid := layout_stays_valid (.single 1) three
  exact ⟨hvalid.1, hvalid.2 (.close 2)⟩

/-- The same panes with ratios of their own. -/
def uneven : Layout :=
  ⟨.split .horizontal (1 / 4) (.pane 1) (.split .vertical (2 / 3) (.pane 2) (.pane 3))⟩

theorem split_closed : (uneven.split 3 .horizontal 4 false).1.close 4 = (uneven, some 3) ∧
    ((uneven.swap 1 3).1.swap 1 3).1 = uneven := by
  have hundone := split_and_swap_undone uneven 3 4 1 3 .horizontal false
  exact ⟨hundone.1 (by decide), hundone.2⟩

end LayoutWitness

end Opensesh
