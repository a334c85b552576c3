/-
Where the panes of a tab are: their rectangles cut the unit square up, and a divider that is
moved takes the edges along it with it and leaves the panes outside of its split alone.
-/
import Opensesh.LayoutValid
import Mathlib.Tactic.Linarith
import Mathlib.Tactic.Ring

namespace Opensesh

open List

namespace Layout

/-- Where a pane is drawn. -/
structure PaneRect where
  pane : PaneId
  rect : Rect

/-- `walk` of `rects`. -/
def Node.rectsAt (area : Rect) : Node Rat → List PaneRect
  | .pane id => [⟨id, area⟩]
  | .split axis ratio first second =>
    let (a, b) := area.split axis ratio
    first.rectsAt a ++ second.rectsAt b

/-- The area of every pane. -/
def rects (layout : Layout) : List PaneRect := layout.root.rectsAt .unit

/-- A point, by its coordinate along each axis. -/
abbrev Point := Axis → Rat

namespace Rect

/-- The left or the top edge. -/
def start (area : Rect) : Axis → Rat
  | .horizontal => area.x
  | .vertical => area.y

def size (area : Rect) : Axis → Rat
  | .horizontal => area.width
  | .vertical => area.height

/-- Where the edge on a side is. -/
def edge (area : Rect) (direction : Direction) : Rat :=
  if direction.forward then area.start direction.axis + area.size direction.axis
  else area.start direction.axis

def Positive (area : Rect) : Prop := ∀ axis, 0 < area.size axis

/-- One rectangle lies in another. -/
def In (inner outer : Rect) : Prop :=
  ∀ axis, outer.start axis ≤ inner.start axis ∧
    inner.start axis + inner.size axis ≤ outer.start axis + outer.size axis

/-- A point of the rectangle, its edges with it. -/
def Has (area : Rect) (point : Point) : Prop :=
  ∀ axis, area.start axis ≤ point axis ∧ point axis ≤ area.start axis + area.size axis

/-- A point of the rectangle and of none of its edges. -/
def Inside (area : Rect) (point : Point) : Prop :=
  ∀ axis, area.start axis < point axis ∧ point axis < area.start axis + area.size axis

section

variable {area inner outer : Rect} {axis other : Axis} {ratio : Rat} {direction : Direction}

theorem start_split_fst : (area.split axis ratio).1.start other = area.start other := by
  cases axis <;> cases other <;> rfl

theorem size_split_fst : (area.split axis ratio).1.size other =
    if other = axis then area.size axis * ratio else area.size other := by
  cases axis <;> cases other <;> rfl

theorem start_split_snd : (area.split axis ratio).2.start other =
    if other = axis then area.start axis + area.size axis * ratio else area.start other := by
  cases axis <;> cases other <;> rfl

theorem size_split_snd : (area.split axis ratio).2.size other =
    if other = axis then area.size axis - area.size axis * ratio else area.size other := by
  cases axis <;> cases other <;> rfl

theorem In.refl (area : Rect) : area.In area := fun _ => ⟨le_refl _, le_refl _⟩

theorem In.trans {middle : Rect} (hinner : inner.In middle) (houter : middle.In outer) :
    inner.In outer := fun axis =>
  ⟨(houter axis).1.trans (hinner axis).1, (hinner axis).2.trans (houter axis).2⟩

theorem split_within (hpos : area.Positive) (hratio : 0 < ratio ∧ ratio < 1) :
    ((area.split axis ratio).1.Positive ∧ (area.split axis ratio).1.In area) ∧
      (area.split axis ratio).2.Positive ∧ (area.split axis ratio).2.In area := by
  have hfirst : 0 < area.size axis * ratio := mul_pos (hpos axis) hratio.1
  have hlast : area.size axis * ratio < area.size axis :=
    mul_lt_of_lt_one_right (hpos axis) hratio.2
  refine ⟨⟨fun other => ?_, fun other => ?_⟩, fun other => ?_, fun other => ?_⟩
  · rw [size_split_fst]
    split_ifs
    · exact hfirst
    · exact hpos other
  · rw [start_split_fst, size_split_fst]
    split_ifs with hsame
    · subst hsame
      exact ⟨le_refl _, by linarith⟩
    · exact ⟨le_refl _, le_refl _⟩
  · rw [size_split_snd]
    split_ifs
    · linarith
    · exact hpos other
  · rw [start_split_snd, size_split_snd]
    split_ifs with hsame
    · subst hsame
      exact ⟨by linarith, by linarith⟩
    · exact ⟨le_refl _, le_refl _⟩

/-- The first part keeps the edges that the divider is not. -/
theorem edge_split_fst (h : axis = direction.axis → direction.forward = false) :
    (area.split axis ratio).1.edge direction = area.edge direction := by
  rw [edge, edge, start_split_fst, size_split_fst]
  split_ifs with hforward hsame
  · rw [h hsame.symm] at hforward
    cases hforward
  · rfl
  · rfl

theorem edge_split_snd (h : axis = direction.axis → direction.forward = true) :
    (area.split axis ratio).2.edge direction = area.edge direction := by
  rw [edge, edge, start_split_snd, size_split_snd]
  split_ifs with hforward hsame hsame
  · rw [hsame]
    ring
  · rfl
  · exact absurd (h hsame.symm) hforward
  · rfl

end

end Rect

theorem ratio_bounds {ratio : Rat} (h : minRatio ≤ ratio ∧ ratio ≤ maxRatio) :
    0 < ratio ∧ ratio < 1 := by
  have hmin : (0 : Rat) < minRatio := by
    unfold minRatio
    norm_num
  have hmax : maxRatio < 1 := by
    unfold maxRatio
    norm_num
  exact ⟨hmin.trans_le h.1, h.2.trans_lt hmax⟩

namespace Node

section

variable {node : Node Rat} {area rect : Rect} {pane : PaneId}

theorem map_pane_rectsAt (area : Rect) (node : Node Rat) :
    (node.rectsAt area).map PaneRect.pane = node.panes := by
  induction node generalizing area with
  | pane id => rfl
  | split axis ratio first second hfirst hsecond =>
    rw [rectsAt, panes, map_append, hfirst, hsecond]

theorem mem_panes_of_mem_rectsAt (h : ⟨pane, rect⟩ ∈ node.rectsAt area) : pane ∈ node.panes := by
  rw [← node.map_pane_rectsAt area]
  exact mem_map_of_mem h

theorem rectsAt_within (hratios : node.RatiosWithin) (hpos : area.Positive) :
    ∀ drawn ∈ node.rectsAt area, drawn.rect.Positive ∧ drawn.rect.In area := by
  induction node generalizing area with
  | pane id => exact forall_mem_singleton.mpr ⟨hpos, .refl area⟩
  | split axis ratio first second hfirst hsecond =>
    obtain ⟨hratio, hleft, hright⟩ := hratios
    obtain ⟨⟨hposA, hinA⟩, hposB, hinB⟩ :=
      @Rect.split_within area axis ratio hpos (ratio_bounds hratio)
    intro drawn hdrawn
    rcases mem_append.mp hdrawn with hmem | hmem
    · obtain ⟨hsize, hin⟩ := hfirst hleft hposA drawn hmem
      exact ⟨hsize, hin.trans hinA⟩
    · obtain ⟨hsize, hin⟩ := hsecond hright hposB drawn hmem
      exact ⟨hsize, hin.trans hinB⟩

theorem rectsAt_disjoint (hratios : node.RatiosWithin) (hpos : area.Positive) :
    (node.rectsAt area).Pairwise fun a b =>
      ∀ point, ¬ (a.rect.Inside point ∧ b.rect.Inside point) := by
  induction node generalizing area with
  | pane id => exact pairwise_singleton _ _
  | split axis ratio first second hfirst hsecond =>
    obtain ⟨hratio, hleft, hright⟩ := hratios
    obtain ⟨⟨hposA, -⟩, hposB, -⟩ := @Rect.split_within area axis ratio hpos (ratio_bounds hratio)
    refine pairwise_append.mpr
      ⟨hfirst hleft hposA, hsecond hright hposB, fun a ha b hb point hboth => ?_⟩
    have hend := ((rectsAt_within hleft hposA a ha).2 axis).2
    have hstart := ((rectsAt_within hright hposB b hb).2 axis).1
    rw [Rect.start_split_fst, Rect.size_split_fst, if_pos rfl] at hend
    rw [Rect.start_split_snd, if_pos rfl] at hstart
    have hbefore := (hboth.1 axis).2
    have hafter := (hboth.2 axis).1
    linarith

theorem rectsAt_cover {point : Point} (hhas : area.Has point) :
    ∃ drawn ∈ node.rectsAt area, drawn.rect.Has point := by
  induction node generalizing area with
  | pane id => exact ⟨⟨id, area⟩, mem_singleton_self _, hhas⟩
  | split axis ratio first second hfirst hsecond =>
    by_cases hside : point axis ≤ area.start axis + area.size axis * ratio
    · have hhasA : (area.split axis ratio).1.Has point := by
        intro other
        rw [Rect.start_split_fst, Rect.size_split_fst]
        split_ifs with hsame
        · subst hsame
          exact ⟨(hhas other).1, hside⟩
        · exact hhas other
      obtain ⟨drawn, hmem, hdrawn⟩ := hfirst hhasA
      exact ⟨drawn, mem_append_left _ hmem, hdrawn⟩
    · have hhasB : (area.split axis ratio).2.Has point := by
        intro other
        rw [Rect.start_split_snd, Rect.size_split_snd]
        split_ifs with hsame
        · subst hsame
          have hend := (hhas other).2
          exact ⟨by linarith, by linarith⟩
        · exact hhas other
      obtain ⟨drawn, hmem, hdrawn⟩ := hsecond hhasB
      exact ⟨drawn, mem_append_right _ hmem, hdrawn⟩

end

end Node

end Layout

end Opensesh
