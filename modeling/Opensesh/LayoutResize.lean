/-
Moving a divider: the divider that `resize` finds is at the pane's edge, and moving it moves that
edge and leaves the panes outside of its split where they are.
-/
import Opensesh.LayoutGeometry
import Mathlib.Tactic.FieldSimp
import Mathlib.Tactic.Ring

namespace Opensesh

open List Option

namespace Layout

namespace Node

/-- The part of the tree at a path. -/
def partAt : List Bool → Node Rat → Option (Node Rat)
  | [], node => some node
  | _ :: _, .pane _ => none
  | false :: path, .split _ _ first _ => first.partAt path
  | true :: path, .split _ _ _ second => second.partAt path

/-- The area of the part at a path. -/
def areaAt (area : Rect) : List Bool → Node Rat → Rect
  | [], _ => area
  | _ :: _, .pane _ => area
  | false :: path, .split axis ratio first _ => first.areaAt (area.split axis ratio).1 path
  | true :: path, .split axis ratio _ second => second.areaAt (area.split axis ratio).2 path

/-- The child of a split that its divider makes larger when it moves that way. -/
def growing (direction : Direction) (first second : Node Rat) : Node Rat :=
  if direction.forward then first else second

/-- The pane is at the edge of the whole tree on that side, whatever the area. -/
def Borders (direction : Direction) (pane : PaneId) (node : Node Rat) : Prop :=
  ∀ area rect, ⟨pane, rect⟩ ∈ node.rectsAt area → rect.edge direction = area.edge direction

section

variable {node part first second : Node Rat} {area rect : Rect} {pane : PaneId}
  {direction : Direction} {axis : Axis} {ratio value : Rat} {path : List Bool}

theorem panes_sublist_of_partAt (h : node.partAt path = some part) :
    part.panes.Sublist node.panes := by
  induction path generalizing node with
  | nil =>
    obtain rfl := some.inj h
    exact .refl _
  | cons turn path ih =>
    cases node with
    | pane id => cases h
    | split axis ratio first second =>
      cases turn with
      | false => exact (ih h).trans (sublist_append_left _ _)
      | true => exact (ih h).trans (sublist_append_right _ _)

theorem ratiosWithin_of_partAt (hratios : node.RatiosWithin) (h : node.partAt path = some part) :
    part.RatiosWithin := by
  induction path generalizing node with
  | nil =>
    obtain rfl := some.inj h
    exact hratios
  | cons turn path ih =>
    cases node with
    | pane id => cases h
    | split axis ratio first second =>
      cases turn with
      | false => exact ih hratios.2.1 h
      | true => exact ih hratios.2.2 h

theorem mem_rectsAt_part (hnodup : node.panes.Nodup) (h : node.partAt path = some part)
    (hmem : pane ∈ part.panes) :
    ⟨pane, rect⟩ ∈ node.rectsAt area ↔ ⟨pane, rect⟩ ∈ part.rectsAt (node.areaAt area path) := by
  induction path generalizing node area with
  | nil =>
    obtain rfl := some.inj h
    rfl
  | cons turn path ih =>
    cases node with
    | pane id => cases h
    | split axis ratio first second =>
      obtain ⟨hfirst, hsecond, hdisjoint⟩ := nodup_append'.mp hnodup
      cases turn with
      | false =>
        have hpart : first.partAt path = some part := h
        have hin := (panes_sublist_of_partAt hpart).subset hmem
        rw [areaAt, ← ih hfirst h, rectsAt, mem_append]
        exact or_iff_left fun hother => hdisjoint hin (mem_panes_of_mem_rectsAt hother)
      | true =>
        have hpart : second.partAt path = some part := h
        have hin := (panes_sublist_of_partAt hpart).subset hmem
        rw [areaAt, ← ih hsecond h, rectsAt, mem_append]
        exact or_iff_right fun hother => hdisjoint (mem_panes_of_mem_rectsAt hother) hin

theorem areaAt_within (hratios : node.RatiosWithin) (hpos : area.Positive)
    (h : node.partAt path = some part) :
    (node.areaAt area path).Positive ∧ (node.areaAt area path).In area := by
  induction path generalizing node area with
  | nil => exact ⟨hpos, .refl area⟩
  | cons turn path ih =>
    cases node with
    | pane id => cases h
    | split axis ratio first second =>
      obtain ⟨hratio, hleft, hright⟩ := hratios
      obtain ⟨⟨hposA, hinA⟩, hposB, hinB⟩ :=
        @Rect.split_within area axis ratio hpos (ratio_bounds hratio)
      cases turn with
      | false =>
        obtain ⟨hsize, hin⟩ := ih hleft hposA h
        exact ⟨hsize, hin.trans hinA⟩
      | true =>
        obtain ⟨hsize, hin⟩ := ih hright hposB h
        exact ⟨hsize, hin.trans hinB⟩

theorem setRatioAt_partAt (h : node.partAt path = some (.split axis ratio first second))
    (value : Rat) :
    ∃ node', node.setRatioAt value path = some node' ∧
      node'.partAt path = some (.split axis value first second) ∧
      (∀ area, node'.areaAt area path = node.areaAt area path) ∧
      ∀ area other rect, other ∉ first.panes ++ second.panes →
        (⟨other, rect⟩ ∈ node'.rectsAt area ↔ ⟨other, rect⟩ ∈ node.rectsAt area) := by
  induction path generalizing node with
  | nil =>
    obtain rfl := some.inj h
    refine ⟨_, rfl, rfl, fun _ => rfl, fun area other rect hother => ?_⟩
    exact iff_of_false (fun hmem => hother (mem_panes_of_mem_rectsAt hmem))
      fun hmem => hother (mem_panes_of_mem_rectsAt hmem)
  | cons turn path ih =>
    cases node with
    | pane id => cases h
    | split along share left right =>
      cases turn with
      | false =>
        obtain ⟨left', hset, hpart, harea, hkeep⟩ := ih h
        refine ⟨.split along share left' right, ?_, hpart, fun area => harea _,
          fun area other rect hother => ?_⟩
        · rw [setRatioAt, hset]
          rfl
        · rw [rectsAt, rectsAt, mem_append, mem_append, hkeep _ _ _ hother]
      | true =>
        obtain ⟨right', hset, hpart, harea, hkeep⟩ := ih h
        refine ⟨.split along share left right', ?_, hpart, fun area => harea _,
          fun area other rect hother => ?_⟩
        · rw [setRatioAt, hset]
          rfl
        · rw [rectsAt, rectsAt, mem_append, mem_append, hkeep _ _ _ hother]

theorem dividersAt_split (start : List Bool) :
    (split axis ratio first second).dividersAt area start =
      ⟨start, axis, area, ratio⟩ ::
        (first.dividersAt (area.split axis ratio).1 (start ++ [false]) ++
          second.dividersAt (area.split axis ratio).2 (start ++ [true])) := rfl

theorem path_of_mem_dividersAt {start : List Bool} {divider : Divider}
    (h : divider ∈ node.dividersAt area start) : start <+: divider.path := by
  induction node generalizing area start with
  | pane id => cases h
  | split axis ratio first second hfirst hsecond =>
    rcases mem_append.mp h with hhead | hmem
    · rcases mem_cons.mp hhead with rfl | hmem
      · exact prefix_refl start
      · exact (prefix_append start [false]).trans (hfirst hmem)
    · exact (prefix_append start [true]).trans (hsecond hmem)

theorem find?_dividersAt {start : List Bool}
    (h : node.partAt path = some (.split axis ratio first second)) :
    (node.dividersAt area start).find? (fun divider => divider.path = start ++ path) =
      some ⟨start ++ path, axis, node.areaAt area path, ratio⟩ := by
  induction path generalizing node area start with
  | nil =>
    obtain rfl := some.inj h
    rw [dividersAt_split, List.find?_cons_of_pos (by simp)]
    simp [areaAt]
  | cons turn path ih =>
    cases node with
    | pane id => cases h
    | split along share left right =>
      rw [dividersAt_split, List.find?_cons_of_neg (by simp), List.find?_append]
      cases turn with
      | false =>
        have hleft := @ih left (area.split along share).1 (start ++ [false]) h
        rw [List.append_assoc, singleton_append] at hleft
        rw [hleft, some_or]
        rfl
      | true =>
        have hnone : (left.dividersAt (area.split along share).1 (start ++ [false])).find?
            (fun divider => divider.path = start ++ true :: path) = none := by
          rw [List.find?_eq_none]
          intro divider hmem hpath
          have hin := path_of_mem_dividersAt hmem
          rw [of_decide_eq_true hpath, prefix_append_right_inj] at hin
          obtain ⟨rest, hrest⟩ := hin
          cases hrest
        have hright := @ih right (area.split along share).2 (start ++ [true]) h
        rw [List.append_assoc, singleton_append] at hright
        rw [hnone, none_or, hright]
        rfl

theorem findDivider_of_not_mem {start : List Bool} {best : Option (List Bool × Rect)}
    (h : pane ∉ node.panes) :
    node.findDivider pane direction area start best = (false, best) := by
  induction node generalizing area start with
  | pane id =>
    have hne : id ≠ pane := fun heq => h (mem_singleton.mpr heq.symm)
    rw [findDivider, decide_eq_false hne]
  | split axis ratio first second hfirst hsecond =>
    rw [panes, mem_append, not_or] at h
    simp only [findDivider, hfirst h.1, hsecond h.2, Bool.false_eq_true, false_and, if_false]

theorem Borders.of_first (h : first.Borders direction pane) (hnot : pane ∉ second.panes)
    (hside : axis = direction.axis → direction.forward = false) :
    (split axis ratio first second).Borders direction pane := by
  intro area rect hmem
  rcases mem_append.mp hmem with hleft | hright
  · rw [h (area.split axis ratio).1 rect hleft, Rect.edge_split_fst hside]
  · exact absurd (mem_panes_of_mem_rectsAt hright) hnot

theorem Borders.of_second (h : second.Borders direction pane) (hnot : pane ∉ first.panes)
    (hside : axis = direction.axis → direction.forward = true) :
    (split axis ratio first second).Borders direction pane := by
  intro area rect hmem
  rcases mem_append.mp hmem with hleft | hright
  · exact absurd (mem_panes_of_mem_rectsAt hleft) hnot
  · rw [h (area.split axis ratio).2 rect hright, Rect.edge_split_snd hside]

/-- A split whose divider is at the pane's edge on that side. -/
structure Divides (direction : Direction) (pane : PaneId) (node : Node Rat) (path : List Bool)
    (ratio : Rat) (first second : Node Rat) : Prop where
  part : node.partAt path = some (.split direction.axis ratio first second)
  mem : pane ∈ (growing direction first second).panes
  borders : (growing direction first second).Borders direction pane

/-- What `find` leaves for a pane of the tree: no divider when the pane is at the edge of the
tree, else one at the pane's edge. -/
def Found (direction : Direction) (pane : PaneId) (area : Rect) (start : List Bool)
    (node : Node Rat) : Option (List Bool × Rect) → Prop
  | none => node.Borders direction pane
  | some (found, divided) => ∃ path ratio first second, found = start ++ path ∧
      divided = node.areaAt area path ∧ Divides direction pane node path ratio first second

theorem findDivider_found {start : List Bool} (hnodup : node.panes.Nodup)
    (hmem : pane ∈ node.panes) :
    ∃ best, node.findDivider pane direction area start none = (true, best) ∧
      Found direction pane area start node best := by
  induction node generalizing area start with
  | pane id =>
    obtain rfl := mem_singleton.mp hmem
    refine ⟨none, by rw [findDivider, decide_eq_true rfl], fun area rect hrect => ?_⟩
    rw [(PaneRect.mk.inj (mem_singleton.mp hrect)).2]
  | split axis ratio first second hfirst hsecond =>
    obtain ⟨hnodupA, hnodupB, hdisjoint⟩ := nodup_append'.mp hnodup
    by_cases hin : pane ∈ first.panes
    · obtain ⟨best, hfind, hfound⟩ :=
        @hfirst (area.split axis ratio).1 (start ++ [false]) hnodupA hin
      simp only [findDivider, hfind]
      cases best with
      | none =>
        by_cases hhere : axis = direction.axis ∧ direction.forward = true
        · obtain ⟨rfl, hforward⟩ := hhere
          refine ⟨some (start, area), by simp [hforward], [], ratio, first, second,
            (List.append_nil start).symm, rfl, ⟨rfl, ?_, ?_⟩⟩
          · rwa [growing, if_pos hforward]
          · rw [growing, if_pos hforward]
            exact hfound
        · have hnot : ¬ (axis = direction.axis ∧ direction.forward = true ∧
              (none : Option (List Bool × Rect)) = none) := fun h => hhere ⟨h.1, h.2.1⟩
          refine ⟨none, by rw [if_neg hnot], ?_⟩
          exact Borders.of_first hfound (fun hother => hdisjoint hin hother)
            fun haxis => Bool.eq_false_of_not_eq_true fun hforward => hhere ⟨haxis, hforward⟩
      | some found =>
        obtain ⟨path, share, left, right, hpath, harea, hdivides⟩ := hfound
        refine ⟨some found, by simp, false :: path, share, left, right, ?_, harea,
          hdivides.part, hdivides.mem, hdivides.borders⟩
        rw [hpath, List.append_assoc, singleton_append]
    · have hother : pane ∈ second.panes := (mem_append.mp hmem).resolve_left hin
      obtain ⟨best, hfind, hfound⟩ :=
        @hsecond (area.split axis ratio).2 (start ++ [true]) hnodupB hother
      simp only [findDivider, findDivider_of_not_mem hin, hfind]
      cases best with
      | none =>
        by_cases hhere : axis = direction.axis ∧ direction.forward = false
        · obtain ⟨rfl, hbackward⟩ := hhere
          have hnot : ¬ direction.forward = true := by simp [hbackward]
          refine ⟨some (start, area), by simp [hbackward], [], ratio, first, second,
            (List.append_nil start).symm, rfl, ⟨rfl, ?_, ?_⟩⟩
          · rwa [growing, if_neg hnot]
          · rw [growing, if_neg hnot]
            exact hfound
        · have hnot : ¬ (True ∧ axis = direction.axis ∧ ¬ direction.forward = true ∧
              (none : Option (List Bool × Rect)) = none) := fun h =>
            hhere ⟨h.2.1, Bool.eq_false_of_not_eq_true h.2.2.1⟩
          refine ⟨none, by rw [if_neg hnot], ?_⟩
          exact Borders.of_second hfound hin
            fun haxis => Bool.eq_true_of_not_eq_false fun hbackward => hhere ⟨haxis, hbackward⟩
      | some found =>
        obtain ⟨path, share, left, right, hpath, harea, hdivides⟩ := hfound
        refine ⟨some found, by simp, true :: path, share, left, right, ?_, harea,
          hdivides.part, hdivides.mem, hdivides.borders⟩
        rw [hpath, List.append_assoc, singleton_append]

theorem Divides.edge (h : Divides direction pane node path ratio first second)
    (hnodup : node.panes.Nodup) (hrect : ⟨pane, rect⟩ ∈ node.rectsAt area) :
    rect.edge direction = (node.areaAt area path).start direction.axis +
      (node.areaAt area path).size direction.axis * ratio := by
  have hnodupPart := (panes_sublist_of_partAt h.part).nodup hnodup
  obtain ⟨-, -, hdisjoint⟩ := nodup_append'.mp hnodupPart
  have hgrows := h.mem
  have hborders := h.borders
  rw [growing] at hgrows hborders
  split_ifs at hgrows hborders with hforward
  · have hpart := (mem_rectsAt_part hnodup h.part (mem_append_left _ hgrows)).mp hrect
    rcases mem_append.mp hpart with hleft | hright
    · rw [hborders (Rect.split _ _ _).1 rect hleft, Rect.edge, if_pos hforward, Rect.start_split_fst,
        Rect.size_split_fst, if_pos rfl]
    · exact absurd (mem_panes_of_mem_rectsAt hright) (hdisjoint hgrows)
  · have hpart := (mem_rectsAt_part hnodup h.part (mem_append_right _ hgrows)).mp hrect
    rcases mem_append.mp hpart with hleft | hright
    · exact absurd hgrows (hdisjoint (mem_panes_of_mem_rectsAt hleft))
    · rw [hborders (Rect.split _ _ _).2 rect hright, Rect.edge, if_neg hforward,
        Rect.start_split_snd, if_pos rfl]

/-- A divider is not at the border of the tree. -/
theorem Divides.edge_ne (h : Divides direction pane node path ratio first second)
    (hnodup : node.panes.Nodup) (hratios : node.RatiosWithin) (hpos : area.Positive)
    (hrect : ⟨pane, rect⟩ ∈ node.rectsAt area) : rect.edge direction ≠ area.edge direction := by
  obtain ⟨hsize, hin⟩ := areaAt_within hratios hpos h.part
  obtain ⟨hratio, -⟩ := ratiosWithin_of_partAt hratios h.part
  obtain ⟨hzero, hone⟩ := ratio_bounds hratio
  have hbefore := mul_pos (hsize direction.axis) hzero
  have hafter := mul_lt_of_lt_one_right (hsize direction.axis) hone
  obtain ⟨hstart, hend⟩ := hin direction.axis
  rw [h.edge hnodup hrect, Rect.edge]
  split_ifs
  · linarith
  · linarith

theorem Divides.moved {node' : Node Rat} {rect' : Rect}
    (h : Divides direction pane node path ratio first second) (hnodup : node.panes.Nodup)
    (hset : node.setRatioAt value path = some node') (hrect : ⟨pane, rect⟩ ∈ node.rectsAt area)
    (hrect' : ⟨pane, rect'⟩ ∈ node'.rectsAt area) :
    rect'.edge direction =
      rect.edge direction + (node.areaAt area path).size direction.axis * (value - ratio) := by
  obtain ⟨other, hother, hpart, harea, -⟩ := setRatioAt_partAt h.part value
  obtain rfl := some.inj (hset.symm.trans hother)
  have hdivides : Divides direction pane node' path value first second := ⟨hpart, h.mem, h.borders⟩
  have hnodup' : node'.panes.Nodup := by rwa [(setRatioAt_some hset).1]
  rw [hdivides.edge hnodup' hrect', h.edge hnodup hrect, harea]
  ring

end

end Node

/-- The ratio that moves a divider by a part of the whole area. -/
def Divider.aim (divider : Divider) (direction : Direction) (step : Rat) : Rat :=
  divider.ratio + step / divider.area.size direction.axis * if direction.forward then 1 else -1

/-- `step` toward the direction. -/
def Direction.toward (direction : Direction) (step : Rat) : Rat :=
  if direction.forward then step else -step

/-- A divider at the pane's edge was moved: it stands where the step puts it, but within the
bounds; the panes outside of its split are drawn where they were, and a step within the bounds
moves the pane's edge by as much. -/
structure Moved (layout next : Layout) (pane : PaneId) (direction : Direction)
    (step : Option Rat) (divider : Divider) : Prop where
  mem : divider ∈ layout.dividers
  axis : divider.axis = direction.axis
  line : ∀ rect, ⟨pane, rect⟩ ∈ layout.rects → rect.edge direction =
    divider.area.start direction.axis + divider.area.size direction.axis * divider.ratio
  split : ∃ first second,
    layout.root.partAt divider.path = some (.split direction.axis divider.ratio first second) ∧
      pane ∈ (Node.growing direction first second).panes ∧
      next.root.partAt divider.path = some (.split direction.axis
        (clampRatio (step.map (divider.aim direction))) first second) ∧
      ∀ other rect, other ∉ first.panes ++ second.panes →
        (⟨other, rect⟩ ∈ next.rects ↔ ⟨other, rect⟩ ∈ layout.rects)
  edge : ∀ amount, step = some amount →
    minRatio ≤ divider.aim direction amount ∧ divider.aim direction amount ≤ maxRatio →
    ∀ rect rect', ⟨pane, rect⟩ ∈ layout.rects → ⟨pane, rect'⟩ ∈ next.rects →
      rect'.edge direction = rect.edge direction + direction.toward amount

section

variable {layout : Layout} {pane : PaneId} {direction : Direction}

theorem unit_positive : Rect.unit.Positive := by
  intro axis
  cases axis <;> exact zero_lt_one

/-- The divider of a split that was found. -/
def dividerAt (layout : Layout) (direction : Direction) (path : List Bool) (ratio : Rat) :
    Divider :=
  ⟨path, direction.axis, layout.root.areaAt .unit path, ratio⟩

theorem resize_of_findDivider {path : List Bool} {area : Rect}
    (h : layout.root.findDivider pane direction .unit [] none = (true, some (path, area)))
    (step : Option Rat) :
    layout.resize pane direction step =
      if area.size direction.axis ≤ 0 then (layout, false)
      else layout.setRatio path ((step.map fun step =>
          step / area.size direction.axis * if direction.forward then 1 else -1).map
        (((layout.dividers.find? fun divider => divider.path = path).map
          Divider.ratio).getD (1 / 2) + ·)) := by
  rw [resize, h]
  cases direction <;> rfl

theorem resize_cases (h : layout.Valid) (hmem : pane ∈ layout.panes) (step : Option Rat) :
    (layout.root.Borders direction pane ∧ layout.resize pane direction step = (layout, false)) ∨
      ∃ path ratio first second,
        layout.root.Divides direction pane path ratio first second ∧
        layout.resize pane direction step = layout.setRatio path
          (step.map ((layout.dividerAt direction path ratio).aim direction)) := by
  obtain ⟨best, hfind, hfound⟩ :=
    @Node.findDivider_found layout.root .unit pane direction [] h.nodup hmem
  cases best with
  | none =>
    refine .inl ⟨hfound, ?_⟩
    rw [resize, hfind]
  | some found =>
    obtain ⟨path, ratio, first, second, hpath, harea, hdivides⟩ := hfound
    rw [List.nil_append] at hpath
    refine .inr ⟨path, ratio, first, second, hdivides, ?_⟩
    have hpos := (Node.areaAt_within h.ratios unit_positive hdivides.part).1 direction.axis
    have hcurrent : ((layout.dividers.find? fun divider => divider.path = path).map
        Divider.ratio).getD (1 / 2) = ratio := by
      rw [dividers, ← List.nil_append path, Node.find?_dividersAt hdivides.part]
      rfl
    obtain ⟨place, divided⟩ := found
    obtain rfl : place = path := hpath
    obtain rfl : divided = layout.root.areaAt .unit place := harea
    rw [resize_of_findDivider hfind, if_neg (not_le.mpr hpos), hcurrent, Option.map_map]
    rfl

theorem moved_of_divides (h : layout.Valid) {path : List Bool} {ratio : Rat}
    {first second : Node Rat} (hdivides : layout.root.Divides direction pane path ratio first second)
    (step : Option Rat) :
    ∃ next, layout.setRatio path
        (step.map ((layout.dividerAt direction path ratio).aim direction)) = (next, true) ∧
      Moved layout next pane direction step (layout.dividerAt direction path ratio) := by
  obtain ⟨root, hset, hpart, -, hkeep⟩ := Node.setRatioAt_partAt hdivides.part
    (clampRatio (step.map ((layout.dividerAt direction path ratio).aim direction)))
  refine ⟨⟨root⟩, by rw [setRatio, hset], ?_, rfl,
    fun rect hrect => hdivides.edge h.nodup hrect,
    ⟨first, second, hdivides.part, hdivides.mem, hpart, hkeep .unit⟩, ?_⟩
  · have hfind := @Node.find?_dividersAt _ _ _ .unit _ _ _ [] hdivides.part
    exact mem_of_find?_eq_some hfind
  · rintro amount rfl hbounds rect rect' hrect hrect'
    have hpos := (Node.areaAt_within h.ratios unit_positive hdivides.part).1 direction.axis
    have hclamp : clampRatio (some ((layout.dividerAt direction path ratio).aim direction amount)) =
        (layout.dividerAt direction path ratio).aim direction amount := by
      rw [clampRatio, min_eq_right hbounds.2, max_eq_right hbounds.1]
    rw [map_some, hclamp] at hset
    rw [hdivides.moved h.nodup hset hrect hrect', Divider.aim, Direction.toward]
    change _ + (layout.root.areaAt .unit path).size direction.axis *
      (ratio + amount / (layout.root.areaAt .unit path).size direction.axis *
        (if direction.forward then 1 else -1) - ratio) = _
    split_ifs
    · field_simp
      ring
    · field_simp
      ring

theorem resize_of_not_mem (h : pane ∉ layout.panes) (step : Option Rat) :
    layout.resize pane direction step = (layout, false) := by
  rw [resize, Node.findDivider_of_not_mem h]

/-- The rectangles of a valid layout cut the unit square up; `resize` moves the divider at the
pane's edge, unless that edge is on the border of the square. -/
theorem layout_geometry (h : layout.Valid) :
    (∀ drawn ∈ layout.rects, drawn.rect.Positive ∧ drawn.rect.In .unit) ∧
    (layout.rects.Pairwise fun a b => ∀ point, ¬ (a.rect.Inside point ∧ b.rect.Inside point)) ∧
    (∀ point, Rect.unit.Has point → ∃ drawn ∈ layout.rects, drawn.rect.Has point) ∧
    layout.rects.map PaneRect.pane = layout.panes ∧
    ∀ pane direction step,
      ((layout.resize pane direction step).2 = true ↔ pane ∈ layout.panes ∧
        ∀ rect, ⟨pane, rect⟩ ∈ layout.rects → rect.edge direction ≠ Rect.unit.edge direction) ∧
      ((layout.resize pane direction step).2 = true → ∃ divider,
        Moved layout (layout.resize pane direction step).1 pane direction step divider) := by
  refine ⟨Node.rectsAt_within h.ratios unit_positive, Node.rectsAt_disjoint h.ratios unit_positive,
    fun point hpoint => Node.rectsAt_cover hpoint, layout.root.map_pane_rectsAt .unit,
    fun pane direction step => ?_⟩
  by_cases hmem : pane ∈ layout.panes
  · rcases @resize_cases layout pane direction h hmem step with
      ⟨hborders, hresize⟩ | ⟨path, ratio, first, second, hdivides, hresize⟩
    · rw [hresize]
      refine ⟨iff_of_false Bool.false_ne_true ?_, nofun⟩
      rintro ⟨-, hedges⟩
      rw [panes, ← layout.root.map_pane_rectsAt .unit] at hmem
      obtain ⟨drawn, hdrawn, rfl⟩ := List.mem_map.mp hmem
      exact hedges drawn.rect hdrawn (hborders .unit drawn.rect hdrawn)
    · obtain ⟨next, hset, hmoved⟩ := moved_of_divides h hdivides step
      rw [hresize, hset]
      refine ⟨iff_of_true rfl ⟨hmem, fun rect hrect => ?_⟩, fun _ => ⟨_, hmoved⟩⟩
      exact hdivides.edge_ne h.nodup h.ratios unit_positive hrect
  · rw [resize_of_not_mem hmem]
    exact ⟨iff_of_false Bool.false_ne_true fun hboth => hmem hboth.1, nofun⟩

end

namespace GeometryWitness

/-- Two panes side by side, the right one split again. -/
def sample : Layout :=
  ⟨.split .horizontal (1 / 2) (.pane 1) (.split .vertical (1 / 4) (.pane 2) (.pane 3))⟩

theorem sample_valid : sample.Valid := by
  refine .intro (by decide) ⟨half_within, trivial, ⟨?_, ?_⟩, trivial, trivial⟩
  · norm_num [minRatio]
  · norm_num [maxRatio]

theorem sample_geometry : (sample.resize 3 .left (some (1 / 10))).2 = true := by
  have hedges : ∀ drawn ∈ sample.rects, drawn.pane = 3 →
      drawn.rect.edge .left ≠ Rect.unit.edge .left := by decide +kernel
  exact ((layout_geometry sample_valid).2.2.2.2 3 .left (some (1 / 10))).1.mpr
    ⟨by decide, fun rect hrect => hedges ⟨3, rect⟩ hrect rfl⟩

end GeometryWitness

end Layout

end Opensesh
