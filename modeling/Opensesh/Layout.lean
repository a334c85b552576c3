/-
The split tree of a tab: a binary tree whose leaves are panes, with the
operations that split, close, resize and exchange them.  Ratios are rationals;
one read from outside need not be finite.
-/
import Mathlib.Data.Rat.Defs
import Mathlib.Algebra.Order.Ring.Rat
import Mathlib.Data.List.Sort
import Mathlib.Data.List.Destutter

namespace Opensesh

namespace Layout

/-- A pane's id: its terminal session's id in the app. -/
abbrev PaneId := Int

/-- How a split divides its area. -/
inductive Axis where
  | horizontal
  | vertical
deriving DecidableEq

inductive Direction where
  | left
  | right
  | up
  | down

def Direction.axis : Direction → Axis
  | .left | .right => .horizontal
  | .up | .down => .vertical

/-- Whether it moves toward 1 (right or down). -/
def Direction.forward : Direction → Bool
  | .right | .down => true
  | .left | .up => false

/-- A node of the tree, with ratios in `R`. -/
inductive Node (R : Type) where
  | pane (pane : PaneId)
  | split (axis : Axis) (ratio : R) (first second : Node R)
deriving DecidableEq

/-- A rectangle in the unit square. -/
structure Rect where
  x : Rat
  y : Rat
  width : Rat
  height : Rat

def Rect.unit : Rect := ⟨0, 0, 1, 1⟩

def Rect.split (area : Rect) (axis : Axis) (ratio : Rat) : Rect × Rect :=
  match axis with
  | .horizontal =>
    let first := area.width * ratio
    ({ area with width := first }, { area with x := area.x + first, width := area.width - first })
  | .vertical =>
    let first := area.height * ratio
    ({ area with height := first },
      { area with y := area.y + first, height := area.height - first })

/-- A divider between the two children of a split. -/
structure Divider where
  /-- The split, as the path from the root: `false` for first. -/
  path : List Bool
  axis : Axis
  area : Rect
  ratio : Rat

def minRatio : Rat := 5 / 100

def maxRatio : Rat := 95 / 100

/-- `clamp_ratio`; a number that is not finite is none. -/
def clampRatio : Option Rat → Rat
  | some ratio => max minRatio (min maxRatio ratio)
  | none => 1 / 2

namespace Node

/-- Every pane, in reading order. -/
def panes {R : Type} : Node R → List PaneId
  | .pane id => [id]
  | .split _ _ first second => first.panes ++ second.panes

/-- `fix`: the tree with its ratios clamped. -/
def fix : Node (Option Rat) → Node Rat
  | .pane id => .pane id
  | .split axis ratio first second =>
    .split axis (clampRatio ratio) first.fix second.fix

def firstPane : Node Rat → PaneId
  | .pane id => id
  | .split _ _ first _ => first.firstPane

def lastPane : Node Rat → PaneId
  | .pane id => id
  | .split _ _ _ second => second.lastPane

/-- `walk` of `split`: whether the target was found, and the tree after it. -/
def splitAt (target : PaneId) (axis : Axis) (new : PaneId) (after : Bool) :
    Node Rat → Node Rat × Bool
  | .pane id =>
    if id = target then
      let old := .pane target
      let added := .pane new
      if after then (.split axis (1 / 2) old added, true)
      else (.split axis (1 / 2) added old, true)
    else (.pane id, false)
  | .split along ratio first second =>
    match first.splitAt target axis new after with
    | (first', true) => (.split along ratio first' second, true)
    | (_, false) =>
      let (second', found) := second.splitAt target axis new after
      (.split along ratio first second', found)

/-- `walk` of `close`: the tree without the target, and the pane next to it. -/
def closeAt (target : PaneId) : Node Rat → Option (Node Rat × PaneId)
  | .pane _ => none
  | .split axis ratio first second =>
    if first = .pane target then some (second, second.firstPane)
    else if second = .pane target then some (first, first.lastPane)
    else
      match first.closeAt target with
      | some (first', focus) => some (.split axis ratio first' second, focus)
      | none =>
        (second.closeAt target).map fun (second', focus) => (.split axis ratio first second', focus)

/-- Every divider below `path`, outermost first. -/
def dividersAt (area : Rect) (path : List Bool) : Node Rat → List Divider
  | .pane _ => []
  | .split axis ratio first second =>
    let (a, b) := area.split axis ratio
    ⟨path, axis, area, ratio⟩ :: first.dividersAt a (path ++ [false]) ++
      second.dividersAt b (path ++ [true])

/-- The tree with the ratio at `path` set; none for a path that leads to no
split. -/
def setRatioAt (value : Rat) : List Bool → Node Rat → Option (Node Rat)
  | _, .pane _ => none
  | [], .split axis _ first second => some (.split axis value first second)
  | false :: path, .split axis ratio first second =>
    (first.setRatioAt value path).map fun first' => .split axis ratio first' second
  | true :: path, .split axis ratio first second =>
    (second.setRatioAt value path).map fun second' => .split axis ratio first second'

/-- `find` of `resize`: whether the pane is here, and the innermost split along
the direction's axis that has it on the side that can grow. -/
def findDivider (pane : PaneId) (direction : Direction) (area : Rect)
    (path : List Bool) (best : Option (List Bool × Rect)) :
    Node Rat → Bool × Option (List Bool × Rect)
  | .pane id => (id = pane, best)
  | .split axis ratio first second =>
    let (a, b) := area.split axis ratio
    match first.findDivider pane direction a (path ++ [false]) best with
    | (true, best) =>
      (true, if axis = direction.axis ∧ direction.forward ∧ best = none then
        some (path, area) else best)
    | (false, best) =>
      let (found, best) := second.findDivider pane direction b (path ++ [true]) best
      (found, if found ∧ axis = direction.axis ∧ ¬ direction.forward ∧
        best = none then some (path, area) else best)

/-- `walk` of `swap`. -/
def swapPanes (a b : PaneId) : Node Rat → Node Rat
  | .pane id => .pane (if id = a then b else if id = b then a else id)
  | .split axis ratio first second =>
    .split axis ratio (first.swapPanes a b) (second.swapPanes a b)

/-- `walk` of `equalize`. -/
def evenly : Node Rat → Node Rat
  | .pane id => .pane id
  | .split axis _ first second => .split axis (1 / 2) first.evenly second.evenly

example : ((Node.split .vertical 0 (.pane 1) (.pane 2)).swapPanes 1 2).panes = [2, 1] := by
  simp [swapPanes, panes]

example : (((.pane 1 : Node Rat).splitAt 1 .vertical 2 true).1.closeAt 2) = some (.pane 1, 1) := by
  simp [splitAt, closeAt, lastPane]

end Node

end Layout

/-- The split tree of one tab. -/
structure Layout where
  root : Layout.Node Rat

namespace Layout

/-- One pane filling the tab. -/
def single (pane : PaneId) : Layout := ⟨.pane pane⟩

def panes (layout : Layout) : List PaneId := layout.root.panes

/-- A layout from a tree read from a file: ratios are clamped. -/
def fromNode (root : Node (Option Rat)) : Except String Layout :=
  let layout : Layout := ⟨root.fix⟩
  let panes := layout.panes
  if ((panes.insertionSort (· ≤ ·)).destutter (· ≠ ·)).length ≠ panes.length then
    .error "a pane appears twice in the layout"
  else .ok layout

def contains (layout : Layout) (pane : PaneId) : Bool := pane ∈ layout.panes

/-- Splits `target`: `new` goes after it when `after`, else before. -/
def split (layout : Layout) (target : PaneId) (axis : Axis) (new : PaneId)
    (after : Bool) : Layout × Bool :=
  if layout.contains new then (layout, false)
  else
    let (root, found) := layout.root.splitAt target axis new after
    (⟨root⟩, found)

/-- Removes `target`; its sibling takes the parent split's place. -/
def close (layout : Layout) (target : PaneId) : Layout × Option PaneId :=
  match layout.root.closeAt target with
  | some (root, focus) => (⟨root⟩, some focus)
  | none => (layout, none)

def dividers (layout : Layout) : List Divider := layout.root.dividersAt .unit []

/-- Sets the ratio of the split at `path` (clamped). -/
def setRatio (layout : Layout) (path : List Bool) (value : Option Rat) : Layout × Bool :=
  match layout.root.setRatioAt (clampRatio value) path with
  | some root => (⟨root⟩, true)
  | none => (layout, false)

/-- Moves the divider on `pane`'s `direction` side by `step` of the whole
area. -/
def resize (layout : Layout) (pane : PaneId) (direction : Direction)
    (step : Option Rat) : Layout × Bool :=
  match layout.root.findDivider pane direction .unit [] none with
  | (true, some (path, area)) =>
    let size := match direction.axis with
      | .horizontal => area.width
      | .vertical => area.height
    if size ≤ 0 then (layout, false)
    else
      let delta := step.map fun step => step / size * if direction.forward then 1 else -1
      let current := ((layout.dividers.find? fun divider =>
        divider.path = path).map Divider.ratio).getD (1 / 2)
      layout.setRatio path (delta.map (current + ·))
  | _ => (layout, false)

/-- Exchanges two panes' places. -/
def swap (layout : Layout) (a b : PaneId) : Layout × Bool :=
  if a = b ∨ !layout.contains a ∨ !layout.contains b then (layout, false)
  else (⟨layout.root.swapPanes a b⟩, true)

/-- Gives every split an even share. -/
def equalize (layout : Layout) : Layout := ⟨layout.root.evenly⟩

end Layout

end Opensesh
