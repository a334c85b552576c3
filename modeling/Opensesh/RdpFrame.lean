/-
The remote screen and the rectangles changed since the window last took them: over any run,
what changed lies in them, and there are never more than the limit.
-/
import Opensesh.VncCanvas

namespace Opensesh.Rdp

open List Option

/-- A rectangle, in pixels. -/
structure Rect where
  x : UInt16
  y : UInt16
  width : UInt16
  height : UInt16

namespace Rect

def right (rect : Rect) : Nat := rect.x.toNat + rect.width.toNat

def bottom (rect : Rect) : Nat := rect.y.toNat + rect.height.toNat

def Has (rect : Rect) (x y : Nat) : Prop :=
  (rect.x.toNat ≤ x ∧ x < rect.right) ∧ rect.y.toNat ≤ y ∧ y < rect.bottom

instance (rect : Rect) (x y : Nat) : Decidable (rect.Has x y) := by
  unfold Has
  infer_instance

def smaller (a b : UInt16) : UInt16 := if a ≤ b then a else b

/-- A number of 16 bits, the largest one when it does not fit. -/
def clamp (value : Nat) : UInt16 := if value < 65536 then UInt16.ofNat value else 65535

/-- The smallest rectangle around both. -/
def union (rect other : Rect) : Rect :=
  let x := smaller rect.x other.x
  let y := smaller rect.y other.y
  let right := max rect.right other.right
  let bottom := max rect.bottom other.bottom
  ⟨x, y, clamp (right - x.toNat), clamp (bottom - y.toNat)⟩

def overlaps (rect other : Rect) : Bool :=
  rect.x.toNat ≤ other.right && other.x.toNat ≤ rect.right &&
    rect.y.toNat ≤ other.bottom && other.y.toNat ≤ rect.bottom

end Rect

def maxDirty : Nat := 64

/-- The remote screen: RGBA, `width * 4` bytes a row, and what changed. -/
structure Frame where
  width : UInt16
  height : UInt16
  pixels : List UInt8
  dirty : List Rect
  generation : Nat
  whole : pixels.length = width.toNat * height.toNat * 4

/-- The bytes of a range, when it lies in them. -/
def span (bytes : List UInt8) (start stop : Nat) : Option (List UInt8) :=
  if start ≤ stop ∧ stop ≤ bytes.length then some ((bytes.drop start).take (stop - start))
  else none

/-- Bytes copied over those from an offset on, when both ranges are there. -/
def paste (pixels : List UInt8) (start : Nat) (source : Option (List UInt8)) : List UInt8 :=
  match source with
  | none => pixels
  | some bytes =>
    if start + bytes.length ≤ pixels.length then
      pixels.take start ++ bytes ++ pixels.drop (start + bytes.length)
    else pixels

/-- The rows from one to another, each pasted from its source. -/
def pasteRows (pixels : List UInt8) (top bottom : Nat) (start : Nat → Nat)
    (source : Nat → Option (List UInt8)) : List UInt8 :=
  (List.range' top (bottom - top)).foldl (fun pixels row =>
    paste pixels (start row) (source row)) pixels

theorem length_paste (pixels : List UInt8) (start : Nat) (source : Option (List UInt8)) :
    (paste pixels start source).length = pixels.length := by
  rw [paste.eq_def]
  cases source with
  | none => rfl
  | some bytes =>
    dsimp only
    split
    · rw [length_append, length_append, length_take, length_drop]
      omega
    · rfl

theorem length_pasteRows (pixels : List UInt8) (top bottom : Nat) (start : Nat → Nat)
    (source : Nat → Option (List UInt8)) :
    (pasteRows pixels top bottom start source).length = pixels.length := by
  rw [pasteRows]
  induction List.range' top (bottom - top) generalizing pixels with
  | nil => rfl
  | cons row rows ih =>
    rw [foldl_cons, ih, length_paste]

namespace Frame

def new : Frame := ⟨0, 0, [], [], 0, rfl⟩

/-- A new size: black, and all of it changed. -/
def resize (frame : Frame) (width height : UInt16) : Frame where
  width := width
  height := height
  pixels := List.replicate (width.toNat * height.toNat * 4) 0
  dirty := [⟨0, 0, width, height⟩]
  generation := frame.generation + 1
  whole := List.length_replicate

/-- The rectangles with the first one that overlaps made larger. -/
def merge (rect : Rect) : List Rect → Option (List Rect)
  | [] => none
  | existing :: others =>
    if existing.overlaps rect then some (existing.union rect :: others)
    else (merge rect others).map (existing :: ·)

/-- Marks a rectangle changed: merged with an overlapping one, else apart, up to a limit. -/
def mark (frame : Frame) (rect : Rect) : Frame :=
  if rect.width = 0 ∨ rect.height = 0 then frame
  else
    match merge rect frame.dirty with
    | some dirty => { frame with dirty }
    | none =>
      if frame.dirty.length < maxDirty then { frame with dirty := frame.dirty ++ [rect] }
      else { frame with dirty := [frame.dirty.foldl Rect.union rect] }

/-- The frame with rows pasted into its pixels. -/
def pasted (frame : Frame) (top bottom : Nat) (start : Nat → Nat)
    (source : Nat → Option (List UInt8)) : Frame :=
  { frame with
    pixels := pasteRows frame.pixels top bottom start source
    whole := (length_pasteRows _ _ _ _ _).trans frame.whole }

/-- Copies a rectangle from a picture of the frame's size. -/
def copyFrom (frame : Frame) (source : List UInt8) (rect : Rect) : Frame :=
  let width := frame.width.toNat
  let stride := width * 4
  if source.length < frame.pixels.length then frame
  else
    let x := min rect.x.toNat width
    let right := min rect.right width
    let bottom := min rect.bottom frame.height.toNat
    if right ≤ x then frame
    else
      (frame.pasted rect.y.toNat bottom (fun row => row * stride + x * 4) fun row =>
        span source (row * stride + x * 4) (row * stride + right * 4)).mark rect

/-- Writes a rectangle's own pixels, clipped to the frame. -/
def copyRect (frame : Frame) (rect : Rect) (rgba : List UInt8) : Frame :=
  let width := frame.width.toNat
  let stride := rect.width.toNat * 4
  let x := rect.x.toNat
  let right := min rect.right width
  if right ≤ x ∨ rgba.length < stride * rect.height.toNat then frame
  else
    let bottom := min rect.bottom frame.height.toNat
    (frame.pasted rect.y.toNat bottom (fun row => row * width * 4 + x * 4) fun row =>
      span rgba ((row - rect.y.toNat) * stride)
        ((row - rect.y.toNat) * stride + (right - x) * 4)).mark rect

/-- The rectangles changed since the last call. -/
def takeDirty (frame : Frame) : List Rect × Frame := (frame.dirty, { frame with dirty := [] })

/-- A pixel of the frame. -/
def pixelAt (frame : Frame) (x y : Nat) : Option (List UInt8) :=
  if x < frame.width.toNat ∧ y < frame.height.toNat then
    some ((frame.pixels.drop ((y * frame.width.toNat + x) * 4)).take 4)
  else none

end Frame

inductive FrameOp where
  | resize (width height : UInt16)
  | copyFrom (source : List UInt8) (rect : Rect)
  | copyRect (rect : Rect) (rgba : List UInt8)
  | mark (rect : Rect)
  | takeDirty

def Frame.perform (frame : Frame) : FrameOp → Frame
  | .resize width height => frame.resize width height
  | .copyFrom source rect => frame.copyFrom source rect
  | .copyRect rect rgba => frame.copyRect rect rgba
  | .mark rect => frame.mark rect
  | .takeDirty => frame.takeDirty.2

/-- The rectangle an operation may mark. -/
def FrameOp.rect? : FrameOp → Option Rect
  | .copyFrom _ rect => some rect
  | .copyRect rect _ => some rect
  | .mark rect => some rect
  | _ => none

/-- The operations after which no older rectangle is left. -/
def FrameOp.clears : FrameOp → Bool
  | .resize _ _ => true
  | .takeDirty => true
  | _ => false

def Rect.Inside (rect : Rect) (frame : Frame) : Prop :=
  rect.right ≤ frame.width.toNat ∧ rect.bottom ≤ frame.height.toNat

/-- A frame, the pixels whose value some operation changed since the rectangles were last
taken, and whether every rectangle given since they were cleared lay in the frame. -/
structure Watched where
  frame : Frame
  changed : Nat → Nat → Prop
  inside : Prop

def Watched.step (watched : Watched) (op : FrameOp) : Watched where
  frame := watched.frame.perform op
  changed := fun x y => op ≠ .takeDirty ∧
    (watched.changed x y ∨ (watched.frame.perform op).pixelAt x y ≠ watched.frame.pixelAt x y)
  inside := (op.clears = true ∨ watched.inside) ∧ ∀ rect ∈ op.rect?, rect.Inside watched.frame

def Watched.run (ops : List FrameOp) : Watched :=
  ops.foldl Watched.step ⟨Frame.new, fun _ _ => False, True⟩

section Cover

variable {rect other : Rect} {x y : Nat}

theorem smaller_toNat (a b : UInt16) : (Rect.smaller a b).toNat = min a.toNat b.toNat := by
  rw [Rect.smaller]
  split
  · rename_i hle
    exact (Nat.min_eq_left (UInt16.le_iff_toNat_le.1 hle)).symm
  · rename_i hle
    rw [UInt16.le_iff_toNat_le] at hle
    exact (Nat.min_eq_right (by omega)).symm

theorem clamp_toNat (value : Nat) : (Rect.clamp value).toNat = min value 65535 := by
  rw [Rect.clamp]
  split
  · rename_i hlt
    rw [UInt16.toNat_ofNat_of_lt' (by exact hlt)]
    omega
  · rename_i hlt
    rw [Nat.min_eq_right (by omega)]
    rfl

theorem union_right : (rect.union other).right =
    min rect.x.toNat other.x.toNat +
      min (max rect.right other.right - min rect.x.toNat other.x.toNat) 65535 := by
  rw [Rect.right, Rect.union, clamp_toNat, smaller_toNat]

theorem union_bottom : (rect.union other).bottom =
    min rect.y.toNat other.y.toNat +
      min (max rect.bottom other.bottom - min rect.y.toNat other.y.toNat) 65535 := by
  rw [Rect.bottom, Rect.union, clamp_toNat, smaller_toNat]

/-- A union has the pixels of both, as far as a desktop can reach. -/
theorem union_has (hx : x < 65535) (hy : y < 65535) (h : rect.Has x y ∨ other.Has x y) :
    (rect.union other).Has x y := by
  have hleft : (rect.union other).x.toNat = min rect.x.toNat other.x.toNat := smaller_toNat _ _
  have htop : (rect.union other).y.toNat = min rect.y.toNat other.y.toNat := smaller_toNat _ _
  rw [Rect.Has, union_right, union_bottom, hleft, htop]
  rcases h with ⟨⟨hl, hr⟩, ht, hb⟩ | ⟨⟨hl, hr⟩, ht, hb⟩
  · exact ⟨⟨by omega, by omega⟩, by omega, by omega⟩
  · exact ⟨⟨by omega, by omega⟩, by omega, by omega⟩

variable {frame : Frame} {dirty merged : List Rect}

theorem union_inside (h : rect.Inside frame) (hother : other.Inside frame) :
    (rect.union other).Inside frame := by
  rw [Rect.Inside, union_right, union_bottom]
  obtain ⟨hr, hb⟩ := h
  obtain ⟨hor, hob⟩ := hother
  have hx : rect.x.toNat ≤ rect.right := Nat.le_add_right _ _
  have hy : rect.y.toNat ≤ rect.bottom := Nat.le_add_right _ _
  exact ⟨by omega, by omega⟩

/-- Some rectangle of a list has the pixel. -/
def Covered (dirty : List Rect) (x y : Nat) : Prop := ∃ rect ∈ dirty, rect.Has x y

theorem merge_covers (hx : x < 65535) (hy : y < 65535)
    (hmerge : Frame.merge rect dirty = some merged) (h : Covered dirty x y ∨ rect.Has x y) :
    Covered merged x y := by
  induction dirty generalizing merged with
  | nil => cases hmerge
  | cons existing others ih =>
    rw [Frame.merge] at hmerge
    split at hmerge
    · obtain rfl := some.inj hmerge
      rcases h with ⟨found, hmem, hhas⟩ | hhas
      · rcases mem_cons.1 hmem with rfl | hmem
        · exact ⟨_, mem_cons_self, union_has hx hy (Or.inl hhas)⟩
        · exact ⟨found, mem_cons_of_mem _ hmem, hhas⟩
      · exact ⟨_, mem_cons_self, union_has hx hy (Or.inr hhas)⟩
    · obtain ⟨rest, hrest, rfl⟩ := map_eq_some_iff.1 hmerge
      have hcovered : existing.Has x y ∨ Covered rest x y := by
        rcases h with ⟨found, hmem, hhas⟩ | hhas
        · rcases mem_cons.1 hmem with rfl | hmem
          · exact Or.inl hhas
          · exact Or.inr (ih hrest (Or.inl ⟨found, hmem, hhas⟩))
        · exact Or.inr (ih hrest (Or.inr hhas))
      rcases hcovered with hhas | ⟨found, hmem, hhas⟩
      · exact ⟨existing, mem_cons_self, hhas⟩
      · exact ⟨found, mem_cons_of_mem _ hmem, hhas⟩

theorem merge_length (hmerge : Frame.merge rect dirty = some merged) :
    merged.length = dirty.length := by
  induction dirty generalizing merged with
  | nil => cases hmerge
  | cons existing others ih =>
    rw [Frame.merge] at hmerge
    split at hmerge
    · obtain rfl := some.inj hmerge
      rfl
    · obtain ⟨rest, hrest, rfl⟩ := map_eq_some_iff.1 hmerge
      rw [length_cons, length_cons, ih hrest]

theorem merge_inside (hmerge : Frame.merge rect dirty = some merged) (hrect : rect.Inside frame)
    (h : ∀ existing ∈ dirty, existing.Inside frame) :
    ∀ existing ∈ merged, existing.Inside frame := by
  induction dirty generalizing merged with
  | nil => cases hmerge
  | cons first others ih =>
    rw [Frame.merge] at hmerge
    split at hmerge
    · obtain rfl := some.inj hmerge
      intro existing hmem
      rcases mem_cons.1 hmem with rfl | hmem
      · exact union_inside (h first mem_cons_self) hrect
      · exact h existing (mem_cons_of_mem _ hmem)
    · obtain ⟨rest, hrest, rfl⟩ := map_eq_some_iff.1 hmerge
      intro existing hmem
      rcases mem_cons.1 hmem with rfl | hmem
      · exact h existing mem_cons_self
      · exact ih hrest (fun other hother => h other (mem_cons_of_mem _ hother)) existing hmem

theorem foldl_union_has (hx : x < 65535) (hy : y < 65535) (h : Covered dirty x y ∨ rect.Has x y) :
    (dirty.foldl Rect.union rect).Has x y := by
  induction dirty generalizing rect with
  | nil =>
    rcases h with ⟨found, hmem, _⟩ | hhas
    · cases hmem
    · exact hhas
  | cons existing others ih =>
    refine ih ?_
    rcases h with ⟨found, hmem, hhas⟩ | hhas
    · rcases mem_cons.1 hmem with rfl | hmem
      · exact Or.inr (union_has hx hy (Or.inr hhas))
      · exact Or.inl ⟨found, hmem, hhas⟩
    · exact Or.inr (union_has hx hy (Or.inl hhas))

theorem foldl_union_inside (hrect : rect.Inside frame)
    (h : ∀ existing ∈ dirty, existing.Inside frame) :
    (dirty.foldl Rect.union rect).Inside frame := by
  induction dirty generalizing rect with
  | nil => exact hrect
  | cons existing others ih =>
    exact ih (union_inside hrect (h existing mem_cons_self))
      fun other hother => h other (mem_cons_of_mem _ hother)

end Cover

section Copy

variable {pixels : List UInt8} {width left right x y : Nat}

theorem paste_pixel {row : Nat} {source : Option (List UInt8)} (hright : right ≤ width)
    (hsource : ∀ bytes ∈ source, bytes.length ≤ (right - left) * 4) (hx : x < width)
    (hout : ¬(y = row ∧ left ≤ x ∧ x < right)) :
    ((paste pixels ((row * width + left) * 4) source).drop ((y * width + x) * 4)).take 4 =
      (pixels.drop ((y * width + x) * 4)).take 4 := by
  cases source with
  | none => rfl
  | some bytes =>
    have hlength := hsource bytes rfl
    rw [paste.eq_def]
    dsimp only
    split
    · rename_i hfits
      refine Vnc.take_drop_congr fun index hindex => ?_
      rw [Vnc.getElem?_overwritten _ _ hfits, if_neg ?_]
      rintro ⟨hstart, hstop⟩
      apply hout
      -- the rows' offsets tell the rows apart
      rcases Nat.lt_trichotomy y row with hlt | rfl | hgt
      · have := @Vnc.row_before width (x + 1) y row hx hlt
        omega
      · exact ⟨rfl, by omega, by omega⟩
      · by_cases hempty : left ≤ right
        · have := @Vnc.row_before width right row y hright hgt
          omega
        · omega
    · rfl

theorem pasteRows_pixel {top bottom : Nat} {source : Nat → Option (List UInt8)}
    (hright : right ≤ width)
    (hsource : ∀ row, ∀ bytes ∈ source row, bytes.length ≤ (right - left) * 4)
    (hx : x < width) (hout : ¬((left ≤ x ∧ x < right) ∧ top ≤ y ∧ y < bottom)) :
    ((pasteRows pixels top bottom (fun row => (row * width + left) * 4) source).drop
      ((y * width + x) * 4)).take 4 = (pixels.drop ((y * width + x) * 4)).take 4 := by
  have hrows : ∀ row ∈ List.range' top (bottom - top), ¬(y = row ∧ left ≤ x ∧ x < right) := by
    rintro row hrow ⟨rfl, hin⟩
    rw [mem_range'_1] at hrow
    exact hout ⟨hin, hrow.1, by omega⟩
  rw [pasteRows]
  generalize List.range' top (bottom - top) = rows at hrows
  induction rows generalizing pixels with
  | nil => rfl
  | cons row rows ih =>
    rw [foldl_cons, ih fun other hother => hrows other (mem_cons_of_mem _ hother)]
    exact paste_pixel hright (hsource row) hx (hrows row mem_cons_self)

theorem span_length {bytes found : List UInt8} {start stop : Nat}
    (h : found ∈ span bytes start stop) : found.length ≤ stop - start := by
  rw [span] at h
  split at h
  · obtain rfl := some.inj h
    exact length_take_le _ _
  · cases h

end Copy

section Operations

variable {frame : Frame} {rect : Rect} {x y : Nat}

theorem mark_pixelAt : (frame.mark rect).pixelAt x y = frame.pixelAt x y := by
  rw [Frame.mark]
  split
  · rfl
  · split
    · rfl
    · split
      · rfl
      · rfl

theorem mark_size : (frame.mark rect).width = frame.width ∧
    (frame.mark rect).height = frame.height := by
  rw [Frame.mark]
  split
  · exact ⟨rfl, rfl⟩
  · split
    · exact ⟨rfl, rfl⟩
    · split
      · exact ⟨rfl, rfl⟩
      · exact ⟨rfl, rfl⟩

/-- What a copy changes lies in its rectangle, and the rectangle is marked. -/
theorem pasted_pixelAt {left right bottom : Nat} {start : Nat → Nat}
    {source : Nat → Option (List UInt8)} (hright : right ≤ frame.width.toNat)
    (hstart : ∀ row, start row = (row * frame.width.toNat + left) * 4)
    (hsource : ∀ row, ∀ bytes ∈ source row, bytes.length ≤ (right - left) * 4)
    (hinside : (left ≤ x ∧ x < right) ∧ rect.y.toNat ≤ y ∧ y < bottom → rect.Has x y)
    (hout : ¬rect.Has x y) :
    ((frame.pasted rect.y.toNat bottom start source).mark rect).pixelAt x y =
      frame.pixelAt x y := by
  obtain rfl : start = fun row => (row * frame.width.toNat + left) * 4 := funext hstart
  rw [mark_pixelAt, Frame.pixelAt, Frame.pixelAt]
  change (if x < frame.width.toNat ∧ y < frame.height.toNat then _ else _) = _
  split
  · rename_i hin
    congr 1
    exact pasteRows_pixel hright hsource hin.1 fun h => hout (hinside h)
  · rfl

theorem copyFrom_pixelAt {source : List UInt8} (hout : ¬rect.Has x y) :
    (frame.copyFrom source rect).pixelAt x y = frame.pixelAt x y := by
  rw [Frame.copyFrom]
  dsimp only
  split
  · rfl
  · split
    · rfl
    · rename_i hright
      refine @pasted_pixelAt frame rect x y (min rect.x.toNat frame.width.toNat)
        (min rect.right frame.width.toNat) _ _ _ (by omega) (fun row => ?_) (fun row bytes hbytes => ?_) ?_ hout
      · ring
      · have := span_length hbytes
        omega
      · rintro ⟨⟨hl, hr⟩, ht, hb⟩
        exact ⟨⟨by omega, by omega⟩, ht, by omega⟩

theorem copyRect_pixelAt {rgba : List UInt8} (hout : ¬rect.Has x y) :
    (frame.copyRect rect rgba).pixelAt x y = frame.pixelAt x y := by
  rw [Frame.copyRect]
  dsimp only
  split
  · rfl
  · refine @pasted_pixelAt frame rect x y rect.x.toNat (min rect.right frame.width.toNat) _ _ _
      (by omega) (fun row => ?_) (fun row bytes hbytes => ?_) ?_ hout
    · ring
    · have := span_length hbytes
      omega
    · rintro ⟨⟨hl, hr⟩, ht, hb⟩
      exact ⟨⟨hl, by omega⟩, ht, by omega⟩

/-- The rectangle of a copy that changed something was marked. -/
theorem has_sizes (h : rect.Has x y) : rect.width ≠ 0 ∧ rect.height ≠ 0 := by
  obtain ⟨⟨hl, hr⟩, ht, hb⟩ := h
  rw [Rect.right] at hr
  rw [Rect.bottom] at hb
  constructor
  · intro heq
    rw [heq] at hr
    change x < rect.x.toNat + 0 at hr
    omega
  · intro heq
    rw [heq] at hb
    change y < rect.y.toNat + 0 at hb
    omega

theorem mark_covers (hx : x < 65535) (hy : y < 65535)
    (h : Covered frame.dirty x y ∨ rect.Has x y) : Covered (frame.mark rect).dirty x y := by
  rw [Frame.mark]
  split
  · rename_i hempty
    refine h.resolve_right fun hhas => ?_
    obtain ⟨hwidth, hheight⟩ := has_sizes hhas
    exact hempty.elim hwidth hheight
  · split
    · rename_i merged hmerge
      exact merge_covers hx hy hmerge h
    · split
      · rcases h with ⟨found, hmem, hhas⟩ | hhas
        · exact ⟨found, mem_append_left _ hmem, hhas⟩
        · exact ⟨rect, mem_append_right _ mem_cons_self, hhas⟩
      · exact ⟨_, mem_cons_self, foldl_union_has hx hy h⟩

theorem mark_length (h : frame.dirty.length ≤ maxDirty) :
    (frame.mark rect).dirty.length ≤ maxDirty := by
  rw [Frame.mark]
  split
  · exact h
  · split
    · rename_i merged hmerge
      exact (merge_length hmerge).trans_le h
    · split
      · rw [length_append]
        assumption
      · exact (by decide : 1 ≤ maxDirty)

theorem mark_inside (hrect : rect.Inside frame)
    (h : ∀ existing ∈ frame.dirty, existing.Inside frame) :
    ∀ existing ∈ (frame.mark rect).dirty, existing.Inside frame := by
  rw [Frame.mark]
  split
  · exact h
  · split
    · rename_i merged hmerge
      exact merge_inside hmerge hrect h
    · split
      · intro existing hmem
        rcases mem_append.1 hmem with hmem | hmem
        · exact h existing hmem
        · rw [mem_singleton] at hmem
          exact hmem ▸ hrect
      · intro existing hmem
        rw [mem_singleton] at hmem
        exact hmem ▸ foldl_union_inside hrect h

end Operations

section Run

variable {frame after : Frame} {rect : Rect} {watched : Watched}

/-- What a run keeps of the rectangles. -/
structure Watched.Sound (watched : Watched) : Prop where
  covered : ∀ x y, x < watched.frame.width.toNat → y < watched.frame.height.toNat →
    watched.changed x y → Covered watched.frame.dirty x y
  inside : watched.inside → ∀ rect ∈ watched.frame.dirty, rect.Inside watched.frame
  few : watched.frame.dirty.length ≤ maxDirty

/-- Nothing happened, or pixels of the rectangle changed and it was marked. -/
structure Marks (frame : Frame) (rect : Rect) (after : Frame) : Prop where
  width : after.width = frame.width
  height : after.height = frame.height
  dirty : after = frame ∨ ∃ middle : Frame, middle.width = frame.width ∧
    middle.height = frame.height ∧ middle.dirty = frame.dirty ∧ after = middle.mark rect
  others : ∀ x y, ¬rect.Has x y → after.pixelAt x y = frame.pixelAt x y

theorem mark_marks : Marks frame rect (frame.mark rect) :=
  ⟨mark_size.1, mark_size.2, Or.inr ⟨frame, rfl, rfl, rfl, rfl⟩, fun _ _ _ => mark_pixelAt⟩

theorem copyFrom_marks (source : List UInt8) : Marks frame rect (frame.copyFrom source rect) := by
  have hcases : frame.copyFrom source rect = frame ∨ ∃ middle : Frame,
      middle.width = frame.width ∧ middle.height = frame.height ∧
        middle.dirty = frame.dirty ∧ frame.copyFrom source rect = middle.mark rect := by
    rw [Frame.copyFrom]
    dsimp only
    split
    · exact Or.inl rfl
    · split
      · exact Or.inl rfl
      · exact Or.inr ⟨frame.pasted _ _ _ _, rfl, rfl, rfl, rfl⟩
  refine ⟨?_, ?_, hcases, fun x y => copyFrom_pixelAt⟩
  · rcases hcases with heq | ⟨middle, hwidth, -, -, heq⟩
    · rw [heq]
    · rw [heq, mark_size.1, hwidth]
  · rcases hcases with heq | ⟨middle, -, hheight, -, heq⟩
    · rw [heq]
    · rw [heq, mark_size.2, hheight]

theorem copyRect_marks (rgba : List UInt8) : Marks frame rect (frame.copyRect rect rgba) := by
  have hcases : frame.copyRect rect rgba = frame ∨ ∃ middle : Frame,
      middle.width = frame.width ∧ middle.height = frame.height ∧
        middle.dirty = frame.dirty ∧ frame.copyRect rect rgba = middle.mark rect := by
    rw [Frame.copyRect]
    dsimp only
    split
    · exact Or.inl rfl
    · exact Or.inr ⟨frame.pasted _ _ _ _, rfl, rfl, rfl, rfl⟩
  refine ⟨?_, ?_, hcases, fun x y => copyRect_pixelAt⟩
  · rcases hcases with heq | ⟨middle, hwidth, -, -, heq⟩
    · rw [heq]
    · rw [heq, mark_size.1, hwidth]
  · rcases hcases with heq | ⟨middle, -, hheight, -, heq⟩
    · rw [heq]
    · rw [heq, mark_size.2, hheight]

theorem Rect.Inside.of_size (h : rect.Inside frame) (hwidth : after.width = frame.width)
    (hheight : after.height = frame.height) : rect.Inside after := by
  rw [Rect.Inside, hwidth, hheight]
  exact h

theorem Watched.Sound.marks (h : watched.Sound) (hmarks : Marks watched.frame rect after)
    {changed : Nat → Nat → Prop} {inside : Prop}
    (hchanged : ∀ x y, changed x y → watched.changed x y ∨
      after.pixelAt x y ≠ watched.frame.pixelAt x y)
    (hinside : inside → watched.inside ∧ rect.Inside watched.frame) :
    Watched.Sound ⟨after, changed, inside⟩ := by
  have hsizes : ∀ value : UInt16, ∀ place, place < value.toNat → place < 65535 := by
    intro value place hplace
    have := value.toNat_lt
    omega
  refine ⟨fun x y hx hy hxy => ?_, fun hin => ?_, ?_⟩
  · have hcovered : Covered watched.frame.dirty x y ∨ rect.Has x y ∧ after ≠ watched.frame := by
      rcases hchanged x y hxy with hold | hnew
      · exact Or.inl (h.covered x y (hmarks.width ▸ hx) (hmarks.height ▸ hy) hold)
      · refine Or.inr ⟨?_, fun heq => hnew (by rw [heq])⟩
        by_contra hout
        exact hnew (hmarks.others x y hout)
    rcases hmarks.dirty with heq | ⟨middle, -, -, hdirty, heq⟩
    · change Covered after.dirty x y
      rw [heq]
      exact hcovered.resolve_right fun hnew => hnew.2 heq
    · change Covered after.dirty x y
      rw [heq]
      refine mark_covers (hsizes _ _ hx) (hsizes _ _ hy) ?_
      rw [hdirty]
      exact hcovered.imp_right And.left
  · obtain ⟨hbefore, hrect⟩ := hinside hin
    intro found hfound
    rcases hmarks.dirty with heq | ⟨middle, hwidth, hheight, hdirty, heq⟩
    · change found ∈ after.dirty at hfound
      rw [heq] at hfound
      exact (h.inside hbefore found hfound).of_size hmarks.width hmarks.height
    · change found ∈ after.dirty at hfound
      rw [heq] at hfound
      have hmiddle := mark_inside (hrect.of_size hwidth hheight)
        (fun existing hmem => (h.inside hbefore existing (hdirty ▸ hmem)).of_size hwidth hheight)
        found hfound
      exact hmiddle.of_size (hmarks.width.trans hwidth.symm) (hmarks.height.trans hheight.symm)
  · change after.dirty.length ≤ maxDirty
    rcases hmarks.dirty with heq | ⟨middle, -, -, hdirty, heq⟩
    · rw [heq]
      exact h.few
    · rw [heq]
      exact mark_length (hdirty ▸ h.few)

theorem Watched.Sound.resize (width height : UInt16) :
    (watched.step (.resize width height)).Sound := by
  refine ⟨fun x y hx hy _ => ?_, fun _ rect hrect => ?_, (by decide : 1 ≤ maxDirty)⟩
  · refine ⟨⟨0, 0, width, height⟩, mem_cons_self, ⟨Nat.zero_le _, ?_⟩, Nat.zero_le _, ?_⟩
    · rw [Rect.right]
      exact hx.trans_le (Nat.le_add_left _ _)
    · rw [Rect.bottom]
      exact hy.trans_le (Nat.le_add_left _ _)
  · obtain rfl := mem_singleton.1 hrect
    exact ⟨(Nat.zero_add _).le, (Nat.zero_add _).le⟩

theorem step_sound (h : watched.Sound) (op : FrameOp) : (watched.step op).Sound := by
  cases op with
  | resize width height => exact Watched.Sound.resize width height
  | takeDirty =>
    refine ⟨fun x y _ _ hchanged => absurd rfl hchanged.1, fun _ rect hrect => ?_, Nat.zero_le _⟩
    cases hrect
  | copyFrom source rect =>
    refine h.marks (copyFrom_marks source) (fun x y hchanged => hchanged.2) fun hinside => ?_
    exact ⟨hinside.1.resolve_left Bool.false_ne_true, hinside.2 rect rfl⟩
  | copyRect rect rgba =>
    refine h.marks (copyRect_marks rgba) (fun x y hchanged => hchanged.2) fun hinside => ?_
    exact ⟨hinside.1.resolve_left Bool.false_ne_true, hinside.2 rect rfl⟩
  | mark rect =>
    refine h.marks mark_marks (fun x y hchanged => hchanged.2) fun hinside => ?_
    exact ⟨hinside.1.resolve_left Bool.false_ne_true, hinside.2 rect rfl⟩

theorem new_sound : Watched.Sound ⟨Frame.new, fun _ _ => False, True⟩ :=
  ⟨fun _ _ _ _ h => h.elim, fun _ _ h => (nomatch h), Nat.zero_le _⟩

/-- After any run the rectangles to be taken have every pixel that changed, there are no more
than the limit, and they lie in the frame when those given since they were cleared did. -/
theorem run_covered (ops : List FrameOp) :
    let last := Watched.run ops
    (∀ x y, x < last.frame.width.toNat → y < last.frame.height.toNat → last.changed x y →
      ∃ rect ∈ last.frame.takeDirty.1, rect.Has x y) ∧
    (last.inside → ∀ rect ∈ last.frame.takeDirty.1, rect.Inside last.frame) ∧
    last.frame.takeDirty.1.length ≤ 64 := by
  have hsound : (Watched.run ops).Sound := by
    rw [Watched.run]
    have hfold : ∀ start : Watched, start.Sound → (ops.foldl Watched.step start).Sound := by
      induction ops with
      | nil => exact fun _ hstart => hstart
      | cons op ops ih => exact fun start hstart => ih _ (step_sound hstart op)
    exact hfold _ new_sound
  exact ⟨hsound.covered, hsound.inside, hsound.few⟩

end Run

/-- The item that shows a session's frame: whose generation it drew, and its own pixels. -/
structure Item where
  drawnGeneration : Option Nat
  width : Nat
  height : Nat
  shown : Nat → Nat → Option (List UInt8)

namespace Item

def new : Item := ⟨none, 0, 0, fun _ _ => none⟩

/-- A framebuffer of a size, black. -/
def resizeFramebuffer (item : Item) (width height : Nat) : Item :=
  { item with
    width, height
    shown := fun x y => if x < width ∧ y < height then some [0, 0, 0, 255] else none }

/-- Copies the pixels of a rectangle, clipped to the framebuffer. -/
def writePixels (item : Item) (x y width height : Nat) (frame : Frame) : Item :=
  let right := min (x + width) item.width
  let bottom := min (y + height) item.height
  let stride := frame.width.toNat * 4
  if right ≤ x ∨ bottom ≤ y ∨ stride < item.width * 4 ∨
      frame.pixels.length < stride * item.height then item
  else { item with shown := fun column row =>
    if (x ≤ column ∧ column < right) ∧ y ≤ row ∧ row < bottom then frame.pixelAt column row
    else item.shown column row }

def writeRect (frame : Frame) (item : Item) (rect : Rect) : Item :=
  item.writePixels rect.x.toNat rect.y.toNat rect.width.toNat rect.height.toNat frame

/-- `fill_framebuffer`: all of a frame of another size, else what changed. -/
def fill (item : Item) (frame : Frame) : Item × Frame :=
  if frame.width = 0 ∨ frame.height = 0 then (item, frame)
  else
    let (rects, taken) := frame.takeDirty
    if some frame.generation ≠ item.drawnGeneration then
      let item := { item with drawnGeneration := some frame.generation }
      let width := frame.width.toNat
      let height := frame.height.toNat
      ((item.resizeFramebuffer width height).writePixels 0 0 width height frame, taken)
    else (rects.foldl (writeRect frame) item, taken)

end Item

inductive ItemEvent where
  /-- The item is given a session, with the frame it has. -/
  | attach (frame : Frame)
  /-- The session changes its frame, or the item takes what changed. -/
  | frame (op : FrameOp)

def Item.step (state : Item × Frame) : ItemEvent → Item × Frame
  | .attach frame => ({ state.1 with drawnGeneration := none }, frame)
  | .frame .takeDirty => state.1.fill state.2
  | .frame op => (state.1, state.2.perform op)

/-- What the item shows wrongly lies in the rectangles it will take, once it drew the frame at
its size. -/
structure Item.Follows (item : Item) (frame : Frame) : Prop where
  older : ∀ generation ∈ item.drawnGeneration, generation ≤ frame.generation
  size : item.drawnGeneration = some frame.generation →
    item.width = frame.width.toNat ∧ item.height = frame.height.toNat
  sound : item.drawnGeneration = some frame.generation →
    Watched.Sound ⟨frame, fun x y => item.shown x y ≠ frame.pixelAt x y, False⟩

section Window

variable {item : Item} {frame after : Frame} {rect : Rect} {x y : Nat}

theorem writePixels_size (x y width height : Nat) :
    (item.writePixels x y width height frame).width = item.width ∧
      (item.writePixels x y width height frame).height = item.height ∧
      (item.writePixels x y width height frame).drawnGeneration = item.drawnGeneration := by
  rw [Item.writePixels]
  split <;> exact ⟨rfl, rfl, rfl⟩

/-- In a framebuffer of the frame's size, a rectangle's pixels are the frame's afterwards. -/
theorem shown_writePixels {left top width height : Nat} (hwidth : item.width = frame.width.toNat)
    (hheight : item.height = frame.height.toNat) (hx : x < item.width) (hy : y < item.height) :
    (item.writePixels left top width height frame).shown x y =
      if (left ≤ x ∧ x < left + width) ∧ top ≤ y ∧ y < top + height then frame.pixelAt x y
      else item.shown x y := by
  have hwhole : ¬ frame.pixels.length < frame.width.toNat * 4 * item.height := by
    rw [frame.whole, hheight, Nat.mul_right_comm]
    exact Nat.lt_irrefl _
  rw [Item.writePixels]
  split
  · rename_i hempty
    rw [if_neg]
    rintro ⟨⟨hleft, hright⟩, htop, hbottom⟩
    rcases hempty with h | h | h | h
    · omega
    · omega
    · omega
    · exact hwhole h
  · dsimp only
    by_cases hin : (left ≤ x ∧ x < left + width) ∧ top ≤ y ∧ y < top + height
    · rw [if_pos hin, if_pos (by omega)]
    · rw [if_neg hin, if_neg (by omega)]

/-- Whatever rectangles are written, a pixel in one of them is the frame's, any other stays. -/
theorem shown_foldl (rects : List Rect) (hwidth : item.width = frame.width.toNat)
    (hheight : item.height = frame.height.toNat) (hx : x < item.width) (hy : y < item.height)
    (hwrong : item.shown x y ≠ frame.pixelAt x y → Covered rects x y) :
    (rects.foldl (Item.writeRect frame) item).shown x y = frame.pixelAt x y := by
  induction rects generalizing item with
  | nil =>
    by_contra hne
    obtain ⟨rect, hmem, -⟩ := hwrong hne
    cases hmem
  | cons rect rects ih =>
    obtain ⟨hw, hh, -⟩ := @writePixels_size item frame rect.x.toNat rect.y.toNat
      rect.width.toNat rect.height.toNat
    refine ih (hw.trans hwidth) (hh.trans hheight) (hw.symm ▸ hx) (hh.symm ▸ hy) fun hne => ?_
    rw [Item.writeRect, shown_writePixels hwidth hheight hx hy] at hne
    split at hne
    · exact absurd rfl hne
    · rename_i hout
      obtain ⟨found, hmem, hhas⟩ := hwrong hne
      rcases mem_cons.mp hmem with rfl | hmem
      · exact absurd hhas hout
      · exact ⟨found, hmem, hhas⟩

theorem foldl_size (rects : List Rect) :
    (rects.foldl (Item.writeRect frame) item).width = item.width ∧
      (rects.foldl (Item.writeRect frame) item).height = item.height ∧
      (rects.foldl (Item.writeRect frame) item).drawnGeneration = item.drawnGeneration := by
  induction rects generalizing item with
  | nil => exact ⟨rfl, rfl, rfl⟩
  | cons rect rects ih =>
    obtain ⟨hw, hh, hg⟩ := @writePixels_size item frame rect.x.toNat rect.y.toNat
      rect.width.toNat rect.height.toNat
    exact ⟨ih.1.trans hw, ih.2.1.trans hh, ih.2.2.trans hg⟩

/-- Filling draws the whole frame. -/
theorem fill_shows (h : item.Follows frame) (hsize : ¬ (frame.width = 0 ∨ frame.height = 0)) :
    (item.fill frame).1.drawnGeneration = some frame.generation ∧
      (item.fill frame).1.width = frame.width.toNat ∧
      (item.fill frame).1.height = frame.height.toNat ∧
      ∀ x y, x < frame.width.toNat → y < frame.height.toNat →
        (item.fill frame).1.shown x y = frame.pixelAt x y := by
  rw [Item.fill, if_neg hsize]
  dsimp only
  split
  · obtain ⟨hw, hh, hg⟩ := @writePixels_size
      (({ item with drawnGeneration := some frame.generation } : Item).resizeFramebuffer
        frame.width.toNat frame.height.toNat) frame 0 0 frame.width.toNat frame.height.toNat
    refine ⟨hg, hw, hh, fun x y hx hy => ?_⟩
    rw [shown_writePixels rfl rfl hx hy, if_pos (by omega)]
  · rename_i hdrawn
    have hdrawn := (not_not.mp hdrawn).symm
    obtain ⟨hwidth, hheight⟩ := h.size hdrawn
    obtain ⟨hw, hh, hg⟩ := @foldl_size item frame frame.takeDirty.1
    refine ⟨hg.trans hdrawn, hw.trans hwidth, hh.trans hheight, fun x y hx hy => ?_⟩
    exact shown_foldl _ hwidth hheight (hwidth.symm ▸ hx) (hheight.symm ▸ hy)
      ((h.sound hdrawn).covered x y hx hy)

theorem follows_of_marks (h : item.Follows frame) (hmarks : Marks frame rect after)
    (hgeneration : after.generation = frame.generation) : item.Follows after := by
  refine ⟨fun g hg => hgeneration.symm ▸ h.older g hg, fun hdrawn => ?_, fun hdrawn => ?_⟩
  · rw [hmarks.width, hmarks.height]
    exact h.size (hgeneration ▸ hdrawn)
  · refine (h.sound (hgeneration ▸ hdrawn)).marks hmarks (fun x y hne => ?_) False.elim
    by_cases hsame : after.pixelAt x y = frame.pixelAt x y
    · exact .inl fun heq => hne (heq.trans hsame.symm)
    · exact .inr hsame

theorem mark_generation : (frame.mark rect).generation = frame.generation := by
  rw [Frame.mark]
  split
  · rfl
  · split
    · rfl
    · split <;> rfl

theorem copyFrom_generation (source : List UInt8) :
    (frame.copyFrom source rect).generation = frame.generation := by
  rw [Frame.copyFrom]
  split
  · rfl
  · dsimp only
    split
    · rfl
    · exact mark_generation

theorem copyRect_generation (rgba : List UInt8) :
    (frame.copyRect rect rgba).generation = frame.generation := by
  rw [Frame.copyRect]
  split
  · rfl
  · exact mark_generation

theorem follows_step {state : Item × Frame} (h : state.1.Follows state.2) (event : ItemEvent) :
    (Item.step state event).1.Follows (Item.step state event).2 := by
  cases event with
  | attach frame => exact ⟨nofun, nofun, nofun⟩
  | frame op =>
    cases op with
    | resize width height =>
      have hnot : state.1.drawnGeneration ≠ some (state.2.generation + 1) := fun hdrawn =>
        Nat.not_succ_le_self _ (h.older _ hdrawn)
      exact ⟨fun g hg => Nat.le_succ_of_le (h.older g hg), fun hdrawn => absurd hdrawn hnot,
        fun hdrawn => absurd hdrawn hnot⟩
    | copyFrom source rect =>
      exact follows_of_marks h (copyFrom_marks source) (copyFrom_generation source)
    | copyRect rect rgba =>
      exact follows_of_marks h (copyRect_marks rgba) (copyRect_generation rgba)
    | mark rect => exact follows_of_marks h mark_marks mark_generation
    | takeDirty =>
      by_cases hsize : state.2.width = 0 ∨ state.2.height = 0
      · change (state.1.fill state.2).1.Follows (state.1.fill state.2).2
        rw [Item.fill, if_pos hsize]
        exact h
      · obtain ⟨hdrawn, hwidth, hheight, hshown⟩ := fill_shows h hsize
        have htaken : (state.1.fill state.2).2 = state.2.takeDirty.2 := by
          rw [Item.fill, if_neg hsize]
          dsimp only
          split <;> rfl
        change (state.1.fill state.2).1.Follows (state.1.fill state.2).2
        rw [htaken]
        refine ⟨fun g hg => ?_, fun _ => ⟨hwidth, hheight⟩, fun _ => ⟨fun x y hx hy hne => ?_,
          False.elim, Nat.zero_le _⟩⟩
        · rw [hdrawn] at hg
          exact (Option.some.inj hg).ge
        · exact absurd (hshown x y hx hy) hne

/-- Whenever the item has taken what changed it shows the whole frame, however the session
changed and resized it before and whichever sessions the item was given. -/
theorem item_shows_frame (events : List ItemEvent) (start : Frame) :
    let state := events.foldl Item.step (Item.new, start)
    ¬ (state.2.width = 0 ∨ state.2.height = 0) →
      let filled := Item.step state (.frame .takeDirty)
      filled.1.width = state.2.width.toNat ∧ filled.1.height = state.2.height.toNat ∧
        ∀ x y, x < state.2.width.toNat → y < state.2.height.toNat →
          filled.1.shown x y = state.2.pixelAt x y := by
  have hrun : ∀ state : Item × Frame, state.1.Follows state.2 →
      (events.foldl Item.step state).1.Follows (events.foldl Item.step state).2 := by
    induction events with
    | nil => exact fun _ h => h
    | cons event events ih => exact fun state h => ih _ (follows_step h event)
  exact fun hsize => (fill_shows (hrun (Item.new, start) ⟨nofun, nofun, nofun⟩) hsize).2

end Window

namespace FrameWitness

/-- A rectangle marked outside the frame is returned as it is. -/
theorem marked_outside :
    (Watched.run [.resize 1 1, .takeDirty, .mark ⟨5, 5, 1, 1⟩]).frame.takeDirty.1 = [⟨5, 5, 1, 1⟩] ∧
    ¬Rect.Inside ⟨5, 5, 1, 1⟩
      (Watched.run [.resize 1 1, .takeDirty, .mark ⟨5, 5, 1, 1⟩]).frame := by
  refine ⟨rfl, fun h => ?_⟩
  exact absurd h.1 (by decide)

/-- A pixel drawn between two fillings is shown. -/
theorem pixel_shown : (Item.step ([.frame .takeDirty, .frame (.copyRect ⟨1, 0, 1, 1⟩
    [1, 2, 3, 255])].foldl Item.step (Item.new, Frame.new.resize 2 1)) (.frame .takeDirty)).1.shown
      1 0 = some [1, 2, 3, 255] :=
  (item_shows_frame [.frame .takeDirty, .frame (.copyRect ⟨1, 0, 1, 1⟩ [1, 2, 3, 255])]
    (Frame.new.resize 2 1) (by decide)).2.2 1 0 (by decide) (by decide)

end FrameWitness

end Opensesh.Rdp
