/-
The remote desktop's pixels and the functions the decoders draw with: rows written in place,
with every slice, chunk size and sum checked as the program checks them.
-/
import Opensesh.Outcome
import Mathlib.Algebra.Order.Ring.Nat
import Mathlib.Tactic.Ring
import Mathlib.Tactic.Linarith

namespace Opensesh.Vnc

open List Option

/-- Why the program would stop with a panic. -/
inductive Panic where
  | overflow
  | underflow
  | bounds
  | chunkSize
  | division

/-- Why decoding stops: the server sent what it should not, the connection ended, or the
program panicked. -/
inductive Stop where
  | refused (message : String)
  | ended
  | panicked (reason : Panic)

def Stop.isPanic : Stop → Bool
  | .panicked _ => true
  | _ => false

/-- A value that has to fit this many bits. -/
def fit (bits value : Nat) : Except Stop Nat :=
  if value < 2 ^ bits then .ok value else .error (.panicked .overflow)

def u16 (value : Nat) : Except Stop Nat := fit 16 value

def usize (value : Nat) : Except Stop Nat := fit 64 value

def sub (a b : Nat) : Except Stop Nat :=
  if b ≤ a then .ok (a - b) else .error (.panicked .underflow)

def byteAt (bytes : List UInt8) (index : Nat) : Except Stop UInt8 :=
  match bytes[index]? with
  | some byte => .ok byte
  | none => .error (.panicked .bounds)

def slice (bytes : List UInt8) (start stop : Nat) : Except Stop (List UInt8) :=
  if start ≤ stop ∧ stop ≤ bytes.length then .ok ((bytes.drop start).take (stop - start))
  else .error (.panicked .bounds)

/-- The whole chunks of this size; the rest is left out. -/
def chunks (size : Nat) (bytes : List UInt8) : List (List UInt8) :=
  (List.range (bytes.length / size)).map fun index => (bytes.drop (index * size)).take size

def chunksExact (size : Nat) (bytes : List UInt8) : Except Stop (List (List UInt8)) :=
  if size = 0 then .error (.panicked .chunkSize) else .ok (chunks size bytes)

/-- A rectangle of the desktop, in pixels. -/
structure Area where
  x : Nat
  y : Nat
  width : Nat
  height : Nat
  deriving DecidableEq

def Area.pixels (area : Area) : Nat := area.width * area.height

/-- The pixels of an area. -/
def Area.Has (area : Area) (x y : Nat) : Prop :=
  (area.x ≤ x ∧ x < area.x + area.width) ∧ area.y ≤ y ∧ y < area.y + area.height

structure Rgb where
  red : UInt8
  green : UInt8
  blue : UInt8

def Rgb.rgba (rgb : Rgb) : List UInt8 := [rgb.red, rgb.green, rgb.blue, 255]

/-- The desktop's pixels, `width * 4` bytes a row. -/
structure Canvas where
  width : Nat
  height : Nat
  rgba : List UInt8
  narrow : width < 2 ^ 16
  low : height < 2 ^ 16
  whole : rgba.length = width * height * 4

namespace Canvas

variable (canvas : Canvas)

/-- A black desktop of this size. -/
def new (width height : Nat) (hwidth : width < 2 ^ 16) (hheight : height < 2 ^ 16) : Canvas where
  width := width
  height := height
  rgba := (List.replicate (width * height) [0, 0, 0, 255]).flatten
  narrow := hwidth
  low := hheight
  whole := by simp [List.length_flatten]

def Inside (area : Area) : Prop :=
  area.x + area.width ≤ canvas.width ∧ area.y + area.height ≤ canvas.height

instance (area : Area) : Decidable (canvas.Inside area) := by
  unfold Inside
  infer_instance

/-- Fails unless the area lies inside the desktop. -/
def check (area : Area) : Except Stop Unit :=
  if canvas.Inside area then .ok ()
  else
    let size := s!"{area.width}x{area.height} at {area.x},{area.y}"
    .error (.refused s!"a rectangle outside the desktop ({size} on {canvas.width}x{canvas.height})")

def offset (x y : Nat) : Except Stop Nat := usize ((y * canvas.width + x) * 4)

/-- Bytes written over those from an offset on. -/
def overwrite (start : Nat) (row : List UInt8) : Except Stop Canvas :=
  if h : start + row.length ≤ canvas.rgba.length then
    .ok { canvas with
      rgba := canvas.rgba.take start ++ row ++ canvas.rgba.drop (start + row.length)
      whole := by
        rw [List.length_append, List.length_append, List.length_take, List.length_drop,
          ← canvas.whole]
        omega }
  else .error (.panicked .bounds)

/-- A row of an area, counted from its top. -/
def putRow (area : Area) (row : Nat) (bytes : List UInt8) : Except Stop Canvas := do
  let y ← u16 (area.y + row)
  let start ← canvas.offset area.x y
  canvas.overwrite start bytes

/-- Paints an area with one colour. -/
def fill (area : Area) (rgb : Rgb) : Except Stop Canvas :=
  (List.range area.height).foldlM (fun canvas row =>
    canvas.putRow area row (List.replicate area.width rgb.rgba).flatten) canvas

/-- Pixels of this many bytes, with the fourth byte opaque. -/
def opaqueLine (depth : Nat) (line : List UInt8) : List UInt8 :=
  ((chunks depth line).map fun pixel => pixel.take 3 ++ [255]).flatten

/-- Paints an area with pixels of this many bytes, row after row. -/
def putLines (depth : Nat) (area : Area) (bytes : List UInt8) : Except Stop Canvas := do
  let size ← usize (area.width * depth)
  let lines ← chunksExact size bytes
  (lines.take area.height).zipIdx.foldlM (fun canvas line =>
    canvas.putRow area (min line.2 65535) (opaqueLine depth line.1)) canvas

def putRgb (area : Area) (rgb : List UInt8) : Except Stop Canvas := canvas.putLines 3 area rgb

def putRgbx (area : Area) (rgbx : List UInt8) : Except Stop Canvas := canvas.putLines 4 area rgbx

def readRow (area : Area) (row : Nat) : Except Stop (List UInt8) := do
  let y ← u16 (area.y + row)
  let start ← canvas.offset area.x y
  slice canvas.rgba start (start + area.width * 4)

/-- The pixels of an area. -/
def read (area : Area) : Except Stop (List UInt8) := do
  let rows ← (List.range area.height).mapM (canvas.readRow area)
  pure rows.flatten

/-- Copies the pixels at a place to an area; they are read before anything is written. -/
def copy (x y : Nat) (area : Area) : Except Stop Canvas := do
  let source ← canvas.read { area with x, y }
  canvas.putRgbx area source

/-- The four bytes of a pixel. -/
def pixelAt (x y : Nat) : List UInt8 := (canvas.rgba.drop ((y * canvas.width + x) * 4)).take 4

end Canvas

/-- The pixels of a region show a picture now, and the others are as they were. -/
structure Painted (region : Nat → Nat → Prop) (picture : Nat → Nat → List UInt8)
    (before after : Canvas) : Prop where
  width : after.width = before.width
  height : after.height = before.height
  inside : ∀ x y, x < before.width → y < before.height → region x y →
    after.pixelAt x y = picture x y
  outside : ∀ x y, x < before.width → y < before.height → ¬region x y →
    after.pixelAt x y = before.pixelAt x y

section Painted

variable {region other : Nat → Nat → Prop} {picture : Nat → Nat → List UInt8}
  {before middle after canvas : Canvas} {area : Area}

theorem Painted.refl (hnone : ∀ x y, ¬region x y) : Painted region picture canvas canvas :=
  ⟨rfl, rfl, fun x y _ _ h => absurd h (hnone x y), fun _ _ _ _ _ => rfl⟩

theorem Painted.trans (h : Painted region picture before middle)
    (hnext : Painted other picture middle after) :
    Painted (fun x y => region x y ∨ other x y) picture before after := by
  refine ⟨hnext.width.trans h.width, hnext.height.trans h.height, ?_, ?_⟩
  · intro x y hx hy hregion
    by_cases hother : other x y
    · exact hnext.inside x y (h.width ▸ hx) (h.height ▸ hy) hother
    · rw [hnext.outside x y (h.width ▸ hx) (h.height ▸ hy) hother]
      exact h.inside x y hx hy (hregion.resolve_right hother)
  · intro x y hx hy hregion
    rw [hnext.outside x y (h.width ▸ hx) (h.height ▸ hy) fun hother => hregion (Or.inr hother)]
    exact h.outside x y hx hy fun hfirst => hregion (Or.inl hfirst)

theorem Painted.congr {picture' : Nat → Nat → List UInt8}
    (h : Painted region picture before after)
    (hregion : ∀ x y, x < before.width → y < before.height → (other x y ↔ region x y))
    (hpicture : ∀ x y, x < before.width → y < before.height → other x y →
      picture' x y = picture x y) : Painted other picture' before after := by
  refine ⟨h.width, h.height, ?_, ?_⟩
  · intro x y hx hy hother
    rw [hpicture x y hx hy hother]
    exact h.inside x y hx hy ((hregion x y hx hy).1 hother)
  · intro x y hx hy hother
    exact h.outside x y hx hy fun hin => hother ((hregion x y hx hy).2 hin)

theorem foldlM_painted {ι : Type} {regions : ι → Nat → Nat → Prop}
    {step : Canvas → ι → Except Stop Canvas} {width height : Nat} (items : List ι)
    (hstep : ∀ item ∈ items, ∀ canvas : Canvas, canvas.width = width → canvas.height = height →
      ∃ next, step canvas item = .ok next ∧ Painted (regions item) picture canvas next)
    (hwidth : canvas.width = width) (hheight : canvas.height = height) :
    ∃ last, items.foldlM step canvas = .ok last ∧
      Painted (fun x y => ∃ item ∈ items, regions item x y) picture canvas last := by
  induction items generalizing canvas with
  | nil =>
    refine ⟨canvas, rfl, Painted.refl fun x y h => ?_⟩
    obtain ⟨item, hmem, _⟩ := h
    cases hmem
  | cons item items ih =>
    obtain ⟨next, hnext, hpainted⟩ := hstep item mem_cons_self canvas hwidth hheight
    obtain ⟨last, hlast, hrest⟩ := @ih next
      (fun other hother => hstep other (mem_cons_of_mem _ hother))
      (hpainted.width.trans hwidth) (hpainted.height.trans hheight)
    refine ⟨last, ?_, (hpainted.trans hrest).congr ?_ fun _ _ _ _ _ => rfl⟩
    · rw [foldlM_cons, hnext]
      exact hlast
    · intro x y _ _
      simp only [mem_cons, exists_eq_or_imp]

end Painted

section Rows

variable {canvas : Canvas} {area : Area}

theorem getElem?_overwritten (bytes row : List UInt8) {start : Nat}
    (h : start + row.length ≤ bytes.length) (index : Nat) :
    (bytes.take start ++ row ++ bytes.drop (start + row.length))[index]? =
      if start ≤ index ∧ index < start + row.length then row[index - start]?
      else bytes[index]? := by
  have htake : (bytes.take start).length = start := by
    rw [length_take]
    omega
  by_cases hbefore : index < start
  · rw [if_neg (by omega), List.append_assoc,
      List.getElem?_append_left (by omega), List.getElem?_take, if_pos hbefore]
  · by_cases hin : index < start + row.length
    · rw [if_pos ⟨by omega, hin⟩, List.getElem?_append_left (by
        rw [length_append]
        omega), List.getElem?_append_right (by omega), htake]
    · have hlength : (bytes.take start ++ row).length = start + row.length := by
        rw [length_append, htake]
      rw [if_neg (by omega), List.getElem?_append_right (by omega), hlength, List.getElem?_drop]
      congr 1
      omega

theorem take_drop_congr {bytes other : List UInt8} {start source count : Nat}
    (h : ∀ index, index < count → bytes[start + index]? = other[source + index]?) :
    (bytes.drop start).take count = (other.drop source).take count := by
  refine ext_getElem? fun index => ?_
  rw [List.getElem?_take, List.getElem?_take]
  split
  · rename_i hindex
    rw [List.getElem?_drop, List.getElem?_drop]
    exact h index hindex
  · rfl

theorem row_before {width x y y' : Nat} (hx : x ≤ width) (hy : y < y') :
    y * width + x ≤ y' * width := by
  have hmul : (y + 1) * width ≤ y' * width := Nat.mul_le_mul_right _ hy
  rw [Nat.add_one_mul] at hmul
  omega

theorem offset_ok {x y : Nat} (hx : x ≤ canvas.width) (hy : y < 2 ^ 16) :
    canvas.offset x y = .ok ((y * canvas.width + x) * 4) := by
  have hnarrow := canvas.narrow
  have hmul : y * canvas.width ≤ 2 ^ 16 * 2 ^ 16 := Nat.mul_le_mul (by omega) (by omega)
  rw [Canvas.offset, usize, fit, if_pos (by omega)]

theorem overwrite_ok {start : Nat} {row : List UInt8}
    (h : start + row.length ≤ canvas.rgba.length) :
    ∃ after : Canvas, canvas.overwrite start row = .ok after ∧ after.width = canvas.width ∧
      after.height = canvas.height ∧
      after.rgba = canvas.rgba.take start ++ row ++ canvas.rgba.drop (start + row.length) := by
  rw [Canvas.overwrite, dif_pos h]
  exact ⟨_, rfl, rfl, rfl, rfl⟩

theorem putRow_painted (hinside : canvas.Inside area) {row : Nat} (hrow : row < area.height)
    {bytes : List UInt8} (hbytes : bytes.length = area.width * 4) :
    ∃ after, canvas.putRow area row bytes = .ok after ∧
      Painted (fun x y => y = area.y + row ∧ area.x ≤ x ∧ x < area.x + area.width)
        (fun x _ => (bytes.drop ((x - area.x) * 4)).take 4) canvas after := by
  obtain ⟨hright, hbottom⟩ := hinside
  have hlow := canvas.low
  have hy : u16 (area.y + row) = .ok (area.y + row) := by
    rw [u16, fit, if_pos (by omega)]
  have hend : (area.y + row) * canvas.width + area.x + area.width ≤
      canvas.height * canvas.width := by
    have := @row_before canvas.width (area.x + area.width) (area.y + row) canvas.height
      hright (by omega)
    omega
  have hwhole := canvas.whole
  rw [Nat.mul_comm canvas.width] at hwhole
  have hfits : ((area.y + row) * canvas.width + area.x) * 4 + bytes.length ≤
      canvas.rgba.length := by omega
  have hoffset := @offset_ok canvas area.x (area.y + row) (by omega) (by omega)
  obtain ⟨after, hafter, hwidth, hheight, hrgba⟩ := overwrite_ok hfits
  refine ⟨after, ?_, hwidth, hheight, ?_, ?_⟩
  · rw [Canvas.putRow, bind_eq_ok]
    refine ⟨_, hy, ?_⟩
    rw [bind_eq_ok]
    exact ⟨_, hoffset, hafter⟩
  · intro x y hx hy hregion
    obtain ⟨rfl, hleft, hbefore⟩ := hregion
    refine take_drop_congr fun index hindex => ?_
    rw [hrgba, hwidth, getElem?_overwritten _ _ hfits, if_pos (by omega)]
    congr 1
    omega
  · intro x y hx hy hregion
    refine take_drop_congr fun index hindex => ?_
    rw [hrgba, hwidth, getElem?_overwritten _ _ hfits, if_neg ?_]
    rintro ⟨hstart, hstop⟩
    apply hregion
    -- the rows' offsets tell the rows apart
    rcases Nat.lt_trichotomy y (area.y + row) with hlt | heq | hgt
    · have := @row_before canvas.width (x + 1) y (area.y + row) hx hlt
      omega
    · subst heq
      exact ⟨rfl, by omega, by omega⟩
    · have := @row_before canvas.width (area.x + area.width) (area.y + row) y hright hgt
      omega

end Rows

section Areas

variable {canvas : Canvas} {area : Area}

theorem getElem?_chunks (size : Nat) (bytes : List UInt8) (index : Nat) :
    (chunks size bytes)[index]? = if index < bytes.length / size then
      some ((bytes.drop (index * size)).take size) else none := by
  rw [chunks, List.getElem?_map]
  split
  · rename_i hindex
    rw [List.getElem?_range hindex]
    rfl
  · rename_i hindex
    rw [List.getElem?_eq_none (by rw [length_range]; omega)]
    rfl

theorem take_drop_flatten {size index : Nat} {pieces : List (List UInt8)} {piece : List UInt8}
    (hsize : ∀ other ∈ pieces, other.length = size) (h : pieces[index]? = some piece) :
    (pieces.flatten.drop (index * size)).take size = piece := by
  induction pieces generalizing index with
  | nil => cases h
  | cons first pieces ih =>
    have hfirst := hsize first mem_cons_self
    cases index with
    | zero =>
      obtain rfl := some.inj h
      rw [Nat.zero_mul, drop_zero, flatten_cons, ← hfirst]
      exact take_left
    | succ index =>
      have hrest := ih (fun other hother => hsize other (mem_cons_of_mem _ hother)) h
      rw [flatten_cons, Nat.add_one_mul, Nat.add_comm, ← drop_drop, ← hfirst, drop_left, hfirst]
      exact hrest

theorem length_flatten_same {size : Nat} {pieces : List (List UInt8)}
    (hsize : ∀ other ∈ pieces, other.length = size) :
    pieces.flatten.length = pieces.length * size := by
  induction pieces with
  | nil => exact (Nat.zero_mul _).symm
  | cons first pieces ih =>
    rw [flatten_cons, length_append, hsize first mem_cons_self,
      ih fun other hother => hsize other (mem_cons_of_mem _ hother),
      length_cons, Nat.add_one_mul, Nat.add_comm]

theorem opaqueLine_sizes {depth : Nat} {line : List UInt8} (hdepth : 3 ≤ depth) :
    ∀ pixel ∈ (chunks depth line).map fun pixel => pixel.take 3 ++ [255], pixel.length = 4 := by
  intro pixel hpixel
  obtain ⟨chunk, hchunk, rfl⟩ := mem_map.1 hpixel
  obtain ⟨index, hindex, rfl⟩ := mem_map.1 hchunk
  rw [mem_range] at hindex
  have hroom : index * depth + depth ≤ line.length := by
    have := Nat.mul_le_mul_right depth hindex
    rw [Nat.succ_mul] at this
    exact this.trans (Nat.div_mul_le_self _ _)
  simp only [length_append, length_take, length_drop, length_singleton]
  omega

theorem length_opaqueLine {depth width : Nat} {line : List UInt8} (hdepth : 3 ≤ depth)
    (hline : line.length = width * depth) :
    (Canvas.opaqueLine depth line).length = width * 4 := by
  rw [Canvas.opaqueLine, length_flatten_same (opaqueLine_sizes hdepth), length_map, chunks,
    length_map, length_range, hline, Nat.mul_div_cancel _ (by omega)]

theorem opaqueLine_pixel {depth width index : Nat} {line : List UInt8} (hdepth : 3 ≤ depth)
    (hline : line.length = width * depth) (hindex : index < width) :
    ((Canvas.opaqueLine depth line).drop (index * 4)).take 4 =
      (line.drop (index * depth)).take 3 ++ [255] := by
  have hcount : line.length / depth = width := by
    rw [hline, Nat.mul_div_cancel _ (by omega)]
  refine take_drop_flatten (opaqueLine_sizes hdepth) ?_
  rw [List.getElem?_map, getElem?_chunks, hcount, if_pos hindex, map_some,
    List.take_take, Nat.min_eq_left hdepth]

theorem fill_painted (hinside : canvas.Inside area) (rgb : Rgb) :
    ∃ after, canvas.fill area rgb = .ok after ∧
      Painted area.Has (fun _ _ => rgb.rgba) canvas after := by
  have hstep : ∀ row ∈ List.range area.height, ∀ other : Canvas, other.width = canvas.width →
      other.height = canvas.height → ∃ next,
        other.putRow area row (List.replicate area.width rgb.rgba).flatten = .ok next ∧
        Painted (fun x y => y = area.y + row ∧ area.x ≤ x ∧ x < area.x + area.width)
          (fun _ _ => rgb.rgba) other next := by
    intro row hrow other hwidth hheight
    rw [mem_range] at hrow
    have hsizes : ∀ pixel ∈ List.replicate area.width rgb.rgba, pixel.length = 4 := by
      intro pixel hpixel
      rw [eq_of_mem_replicate hpixel]
      rfl
    obtain ⟨next, hnext, hpainted⟩ := @putRow_painted other area
      (by rw [Canvas.Inside, hwidth, hheight]; exact hinside) row hrow
      (List.replicate area.width rgb.rgba).flatten
      (by rw [length_flatten_same hsizes, length_replicate])
    refine ⟨next, hnext, hpainted.congr (fun _ _ _ _ => Iff.rfl) ?_⟩
    rintro x y - - ⟨-, hleft, hright⟩
    refine (take_drop_flatten hsizes ?_).symm
    rw [List.getElem?_replicate, if_pos (by omega)]
  obtain ⟨after, hafter, hpainted⟩ := @foldlM_painted _ canvas _ _ _ canvas.width canvas.height
    (List.range area.height) hstep rfl rfl
  refine ⟨after, hafter, hpainted.congr (fun x y _ _ => ?_) fun _ _ _ _ _ => rfl⟩
  constructor
  · rintro ⟨hcolumn, htop, hbottom⟩
    exact ⟨y - area.y, mem_range.2 (by omega), by omega, hcolumn⟩
  · rintro ⟨row, hrow, rfl, hcolumn⟩
    rw [mem_range] at hrow
    exact ⟨hcolumn, by omega, by omega⟩

/-- The rows of an area that there are pixels for. -/
def Area.HasFirst (area : Area) (rows x y : Nat) : Prop :=
  (area.x ≤ x ∧ x < area.x + area.width) ∧ area.y ≤ y ∧ y < area.y + min area.height rows

theorem putLines_painted {depth : Nat} (hdepth : 3 ≤ depth) (hshallow : depth ≤ 4)
    (hinside : canvas.Inside area) (hwidth : 0 < area.width) (bytes : List UInt8) :
    ∃ after, canvas.putLines depth area bytes = .ok after ∧
      Painted (area.HasFirst (bytes.length / (area.width * depth)))
        (fun x y => (bytes.drop (((y - area.y) * area.width + (x - area.x)) * depth)).take 3 ++
          [255]) canvas after := by
  have hnarrow := canvas.narrow
  have hlow := canvas.low
  have hsize : usize (area.width * depth) = .ok (area.width * depth) := by
    have : area.width * depth ≤ 2 ^ 16 * 4 := Nat.mul_le_mul (by have := hinside.1; omega) hshallow
    rw [usize, fit, if_pos (by omega)]
  have hpos : area.width * depth ≠ 0 := by
    have := Nat.mul_pos hwidth (by omega : 0 < depth)
    omega
  have hlines : chunksExact (area.width * depth) bytes =
      .ok (chunks (area.width * depth) bytes) := by
    rw [chunksExact, if_neg hpos]
  have hitem : ∀ item ∈ ((chunks (area.width * depth) bytes).take area.height).zipIdx,
      item.2 < min area.height (bytes.length / (area.width * depth)) ∧
        item.1 = (bytes.drop (item.2 * (area.width * depth))).take (area.width * depth) := by
    rintro ⟨line, row⟩ hmem
    rw [mk_mem_zipIdx_iff_getElem?, List.getElem?_take] at hmem
    split at hmem
    · rw [getElem?_chunks] at hmem
      split at hmem
      · obtain rfl := some.inj hmem
        exact ⟨by omega, rfl⟩
      · cases hmem
    · cases hmem
  have hstep : ∀ line ∈ ((chunks (area.width * depth) bytes).take area.height).zipIdx,
      ∀ other : Canvas, other.width = canvas.width → other.height = canvas.height → ∃ next,
        other.putRow area (min line.2 65535) (Canvas.opaqueLine depth line.1) = .ok next ∧
        Painted (fun x y => y = area.y + line.2 ∧ area.x ≤ x ∧ x < area.x + area.width)
          (fun x y => (bytes.drop (((y - area.y) * area.width + (x - area.x)) * depth)).take 3 ++
            [255]) other next := by
    intro line hline other hother hheight
    obtain ⟨hrow, hbytes⟩ := hitem line hline
    have hroom : line.2 * (area.width * depth) + area.width * depth ≤ bytes.length := by
      have hcount : line.2 + 1 ≤ bytes.length / (area.width * depth) := by omega
      have := Nat.mul_le_mul_right (area.width * depth) hcount
      rw [Nat.add_one_mul] at this
      exact this.trans (Nat.div_mul_le_self _ _)
    have hlength : line.1.length = area.width * depth := by
      rw [hbytes, length_take, length_drop]
      omega
    have hsmall : min line.2 65535 = line.2 := by
      have := hinside.2
      omega
    obtain ⟨next, hnext, hpainted⟩ := @putRow_painted other area
      (by rw [Canvas.Inside, hother, hheight]; exact hinside) line.2 (by omega)
      (Canvas.opaqueLine depth line.1) (length_opaqueLine hdepth hlength)
    rw [hsmall]
    refine ⟨next, hnext, hpainted.congr (fun _ _ _ _ => Iff.rfl) ?_⟩
    rintro x y - - ⟨hy, hleft, hright⟩
    have hcolumn : x - area.x < area.width := by omega
    have hspan : (x - area.x) * depth + depth ≤ area.width * depth := by
      have := Nat.mul_le_mul_right depth hcolumn
      rw [Nat.succ_mul] at this
      exact this
    have hplace : (line.2 * area.width + (x - area.x)) * depth =
        line.2 * (area.width * depth) + (x - area.x) * depth := by ring
    rw [opaqueLine_pixel hdepth hlength hcolumn, hbytes, drop_take, drop_drop,
      List.take_take, Nat.min_eq_left (by omega), hy, Nat.add_sub_cancel_left, hplace]
  obtain ⟨after, hafter, hpainted⟩ := @foldlM_painted _ canvas _ _ _ canvas.width canvas.height
    ((chunks (area.width * depth) bytes).take area.height).zipIdx hstep rfl rfl
  refine ⟨after, ?_, hpainted.congr (fun x y _ _ => ?_) fun _ _ _ _ _ => rfl⟩
  · rw [Canvas.putLines, bind_eq_ok]
    refine ⟨_, hsize, ?_⟩
    rw [bind_eq_ok]
    exact ⟨_, hlines, hafter⟩
  · constructor
    · rintro ⟨hcolumn, htop, hbottom⟩
      refine ⟨(((bytes.drop ((y - area.y) * (area.width * depth))).take (area.width * depth)),
        y - area.y), ?_, by dsimp only; omega, hcolumn⟩
      rw [mk_mem_zipIdx_iff_getElem?, List.getElem?_take, if_pos (by omega),
        getElem?_chunks, if_pos (by omega)]
    · rintro ⟨line, hline, rfl, hcolumn⟩
      have := (hitem line hline).1
      exact ⟨hcolumn, by omega, by omega⟩

theorem mapM_ok {ι α ε : Type} {f : ι → Except ε α} {items : List ι}
    (h : ∀ item ∈ items, ∃ a, f item = .ok a) : ∃ all, items.mapM f = .ok all := by
  induction items with
  | nil => exact ⟨[], rfl⟩
  | cons item items ih =>
    obtain ⟨a, ha⟩ := h item mem_cons_self
    obtain ⟨all, hall⟩ := ih fun other hother => h other (mem_cons_of_mem _ hother)
    refine ⟨a :: all, ?_⟩
    rw [mapM_cons, ha, hall]
    rfl

theorem read_ok (hinside : canvas.Inside area) : ∃ bytes, canvas.read area = .ok bytes := by
  obtain ⟨hright, hbottom⟩ := hinside
  have hlow := canvas.low
  have hrows : ∀ row ∈ List.range area.height, ∃ bytes, canvas.readRow area row = .ok bytes := by
    intro row hrow
    rw [mem_range] at hrow
    have hy : u16 (area.y + row) = .ok (area.y + row) := by
      rw [u16, fit, if_pos (by omega)]
    have hoffset := @offset_ok canvas area.x (area.y + row) (by omega) (by omega)
    have hend := @row_before canvas.width (area.x + area.width) (area.y + row)
      canvas.height hright (by omega)
    have hwhole := canvas.whole
    rw [Nat.mul_comm canvas.width] at hwhole
    have hslice : slice canvas.rgba (((area.y + row) * canvas.width + area.x) * 4)
        (((area.y + row) * canvas.width + area.x) * 4 + area.width * 4) = .ok _ :=
      if_pos ⟨by omega, by omega⟩
    have hread : canvas.readRow area row = .ok _ :=
      bind_eq_ok.2 ⟨_, hy, bind_eq_ok.2 ⟨_, hoffset, hslice⟩⟩
    exact ⟨_, hread⟩
  obtain ⟨all, hall⟩ := mapM_ok hrows
  refine ⟨all.flatten, ?_⟩
  rw [Canvas.read, bind_eq_ok]
  exact ⟨all, hall, rfl⟩

end Areas

end Opensesh.Vnc
