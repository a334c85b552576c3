/-
Decoding a rectangle the server sends: the encodings this client asks for, from the bytes of
the connection onto the canvas. The zlib and JPEG libraries are parameters.
-/
import Opensesh.VncCanvas

namespace Opensesh.Vnc

/-- What one call of the zlib library does: it reads some input and writes some output. -/
structure Inflated (σ : Type) where
  stream : σ
  read : Nat
  written : List UInt8
  ended : Bool

/-- The libraries the decoders use: zlib streams, how much room a vector gets when it is asked
for some, and a JPEG picture's size and pixels. -/
structure Libraries (σ : Type) where
  fresh : σ
  reset : σ → σ
  decompress : σ → List UInt8 → Nat → Except String (Inflated σ)
  room : Nat → Nat
  jpeg : List UInt8 → Except String (Nat × Nat × List UInt8)
  read_le : ∀ {stream input space out}, decompress stream input space = .ok out →
    out.read ≤ input.length
  written_le : ∀ {stream input space out}, decompress stream input space = .ok out →
    out.written.length ≤ space
  room_ge : ∀ size, size ≤ room size

/-- The connection's next bytes, the canvas, and the zlib streams. -/
structure Decoding (σ : Type) where
  input : List UInt8
  canvas : Canvas
  zrle : σ
  tight : Fin 4 → σ

abbrev Decode (σ α : Type) := Attempt (Decoding σ) Stop α

def refuse {α : Type} (message : String) : Except Stop α := .error (.refused message)

section Reading

variable {σ : Type}

def readBytes (count : Nat) : Decode σ (List UInt8) := fun decoding =>
  if count ≤ decoding.input.length then
    (.ok (decoding.input.take count), { decoding with input := decoding.input.drop count })
  else (.error .ended, { decoding with input := [] })

def readU8 : Decode σ UInt8 := fun decoding =>
  match decoding.input with
  | [] => (.error .ended, decoding)
  | byte :: rest => (.ok byte, { decoding with input := rest })

def readU16 : Decode σ Nat := do
  let high ← readU8
  let low ← readU8
  pure (high.toNat * 256 + low.toNat)

def readU32 : Decode σ Nat := do
  let high ← readU16
  let low ← readU16
  pure (high * 65536 + low)

/-- Three bytes, red first. -/
def readTpixel : Decode σ Rgb := do
  let red ← readU8
  let green ← readU8
  let blue ← readU8
  pure ⟨red, green, blue⟩

/-- One pixel in the session's format. -/
def readPixel : Decode σ Rgb := do
  let rgb ← readTpixel
  let _ ← readU8
  pure rgb

/-- Further bytes of a compact length, when the one before says so. -/
def readMore (more : Bool) (rest : Decode σ Nat) : Decode σ Nat :=
  if more then rest else pure 0

/-- A compact length: one to three bytes, seven bits each. -/
def readCompact : Decode σ Nat := do
  let first ← readU8
  let rest ← readMore (first &&& 0x80 != 0) do
    let second ← readU8
    let last ← readMore (second &&& 0x80 != 0) do
      let third ← readU8
      pure (third.toNat <<< 14)
    pure ((second &&& 0x7F).toNat <<< 7 ||| last)
  pure ((first &&& 0x7F).toNat ||| rest)

/-- A pixel of its own, or the colour used so far. -/
def readColourIf (own : Bool) (colour : Rgb) : Decode σ Rgb :=
  if own then readPixel else pure colour

/-- A byte of its own, or zero. -/
def readU8If (own : Bool) : Decode σ UInt8 := if own then readU8 else pure 0

def drawing (draw : Canvas → Except Stop Canvas) : Decode σ Unit := do
  let decoding ← Attempt.state
  let canvas ← Attempt.lift (draw decoding.canvas)
  Attempt.modify fun decoding => { decoding with canvas }

end Reading

section Inflate

variable {σ : Type} (lib : Libraries σ)

def tooBig : String := "a compressed rectangle is too big"

/-- Room for more output, when there is none left. -/
def reserve (limit length capacity : Nat) : Except Stop Nat :=
  if length = capacity then
    if limit < length then refuse tooBig
    else do
      let missing ← sub (limit + 1) length
      pure (lib.room (length + min (max length 4096) missing))
  else pure capacity

theorem reserve_eq_ok {limit length capacity next : Nat}
    (h : reserve lib limit length capacity = .ok next) :
    (length ≤ limit ∧ length = capacity ∧
      next = lib.room (length + min (max length 4096) (limit + 1 - length))) ∨
      (length ≠ capacity ∧ next = capacity) := by
  rw [reserve] at h
  split at h
  · split at h
    · cases h
    · rename_i hfull hlimit
      rw [sub, if_pos (by omega)] at h
      exact Or.inl ⟨by omega, hfull, (Except.ok.inj h).symm⟩
  · rename_i hspace
    exact Or.inr ⟨hspace, (Except.ok.inj h).symm⟩

set_option linter.unusedVariables false in
/-- Inflates until enough came out, the stream ends or gives no more. -/
def inflateLoop (expected : Option Nat) (limit : Nat) (stream : σ) (rest output : List UInt8)
    (capacity : Nat) : Except Stop (σ × List UInt8) :=
  if expected.any (· ≤ output.length) then .ok (stream, output)
  else
    match hreserve : reserve lib limit output.length capacity with
    | .error stop => .error stop
    | .ok capacity =>
      match hread : lib.decompress stream rest (capacity - output.length) with
      | .error error => refuse s!"zlib: {error}"
      | .ok out =>
        if hstop : out.ended ∨ out.read = 0 ∧ out.written = [] then
          .ok (out.stream, output ++ out.written)
        else
          inflateLoop expected limit out.stream (rest.drop out.read) (output ++ out.written)
            capacity
termination_by (rest.length, limit + 1 - output.length, capacity - output.length)
decreasing_by
  have hle := lib.read_le hread
  have hroom := lib.written_le hread
  have hcases := reserve_eq_ok lib hreserve
  rw [not_or, not_and] at hstop
  simp only [Prod.lex_def, List.length_drop, List.length_append]
  by_cases hzero : out.read = 0
  · have hwritten : 0 < out.written.length := List.length_pos_iff.2 (hstop.2 hzero)
    omega
  · omega

/-- What is left of the output: exactly what was expected, or all of it. -/
def finish (expected : Option Nat) (limit : Nat) (output : List UInt8) : Except Stop (List UInt8) :=
  match expected with
  | some expected =>
    if output.length < expected then refuse "a compressed rectangle ended early"
    else pure (output.take expected)
  | none => if limit < output.length then refuse tooBig else pure output

/-- Inflates a block on a stream. -/
def inflate (stream : σ) (input : List UInt8) (expected : Option Nat) (limit : Nat) :
    Except Stop (σ × List UInt8) := do
  let guess ← usize (input.length * 4)
  let done ← inflateLoop lib expected limit stream input []
    (lib.room (max (min (expected.getD guess) limit) 64))
  let output ← finish expected limit done.2
  pure (done.1, output)

end Inflate

section Plain

variable {σ : Type}

def raw (area : Area) : Decode σ Unit := do
  let size ← Attempt.lift (usize (area.pixels * 4))
  let pixels ← readBytes size
  drawing (·.putRgbx area pixels)

def checked (area : Area) : Decode σ Unit := do
  let decoding ← Attempt.state
  Attempt.lift (decoding.canvas.check area)

def copyRect (area : Area) : Decode σ Unit := do
  let x ← readU16
  let y ← readU16
  checked { area with x, y }
  drawing (·.copy x y area)

/-- The starts of pieces of this size. -/
def steps (length size : Nat) : List Nat :=
  (List.range ((length + (size - 1)) / size)).map (· * size)

/-- The tile at a place of an area, cut at its edges. -/
def tileAt (size : Nat) (area : Area) (top left : Nat) : Except Stop Area := do
  let x ← u16 (area.x + left)
  let y ← u16 (area.y + top)
  let width ← sub area.width left
  let height ← sub area.height top
  pure ⟨x, y, min width size, min height size⟩

/-- The tiles of an area, row after row. -/
def eachTile {α : Type} (size : Nat) (area : Area) (step : α → Area → Decode σ α) (a : α) :
    Decode σ α :=
  (steps area.height size).foldlM (fun a top =>
    (steps area.width size).foldlM (fun a left => do
      let tile ← Attempt.lift (tileAt size area top left)
      step a tile) a) a

/-- A subrectangle of a tile. -/
def subrect (tile : Area) (coloured : Bool) (foreground : Rgb) : Decode σ Unit := do
  let colour ← readColourIf coloured foreground
  let xy ← readU8
  let wh ← readU8
  let width := (wh >>> 4).toNat + 1
  let height := (wh &&& 0x0F).toNat + 1
  let right ← Attempt.lift (u16 ((xy >>> 4).toNat + width))
  let bottom ← Attempt.lift (u16 ((xy &&& 0x0F).toNat + height))
  if tile.width < right ∨ tile.height < bottom then
    Attempt.fail (.refused "a Hextile subrectangle outside its tile")
  else do
    let x ← Attempt.lift (u16 (tile.x + (xy >>> 4).toNat))
    let y ← Attempt.lift (u16 (tile.y + (xy &&& 0x0F).toNat))
    drawing (·.fill ⟨x, y, width, height⟩ colour)

def subrects (tile : Area) (coloured : Bool) (foreground : Rgb) : Nat → Decode σ Unit
  | 0 => pure ()
  | count + 1 => do
    subrect tile coloured foreground
    subrects tile coloured foreground count

/-- The colours a tile leaves to the next one. -/
structure Colours where
  background : Rgb
  foreground : Rgb

/-- A tile that is not raw: a background with rectangles on it. -/
def hextileParts (mask : UInt8) (colours : Colours) (tile : Area) : Decode σ Colours := do
  let background ← readColourIf (mask &&& 2 != 0) colours.background
  drawing (·.fill tile background)
  let foreground ← readColourIf (mask &&& 4 != 0) colours.foreground
  if mask &&& 8 = 0 then pure ⟨background, foreground⟩
  else do
    let count ← readU8
    subrects tile (mask &&& 16 != 0) foreground count.toNat
    pure ⟨background, foreground⟩

def hextileTile (colours : Colours) (tile : Area) : Decode σ Colours := do
  let mask ← readU8
  if mask &&& 1 ≠ 0 then do
    raw tile
    pure colours
  else hextileParts mask colours tile

def hextile (area : Area) : Decode σ Unit := do
  let _ ← eachTile 16 area hextileTile ⟨⟨0, 0, 0⟩, ⟨0, 0, 0⟩⟩
  pure ()

end Plain

section Zrle

/-- Bytes from the front of a slice. -/
def takeBytes (count : Nat) (bytes : List UInt8) : Except Stop (List UInt8 × List UInt8) :=
  if bytes.length < count then refuse "a ZRLE rectangle ended early"
  else .ok (bytes.take count, bytes.drop count)

def takeByte : List UInt8 → Except Stop (UInt8 × List UInt8)
  | [] => refuse "a ZRLE rectangle ended early"
  | byte :: rest => .ok (byte, rest)

def takeCpixel : List UInt8 → Except Stop (Rgb × List UInt8)
  | red :: green :: blue :: rest => .ok (⟨red, green, blue⟩, rest)
  | _ => refuse "a ZRLE rectangle ended early"

/-- A run length: bytes of 255 add up, the last one ends it. -/
def takeRun (length : Nat) : List UInt8 → Except Stop (Nat × List UInt8)
  | [] => refuse "a ZRLE rectangle ended early"
  | byte :: rest => do
    let length ← usize (length + byte.toNat)
    if byte ≠ 255 then pure (length, rest) else takeRun length rest

def takePalette : Nat → List UInt8 → Except Stop (List Rgb × List UInt8)
  | 0, bytes => pure ([], bytes)
  | count + 1, bytes => do
    let first ← takeCpixel bytes
    let others ← takePalette count first.2
    pure (first.1 :: others.1, others.2)

def Rgb.bytes (rgb : Rgb) : List UInt8 := [rgb.red, rgb.green, rgb.blue]

def colourOf (palette : List Rgb) (index : Nat) : Except Stop Rgb :=
  match palette[index]? with
  | some colour => .ok colour
  | none => refuse "a ZRLE palette index out of range"

/-- The bits a pixel takes in a packed palette. -/
def paletteBits (size : Nat) : Nat :=
  if size = 2 then 1 else if size ≤ 4 then 2 else 4

def divCeil (a b : Nat) : Nat := (a + (b - 1)) / b

/-- A pixel of a packed row. -/
def packedPixel (palette : List Rgb) (bits row : Nat) (packed : List UInt8) (y x : Nat) :
    Except Stop (List UInt8) := do
  let byte ← byteAt packed (y * row + x * bits / 8)
  let left ← sub 8 bits
  let shift ← sub left (x * bits % 8)
  let colour ← colourOf palette (byte.toNat >>> shift &&& (1 <<< bits - 1))
  pure colour.bytes

/-- Bytes for each pixel, row after row. -/
def eachPixel (width height : Nat) (pixel : Nat → Nat → Except Stop (List UInt8)) :
    Except Stop (List UInt8) := do
  let rows ← (List.range height).mapM fun y => do
    let row ← (List.range width).mapM (pixel y)
    pure row.flatten
  pure rows.flatten

/-- A tile's contents. -/
inductive Contents where
  | solid (rgb : Rgb)
  | pixels (rgb : List UInt8)

def packedTile (size : Nat) (tile : Area) (bytes : List UInt8) :
    Except Stop (Contents × List UInt8) := do
  let palette ← takePalette size bytes
  let bits := paletteBits size
  let row := divCeil (tile.width * bits) 8
  let length ← usize (row * tile.height)
  let packed ← takeBytes length palette.2
  let rgb ← eachPixel tile.width tile.height (packedPixel palette.1 bits row packed.1)
  pure (.pixels rgb, packed.2)

/-- A run's colour and length. -/
abbrev TakeRun := List UInt8 → Except Stop ((Rgb × Nat) × List UInt8)

def plainRun : TakeRun := fun bytes => do
  let colour ← takeCpixel bytes
  let run ← takeRun 1 colour.2
  pure ((colour.1, run.1), run.2)

/-- The length of a run in a palette tile: one, unless the index says otherwise. -/
def takeRunIf (long : Bool) (bytes : List UInt8) : Except Stop (Nat × List UInt8) :=
  if long then takeRun 1 bytes else pure (1, bytes)

def paletteRun (palette : List Rgb) : TakeRun := fun bytes => do
  let index ← takeByte bytes
  let colour ← colourOf palette (index.1 &&& 0x7F).toNat
  let run ← takeRunIf (index.1 &&& 0x80 != 0) index.2
  pure ((colour, run.1), run.2)

/-- Runs until the pixels are there; each gives one at least, so that as many runs as there
are pixels are enough. -/
def takeRuns (take : TakeRun) (pixels : Nat) :
    Nat → List UInt8 → List UInt8 → Except Stop (List UInt8 × List UInt8)
  | 0, rgb, bytes => pure (rgb, bytes)
  | more + 1, rgb, bytes =>
    if rgb.length < pixels * 3 then do
      let run ← take bytes
      let missing ← sub pixels (rgb.length / 3)
      takeRuns take pixels more
        (rgb ++ (List.replicate (min run.1.2 missing) run.1.1.bytes).flatten) run.2
    else pure (rgb, bytes)

def runsTile (take : TakeRun) (tile : Area) (bytes : List UInt8) :
    Except Stop (Contents × List UInt8) := do
  let runs ← takeRuns take tile.pixels tile.pixels [] bytes
  pure (.pixels runs.1, runs.2)

/-- A tile's contents, by its kind. -/
def tileContents (tile : Area) (kind : Nat) (bytes : List UInt8) :
    Except Stop (Contents × List UInt8) :=
  if kind = 0 then do
    let size ← usize (tile.pixels * 3)
    let pixels ← takeBytes size bytes
    pure (.pixels pixels.1, pixels.2)
  else if kind = 1 then do
    let colour ← takeCpixel bytes
    pure (.solid colour.1, colour.2)
  else if 2 ≤ kind ∧ kind ≤ 16 then packedTile kind tile bytes
  else if kind = 128 then runsTile plainRun tile bytes
  else if 130 ≤ kind then do
    let palette ← takePalette (kind - 128) bytes
    runsTile (paletteRun palette.1) tile palette.2
  else refuse s!"unknown ZRLE tile type {kind}"

def drawContents (tile : Area) (contents : Contents) (canvas : Canvas) : Except Stop Canvas :=
  match contents with
  | .solid rgb => canvas.fill tile rgb
  | .pixels rgb => canvas.putRgb tile rgb

variable {σ : Type}

def zrleTile (bytes : List UInt8) (tile : Area) : Decode σ (List UInt8) := do
  let kind ← Attempt.lift (takeByte bytes)
  let contents ← Attempt.lift (tileContents tile kind.1.toNat kind.2)
  drawing (drawContents tile contents.1)
  pure contents.2

/-- The largest compressed block a rectangle may carry. -/
def maxCompressed : Nat := 64 <<< 20

/-- The limit on a rectangle's data: three bytes a pixel and one a tile. -/
def zrleLimit (area : Area) : Nat :=
  area.pixels * 3 + divCeil area.width 64 * divCeil area.height 64

/-- A block inflated on the stream of the connection. -/
def zrleData (lib : Libraries σ) (compressed : List UInt8) (limit : Nat) :
    Decode σ (List UInt8) := do
  let decoding ← Attempt.state
  let data ← Attempt.lift (inflate lib decoding.zrle compressed none limit)
  Attempt.modify fun decoding => { decoding with zrle := data.1 }
  pure data.2

def zrle (lib : Libraries σ) (area : Area) : Decode σ Unit := do
  let length ← readU32
  if maxCompressed < length then Attempt.fail (.refused "a ZRLE rectangle is too big")
  else do
    let compressed ← readBytes length
    let limit ← Attempt.lift (usize (zrleLimit area))
    let data ← zrleData lib compressed limit
    let _ ← eachTile 64 area zrleTile data
    pure ()

end Zrle

section Tight

/-- The remainder and the quotient, when there is one. -/
def divRem (a b : Nat) : Except Stop (Nat × Nat) :=
  if b = 0 then .error (.panicked .division) else .ok (a % b, a / b)

/-- A neighbour of a pixel, or zero at the edge. -/
def neighbour (present : Bool) (out : List UInt8) (index : Nat) : Except Stop Int := do
  if present then do
    let byte ← byteAt out index
    pure (byte.toNat : Int)
  else pure 0

def gradientStep (width : Nat) (out : List UInt8) (value : UInt8 × Nat) :
    Except Stop (List UInt8) := do
  let place ← divRem (value.2 / 3) width
  let x := place.1
  let y := place.2
  let component := value.2 % 3
  let left ← neighbour (0 < x) out ((y * width + (x - 1)) * 3 + component)
  let above ← neighbour (0 < y) out (((y - 1) * width + x) * 3 + component)
  let corner ← neighbour (0 < x && 0 < y) out (((y - 1) * width + (x - 1)) * 3 + component)
  let predicted := UInt8.ofNat (max 0 (min 255 (left + above - corner))).toNat
  let _ ← byteAt out value.2
  pure (out.set value.2 (value.1 + predicted))

/-- The gradient filter undone: each component plus what its neighbours predict. -/
def gradient (data : List UInt8) (width : Nat) : Except Stop (List UInt8) :=
  data.zipIdx.foldlM (gradientStep width) (List.replicate data.length 0)

/-- The index of a pixel in a palette: one bit with two colours, else a byte. -/
def tightIndex (colours row : Nat) (data : List UInt8) (y x : Nat) : Except Stop Nat :=
  if colours = 2 then do
    let byte ← byteAt data (y * divCeil row 8 + x / 8)
    let shift ← sub 7 (x % 8)
    pure (byte.toNat >>> shift &&& 1)
  else do
    let byte ← byteAt data (y * row + x)
    pure byte.toNat

def tightPixel (colours row : Nat) (palette data : List UInt8) (y x : Nat) :
    Except Stop (List UInt8) := do
  let index ← tightIndex colours row data y x
  if index * 3 + 3 ≤ palette.length then pure ((palette.drop (index * 3)).take 3)
  else refuse "a Tight palette index out of range"

variable {σ : Type} (lib : Libraries σ)

/-- A JPEG picture of exactly the area's size. -/
def jpeg (data : List UInt8) (area : Area) : Except Stop (List UInt8) :=
  match lib.jpeg data with
  | .error error => refuse s!"a Tight JPEG picture: {error}"
  | .ok (width, height, pixels) =>
    if (width, height) ≠ (area.width, area.height) ∨ pixels.length ≠ area.pixels * 4 then
      let size := s!"{area.width}x{area.height}"
      refuse s!"a Tight JPEG picture of {width}x{height} for a {size} rectangle"
    else pure pixels

/-- A block inflated on one of the four streams. -/
def tightBlock (stream : Fin 4) (compressed : List UInt8) (length : Nat) :
    Decode σ (List UInt8) := do
  let decoding ← Attempt.state
  let data ← Attempt.lift (inflate lib (decoding.tight stream) compressed (some length) length)
  Attempt.modify fun decoding =>
    { decoding with tight := fun other => if other = stream then data.1 else decoding.tight other }
  pure data.2

/-- Data in clear below 12 bytes, else a compact length and a block. -/
def tightData (stream : Fin 4) (length : Nat) : Decode σ (List UInt8) :=
  if length < 12 then readBytes length
  else do
    let compressedLength ← readCompact
    let compressed ← readBytes compressedLength
    tightBlock lib stream compressed length

def tightLength (colours : Nat) (area : Area) : Nat :=
  if colours = 2 then divCeil area.width 8 * area.height else area.pixels

def tightCopy (stream : Fin 4) (area : Area) : Decode σ Unit := do
  let size ← Attempt.lift (usize (area.pixels * 3))
  let data ← tightData lib stream size
  drawing (·.putRgb area data)

def tightPalette (stream : Fin 4) (area : Area) : Decode σ Unit := do
  let last ← readU8
  let colours := last.toNat + 1
  let palette ← readBytes (colours * 3)
  let length ← Attempt.lift (usize (tightLength colours area))
  let data ← tightData lib stream length
  let rgb ← Attempt.lift
    (eachPixel area.width area.height (tightPixel colours area.width palette data))
  drawing (·.putRgb area rgb)

def tightGradient (stream : Fin 4) (area : Area) : Decode σ Unit := do
  let size ← Attempt.lift (usize (area.pixels * 3))
  let data ← tightData lib stream size
  let rgb ← Attempt.lift (gradient data area.width)
  drawing (·.putRgb area rgb)

/-- Pixels on a zlib stream, with a filter. -/
def tightFiltered (kind : Nat) (area : Area) : Decode σ Unit := do
  let stream : Fin 4 := ⟨kind % 4, Nat.mod_lt _ (by decide)⟩
  let filter ← readU8If (kind &&& 4 != 0)
  if filter = 0 then tightCopy lib stream area
  else if filter = 1 then tightPalette lib stream area
  else if filter = 2 then tightGradient lib stream area
  else Attempt.fail (.refused s!"unknown Tight filter {filter}")

def tightJpeg (area : Area) : Decode σ Unit := do
  let length ← readCompact
  let data ← readBytes length
  let rgba ← Attempt.lift (jpeg lib data area)
  drawing (·.putRgbx area rgba)

def tightFill (area : Area) : Decode σ Unit := do
  let colour ← readTpixel
  drawing (·.fill area colour)

/-- The streams the control byte names start again. -/
def resetStreams (control : UInt8) : Decode σ Unit := Attempt.modify fun decoding =>
  { decoding with tight := fun stream =>
      if control.toNat.testBit stream then lib.reset (decoding.tight stream)
      else decoding.tight stream }

def tight (area : Area) : Decode σ Unit := do
  let control ← readU8
  resetStreams lib control
  let kind := control.toNat / 16
  if kind = 8 then tightFill area
  else if kind = 9 then tightJpeg lib area
  else if kind &&& 8 = 0 then tightFiltered lib kind area
  else
    let hex := String.ofList (Nat.toDigits 16 kind)
    Attempt.fail (.refused s!"a Tight rectangle of type 0x{hex}, which wasn't asked for")

end Tight

section Rectangles

variable {σ : Type}

/-- A cursor picture with its hot spot. -/
structure Cursor where
  width : Nat
  height : Nat
  hotX : Nat
  hotY : Nat
  rgba : List UInt8

def cursorPixel (width row : Nat) (pixels mask : List UInt8) (y x : Nat) :
    Except Stop (List UInt8) := do
  let place := (y * width + x) * 4
  let shape ← byteAt mask (y * row + x / 8)
  let red ← byteAt pixels place
  let green ← byteAt pixels (place + 1)
  let blue ← byteAt pixels (place + 2)
  pure [red, green, blue, if shape.toNat &&& (0x80 >>> (x % 8)) ≠ 0 then 255 else 0]

/-- The pixels, then a bit mask. -/
def cursor (area : Area) : Decode σ Cursor := do
  let size ← Attempt.lift (usize (area.pixels * 4))
  let pixels ← readBytes size
  let row := divCeil area.width 8
  let length ← Attempt.lift (usize (row * area.height))
  let mask ← readBytes length
  let rgba ← Attempt.lift
    (eachPixel area.width area.height (cursorPixel area.width row pixels mask))
  pure ⟨area.width, area.height, area.x, area.y, rgba⟩

/-- The encodings with a decoder. -/
inductive Encoding where
  | raw
  | copyRect
  | hextile
  | zrle
  | tight
  | cursor

def Encoding.decode (lib : Libraries σ) (area : Area) : Encoding → Decode σ Unit
  | .raw => Vnc.raw area
  | .copyRect => Vnc.copyRect area
  | .hextile => Vnc.hextile area
  | .zrle => Vnc.zrle lib area
  | .tight => Vnc.tight lib area
  | .cursor => do
    let _ ← Vnc.cursor area
    pure ()

end Rectangles

end Opensesh.Vnc
