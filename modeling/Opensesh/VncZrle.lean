/-
ZRLE: every encoding of a picture, tile by tile, and what the decoder does with it. It draws
the picture when the data fit its limit, and refuses it otherwise.
-/
import Opensesh.VncEncodings

namespace Opensesh.Vnc

open List

section Encodings

/-- A picture: the colour of each pixel of the desktop. -/
abbrev Picture := Nat → Nat → Rgb

/-- A tile's colours, row after row. -/
def tilePixels (tile : Area) (picture : Picture) : List Rgb :=
  (List.range tile.height).flatMap fun y =>
    (List.range tile.width).map fun x => picture (tile.x + x) (tile.y + y)

def bytesOf (pixels : List Rgb) : List UInt8 := (pixels.map Rgb.bytes).flatten

/-- A run length: bytes of 255 and a smaller one, that add up to the length less one. -/
def runLengthBytes (length : Nat) : List UInt8 :=
  List.replicate ((length - 1) / 255) 255 ++ [UInt8.ofNat ((length - 1) % 255)]

/-- How a run of a colour is written. -/
abbrev RunBytes := Rgb → Nat → List UInt8 → Prop

def PlainRun : RunBytes := fun colour length bytes => bytes = colour.bytes ++ runLengthBytes length

/-- A run in a palette tile: an index alone for one pixel, or with its top bit set and a
length. -/
def PaletteRun (palette : List Rgb) : RunBytes := fun colour length bytes =>
  ∃ index, index < 128 ∧ palette[index]? = some colour ∧
    (length = 1 ∧ bytes = [UInt8.ofNat index] ∨
      bytes = UInt8.ofNat (index + 128) :: runLengthBytes length)

/-- Pixels as runs, split in any way. -/
inductive RunsOf (run : RunBytes) : List Rgb → List UInt8 → Prop
  | nil : RunsOf run [] []
  | cons {colour : Rgb} {length : Nat} {bytes : List UInt8} {pixels : List Rgb}
      {others : List UInt8} (hpos : 0 < length) (hrun : run colour length bytes)
      (hothers : RunsOf run pixels others) :
      RunsOf run (List.replicate length colour ++ pixels) (bytes ++ others)

/-- The index of a pixel in packed rows: its bits, from the left of each byte. -/
def packedIndex (bits row : Nat) (packed : List UInt8) (y x : Nat) : Nat :=
  (packed.getD (y * row + x * bits / 8) 0).toNat / 2 ^ (8 - bits - x * bits % 8) % 2 ^ bits

/-- The bytes a tile of a picture may be sent as. -/
inductive TileBytes (tile : Area) (picture : Picture) : List UInt8 → Prop
  | raw : TileBytes tile picture (0 :: bytesOf (tilePixels tile picture))
  | solid {colour : Rgb}
      (hsame : ∀ x y, x < tile.width → y < tile.height →
        picture (tile.x + x) (tile.y + y) = colour) :
      TileBytes tile picture (1 :: colour.bytes)
  | packed {palette : List Rgb} {packed : List UInt8} (hlow : 2 ≤ palette.length)
      (hhigh : palette.length ≤ 16)
      (hlength : packed.length = divCeil (tile.width * paletteBits palette.length) 8 * tile.height)
      (hpixels : ∀ x y, x < tile.width → y < tile.height →
        palette[packedIndex (paletteBits palette.length)
          (divCeil (tile.width * paletteBits palette.length) 8) packed y x]? =
            some (picture (tile.x + x) (tile.y + y))) :
      TileBytes tile picture (UInt8.ofNat palette.length :: (bytesOf palette ++ packed))
  | plainRuns {bytes : List UInt8} (hruns : RunsOf PlainRun (tilePixels tile picture) bytes) :
      TileBytes tile picture (128 :: bytes)
  | paletteRuns {palette : List Rgb} {bytes : List UInt8} (hlow : 2 ≤ palette.length)
      (hhigh : palette.length ≤ 127)
      (hruns : RunsOf (PaletteRun palette) (tilePixels tile picture) bytes) :
      TileBytes tile picture (UInt8.ofNat (palette.length + 128) :: (bytesOf palette ++ bytes))

/-- The tiles of an area, row after row. -/
def tilesOf (size : Nat) (area : Area) : List Area :=
  (steps area.height size).flatMap fun top => (steps area.width size).map fun left =>
    ⟨area.x + left, area.y + top, min (area.width - left) size, min (area.height - top) size⟩

/-- The bytes of a picture's tiles, one tile after the other. -/
inductive TilesBytes (picture : Picture) : List Area → List UInt8 → Prop
  | nil : TilesBytes picture [] []
  | cons {tile : Area} {tiles : List Area} {bytes others : List UInt8}
      (htile : TileBytes tile picture bytes) (hothers : TilesBytes picture tiles others) :
      TilesBytes picture (tile :: tiles) (bytes ++ others)

end Encodings

section Taking

variable {rest : List UInt8}

theorem takeBytes_append (bytes rest : List UInt8) :
    takeBytes bytes.length (bytes ++ rest) = .ok (bytes, rest) := by
  rw [takeBytes, if_neg (by rw [length_append]; omega), take_left, drop_left]

theorem takeCpixel_bytes (colour : Rgb) (rest : List UInt8) :
    takeCpixel (colour.bytes ++ rest) = .ok (colour, rest) := rfl

theorem takePalette_bytes (palette : List Rgb) (rest : List UInt8) :
    takePalette palette.length (bytesOf palette ++ rest) = .ok (palette, rest) := by
  induction palette with
  | nil => rfl
  | cons first palette ih =>
    have hbytes : bytesOf (first :: palette) ++ rest =
        first.bytes ++ (bytesOf palette ++ rest) := List.append_assoc _ _ _
    rw [hbytes, length_cons, takePalette, takeCpixel_bytes]
    change (do
      let others ← takePalette palette.length (bytesOf palette ++ rest)
      pure (first :: others.1, others.2)) = _
    rw [ih]
    rfl

theorem takeRun_more {count length : Nat} {bytes : List UInt8} (h : length + 255 * count < 2 ^ 64) :
    takeRun length (List.replicate count 255 ++ bytes) = takeRun (length + 255 * count) bytes := by
  induction count generalizing length with
  | zero => rfl
  | succ count ih =>
    have hnext : length + 255 + 255 * count = length + 255 * (count + 1) := by ring
    rw [← hnext] at h
    have hlt : length + 255 < 2 ^ 64 := Nat.lt_of_le_of_lt (Nat.le_add_right _ _) h
    have hfit : usize (length + 255) = .ok (length + 255) := if_pos hlt
    have hmore := @ih (length + 255) h
    have hbyte : (255 : UInt8).toNat = 255 := rfl
    rw [replicate_succ, cons_append, takeRun, hbyte, hfit, ← hnext, ← hmore]
    change (if (255 : UInt8) ≠ 255 then
      (pure (length + 255, List.replicate count 255 ++ bytes) : Except Stop _)
      else takeRun (length + 255) (List.replicate count 255 ++ bytes)) = _
    exact if_neg fun hne => hne rfl

theorem takeRun_bytes {length : Nat} (hpos : 0 < length) (hsmall : length ≤ 2 ^ 32)
    (rest : List UInt8) : takeRun 1 (runLengthBytes length ++ rest) = .ok (length, rest) := by
  have hdiv := Nat.div_add_mod (length - 1) 255
  have hmod := Nat.mod_lt (length - 1) (by decide : 0 < 255)
  have hbyte : (UInt8.ofNat ((length - 1) % 255)).toNat = (length - 1) % 255 :=
    UInt8.toNat_ofNat_of_lt' (by change _ < 256; omega)
  have hne : UInt8.ofNat ((length - 1) % 255) ≠ 255 := by
    intro heq
    rw [heq] at hbyte
    change 255 = _ at hbyte
    omega
  rw [runLengthBytes, List.append_assoc, takeRun_more (by omega), singleton_append, takeRun,
    hbyte, usize, fit, if_pos (by omega)]
  change (if _ then pure (1 + 255 * ((length - 1) / 255) + (length - 1) % 255, rest)
    else takeRun _ rest) = _
  rw [if_pos hne]
  congr 2
  omega

/-- A way to take runs that takes those written this way. -/
def Takes (take : TakeRun) (run : RunBytes) : Prop :=
  ∀ colour length bytes rest, 0 < length → length ≤ 2 ^ 32 → run colour length bytes →
    take (bytes ++ rest) = .ok ((colour, length), rest)

theorem plainRun_takes : Takes plainRun PlainRun := by
  rintro colour length bytes rest hpos hsmall rfl
  rw [plainRun, List.append_assoc, takeCpixel_bytes]
  change (do
    let run ← takeRun 1 (runLengthBytes length ++ rest)
    pure ((colour, run.1), run.2)) = _
  rw [takeRun_bytes hpos hsmall]
  rfl

set_option maxRecDepth 20000 in
theorem topBit_eq {byte : Nat} (h : byte < 256) :
    (UInt8.ofNat byte &&& 0x80 != 0) = decide (128 ≤ byte) := by
  have hall : ∀ byte, byte < 256 →
      (UInt8.ofNat byte &&& 0x80 != 0) = decide (128 ≤ byte) := by decide
  exact hall byte h

theorem paletteRun_takes (palette : List Rgb) : Takes (paletteRun palette) (PaletteRun palette) := by
  rintro colour length bytes rest hpos hsmall ⟨index, hindex, hcolour, hbytes⟩
  have hfound : ∀ byte : UInt8, byte.toNat % 128 = index →
      colourOf palette (byte &&& 0x7F).toNat = .ok colour := by
    intro byte hbyte
    have hmask : (byte &&& 0x7F).toNat = index := by
      rw [UInt8.toNat_and, ← hbyte]
      exact Nat.and_two_pow_sub_one_eq_mod _ 7
    rw [colourOf, hmask, hcolour]
  rcases hbytes with ⟨rfl, rfl⟩ | rfl
  · have hbyte : (UInt8.ofNat index).toNat = index :=
      UInt8.toNat_ofNat_of_lt' (by change _ < 256; omega)
    rw [paletteRun, singleton_append]
    change (do
      let colour ← colourOf palette (UInt8.ofNat index &&& 0x7F).toNat
      let run ← takeRunIf (UInt8.ofNat index &&& 0x80 != 0) rest
      pure ((colour, run.1), run.2)) = _
    rw [hfound _ (by rw [hbyte]; omega), topBit_eq (by omega), decide_eq_false (by omega)]
    rfl
  · have hbyte : (UInt8.ofNat (index + 128)).toNat = index + 128 :=
      UInt8.toNat_ofNat_of_lt' (by change _ < 256; omega)
    rw [paletteRun, cons_append]
    change (do
      let colour ← colourOf palette (UInt8.ofNat (index + 128) &&& 0x7F).toNat
      let run ← takeRunIf (UInt8.ofNat (index + 128) &&& 0x80 != 0) (runLengthBytes length ++ rest)
      pure ((colour, run.1), run.2)) = _
    rw [hfound _ (by rw [hbyte]; omega), topBit_eq (by omega), decide_eq_true (by omega)]
    change (do
      let run ← takeRun 1 (runLengthBytes length ++ rest)
      pure ((colour, run.1), run.2)) = _
    rw [takeRun_bytes hpos hsmall]
    rfl

theorem length_bytesOf (pixels : List Rgb) : (bytesOf pixels).length = pixels.length * 3 := by
  have hsizes : ∀ piece ∈ pixels.map Rgb.bytes, piece.length = 3 := by
    intro piece hpiece
    obtain ⟨colour, _, rfl⟩ := mem_map.1 hpiece
    rfl
  rw [bytesOf, length_flatten_same hsizes, length_map]

theorem bytesOf_append (pixels others : List Rgb) :
    bytesOf (pixels ++ others) = bytesOf pixels ++ bytesOf others := by
  rw [bytesOf, map_append, flatten_append]
  rfl

theorem takeRuns_bytes {take : TakeRun} {run : RunBytes} (htakes : Takes take run)
    {pixels : List Rgb} {bytes : List UInt8} (hruns : RunsOf run pixels bytes) {total fuel : Nat}
    {done : List Rgb} (htotal : done.length + pixels.length = total) (hsmall : total ≤ 2 ^ 32)
    (hfuel : pixels.length ≤ fuel) (rest : List UInt8) :
    takeRuns take total fuel (bytesOf done) (bytes ++ rest) =
      .ok (bytesOf (done ++ pixels), rest) := by
  induction hruns generalizing fuel done with
  | nil =>
    rw [List.append_nil]
    cases fuel with
    | zero => rfl
    | succ fuel =>
      rw [length_nil] at htotal
      rw [takeRuns, if_neg (by rw [length_bytesOf]; omega)]
      rfl
  | @cons colour length bytes pixels others hpos hrun hothers ih =>
    rw [length_append, length_replicate] at htotal hfuel
    obtain ⟨fuel, rfl⟩ : ∃ more, fuel = more + 1 := ⟨fuel - 1, by omega⟩
    have hmissing : sub total ((bytesOf done).length / 3) = .ok (total - done.length) := by
      rw [length_bytesOf, Nat.mul_div_cancel _ (by decide), sub, if_pos (by omega)]
    have hgrown : bytesOf done ++
        (List.replicate (min length (total - done.length)) colour.bytes).flatten =
        bytesOf (done ++ List.replicate length colour) := by
      rw [bytesOf_append, Nat.min_eq_left (by omega)]
      congr 1
      rw [bytesOf, map_replicate]
    rw [takeRuns, if_pos (by rw [length_bytesOf]; omega), List.append_assoc,
      htakes colour length bytes (others ++ rest) hpos (by omega) hrun]
    change (do
      let missing ← sub total ((bytesOf done).length / 3)
      takeRuns take total fuel (bytesOf done ++
        (List.replicate (min length missing) colour.bytes).flatten) (others ++ rest)) = _
    rw [hmissing]
    change takeRuns take total fuel (bytesOf done ++
      (List.replicate (min length (total - done.length)) colour.bytes).flatten) (others ++ rest) = _
    rw [hgrown, ih (by rw [length_append, length_replicate]; omega) (by omega), List.append_assoc]

theorem bytesOf_rows (width height : Nat) (colour : Nat → Nat → Rgb) :
    bytesOf ((List.range height).flatMap fun y => (List.range width).map (colour y)) =
      ((List.range height).map fun y =>
        ((List.range width).map fun x => (colour y x).bytes).flatten).flatten := by
  rw [bytesOf, map_flatMap, flatMap_def, flatten_flatten, map_map]
  congr 2
  funext y
  simp only [Function.comp_apply, map_map]
  rfl

theorem eachPixel_eq {width height : Nat} {pixel : Nat → Nat → Except Stop (List UInt8)}
    {colour : Nat → Nat → Rgb}
    (h : ∀ y x, y < height → x < width → pixel y x = .ok (colour y x).bytes) :
    eachPixel width height pixel = .ok (bytesOf
      ((List.range height).flatMap fun y => (List.range width).map (colour y))) := by
  have hmap : ∀ {α : Type} {f : Nat → Except Stop α} {g : Nat → α} (items : List Nat),
      (∀ item ∈ items, f item = .ok (g item)) → items.mapM f = .ok (items.map g) := by
    intro α f g items
    induction items with
    | nil => exact fun _ => rfl
    | cons item items ih =>
      intro hitems
      rw [mapM_cons, hitems item mem_cons_self,
        ih fun other hother => hitems other (mem_cons_of_mem _ hother)]
      rfl
  have hrow : ∀ y ∈ List.range height, (do
      let row ← (List.range width).mapM (pixel y)
      pure row.flatten : Except Stop (List UInt8)) =
        .ok ((List.range width).map fun x => (colour y x).bytes).flatten := by
    intro y hy
    rw [hmap _ fun x hx => h y x (mem_range.1 hy) (mem_range.1 hx)]
    rfl
  rw [eachPixel, hmap _ hrow]
  exact congrArg Except.ok (bytesOf_rows width height colour).symm

end Taking

end Opensesh.Vnc
