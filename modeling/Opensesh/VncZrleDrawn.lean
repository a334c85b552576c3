/-
The ZRLE decoder on an encoding of a picture: each tile is drawn, the tiles are the whole
area, and the data are accepted exactly when they are within the limits.
-/
import Opensesh.VncZrle

namespace Opensesh.Vnc

open List

section Tile

variable {canvas : Canvas} {tile : Area} {picture : Picture} {contents : Contents}
  {bytes : List UInt8}

/-- Contents that are a tile's part of a picture. -/
inductive Shows (tile : Area) (picture : Picture) : Contents → Prop
  | solid {colour : Rgb}
      (hsame : ∀ x y, x < tile.width → y < tile.height →
        picture (tile.x + x) (tile.y + y) = colour) : Shows tile picture (.solid colour)
  | pixels : Shows tile picture (.pixels (bytesOf (tilePixels tile picture)))

theorem length_tilePixels (tile : Area) (picture : Picture) :
    (tilePixels tile picture).length = tile.pixels := by
  rw [tilePixels, length_flatMap]
  simp only [length_map, length_range, map_const', sum_replicate_nat]
  exact Nat.mul_comm _ _

/-- The bytes of one pixel of a tile. -/
theorem tilePixels_pixel {x y : Nat} (hx : x < tile.width) (hy : y < tile.height) :
    ((bytesOf (tilePixels tile picture)).drop ((y * tile.width + x) * 3)).take 3 =
      (picture (tile.x + x) (tile.y + y)).bytes := by
  have hpixels : ∀ y, ∀ piece ∈ (List.range tile.width).map
      (fun x => (picture (tile.x + x) (tile.y + y)).bytes), piece.length = 3 := by
    intro y piece hpiece
    obtain ⟨_, _, rfl⟩ := mem_map.1 hpiece
    rfl
  have hrows : ∀ row ∈ (List.range tile.height).map (fun y => ((List.range tile.width).map
      fun x => (picture (tile.x + x) (tile.y + y)).bytes).flatten),
      row.length = tile.width * 3 := by
    intro row hrow
    obtain ⟨y, _, rfl⟩ := mem_map.1 hrow
    rw [length_flatten_same (hpixels y), length_map, length_range]
  have hrow := @take_drop_flatten _ y _ _ hrows (by
    rw [List.getElem?_map, List.getElem?_range hy]
    rfl)
  have hpixel := @take_drop_flatten _ x _ _ (hpixels y) (by
    rw [List.getElem?_map, List.getElem?_range hx]
    rfl)
  dsimp only at hrow hpixel
  have hplace : (y * tile.width + x) * 3 = y * (tile.width * 3) + x * 3 := by ring
  rw [tilePixels, bytesOf_rows, ← hpixel, ← hrow, drop_take, List.take_take,
    Nat.min_eq_left (by omega), drop_drop, hplace]

/-- What is read of a tile is its picture. -/
theorem drawContents_painted (hinside : canvas.Inside tile) (hpos : 0 < tile.width)
    (hshows : Shows tile picture contents) :
    ∃ after, drawContents tile contents canvas = .ok after ∧
      Painted tile.Has (fun x y => (picture x y).rgba) canvas after := by
  cases hshows with
  | @solid colour hsame =>
    obtain ⟨after, hafter, hpainted⟩ := fill_painted hinside colour
    refine ⟨after, hafter, hpainted.congr (fun _ _ _ _ => Iff.rfl) ?_⟩
    rintro x y - - ⟨⟨hleft, hright⟩, htop, hbottom⟩
    have hcolour := hsame (x - tile.x) (y - tile.y) (by omega) (by omega)
    rw [Nat.add_sub_cancel' hleft, Nat.add_sub_cancel' htop] at hcolour
    rw [hcolour]
  | pixels =>
    obtain ⟨after, hafter, hpainted⟩ := putLines_painted (by decide : 3 ≤ 3) (by decide)
      hinside hpos (bytesOf (tilePixels tile picture))
    have hrows : (bytesOf (tilePixels tile picture)).length / (tile.width * 3) = tile.height := by
      rw [length_bytesOf, length_tilePixels, Area.pixels, Nat.mul_right_comm,
        Nat.mul_div_cancel_left _ (by omega)]
    rw [hrows] at hpainted
    refine ⟨after, hafter, hpainted.congr (fun x y _ _ => ?_) ?_⟩
    · rw [Area.HasFirst, Nat.min_self]
      rfl
    · rintro x y - - ⟨⟨hleft, hright⟩, htop, hbottom⟩
      have hpixel := @tilePixels_pixel tile picture (x - tile.x) (y - tile.y) (by omega) (by omega)
      rw [Nat.add_sub_cancel' hleft, Nat.add_sub_cancel' htop] at hpixel
      rw [hpixel]
      rfl

theorem packedPixel_eq {palette : List Rgb} {packed : List UInt8} {size y x : Nat}
    {colour : Rgb} (hy : y < tile.height) (hx : x < tile.width)
    (hlength : packed.length = divCeil (tile.width * paletteBits size) 8 * tile.height)
    (hcolour : palette[packedIndex (paletteBits size)
      (divCeil (tile.width * paletteBits size) 8) packed y x]? = some colour) :
    packedPixel palette (paletteBits size) (divCeil (tile.width * paletteBits size) 8) packed
      y x = .ok colour.bytes := by
  have hplace := packed_place_lt hy hx hlength
  have hshift := packed_shift_le size x
  have hbyte : byteAt packed (y * divCeil (tile.width * paletteBits size) 8 +
      x * paletteBits size / 8) = .ok (packed.getD
        (y * divCeil (tile.width * paletteBits size) 8 + x * paletteBits size / 8) 0) := by
    rw [byteAt, getD_eq_getElem?_getD, List.getElem?_eq_getElem hplace]
    rfl
  have hleft : sub 8 (paletteBits size) = .ok (8 - paletteBits size) := if_pos (by omega)
  have hright : sub (8 - paletteBits size) (x * paletteBits size % 8) =
      .ok (8 - paletteBits size - x * paletteBits size % 8) := if_pos (by omega)
  have hfound : colourOf palette ((packed.getD
      (y * divCeil (tile.width * paletteBits size) 8 + x * paletteBits size / 8) 0).toNat >>>
        (8 - paletteBits size - x * paletteBits size % 8) &&& (1 <<< paletteBits size - 1)) =
      .ok colour := by
    rw [Nat.one_shiftLeft, Nat.and_two_pow_sub_one_eq_mod, Nat.shiftRight_eq_div_pow, colourOf]
    rw [packedIndex] at hcolour
    rw [hcolour]
  exact bind_eq_ok.2 ⟨_, hbyte, bind_eq_ok.2 ⟨_, hleft, bind_eq_ok.2 ⟨_, hright,
    bind_eq_ok.2 ⟨_, hfound, rfl⟩⟩⟩⟩

theorem takeBytes_all {count : Nat} (hcount : bytes.length = count) (rest : List UInt8) :
    takeBytes count (bytes ++ rest) = .ok (bytes, rest) := hcount ▸ takeBytes_append bytes rest

theorem runsTile_bytes {take : TakeRun} {run : RunBytes} (htakes : Takes take run)
    (hruns : RunsOf run (tilePixels tile picture) bytes) (hsmall : tile.pixels ≤ 2 ^ 32)
    (rest : List UInt8) : runsTile take tile (bytes ++ rest) =
      .ok (.pixels (bytesOf (tilePixels tile picture)), rest) := by
  have hlength := length_tilePixels tile picture
  have htaken := @takeRuns_bytes take run htakes _ _ hruns tile.pixels tile.pixels []
    (by rw [length_nil]; omega) hsmall (by omega) rest
  exact bind_eq_ok.2 ⟨_, htaken, rfl⟩

/-- The bytes of a tile read to its picture. -/
theorem tileContents_bytes (htile : TileBytes tile picture bytes) (hwidth : tile.width ≤ 64)
    (hheight : tile.height ≤ 64) (rest : List UInt8) :
    ∃ kind others contents, bytes ++ rest = kind :: others ∧
      tileContents tile kind.toNat others = .ok (contents, rest) ∧
      Shows tile picture contents := by
  have hpixels : tile.pixels ≤ 64 * 64 := Nat.mul_le_mul hwidth hheight
  cases htile with
  | raw =>
    refine ⟨_, _, _, rfl, ?_, .pixels⟩
    have hsize : usize (tile.pixels * 3) = .ok (tile.pixels * 3) := if_pos (by omega)
    have hlength : (bytesOf (tilePixels tile picture)).length = tile.pixels * 3 := by
      rw [length_bytesOf, length_tilePixels]
    have htaken := takeBytes_all hlength rest
    exact bind_eq_ok.2 ⟨_, hsize, bind_eq_ok.2 ⟨_, htaken, rfl⟩⟩
  | @solid colour hsame =>
    exact ⟨_, _, _, rfl, bind_eq_ok.2 ⟨_, takeCpixel_bytes colour rest, rfl⟩, .solid hsame⟩
  | @packed palette packed hlow hhigh hlength hindices =>
    have hkind : (UInt8.ofNat palette.length).toNat = palette.length :=
      UInt8.toNat_ofNat_of_lt' (by change _ < 256; omega)
    refine ⟨_, _, _, congrArg (List.cons _) (List.append_assoc _ _ _), ?_, .pixels⟩
    have hcases := paletteBits_cases palette.length
    have hsize : usize (divCeil (tile.width * paletteBits palette.length) 8 * tile.height) =
        .ok (divCeil (tile.width * paletteBits palette.length) 8 * tile.height) := by
      refine if_pos (Nat.lt_of_le_of_lt (Nat.mul_le_mul (divCeil_le (by decide)) hheight) ?_)
      exact Nat.lt_of_le_of_lt (Nat.mul_le_mul (Nat.mul_le_mul hwidth
        (by omega : paletteBits palette.length ≤ 4)) (Nat.le_refl _)) (by decide)
    have heach := @eachPixel_eq tile.width tile.height _ _ fun y x hy hx =>
      packedPixel_eq hy hx hlength (hindices x y hx hy)
    have hpacked := takeBytes_all hlength rest
    rw [hkind, tileContents, if_neg (by omega), if_neg (by omega), if_pos ⟨hlow, hhigh⟩, packedTile]
    exact bind_eq_ok.2 ⟨_, takePalette_bytes palette _, bind_eq_ok.2 ⟨_, hsize,
      bind_eq_ok.2 ⟨_, hpacked, bind_eq_ok.2 ⟨_, heach, rfl⟩⟩⟩⟩
  | @plainRuns bytes hruns =>
    exact ⟨_, _, _, rfl, runsTile_bytes plainRun_takes hruns (by omega) rest, .pixels⟩
  | @paletteRuns palette bytes hlow hhigh hruns =>
    have hkind : (UInt8.ofNat (palette.length + 128)).toNat = palette.length + 128 :=
      UInt8.toNat_ofNat_of_lt' (by change _ < 256; omega)
    refine ⟨_, _, _, congrArg (List.cons _) (List.append_assoc _ _ _), ?_, .pixels⟩
    rw [hkind, tileContents, if_neg (by omega), if_neg (by omega), if_neg (by omega),
      if_neg (by omega), if_pos (by omega), Nat.add_sub_cancel]
    exact bind_eq_ok.2 ⟨_, takePalette_bytes palette _,
      runsTile_bytes (paletteRun_takes palette) hruns (by omega) rest⟩

end Tile

section Tiles

variable {σ : Type} {canvas : Canvas} {area tile : Area} {picture : Picture}

theorem mem_steps_iff {length size start : Nat} (hsize : 0 < size) :
    start ∈ steps length size ↔ ∃ index, start = index * size ∧ start < length := by
  constructor
  · intro h
    obtain ⟨index, _, heq⟩ := mem_map.1 h
    exact ⟨index, heq.symm, mem_steps hsize h⟩
  · rintro ⟨index, rfl, hlt⟩
    refine mem_map.2 ⟨index, mem_range.2 ?_, rfl⟩
    rw [← Nat.succ_le_iff, Nat.le_div_iff_mul_le hsize, Nat.succ_mul]
    omega

theorem tile_start {offset length size : Nat} (hsize : 0 < size) (h : offset < length) :
    offset / size * size ∈ steps length size ∧ offset / size * size ≤ offset ∧
      offset < offset / size * size + min (length - offset / size * size) size := by
  have hdiv := Nat.div_add_mod offset size
  have hmod := Nat.mod_lt offset hsize
  rw [Nat.mul_comm] at hdiv
  exact ⟨(mem_steps_iff hsize).2 ⟨_, rfl, by omega⟩, by omega, by omega⟩

/-- The tiles make up the area. -/
theorem tilesOf_has {size x y : Nat} (hsize : 0 < size) :
    (∃ tile ∈ tilesOf size area, tile.Has x y) ↔ area.Has x y := by
  constructor
  · rintro ⟨tile, htile, hhas⟩
    obtain ⟨top, htop, htile⟩ := mem_flatMap.1 htile
    obtain ⟨left, hleft, rfl⟩ := mem_map.1 htile
    obtain ⟨⟨hl, hr⟩, ht, hb⟩ := hhas
    dsimp only at hl hr ht hb
    have hwidth := mem_steps hsize hleft
    have hheight := mem_steps hsize htop
    exact ⟨⟨by omega, by omega⟩, by omega, by omega⟩
  · rintro ⟨⟨hleft, hright⟩, htop, hbottom⟩
    obtain ⟨hcolumn, hcl, hcr⟩ := @tile_start (x - area.x) area.width size hsize (by omega)
    obtain ⟨hrow, hrt, hrb⟩ := @tile_start (y - area.y) area.height size hsize (by omega)
    refine ⟨_, mem_flatMap.2 ⟨_, hrow, mem_map.2 ⟨_, hcolumn, rfl⟩⟩, ?_⟩
    exact ⟨⟨by dsimp only; omega, by dsimp only; omega⟩, by dsimp only; omega,
      by dsimp only; omega⟩

theorem tilesOf_tiles {size : Nat} (hsize : 0 < size) (htile : tile ∈ tilesOf size area) :
    area.Tiles size tile := by
  obtain ⟨top, htop, htile⟩ := mem_flatMap.1 htile
  obtain ⟨left, hleft, rfl⟩ := mem_map.1 htile
  have hwidth := mem_steps hsize hleft
  have hheight := mem_steps hsize htop
  exact ⟨by dsimp only; omega, by dsimp only; omega, by dsimp only; omega, by dsimp only; omega,
    by dsimp only; omega, by dsimp only; omega, by dsimp only; omega, by dsimp only; omega⟩

theorem foldlM_congr_mem {m : Type → Type} [Monad m] {ι α : Type} {f g : α → ι → m α}
    {items : List ι} (h : ∀ item ∈ items, ∀ a, f a item = g a item) (a : α) :
    items.foldlM f a = items.foldlM g a := by
  induction items generalizing a with
  | nil => rfl
  | cons item items ih =>
    rw [foldlM_cons, foldlM_cons, h item mem_cons_self]
    congr 1
    funext b
    exact ih (fun other hother => h other (mem_cons_of_mem _ hother)) b

theorem foldlM_flatMap {m : Type → Type} [Monad m] [LawfulMonad m] {ι κ α : Type}
    {f : α → κ → m α} {pieces : ι → List κ} {items : List ι} (a : α) :
    (items.flatMap pieces).foldlM f a =
      items.foldlM (fun a item => (pieces item).foldlM f a) a := by
  induction items generalizing a with
  | nil => rfl
  | cons item items ih =>
    rw [flatMap_cons, foldlM_append, foldlM_cons]
    congr 1
    funext b
    exact ih b

theorem eachTile_eq {α : Type} {size width height : Nat} (hsize : 0 < size)
    (hfits : area.Fits width height) (hwidth : width < 2 ^ 16) (hheight : height < 2 ^ 16)
    (step : α → Area → Decode σ α) (a : α) :
    eachTile size area step a = (tilesOf size area).foldlM step a := by
  rw [tilesOf, foldlM_flatMap, eachTile]
  refine foldlM_congr_mem (fun top htop a => ?_) a
  rw [foldlM_map]
  refine foldlM_congr_mem (fun left hleft a => ?_) a
  rw [tileAt_eq hfits hwidth hheight (mem_steps hsize hleft) (mem_steps hsize htop)]
  exact pure_bind _ _

variable {decoding : Decoding σ} {bytes : List UInt8}

theorem drawing_ok {draw : Canvas → Except Stop Canvas} {after : Canvas}
    (h : draw decoding.canvas = .ok after) :
    (drawing draw : Decode σ Unit) decoding = (.ok (), { decoding with canvas := after }) := by
  have hstate : (Attempt.state : Decode σ (Decoding σ)) decoding = (.ok decoding, decoding) := rfl
  have hlift : (Attempt.lift (draw decoding.canvas) : Decode σ Canvas) decoding =
      (.ok after, decoding) := by
    rw [Attempt.lift, h]
  rw [drawing, Attempt.bind_of_ok hstate, Attempt.bind_of_ok hlift]
  rfl

theorem zrleTile_draws (htile : TileBytes tile picture bytes)
    (hinside : decoding.canvas.Inside tile) (hpos : 0 < tile.width) (hwidth : tile.width ≤ 64)
    (hheight : tile.height ≤ 64) (rest : List UInt8) :
    ∃ after, zrleTile (bytes ++ rest) tile decoding =
        (.ok rest, { decoding with canvas := after }) ∧
      Painted tile.Has (fun x y => (picture x y).rgba) decoding.canvas after := by
  obtain ⟨kind, others, contents, hbytes, hcontents, hshows⟩ :=
    tileContents_bytes htile hwidth hheight rest
  obtain ⟨after, hafter, hpainted⟩ := drawContents_painted hinside hpos hshows
  have hkind : (Attempt.lift (takeByte (bytes ++ rest)) : Decode σ _) decoding =
      (.ok (kind, others), decoding) := by
    rw [hbytes]
    rfl
  have htaken : (Attempt.lift (tileContents tile kind.toNat others) : Decode σ _) decoding =
      (.ok (contents, rest), decoding) := by
    rw [Attempt.lift, hcontents]
  refine ⟨after, ?_, hpainted⟩
  rw [zrleTile, Attempt.bind_of_ok hkind, Attempt.bind_of_ok htaken,
    Attempt.bind_of_ok (drawing_ok hafter)]
  rfl

/-- All tiles together draw the picture. -/
theorem tiles_drawn {tiles : List Area} {width height : Nat}
    (htiles : TilesBytes picture tiles bytes)
    (hfits : ∀ tile ∈ tiles, tile.Fits width height ∧ 0 < tile.width ∧ tile.width ≤ 64 ∧
      tile.height ≤ 64)
    (hwidth : decoding.canvas.width = width) (hheight : decoding.canvas.height = height) :
    ∃ after, tiles.foldlM zrleTile bytes decoding = (.ok [], { decoding with canvas := after }) ∧
      Painted (fun x y => ∃ tile ∈ tiles, tile.Has x y) (fun x y => (picture x y).rgba)
        decoding.canvas after := by
  induction htiles generalizing decoding with
  | nil =>
    refine ⟨decoding.canvas, rfl, Painted.refl fun x y h => ?_⟩
    obtain ⟨tile, hmem, _⟩ := h
    cases hmem
  | @cons tile tiles bytes others htile hothers ih =>
    obtain ⟨hfit, hpos, hnarrow, hlow⟩ := hfits tile mem_cons_self
    obtain ⟨middle, hmiddle, hpainted⟩ := zrleTile_draws htile
      (hfit.inside hwidth hheight) hpos hnarrow hlow others
    obtain ⟨after, hafter, hrest⟩ := @ih { decoding with canvas := middle }
      (fun other hother => hfits other (mem_cons_of_mem _ hother))
      (hpainted.width.trans hwidth) (hpainted.height.trans hheight)
    refine ⟨after, ?_, (hpainted.trans hrest).congr (fun x y _ _ => ?_) fun _ _ _ _ _ => rfl⟩
    · rw [foldlM_cons, Attempt.bind_of_ok hmiddle, hafter]
    · simp only [mem_cons, exists_eq_or_imp]

end Tiles

section Stream

variable {σ : Type} {lib : Libraries σ}

/-- The library undoes deflation: a stream that still has data to give from a block gives it in
pieces, whatever room it gets, and stops only when it has given all of it. -/
structure Undoes (lib : Libraries σ) (gives : σ → List UInt8 → List UInt8 → Prop) : Prop where
  step : ∀ {stream block data space}, gives stream block data → 0 < space →
    ∃ out more, lib.decompress stream block space = .ok out ∧ data = out.written ++ more ∧
      gives out.stream (block.drop out.read) more ∧
      (out.ended ∨ out.read = 0 ∧ out.written = [] → more = [])

variable {gives : σ → List UInt8 → List UInt8 → Prop}

theorem reserve_space {limit length capacity next : Nat} (hle : length ≤ capacity)
    (h : reserve lib limit length capacity = .ok next) : length < next := by
  rcases reserve_eq_ok lib h with ⟨hlimit, -, rfl⟩ | ⟨hne, rfl⟩
  · have := lib.room_ge (length + min (max length 4096) (limit + 1 - length))
    omega
  · omega

theorem inflateLoop_gives (hundoes : Undoes lib gives) {limit capacity : Nat} {stream : σ}
    {block output data : List UInt8} (hgives : gives stream block data)
    (hroom : output.length ≤ capacity) :
    (∃ last, inflateLoop lib none limit stream block output capacity = .ok (last, output ++ data)) ∨
    (inflateLoop lib none limit stream block output capacity = refuse tooBig ∧
      limit < (output ++ data).length) := by
  fun_induction inflateLoop lib none limit stream block output capacity generalizing data with
  | case1 stream block output capacity henough => cases henough
  | case2 stream block output capacity hmore stop hreserve =>
    rw [reserve] at hreserve
    split at hreserve
    · split at hreserve
      · rename_i hlimit
        obtain rfl := Except.error.inj hreserve
        refine Or.inr ⟨rfl, ?_⟩
        rw [length_append]
        omega
      · rw [sub, if_pos (by omega)] at hreserve
        cases hreserve
    · cases hreserve
  | case3 stream block output capacity hmore next hreserve error hread =>
    obtain ⟨out, more, hok, -⟩ := hundoes.step hgives
      (Nat.sub_pos_of_lt (reserve_space hroom hreserve))
    rw [hread] at hok
    cases hok
  | case4 stream block output capacity hmore next hreserve out hread hstop =>
    obtain ⟨out', more, hok, hdata, -, hlast⟩ := hundoes.step hgives
      (Nat.sub_pos_of_lt (reserve_space hroom hreserve))
    rw [hread] at hok
    obtain rfl := Except.ok.inj hok
    rw [hlast hstop, List.append_nil] at hdata
    exact Or.inl ⟨out.stream, by rw [hdata]⟩
  | case5 stream block output capacity hmore next hreserve out hread hstop ih =>
    have hspace := reserve_space hroom hreserve
    obtain ⟨out', more, hok, hdata, hnext, -⟩ := hundoes.step hgives (Nat.sub_pos_of_lt hspace)
    rw [hread] at hok
    obtain rfl := Except.ok.inj hok
    have hwritten := lib.written_le hread
    have hrest := ih hnext (by rw [length_append]; omega)
    rw [List.append_assoc, ← hdata] at hrest
    exact hrest

/-- Unpacked up to the limit, refused past it. -/
theorem inflate_gives (hundoes : Undoes lib gives) {limit : Nat} {stream : σ}
    {block data : List UInt8} (hgives : gives stream block data) (hblock : block.length ≤ 2 ^ 32) :
    (data.length ≤ limit → ∃ last, inflate lib stream block none limit = .ok (last, data)) ∧
    (limit < data.length → inflate lib stream block none limit = refuse tooBig) := by
  have hguess : usize (block.length * 4) = .ok (block.length * 4) := if_pos (by omega)
  have hloop := @inflateLoop_gives σ lib gives hundoes limit
    (lib.room (max (min (block.length * 4) limit) 64)) stream block [] data hgives
    (Nat.zero_le _)
  rw [List.nil_append] at hloop
  have hrun : inflate lib stream block none limit = (do
      let done ← inflateLoop lib none limit stream block []
        (lib.room (max (min (block.length * 4) limit) 64))
      let output ← finish none limit done.2
      pure (done.1, output)) := by
    rw [inflate, hguess]
    rfl
  rw [hrun]
  constructor
  · intro hlimit
    rcases hloop with ⟨last, hlast⟩ | ⟨-, hover⟩
    · refine ⟨last, bind_eq_ok.2 ⟨_, hlast, bind_eq_ok.2 ⟨data, ?_, rfl⟩⟩⟩
      exact if_neg (by dsimp only; omega)
    · omega
  · intro hlimit
    rcases hloop with ⟨last, hlast⟩ | ⟨hrefused, -⟩
    · rw [hlast]
      have hfinish : finish none limit data = refuse tooBig := if_pos hlimit
      change (do
        let output ← finish none limit data
        pure (last, output)) = _
      rw [hfinish]
      rfl
    · rw [hrefused]
      rfl

end Stream

section Rectangle

variable {σ : Type} {lib : Libraries σ} {gives : σ → List UInt8 → List UInt8 → Prop}
  {canvas : Canvas} {area : Area} {picture : Picture} {stream : σ} {tight : Fin 4 → σ}
  {block data : List UInt8}

/-- A block's length, before the block. -/
def be32 (value : Nat) : List UInt8 :=
  [UInt8.ofNat (value / 2 ^ 24), UInt8.ofNat (value / 2 ^ 16), UInt8.ofNat (value / 2 ^ 8),
    UInt8.ofNat value]

theorem readU32_be32 {value : Nat} (h : value < 2 ^ 32) (rest : List UInt8) :
    (readU32 : Decode σ Nat) ⟨be32 value ++ rest, canvas, stream, tight⟩ =
      (.ok value, ⟨rest, canvas, stream, tight⟩) := by
  have hvalue : ((value / 2 ^ 24) % 2 ^ 8 * 256 + (value / 2 ^ 16) % 2 ^ 8) * 65536 +
      ((value / 2 ^ 8) % 2 ^ 8 * 256 + value % 2 ^ 8) = value := by omega
  refine Prod.ext (congrArg Except.ok ?_) rfl
  simp only [UInt8.toNat_ofNat']
  exact hvalue

/-- What a rectangle's message looks like on the connection. -/
def zrleMessage (block rest : List UInt8) : List UInt8 := be32 block.length ++ (block ++ rest)

theorem zrle_small (hsmall : block.length ≤ maxCompressed)
    (hfits : area.Fits canvas.width canvas.height) (rest : List UInt8) :
    zrle lib area ⟨zrleMessage block rest, canvas, stream, tight⟩ =
      (do
        let data ← zrleData lib block (zrleLimit area)
        let _ ← eachTile 64 area zrleTile data
        pure () : Decode σ Unit) ⟨rest, canvas, stream, tight⟩ := by
  have hmax : maxCompressed = 2 ^ 26 := by
    rw [maxCompressed, Nat.shiftLeft_eq]
    rfl
  have hread : (readBytes block.length : Decode σ (List UInt8))
      ⟨block ++ rest, canvas, stream, tight⟩ = (.ok block, ⟨rest, canvas, stream, tight⟩) := by
    rw [readBytes, if_pos (by rw [length_append]; omega), take_left, drop_left]
  have hlimit : (Attempt.lift (usize (zrleLimit area)) : Decode σ Nat)
      ⟨rest, canvas, stream, tight⟩ = (.ok (zrleLimit area), ⟨rest, canvas, stream, tight⟩) := by
    have hle := zrleLimit_le hfits canvas.narrow canvas.low
    rw [Attempt.lift, usize, fit, if_pos (by omega)]
  rw [zrle, zrleMessage, Attempt.bind_of_ok (readU32_be32 (by omega) _),
    if_neg (by omega), Attempt.bind_of_ok hread, Attempt.bind_of_ok hlimit]

theorem zrleData_gives (hundoes : Undoes lib gives) (hgives : gives stream block data)
    (hblock : block.length ≤ 2 ^ 32) {limit : Nat} (hlimit : data.length ≤ limit)
    (rest : List UInt8) :
    ∃ last, zrleData lib block limit ⟨rest, canvas, stream, tight⟩ =
      (.ok data, ⟨rest, canvas, last, tight⟩) := by
  obtain ⟨last, hlast⟩ := (inflate_gives hundoes hgives hblock).1 hlimit
  have hstate : (Attempt.state : Decode σ (Decoding σ)) ⟨rest, canvas, stream, tight⟩ =
      (.ok ⟨rest, canvas, stream, tight⟩, ⟨rest, canvas, stream, tight⟩) := rfl
  have hlift : (Attempt.lift (inflate lib stream block none limit) : Decode σ _)
      ⟨rest, canvas, stream, tight⟩ =
      (.ok (last, data), ⟨rest, canvas, stream, tight⟩) := by
    rw [Attempt.lift, hlast]
  refine ⟨last, ?_⟩
  rw [zrleData, Attempt.bind_of_ok hstate, Attempt.bind_of_ok hlift]
  rfl

theorem zrleData_refuses (hundoes : Undoes lib gives) (hgives : gives stream block data)
    (hblock : block.length ≤ 2 ^ 32) {limit : Nat} (hlimit : limit < data.length)
    (rest : List UInt8) :
    zrleData lib block limit ⟨rest, canvas, stream, tight⟩ =
      (.error (.refused tooBig), ⟨rest, canvas, stream, tight⟩) := by
  have hrefused := (inflate_gives hundoes hgives hblock).2 hlimit
  have hstate : (Attempt.state : Decode σ (Decoding σ)) ⟨rest, canvas, stream, tight⟩ =
      (.ok ⟨rest, canvas, stream, tight⟩, ⟨rest, canvas, stream, tight⟩) := rfl
  have hlift : (Attempt.lift (inflate lib stream block none limit) : Decode σ _)
      ⟨rest, canvas, stream, tight⟩ =
      (.error (.refused tooBig), ⟨rest, canvas, stream, tight⟩) := by
    rw [Attempt.lift, hrefused]
    rfl
  rw [zrleData, Attempt.bind_of_ok hstate, Attempt.bind_of_error hlift]

/-- The rectangle is decoded, all of it and nothing else, into the picture. -/
def DrawsPicture (lib : Libraries σ) (picture : Picture) (area : Area) (rest : List UInt8)
    (decoding : Decoding σ) : Prop :=
  let done := zrle lib area decoding
  done.1 = .ok () ∧ done.2.input = rest ∧
    Painted area.Has (fun x y => (picture x y).rgba) decoding.canvas done.2.canvas

/-- An encoding of a picture is decoded into it exactly when its block and its data are within
the limits. -/
theorem zrle_draws_iff (hundoes : Undoes lib gives) (hinside : canvas.Inside area)
    (hdata : TilesBytes picture (tilesOf 64 area) data) (hgives : gives stream block data)
    (hblock : block.length < 2 ^ 32) (rest : List UInt8) :
    DrawsPicture lib picture area rest ⟨zrleMessage block rest, canvas, stream, tight⟩ ↔
      block.length ≤ maxCompressed ∧ data.length ≤ zrleLimit area := by
  constructor
  · rintro ⟨hok, -, -⟩
    have hsmall : block.length ≤ maxCompressed := by
      by_contra hbig
      rw [zrle, zrleMessage, Attempt.bind_of_ok (readU32_be32 hblock _), if_pos (by omega)] at hok
      cases hok
    refine ⟨hsmall, ?_⟩
    by_contra hover
    rw [zrle_small hsmall hinside, Attempt.bind_of_error (zrleData_refuses hundoes hgives
      (by omega) (by omega) rest)] at hok
    cases hok
  · rintro ⟨hsmall, hlimit⟩
    obtain ⟨last, hlast⟩ := @zrleData_gives σ lib gives canvas stream tight block data hundoes
      hgives (by omega) _ hlimit rest
    have hfits : ∀ tile ∈ tilesOf 64 area, tile.Fits canvas.width canvas.height ∧
        0 < tile.width ∧ tile.width ≤ 64 ∧ tile.height ≤ 64 := by
      intro tile htile
      have htiles := tilesOf_tiles (by decide) htile
      exact ⟨htiles.fits hinside, htiles.wide, htiles.narrow, htiles.low⟩
    obtain ⟨after, hafter, hpainted⟩ := @tiles_drawn σ picture ⟨rest, canvas, last, tight⟩ data
      (tilesOf 64 area) canvas.width canvas.height hdata hfits rfl rfl
    have hrun : zrle lib area ⟨zrleMessage block rest, canvas, stream, tight⟩ =
        (.ok (), ⟨rest, after, last, tight⟩) := by
      rw [zrle_small hsmall hinside, Attempt.bind_of_ok hlast,
        eachTile_eq (by decide) hinside canvas.narrow canvas.low, Attempt.bind_of_ok hafter]
      rfl
    rw [DrawsPicture, hrun]
    exact ⟨rfl, rfl, hpainted.congr (fun x y _ _ => (tilesOf_has (by decide)).symm)
      fun _ _ _ _ _ => rfl⟩

end Rectangle

namespace ZrleWitness

open EncodingWitness

theorem stored_undoes : Undoes stored fun _ block data => block = data := by
  refine ⟨fun {stream block data space} hgives hspace => ?_⟩
  subst hgives
  refine ⟨_, block.drop space, rfl, (take_append_drop _ _).symm, ?_, ?_⟩
  · dsimp only
    rw [length_take]
    rcases Nat.le_total space block.length with hle | hle
    · rw [Nat.min_eq_left hle]
    · rw [Nat.min_eq_right hle, drop_length, drop_eq_nil_of_le hle]
  · rintro (hended | ⟨-, hnothing⟩)
    · cases hended
    · rw [take_eq_nil_iff] at hnothing
      rcases hnothing with hzero | hempty
      · omega
      · rw [hempty, drop_nil]

def pixel : Area := ⟨1, 0, 1, 1⟩

def colour : Rgb := ⟨7, 8, 9⟩

theorem one_tile : tilesOf 64 pixel = [pixel] := by decide

theorem solid_bytes : TilesBytes (fun _ _ => colour) (tilesOf 64 pixel) [1, 7, 8, 9] := by
  have htile : TileBytes pixel (fun _ _ => colour) [1, 7, 8, 9] :=
    @TileBytes.solid pixel (fun _ _ => colour) colour fun _ _ _ _ => rfl
  rw [one_tile]
  exact .cons htile .nil

theorem run_bytes : TilesBytes (fun _ _ => colour) (tilesOf 64 pixel) [128, 7, 8, 9, 0] := by
  have hrun : PlainRun colour 1 [7, 8, 9, 0] := rfl
  have hruns : RunsOf PlainRun (tilePixels pixel fun _ _ => colour) [7, 8, 9, 0] :=
    .cons (by decide) hrun .nil
  have htile : TileBytes pixel (fun _ _ => colour) [128, 7, 8, 9, 0] := .plainRuns hruns
  rw [one_tile]
  exact .cons htile .nil

theorem solid_drawn : DrawsPicture stored (fun _ _ => colour) pixel [5]
    ⟨zrleMessage [1, 7, 8, 9] [5], desktop, (), fun _ => ()⟩ :=
  (zrle_draws_iff stored_undoes (by decide) solid_bytes rfl (by decide) [5]).2
    ⟨by decide, by decide⟩

/-- The run is one byte longer than the limit on a pixel, and is refused. -/
theorem run_refused :
    TilesBytes (fun _ _ => colour) (tilesOf 64 pixel) [128, 7, 8, 9, 0] ∧
    zrleData stored [128, 7, 8, 9, 0] (zrleLimit pixel) ⟨[5], desktop, (), fun _ => ()⟩ =
      (.error (.refused tooBig), ⟨[5], desktop, (), fun _ => ()⟩) ∧
    (zrle stored pixel ⟨zrleMessage [128, 7, 8, 9, 0] [5], desktop, (), fun _ => ()⟩).1 =
      .error (.refused tooBig) := by
  have hrefused := @zrleData_refuses Unit stored (fun _ block data => block = data) desktop ()
    (fun _ => ()) [128, 7, 8, 9, 0] _ stored_undoes rfl (by decide) (zrleLimit pixel)
    (by decide) [5]
  refine ⟨run_bytes, hrefused, ?_⟩
  have hfits : pixel.Fits desktop.width desktop.height := ⟨by decide, by decide⟩
  rw [zrle_small (by decide) hfits, Attempt.bind_of_error hrefused]

end ZrleWitness

end Opensesh.Vnc
