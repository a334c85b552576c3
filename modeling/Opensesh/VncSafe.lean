/-
Decoding never panics, but for a rectangle of width zero in an encoding that puts lines of
pixels, and never changes a pixel outside the rectangle.
-/
import Opensesh.VncDecode

namespace Opensesh.Vnc

open List

section Fine

variable {α β : Type} {Q P : α → Prop} {R : β → Prop}

/-- No panic, and this holds of the value, if there is one. -/
def Fine (result : Except Stop α) (Q : α → Prop) : Prop :=
  match result with
  | .ok a => Q a
  | .error stop => stop.isPanic = false

variable {a : α} {result : Except Stop α} {value : Nat} {ι : Type} {items : List ι}

theorem fine_ok (h : Q a) : Fine (.ok a) Q := h

theorem fine_pure (h : Q a) : Fine (pure a) Q := h

theorem fine_refuse (message : String) : Fine (refuse message) Q := rfl

theorem Fine.bind {next : α → Except Stop β} (h : Fine result Q)
    (hnext : ∀ a, Q a → Fine (next a) R) : Fine (result >>= next) R := by
  cases result with
  | error stop => exact h
  | ok a => exact hnext a h

theorem Fine.mono (h : Fine result Q) (himp : ∀ a, Q a → P a) : Fine result P := by
  cases result with
  | error stop => exact h
  | ok a => exact himp a h

/-- A value that fits its width stays as it is. -/
theorem fine_fit {bits : Nat} (h : value < 2 ^ bits) :
    Fine (fit bits value) fun result => result = value := by
  rw [fit, if_pos h]
  exact fine_ok rfl

theorem fine_u16 (h : value < 2 ^ 16) : Fine (u16 value) fun result => result = value := fine_fit h

theorem fine_usize (h : value < 2 ^ 64) :
    Fine (usize value) fun result => result = value := fine_fit h

/-- A difference that doesn't underflow. -/
theorem fine_sub {a b : Nat} (h : b ≤ a) : Fine (sub a b) fun result => result = a - b := by
  rw [sub, if_pos h]
  exact fine_ok rfl

theorem fine_byteAt {bytes : List UInt8} {index : Nat} (h : index < bytes.length) :
    Fine (byteAt bytes index) fun _ => True := by
  rw [byteAt, List.getElem?_eq_getElem h]
  exact fine_ok trivial

theorem fine_mapM {f : ι → Except Stop α} (h : ∀ item ∈ items, Fine (f item) fun _ => True) :
    Fine (items.mapM f) fun _ => True := by
  induction items with
  | nil => exact fine_ok trivial
  | cons item items ih =>
    rw [mapM_cons]
    refine (h item mem_cons_self).bind fun a _ => ?_
    exact (ih fun other hother => h other (mem_cons_of_mem _ hother)).bind
      fun _ _ => fine_pure trivial

/-- Pixels are written when each of them is. -/
theorem fine_eachPixel {width height : Nat} {pixel : Nat → Nat → Except Stop (List UInt8)}
    (h : ∀ y x, y < height → x < width → Fine (pixel y x) fun _ => True) :
    Fine (eachPixel width height pixel) fun _ => True := by
  refine (fine_mapM fun y hy => ?_).bind fun _ _ => fine_pure trivial
  refine (fine_mapM fun x hx => ?_).bind fun _ _ => fine_pure trivial
  exact h y x (mem_range.1 hy) (mem_range.1 hx)

theorem fine_foldlM {step : α → ι → Except Stop α}
    (hstep : ∀ item ∈ items, ∀ a, Q a → Fine (step a item) Q) (h : Q a) :
    Fine (items.foldlM step a) Q := by
  induction items generalizing a with
  | nil => exact fine_ok h
  | cons item items ih =>
    rw [foldlM_cons]
    exact (hstep item mem_cons_self a h).bind fun b hb =>
      ih (fun other hother => hstep other (mem_cons_of_mem _ hother)) hb

end Fine

section Draws

variable {σ α β : Type} {region other : Nat → Nat → Prop} {width height : Nat}
  {Q P : α → Prop} {R : β → Prop} {before middle after : Canvas}

/-- The pixels outside a region are as they were. -/
structure Spared (region : Nat → Nat → Prop) (before after : Canvas) : Prop where
  width : after.width = before.width
  height : after.height = before.height
  outside : ∀ x y, x < before.width → y < before.height → ¬region x y →
    after.pixelAt x y = before.pixelAt x y

theorem Spared.refl (canvas : Canvas) : Spared region canvas canvas :=
  ⟨rfl, rfl, fun _ _ _ _ _ => rfl⟩

/-- Two steps that spare what is outside. -/
theorem Spared.trans (h : Spared region before middle) (hnext : Spared region middle after) :
    Spared region before after := by
  refine ⟨hnext.width.trans h.width, hnext.height.trans h.height, fun x y hx hy hregion => ?_⟩
  rw [hnext.outside x y (h.width ▸ hx) (h.height ▸ hy) hregion]
  exact h.outside x y hx hy hregion

theorem Spared.mono (h : Spared region before after) (himp : ∀ x y, region x y → other x y) :
    Spared other before after :=
  ⟨h.width, h.height, fun x y hx hy hother =>
    h.outside x y hx hy fun hregion => hother (himp x y hregion)⟩

/-- Painting an area spares the rest. -/
theorem Painted.spared {picture : Nat → Nat → List UInt8}
    (h : Painted region picture before after) : Spared region before after :=
  ⟨h.width, h.height, h.outside⟩

/-- On a desktop of this size the step does not panic and draws in the region only. -/
def Draws (width height : Nat) (region : Nat → Nat → Prop) (step : Decode σ α)
    (Q : α → Prop) : Prop :=
  ∀ decoding, decoding.canvas.width = width → decoding.canvas.height = height →
    Fine (step decoding).1 Q ∧ Spared region decoding.canvas (step decoding).2.canvas

variable {a : α} {step : Decode σ α}

theorem draws_pure (h : Q a) : Draws width height region (pure a : Decode σ α) Q :=
  fun _ _ _ => ⟨h, Spared.refl _⟩

theorem draws_lift {result : Except Stop α} (h : Fine result Q) :
    Draws width height region (Attempt.lift result : Decode σ α) Q :=
  fun _ _ _ => ⟨h, Spared.refl _⟩

theorem draws_fail (message : String) :
    Draws width height region (Attempt.fail (.refused message) : Decode σ α) Q :=
  fun _ _ _ => ⟨rfl, Spared.refl _⟩

/-- A step on the streams or the input. -/
theorem draws_modify {change : Decoding σ → Decoding σ}
    (h : ∀ decoding, (change decoding).canvas = decoding.canvas) :
    Draws width height region (Attempt.modify change : Decode σ Unit) fun _ => True :=
  fun decoding _ _ => ⟨trivial, (h decoding).symm ▸ Spared.refl _⟩

theorem draws_state : Draws width height region (Attempt.state : Decode σ (Decoding σ))
    fun decoding => decoding.canvas.width = width ∧ decoding.canvas.height = height :=
  fun _ hwidth hheight => ⟨⟨hwidth, hheight⟩, Spared.refl _⟩

/-- One step after the other. -/
theorem Draws.bind {next : α → Decode σ β} (h : Draws width height region step Q)
    (hnext : ∀ a, Q a → Draws width height region (next a) R) :
    Draws width height region (step >>= next) R := by
  intro decoding hwidth hheight
  obtain ⟨hfine, hspared⟩ := h decoding hwidth hheight
  change Fine (Attempt.andThen step next decoding).1 R ∧
    Spared region decoding.canvas (Attempt.andThen step next decoding).2.canvas
  rw [Attempt.andThen]
  cases hrun : step decoding with
  | mk result middle =>
    rw [hrun] at hfine hspared
    cases result with
    | error stop => exact ⟨hfine, hspared⟩
    | ok a =>
      obtain ⟨hlast, hrest⟩ := hnext a hfine middle (hspared.width.trans hwidth)
        (hspared.height.trans hheight)
      exact ⟨hlast, hspared.trans hrest⟩

theorem Draws.wider (h : Draws width height region step Q) (himp : ∀ x y, region x y → other x y) :
    Draws width height other step Q :=
  fun decoding hw hh => ⟨(h decoding hw hh).1, (h decoding hw hh).2.mono himp⟩

/-- A loop draws where each of its rounds does. -/
theorem draws_foldlM {ι : Type} {step : α → ι → Decode σ α} {items : List ι}
    (hstep : ∀ item ∈ items, ∀ a, Q a → Draws width height region (step a item) Q) (h : Q a) :
    Draws width height region (items.foldlM step a) Q := by
  induction items generalizing a with
  | nil => exact draws_pure h
  | cons item items ih =>
    rw [foldlM_cons]
    exact (hstep item mem_cons_self a h).bind fun b hb =>
      ih (fun other hother => hstep other (mem_cons_of_mem _ hother)) hb

/-- A step on the canvas alone. -/
theorem draws_drawing {draw : Canvas → Except Stop Canvas}
    (h : ∀ canvas : Canvas, canvas.width = width → canvas.height = height →
      ∃ after, draw canvas = .ok after ∧ Spared region canvas after) :
    Draws width height region (drawing draw : Decode σ Unit) fun _ => True := by
  intro decoding hwidth hheight
  obtain ⟨after, hafter, hspared⟩ := h decoding.canvas hwidth hheight
  have hrun : (drawing draw : Decode σ Unit) decoding =
      (.ok (), { decoding with canvas := after }) := by
    have hlift : (Attempt.lift (draw decoding.canvas) : Decode σ Canvas) decoding =
        (.ok after, decoding) := by
      rw [Attempt.lift, hafter]
    have hstate : (Attempt.state : Decode σ (Decoding σ)) decoding = (.ok decoding, decoding) := rfl
    rw [drawing, Attempt.bind_of_ok hstate, Attempt.bind_of_ok hlift]
    rfl
  rw [hrun]
  exact ⟨trivial, hspared⟩

/-- Reading draws nothing. -/
theorem draws_readBytes (count : Nat) : Draws width height region
    (readBytes count : Decode σ (List UInt8)) fun bytes => bytes.length = count := by
  intro decoding _ _
  rw [readBytes]
  split
  · rename_i hcount
    exact ⟨by rw [Fine, length_take]; omega, Spared.refl _⟩
  · exact ⟨rfl, Spared.refl _⟩

theorem draws_readU8 : Draws width height region (readU8 : Decode σ UInt8) fun _ => True := by
  intro decoding _ _
  rw [readU8]
  cases decoding.input with
  | nil => exact ⟨rfl, Spared.refl _⟩
  | cons byte rest => exact ⟨trivial, Spared.refl _⟩

theorem draws_readU16 : Draws width height region (readU16 : Decode σ Nat)
    fun value => value < 2 ^ 16 := by
  refine draws_readU8.bind fun high _ => draws_readU8.bind fun low _ => draws_pure ?_
  have hhigh := high.toNat_lt
  have hlow := low.toNat_lt
  omega

theorem draws_readU32 : Draws width height region (readU32 : Decode σ Nat) fun _ => True :=
  draws_readU16.bind fun _ _ => draws_readU16.bind fun _ _ => draws_pure trivial

theorem draws_readTpixel : Draws width height region (readTpixel : Decode σ Rgb) fun _ => True :=
  draws_readU8.bind fun _ _ => draws_readU8.bind fun _ _ => draws_readU8.bind fun _ _ =>
    draws_pure trivial

theorem draws_readColourIf (own : Bool) (colour : Rgb) : Draws width height region
    (readColourIf own colour : Decode σ Rgb) fun _ => True := by
  rw [readColourIf]
  split
  · exact draws_readTpixel.bind fun _ _ => draws_readU8.bind fun _ _ => draws_pure trivial
  · exact draws_pure trivial

theorem draws_readU8If (own : Bool) : Draws width height region
    (readU8If own : Decode σ UInt8) fun _ => True := by
  rw [readU8If]
  split
  · exact draws_readU8
  · exact draws_pure trivial

theorem draws_readMore {bound : Nat} (hpos : 0 < bound) (more : Bool) {rest : Decode σ Nat}
    (h : Draws width height region rest fun value => value < bound) :
    Draws width height region (readMore more rest) fun value => value < bound := by
  rw [readMore]
  split
  · exact h
  · exact draws_pure hpos

/-- A compact length has 22 bits. -/
theorem draws_readCompact : Draws width height region (readCompact : Decode σ Nat)
    fun value => value < 2 ^ 22 := by
  have hseven : ∀ byte : UInt8, (byte &&& 0x7F).toNat < 2 ^ 7 := by
    intro byte
    rw [UInt8.toNat_and]
    exact Nat.and_lt_two_pow _ (by decide)
  refine draws_readU8.bind fun first _ => (draws_readMore (by decide) _ ?_).bind
    fun rest hrest => draws_pure (Nat.or_lt_two_pow (by have := hseven first; omega) hrest)
  refine draws_readU8.bind fun second _ => (draws_readMore (by decide) _ ?_).bind
    fun last hlast => draws_pure (Nat.or_lt_two_pow ?_ hlast)
  · refine draws_readU8.bind fun third _ => draws_pure ?_
    have := third.toNat_lt
    rw [Nat.shiftLeft_eq]
    omega
  · have := hseven second
    rw [Nat.shiftLeft_eq]
    omega

end Draws

section Areas

variable {σ α : Type} {region : Nat → Nat → Prop} {width height : Nat} {area tile : Area}

/-- An area inside a desktop of this size. -/
def Area.Fits (area : Area) (width height : Nat) : Prop :=
  area.x + area.width ≤ width ∧ area.y + area.height ≤ height

theorem Area.Fits.inside (h : area.Fits width height) {canvas : Canvas}
    (hwidth : canvas.width = width) (hheight : canvas.height = height) :
    canvas.Inside area := by
  rw [Canvas.Inside, hwidth, hheight]
  exact h

theorem draws_fill (hfits : area.Fits width height) (hregion : ∀ x y, area.Has x y → region x y)
    (rgb : Rgb) : Draws width height region
      (drawing (·.fill area rgb) : Decode σ Unit) fun _ => True := by
  refine draws_drawing fun canvas hwidth hheight => ?_
  obtain ⟨after, hafter, hpainted⟩ := fill_painted (hfits.inside hwidth hheight) rgb
  exact ⟨after, hafter, hpainted.spared.mono hregion⟩

theorem Area.HasFirst.has {rows x y : Nat} (h : area.HasFirst rows x y) : area.Has x y :=
  ⟨h.1, h.2.1, by have := h.2.2; omega⟩

theorem draws_putLines {depth : Nat} (hdepth : 3 ≤ depth) (hshallow : depth ≤ 4)
    (hfits : area.Fits width height) (hpos : 0 < area.width)
    (hregion : ∀ x y, area.Has x y → region x y) (bytes : List UInt8) :
    Draws width height region
      (drawing (·.putLines depth area bytes) : Decode σ Unit) fun _ => True := by
  refine draws_drawing fun canvas hwidth hheight => ?_
  obtain ⟨after, hafter, hpainted⟩ :=
    putLines_painted hdepth hshallow (hfits.inside hwidth hheight) hpos bytes
  exact ⟨after, hafter, hpainted.spared.mono fun x y h => hregion x y h.has⟩

theorem draws_putRgb (hfits : area.Fits width height) (hpos : 0 < area.width)
    (hregion : ∀ x y, area.Has x y → region x y) (bytes : List UInt8) :
    Draws width height region (drawing (·.putRgb area bytes) : Decode σ Unit) fun _ => True :=
  draws_putLines (by decide) (by decide) hfits hpos hregion bytes

theorem draws_putRgbx (hfits : area.Fits width height) (hpos : 0 < area.width)
    (hregion : ∀ x y, area.Has x y → region x y) (bytes : List UInt8) :
    Draws width height region (drawing (·.putRgbx area bytes) : Decode σ Unit) fun _ => True :=
  draws_putLines (by decide) (by decide) hfits hpos hregion bytes

theorem pixels_le (hfits : area.Fits width height) (hwidth : width < 2 ^ 16)
    (hheight : height < 2 ^ 16) : area.pixels ≤ 2 ^ 32 :=
  (Nat.mul_le_mul (by have := hfits.1; omega : area.width ≤ 2 ^ 16)
    (by have := hfits.2; omega : area.height ≤ 2 ^ 16)).trans (by decide)

variable {size : Nat}

theorem mem_steps {length start : Nat} (hsize : 0 < size) (h : start ∈ steps length size) :
    start < length := by
  obtain ⟨index, hindex, rfl⟩ := mem_map.1 h
  rw [mem_range] at hindex
  have hmul := (Nat.le_div_iff_mul_le hsize).1 hindex
  rw [Nat.succ_mul] at hmul
  omega

/-- A tile lies in its area. -/
structure Area.Tiles (area : Area) (size : Nat) (tile : Area) : Prop where
  left : area.x ≤ tile.x
  right : tile.x + tile.width ≤ area.x + area.width
  top : area.y ≤ tile.y
  bottom : tile.y + tile.height ≤ area.y + area.height
  wide : 0 < tile.width
  tall : 0 < tile.height
  narrow : tile.width ≤ size
  low : tile.height ≤ size

/-- A tile is on the canvas when its area is. -/
theorem Area.Tiles.fits (h : area.Tiles size tile) (hfits : area.Fits width height) :
    tile.Fits width height :=
  ⟨h.right.trans hfits.1, h.bottom.trans hfits.2⟩

theorem Area.Tiles.has {x y : Nat} (h : area.Tiles size tile) (hhas : tile.Has x y) :
    area.Has x y := by
  obtain ⟨⟨hleft, hright⟩, htop, hbottom⟩ := hhas
  have hl := h.left
  have hr := h.right
  have ht := h.top
  have hb := h.bottom
  exact ⟨⟨by omega, by omega⟩, by omega, by omega⟩

theorem tileAt_eq {size top left : Nat} (hfits : area.Fits width height)
    (hwidth : width < 2 ^ 16) (hheight : height < 2 ^ 16) (hleft : left < area.width)
    (htop : top < area.height) : tileAt size area top left =
      .ok ⟨area.x + left, area.y + top, min (area.width - left) size,
        min (area.height - top) size⟩ := by
  obtain ⟨hright, hbottom⟩ := hfits
  rw [tileAt, u16, u16, fit, fit, if_pos (by omega), if_pos (by omega), sub, sub,
    if_pos (by omega), if_pos (by omega)]
  rfl

/-- Each tile is made without overflow. -/
theorem fine_tileAt {top left : Nat} (hfits : area.Fits width height) (hwidth : width < 2 ^ 16)
    (hheight : height < 2 ^ 16) (hsize : 0 < size) (hleft : left < area.width)
    (htop : top < area.height) : Fine (tileAt size area top left) (area.Tiles size) := by
  rw [tileAt_eq hfits hwidth hheight hleft htop]
  exact ⟨by dsimp only; omega, by dsimp only; omega, by dsimp only; omega,
    by dsimp only; omega, by dsimp only; omega, by dsimp only; omega, by dsimp only; omega,
    by dsimp only; omega⟩

/-- An area is drawn when each tile is. -/
theorem draws_eachTile {step : α → Area → Decode σ α} {P : α → Prop}
    (hfits : area.Fits width height) (hwidth : width < 2 ^ 16) (hheight : height < 2 ^ 16)
    (hsize : 0 < size)
    (hstep : ∀ tile, area.Tiles size tile → ∀ a, P a →
    Draws width height area.Has (step a tile) P) {a : α} (h : P a) :
    Draws width height area.Has (eachTile size area step a) P := by
  refine draws_foldlM (fun top htop a ha => draws_foldlM (fun left hleft a ha => ?_) ha) h
  refine (draws_lift (fine_tileAt hfits hwidth hheight hsize (mem_steps hsize hleft)
    (mem_steps hsize htop))).bind fun tile htile => ?_
  exact hstep tile htile a ha

end Areas

section Plain

variable {σ : Type} {width height : Nat} {area tile : Area}

theorem draws_raw {region : Nat → Nat → Prop} (hfits : area.Fits width height)
    (hwidth : width < 2 ^ 16) (hheight : height < 2 ^ 16) (hpos : 0 < area.width)
    (hregion : ∀ x y, area.Has x y → region x y) :
    Draws width height region (raw area : Decode σ Unit) fun _ => True := by
  have hpixels := pixels_le hfits hwidth hheight
  refine (draws_lift (fine_usize (by omega))).bind fun size _ => ?_
  exact (draws_readBytes size).bind fun pixels _ => draws_putRgbx hfits hpos hregion pixels

/-- Past the check the area is on the canvas. -/
theorem draws_checked (area : Area) : Draws width height (fun _ _ => False)
    (checked area : Decode σ Unit) fun _ => area.Fits width height := by
  refine draws_state.bind fun decoding hdims => draws_lift ?_
  rw [Canvas.check]
  split
  · rename_i hinside
    rw [Canvas.Inside, hdims.1, hdims.2] at hinside
    exact hinside
  · exact fine_refuse _

theorem draws_copyRect (hfits : area.Fits width height) (hpos : 0 < area.width) :
    Draws width height area.Has (copyRect area : Decode σ Unit) fun _ => True := by
  refine draws_readU16.bind fun x _ => draws_readU16.bind fun y _ => ?_
  refine ((draws_checked _).wider fun _ _ h => h.elim).bind fun _ hsource => ?_
  refine draws_drawing fun canvas hwidth hheight => ?_
  obtain ⟨source, hread⟩ := read_ok (hsource.inside hwidth hheight)
  obtain ⟨after, hafter, hpainted⟩ := putLines_painted (by decide : 3 ≤ 4) (by decide)
    (hfits.inside hwidth hheight) hpos source
  refine ⟨after, ?_, hpainted.spared.mono fun x y h => h.has⟩
  rw [Canvas.copy, hread]
  exact hafter

theorem draws_subrect (hfits : tile.Fits width height) (hwidth : width < 2 ^ 16)
    (hheight : height < 2 ^ 16) (coloured : Bool) (foreground : Rgb) :
    Draws width height tile.Has (subrect tile coloured foreground : Decode σ Unit)
      fun _ => True := by
  refine (draws_readColourIf _ _).bind fun colour _ => draws_readU8.bind fun xy _ =>
    draws_readU8.bind fun wh _ => ?_
  have hnibbles : ∀ byte : UInt8, (byte >>> 4).toNat < 16 ∧ (byte &&& 0x0F).toNat < 16 := by
    intro byte
    have hlt := byte.toNat_lt
    rw [UInt8.toNat_and, UInt8.toNat_shiftRight]
    refine ⟨?_, Nat.and_lt_two_pow (n := 4) _ (by decide)⟩
    rw [Nat.shiftRight_eq_div_pow]
    change byte.toNat / 16 < 16
    omega
  have hxy := hnibbles xy
  have hwh := hnibbles wh
  refine (draws_lift (fine_u16 (by omega))).bind fun right hright =>
    (draws_lift (fine_u16 (by omega))).bind fun bottom hbottom => ?_
  subst hright hbottom
  split
  · exact draws_fail _
  · rename_i hin
    obtain ⟨hfitx, hfity⟩ := hfits
    refine (draws_lift (fine_u16 (by omega))).bind fun x hx =>
      (draws_lift (fine_u16 (by omega))).bind fun y hy => ?_
    subst hx hy
    refine draws_fill ⟨by dsimp only; omega, by dsimp only; omega⟩ ?_ colour
    rintro x y ⟨⟨hleft, hright⟩, htop, hbottom⟩
    dsimp only at hleft hright htop hbottom
    exact ⟨⟨by omega, by omega⟩, by omega, by omega⟩

theorem draws_subrects (hfits : tile.Fits width height) (hwidth : width < 2 ^ 16)
    (hheight : height < 2 ^ 16) (coloured : Bool) (foreground : Rgb) (count : Nat) :
    Draws width height tile.Has (subrects tile coloured foreground count : Decode σ Unit)
      fun _ => True := by
  induction count with
  | zero => exact draws_pure trivial
  | succ count ih =>
    exact (draws_subrect hfits hwidth hheight coloured foreground).bind fun _ _ => ih

theorem draws_hextileTile (hfits : tile.Fits width height) (hwidth : width < 2 ^ 16)
    (hheight : height < 2 ^ 16) (hpos : 0 < tile.width) (colours : Colours) :
    Draws width height tile.Has (hextileTile colours tile : Decode σ Colours) fun _ => True := by
  refine draws_readU8.bind fun mask _ => ?_
  split
  · exact (draws_raw hfits hwidth hheight hpos fun _ _ h => h).bind fun _ _ => draws_pure trivial
  · refine (draws_readColourIf _ _).bind fun background _ =>
      (draws_fill hfits (fun _ _ h => h) background).bind fun _ _ =>
        (draws_readColourIf _ _).bind fun foreground _ => ?_
    split
    · exact draws_pure trivial
    · exact draws_readU8.bind fun count _ =>
        (draws_subrects hfits hwidth hheight _ _ _).bind fun _ _ => draws_pure trivial

theorem draws_hextile (hfits : area.Fits width height) (hwidth : width < 2 ^ 16)
    (hheight : height < 2 ^ 16) :
    Draws width height area.Has (hextile area : Decode σ Unit) fun _ => True := by
  refine (draws_eachTile hfits hwidth hheight (by decide) (P := fun _ => True) ?_
    trivial).bind fun _ _ => draws_pure trivial
  intro tile htile colours _
  exact (draws_hextileTile (htile.fits hfits) hwidth hheight htile.wide colours).wider
    fun x y h => htile.has h

end Plain

section Inflate

variable {σ : Type} {lib : Libraries σ}

theorem fine_reserve (limit length capacity : Nat) :
    Fine (reserve lib limit length capacity) fun _ => True := by
  rw [reserve]
  split
  · split
    · exact fine_refuse _
    · exact (fine_sub (by omega)).bind fun _ _ => fine_pure trivial
  · exact fine_pure trivial

theorem fine_inflateLoop (expected : Option Nat) (limit : Nat) (stream : σ)
    (rest output : List UInt8) (capacity : Nat) :
    Fine (inflateLoop lib expected limit stream rest output capacity) fun _ => True := by
  fun_induction inflateLoop lib expected limit stream rest output capacity with
  | case1 => exact fine_ok trivial
  | case2 stream rest output capacity hmore stop hreserve =>
    have hfine := @fine_reserve σ lib limit output.length capacity
    rw [hreserve] at hfine
    exact hfine
  | case3 => exact fine_refuse _
  | case4 => exact fine_ok trivial
  | case5 stream rest output capacity hmore next hreserve out hread hstop ih => exact ih

/-- What is unpacked is no more than allowed. -/
theorem fine_inflate {input : List UInt8} (stream : σ) (expected : Option Nat) (limit : Nat)
    (hinput : input.length ≤ 2 ^ 32) : Fine (inflate lib stream input expected limit)
      fun data => match expected with
        | some size => data.2.length = size
        | none => data.2.length ≤ limit := by
  refine (fine_usize (by omega)).bind fun guess _ =>
    (fine_inflateLoop _ _ _ _ _ _).bind fun done _ => ?_
  cases expected with
  | some size =>
    rw [finish]
    split
    · exact fine_refuse _
    · exact fine_pure (by dsimp only; rw [length_take]; omega)
  | none =>
    rw [finish]
    split
    · exact fine_refuse _
    · exact fine_pure (by dsimp only; omega)

end Inflate

section Zrle

variable {σ : Type} {lib : Libraries σ} {width height : Nat} {area tile : Area} {bytes : List UInt8}

theorem fine_takeBytes (count : Nat) (bytes : List UInt8) : Fine (takeBytes count bytes)
    fun taken => taken.1.length = count ∧ taken.2.length ≤ bytes.length := by
  rw [takeBytes]
  split
  · exact fine_refuse _
  · refine fine_ok ⟨?_, ?_⟩
    · rw [length_take]
      omega
    · rw [length_drop]
      omega

theorem fine_takeByte (bytes : List UInt8) : Fine (takeByte bytes)
    fun taken => taken.2.length ≤ bytes.length := by
  cases bytes with
  | nil => exact fine_refuse _
  | cons byte rest => exact fine_ok (Nat.le_succ _)

theorem fine_takeCpixel (bytes : List UInt8) : Fine (takeCpixel bytes)
    fun taken => taken.2.length ≤ bytes.length := by
  match bytes with
  | [] => exact fine_refuse _
  | [_] => exact fine_refuse _
  | [_, _] => exact fine_refuse _
  | _ :: _ :: _ :: rest => exact fine_ok (by simp only [length_cons]; omega)

/-- A run's length adds up to 255 a byte at most. -/
theorem fine_takeRun {length : Nat} (h : length + 255 * bytes.length < 2 ^ 64) :
    Fine (takeRun length bytes) fun taken => taken.2.length ≤ bytes.length := by
  induction bytes generalizing length with
  | nil => exact fine_refuse _
  | cons byte rest ih =>
    rw [length_cons] at h
    have hbyte := byte.toNat_lt
    refine (fine_usize (by omega)).bind fun total htotal => ?_
    subst htotal
    split
    · exact fine_pure (Nat.le_succ _)
    · exact (ih (by omega)).mono fun taken htaken => htaken.trans (Nat.le_succ _)

theorem fine_takePalette (count : Nat) (bytes : List UInt8) : Fine (takePalette count bytes)
    fun taken => taken.2.length ≤ bytes.length := by
  induction count generalizing bytes with
  | zero => exact fine_pure (Nat.le_refl _)
  | succ count ih =>
    refine (fine_takeCpixel bytes).bind fun first hfirst => ?_
    exact (ih first.2).bind fun others hothers => fine_pure (hothers.trans hfirst)

theorem fine_colourOf (palette : List Rgb) (index : Nat) :
    Fine (colourOf palette index) fun _ => True := by
  rw [colourOf]
  split
  · exact fine_ok trivial
  · exact fine_refuse _

theorem lt_divCeil {a b index : Nat} (hb : 0 < b) (h : index < a) : index / b < divCeil a b := by
  rw [divCeil, Nat.div_lt_iff_lt_mul hb]
  have := Nat.div_add_mod (a + (b - 1)) b
  have hmod := Nat.mod_lt (a + (b - 1)) hb
  rw [Nat.mul_comm] at this
  omega

theorem divCeil_le {a b : Nat} (hb : 0 < b) : divCeil a b ≤ a := by
  rw [divCeil]
  rcases Nat.eq_zero_or_pos a with rfl | ha
  · rw [Nat.div_eq_of_lt (by omega)]
  · refine Nat.div_le_of_le_mul ?_
    obtain ⟨c, rfl⟩ : ∃ c, b = c + 1 := ⟨b - 1, by omega⟩
    have : c ≤ c * a := Nat.le_mul_of_pos_right _ ha
    rw [Nat.add_one_mul]
    omega

/-- A place in a row of the packed bytes. -/
theorem row_index_lt {row rows y index : Nat} (hy : y < rows) (hindex : index < row) :
    y * row + index < row * rows := by
  have hmul : (y + 1) * row ≤ rows * row := Nat.mul_le_mul_right _ hy
  rw [Nat.add_one_mul] at hmul
  rw [Nat.mul_comm row]
  omega

theorem paletteBits_cases (size : Nat) :
    paletteBits size = 1 ∨ paletteBits size = 2 ∨ paletteBits size = 4 := by
  rw [paletteBits]
  split
  · exact Or.inl rfl
  · split
    · exact Or.inr (Or.inl rfl)
    · exact Or.inr (Or.inr rfl)

/-- The byte of a packed pixel is there. -/
theorem packed_place_lt {packed : List UInt8} {size y x : Nat} (hy : y < tile.height)
    (hx : x < tile.width)
    (hlength : packed.length = divCeil (tile.width * paletteBits size) 8 * tile.height) :
    y * divCeil (tile.width * paletteBits size) 8 + x * paletteBits size / 8 < packed.length := by
  have hcases := paletteBits_cases size
  have hbit : x * paletteBits size < tile.width * paletteBits size :=
    Nat.mul_lt_mul_of_pos_right hx (by omega)
  rw [hlength]
  exact row_index_lt hy (lt_divCeil (by decide) hbit)

/-- No packed pixel crosses the end of its byte. -/
theorem packed_shift_le (size x : Nat) : paletteBits size + x * paletteBits size % 8 ≤ 8 := by
  rcases paletteBits_cases size with heq | heq | heq
  · rw [heq]
    omega
  · rw [heq]
    omega
  · rw [heq]
    omega

theorem fine_packedPixel {palette : List Rgb} {packed : List UInt8} {size y x : Nat}
    (hy : y < tile.height) (hx : x < tile.width)
    (hpacked : packed.length = divCeil (tile.width * paletteBits size) 8 * tile.height) :
    Fine (packedPixel palette (paletteBits size) (divCeil (tile.width * paletteBits size) 8)
      packed y x) fun _ => True := by
  have hshift := packed_shift_le size x
  refine (fine_byteAt (packed_place_lt hy hx hpacked)).bind fun byte _ => ?_
  refine (fine_sub (by omega)).bind fun left hleft => ?_
  subst hleft
  exact (fine_sub (by omega)).bind fun shift _ => (fine_colourOf _ _).bind fun _ _ =>
    fine_pure trivial

/-- No pixel is read past the packed rows. -/
theorem fine_packedTile {size : Nat} (hsmall : tile.width ≤ 64) (hlow : tile.height ≤ 64) :
    Fine (packedTile size tile bytes) fun taken => taken.2.length ≤ bytes.length := by
  refine (fine_takePalette size bytes).bind fun palette hpalette => ?_
  have hcases := paletteBits_cases size
  have hrow : divCeil (tile.width * paletteBits size) 8 * tile.height < 2 ^ 64 := by
    refine Nat.lt_of_le_of_lt (Nat.mul_le_mul (divCeil_le (by decide)) hlow) ?_
    refine Nat.lt_of_le_of_lt (Nat.mul_le_mul (Nat.mul_le_mul hsmall
      (by omega : paletteBits size ≤ 4)) (Nat.le_refl _)) (by decide)
  refine (fine_usize hrow).bind fun length hlength => ?_
  subst hlength
  refine (fine_takeBytes _ palette.2).bind fun packed hpacked => ?_
  exact (fine_eachPixel fun y x hy hx => fine_packedPixel hy hx hpacked.1).bind
    fun _ _ => fine_pure (hpacked.2.trans hpalette)

/-- How a run is read without a panic, with the input getting no longer. -/
def FineRun (take : TakeRun) : Prop :=
  ∀ bytes : List UInt8, bytes.length ≤ 2 ^ 40 →
    Fine (take bytes) fun run => run.2.length ≤ bytes.length

theorem fine_plainRun : FineRun plainRun := by
  intro bytes hbytes
  refine (fine_takeCpixel bytes).bind fun colour hcolour => ?_
  exact (fine_takeRun (by omega)).bind fun run hrun => fine_pure (hrun.trans hcolour)

theorem fine_paletteRun (palette : List Rgb) : FineRun (paletteRun palette) := by
  intro bytes hbytes
  refine (fine_takeByte bytes).bind fun index hindex => (fine_colourOf _ _).bind fun colour _ => ?_
  have hrun : Fine (takeRunIf (index.1 &&& 0x80 != 0) index.2)
      fun run => run.2.length ≤ index.2.length := by
    rw [takeRunIf]
    split
    · exact fine_takeRun (by omega)
    · exact fine_pure (Nat.le_refl _)
  exact hrun.bind fun run hshorter => fine_pure (hshorter.trans hindex)

variable {take : TakeRun}

theorem fine_takeRuns (htake : FineRun take) (pixels more : Nat) (rgb : List UInt8)
    (hbytes : bytes.length ≤ 2 ^ 40) :
    Fine (takeRuns take pixels more rgb bytes) fun runs => runs.2.length ≤ bytes.length := by
  induction more generalizing rgb bytes with
  | zero => exact fine_pure (Nat.le_refl _)
  | succ more ih =>
    rw [takeRuns]
    split
    · refine (htake bytes hbytes).bind fun run hrun => (fine_sub (by omega)).bind
        fun missing _ => ?_
      exact (ih _ (hrun.trans hbytes)).mono fun runs hruns => hruns.trans hrun
    · exact fine_pure (Nat.le_refl _)

theorem fine_runsTile (htake : FineRun take) (hbytes : bytes.length ≤ 2 ^ 40) :
    Fine (runsTile take tile bytes) fun taken => taken.2.length ≤ bytes.length :=
  (fine_takeRuns htake _ _ _ hbytes).bind fun _ hruns => fine_pure hruns

/-- Each kind of tile is read or refused. -/
theorem fine_tileContents {kind : Nat} (hsmall : tile.width ≤ 64) (hlow : tile.height ≤ 64)
    (hbytes : bytes.length ≤ 2 ^ 40) :
    Fine (tileContents tile kind bytes) fun taken => taken.2.length ≤ bytes.length := by
  have hpixels : tile.pixels ≤ 64 * 64 := Nat.mul_le_mul hsmall hlow
  rw [tileContents]
  split
  · refine (fine_usize (by omega)).bind fun size _ => ?_
    exact (fine_takeBytes size bytes).bind fun pixels hpixels => fine_pure hpixels.2
  split
  · exact (fine_takeCpixel bytes).bind fun colour hcolour => fine_pure hcolour
  split
  · exact fine_packedTile hsmall hlow
  split
  · exact fine_runsTile fine_plainRun hbytes
  split
  · generalize kind - 128 = size
    refine (fine_takePalette size bytes).bind fun palette hpalette => ?_
    have hshort : palette.2.length ≤ 2 ^ 40 := Nat.le_trans hpalette hbytes
    exact (fine_runsTile (fine_paletteRun palette.1) hshort).mono
      fun taken htaken => Nat.le_trans htaken hpalette
  · exact fine_refuse _

theorem draws_zrleTile (hfits : tile.Fits width height) (hpos : 0 < tile.width)
    (hsmall : tile.width ≤ 64) (hlow : tile.height ≤ 64) (hbytes : bytes.length ≤ 2 ^ 40) :
    Draws width height tile.Has (zrleTile bytes tile : Decode σ (List UInt8))
      fun rest => rest.length ≤ 2 ^ 40 := by
  refine (draws_lift (fine_takeByte bytes)).bind fun kind hkind => ?_
  refine (draws_lift (fine_tileContents hsmall hlow (hkind.trans hbytes))).bind
    fun contents hcontents => ?_
  have hdraw : Draws width height tile.Has
      (drawing (drawContents tile contents.1) : Decode σ Unit) fun _ => True := by
    cases contents.1 with
    | solid rgb => exact draws_fill hfits (fun _ _ h => h) rgb
    | pixels rgb => exact draws_putRgb hfits hpos (fun _ _ h => h) rgb
  exact hdraw.bind fun _ _ => draws_pure (hcontents.trans (hkind.trans hbytes))

theorem zrleLimit_le (hfits : area.Fits width height) (hwidth : width < 2 ^ 16)
    (hheight : height < 2 ^ 16) : zrleLimit area ≤ 2 ^ 34 := by
  have hpixels := pixels_le hfits hwidth hheight
  have htiles : divCeil area.width 64 * divCeil area.height 64 ≤ area.pixels :=
    Nat.mul_le_mul (divCeil_le (by decide)) (divCeil_le (by decide))
  rw [zrleLimit]
  omega

/-- A ZRLE rectangle draws in its area. -/
theorem draws_zrle (hfits : area.Fits width height) (hwidth : width < 2 ^ 16)
    (hheight : height < 2 ^ 16) :
    Draws width height area.Has (zrle lib area : Decode σ Unit) fun _ => True := by
  have hlimit := zrleLimit_le hfits hwidth hheight
  refine draws_readU32.bind fun length _ => ?_
  split
  · exact draws_fail _
  · rename_i hsmall
    have hmax : maxCompressed ≤ 2 ^ 32 := by decide
    refine (draws_readBytes length).bind fun compressed hcompressed =>
      (draws_lift (fine_usize (by omega))).bind fun limit heq => ?_
    subst heq
    have hdata : Draws width height area.Has (zrleData lib compressed (zrleLimit area))
        fun data => data.length ≤ 2 ^ 40 := by
      refine draws_state.bind fun decoding _ => (draws_lift
        (fine_inflate _ none _ (by omega))).bind fun data hdata => ?_
      exact (draws_modify fun _ => rfl).bind fun _ _ => draws_pure (hdata.trans (by omega))
    refine hdata.bind fun data hsize => ?_
    refine (draws_eachTile hfits hwidth hheight (by decide)
      (P := fun rest : List UInt8 => rest.length ≤ 2 ^ 40) ?_ hsize).bind
        fun _ _ => draws_pure trivial
    intro tile htile rest hrest
    exact (draws_zrleTile (htile.fits hfits) htile.wide htile.narrow htile.low hrest).wider
      fun x y h => htile.has h

end Zrle

end Opensesh.Vnc
