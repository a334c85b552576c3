/-
Tight rectangles and cursors, and for every encoding: which widths it decodes safely whatever
the server sends.
-/
import Opensesh.VncSafe

namespace Opensesh.Vnc

open List

section Tight

variable {σ : Type} {lib : Libraries σ} {width height : Nat} {area : Area}

theorem fine_neighbour {present : Bool} {out : List UInt8} {index : Nat}
    (h : present = true → index < out.length) :
    Fine (neighbour present out index) fun _ => True := by
  rw [neighbour]
  split
  · rename_i hpresent
    exact (fine_byteAt (h hpresent)).bind fun _ _ => fine_pure trivial
  · exact fine_pure trivial

/-- The neighbours of a component come before it. -/
theorem fine_gradientStep {columns : Nat} (hpos : 0 < columns) {out : List UInt8}
    {value : UInt8 × Nat} (hvalue : value.2 < out.length) :
    Fine (gradientStep columns out value) fun next => next.length = out.length := by
  have hplace : Fine (divRem (value.2 / 3) columns)
      fun place => place = (value.2 / 3 % columns, value.2 / 3 / columns) := by
    rw [divRem, if_neg (by omega)]
    exact fine_ok rfl
  refine hplace.bind fun place heq => ?_
  subst heq
  have hrow : value.2 / 3 / columns * columns + value.2 / 3 % columns = value.2 / 3 := by
    rw [Nat.mul_comm]
    exact Nat.div_add_mod _ _
  have habove : (value.2 / 3 / columns - 1) * columns ≤ value.2 / 3 / columns * columns :=
    Nat.mul_le_mul_right _ (Nat.sub_le _ _)
  refine (fine_neighbour fun _ => ?_).bind fun left _ => (fine_neighbour fun _ => ?_).bind
    fun above _ => (fine_neighbour fun _ => ?_).bind fun corner _ =>
      (fine_byteAt hvalue).bind fun _ _ => fine_pure (length_set)
  · dsimp only
    omega
  · dsimp only
    omega
  · dsimp only
    omega

theorem fine_gradient {columns : Nat} (hpos : 0 < columns) (data : List UInt8) :
    Fine (gradient data columns) fun _ => True := by
  have hfold : Fine (data.zipIdx.foldlM (gradientStep columns) (List.replicate data.length 0))
      fun out => out.length = data.length := by
    refine fine_foldlM (fun value hvalue out hout => ?_) length_replicate
    have hindex : value.2 < out.length := by
      rw [hout]
      exact snd_lt_of_mem_zipIdx hvalue
    exact (fine_gradientStep hpos hindex).mono fun next hnext => hnext.trans hout
  exact hfold.mono fun _ _ => trivial

theorem fine_tightPixel {colours y x : Nat} {palette data : List UInt8} (hy : y < area.height)
    (hx : x < area.width) (hdata : data.length = tightLength colours area) :
    Fine (tightPixel colours area.width palette data y x) fun _ => True := by
  have hindex : Fine (tightIndex colours area.width data y x) fun _ => True := by
    rw [tightIndex]
    rw [tightLength] at hdata
    split
    · rename_i htwo
      rw [if_pos htwo] at hdata
      have hplace : y * divCeil area.width 8 + x / 8 < data.length := by
        rw [hdata]
        exact row_index_lt hy (lt_divCeil (by decide) hx)
      exact (fine_byteAt hplace).bind fun byte _ => (fine_sub (by omega)).bind
        fun shift _ => fine_pure trivial
    · rename_i hmany
      rw [if_neg hmany] at hdata
      have hplace : y * area.width + x < data.length := by
        rw [hdata]
        exact row_index_lt hy hx
      exact (fine_byteAt hplace).bind fun byte _ => fine_pure trivial
  refine hindex.bind fun index _ => ?_
  split
  · exact fine_pure trivial
  · exact fine_refuse _

theorem fine_jpeg (data : List UInt8) (area : Area) : Fine (jpeg lib data area) fun _ => True := by
  rw [jpeg]
  split
  · exact fine_refuse _
  · split
    · exact fine_refuse _
    · exact fine_pure trivial

theorem draws_tightData {region : Nat → Nat → Prop} (stream : Fin 4) (length : Nat) :
    Draws width height region (tightData lib stream length) fun data => data.length = length := by
  rw [tightData]
  split
  · exact draws_readBytes length
  · refine draws_readCompact.bind fun count hcount => (draws_readBytes count).bind
      fun compressed hcompressed => ?_
    refine draws_state.bind fun decoding _ => (draws_lift
      (fine_inflate _ (some length) _ (by omega))).bind fun data hdata => ?_
    exact (draws_modify fun _ => rfl).bind fun _ _ => draws_pure hdata

theorem tightLength_le (hfits : area.Fits width height) (hwidth : width < 2 ^ 16)
    (hheight : height < 2 ^ 16) (colours : Nat) : tightLength colours area ≤ 2 ^ 32 := by
  have hpixels := pixels_le hfits hwidth hheight
  rw [tightLength]
  split
  · exact (Nat.mul_le_mul_right _ (divCeil_le (by decide))).trans hpixels
  · exact hpixels

theorem draws_tightFiltered (hfits : area.Fits width height) (hwidth : width < 2 ^ 16)
    (hheight : height < 2 ^ 16) (hpos : 0 < area.width) (kind : Nat) :
    Draws width height area.Has (tightFiltered lib kind area) fun _ => True := by
  have hpixels := pixels_le hfits hwidth hheight
  refine (draws_readU8If _).bind fun filter _ => ?_
  split
  · refine (draws_lift (fine_usize (by omega))).bind fun size _ =>
      (draws_tightData _ size).bind fun data _ => ?_
    exact draws_putRgb hfits hpos (fun _ _ h => h) data
  split
  · refine draws_readU8.bind fun last _ => (draws_readBytes _).bind fun palette _ => ?_
    have hlength := tightLength_le hfits hwidth hheight (last.toNat + 1)
    refine (draws_lift (fine_usize (by omega))).bind fun length heq => ?_
    subst heq
    refine (draws_tightData _ _).bind fun data hdata => ?_
    refine (draws_lift (fine_eachPixel fun y x hy hx => fine_tightPixel hy hx hdata)).bind
      fun rgb _ => ?_
    exact draws_putRgb hfits hpos (fun _ _ h => h) rgb
  split
  · refine (draws_lift (fine_usize (by omega))).bind fun size _ =>
      (draws_tightData _ size).bind fun data _ => ?_
    exact (draws_lift (fine_gradient hpos data)).bind fun rgb _ =>
      draws_putRgb hfits hpos (fun _ _ h => h) rgb
  · exact draws_fail _

theorem draws_tight (hfits : area.Fits width height) (hwidth : width < 2 ^ 16)
    (hheight : height < 2 ^ 16) (hpos : 0 < area.width) :
    Draws width height area.Has (tight lib area) fun _ => True := by
  have hreset : ∀ control, Draws width height area.Has (resetStreams lib control)
      fun _ => True := fun _ => draws_modify fun _ => rfl
  refine draws_readU8.bind fun control _ => (hreset control).bind fun _ _ => ?_
  generalize control.toNat / 16 = kind
  dsimp only
  split
  · exact draws_readTpixel.bind fun colour _ => draws_fill hfits (fun _ _ h => h) colour
  split
  · refine draws_readCompact.bind fun length _ => (draws_readBytes length).bind
      fun data _ => (draws_lift (fine_jpeg data area)).bind fun rgba _ => ?_
    exact draws_putRgbx hfits hpos (fun _ _ h => h) rgba
  split
  · exact draws_tightFiltered hfits hwidth hheight hpos kind
  · exact draws_fail _

end Tight

section Cursor

variable {σ : Type} {width height : Nat} {area : Area}

theorem fine_cursorPixel {pixels mask : List UInt8} {y x : Nat} (hy : y < area.height)
    (hx : x < area.width) (hpixels : pixels.length = area.pixels * 4)
    (hmask : mask.length = divCeil area.width 8 * area.height) :
    Fine (cursorPixel area.width (divCeil area.width 8) pixels mask y x) fun _ => True := by
  have hplace : y * area.width + x < area.pixels := row_index_lt hy hx
  have hbit : y * divCeil area.width 8 + x / 8 < mask.length := by
    rw [hmask]
    exact row_index_lt hy (lt_divCeil (by decide) hx)
  exact (fine_byteAt hbit).bind fun _ _ => (fine_byteAt (by omega)).bind fun _ _ =>
    (fine_byteAt (by omega)).bind fun _ _ => (fine_byteAt (by omega)).bind fun _ _ =>
      fine_pure trivial

theorem draws_cursor (hfits : area.Fits width height) (hwidth : width < 2 ^ 16)
    (hheight : height < 2 ^ 16) :
    Draws width height area.Has (cursor area : Decode σ Cursor) fun _ => True := by
  have hpixels := pixels_le hfits hwidth hheight
  have hmask : divCeil area.width 8 * area.height ≤ 2 ^ 32 :=
    (Nat.mul_le_mul_right _ (divCeil_le (by decide))).trans hpixels
  refine (draws_lift (fine_usize (by omega))).bind fun size hsize =>
    (draws_readBytes size).bind fun pixels hlength => ?_
  refine (draws_lift (fine_usize (by omega))).bind fun length heq =>
    (draws_readBytes length).bind fun mask hmask => ?_
  refine (draws_lift (fine_eachPixel fun y x hy hx => fine_cursorPixel hy hx
    (hlength.trans hsize) (hmask.trans heq))).bind fun rgba _ => draws_pure trivial

end Cursor

section Encodings

variable {σ : Type} (lib : Libraries σ)

/-- Whatever the server sends and the streams hold, decoding the area does not panic and
changes no pixel outside it. -/
def SafeFor (encoding : Encoding) (canvas : Canvas) (area : Area) : Prop :=
  ∀ input zrle tight,
    let done := encoding.decode lib area ⟨input, canvas, zrle, tight⟩
    (∀ stop, done.1 = .error stop → stop.isPanic = false) ∧ Spared area.Has canvas done.2.canvas

/-- The encodings that draw nothing, or tiles only. -/
def Encoding.tiled : Encoding → Bool
  | .hextile => true
  | .zrle => true
  | .cursor => true
  | _ => false

theorem draws_decode {width height : Nat} {area : Area} {encoding : Encoding}
    (hfits : area.Fits width height) (hwidth : width < 2 ^ 16) (hheight : height < 2 ^ 16)
    (hsafe : 0 < area.width ∨ encoding.tiled = true) :
    Draws width height area.Has (encoding.decode lib area) fun _ => True := by
  cases encoding with
  | raw =>
    have hpos := hsafe.resolve_right (by decide)
    exact draws_raw hfits hwidth hheight hpos fun _ _ h => h
  | copyRect => exact draws_copyRect hfits (hsafe.resolve_right (by decide))
  | hextile => exact draws_hextile hfits hwidth hheight
  | zrle => exact draws_zrle hfits hwidth hheight
  | tight => exact draws_tight hfits hwidth hheight (hsafe.resolve_right (by decide))
  | cursor => exact (draws_cursor hfits hwidth hheight).bind fun _ _ => draws_pure trivial

variable {canvas : Canvas} {area : Area}

theorem putLines_empty (hempty : area.width = 0) (depth : Nat) (bytes : List UInt8) :
    canvas.putLines depth area bytes = .error (.panicked .chunkSize) := by
  rw [Canvas.putLines, hempty, Nat.zero_mul]
  rfl

theorem drawing_panics {decoding : Decoding σ} {draw : Canvas → Except Stop Canvas}
    {reason : Panic} (h : draw decoding.canvas = .error (.panicked reason)) :
    (drawing draw : Decode σ Unit) decoding = (.error (.panicked reason), decoding) := by
  have hstate : (Attempt.state : Decode σ (Decoding σ)) decoding = (.ok decoding, decoding) := rfl
  have hlift : (Attempt.lift (draw decoding.canvas) : Decode σ Canvas) decoding =
      (.error (.panicked reason), decoding) := by
    rw [Attempt.lift, h]
  rw [drawing, Attempt.bind_of_ok hstate, Attempt.bind_of_error hlift]

theorem raw_panics (hempty : area.width = 0) (decoding : Decoding σ) :
    raw area decoding = (.error (.panicked .chunkSize), decoding) := by
  have hsize : (Attempt.lift (usize (area.pixels * 4)) : Decode σ Nat) decoding =
      (.ok 0, decoding) := by
    rw [Area.pixels, hempty, Nat.zero_mul, Nat.zero_mul]
    rfl
  have hread : (readBytes 0 : Decode σ (List UInt8)) decoding = (.ok [], decoding) := rfl
  rw [raw, Attempt.bind_of_ok hsize, Attempt.bind_of_ok hread]
  exact drawing_panics (putLines_empty hempty 4 [])

theorem copyRect_panics (hinside : canvas.Inside area) (hempty : area.width = 0) (zrle : σ)
    (tight : Fin 4 → σ) :
    (copyRect area ⟨[0, 0, 0, 0], canvas, zrle, tight⟩).1 = .error (.panicked .chunkSize) := by
  have hsource : canvas.Inside { area with x := 0, y := 0 } := by
    obtain ⟨hright, hbottom⟩ := hinside
    exact ⟨by dsimp only; omega, by dsimp only; omega⟩
  have hread : (readU16 : Decode σ Nat) ⟨[0, 0, 0, 0], canvas, zrle, tight⟩ =
      (.ok 0, ⟨[0, 0], canvas, zrle, tight⟩) := rfl
  have hnext : (readU16 : Decode σ Nat) ⟨[0, 0], canvas, zrle, tight⟩ =
      (.ok 0, ⟨[], canvas, zrle, tight⟩) := rfl
  have hchecked : (checked { area with x := 0, y := 0 } : Decode σ Unit)
      ⟨[], canvas, zrle, tight⟩ = (.ok (), ⟨[], canvas, zrle, tight⟩) := by
    have hcheck : canvas.check { area with x := 0, y := 0 } = .ok () := if_pos hsource
    have hstate : (Attempt.state : Decode σ (Decoding σ)) ⟨[], canvas, zrle, tight⟩ =
        (.ok ⟨[], canvas, zrle, tight⟩, ⟨[], canvas, zrle, tight⟩) := rfl
    rw [checked, Attempt.bind_of_ok hstate, Attempt.lift, hcheck]
  have hcopy : canvas.copy 0 0 area = .error (.panicked .chunkSize) := by
    obtain ⟨source, hsource⟩ := read_ok hsource
    rw [Canvas.copy, hsource]
    exact putLines_empty hempty 4 source
  rw [copyRect, Attempt.bind_of_ok hread, Attempt.bind_of_ok hnext,
    Attempt.bind_of_ok hchecked, drawing_panics hcopy]

theorem tight_panics (hempty : area.width = 0) (zrle : σ) (tight : Fin 4 → σ) :
    (Vnc.tight lib area ⟨[0], canvas, zrle, tight⟩).1 = .error (.panicked .chunkSize) := by
  have hcontrol : (readU8 : Decode σ UInt8) ⟨[0], canvas, zrle, tight⟩ =
      (.ok 0, ⟨[], canvas, zrle, tight⟩) := rfl
  have hreset : resetStreams lib 0 ⟨[], canvas, zrle, tight⟩ =
      (.ok (), ⟨[], canvas, zrle, tight⟩) := by
    refine Prod.ext rfl ?_
    refine congrArg (Decoding.mk [] canvas zrle) (funext fun stream => ?_)
    exact if_neg (by simp)
  have hsize : (Attempt.lift (usize (area.pixels * 3)) : Decode σ Nat)
      ⟨[], canvas, zrle, tight⟩ = (.ok 0, ⟨[], canvas, zrle, tight⟩) := by
    rw [Area.pixels, hempty, Nat.zero_mul, Nat.zero_mul]
    rfl
  have hdata : tightData lib 0 0 ⟨[], canvas, zrle, tight⟩ =
      (.ok [], ⟨[], canvas, zrle, tight⟩) := rfl
  have hcopy : tightCopy lib 0 area ⟨[], canvas, zrle, tight⟩ =
      (.error (.panicked .chunkSize), ⟨[], canvas, zrle, tight⟩) := by
    rw [tightCopy, Attempt.bind_of_ok hsize, Attempt.bind_of_ok hdata]
    exact drawing_panics (putLines_empty hempty 3 [])
  rw [Vnc.tight, Attempt.bind_of_ok hcontrol, Attempt.bind_of_ok hreset]
  exact congrArg Prod.fst hcopy

/-- Decoding an area of the desktop is safe, whatever the server sends, exactly when it has a
width or its encoding puts no lines of pixels. -/
theorem decode_safe_iff (encoding : Encoding) (hinside : canvas.Inside area) :
    SafeFor lib encoding canvas area ↔ 0 < area.width ∨ encoding.tiled = true := by
  constructor
  · intro hsafe
    by_contra hunsafe
    rw [not_or] at hunsafe
    have hempty : area.width = 0 := by omega
    cases encoding with
    | raw =>
      have hrun := hsafe [] lib.fresh fun _ => lib.fresh
      have hpanic := hrun.1 (.panicked .chunkSize) (by
        rw [Encoding.decode, raw_panics hempty])
      cases hpanic
    | copyRect =>
      have hrun := hsafe [0, 0, 0, 0] lib.fresh fun _ => lib.fresh
      have hpanic := hrun.1 (.panicked .chunkSize) (copyRect_panics hinside hempty _ _)
      cases hpanic
    | tight =>
      have hrun := hsafe [0] lib.fresh fun _ => lib.fresh
      have hpanic := hrun.1 (.panicked .chunkSize) (tight_panics lib hempty _ _)
      cases hpanic
    | hextile => exact hunsafe.2 rfl
    | zrle => exact hunsafe.2 rfl
    | cursor => exact hunsafe.2 rfl
  · intro hsafe input zrle tight
    obtain ⟨hfine, hspared⟩ := draws_decode lib hinside canvas.narrow canvas.low hsafe
      ⟨input, canvas, zrle, tight⟩ rfl rfl
    refine ⟨fun stop hstop => ?_, hspared⟩
    rw [hstop] at hfine
    exact hfine

end Encodings

namespace EncodingWitness

/-- A zlib library that passes its input on, and no JPEG pictures. -/
def stored : Libraries Unit where
  fresh := ()
  reset := id
  decompress := fun stream input space =>
    .ok ⟨stream, (input.take space).length, input.take space, false⟩
  room := id
  jpeg := fun _ => .error "no picture"
  read_le := by
    intro stream input space out h
    obtain rfl := Except.ok.inj h
    exact List.length_take_le' _ _
  written_le := by
    intro stream input space out h
    obtain rfl := Except.ok.inj h
    exact List.length_take_le _ _
  room_ge := fun _ => Nat.le_refl _

def desktop : Canvas := Canvas.new 2 2 (by decide) (by decide)

theorem raw_safe : SafeFor stored .raw desktop ⟨1, 0, 1, 2⟩ :=
  (decode_safe_iff stored .raw (by decide)).2 (Or.inl (by decide))

/-- A raw rectangle of width zero inside the desktop panics. -/
theorem empty_panics :
    desktop.Inside ⟨1, 0, 0, 2⟩ ∧
    (Encoding.raw.decode stored ⟨1, 0, 0, 2⟩ ⟨[], desktop, (), fun _ => ()⟩).1 =
      .error (.panicked .chunkSize) :=
  ⟨by decide, rfl⟩

end EncodingWitness

end Opensesh.Vnc
