import FractionsOS.Video.VbeBlend

/-!
# Drawing

A bitmap reaches each pixel of the screen at most once, wherever its origin lies,
and no drawing leaves the range of the colours it is given.
-/

namespace FractionsOS.Vbe

open Library Library.Raster

set_option autoImplicit false

section Bitmap

variable (state : VbeState) (x y w h : UInt32) (bitmap : UInt32 → UInt32)

def bitmapDab (cell : UInt32 × UInt32) : Option (Dab (UInt32 × UInt32) UInt32) :=
  if OnScreen state (x + cell.2) (y + cell.1) then
    some ⟨(x + cell.2, y + cell.1), bitmap (cell.1 * w + cell.2)⟩
  else none

theorem bitmap_dabs :
    (bitmapPixels state x y w h bitmap).map PixelCall.dab =
      (rowMajor h w).filterMap (bitmapDab state x y w bitmap) := by
  unfold bitmapPixels
  rw [List.map_filterMap]
  congr 1
  funext cell
  rcases cell with ⟨j, i⟩
  unfold bitmapDab
  dsimp only
  by_cases onScreen : OnScreen state (x + i) (y + j)
  · rw [if_pos onScreen, if_pos (And.intro onScreen.1 onScreen.2)]
    rfl
  · rw [if_neg onScreen, if_neg fun inside => onScreen ⟨inside.1, inside.2⟩]
    rfl

variable {state x y w h bitmap}

/-- The one cell of a bitmap that can come to a given point. -/
theorem bitmap_dab_cell {cell : UInt32 × UInt32} {dab : Dab (UInt32 × UInt32) UInt32}
    (placed : bitmapDab state x y w bitmap cell = some dab) :
    cell = (dab.point.2 - y, dab.point.1 - x) := by
  unfold bitmapDab at placed
  split_ifs at placed with onScreen
  cases placed
  have column : x + cell.2 - x = cell.2 := by
    rw [UInt32.add_comm, UInt32.add_sub_cancel]
  have row : y + cell.1 - y = cell.1 := by
    rw [UInt32.add_comm, UInt32.add_sub_cancel]
  exact Prod.ext row.symm column.symm

theorem bitmap_pixel (fits : SizeFits state.width state.height) {px py : UInt32}
    (onScreen : OnScreen state px py) :
    pixelAt (vbeDrawBitmap state x y w h bitmap) px py =
      if px - x < w ∧ py - y < h then
        blend (bitmap ((py - y) * w + (px - x))) (pixelAt state px py)
      else pixelAt state px py := by
  rw [vbeDrawBitmap, pixels_painted fits onScreen, bitmap_dabs]
  by_cases covered : px - x < w ∧ py - y < h
  · rw [if_pos covered]
    have member : (py - y, px - x) ∈ rowMajor h w :=
      (mem_row_major h w _ _).mpr ⟨covered.2, covered.1⟩
    have column : x + (px - x) = px := by
      rw [UInt32.add_comm, UInt32.sub_add_cancel]
    have row : y + (py - y) = py := by
      rw [UInt32.add_comm, UInt32.sub_add_cancel]
    have placed : bitmapDab state x y w bitmap (py - y, px - x) =
        some ⟨(px, py), bitmap ((py - y) * w + (px - x))⟩ := by
      unfold bitmapDab
      rw [column, row, if_pos onScreen]
    have only : ∀ other ∈ rowMajor h w, ∀ dabbed, bitmapDab state x y w bitmap other = some dabbed →
        dabbed.point = (px, py) → other = (py - y, px - x) := by
      intro other _ dabbed found samePoint
      rw [bitmap_dab_cell found, samePoint]
    exact painted_once (row_major_nodup h w) member placed only (picture state)
  · rw [if_neg covered]
    apply painted_elsewhere
    intro dab painted samePoint
    rcases List.mem_filterMap.mp painted with ⟨cell, member, placed⟩
    rw [bitmap_dab_cell placed, samePoint, mem_row_major] at member
    exact covered ⟨member.2, member.1⟩

end Bitmap

/-- The coordinate `point` lies in the `extent` coordinates from an origin on, which
is taken with its sign. -/
def Covers (origin extent point : UInt32) : Prop :=
  origin.toInt32.toInt ≤ point.toNat ∧ (point.toNat : Int) < origin.toInt32.toInt + extent.toNat

theorem covers_iff {origin extent point : UInt32} (narrow : extent.toNat < 2 ^ 30)
    (small : point.toNat < 2 ^ 30) : point - origin < extent ↔ Covers origin extent point := by
  have bound := origin.toNat_lt
  have signed : origin.toInt32.toInt = Int.bmod origin.toNat (2 ^ 32) :=
    BitVec.toInt_eq_toNat_bmod origin.toBitVec
  rw [UInt32.lt_iff_toNat_lt, UInt32.toNat_sub, Covers, signed, Int.bmod_def]
  split_ifs <;> omega

theorem factor_lt {left right bound : Nat} (product : left * right < bound)
    (positive : 0 < right) : left < bound :=
  Nat.lt_of_le_of_lt (Nat.le_mul_of_pos_right left positive) product

theorem covered_iff {state : VbeState} (fits : SizeFits state.width state.height)
    {x y w h px py : UInt32} (cells : w.toNat * h.toNat < 2 ^ 30)
    (onScreen : OnScreen state px py) :
    px - x < w ∧ py - y < h ↔ Covers x w px ∧ Covers y h py := by
  have column := UInt32.lt_iff_toNat_lt.mp onScreen.1
  have row := UInt32.lt_iff_toNat_lt.mp onScreen.2
  have screen : state.width.toNat * state.height.toNat < 2 ^ 30 := by
    unfold SizeFits at fits
    omega
  have columns := factor_lt screen (Nat.zero_lt_of_lt row)
  rw [Nat.mul_comm] at screen
  have rows := factor_lt screen (Nat.zero_lt_of_lt column)
  have sizes : 0 < w.toNat → 0 < h.toNat → w.toNat < 2 ^ 30 ∧ h.toNat < 2 ^ 30 := by
    intro wide high
    have swapped := cells
    rw [Nat.mul_comm] at swapped
    exact ⟨factor_lt cells high, factor_lt swapped wide⟩
  constructor
  · intro covered
    have wide := UInt32.lt_iff_toNat_lt.mp covered.1
    have high := UInt32.lt_iff_toNat_lt.mp covered.2
    have small := sizes (Nat.zero_lt_of_lt wide) (Nat.zero_lt_of_lt high)
    exact ⟨(covers_iff small.1 (column.trans columns)).mp covered.1,
      (covers_iff small.2 (row.trans rows)).mp covered.2⟩
  · intro covered
    have wide : 0 < w.toNat := by
      have begun := covered.1
      unfold Covers at begun
      omega
    have high : 0 < h.toNat := by
      have begun := covered.2
      unfold Covers at begun
      omega
    have small := sizes wide high
    exact ⟨(covers_iff small.1 (column.trans columns)).mpr covered.1,
      (covers_iff small.2 (row.trans rows)).mpr covered.2⟩

theorem cell_index_value {w h i j : UInt32} (cells : w.toNat * h.toNat < 2 ^ 30) (column : i < w)
    (row : j < h) : (j * w + i).toNat = j.toNat * w.toNat + i.toNat := by
  have rows : j.toNat * w.toNat + w.toNat ≤ w.toNat * h.toNat := row_product_le row
  have columns := UInt32.lt_iff_toNat_lt.mp column
  rw [UInt32.toNat_add, product_value (by omega)]
  exact Nat.mod_eq_of_lt (by omega)

/-- The blit shows, of a bitmap at an origin that may be negative, the part that
overlaps the screen. -/
theorem bitmap_blitted (state : VbeState) (fits : SizeFits state.width state.height)
    (x y w h : UInt32) (bitmap : Nat → UInt32) (cells : w.toNat * h.toNat < 2 ^ 30)
    (px py : UInt32) (onScreen : OnScreen state px py) :
    (pixelAt (vbeDrawBitmap state x y w h fun index => bitmap index.toNat) px py).toNat =
        (if px - x < w ∧ py - y < h then
          mixed (bitmap ((py - y).toNat * w.toNat + (px - x).toNat)) (pixelAt state px py)
        else (pixelAt state px py).toNat) ∧
      (px - x < w ∧ py - y < h ↔ Covers x w px ∧ Covers y h py) := by
  constructor
  · rw [bitmap_pixel fits onScreen]
    by_cases covered : px - x < w ∧ py - y < h
    · have index := cell_index_value cells covered.1 covered.2
      rw [if_pos covered, if_pos covered, blend_value, index]
    · rw [if_neg covered, if_neg covered]
  · exact covered_iff fits cells onScreen

/-- A bitmap of two cells, the first of them left of the screen. -/
theorem bitmap_blitted_left :
    (pixelAt (vbeDrawBitmap (vbeInit (fun _ => 0) (fun _ => 0) [] 4 3 32) 0xFFFFFFFF 0 2 1
      fun index => if index.toNat = 1 then 0x80FF0000 else 0xFF00FF00) 0 0).toNat = 0xFF800000 := by
  have fits : SizeFits 4 3 := by
    unfold SizeFits
    decide
  have blitted := bitmap_blitted (vbeInit (fun _ => 0) (fun _ => 0) [] 4 3 32) fits 0xFFFFFFFF 0 2 1
    (fun index => if index = 1 then 0x80FF0000 else 0xFF00FF00) (by decide) 0 0 (by decide)
  exact blitted.1.trans (by decide +kernel)

structure ColorBounds where
  lo : Nat → Nat
  hi : Nat → Nat

def ColorBounds.Holds (bounds : ColorBounds) (color : UInt32) : Prop :=
  ∀ shift ∈ [16, 8, 0], bounds.lo shift ≤ channel color shift ∧ channel color shift ≤ bounds.hi shift

def VbeCall.DrawsWithin (bounds : ColorBounds) : VbeCall → Prop
  | .drawPixel _ _ color => bounds.Holds color
  | .drawBitmap _ _ width height bitmap =>
      ∀ j i, j < height → i < width → bounds.Holds (bitmap (j * width + i))
  | .drawChar _ _ _ fg bg => bounds.Holds fg ∧ bounds.Holds bg
  | .drawString _ _ _ fg bg => bounds.Holds fg ∧ bounds.Holds bg
  | .clear _ | .scroll _ | .swapBuffers => False

def ColorBounds.Opaque (bounds : ColorBounds) (color : UInt32) : Prop :=
  channel color 24 = 255 ∧ bounds.Holds color

/-- Between the extremes of alpha, each channel is mixed with its own only. -/
theorem blend_channels {color old : UInt32} (full : channel color 24 ≠ 255)
    (transparent : channel color 24 ≠ 0) :
    channel (blend color old) 24 = 255 ∧ ∀ shift ∈ [16, 8, 0],
      channel (blend color old) shift =
        mixChannel (channel color shift) (channel old shift) (channel color 24) := by
  unfold blend
  rw [if_neg (mt (alpha_full color).mp full), if_pos ((alpha_positive color).mpr transparent)]
  rcases rgb_channels (blendChannel (redOf color) (redOf old) (alphaOf color))
    (blendChannel (greenOf color) (greenOf old) (alphaOf color))
    (blendChannel (blueOf color) (blueOf old) (alphaOf color)) with ⟨alpha, red, green, blue⟩
  rw [blend_channel_value, alpha_channel, red_channel, red_channel] at red
  rw [blend_channel_value, alpha_channel, green_channel, green_channel] at green
  rw [blend_channel_value, alpha_channel, blue_channel, blue_channel] at blue
  simp only [List.forall_mem_cons, List.not_mem_nil, false_implies, implies_true, and_true]
  exact ⟨alpha, red, green, blue⟩

theorem blend_opaque {bounds : ColorBounds} {color old : UInt32} (holds : bounds.Holds color)
    (before : bounds.Opaque old) : bounds.Opaque (blend color old) := by
  by_cases full : channel color 24 = 255
  · have replaced : blend color old = color := if_pos ((alpha_full color).mpr full)
    rw [replaced]
    exact ⟨full, holds⟩
  · by_cases transparent : channel color 24 = 0
    · have kept : blend color old = old := by
        unfold blend
        rw [if_neg (mt (alpha_full color).mp full),
          if_neg (mt (alpha_positive color).mp (not_not.mpr transparent))]
      rw [kept]
      exact before
    · have channels := @blend_channels color old full transparent
      constructor
      · exact channels.1
      · intro shift member
        rw [channels.2 shift member]
        exact mix_channel_between (Nat.le_of_lt_succ (channel_lt color 24)) (holds shift member)
          (before.2 shift member)

section Runs

variable {bounds : ColorBounds} {width height : UInt32} (fits : SizeFits width height)

include fits

theorem draw_char_opaque {state : VbeState} (before : AllPixels bounds.Opaque width height state)
    {fg bg : UInt32} (holds : bounds.Holds fg ∧ bounds.Holds bg) (c : UInt8) (x y : UInt32) :
    AllPixels bounds.Opaque width height (vbeDrawChar state c x y fg bg) := by
  apply draw_pixels_all_pixels fits before
  intro pixel drawn
  rcases List.mem_map.mp drawn with ⟨cell, _, rfl⟩
  intro color
  dsimp only
  split_ifs
  · exact blend_opaque holds.1
  · exact blend_opaque holds.2

theorem draw_string_from_opaque {state : VbeState}
    (before : AllPixels bounds.Opaque width height state) {fg bg : UInt32}
    (holds : bounds.Holds fg ∧ bounds.Holds bg) (str : List UInt8) (x cursorX cursorY : UInt32) :
    AllPixels bounds.Opaque width height (drawStringFrom state x fg bg cursorX cursorY str) := by
  induction str generalizing state cursorX cursorY with
  | nil => exact before
  | cons c str induction =>
      unfold drawStringFrom
      split_ifs
      · exact before
      · exact induction before x (cursorY + state.fontHeight)
      · have drawn := draw_char_opaque fits before holds c cursorX cursorY
        exact induction drawn (cursorX + state.fontWidth) cursorY

theorem step_opaque {state : VbeState} (before : AllPixels bounds.Opaque width height state)
    {call : VbeCall} (within : call.DrawsWithin bounds) :
    AllPixels bounds.Opaque width height (step state call) := by
  cases call with
  | drawPixel x y color =>
      have one : AllPixels bounds.Opaque width height (drawPixels state [⟨x, y, color⟩]) := by
        apply draw_pixels_all_pixels fits before
        intro pixel drawn old
        rw [List.mem_singleton.mp drawn]
        exact blend_opaque within
      exact one
  | drawBitmap x y w h bitmap =>
      apply draw_pixels_all_pixels fits before
      intro pixel drawn old
      rcases List.mem_filterMap.mp drawn with ⟨⟨j, i⟩, member, placed⟩
      rw [mem_row_major] at member
      rcases Option.ite_none_right_eq_some.mp placed with ⟨_, same⟩
      rw [← Option.some.inj same]
      exact blend_opaque (within j i (UInt32.lt_iff_toNat_lt.mpr member.1)
        (UInt32.lt_iff_toNat_lt.mpr member.2))
  | drawChar c x y fg bg => exact draw_char_opaque fits before within c x y
  | drawString str x y fg bg => exact draw_string_from_opaque fits before within str x x y
  | clear color => exact within.elim
  | scroll lines => exact within.elim
  | swapBuffers => exact within.elim

theorem run_opaque {state : VbeState} (before : AllPixels bounds.Opaque width height state)
    {calls : List VbeCall} (within : ∀ call ∈ calls, call.DrawsWithin bounds) :
    AllPixels bounds.Opaque width height (run state calls) := by
  induction calls generalizing state with
  | nil => exact before
  | cons call calls induction =>
      have first := step_opaque fits before (within call List.mem_cons_self)
      exact induction first fun other member => within other (List.mem_cons_of_mem call member)

end Runs

/-- After a clear with an opaque colour and any drawing in bounds, the back buffer is
opaque and in bounds, and the next blend mixes each channel with its own only. -/
theorem drawings_stay_in_bounds (state : VbeState) (fits : SizeFits state.width state.height)
    (bounds : ColorBounds) (c0 : UInt32) (solid : bounds.Opaque c0) (calls : List VbeCall)
    (within : ∀ call ∈ calls, call.DrawsWithin bounds) :
    (∀ index < state.width.toNat * state.height.toNat,
        bounds.Opaque ((run (vbeClear state c0) calls).backbuffer.cells index)) ∧
      ∀ x y color, OnScreen state x y → channel color 24 ≠ 0 → channel color 24 ≠ 255 →
        ∀ shift ∈ [16, 8, 0],
          channel (pixelAt (vbeDrawPixel (run (vbeClear state c0) calls) x y color) x y) shift =
            mixChannel (channel color shift)
              (channel (pixelAt (run (vbeClear state c0) calls) x y) shift) (channel color 24) := by
  have reached := run_opaque fits (clear_all_pixels fits solid) within
  constructor
  · intro index inside
    rw [← reached.sameWidth, ← reached.sameHeight] at inside
    rcases cell_pixel inside with ⟨x, y, onScreen, same⟩
    rw [same]
    exact reached.pixels x y onScreen
  · intro x y color onScreen transparent full
    have sameFits : SizeFits (run (vbeClear state c0) calls).width
        (run (vbeClear state c0) calls).height := by
      rw [reached.sameWidth, reached.sameHeight]
      exact fits
    have sameScreen : OnScreen (run (vbeClear state c0) calls) x y := by
      unfold OnScreen
      rw [reached.sameWidth, reached.sameHeight]
      exact onScreen
    rw [pixel_drawn sameFits sameScreen, if_pos rfl]
    exact (blend_channels full transparent).2

/-- A translucent pixel and a smiley over a dark screen. -/
theorem drawings_stay_dark :
    channel ((run (vbeClear (vbeInit (fun _ => 0) (fun _ => 0) [] 4 3 32) 0xFF102030)
      [.drawPixel 1 1 0x80402010, .drawString [1] 0xFFFFFFFE 0 0x20303030 0xFF202020]
        ).backbuffer.cells 5) 24 = 255 := by
  have fits : SizeFits 4 3 := by
    unfold SizeFits
    decide
  have solid : (ColorBounds.mk (fun _ => 16) fun _ => 64).Opaque 0xFF102030 := by
    unfold ColorBounds.Opaque ColorBounds.Holds
    decide
  have dark : (ColorBounds.mk (fun _ => 16) fun _ => 64).Holds 0x80402010 ∧
      (ColorBounds.mk (fun _ => 16) fun _ => 64).Holds 0x20303030 ∧
      (ColorBounds.mk (fun _ => 16) fun _ => 64).Holds 0xFF202020 := by
    unfold ColorBounds.Holds
    decide
  have drawn := drawings_stay_in_bounds (vbeInit (fun _ => 0) (fun _ => 0) [] 4 3 32) fits
    ⟨fun _ => 16, fun _ => 64⟩ 0xFF102030 solid
    [.drawPixel 1 1 0x80402010, .drawString [1] 0xFFFFFFFE 0 0x20303030 0xFF202020] (by
      simp only [List.forall_mem_cons, List.not_mem_nil, false_implies, implies_true, and_true]
      exact dark)
  exact (drawn.1 5 (by decide)).1

end FractionsOS.Vbe
