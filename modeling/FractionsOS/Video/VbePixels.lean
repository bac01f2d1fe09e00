import FractionsOS.Library.Raster
import FractionsOS.Library.WordBytes
import FractionsOS.Video.VbeBounds

/-!
# The back buffer as a picture

Rows of pixels that do not share a cell, and what a call of `vbe_draw_pixel` does
to each of them: all drawing is painting with `blend`.
-/

namespace FractionsOS.Vbe

open Library Library.Raster Library.WordBytes

set_option autoImplicit false

def OnScreen (state : VbeState) (x y : UInt32) : Prop := x < state.width ∧ y < state.height

instance (state : VbeState) (x y : UInt32) : Decidable (OnScreen state x y) :=
  inferInstanceAs (Decidable (_ ∧ _))

/-- `backbuffer[y * width + x]`, the product and sum not cut to 32 bits. -/
def pixelAt (state : VbeState) (x y : UInt32) : UInt32 :=
  state.backbuffer.cells (y.toNat * state.width.toNat + x.toNat)

theorem cell_row {width x : Nat} (column : x < width) (y : Nat) : (y * width + x) / width = y := by
  rw [Nat.mul_comm, Nat.mul_add_div (Nat.zero_lt_of_lt column), Nat.div_eq_of_lt column,
    Nat.add_zero]

theorem cell_column {width x : Nat} (column : x < width) (y : Nat) :
    (y * width + x) % width = x := by
  rw [Nat.mul_add_mod', Nat.mod_eq_of_lt column]

theorem pixel_cell_injective {width x y otherX otherY : Nat} (column : x < width)
    (otherColumn : otherX < width) (same : y * width + x = otherY * width + otherX) :
    x = otherX ∧ y = otherY := by
  have columns := cell_column column y
  have rows := cell_row column y
  rw [same, cell_column otherColumn] at columns
  rw [same, cell_row otherColumn] at rows
  exact ⟨columns.symm, rows.symm⟩

theorem pixel_cell_value {state : VbeState} (fits : SizeFits state.width state.height)
    {x y : UInt32} (onScreen : OnScreen state x y) :
    pixelIndex state x y = y.toNat * state.width.toNat + x.toNat := by
  have rows : y.toNat * state.width.toNat + state.width.toNat ≤
      state.width.toNat * state.height.toNat := row_product_le onScreen.2
  have columns := UInt32.lt_iff_toNat_lt.mp onScreen.1
  unfold SizeFits at fits
  rw [pixelIndex, UInt32.toNat_add, product_value (by omega)]
  exact Nat.mod_eq_of_lt (by omega)

theorem mem_row_major (height width j i : UInt32) :
    (j, i) ∈ rowMajor height width ↔ j.toNat < height.toNat ∧ i.toNat < width.toNat := by
  unfold rowMajor
  rw [List.mem_flatMap]
  constructor
  · rintro ⟨row, inRows, member⟩
    rcases List.mem_map.mp member with ⟨column, inColumns, same⟩
    rw [List.mem_range] at inRows inColumns
    cases same
    rw [UInt32.toNat_ofNat_of_lt' (inRows.trans height.toNat_lt),
      UInt32.toNat_ofNat_of_lt' (inColumns.trans width.toNat_lt)]
    exact ⟨inRows, inColumns⟩
  · rintro ⟨inRows, inColumns⟩
    refine ⟨j.toNat, List.mem_range.mpr inRows, List.mem_map.mpr ⟨i.toNat, ?_, ?_⟩⟩
    · exact List.mem_range.mpr inColumns
    · rw [UInt32.ofNat_toNat, UInt32.ofNat_toNat]

theorem mem_row_major_map {Item : Type} (height width : UInt32) (item : UInt32 × UInt32 → Item)
    (yielded : Item) :
    yielded ∈ (rowMajor height width).map item ↔
      ∃ j i : UInt32, j.toNat < height.toNat ∧ i.toNat < width.toNat ∧ yielded = item (j, i) := by
  rw [List.mem_map]
  constructor
  · rintro ⟨⟨j, i⟩, inside, rfl⟩
    rw [mem_row_major] at inside
    exact ⟨j, i, inside.1, inside.2, rfl⟩
  · rintro ⟨j, i, row, column, rfl⟩
    exact ⟨(j, i), (mem_row_major _ _ _ _).mpr ⟨row, column⟩, rfl⟩

theorem row_major_nodup (height width : UInt32) : (rowMajor height width).Nodup := by
  have injective : ∀ {bound : UInt32} {left right : Nat}, left < bound.toNat →
      right < bound.toNat → UInt32.ofNat left = UInt32.ofNat right → left = right := by
    intro bound left right leftInside rightInside same
    have values := congrArg UInt32.toNat same
    rw [UInt32.toNat_ofNat_of_lt' (leftInside.trans bound.toNat_lt),
      UInt32.toNat_ofNat_of_lt' (rightInside.trans bound.toNat_lt)] at values
    exact values
  unfold rowMajor
  rw [List.nodup_flatMap]
  constructor
  · intro j _
    apply List.Nodup.map_on _ List.nodup_range
    intro left leftInside right rightInside same
    rw [List.mem_range] at leftInside rightInside
    exact injective leftInside rightInside (Prod.mk.inj same).2
  · apply List.Pairwise.imp_of_mem _ List.nodup_range
    intro left right leftInside rightInside different
    rw [List.mem_range] at leftInside rightInside
    intro cell first second
    rcases List.mem_map.mp first with ⟨_, _, rfl⟩
    rcases List.mem_map.mp second with ⟨_, _, same⟩
    exact different (injective leftInside rightInside (Prod.mk.inj same).1.symm)

/-- What `vbe_draw_pixel` leaves of a colour over the one that was there. -/
def blend (color bg : UInt32) : UInt32 :=
  if alphaOf color = 0xFF then color
  else if alphaOf color > 0 then
    rgb (blendChannel (redOf color) (redOf bg) (alphaOf color)).toUInt32
      (blendChannel (greenOf color) (greenOf bg) (alphaOf color)).toUInt32
      (blendChannel (blueOf color) (blueOf bg) (alphaOf color)).toUInt32
  else bg

theorem draw_pixel_cells (state : VbeState) (x y color : UInt32) (index : Nat) :
    (vbeDrawPixel state x y color).backbuffer.cells index =
      if OnScreen state x y ∧ index = pixelIndex state x y then
        blend color (state.backbuffer.cells index)
      else state.backbuffer.cells index := by
  unfold vbeDrawPixel
  by_cases clipped : x ≥ state.width ∨ y ≥ state.height
  · have off : ¬(OnScreen state x y ∧ index = pixelIndex state x y) := by
      rintro ⟨⟨column, row⟩, -⟩
      rcases clipped with outside | outside
      · exact UInt32.not_le.mpr column outside
      · exact UInt32.not_le.mpr row outside
    rw [if_pos clipped, if_neg off]
  · have onScreen : OnScreen state x y := by
      rw [not_or] at clipped
      exact ⟨UInt32.not_le.mp clipped.1, UInt32.not_le.mp clipped.2⟩
    rw [if_neg clipped]
    dsimp only
    by_cases here : index = pixelIndex state x y
    · have drawn : OnScreen state x y ∧ index = pixelIndex state x y := ⟨onScreen, here⟩
      subst here
      unfold blend
      split_ifs
      · rw [TracedMemory.store_cells, if_pos rfl]
      · rw [TracedMemory.store_cells, if_pos rfl]
      · rfl
    · have apart : ¬(OnScreen state x y ∧ index = pixelIndex state x y) := fun both => here both.2
      split_ifs
      · rw [TracedMemory.store_cells, if_neg here, TracedMemory.touch_cells]
      · rw [TracedMemory.store_cells, if_neg here, TracedMemory.touch_cells]
      · rfl

/-- Only the pixel drawn changes. -/
theorem pixel_drawn {state : VbeState} (fits : SizeFits state.width state.height) {px py : UInt32}
    (onScreen : OnScreen state px py) (x y color : UInt32) :
    pixelAt (vbeDrawPixel state x y color) px py =
      if (px, py) = (x, y) then blend color (pixelAt state px py) else pixelAt state px py := by
  have mode := draw_pixel_mode state x y color
  unfold pixelAt
  rw [mode.1, draw_pixel_cells]
  by_cases here : (px, py) = (x, y)
  · rcases Prod.mk.inj here with ⟨rfl, rfl⟩
    rw [if_pos rfl, if_pos ⟨onScreen, (pixel_cell_value fits onScreen).symm⟩]
  · have apart : ¬(OnScreen state x y ∧
        py.toNat * state.width.toNat + px.toNat = pixelIndex state x y) := by
      rintro ⟨drawn, same⟩
      rw [pixel_cell_value fits drawn] at same
      rcases pixel_cell_injective onScreen.1 drawn.1 same with ⟨column, row⟩
      exact here (Prod.ext (UInt32.toNat_inj.mp column) (UInt32.toNat_inj.mp row))
    rw [if_neg here, if_neg apart]

def PixelCall.dab (pixel : PixelCall) : Dab (UInt32 × UInt32) UInt32 :=
  ⟨(pixel.x, pixel.y), pixel.color⟩

def picture (state : VbeState) : UInt32 × UInt32 → UInt32 := fun point =>
  pixelAt state point.1 point.2

theorem draw_pixels_frame (state : VbeState) (pixels : List PixelCall) :
    ∃ backbuffer, drawPixels state pixels = { state with backbuffer } := by
  induction pixels generalizing state with
  | nil => exact ⟨_, rfl⟩
  | cons pixel pixels induction =>
      rcases draw_pixel_frame state pixel.x pixel.y pixel.color with ⟨first, drawn⟩
      rcases induction { state with backbuffer := first } with ⟨rest, same⟩
      refine ⟨rest, ?_⟩
      change drawPixels (vbeDrawPixel state pixel.x pixel.y pixel.color) pixels = _
      rw [drawn, same]

theorem draw_pixels_mode (state : VbeState) (pixels : List PixelCall) :
    (drawPixels state pixels).width = state.width ∧
      (drawPixels state pixels).height = state.height := by
  rcases draw_pixels_frame state pixels with ⟨backbuffer, drawn⟩
  rw [drawn]
  exact ⟨rfl, rfl⟩

/-- Calls of `vbe_draw_pixel` paint the picture. -/
theorem pixels_painted {state : VbeState} (fits : SizeFits state.width state.height)
    {px py : UInt32} (onScreen : OnScreen state px py) (pixels : List PixelCall) :
    pixelAt (drawPixels state pixels) px py =
      paintAll blend (picture state) (pixels.map PixelCall.dab) (px, py) := by
  induction pixels generalizing state with
  | nil => rfl
  | cons pixel pixels induction =>
      have mode := draw_pixel_mode state pixel.x pixel.y pixel.color
      have sameFits : SizeFits (vbeDrawPixel state pixel.x pixel.y pixel.color).width
          (vbeDrawPixel state pixel.x pixel.y pixel.color).height := by
        rw [mode.1, mode.2]
        exact fits
      have sameScreen : OnScreen (vbeDrawPixel state pixel.x pixel.y pixel.color) px py := by
        unfold OnScreen
        rw [mode.1, mode.2]
        exact onScreen
      have rest := induction sameFits sameScreen
      refine rest.trans (painted_locally ?_ _)
      exact pixel_drawn fits onScreen pixel.x pixel.y pixel.color

def stringPixels (state : VbeState) (x fg bg cursorX cursorY : UInt32) :
    List UInt8 → List PixelCall
  | [] => []
  | c :: str =>
      if c = 0 then []
      else if c = 10 then stringPixels state x fg bg x (cursorY + state.fontHeight) str
      else
        charPixels state c cursorX cursorY fg bg ++
          stringPixels state x fg bg (cursorX + state.fontWidth) cursorY str

theorem string_pixels_font {state other : VbeState} (sameWidth : other.fontWidth = state.fontWidth)
    (sameHeight : other.fontHeight = state.fontHeight) (x fg bg cursorX cursorY : UInt32)
    (str : List UInt8) :
    stringPixels other x fg bg cursorX cursorY str =
      stringPixels state x fg bg cursorX cursorY str := by
  induction str generalizing cursorX cursorY with
  | nil => rfl
  | cons c str induction =>
      have char : charPixels other c cursorX cursorY fg bg =
          charPixels state c cursorX cursorY fg bg := by
        rw [charPixels, charPixels, charAccesses, charAccesses, sameWidth, sameHeight]
      rw [stringPixels, stringPixels, induction, induction, char, sameWidth, sameHeight]

theorem draw_string_pixels (state : VbeState) (x fg bg cursorX cursorY : UInt32)
    (str : List UInt8) :
    drawStringFrom state x fg bg cursorX cursorY str =
      drawPixels state (stringPixels state x fg bg cursorX cursorY str) := by
  induction str generalizing state cursorX cursorY with
  | nil => rfl
  | cons c str induction =>
      rw [drawStringFrom, stringPixels]
      split_ifs
      · rfl
      · exact induction state x (cursorY + state.fontHeight)
      · rw [induction, vbeDrawChar]
        obtain ⟨backbuffer, drawn⟩ :=
          draw_pixels_frame state (charPixels state c cursorX cursorY fg bg)
        have font := @string_pixels_font state
          (drawPixels state (charPixels state c cursorX cursorY fg bg)) (by rw [drawn])
          (by rw [drawn]) x fg bg (cursorX + state.fontWidth) cursorY str
        rw [font]
        exact (List.foldl_append).symm

theorem draw_string_frame (state : VbeState) (str : List UInt8) (x y fg bg : UInt32) :
    ∃ backbuffer, vbeDrawString state str x y fg bg = { state with backbuffer } := by
  rw [vbeDrawString, draw_string_pixels]
  exact draw_pixels_frame state _

theorem clear_cells (state : VbeState) (color : UInt32) (index : Nat) :
    (vbeClear state color).backbuffer.cells index =
      if index < (state.width * state.height).toNat then color
      else state.backbuffer.cells index := by
  change ((List.range _).foldl (fun backbuffer i => backbuffer.store i color)
    state.backbuffer).cells index = _
  induction (state.width * state.height).toNat with
  | zero => rfl
  | succ count induction =>
      rw [List.range_succ, List.foldl_append, List.foldl_cons, List.foldl_nil,
        TracedMemory.store_cells, induction]
      by_cases last : index = count
      · rw [if_pos last, if_pos (by omega)]
      · rw [if_neg last]
        by_cases earlier : index < count
        · rw [if_pos earlier, if_pos (by omega)]
        · rw [if_neg earlier, if_neg (by omega)]

theorem cell_inside {width height x y : UInt32} (column : x < width) (row : y < height) :
    y.toNat * width.toNat + x.toNat < width.toNat * height.toNat := by
  have rows : y.toNat * width.toNat + width.toNat ≤ width.toNat * height.toNat :=
    row_product_le row
  have columns := UInt32.lt_iff_toNat_lt.mp column
  omega

theorem cell_coordinates {state : VbeState} {index : Nat}
    (inside : index < state.width.toNat * state.height.toNat) :
    ∃ x y, OnScreen state x y ∧ y.toNat * state.width.toNat + x.toNat = index := by
  have wide : 0 < state.width.toNat := by
    by_contra empty
    rw [Nat.eq_zero_of_not_pos empty, Nat.zero_mul] at inside
    exact Nat.not_lt_zero index inside
  have column : index % state.width.toNat < state.width.toNat := Nat.mod_lt _ wide
  have row : index / state.width.toNat < state.height.toNat := Nat.div_lt_of_lt_mul inside
  have columnValue : (UInt32.ofNat (index % state.width.toNat)).toNat = index % state.width.toNat :=
    UInt32.toNat_ofNat_of_lt' (column.trans state.width.toNat_lt)
  have rowValue : (UInt32.ofNat (index / state.width.toNat)).toNat = index / state.width.toNat :=
    UInt32.toNat_ofNat_of_lt' (row.trans state.height.toNat_lt)
  refine ⟨UInt32.ofNat (index % state.width.toNat), UInt32.ofNat (index / state.width.toNat),
    ⟨?_, ?_⟩, ?_⟩
  · rw [UInt32.lt_iff_toNat_lt, columnValue]
    exact column
  · rw [UInt32.lt_iff_toNat_lt, rowValue]
    exact row
  · rw [columnValue, rowValue, Nat.div_add_mod']

theorem cell_pixel {state : VbeState} {index : Nat}
    (inside : index < state.width.toNat * state.height.toNat) :
    ∃ x y, OnScreen state x y ∧ state.backbuffer.cells index = pixelAt state x y := by
  obtain ⟨x, y, onScreen, cell⟩ := cell_coordinates inside
  exact ⟨x, y, onScreen, by rw [pixelAt, cell]⟩

theorem cells_of_pixels {state other : VbeState} (sameWidth : other.width = state.width)
    (same : ∀ x y, OnScreen state x y → pixelAt state x y = pixelAt other x y) {index : Nat}
    (inside : index < state.width.toNat * state.height.toNat) :
    state.backbuffer.cells index = other.backbuffer.cells index := by
  obtain ⟨x, y, onScreen, rfl⟩ := cell_coordinates inside
  have pixel := same x y onScreen
  rw [pixelAt, pixelAt, sameWidth] at pixel
  exact pixel

theorem scroll_frame (state : VbeState) (lines : UInt32) :
    ∃ backbuffer, vbeScroll state lines = { state with backbuffer } := by
  unfold vbeScroll
  dsimp only
  split_ifs
  · exact ⟨_, rfl⟩
  · exact ⟨_, rfl⟩

theorem step_frame (state : VbeState) (call : VbeCall) :
    ∃ backbuffer framebuffer, step state call = { state with backbuffer, framebuffer } := by
  cases call with
  | drawPixel x y color =>
      rcases draw_pixel_frame state x y color with ⟨backbuffer, drawn⟩
      exact ⟨backbuffer, state.framebuffer, drawn⟩
  | drawBitmap x y width height bitmap =>
      rcases draw_pixels_frame state (bitmapPixels state x y width height bitmap) with
        ⟨backbuffer, drawn⟩
      exact ⟨backbuffer, state.framebuffer, drawn⟩
  | drawChar c x y fg bg =>
      rcases draw_pixels_frame state (charPixels state c x y fg bg) with ⟨backbuffer, drawn⟩
      exact ⟨backbuffer, state.framebuffer, drawn⟩
  | drawString str x y fg bg =>
      rcases draw_string_frame state str x y fg bg with ⟨backbuffer, drawn⟩
      exact ⟨backbuffer, state.framebuffer, drawn⟩
  | clear color => exact ⟨_, state.framebuffer, rfl⟩
  | scroll lines =>
      rcases scroll_frame state lines with ⟨backbuffer, scrolled⟩
      exact ⟨backbuffer, state.framebuffer, scrolled⟩
  | swapBuffers => exact ⟨_, _, rfl⟩

theorem run_frame (state : VbeState) (calls : List VbeCall) :
    ∃ backbuffer framebuffer, run state calls = { state with backbuffer, framebuffer } := by
  induction calls generalizing state with
  | nil => exact ⟨_, _, rfl⟩
  | cons call calls induction =>
      rcases step_frame state call with ⟨first, copied, stepped⟩
      rcases induction { state with backbuffer := first, framebuffer := copied } with
        ⟨backbuffer, framebuffer, same⟩
      refine ⟨backbuffer, framebuffer, ?_⟩
      change run (step state call) calls = _
      rw [stepped, same]

structure AllPixels (allowed : UInt32 → Prop) (width height : UInt32) (state : VbeState) :
    Prop where
  sameWidth : state.width = width
  sameHeight : state.height = height
  pixels : ∀ x y, OnScreen state x y → allowed (pixelAt state x y)

theorem clear_all_pixels {allowed : UInt32 → Prop} {state : VbeState}
    (fits : SizeFits state.width state.height) {color : UInt32} (member : allowed color) :
    AllPixels allowed state.width state.height (vbeClear state color) := by
  constructor
  · rfl
  · rfl
  · intro x y onScreen
    have inside := cell_inside onScreen.1 onScreen.2
    unfold pixelAt
    rw [clear_cells, if_pos]
    · exact member
    · rw [pixel_count_value fits]
      exact inside

theorem draw_pixels_all_pixels {allowed : UInt32 → Prop} {width height : UInt32}
    (fits : SizeFits width height) {state : VbeState} (before : AllPixels allowed width height state)
    {pixels : List PixelCall}
    (kept : ∀ pixel ∈ pixels, ∀ color, allowed color → allowed (blend pixel.color color)) :
    AllPixels allowed width height (drawPixels state pixels) := by
  have mode := draw_pixels_mode state pixels
  constructor
  · exact mode.1.trans before.sameWidth
  · exact mode.2.trans before.sameHeight
  · intro x y onScreen
    have sameScreen : OnScreen state x y := by
      unfold OnScreen at onScreen
      rw [mode.1, mode.2] at onScreen
      exact onScreen
    have sameFits : SizeFits state.width state.height := by
      rw [before.sameWidth, before.sameHeight]
      exact fits
    rw [pixels_painted sameFits sameScreen]
    apply painted_allowed
    · intro dab member
      rcases List.mem_map.mp member with ⟨pixel, drawn, rfl⟩
      exact kept pixel drawn
    · exact before.pixels x y sameScreen

end FractionsOS.Vbe
