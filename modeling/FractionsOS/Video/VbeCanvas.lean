import FractionsOS.Library.DoubleBuffer
import FractionsOS.Video.VbeComposition
import FractionsOS.Video.VbeFrames
import FractionsOS.Video.VbeScroll

/-!
# The driver as a canvas

In a mode whose sizes fit, the driver keeps two pictures of so many pixels: every call puts
figures on the drawn one, fills it, moves it up, or shows it. A string is a figure for each
character, where its line and column put it.
-/

namespace FractionsOS.Vbe

open Library Library.Raster Library.DoubleBuffer

set_option autoImplicit false

structure Pixel (width height : UInt32) where
  x : UInt32
  y : UInt32
  column : x < width
  row : y < height

def Pixel.cell {width height : UInt32} (pixel : Pixel width height) : Nat :=
  pixel.y.toNat * width.toNat + pixel.x.toNat

def canvas (width height : UInt32) (state : VbeState) : Canvas (Pixel width height) UInt32 where
  drawn pixel := state.backbuffer.cells pixel.cell
  shown pixel := state.framebuffer pixel.cell

section Changes

variable (state : VbeState)

def cellFigure (x y width height : UInt32) (color : UInt32 → UInt32 → UInt32) :
    Pixel state.width state.height → Option UInt32 := fun pixel =>
  if pixel.x - x < width ∧ pixel.y - y < height then some (color (pixel.y - y) (pixel.x - x))
  else none

def glyphStamp (fg bg : UInt32) (c : UInt8) (x y : UInt32) :
    Change (Pixel state.width state.height) UInt32 :=
  .stamp (cellFigure state x y state.fontWidth state.fontHeight fun j i =>
    if glyphBit c j i ≠ 0 then fg else bg)

def textStamps (str : List UInt8) (x y fg bg : UInt32) :
    List (Change (Pixel state.width state.height) UInt32) :=
  (textLines str).zipIdx.flatMap fun (line, row) => line.zipIdx.map fun (c, column) =>
    glyphStamp state fg bg c (x + UInt32.ofNat column * state.fontWidth)
      (y + UInt32.ofNat row * state.fontHeight)

def pixelBelow (rows : UInt32) (pixel : Pixel state.width state.height) :
    Option (Pixel state.width state.height) :=
  if kept : pixel.y.toNat + rows.toNat < state.height.toNat then
    some ⟨pixel.x, pixel.y + rows, pixel.column,
      (row_below (⟨pixel.column, pixel.row⟩ : OnScreen state pixel.x pixel.y) kept).1.2⟩
  else none

def changesOf : VbeCall → List (Change (Pixel state.width state.height) UInt32)
  | .drawPixel x y color => [.stamp (cellFigure state x y 1 1 fun _ _ => color)]
  | .drawBitmap x y width height bitmap =>
      [.stamp (cellFigure state x y width height fun j i => bitmap (j * width + i))]
  | .drawChar c x y fg bg => [glyphStamp state fg bg c x y]
  | .drawString str x y fg bg => textStamps state str x y fg bg
  | .clear color => [.fill color]
  | .scroll lines => [.shift (pixelBelow state (lines * state.fontHeight)) 0]
  | .swapBuffers => [.publish]

theorem char_calls_changes (str : List UInt8) (x y fg bg : UInt32) :
    (charCalls state x y fg bg str).flatMap (changesOf state) = textStamps state str x y fg bg := by
  unfold charCalls linesCalls textStamps
  rw [List.flatMap_assoc]
  apply List.flatMap_congr
  rintro ⟨line, row⟩ _
  unfold lineCalls
  rw [List.flatMap_map]
  exact List.map_eq_flatMap.symm

end Changes

theorem cells_pixel {state : VbeState} (fits : SizeFits state.width state.height)
    (x y width height : UInt32) (color : UInt32 → UInt32 → UInt32) {px py : UInt32}
    (onScreen : OnScreen state px py) :
    pixelAt (drawPixels state ((rowMajor height width).map fun (j, i) =>
        ⟨x + i, y + j, color j i⟩)) px py =
      if px - x < width ∧ py - y < height then
        blend (color (py - y) (px - x)) (pixelAt state px py)
      else pixelAt state px py := by
  let place (cell : UInt32 × UInt32) : Option (Dab (UInt32 × UInt32) UInt32) :=
    some ⟨(x + cell.2, y + cell.1), color cell.1 cell.2⟩
  have dabs : ((rowMajor height width).map fun (j, i) =>
      (⟨x + i, y + j, color j i⟩ : PixelCall)).map PixelCall.dab =
        (rowMajor height width).filterMap place := by
    rw [List.map_map]
    exact (congrFun List.filterMap_eq_map (rowMajor height width)).symm
  have back : ∀ {cell dab}, place cell = some dab → cell = (dab.point.2 - y, dab.point.1 - x) := by
    intro cell dab placed
    rw [← Option.some.inj placed]
    have column : x + cell.2 - x = cell.2 := by
      rw [UInt32.add_comm, UInt32.add_sub_cancel]
    have row : y + cell.1 - y = cell.1 := by
      rw [UInt32.add_comm, UInt32.add_sub_cancel]
    exact Prod.ext row.symm column.symm
  rw [pixels_painted fits onScreen, dabs]
  by_cases covered : px - x < width ∧ py - y < height
  · rw [if_pos covered]
    have member : (py - y, px - x) ∈ rowMajor height width :=
      (mem_row_major height width _ _).mpr ⟨covered.2, covered.1⟩
    have placed : place (py - y, px - x) = some ⟨(px, py), color (py - y) (px - x)⟩ := by
      change some _ = _
      rw [UInt32.add_comm x, UInt32.add_comm y, UInt32.sub_add_cancel, UInt32.sub_add_cancel]
    have only : ∀ other ∈ rowMajor height width, ∀ dabbed, place other = some dabbed →
        dabbed.point = (px, py) → other = (py - y, px - x) := by
      intro other _ dabbed found samePoint
      rw [back found, samePoint]
    exact painted_once (row_major_nodup height width) member placed only (picture state)
  · rw [if_neg covered]
    apply painted_elsewhere
    intro dab painted samePoint
    rcases List.mem_filterMap.mp painted with ⟨cell, member, placed⟩
    rw [back placed, samePoint, mem_row_major] at member
    exact covered ⟨member.2, member.1⟩

/-- A call does on the canvas what it is said to change. -/
def OnCanvas (call : VbeCall) : Prop :=
  ∀ state : VbeState, SizeFits state.width state.height →
    canvas state.width state.height (step state call) =
      (canvas state.width state.height state).changeAll blend (changesOf state call)

theorem canvas_of_run {state : VbeState} (fits : SizeFits state.width state.height)
    {calls : List VbeCall} (each : ∀ call ∈ calls, OnCanvas call) :
    canvas state.width state.height (run state calls) =
      (canvas state.width state.height state).changeAll blend
        (calls.flatMap (changesOf state)) := by
  induction calls generalizing state with
  | nil => rfl
  | cons call calls induction =>
      have first := each call List.mem_cons_self state fits
      rcases step_frame state call with ⟨backbuffer, framebuffer, stepped⟩
      have rest := @induction { state with backbuffer, framebuffer } fits
        fun other member => each other (List.mem_cons_of_mem call member)
      rw [List.flatMap_cons, change_all_append, ← first]
      change canvas state.width state.height (run (step state call) calls) = _
      rw [stepped]
      exact rest

/-- A call that makes one change of the drawn picture, given what it leaves of each pixel. -/
theorem drawing_on_canvas {state : VbeState} {call : VbeCall}
    {change : Change (Pixel state.width state.height) UInt32}
    (single : changesOf state call = [change])
    (quiet : ((canvas state.width state.height state).change blend change).shown =
      (canvas state.width state.height state).shown)
    (drawing : call ≠ .swapBuffers)
    (pixels : ∀ pixel : Pixel state.width state.height,
      pixelAt (step state call) pixel.x pixel.y =
        ((canvas state.width state.height state).change blend change).drawn pixel) :
    canvas state.width state.height (step state call) =
      (canvas state.width state.height state).changeAll blend (changesOf state call) := by
  rw [single]
  apply Canvas.ext
  · funext pixel
    have drawn := pixels pixel
    rcases step_frame state call with ⟨backbuffer, framebuffer, stepped⟩
    rw [stepped] at drawn ⊢
    exact drawn
  · funext pixel
    have shown := congrFun (step_framebuffer state drawing) pixel.cell
    exact shown.trans (congrFun quiet pixel).symm

theorem stamped_figure (state : VbeState) (x y width height : UInt32)
    (color : UInt32 → UInt32 → UInt32) (pixel : Pixel state.width state.height) :
    stamped blend (cellFigure state x y width height color)
        (canvas state.width state.height state).drawn pixel =
      if pixel.x - x < width ∧ pixel.y - y < height then
        blend (color (pixel.y - y) (pixel.x - x)) (pixelAt state pixel.x pixel.y)
      else pixelAt state pixel.x pixel.y := by
  unfold stamped cellFigure
  by_cases covered : pixel.x - x < width ∧ pixel.y - y < height
  · rw [if_pos covered, if_pos covered]
    rfl
  · rw [if_neg covered, if_neg covered]
    rfl

theorem single_cell {x px : UInt32} : px - x < 1 ↔ px = x := by
  constructor
  · intro inside
    have zero : (px - x).toNat = 0 := Nat.lt_one_iff.mp (UInt32.lt_iff_toNat_lt.mp inside)
    have same : px - x = 0 := UInt32.toNat_inj.mp zero
    rw [← UInt32.sub_add_cancel px x, same, UInt32.zero_add]
  · rintro rfl
    rw [UInt32.sub_self]
    decide

theorem pixel_on_canvas (x y color : UInt32) : OnCanvas (.drawPixel x y color) := by
  intro state fits
  apply drawing_on_canvas rfl rfl VbeCall.noConfusion
  intro pixel
  refine Eq.trans ?_ (stamped_figure state x y 1 1 _ pixel).symm
  rw [step, pixel_drawn fits ⟨pixel.column, pixel.row⟩]
  simp only [single_cell, Prod.mk.injEq]

theorem bitmap_on_canvas (x y width height : UInt32) (bitmap : UInt32 → UInt32) :
    OnCanvas (.drawBitmap x y width height bitmap) := by
  intro state fits
  apply drawing_on_canvas rfl rfl VbeCall.noConfusion
  intro pixel
  rw [step, bitmap_pixel fits ⟨pixel.column, pixel.row⟩]
  exact (stamped_figure state x y width height (fun j i => bitmap (j * width + i)) pixel).symm

theorem char_on_canvas (c : UInt8) (x y fg bg : UInt32) : OnCanvas (.drawChar c x y fg bg) := by
  intro state fits
  apply drawing_on_canvas rfl rfl VbeCall.noConfusion
  intro pixel
  have figure := stamped_figure state x y state.fontWidth state.fontHeight
    (fun j i => if glyphBit c j i ≠ 0 then fg else bg) pixel
  rw [step, vbeDrawChar, char_pixels_cells]
  exact (cells_pixel fits x y state.fontWidth state.fontHeight
    (fun j i => if glyphBit c j i ≠ 0 then fg else bg) ⟨pixel.column, pixel.row⟩).trans figure.symm

theorem string_on_canvas (str : List UInt8) (x y fg bg : UInt32) :
    OnCanvas (.drawString str x y fg bg) := by
  intro state fits
  have chars : ∀ call ∈ charCalls state x y fg bg str, OnCanvas call := by
    intro call member
    rcases List.mem_flatMap.mp member with ⟨⟨line, row⟩, _, inLine⟩
    rcases List.mem_map.mp inLine with ⟨⟨c, column⟩, _, rfl⟩
    exact char_on_canvas c _ _ fg bg
  have drawn := canvas_of_run fits chars
  rw [char_calls_changes] at drawn
  rw [step, vbeDrawString, draw_string_from_calls, text_items_char_calls]
  exact drawn

theorem clear_on_canvas (color : UInt32) : OnCanvas (.clear color) := by
  intro state fits
  apply drawing_on_canvas rfl rfl VbeCall.noConfusion
  intro pixel
  have inside := cell_inside pixel.column pixel.row
  rw [step, pixelAt, clear_cells, pixel_count_value fits]
  exact if_pos inside

theorem scroll_on_canvas (lines : UInt32) : OnCanvas (.scroll lines) := by
  intro state fits
  apply drawing_on_canvas rfl rfl VbeCall.noConfusion
  intro pixel
  have onScreen : OnScreen state pixel.x pixel.y := ⟨pixel.column, pixel.row⟩
  rw [step, scroll_pixel state fits lines _ _ onScreen]
  change _ = shifted (pixelBelow state (lines * state.fontHeight)) 0
    (canvas state.width state.height state).drawn pixel
  unfold shifted pixelBelow
  by_cases kept : pixel.y.toNat + (lines * state.fontHeight).toNat < state.height.toNat
  · rw [if_pos kept, dif_pos kept, ← (row_below onScreen kept).2]
    rfl
  · rw [if_neg kept, dif_neg kept]

theorem word_count_value {width height : UInt32} (fits : SizeFits width height) :
    (width * height * 4).toNat / 4 = width.toNat * height.toNat := by
  rw [byte_count_value fits]
  exact Nat.mul_div_cancel _ (by decide)

theorem swap_on_canvas : OnCanvas .swapBuffers := by
  intro state fits
  apply Canvas.ext
  · rfl
  · funext pixel
    have inside := cell_inside pixel.column pixel.row
    apply if_pos
    rw [word_count_value fits]
    exact inside

theorem call_on_canvas (call : VbeCall) : OnCanvas call := by
  cases call with
  | drawPixel x y color => exact pixel_on_canvas x y color
  | drawBitmap x y width height bitmap => exact bitmap_on_canvas x y width height bitmap
  | drawChar c x y fg bg => exact char_on_canvas c x y fg bg
  | drawString str x y fg bg => exact string_on_canvas str x y fg bg
  | clear color => exact clear_on_canvas color
  | scroll lines => exact scroll_on_canvas lines
  | swapBuffers => exact swap_on_canvas

/-- Every run refines the canvas: in a mode whose sizes fit, what the two buffers hold of
the mode's pixels is what figures, fills, moves and publications make of the two pictures
there were, for every drawing, position, font size and string. -/
theorem run_on_canvas (state : VbeState) (fits : SizeFits state.width state.height)
    (calls : List VbeCall) :
    canvas state.width state.height (run state calls) =
      (canvas state.width state.height state).changeAll blend
        (calls.flatMap (changesOf state)) :=
  canvas_of_run fits fun call _ => call_on_canvas call

theorem run_on_canvas_small :
    let state := vbeInit (fun _ => 0) (fun _ => 0) [] 16 32 32
    let calls := [VbeCall.clear 0xFF000000, .drawString [65, 10, 66] 12 0 0x80FFFFFF 0, .scroll 1,
      .swapBuffers, .drawBitmap 0xFFFFFFFF 2 4 4 fun cell => 0xFF000000 + cell]
    canvas state.width state.height (run state calls) =
      (canvas state.width state.height state).changeAll blend
        (calls.flatMap (changesOf state)) := by
  apply run_on_canvas
  unfold SizeFits
  decide

end FractionsOS.Vbe
