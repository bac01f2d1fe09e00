import FractionsOS.Video.Vbe
import Mathlib.Tactic.Ring

/-!
# Accesses to the back buffer

The coordinate checks of `vbe.c` bound every index by the product of width and
height taken as a natural number, the allocation by the same product in 32 bits.
The two agree exactly when the size in bytes does not wrap, and then no
operation leaves the block.
-/

namespace FractionsOS.Vbe

open Library

set_option autoImplicit false

/-- A cell of the back buffer lies in a block of so many bytes. -/
def CellInBlock (bytes index : Nat) : Prop := 4 * index + 4 ≤ bytes

instance (bytes index : Nat) : Decidable (CellInBlock bytes index) :=
  inferInstanceAs (Decidable (4 * index + 4 ≤ bytes))

/-- The mode is the given one and no access so far left its pixels. -/
structure InMode (width height : UInt32) (state : VbeState) : Prop where
  sameWidth : state.width = width
  sameHeight : state.height = height
  within : state.backbuffer.Within (width.toNat * height.toNat)

/-- The size of the picture in bytes does not wrap. -/
def SizeFits (width height : UInt32) : Prop := width.toNat * height.toNat * 4 < 2 ^ 32

theorem product_value {left right : UInt32} (bound : left.toNat * right.toNat < 2 ^ 32) :
    (left * right).toNat = left.toNat * right.toNat := by
  rw [UInt32.toNat_mul]
  exact Nat.mod_eq_of_lt bound

theorem row_product_le {width height y : UInt32} (inRows : y < height) :
    y.toNat * width.toNat + width.toNat ≤ width.toNat * height.toNat := by
  have next : (y.toNat + 1) * width.toNat ≤ height.toNat * width.toNat :=
    Nat.mul_le_mul_right _ (UInt32.lt_iff_toNat_lt.mp inRows)
  rw [Nat.add_mul, Nat.one_mul, Nat.mul_comm height.toNat] at next
  exact next

theorem scroll_rows {width height scrollPixels : UInt32} (part : scrollPixels < height) :
    scrollPixels.toNat * width.toNat + (height.toNat - scrollPixels.toNat) * width.toNat =
      width.toNat * height.toNat := by
  have partRows := UInt32.lt_iff_toNat_lt.mp part
  rw [← Nat.add_mul, Nat.add_sub_cancel' partRows.le, Nat.mul_comm]

section Bounds

variable {width height : UInt32} (fits : SizeFits width height)

include fits

theorem pixel_count_value : (width * height).toNat = width.toNat * height.toNat := by
  unfold SizeFits at fits
  exact product_value (by omega)

theorem byte_count_value : (width * height * 4).toNat = width.toNat * height.toNat * 4 := by
  have count := pixel_count_value fits
  rw [product_value, count]
  · rfl
  · rw [count]
    exact fits

theorem pixel_index_value {state : VbeState} (mode : InMode width height state) {x y : UInt32}
    (inColumns : x < width) (inRows : y < height) :
    pixelIndex state x y = y.toNat * width.toNat + x.toNat := by
  have rows : y.toNat * width.toNat + width.toNat ≤ width.toNat * height.toNat :=
    row_product_le inRows
  have columns := UInt32.lt_iff_toNat_lt.mp inColumns
  unfold SizeFits at fits
  rw [pixelIndex, mode.sameWidth, UInt32.toNat_add, product_value (by omega)]
  exact Nat.mod_eq_of_lt (by omega)

theorem pixel_index_lt {state : VbeState} (mode : InMode width height state) {x y : UInt32}
    (inColumns : x < width) (inRows : y < height) :
    pixelIndex state x y < width.toNat * height.toNat := by
  have rows : y.toNat * width.toNat + width.toNat ≤ width.toNat * height.toNat :=
    row_product_le inRows
  have columns := UInt32.lt_iff_toNat_lt.mp inColumns
  rw [pixel_index_value fits mode inColumns inRows]
  omega

theorem draw_pixel_in_mode {state : VbeState} (mode : InMode width height state)
    (x y color : UInt32) : InMode width height (vbeDrawPixel state x y color) := by
  unfold vbeDrawPixel
  by_cases clipped : x ≥ state.width ∨ y ≥ state.height
  · rw [if_pos clipped]
    exact mode
  · rw [if_neg clipped]
    have inColumns : x < width := by
      rw [← mode.sameWidth]
      exact UInt32.not_le.mp fun outside => clipped (Or.inl outside)
    have inRows : y < height := by
      rw [← mode.sameHeight]
      exact UInt32.not_le.mp fun outside => clipped (Or.inr outside)
    have inside := pixel_index_lt fits mode inColumns inRows
    have read := TracedMemory.within_touch mode.within inside
    dsimp only
    split_ifs
    · exact ⟨mode.sameWidth, mode.sameHeight, TracedMemory.within_store read inside⟩
    · exact ⟨mode.sameWidth, mode.sameHeight, TracedMemory.within_store read inside⟩
    · exact ⟨mode.sameWidth, mode.sameHeight, read⟩

theorem draw_pixels_in_mode {state : VbeState} (mode : InMode width height state)
    (pixels : List PixelCall) : InMode width height (drawPixels state pixels) := by
  induction pixels generalizing state with
  | nil => exact mode
  | cons pixel pixels induction =>
      exact induction (draw_pixel_in_mode fits mode pixel.x pixel.y pixel.color)

theorem draw_string_from_in_mode {state : VbeState} (mode : InMode width height state)
    (str : List UInt8) (x fg bg cursorX cursorY : UInt32) :
    InMode width height (drawStringFrom state x fg bg cursorX cursorY str) := by
  induction str generalizing state cursorX cursorY with
  | nil => exact mode
  | cons c str induction =>
      unfold drawStringFrom
      split_ifs
      · exact mode
      · exact induction mode _ _
      · exact induction (draw_pixels_in_mode fits mode _) _ _

theorem clear_in_mode {state : VbeState} (mode : InMode width height state) (color : UInt32) :
    InMode width height (vbeClear state color) := by
  have passes : ∀ count, count ≤ width.toNat * height.toNat →
      ((List.range count).foldl (fun backbuffer i => backbuffer.store i color)
        state.backbuffer).Within (width.toNat * height.toNat) := by
    intro count bound
    induction count with
    | zero => exact mode.within
    | succ count induction =>
        rw [List.range_succ, List.foldl_append]
        exact TracedMemory.within_store (induction (Nat.le_of_succ_le bound)) bound
  constructor
  · exact mode.sameWidth
  · exact mode.sameHeight
  · unfold vbeClear
    rw [mode.sameWidth, mode.sameHeight, pixel_count_value fits]
    exact passes _ le_rfl

theorem scroll_sizes {scrollPixels : UInt32} (part : scrollPixels < height) :
    (scrollPixels * width).toNat = scrollPixels.toNat * width.toNat ∧
      ((height - scrollPixels) * width).toNat =
        (height.toNat - scrollPixels.toNat) * width.toNat ∧
      (scrollPixels * (width * 4)).toNat / 4 = scrollPixels.toNat * width.toNat ∧
      ((height - scrollPixels) * (width * 4)).toNat / 4 =
        (height.toNat - scrollPixels.toNat) * width.toNat := by
  have partRows := UInt32.lt_iff_toNat_lt.mp part
  have parts := @scroll_rows width height scrollPixels part
  have keptRows : (height - scrollPixels).toNat = height.toNat - scrollPixels.toNat := by
    exact UInt32.toNat_sub_of_le _ _ (UInt32.le_iff_toNat_le.mpr partRows.le)
  unfold SizeFits at fits
  have lineSize : (width * 4).toNat = width.toNat * 4 := by
    apply product_value
    have oneRow : width.toNat * 1 ≤ width.toNat * height.toNat :=
      Nat.mul_le_mul_left _ (by omega)
    change width.toNat * 4 < 2 ^ 32
    omega
  have scrolledCells : (scrollPixels * width).toNat = scrollPixels.toNat * width.toNat :=
    product_value (by omega)
  have keptCells : ((height - scrollPixels) * width).toNat =
      (height.toNat - scrollPixels.toNat) * width.toNat := by
    rw [product_value (by rw [keptRows]; omega), keptRows]
  have scrolledBytes : (scrollPixels * (width * 4)).toNat / 4 =
      scrollPixels.toNat * width.toNat := by
    rw [product_value (by rw [lineSize, ← Nat.mul_assoc]; omega), lineSize, ← Nat.mul_assoc]
    exact Nat.mul_div_cancel _ (by decide)
  have keptBytes : ((height - scrollPixels) * (width * 4)).toNat / 4 =
      (height.toNat - scrollPixels.toNat) * width.toNat := by
    rw [product_value (by rw [lineSize, keptRows, ← Nat.mul_assoc]; omega), lineSize, keptRows,
      ← Nat.mul_assoc]
    exact Nat.mul_div_cancel _ (by decide)
  exact ⟨scrolledCells, keptCells, scrolledBytes, keptBytes⟩

theorem scroll_in_mode {state : VbeState} (mode : InMode width height state) (lines : UInt32) :
    InMode width height (vbeScroll state lines) := by
  unfold vbeScroll
  by_cases cleared : lines * state.fontHeight ≥ state.height
  · rw [if_pos cleared]
    exact clear_in_mode fits mode 0
  · rw [if_neg cleared, mode.sameWidth, mode.sameHeight]
    rw [mode.sameHeight] at cleared
    have part := UInt32.not_le.mp cleared
    have parts := @scroll_rows width height _ part
    rcases scroll_sizes fits part with ⟨scrolledCells, keptCells, scrolledBytes, keptBytes⟩
    constructor
    · rfl
    · rfl
    · simp only [scrolledCells, keptCells, scrolledBytes, keptBytes]
      apply TracedMemory.within_fill
      · apply TracedMemory.within_move mode.within
        · omega
        · omega
      · omega

theorem swap_buffers_in_mode {state : VbeState} (mode : InMode width height state) :
    InMode width height (vbeSwapBuffers state) := by
  constructor
  · exact mode.sameWidth
  · exact mode.sameHeight
  · unfold vbeSwapBuffers
    rw [mode.sameWidth, mode.sameHeight, byte_count_value fits, Nat.mul_div_cancel _ (by decide)]
    exact TracedMemory.within_touch_range mode.within (by omega)

theorem step_in_mode {state : VbeState} (mode : InMode width height state) (call : VbeCall) :
    InMode width height (step state call) := by
  cases call with
  | drawPixel x y color => exact draw_pixel_in_mode fits mode x y color
  | drawBitmap x y w h bitmap => exact draw_pixels_in_mode fits mode _
  | drawChar c x y fg bg => exact draw_pixels_in_mode fits mode _
  | drawString str x y fg bg => exact draw_string_from_in_mode fits mode str x fg bg x y
  | clear color => exact clear_in_mode fits mode color
  | scroll lines => exact scroll_in_mode fits mode lines
  | swapBuffers => exact swap_buffers_in_mode fits mode

theorem run_in_mode {state : VbeState} (mode : InMode width height state) (calls : List VbeCall) :
    InMode width height (run state calls) := by
  induction calls generalizing state with
  | nil => exact mode
  | cons call calls induction => exact induction (step_in_mode fits mode call)

theorem init_in_mode (allocated framebuffer : Nat → UInt32) (ports : List (UInt16 × UInt16))
    (bpp : UInt8) :
    InMode width height (vbeInit allocated framebuffer ports width height bpp) := by
  constructor
  · rfl
  · rfl
  · have fresh : ({ cells := allocated, trace := [] } : TracedMemory UInt32).Within
        (width.toNat * height.toNat) := by
      intro index member
      cases member
    apply TracedMemory.within_fill fresh
    rw [byte_count_value fits, Nat.mul_div_cancel _ (by decide)]
    omega

end Bounds

/-- A wrapped size leaves a pixel on the screen whose cell is the first one
behind the block. -/
theorem pixel_behind_block {width height : UInt32} (wraps : ¬SizeFits width height) :
    ∃ x y : UInt32, x < width ∧ y < height ∧
      ¬CellInBlock (width * height * 4).toNat (y * width + x).toNat := by
  unfold SizeFits at wraps
  let cells := (width.toNat * height.toNat) % 2 ^ 30
  have onScreen : cells < width.toNat * height.toNat := by
    have small : cells < 2 ^ 30 := Nat.mod_lt _ (by decide)
    omega
  have widthPositive : 0 < width.toNat := by
    rcases Nat.eq_zero_or_pos width.toNat with zero | positive
    · rw [zero, Nat.zero_mul] at onScreen
      cases onScreen
    · exact positive
  have inColumns : cells % width.toNat < width.toNat := Nat.mod_lt _ widthPositive
  have inRows : cells / width.toNat < height.toNat := Nat.div_lt_of_lt_mul onScreen
  have column : (UInt32.ofNat (cells % width.toNat)).toNat = cells % width.toNat :=
    UInt32.toNat_ofNat_of_lt' (inColumns.trans width.toNat_lt)
  have row : (UInt32.ofNat (cells / width.toNat)).toNat = cells / width.toNat :=
    UInt32.toNat_ofNat_of_lt' (inRows.trans height.toNat_lt)
  refine ⟨UInt32.ofNat (cells % width.toNat), UInt32.ofNat (cells / width.toNat), ?_, ?_, ?_⟩
  · rw [UInt32.lt_iff_toNat_lt, column]
    exact inColumns
  · rw [UInt32.lt_iff_toNat_lt, row]
    exact inRows
  · have split : cells / width.toNat * width.toNat + cells % width.toNat = cells :=
      Nat.div_add_mod' cells width.toNat
    have index : (UInt32.ofNat (cells / width.toNat) * width +
        UInt32.ofNat (cells % width.toNat)).toNat = cells := by
      rw [UInt32.toNat_add, UInt32.toNat_mul, row, column]
      omega
    have block : (width * height * 4).toNat = 4 * cells := by
      rw [UInt32.toNat_mul, UInt32.toNat_mul]
      change width.toNat * height.toNat % 2 ^ 32 * 4 % 2 ^ 32 = 4 * cells
      omega
    rw [CellInBlock, index, block]
    omega

/-- Every run stays in the block exactly when the size in bytes fits 32 bits. -/
theorem vbe_accesses_in_block_iff (allocated framebuffer : Nat → UInt32)
    (ports : List (UInt16 × UInt16)) (width height : UInt32) (bpp : UInt8) :
    (∀ calls, ∀ index ∈
        (run (vbeInit allocated framebuffer ports width height bpp) calls).backbuffer.trace,
      CellInBlock (vbeInit allocated framebuffer ports width height bpp).backbufferBytes index) ↔
      width.toNat * height.toNat * 4 < 2 ^ 32 := by
  constructor
  · intro inBlock
    by_contra wraps
    obtain ⟨x, y, inColumns, inRows, behind⟩ := pixel_behind_block wraps
    apply behind
    apply inBlock [.drawPixel x y 0]
    have drawn : (vbeDrawPixel (vbeInit allocated framebuffer ports width height bpp) x y
        0).backbuffer.trace =
          (y * width + x).toNat ::
            (vbeInit allocated framebuffer ports width height bpp).backbuffer.trace := by
      unfold vbeDrawPixel
      rw [if_neg]
      · rfl
      · rw [not_or]
        exact ⟨UInt32.not_le.mpr inColumns, UInt32.not_le.mpr inRows⟩
    change (y * width + x).toNat ∈ (vbeDrawPixel _ x y 0).backbuffer.trace
    rw [drawn]
    exact List.mem_cons_self
  · intro fits calls index member
    have mode := run_in_mode fits (init_in_mode fits allocated framebuffer ports bpp) calls
    have inside := mode.within index member
    change 4 * index + 4 ≤ (width * height * 4).toNat
    rw [byte_count_value fits]
    omega

/-- A mode of 65536 by 65536 pixels gets an empty block. -/
theorem vbe_access_leaves_block :
    ¬∀ (width height : UInt32) (calls : List VbeCall), ∀ index ∈
        (run (vbeInit (fun _ => 0) (fun _ => 0) [] width height 32) calls).backbuffer.trace,
      CellInBlock (vbeInit (fun _ => 0) (fun _ => 0) [] width height 32).backbufferBytes index := by
  intro inBlock
  have first := inBlock 65536 65536 [.drawPixel 0 0 0xFFFFFFFF] 0 (by decide +kernel)
  exact absurd first (by decide +kernel)

end FractionsOS.Vbe
