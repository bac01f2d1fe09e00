import FractionsOS.Video.VbeText

/-!
# Calls made of smaller calls

A string is its characters, each drawn where its line and column in the text put it, and a
bitmap is its bands of rows, one below the other. Both hold of all that a call leaves,
the accesses to memory included.
-/

namespace FractionsOS.Vbe

open Library Library.TextLayout

set_option autoImplicit false

section Text

variable (state : VbeState) (x y fg bg : UInt32)

def lineCalls (row column : Nat) (line : List UInt8) : List VbeCall :=
  (line.zipIdx column).map fun (c, column) =>
    .drawChar c (x + UInt32.ofNat column * state.fontWidth)
      (y + UInt32.ofNat row * state.fontHeight) fg bg

def linesCalls (row : Nat) (lines : List (List UInt8)) : List VbeCall :=
  (lines.zipIdx row).flatMap fun (line, row) => lineCalls state x y fg bg row 0 line

def charCalls (str : List UInt8) : List VbeCall := linesCalls state x y fg bg 0 (textLines str)

variable {state x y fg bg}

theorem line_calls_cons (row column : Nat) (c : UInt8) (line : List UInt8) :
    lineCalls state x y fg bg row column (c :: line) =
      .drawChar c (x + UInt32.ofNat column * state.fontWidth)
        (y + UInt32.ofNat row * state.fontHeight) fg bg ::
          lineCalls state x y fg bg row (column + 1) line := by
  unfold lineCalls
  rw [List.zipIdx_cons, List.map_cons]

theorem lines_calls_cons (row : Nat) (line : List UInt8) (lines : List (List UInt8)) :
    linesCalls state x y fg bg row (line :: lines) =
      lineCalls state x y fg bg row 0 line ++ linesCalls state x y fg bg (row + 1) lines := by
  unfold linesCalls
  rw [List.zipIdx_cons, List.flatMap_cons]

theorem cursor_advanced (origin size : UInt32) (count : Nat) :
    origin + UInt32.ofNat count * size + size = origin + UInt32.ofNat (count + 1) * size := by
  rw [← cursor_next, UInt32.add_assoc, UInt32.add_assoc, UInt32.add_comm size]

theorem cursor_start (origin size : UInt32) : origin = origin + UInt32.ofNat 0 * size := by
  change origin = origin + 0 * size
  rw [UInt32.zero_mul, UInt32.add_zero]

variable (state x y fg bg) in
def charCall (c : UInt8) (cursorX cursorY : UInt32) : List VbeCall :=
  [.drawChar c cursorX cursorY fg bg]

/-- Whatever the cursor's wraps, the loop draws each line from its column on, and the
lines below it from the first column on. -/
theorem text_items_calls (row column : Nat) (str : List UInt8) (line : List UInt8)
    (lines : List (List UInt8)) (split : textLines str = line :: lines) :
    textItems state.fontWidth state.fontHeight (charCall fg bg) x
        (x + UInt32.ofNat column * state.fontWidth) (y + UInt32.ofNat row * state.fontHeight) str =
      lineCalls state x y fg bg row column line ++ linesCalls state x y fg bg (row + 1) lines := by
  induction str generalizing row column line lines with
  | nil =>
      cases split
      rfl
  | cons c str induction =>
      rw [textItems]
      by_cases terminator : c = 0
      · subst terminator
        rw [text_lines_end] at split
        cases split
        rfl
      by_cases newline : c = 10
      · subst newline
        rw [text_lines_newline] at split
        cases split
        cases rest : textLines str with
        | nil => exact absurd rest (text_lines_ne_nil str)
        | cons next lines =>
            have below := induction (row + 1) 0 next lines rest
            rw [if_neg terminator, if_pos rfl, lines_calls_cons, ← below, cursor_advanced,
              ← cursor_start]
            rfl
      · rw [text_lines_char terminator newline] at split
        cases rest : textLines str with
        | nil => exact absurd rest (text_lines_ne_nil str)
        | cons first others =>
            rw [rest] at split
            cases split
            have right := induction row (column + 1) first _ rest
            rw [if_neg terminator, if_neg newline, line_calls_cons, cursor_advanced, right]
            rfl

theorem draw_string_from_calls (state : VbeState) (x fg bg cursorX cursorY : UInt32)
    (str : List UInt8) :
    drawStringFrom state x fg bg cursorX cursorY str =
      run state (textItems state.fontWidth state.fontHeight (charCall fg bg) x cursorX cursorY
        str) := by
  induction str generalizing state cursorX cursorY with
  | nil => rfl
  | cons c str induction =>
      rw [drawStringFrom, textItems]
      split_ifs
      · rfl
      · exact induction state x (cursorY + state.fontHeight)
      · rw [induction]
        rcases draw_pixels_frame state (charPixels state c cursorX cursorY fg bg) with
          ⟨backbuffer, drawn⟩
        have width : (vbeDrawChar state c cursorX cursorY fg bg).fontWidth = state.fontWidth := by
          rw [vbeDrawChar, drawn]
        have height : (vbeDrawChar state c cursorX cursorY fg bg).fontHeight =
            state.fontHeight := by
          rw [vbeDrawChar, drawn]
        rw [width, height]
        rfl

theorem text_items_char_calls (str : List UInt8) :
    textItems state.fontWidth state.fontHeight (charCall fg bg) x x y str =
      charCalls state x y fg bg str := by
  cases split : textLines str with
  | nil => exact absurd split (text_lines_ne_nil str)
  | cons line lines =>
      have loop := @text_items_calls state x y fg bg 0 0 str line lines split
      rw [← cursor_start, ← cursor_start] at loop
      rw [loop, charCalls, split, lines_calls_cons]

/-- `vbe_draw_string` leaves what one call of `vbe_draw_char` for each character leaves,
made line by line on a grid of cells of the font's size: for every font size, string and
position, also where the cursor wraps. -/
theorem draw_string_by_characters (state : VbeState) (str : List UInt8) (x y fg bg : UInt32) :
    vbeDrawString state str x y fg bg = run state (charCalls state x y fg bg str) := by
  rw [vbeDrawString, draw_string_from_calls, text_items_char_calls]

end Text

/-- The calls that draw bands of a bitmap, given their heights, from row `y` on. -/
def bandCalls (x y width : UInt32) (bitmap : UInt32 → UInt32) : List UInt32 → List VbeCall
  | [] => []
  | height :: heights =>
      .drawBitmap x y width height bitmap ::
        bandCalls x (y + height) width (fun cell => bitmap (height * width + cell)) heights

theorem row_major_bands {upper lower height : UInt32} (width : UInt32)
    (whole : height.toNat = upper.toNat + lower.toNat) :
    rowMajor height width =
      rowMajor upper width ++ (rowMajor lower width).map fun (j, i) => (upper + j, i) := by
  unfold rowMajor
  rw [whole, List.range_add, List.flatMap_append, List.flatMap_map, List.map_flatMap]
  congr 1
  apply List.flatMap_congr
  intro j _
  rw [List.map_map]
  apply List.map_congr_left
  intro i _
  simp only [Function.comp_apply, UInt32.ofNat_add, UInt32.ofNat_toNat]

theorem bitmap_pixels_bands (state : VbeState) (x y width : UInt32) {upper lower height : UInt32}
    (whole : height.toNat = upper.toNat + lower.toNat) (bitmap : UInt32 → UInt32) :
    bitmapPixels state x y width height bitmap =
      bitmapPixels state x y width upper bitmap ++
        bitmapPixels state x (y + upper) width lower
          (fun cell => bitmap (upper * width + cell)) := by
  unfold bitmapPixels
  rw [row_major_bands width whole, List.filterMap_append, List.filterMap_map]
  congr 1
  apply List.filterMap_congr
  rintro ⟨j, i⟩ _
  have place : (upper + j) * width + i = upper * width + (j * width + i) := by
    rw [UInt32.add_mul, UInt32.add_assoc]
  simp only [Function.comp_apply, place, UInt32.add_assoc]

theorem draw_bitmap_bands (state : VbeState) (x y width : UInt32) {upper lower height : UInt32}
    (whole : height.toNat = upper.toNat + lower.toNat) (bitmap : UInt32 → UInt32) :
    vbeDrawBitmap state x y width height bitmap =
      vbeDrawBitmap (vbeDrawBitmap state x y width upper bitmap) x (y + upper) width lower
        (fun cell => bitmap (upper * width + cell)) := by
  rcases draw_pixels_frame state (bitmapPixels state x y width upper bitmap) with
    ⟨backbuffer, drawn⟩
  have sameScreen : bitmapPixels (vbeDrawBitmap state x y width upper bitmap) x (y + upper) width
      lower (fun cell => bitmap (upper * width + cell)) =
        bitmapPixels state x (y + upper) width lower
          (fun cell => bitmap (upper * width + cell)) := by
    rw [vbeDrawBitmap, drawn]
    rfl
  rw [vbeDrawBitmap, bitmap_pixels_bands state x y width whole bitmap]
  conv_rhs => rw [vbeDrawBitmap, sameScreen]
  exact List.foldl_append

/-- A bitmap drawn in one call, or band by band in as many calls as one likes, leaves the
same state. -/
theorem draw_bitmap_in_bands (state : VbeState) (x y width height : UInt32)
    (bitmap : UInt32 → UInt32) (heights : List UInt32)
    (whole : height.toNat = (heights.map UInt32.toNat).sum) :
    vbeDrawBitmap state x y width height bitmap =
      run state (bandCalls x y width bitmap heights) := by
  induction heights generalizing state y height bitmap with
  | nil =>
      have empty : height = 0 := UInt32.toNat_inj.mp whole
      rw [empty]
      rfl
  | cons upper heights induction =>
      rw [List.map_cons, List.sum_cons] at whole
      have small := height.toNat_lt
      have lower : (height - upper).toNat = (heights.map UInt32.toNat).sum := by
        rw [UInt32.toNat_sub_of_le _ _ (UInt32.le_iff_toNat_le.mpr (by omega))]
        omega
      have split := whole.trans (congrArg (upper.toNat + ·) lower.symm)
      rw [draw_bitmap_bands state x y width split bitmap]
      exact induction (vbeDrawBitmap state x y width upper bitmap) _ _ _ lower

theorem draw_bitmap_in_bands_three :
    let state := vbeInit (fun _ => 0) (fun _ => 0) [] 16 16 32
    vbeDrawBitmap state 5 0xFFFFFFFF 4 9 (fun cell => 0xFF000000 + cell) =
      run state (bandCalls 5 0xFFFFFFFF 4 (fun cell => 0xFF000000 + cell) [2, 0, 7]) := by
  intro state
  exact draw_bitmap_in_bands state 5 0xFFFFFFFF 4 9 _ [2, 0, 7] (by decide)

end FractionsOS.Vbe
