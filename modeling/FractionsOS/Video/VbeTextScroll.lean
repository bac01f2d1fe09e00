import FractionsOS.Video.VbeScroll
import FractionsOS.Video.VbeText

/-!
# Text on a scrolled screen

A text that lies between the rows a scroll moves and the bottom of the screen moves with
them: it can as well be drawn afterwards, so many rows higher.
-/

namespace FractionsOS.Vbe

open Library Library.Raster

set_option autoImplicit false

theorem char_pixels_moved (state : VbeState) (c : UInt8) (x y fg bg rows : UInt32) :
    charPixels state c x (y + rows) fg bg =
      (charPixels state c x y fg bg).map fun pixel => { pixel with y := pixel.y + rows } := by
  unfold charPixels
  rw [List.map_map]
  apply List.map_congr_left
  intro cell _
  simp only [Function.comp_apply, PixelCall.mk.injEq, true_and, and_true]
  grind

theorem string_pixels_moved (state : VbeState) (x fg bg cursorX cursorY rows : UInt32)
    (str : List UInt8) :
    stringPixels state x fg bg cursorX (cursorY + rows) str =
      (stringPixels state x fg bg cursorX cursorY str).map
        fun pixel => { pixel with y := pixel.y + rows } := by
  induction str generalizing cursorX cursorY with
  | nil => rfl
  | cons c str induction =>
      have next : cursorY + rows + state.fontHeight = cursorY + state.fontHeight + rows := by
        grind
      rw [stringPixels, stringPixels, next, induction, induction, char_pixels_moved]
      split_ifs
      · rfl
      · rfl
      · rw [List.map_append]

def rowsBelow (rows : UInt32) (point : UInt32 × UInt32) : UInt32 × UInt32 :=
  (point.1, point.2 + rows)

theorem rows_below_injective (rows : UInt32) : Function.Injective (rowsBelow rows) := by
  intro point other same
  obtain ⟨column, row⟩ := Prod.mk.inj same
  apply Prod.ext column
  rw [← UInt32.add_sub_cancel point.2 rows, row, UInt32.add_sub_cancel]

theorem string_dabs_moved (state : VbeState) (x y fg bg rows : UInt32) (str : List UInt8) :
    (stringPixels state x fg bg x (y + rows) str).map PixelCall.dab =
      ((stringPixels state x fg bg x y str).map PixelCall.dab).map
        fun dab => ⟨rowsBelow rows dab.point, dab.color⟩ := by
  rw [string_pixels_moved, List.map_map, List.map_map]
  rfl

section Painted

variable {state : VbeState} (fits : SizeFits state.width state.height) {px py : UInt32}
  (onScreen : OnScreen state px py) (str : List UInt8) (x y fg bg n : UInt32)

include fits onScreen

theorem drawn_after_scroll :
    pixelAt (vbeDrawString (vbeScroll state n) str x y fg bg) px py =
      paintAll blend (picture (vbeScroll state n))
        ((stringPixels state x fg bg x y str).map PixelCall.dab) (px, py) := by
  obtain ⟨buffer, scrolled⟩ := scroll_frame state n
  have font := @string_pixels_font state (vbeScroll state n) (by rw [scrolled]) (by rw [scrolled])
    x fg bg x y str
  rw [vbeDrawString, draw_string_pixels, pixels_painted, font]
  · rw [scrolled]
    exact fits
  · rw [scrolled]
    exact onScreen

theorem drawn_before_scroll :
    pixelAt (vbeScroll (vbeDrawString state str x y fg bg) n) px py =
      if py.toNat + (n * state.fontHeight).toNat < state.height.toNat then
        paintAll blend (picture state) ((stringPixels state x fg bg x y str).map PixelCall.dab)
          (px, py + n * state.fontHeight)
      else 0 := by
  obtain ⟨buffer, drawn⟩ := draw_string_frame state str x y fg bg
  have sameWidth : (vbeDrawString state str x y fg bg).width = state.width := by
    rw [drawn]
  have sameHeight : (vbeDrawString state str x y fg bg).height = state.height := by
    rw [drawn]
  have sameFont : (vbeDrawString state str x y fg bg).fontHeight = state.fontHeight := by
    rw [drawn]
  rw [scroll_pixel, sameWidth, sameHeight, sameFont]
  · split_ifs with kept
    · obtain ⟨source, value⟩ := row_below onScreen kept
      have painted := pixels_painted fits source (stringPixels state x fg bg x y str)
      rw [← draw_string_pixels] at painted
      rw [← painted, pixelAt, value]
      change _ = (vbeDrawString state str x y fg bg).backbuffer.cells
        (_ * (vbeDrawString state str x y fg bg).width.toNat + _)
      rw [sameWidth]
    · rfl
  · rw [sameWidth, sameHeight]
    exact fits
  · unfold OnScreen
    rw [sameWidth, sameHeight]
    exact onScreen

end Painted

section Orders

variable {state : VbeState} (fits : SizeFits state.width state.height)
  (fontWidth : state.fontWidth = 8) (fontHeight : state.fontHeight = 16) {str : List UInt8}
  {x y fg bg n : UInt32} (above : 16 * n.toNat ≤ y.toNat)
  (room : y.toNat + 16 * ((str.takeWhile (· ≠ 0)).count 10 + 1) ≤ state.height.toNat)

include fits fontWidth fontHeight above room

theorem scrolled_text_pixel {px py : UInt32} (onScreen : OnScreen state px py) :
    pixelAt (vbeScroll (vbeDrawString state str x y fg bg) n) px py =
      pixelAt (vbeDrawString (vbeScroll state n) str x (y - 16 * n) fg bg) px py := by
  have height := state.height.toNat_lt
  have rows : (n * state.fontHeight).toNat = 16 * n.toNat := by
    rw [fontHeight, product_value]
    · exact Nat.mul_comm _ _
    · change n.toNat * 16 < _
      omega
  have count : 16 * n = n * state.fontHeight := by
    rw [fontHeight, UInt32.mul_comm]
  have start : (y - n * state.fontHeight).toNat = y.toNat - 16 * n.toNat := by
    rw [UInt32.toNat_sub_of_le, rows]
    rw [UInt32.le_iff_toNat_le, rows]
    exact above
  have background := scroll_pixel state fits n px py onScreen
  rw [count, drawn_after_scroll fits onScreen, drawn_before_scroll fits onScreen]
  by_cases kept : py.toNat + (n * state.fontHeight).toNat < state.height.toNat
  · have place := string_dabs_moved state x (y - n * state.fontHeight) fg bg
      (n * state.fontHeight) str
    rw [UInt32.sub_add_cancel] at place
    rw [if_pos kept] at background ⊢
    rw [place]
    refine (painted_moved (rows_below_injective _) (picture state) _ (px, py)).trans ?_
    apply painted_locally
    rw [← (row_below onScreen kept).2] at background
    exact background.symm
  -- the rows that the scroll clears lie below the text
  · rw [if_neg kept] at background ⊢
    rw [painted_elsewhere]
    · exact background.symm
    · intro dab member here
      obtain ⟨pixel, inString, rfl⟩ := List.mem_map.mp member
      obtain ⟨-, row⟩ := Prod.mk.inj here
      obtain ⟨c, i, j, ⟨-, inCell, line, column, shown, -, place⟩, -⟩ :=
        (string_pixel_iff fontWidth fontHeight str x _ pixel).mp inString
      have lines := text_row_lt shown
      rw [row, start] at place
      omega

end Orders

/-- A string drawn and then scrolled leaves the back buffer that it leaves when it is drawn
on the scrolled screen, in any colours. -/
theorem scroll_draw_string (state : VbeState) (fits : SizeFits state.width state.height)
    (fontWidth : state.fontWidth = 8) (fontHeight : state.fontHeight = 16) (str : List UInt8)
    (x y fg bg n : UInt32) (above : 16 * n.toNat ≤ y.toNat)
    (room : y.toNat + 16 * ((str.takeWhile (· ≠ 0)).count 10 + 1) ≤ state.height.toNat) :
    ∀ index < state.width.toNat * state.height.toNat,
      (vbeScroll (vbeDrawString state str x y fg bg) n).backbuffer.cells index =
        (vbeDrawString (vbeScroll state n) str x (y - 16 * n) fg bg).backbuffer.cells index := by
  intro index inside
  obtain ⟨drawnBuffer, drawn⟩ := draw_string_frame state str x y fg bg
  obtain ⟨firstBuffer, first⟩ := scroll_frame (vbeDrawString state str x y fg bg) n
  obtain ⟨scrolledBuffer, scrolled⟩ := scroll_frame state n
  obtain ⟨secondBuffer, second⟩ := draw_string_frame (vbeScroll state n) str x (y - 16 * n) fg bg
  apply cells_of_pixels
  · rw [first, second, drawn, scrolled]
  · intro px py onScreen
    have sameScreen : OnScreen state px py := by
      rw [first, drawn] at onScreen
      exact onScreen
    exact scrolled_text_pixel fits fontWidth fontHeight above room sameScreen
  · rw [first, drawn]
    exact inside

/-- A translucent smiley on the second text row, scrolled by one line. -/
theorem scroll_draw_smiley :
    (vbeScroll (vbeDrawString (vbeInit (fun _ => 0) (fun _ => 0) [] 8 48 32) [1] 0 16
        0x80FFFFFF 0xFF202020) 1).backbuffer.cells 20 =
      (vbeDrawString (vbeScroll (vbeInit (fun _ => 0) (fun _ => 0) [] 8 48 32) 1) [1] 0 (16 - 16 * 1)
        0x80FFFFFF 0xFF202020).backbuffer.cells 20 := by
  have fits : SizeFits 8 48 := by
    unfold SizeFits
    decide
  exact scroll_draw_string (vbeInit (fun _ => 0) (fun _ => 0) [] 8 48 32) fits rfl rfl [1] 0 16
    0x80FFFFFF 0xFF202020 1 (by decide) (by decide) 20 (by decide)

end FractionsOS.Vbe
