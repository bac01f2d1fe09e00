import FractionsOS.Library.TextLayout
import FractionsOS.Video.VbePixels

/-!
# Text in the back buffer

A string is drawn glyph by glyph. Which glyph comes to a pixel is told by the lines of the
string alone, as the cells of different characters do not overlap, even where the cursor
wraps.
-/

namespace FractionsOS.Vbe

open Library Library.Raster Library.TextLayout Library.WordBytes

set_option autoImplicit false

def textLines (str : List UInt8) : List (List UInt8) := (str.takeWhile (· ≠ 0)).splitOn 10

theorem text_lines_nil : textLines [] = [[]] := rfl

theorem text_lines_end (str : List UInt8) : textLines (0 :: str) = [[]] := by
  rw [textLines, List.takeWhile_cons_of_neg (by simp)]
  rfl

theorem text_lines_newline (str : List UInt8) : textLines (10 :: str) = [] :: textLines str := by
  rw [textLines, List.takeWhile_cons_of_pos (by simp), List.splitOn, List.splitOnP_cons_eq_if_modifyHead]
  rfl

theorem text_lines_char {c : UInt8} (more : c ≠ 0) (ordinary : c ≠ 10) (str : List UInt8) :
    textLines (c :: str) = (textLines str).modifyHead (c :: ·) := by
  rw [textLines, List.takeWhile_cons_of_pos (by simpa using more), List.splitOn,
    List.splitOnP_cons_eq_if_modifyHead, if_neg (by simpa using ordinary)]
  rfl

theorem length_split {Item : Type*} (newline : Item → Bool) (text : List Item) :
    (text.splitOnP newline).length = text.countP newline + 1 := by
  induction text with
  | nil => simp [List.splitOnP_nil]
  | cons item text induction =>
      rw [List.splitOnP_cons_eq_if_modifyHead, List.countP_cons]
      split_ifs
      · rw [List.length_cons, induction]
      · rw [List.length_modifyHead, induction, Nat.add_zero]

theorem text_lines_ne_nil (str : List UInt8) : textLines str ≠ [] := List.splitOnP_ne_nil _ _

section Lines

variable {Item : Type*} (row column : Nat)

theorem item_at_no_line : itemAt ([[]] : List (List Item)) row column = none := by
  cases row with
  | zero => simp [itemAt]
  | succ row => simp [itemAt]

theorem item_at_new_line (lines : List (List Item)) :
    itemAt ([] :: lines) row column =
      match row with
      | 0 => none
      | row + 1 => itemAt lines row column := by
  cases row with
  | zero => simp [itemAt]
  | succ row => simp [itemAt]

theorem item_at_new_item {lines : List (List Item)} (some : lines ≠ []) (item : Item) :
    itemAt (lines.modifyHead (item :: ·)) row column =
      match row, column with
      | 0, 0 => Option.some item
      | 0, column + 1 => itemAt lines 0 column
      | row + 1, column => itemAt lines (row + 1) column := by
  cases lines with
  | nil => exact absurd rfl some
  | cons line lines =>
      cases row with
      | zero =>
          cases column with
          | zero => simp [itemAt]
          | succ column => simp [itemAt]
      | succ row => simp [itemAt]

end Lines

section Items

variable {Item : Type*} (width height : UInt32) (cell : UInt8 → UInt32 → UInt32 → List Item)

/-- What the loop of `vbe_draw_string` makes from a cursor position on, when it makes
`cell c x y` of a character. -/
def textItems (x cursorX cursorY : UInt32) : List UInt8 → List Item
  | [] => []
  | c :: str =>
      if c = 0 then []
      else if c = 10 then textItems x x (cursorY + height) str
      else cell c cursorX cursorY ++ textItems x (cursorX + width) cursorY str

theorem text_items_map {Other : Type*} (make : Item → Other) (x cursorX cursorY : UInt32)
    (str : List UInt8) :
    (textItems width height cell x cursorX cursorY str).map make =
      textItems width height (fun c x y => (cell c x y).map make) x cursorX cursorY str := by
  induction str generalizing cursorX cursorY with
  | nil => rfl
  | cons c str induction =>
      rw [textItems, textItems]
      split_ifs
      · rfl
      · exact induction x (cursorY + height)
      · rw [List.map_append, induction]

theorem cursor_next (origin size : UInt32) (count : Nat) :
    origin + size + UInt32.ofNat count * size = origin + UInt32.ofNat (count + 1) * size := by
  rw [UInt32.ofNat_add]
  grind

/-- Where the cursor stands behind `count` steps, and an offset from there. -/
theorem place_value (origin size offset : UInt32) (count : Nat) :
    (origin + UInt32.ofNat count * size + offset).toNat =
      (origin.toNat + size.toNat * count + offset.toNat) % 2 ^ 32 := by
  simp only [UInt32.toNat_add, UInt32.toNat_mul, UInt32.toNat_ofNat', Nat.add_mod, Nat.mul_mod,
    Nat.mod_mod, Nat.mul_comm]

/-- What the loop makes is made of a character, at the character's place in the text. -/
theorem mem_text_items (x cursorX cursorY : UInt32) (str : List UInt8) (item : Item) :
    item ∈ textItems width height cell x cursorX cursorY str ↔
      ∃ row column c, itemAt (textLines str) row column = some c ∧
        item ∈ cell c ((if row = 0 then cursorX else x) + UInt32.ofNat column * width)
          (cursorY + UInt32.ofNat row * height) := by
  induction str generalizing cursorX cursorY with
  | nil => simp [textItems, text_lines_nil, item_at_no_line]
  | cons c str induction =>
      rw [textItems]
      by_cases terminator : c = 0
      · subst terminator
        simp [text_lines_end, item_at_no_line]
      by_cases newline : c = 10
      · subst newline
        rw [if_neg terminator, if_pos rfl, induction, text_lines_newline]
        simp only [item_at_new_line, cursor_next, ite_self]
        constructor
        · rintro ⟨row, column, c, shown, drawn⟩
          exact ⟨row + 1, column, c, shown, drawn⟩
        · rintro ⟨row, column, c, shown, drawn⟩
          cases row with
          | zero => cases shown
          | succ row => exact ⟨row, column, c, shown, drawn⟩
      · rw [if_neg terminator, if_neg newline, List.mem_append, induction,
          text_lines_char terminator newline]
        simp only [item_at_new_item _ _ (text_lines_ne_nil str)]
        constructor
        · rintro (first | ⟨row, column, d, shown, drawn⟩)
          · refine ⟨0, 0, c, rfl, ?_⟩
            simpa using first
          · cases row with
            | zero =>
                rw [if_pos rfl, cursor_next] at drawn
                exact ⟨0, column + 1, d, shown, drawn⟩
            | succ row => exact ⟨row + 1, column, d, shown, drawn⟩
        · rintro ⟨row, column, d, shown, drawn⟩
          cases row with
          | zero =>
              cases column with
              | zero =>
                  cases shown
                  left
                  simpa using drawn
              | succ column =>
                  rw [if_pos rfl, ← cursor_next] at drawn
                  exact Or.inr ⟨0, column, d, shown, drawn⟩
          | succ row => exact Or.inr ⟨row + 1, column, d, shown, drawn⟩

end Items

section Pixels

variable {state : VbeState} {fg bg : UInt32}

theorem mem_char_pixels (c : UInt8) (x y : UInt32) (pixel : PixelCall) :
    pixel ∈ charPixels state c x y fg bg ↔
      ∃ j i, j.toNat < state.fontHeight.toNat ∧ i.toNat < state.fontWidth.toNat ∧
        pixel = ⟨x + i, y + j, if glyphBit c j i ≠ 0 then fg else bg⟩ := by
  rw [char_pixels_cells]
  exact mem_row_major_map _ _ _ pixel

theorem string_pixels_items (x cursorX cursorY : UInt32) (str : List UInt8) :
    stringPixels state x fg bg cursorX cursorY str =
      textItems state.fontWidth state.fontHeight (fun c x y => charPixels state c x y fg bg) x
        cursorX cursorY str := by
  induction str generalizing cursorX cursorY with
  | nil => rfl
  | cons c str induction => rw [stringPixels, textItems, induction, induction]

theorem mem_string_pixels (x cursorX cursorY : UInt32) (str : List UInt8) (pixel : PixelCall) :
    pixel ∈ stringPixels state x fg bg cursorX cursorY str ↔
      ∃ row column c, itemAt (textLines str) row column = some c ∧
        pixel ∈ charPixels state c
          ((if row = 0 then cursorX else x) + UInt32.ofNat column * state.fontWidth)
          (cursorY + UInt32.ofNat row * state.fontHeight) fg bg := by
  rw [string_pixels_items, mem_text_items]

end Pixels

/-- The pixel lies in column `i` and row `j` of the cell of a character `c` of the string,
which is drawn from `(x, y)` on. -/
def InGlyph (str : List UInt8) (x y px py : UInt32) (c : UInt8) (i j : Nat) : Prop :=
  i < 8 ∧ j < 16 ∧ ∃ row column, itemAt (textLines str) row column = some c ∧
    px.toNat = (x.toNat + 8 * column + i) % 2 ^ 32 ∧ py.toNat = (y.toNat + 16 * row + j) % 2 ^ 32

def glyphColor (fg bg : UInt32) (c : UInt8) (i j : Nat) : UInt32 :=
  if (defaultFont (c.toNat * 16 + j)).toNat.testBit (7 - i) then fg else bg

theorem glyph_bit_color (fg bg : UInt32) (c : UInt8) (i j : UInt32) (column : i.toNat < 8) :
    (if glyphBit c j i ≠ 0 then fg else bg) = glyphColor fg bg c i.toNat j.toNat := by
  have place : (7 - i).toNat = 7 - i.toNat := by
    apply UInt32.toNat_sub_of_le
    rw [UInt32.le_iff_toNat_le]
    exact Nat.le_of_lt_succ column
  have bit := single_bit (defaultFont (c.toNat * 16 + j.toNat)).toUInt32 (7 - i) (by omega)
  rw [place, UInt8.toNat_toUInt32] at bit
  simp only [glyphBit, GlyphAccess.bits, GlyphAccess.offset, GlyphAccess.shift, glyphColor, bit]

/-- The lines are too short and too few for two characters to come to one place. -/
structure ShortText (str : List UInt8) : Prop where
  columns : ∀ line ∈ textLines str, line.length < 2 ^ 28
  rows : (str.takeWhile (· ≠ 0)).count 10 < 2 ^ 27

theorem item_in_line {Item : Type*} {lines : List (List Item)} {row column : Nat} {item : Item}
    (shown : itemAt lines row column = some item) :
    row < lines.length ∧ ∃ line ∈ lines, column < line.length := by
  unfold itemAt at shown
  rw [Option.bind_eq_some_iff] at shown
  obtain ⟨line, found, inside⟩ := shown
  exact ⟨(List.getElem?_eq_some_iff.mp found).1, line, List.mem_of_getElem? found,
    (List.getElem?_eq_some_iff.mp inside).1⟩

theorem text_row_lt {str : List UInt8} {row column : Nat} {c : UInt8}
    (shown : itemAt (textLines str) row column = some c) :
    row ≤ (str.takeWhile (· ≠ 0)).count 10 := by
  have inside := (item_in_line shown).1
  rw [textLines, List.splitOn, length_split] at inside
  exact Nat.le_of_lt_succ inside

theorem short_place {str : List UInt8} (short : ShortText str) {row column : Nat} {c : UInt8}
    (shown : itemAt (textLines str) row column = some c) : row < 2 ^ 27 ∧ column < 2 ^ 28 := by
  obtain ⟨-, line, member, inside⟩ := item_in_line shown
  exact ⟨(text_row_lt shown).trans_lt short.rows, inside.trans (short.columns line member)⟩

theorem in_glyph_unique {str : List UInt8} (short : ShortText str) {x y px py : UInt32}
    {c d : UInt8} {i j k l : Nat} (first : InGlyph str x y px py c i j)
    (second : InGlyph str x y px py d k l) : c = d ∧ i = k ∧ j = l := by
  obtain ⟨iBound, jBound, row, column, shown, columnPlace, rowPlace⟩ := first
  obtain ⟨kBound, lBound, otherRow, otherColumn, otherShown, otherColumnPlace, otherRowPlace⟩ :=
    second
  have small := short_place short shown
  have otherSmall := short_place short otherShown
  have sameColumn : column = otherColumn ∧ i = k := by omega
  have sameRow : row = otherRow ∧ j = l := by omega
  rw [sameColumn.1, sameRow.1, otherShown] at shown
  exact ⟨(Option.some.inj shown).symm, sameColumn.2, sameRow.2⟩

section Glyphs

variable {state : VbeState} (fontWidth : state.fontWidth = 8) (fontHeight : state.fontHeight = 16)

include fontWidth fontHeight

theorem string_pixel_iff {fg bg : UInt32} (str : List UInt8) (x y : UInt32) (pixel : PixelCall) :
    pixel ∈ stringPixels state x fg bg x y str ↔
      ∃ c i j, InGlyph str x y pixel.x pixel.y c i j ∧ pixel.color = glyphColor fg bg c i j := by
  simp only [mem_string_pixels, mem_char_pixels, ite_self, fontWidth, fontHeight]
  constructor
  · rintro ⟨row, column, c, shown, j, i, jBound, iBound, rfl⟩
    refine ⟨c, i.toNat, j.toNat, ⟨iBound, jBound, row, column, shown, ?_, ?_⟩, ?_⟩
    · exact place_value x 8 i column
    · exact place_value y 16 j row
    · exact glyph_bit_color fg bg c i j iBound
  · rintro ⟨c, i, j, ⟨iBound, jBound, row, column, shown, columnPlace, rowPlace⟩, color⟩
    have iValue : (UInt32.ofNat i).toNat = i :=
      UInt32.toNat_ofNat_of_lt' (iBound.trans (by decide))
    have jValue : (UInt32.ofNat j).toNat = j :=
      UInt32.toNat_ofNat_of_lt' (jBound.trans (by decide))
    refine ⟨row, column, c, shown, UInt32.ofNat j, UInt32.ofNat i, ?_, ?_, ?_⟩
    · rw [jValue]
      exact jBound
    · rw [iValue]
      exact iBound
    · rw [glyph_bit_color fg bg c _ _ (by omega), iValue, jValue, ← color]
      have first : pixel.x = x + UInt32.ofNat column * 8 + UInt32.ofNat i := by
        rw [← UInt32.toNat_inj, place_value, iValue]
        exact columnPlace
      have second : pixel.y = y + UInt32.ofNat row * 16 + UInt32.ofNat j := by
        rw [← UInt32.toNat_inj, place_value, jValue]
        exact rowPlace
      rw [← first, ← second]

end Glyphs

/-- Drawing a string shows each character's glyph at its place in the text, in the two
colours, and leaves all other pixels alone. -/
theorem string_rendered (state : VbeState) (fits : SizeFits state.width state.height)
    (fontWidth : state.fontWidth = 8) (fontHeight : state.fontHeight = 16) (str : List UInt8)
    (short : ShortText str) (x y fg bg : UInt32) (solidFg : alphaOf fg = 0xFF)
    (solidBg : alphaOf bg = 0xFF) (px py : UInt32) (onScreen : OnScreen state px py) :
    (∀ c i j, InGlyph str x y px py c i j →
        pixelAt (vbeDrawString state str x y fg bg) px py = glyphColor fg bg c i j) ∧
      ((∀ c i j, ¬InGlyph str x y px py c i j) →
        pixelAt (vbeDrawString state str x y fg bg) px py = pixelAt state px py) := by
  rw [vbeDrawString, draw_string_pixels, pixels_painted fits onScreen]
  have drawn := @string_pixel_iff state fontWidth fontHeight fg bg str x y
  constructor
  · intro c i j glyph
    have solid : alphaOf (glyphColor fg bg c i j) = 0xFF := by
      unfold glyphColor
      split_ifs
      · exact solidFg
      · exact solidBg
    have alike : ∀ dab ∈ (stringPixels state x fg bg x y str).map PixelCall.dab,
        dab.point = (px, py) → ∀ old, blend dab.color old = glyphColor fg bg c i j := by
      intro dab member here old
      obtain ⟨pixel, inString, rfl⟩ := List.mem_map.mp member
      obtain ⟨column, row⟩ := Prod.mk.inj here
      obtain ⟨d, k, l, otherGlyph, color⟩ := (drawn pixel).mp inString
      rw [column, row] at otherGlyph
      obtain ⟨rfl, rfl, rfl⟩ := in_glyph_unique short glyph otherGlyph
      rw [PixelCall.dab, color, blend, if_pos solid]
    have member : (⟨px, py, glyphColor fg bg c i j⟩ : PixelCall) ∈
        stringPixels state x fg bg x y str := (drawn _).mpr ⟨c, i, j, glyph, rfl⟩
    exact painted_alike alike (List.mem_map_of_mem member) rfl (picture state)
  · intro outside
    apply painted_elsewhere
    intro dab member here
    obtain ⟨pixel, inString, rfl⟩ := List.mem_map.mp member
    obtain ⟨column, row⟩ := Prod.mk.inj here
    obtain ⟨c, i, j, glyph, -⟩ := (drawn pixel).mp inString
    rw [column, row] at glyph
    exact outside c i j glyph

/-- A smiley on the second line, left of which the cursor has wrapped. -/
theorem string_rendered_smiley :
    pixelAt (vbeDrawString (vbeInit (fun _ => 0) (fun _ => 0) [] 16 32 32) [10, 65, 1]
      0xFFFFFFFC 0 0xFFFFFFFF 0xFF000000) 5 18 = 0xFFFFFFFF := by
  have fits : SizeFits 16 32 := by
    unfold SizeFits
    decide
  have lines : textLines [10, 65, 1] = [[], [65, 1]] := by
    decide
  have short : ShortText [10, 65, 1] := by
    constructor
    · rw [lines]
      simp
    · simp
  have glyph : InGlyph [10, 65, 1] 0xFFFFFFFC 0 5 18 1 1 2 := by
    refine ⟨by decide, by decide, 1, 1, ?_, by decide, by decide⟩
    rw [lines]
    rfl
  have shown := string_rendered (vbeInit (fun _ => 0) (fun _ => 0) [] 16 32 32) fits rfl rfl
    [10, 65, 1] short 0xFFFFFFFC 0 0xFFFFFFFF 0xFF000000 rfl rfl 5 18 (by decide)
  exact (shown.1 1 1 2 glyph).trans (by decide)

end FractionsOS.Vbe
