import FractionsOS.Video.VbeText

/-!
# Installed fonts

`vbe_set_font` stores a bitmap and its sizes. Drawing takes the sizes from there and the
bits from the built-in font.
-/

namespace FractionsOS.Vbe

open Library Library.TextLayout

set_option autoImplicit false

/-- A font eight pixels wide, laid out as `default_font` is: `height` bytes for each
character, the leftmost pixel in bit 7. -/
structure InstalledFont where
  bitmap : Nat → UInt8
  height : UInt32
  rows : height.toNat ≤ 16

inductive DrawnText where
  | char (c : UInt8)
  | string (str : List UInt8)

structure TextDraw where
  text : DrawnText
  x : UInt32
  y : UInt32
  fg : UInt32
  bg : UInt32
  solidFg : alphaOf fg = 0xFF
  solidBg : alphaOf bg = 0xFF

def TextDraw.draw (call : TextDraw) (state : VbeState) : VbeState :=
  match call.text with
  | .char c => vbeDrawChar state c call.x call.y call.fg call.bg
  | .string str => vbeDrawString state str call.x call.y call.fg call.bg

structure CellPixel where
  x : UInt32
  y : UInt32
  c : UInt8
  i : UInt32
  j : UInt32
  deriving DecidableEq

def TextDraw.Covers (call : TextDraw) (height : UInt32) (pixel : CellPixel) : Prop :=
  pixel.i.toNat < 8 ∧ pixel.j.toNat < height.toNat ∧
    match call.text with
    | .char c => pixel.c = c ∧ pixel.x = call.x + pixel.i ∧ pixel.y = call.y + pixel.j
    | .string str => ∃ row column, itemAt (textLines str) row column = some pixel.c ∧
        pixel.x = call.x + UInt32.ofNat column * 8 + pixel.i ∧
        pixel.y = call.y + UInt32.ofNat row * height + pixel.j

def InstalledFont.bit (font : InstalledFont) (pixel : CellPixel) : Bool :=
  (font.bitmap (pixel.c.toNat * font.height.toNat + pixel.j.toNat)).toNat.testBit
    (7 - pixel.i.toNat)

def builtInBit (pixel : CellPixel) : Bool :=
  (defaultFont (pixel.c.toNat * 16 + pixel.j.toNat)).toNat.testBit (7 - pixel.i.toNat)

def ShowsInstalled (font : InstalledFont) (call : TextDraw) (state : VbeState) : Prop :=
  ∀ pixel, call.Covers font.height pixel → OnScreen state pixel.x pixel.y →
    (call.draw state).backbuffer.cells (pixelIndex state pixel.x pixel.y) =
      if font.bit pixel then call.fg else call.bg

def cellPixels (height : UInt32) (c : UInt8) (x y : UInt32) : List CellPixel :=
  (rowMajor height 8).map fun (j, i) => { x := x + i, y := y + j, c, i, j }

def TextDraw.pixels (call : TextDraw) (height : UInt32) : List CellPixel :=
  match call.text with
  | .char c => cellPixels height c call.x call.y
  | .string str => textItems 8 height (cellPixels height) call.x call.x call.y str

def lastInto (state : VbeState) (index : Nat) (pixels : List CellPixel) : Option CellPixel :=
  pixels.reverse.find? fun pixel =>
    decide (OnScreen state pixel.x pixel.y) && pixelIndex state pixel.x pixel.y == index

theorem mem_cell_pixels (height : UInt32) (c : UInt8) (x y : UInt32) (pixel : CellPixel) :
    pixel ∈ cellPixels height c x y ↔ pixel.i.toNat < 8 ∧ pixel.j.toNat < height.toNat ∧
      pixel.c = c ∧ pixel.x = x + pixel.i ∧ pixel.y = y + pixel.j := by
  unfold cellPixels
  rw [mem_row_major_map]
  constructor
  · rintro ⟨j, i, row, column, rfl⟩
    exact ⟨column, row, rfl, rfl, rfl⟩
  · rintro ⟨column, row, same, first, second⟩
    refine ⟨pixel.j, pixel.i, row, column, ?_⟩
    dsimp only
    rw [← first, ← second, ← same]

theorem mem_pixels (call : TextDraw) (height : UInt32) (pixel : CellPixel) :
    pixel ∈ call.pixels height ↔ call.Covers height pixel := by
  unfold TextDraw.pixels TextDraw.Covers
  cases call.text with
  | char c => exact mem_cell_pixels height c call.x call.y pixel
  | string str =>
      dsimp only
      rw [mem_text_items]
      simp only [mem_cell_pixels, ite_self]
      constructor
      · rintro ⟨row, column, c, shown, iBound, jBound, rfl, columnPlace, rowPlace⟩
        exact ⟨iBound, jBound, row, column, shown, columnPlace, rowPlace⟩
      · rintro ⟨iBound, jBound, row, column, shown, columnPlace, rowPlace⟩
        exact ⟨row, column, _, shown, iBound, jBound, rfl, columnPlace, rowPlace⟩

def TextDraw.built (call : TextDraw) (pixel : CellPixel) : PixelCall :=
  ⟨pixel.x, pixel.y, if builtInBit pixel then call.fg else call.bg⟩

theorem built_solid (call : TextDraw) (pixel : CellPixel) :
    alphaOf (call.built pixel).color = 0xFF := by
  unfold TextDraw.built
  split_ifs
  · exact call.solidFg
  · exact call.solidBg

theorem char_pixels_built {state : VbeState} (wide : state.fontWidth = 8) (call : TextDraw)
    (c : UInt8) (x y : UInt32) :
    charPixels state c x y call.fg call.bg =
      (cellPixels state.fontHeight c x y).map call.built := by
  rw [char_pixels_cells, cellPixels, List.map_map, wide]
  apply List.map_congr_left
  rintro ⟨j, i⟩ inside
  rw [mem_row_major] at inside
  have color := glyph_bit_color call.fg call.bg c i j inside.2
  dsimp only
  rw [color]
  rfl

/-- The code draws the built-in font in the installed sizes. -/
theorem draw_built {state : VbeState} (wide : state.fontWidth = 8) (call : TextDraw) :
    call.draw state = drawPixels state ((call.pixels state.fontHeight).map call.built) := by
  unfold TextDraw.draw TextDraw.pixels
  cases call.text with
  | char c =>
      dsimp only
      rw [vbeDrawChar, char_pixels_built wide]
  | string str =>
      dsimp only
      rw [vbeDrawString, draw_string_pixels, string_pixels_items, text_items_map, wide]
      simp only [char_pixels_built wide]

theorem draw_pixels_concat (state : VbeState) (pixels : List PixelCall) (pixel : PixelCall) :
    drawPixels state (pixels ++ [pixel]) =
      vbeDrawPixel (drawPixels state pixels) pixel.x pixel.y pixel.color := by
  rw [drawPixels, List.foldl_append]
  rfl

theorem last_into_concat (state : VbeState) (index : Nat) (pixels : List CellPixel)
    (pixel : CellPixel) :
    lastInto state index (pixels ++ [pixel]) =
      if OnScreen state pixel.x pixel.y ∧ pixelIndex state pixel.x pixel.y = index then some pixel
      else lastInto state index pixels := by
  rw [lastInto, List.reverse_concat, List.find?_cons]
  by_cases here : OnScreen state pixel.x pixel.y ∧ pixelIndex state pixel.x pixel.y = index
  · rw [if_pos here]
    simp [here.1, here.2]
  · have missed : (decide (OnScreen state pixel.x pixel.y) &&
        pixelIndex state pixel.x pixel.y == index) = false := by
      simpa using here
    rw [if_neg here, missed]
    rfl

theorem last_drawn (state : VbeState) (call : TextDraw) (pixels : List CellPixel) (index : Nat) :
    (drawPixels state (pixels.map call.built)).backbuffer.cells index =
      match lastInto state index pixels with
      | some last => (call.built last).color
      | none => state.backbuffer.cells index := by
  induction pixels using List.reverseRecOn with
  | nil => rfl
  | append_singleton pixels pixel induction =>
      obtain ⟨backbuffer, drawn⟩ := draw_pixels_frame state (pixels.map call.built)
      have comesHere : (OnScreen (drawPixels state (pixels.map call.built)) (call.built pixel).x
            (call.built pixel).y ∧
          index = pixelIndex (drawPixels state (pixels.map call.built)) (call.built pixel).x
            (call.built pixel).y) ↔
          OnScreen state pixel.x pixel.y ∧ pixelIndex state pixel.x pixel.y = index := by
        rw [drawn]
        exact and_congr_right fun _ => eq_comm
      rw [List.map_append, List.map_singleton, draw_pixels_concat, draw_pixel_cells,
        last_into_concat, induction]
      by_cases here : OnScreen state pixel.x pixel.y ∧ pixelIndex state pixel.x pixel.y = index
      · rw [if_pos (comesHere.mpr here), if_pos here, blend, if_pos (built_solid call pixel)]
      · rw [if_neg (mt comesHere.mp here), if_neg here]

theorem last_into_covered {state : VbeState} {pixels : List CellPixel} {pixel : CellPixel}
    (member : pixel ∈ pixels) (onScreen : OnScreen state pixel.x pixel.y) :
    ∃ last, lastInto state (pixelIndex state pixel.x pixel.y) pixels = some last := by
  rw [← Option.isSome_iff_exists, lastInto, List.find?_isSome]
  refine ⟨pixel, List.mem_reverse.mpr member, ?_⟩
  simp [onScreen]

/-- At each on-screen pixel of the cells the installed font has the bit that the built-in one
has there; where pixels come to one place, it is the last of them that is seen. -/
def BitsAgree (font : InstalledFont) (call : TextDraw) (state : VbeState) : Prop :=
  ∀ pixel, call.Covers font.height pixel → OnScreen state pixel.x pixel.y →
    ∀ last, lastInto state (pixelIndex state pixel.x pixel.y) (call.pixels font.height) = some last →
      builtInBit last = font.bit pixel

theorem shows_installed_iff {font : InstalledFont} {state : VbeState}
    (wide : state.fontWidth = 8) (high : state.fontHeight = font.height) (call : TextDraw) :
    ShowsInstalled font call state ↔ call.fg = call.bg ∨ BitsAgree font call state := by
  have seen : ∀ (pixel last : CellPixel), lastInto state (pixelIndex state pixel.x pixel.y)
      (call.pixels font.height) = some last →
      (call.draw state).backbuffer.cells (pixelIndex state pixel.x pixel.y) =
        if builtInBit last then call.fg else call.bg := by
    intro pixel last found
    rw [draw_built wide, high, last_drawn, found]
    rfl
  constructor
  · intro shows
    by_contra otherwise
    rw [not_or] at otherwise
    apply otherwise.2
    intro pixel covered onScreen last found
    have color := shows pixel covered onScreen
    rw [seen pixel last found] at color
    cases drawn : builtInBit last with
    | true =>
        cases wanted : font.bit pixel with
        | true => rfl
        | false =>
            rw [drawn, wanted] at color
            exact absurd color otherwise.1
    | false =>
        cases wanted : font.bit pixel with
        | true =>
            rw [drawn, wanted] at color
            exact absurd color.symm otherwise.1
        | false => rfl
  · intro condition pixel covered onScreen
    obtain ⟨last, found⟩ :=
      last_into_covered ((mem_pixels call font.height pixel).mpr covered) onScreen
    rw [seen pixel last found]
    rcases condition with alike | agree
    · rw [alike, ite_self, ite_self]
    · rw [agree pixel covered onScreen last found]

/-- Whatever is drawn after a font was installed, a text shows that font exactly when its
two colours are one, or the bits of the font are those of the built-in font. -/
theorem installed_font_drawn_iff (state : VbeState) (font : InstalledFont)
    (between : List VbeCall) (call : TextDraw) :
    ShowsInstalled font call (run (vbeSetFont state font.bitmap 8 font.height) between) ↔
      call.fg = call.bg ∨ BitsAgree font call state := by
  obtain ⟨backbuffer, framebuffer, ran⟩ :=
    run_frame (vbeSetFont state font.bitmap 8 font.height) between
  rw [ran]
  exact shows_installed_iff rfl rfl call

/-- A single character, or a text with lines too short and too few to come to one place
again. -/
def TextDraw.Short (call : TextDraw) : Prop :=
  match call.text with
  | .char _ => True
  | .string str => ShortText str

theorem covered_once {call : TextDraw} (short : call.Short) {height : UInt32}
    (rows : height.toNat ≤ 16) {first second : CellPixel} (one : call.Covers height first)
    (other : call.Covers height second) (sameX : first.x = second.x) (sameY : first.y = second.y) :
    first = second := by
  rcases first with ⟨px, py, c, i, j⟩
  rcases second with ⟨qx, qy, d, k, l⟩
  rcases call with ⟨text, x, y, fg, bg, solidFg, solidBg⟩
  obtain ⟨iBound, jBound, place⟩ := one
  obtain ⟨kBound, lBound, otherPlace⟩ := other
  dsimp only at sameX sameY iBound jBound kBound lBound
  subst sameX sameY
  cases text with
  | char e =>
      obtain ⟨rfl, column, row⟩ := place
      obtain ⟨rfl, otherColumn, otherRow⟩ := otherPlace
      dsimp only at column row otherColumn otherRow
      have sameColumn : i = k := (UInt32.add_right_inj x).mp (column.symm.trans otherColumn)
      have sameRow : j = l := (UInt32.add_right_inj y).mp (row.symm.trans otherRow)
      rw [sameColumn, sameRow]
  | string str =>
      obtain ⟨row, column, shown, columnPlace, rowPlace⟩ := place
      obtain ⟨otherRow, otherColumn, otherShown, otherColumnPlace, otherRowPlace⟩ := otherPlace
      dsimp only at shown columnPlace rowPlace otherShown otherColumnPlace otherRowPlace
      have small := short_place short shown
      have otherSmall := short_place short otherShown
      have columns := congrArg UInt32.toNat (columnPlace.symm.trans otherColumnPlace)
      have lines := congrArg UInt32.toNat (rowPlace.symm.trans otherRowPlace)
      have eight : (8 : UInt32).toNat = 8 := rfl
      rw [place_value, place_value, eight] at columns
      rw [place_value, place_value] at lines
      have sameColumn : column = otherColumn ∧ i.toNat = k.toNat := by omega
      have rowSmall : height.toNat * row ≤ 16 * 2 ^ 27 := Nat.mul_le_mul rows (by omega)
      have otherRowSmall : height.toNat * otherRow ≤ 16 * 2 ^ 27 := Nat.mul_le_mul rows (by omega)
      have sameLine : height.toNat * row + j.toNat = height.toNat * otherRow + l.toNat := by omega
      rw [Nat.mul_comm, Nat.mul_comm height.toNat] at sameLine
      obtain ⟨sameJ, sameRow⟩ := pixel_cell_injective jBound lBound sameLine
      rw [sameColumn.1, sameRow, otherShown] at shown
      rw [Option.some.inj shown, UInt32.toNat_inj.mp sameColumn.2, UInt32.toNat_inj.mp sameJ]

/-- In a mode that fits, where no two cells of the text come to one place, each pixel has to
have its own bit. -/
theorem bits_agree_iff {state : VbeState} (fits : SizeFits state.width state.height)
    {call : TextDraw} (short : call.Short) (font : InstalledFont) :
    BitsAgree font call state ↔ ∀ pixel, call.Covers font.height pixel →
      OnScreen state pixel.x pixel.y → builtInBit pixel = font.bit pixel := by
  have alone : ∀ pixel, call.Covers font.height pixel → OnScreen state pixel.x pixel.y →
      ∀ last, lastInto state (pixelIndex state pixel.x pixel.y) (call.pixels font.height) =
        some last → last = pixel := by
    intro pixel covered onScreen last found
    have drawn := List.mem_reverse.mp (List.mem_of_find?_eq_some found)
    have here := List.find?_some found
    rw [Bool.and_eq_true, decide_eq_true_eq, beq_iff_eq] at here
    obtain ⟨lastOnScreen, sameIndex⟩ := here
    rw [pixel_cell_value fits onScreen, pixel_cell_value fits lastOnScreen] at sameIndex
    obtain ⟨column, row⟩ := pixel_cell_injective lastOnScreen.1 onScreen.1 sameIndex
    exact covered_once short font.rows ((mem_pixels call font.height last).mp drawn) covered
      (UInt32.toNat_inj.mp column) (UInt32.toNat_inj.mp row)
  constructor
  · intro agree pixel covered onScreen
    obtain ⟨last, found⟩ :=
      last_into_covered ((mem_pixels call font.height pixel).mpr covered) onScreen
    have bit := agree pixel covered onScreen last found
    rw [alone pixel covered onScreen last found] at bit
    exact bit
  · intro agree pixel covered onScreen last found
    rw [alone pixel covered onScreen last found]
    exact agree pixel covered onScreen

def blockFont : InstalledFont where
  bitmap := fun _ => 0xFF
  height := 1
  rows := by decide

def whiteLetter : TextDraw where
  text := .char 65
  x := 0
  y := 0
  fg := 0xFFFFFFFF
  bg := 0xFF000000
  solidFg := rfl
  solidBg := rfl

theorem block_font_not_drawn :
    ¬∀ (state : VbeState) (font : InstalledFont) (between : List VbeCall) (call : TextDraw),
      ShowsInstalled font call (run (vbeSetFont state font.bitmap 8 font.height) between) := by
  intro shows
  have shown := shows (vbeInit (fun _ => 0) (fun _ => 0) [] 8 1 32) blockFont [] whiteLetter
    ⟨0, 0, 65, 0, 0⟩ ⟨by decide, by decide, rfl, rfl, rfl⟩ (by decide)
  exact absurd shown (by decide +kernel)

end FractionsOS.Vbe
