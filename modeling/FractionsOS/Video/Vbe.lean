import FractionsOS.Library.TracedMemory

/-!
# The VBE back buffer

`vbe.c` draws into a block of memory that `vbe_init` asks `AllocateMemory` for
and copies it to the framebuffer on `vbe_swap_buffers`. Coordinates, sizes and
indices are `uint32_t` and wrap. The back buffer is a memory with a trace of the
cells read and written; `backbufferBytes` is the size of the block it was given.
-/

namespace FractionsOS.Vbe

open Library

set_option autoImplicit false

/-- `vbe_mode_info` with the memory its pointers lead to. -/
structure VbeState where
  width : UInt32
  height : UInt32
  bpp : UInt32
  pitch : UInt32
  framebuffer : Nat → UInt32
  backbuffer : TracedMemory UInt32
  backbufferBytes : Nat
  fontBitmap : Nat → UInt8
  fontWidth : UInt32
  fontHeight : UInt32
  /-- The words written by `outw`, each with its port, in order. -/
  ports : List (UInt16 × UInt16)

def vbeDispiIoportIndex : UInt16 := 0x01CE
def vbeDispiIoportData : UInt16 := 0x01CF
def vbeDispiIndexXres : UInt16 := 0x1
def vbeDispiIndexYres : UInt16 := 0x2
def vbeDispiIndexBpp : UInt16 := 0x3
def vbeDispiIndexEnable : UInt16 := 0x4

def argb (a r g b : UInt32) : UInt32 := (a <<< 24) ||| (r <<< 16) ||| (g <<< 8) ||| b

def rgb (r g b : UInt32) : UInt32 := argb 0xFF r g b

/-- The bytes of `default_font[256][16]`. Only the glyph `0x01` has an
initialiser that is not zero. -/
def defaultFont (offset : Nat) : UInt8 :=
  ((List.replicate 16 0 ++
    [0x00, 0x00, 0x7E, 0x81, 0xA5, 0x81, 0x81, 0xBD, 0x99, 0x81, 0x81, 0x7E, 0x00, 0x00, 0x00, 0x00] :
      List UInt8)[offset]?).getD 0

def vbeWrite (ports : List (UInt16 × UInt16)) (index value : UInt16) : List (UInt16 × UInt16) :=
  ports ++ [(vbeDispiIoportIndex, index), (vbeDispiIoportData, value)]

/-- `vbe_init`, given what the allocated block and the framebuffer hold. The
allocator hands out exactly the number of bytes it is asked for. -/
def vbeInit (allocated framebuffer : Nat → UInt32) (ports : List (UInt16 × UInt16))
    (width height : UInt32) (bpp : UInt8) : VbeState :=
  let ports := vbeWrite ports vbeDispiIndexEnable 0
  let ports := vbeWrite ports vbeDispiIndexXres width.toUInt16
  let ports := vbeWrite ports vbeDispiIndexYres height.toUInt16
  let ports := vbeWrite ports vbeDispiIndexBpp bpp.toUInt16
  let ports := vbeWrite ports vbeDispiIndexEnable 0x41
  let bytes := (width * height * 4).toNat
  { width
    height
    bpp := bpp.toUInt32
    pitch := width * 4
    framebuffer
    backbuffer := ({ cells := allocated, trace := [] } : TracedMemory UInt32).fill 0 (bytes / 4) 0
    backbufferBytes := bytes
    fontBitmap := defaultFont
    fontWidth := 8
    fontHeight := 16
    ports }

def vbeSetFont (state : VbeState) (bitmap : Nat → UInt8) (width height : UInt32) : VbeState :=
  { state with fontBitmap := bitmap, fontWidth := width, fontHeight := height }

def vbeSwapBuffers (state : VbeState) : VbeState :=
  let count := (state.width * state.height * 4).toNat / 4
  { state with
    framebuffer := fun index =>
      if index < count then state.backbuffer.cells index else state.framebuffer index
    backbuffer := state.backbuffer.touchRange 0 count }

/-- One colour channel of a blend, `(c * alpha + bg * (255 - alpha)) / 255`. -/
def blendChannel (c bg alpha : UInt8) : UInt8 :=
  ((c.toUInt32 * alpha.toUInt32 + bg.toUInt32 * (255 - alpha.toUInt32)) / 255).toUInt8

def alphaOf (color : UInt32) : UInt8 := ((color >>> 24) &&& 0xFF).toUInt8
def redOf (color : UInt32) : UInt8 := ((color >>> 16) &&& 0xFF).toUInt8
def greenOf (color : UInt32) : UInt8 := ((color >>> 8) &&& 0xFF).toUInt8
def blueOf (color : UInt32) : UInt8 := (color &&& 0xFF).toUInt8

def pixelIndex (state : VbeState) (x y : UInt32) : Nat := (y * state.width + x).toNat

def vbeDrawPixel (state : VbeState) (x y color : UInt32) : VbeState :=
  if x ≥ state.width ∨ y ≥ state.height then state
  else
    let alpha := alphaOf color
    let index := pixelIndex state x y
    let bg := state.backbuffer.cells index
    let backbuffer := state.backbuffer.touch index
    if alpha = 0xFF then
      { state with backbuffer := backbuffer.store index color }
    else if alpha > 0 then
      let r := blendChannel (redOf color) (redOf bg) alpha
      let g := blendChannel (greenOf color) (greenOf bg) alpha
      let b := blendChannel (blueOf color) (blueOf bg) alpha
      { state with
        backbuffer := backbuffer.store index (rgb r.toUInt32 g.toUInt32 b.toUInt32) }
    else { state with backbuffer }

structure PixelCall where
  x : UInt32
  y : UInt32
  color : UInt32
  deriving DecidableEq, Repr

def drawPixels (state : VbeState) (pixels : List PixelCall) : VbeState :=
  pixels.foldl (fun state pixel => vbeDrawPixel state pixel.x pixel.y pixel.color) state

/-- The counters `(j, i)` of two nested loops, `j` below `height` outside and
`i` below `width` inside, in the order the loops take them. -/
def rowMajor (height width : UInt32) : List (UInt32 × UInt32) :=
  (List.range height.toNat).flatMap fun j =>
    (List.range width.toNat).map fun i => (UInt32.ofNat j, UInt32.ofNat i)

def bitmapPixels (state : VbeState) (x y width height : UInt32) (bitmap : UInt32 → UInt32) :
    List PixelCall :=
  (rowMajor height width).filterMap fun (j, i) =>
    let px := x + i
    let py := y + j
    if px < state.width ∧ py < state.height then
      some { x := px, y := py, color := bitmap (j * width + i) }
    else none

def vbeDrawBitmap (state : VbeState) (x y width height : UInt32) (bitmap : UInt32 → UInt32) :
    VbeState :=
  drawPixels state (bitmapPixels state x y width height bitmap)

theorem draw_pixel_frame (state : VbeState) (x y color : UInt32) :
    ∃ backbuffer, vbeDrawPixel state x y color = { state with backbuffer } := by
  unfold vbeDrawPixel
  by_cases clipped : x ≥ state.width ∨ y ≥ state.height
  · rw [if_pos clipped]
    exact ⟨_, rfl⟩
  · rw [if_neg clipped]
    dsimp only
    split_ifs
    · exact ⟨_, rfl⟩
    · exact ⟨_, rfl⟩
    · exact ⟨_, rfl⟩

theorem draw_pixel_mode (state : VbeState) (x y color : UInt32) :
    (vbeDrawPixel state x y color).width = state.width ∧
      (vbeDrawPixel state x y color).height = state.height := by
  rcases draw_pixel_frame state x y color with ⟨backbuffer, drawn⟩
  rw [drawn]
  exact ⟨rfl, rfl⟩

/-- The mode that the loops compare with does not change under their calls. -/
theorem draw_bitmap_loop (state : VbeState) (x y width height : UInt32)
    (bitmap : UInt32 → UInt32) :
    vbeDrawBitmap state x y width height bitmap =
      (rowMajor height width).foldl (fun state (j, i) =>
        if x + i < state.width ∧ y + j < state.height then
          vbeDrawPixel state (x + i) (y + j) (bitmap (j * width + i))
        else state) state := by
  unfold vbeDrawBitmap bitmapPixels drawPixels
  generalize rowMajor height width = cells
  have passes : ∀ drawn : VbeState, drawn.width = state.width → drawn.height = state.height →
      (cells.filterMap fun (j, i) =>
          if x + i < state.width ∧ y + j < state.height then
            some (⟨x + i, y + j, bitmap (j * width + i)⟩ : PixelCall)
          else none).foldl
            (fun state pixel => vbeDrawPixel state pixel.x pixel.y pixel.color) drawn =
        cells.foldl (fun state (j, i) =>
          if x + i < state.width ∧ y + j < state.height then
            vbeDrawPixel state (x + i) (y + j) (bitmap (j * width + i))
          else state) drawn := by
    induction cells with
    | nil =>
        intro drawn _ _
        rfl
    | cons cell cells induction =>
        intro drawn sameWidth sameHeight
        rcases cell with ⟨j, i⟩
        rw [List.filterMap_cons, List.foldl_cons]
        dsimp only
        rw [sameWidth, sameHeight]
        by_cases onScreen : x + i < state.width ∧ y + j < state.height
        · rw [if_pos onScreen, if_pos onScreen, List.foldl_cons]
          apply induction
          · rw [(draw_pixel_mode _ _ _ _).1, sameWidth]
          · rw [(draw_pixel_mode _ _ _ _).2, sameHeight]
        · rw [if_neg onScreen, if_neg onScreen]
          exact induction drawn sameWidth sameHeight
  exact passes state rfl rfl

/-- One evaluation of `font[j] & (1 << (7 - i))` for the glyph of `c` in the built-in font. -/
structure GlyphAccess where
  c : UInt8
  j : UInt32
  i : UInt32
  deriving DecidableEq, Repr

def GlyphAccess.offset (access : GlyphAccess) : Nat := access.c.toNat * 16 + access.j.toNat

def GlyphAccess.shift (access : GlyphAccess) : UInt32 := 7 - access.i

def GlyphAccess.bits (access : GlyphAccess) : UInt32 :=
  (defaultFont access.offset).toUInt32 &&& (1 <<< access.shift)

def charAccesses (state : VbeState) (c : UInt8) : List GlyphAccess :=
  (rowMajor state.fontHeight state.fontWidth).map fun (j, i) => { c, j, i }

def charPixels (state : VbeState) (c : UInt8) (x y fg bg : UInt32) : List PixelCall :=
  (charAccesses state c).map fun access : GlyphAccess =>
    { x := x + access.i, y := y + access.j, color := if access.bits ≠ 0 then fg else bg }

def glyphBit (c : UInt8) (j i : UInt32) : UInt32 := GlyphAccess.bits ⟨c, j, i⟩

theorem char_pixels_cells (state : VbeState) (c : UInt8) (x y fg bg : UInt32) :
    charPixels state c x y fg bg = (rowMajor state.fontHeight state.fontWidth).map fun (j, i) =>
      { x := x + i, y := y + j, color := if glyphBit c j i ≠ 0 then fg else bg } := by
  unfold charPixels charAccesses
  rw [List.map_map]
  rfl

def vbeDrawChar (state : VbeState) (c : UInt8) (x y fg bg : UInt32) : VbeState :=
  drawPixels state (charPixels state c x y fg bg)

def drawStringFrom (state : VbeState) (x fg bg cursorX cursorY : UInt32) : List UInt8 → VbeState
  | [] => state
  | c :: str =>
      if c = 0 then state
      else if c = 10 then drawStringFrom state x fg bg x (cursorY + state.fontHeight) str
      else
        drawStringFrom (vbeDrawChar state c cursorX cursorY fg bg) x fg bg
          (cursorX + state.fontWidth) cursorY str

def vbeDrawString (state : VbeState) (str : List UInt8) (x y fg bg : UInt32) : VbeState :=
  drawStringFrom state x fg bg x y str

def vbeClear (state : VbeState) (color : UInt32) : VbeState :=
  { state with
    backbuffer := (List.range (state.width * state.height).toNat).foldl
      (fun backbuffer i => backbuffer.store i color) state.backbuffer }

def vbeScroll (state : VbeState) (lines : UInt32) : VbeState :=
  let lineSize := state.width * 4
  let scrollPixels := lines * state.fontHeight
  if scrollPixels ≥ state.height then vbeClear state 0
  else
    let kept := state.height - scrollPixels
    let moved := state.backbuffer.move 0 (scrollPixels * state.width).toNat
      ((kept * lineSize).toNat / 4)
    { state with
      backbuffer := moved.fill (kept * state.width).toNat ((scrollPixels * lineSize).toNat / 4) 0 }

inductive VbeCall where
  | drawPixel (x y color : UInt32)
  | drawBitmap (x y width height : UInt32) (bitmap : UInt32 → UInt32)
  | drawChar (c : UInt8) (x y fg bg : UInt32)
  | drawString (str : List UInt8) (x y fg bg : UInt32)
  | clear (color : UInt32)
  | scroll (lines : UInt32)
  | swapBuffers

def step (state : VbeState) : VbeCall → VbeState
  | .drawPixel x y color => vbeDrawPixel state x y color
  | .drawBitmap x y width height bitmap => vbeDrawBitmap state x y width height bitmap
  | .drawChar c x y fg bg => vbeDrawChar state c x y fg bg
  | .drawString str x y fg bg => vbeDrawString state str x y fg bg
  | .clear color => vbeClear state color
  | .scroll lines => vbeScroll state lines
  | .swapBuffers => vbeSwapBuffers state

def run (state : VbeState) (calls : List VbeCall) : VbeState := calls.foldl step state

end FractionsOS.Vbe
