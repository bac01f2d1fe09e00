import FractionsOS.Library.TextLayout
import FractionsOS.Library.TracedMemory

/-!
# The VGA text console

`vga.c` keeps the cursor and the colour in file statics and writes 16-bit
entries through `vga_buffer`. `size_t` is 32 bits wide on i386, so the cursor
and the index expression wrap at `2 ^ 32`. A C string is the list of its bytes:
the end of the list stands for the terminating NUL, and an earlier zero byte
ends the string as well.
-/

namespace FractionsOS.Vga

open Library

set_option autoImplicit false

def vgaWidth : UInt32 := 80
def vgaHeight : UInt32 := 25

def colorBlack : UInt8 := 0
def colorLightGrey : UInt8 := 7

def newlineByte : UInt8 := 10
def spaceByte : UInt8 := 32

structure VgaState where
  vgaBuffer : TracedMemory UInt16
  vgaRow : UInt32
  vgaColumn : UInt32
  vgaColor : UInt8

/-- The statics as the program loader sets them, over any screen contents. -/
def bootState (screen : Nat → UInt16) : VgaState where
  vgaBuffer := { cells := screen, trace := [] }
  vgaRow := 0
  vgaColumn := 0
  vgaColor := 0

/-- `(vga_color << 8) | c`: the colour is promoted without sign, the `char`
with its sign, and the `int` result is cut to 16 bits by the store. -/
def vgaEntry (color c : UInt8) : UInt16 :=
  ((color.toUInt32 <<< 8) ||| c.toInt8.toInt32.toUInt32).toUInt16

def vgaSetColor (state : VgaState) (fg bg : UInt8) : VgaState :=
  { state with vgaColor := fg ||| (bg <<< 4) }

def vgaClearRow (state : VgaState) (y : Nat) : VgaState :=
  (List.range vgaWidth.toNat).foldl (fun state x =>
    let index := y * vgaWidth.toNat + x
    { state with vgaBuffer := state.vgaBuffer.store index (vgaEntry state.vgaColor spaceByte) })
    state

def vgaInit (state : VgaState) : VgaState :=
  (List.range vgaHeight.toNat).foldl vgaClearRow (vgaSetColor state colorLightGrey colorBlack)

def vgaWriteByte (state : VgaState) (c : UInt8) : VgaState :=
  if c = newlineByte then
    { state with vgaColumn := 0, vgaRow := state.vgaRow + 1 }
  else
    let state :=
      if state.vgaColumn ≥ vgaWidth then { state with vgaColumn := 0, vgaRow := state.vgaRow + 1 }
      else state
    let index := state.vgaRow * vgaWidth + state.vgaColumn
    { state with
      vgaBuffer := state.vgaBuffer.store index.toNat (vgaEntry state.vgaColor c)
      vgaColumn := state.vgaColumn + 1 }

def vgaWriteString (state : VgaState) : List UInt8 → VgaState
  | [] => state
  | c :: data => if c = 0 then state else vgaWriteString (vgaWriteByte state c) data

inductive VgaCall where
  | init
  | setColor (fg bg : UInt8)
  | writeString (data : List UInt8)
  deriving DecidableEq, Repr

def step (state : VgaState) : VgaCall → VgaState
  | .init => vgaInit state
  | .setColor fg bg => vgaSetColor state fg bg
  | .writeString data => vgaWriteString state data

def run (state : VgaState) (calls : List VgaCall) : VgaState := calls.foldl step state

def stringBytes (data : List UInt8) : List UInt8 := data.takeWhile (· ≠ 0)

theorem write_string_eq_fold (state : VgaState) (data : List UInt8) :
    vgaWriteString state data = (stringBytes data).foldl vgaWriteByte state := by
  induction data generalizing state with
  | nil => rfl
  | cons c data induction =>
      by_cases terminator : c = 0
      · simp [vgaWriteString, stringBytes, terminator]
      · simpa [vgaWriteString, stringBytes, terminator] using induction (vgaWriteByte state c)

abbrev Glyph := UInt8 × UInt8

def isNewline (glyph : Glyph) : Bool := glyph.1 == newlineByte

def colorAfter (color : UInt8) : VgaCall → UInt8
  | .init => colorLightGrey ||| (colorBlack <<< 4)
  | .setColor fg bg => fg ||| (bg <<< 4)
  | .writeString _ => color

def textOfCall (color : UInt8) : VgaCall → List Glyph
  | .init => []
  | .setColor _ _ => []
  | .writeString data => (stringBytes data).map fun c => (c, color)

/-- All bytes the calls write, in order, each with its attribute. How they were
divided into calls leaves no mark on this list. -/
def textOfRun (color : UInt8) : List VgaCall → List Glyph
  | [] => []
  | call :: calls => textOfCall color call ++ textOfRun (colorAfter color call) calls

abbrev rowsOf (text : List Glyph) : List (List Glyph) :=
  TextLayout.layoutRows vgaWidth.toNat isNewline text

abbrev glyphAt (text : List Glyph) (row column : Nat) : Option Glyph :=
  TextLayout.itemAt (rowsOf text) row column

end FractionsOS.Vga
