import FractionsOS.Library.Numerals
import FractionsOS.Library.WordBytes

/-!
# The image encoder

`convert_image_to_bitmap` of `encode.py`: the text of the header it writes for
an image, one write after the other. Numbers are formatted as Python does.
-/

namespace FractionsOS.Encode

open Library.Numerals Library.WordBytes

set_option autoImplicit false

structure Rgba where
  r : UInt8
  g : UInt8
  b : UInt8
  a : UInt8
  deriving DecidableEq, Repr, Inhabited

/-- An image after `convert("RGBA")`, its pixels as `getdata()` lists them. -/
structure RgbaImage where
  width : Nat
  height : Nat
  pixels : List Rgba
  complete : pixels.length = width * height

/-- `(a << 24) | (r << 16) | (g << 8) | b` -/
def colorOf (pixel : Rgba) : Nat :=
  (pixel.a.toNat <<< 24) ||| (pixel.r.toNat <<< 16) ||| (pixel.g.toNat <<< 8) ||| pixel.b.toNat

theorem color_value (pixel : Rgba) :
    colorOf pixel = pixel.a.toNat * 2 ^ 24 + (pixel.r.toNat * 2 ^ 16 + (pixel.g.toNat * 2 ^ 8 +
      pixel.b.toNat)) :=
  pack_bytes pixel.r.toNat_lt pixel.g.toNat_lt pixel.b.toNat_lt

theorem color_lt (pixel : Rgba) : colorOf pixel < 2 ^ 32 := by
  have a := pixel.a.toNat_lt
  have r := pixel.r.toNat_lt
  have g := pixel.g.toNat_lt
  have b := pixel.b.toNat_lt
  rw [color_value]
  omega

theorem color_injective {left right : Rgba} (same : colorOf left = colorOf right) :
    left = right := by
  rw [color_value, color_value] at same
  have leftR := left.r.toNat_lt
  have leftG := left.g.toNat_lt
  have leftB := left.b.toNat_lt
  have rightR := right.r.toNat_lt
  have rightG := right.g.toNat_lt
  have rightB := right.b.toNat_lt
  have a : left.a = right.a := UInt8.toNat_inj.mp (by omega)
  have r : left.r = right.r := UInt8.toNat_inj.mp (by omega)
  have g : left.g = right.g := UInt8.toNat_inj.mp (by omega)
  have b : left.b = right.b := UInt8.toNat_inj.mp (by omega)
  calc
    left = ⟨left.r, left.g, left.b, left.a⟩ := rfl
    _ = right := by rw [r, g, b, a]

def hexText (color : Nat) : List Char := '0' :: 'x' :: paddedNumeral 8 16 color

def line (text : List Char) : List Char := text ++ ['\n']

def pixelText (image : RgbaImage) (y x : Nat) : List Char :=
  hexText (colorOf (image.pixels.getD (y * image.width + x) default)) ++ [',', ' ']

def rowText (image : RgbaImage) (y : Nat) : List Char :=
  [' ', ' ', ' ', ' '] ++ (List.range image.width).flatMap (pixelText image y)

/-- The text written for an image file with the base name `filename`, which is `upper` in
upper case. -/
def headerText (upper filename : List Char) (image : RgbaImage) : List Char :=
  line ("#ifndef ".toList ++ upper ++ "_H".toList) ++
  line ("#define ".toList ++ upper ++ "_H".toList) ++ line [] ++
  line "#include <stdint.h>".toList ++ line [] ++
  line ("#define ".toList ++ upper ++ "_WIDTH".toList ++ [' '] ++ numeral 10 image.width) ++
  line ("#define ".toList ++ upper ++ "_HEIGHT".toList ++ [' '] ++ numeral 10 image.height) ++
  line [] ++
  line ("static const uint64_t ".toList ++ filename ++ "[] = \x7b".toList) ++
  (List.range image.height).flatMap (fun y => line (rowText image y)) ++
  line "\x7d;".toList ++ line [] ++
  line "#endif".toList

/-- On ASCII names `upper()` changes each letter by itself. -/
def convertImageToBitmap (filename : List Char) (image : RgbaImage) : List Char :=
  headerText (filename.map Char.toUpper) filename image

end FractionsOS.Encode
