import FractionsOS.Images.CompiledImage

/-!
# Decoding headers

The text of a header holds the whole image: its size in two macros, and a literal of
eight digits for each pixel, with the four bytes of the colour in it.
-/

namespace FractionsOS.Encode

open Library.CHeader Library.Numerals

set_option autoImplicit false

structure DecodedHeader where
  width : Nat
  height : Nat
  literals : List (List Char)
  deriving DecidableEq, Repr

def decodeHeader (filename text : List Char) : Option DecodedHeader :=
  let header := readText text
  let upper := filename.map Char.toUpper
  match header.number (macroName upper "_WIDTH"), header.number (macroName upper "_HEIGHT"),
    arrayLiterals filename header.tokens with
  | some width, some height, some literals => some ⟨width, height, literals⟩
  | _, _, _ => none

def IsHexLiteral (width : Nat) (text : List Char) : Prop :=
  ∃ digits, text = '0' :: 'x' :: digits ∧ digits.length = width ∧
    ∀ c ∈ digits, ∃ digit < 16, digitValue c = some digit

/-- A number split into four bytes, whatever is above them left with the first. -/
def bytesOfWord (value : Nat) : List Nat :=
  [value / 2 ^ 24, value / 2 ^ 16 % 2 ^ 8, value / 2 ^ 8 % 2 ^ 8, value % 2 ^ 8]

def RgbaImage.pixelAt (image : RgbaImage) (row column : Nat) : Rgba :=
  image.pixels.getD (row * image.width + column) default

theorem hex_text_literal (pixel : Rgba) : IsHexLiteral 8 (hexText (colorOf pixel)) :=
  ⟨paddedNumeral 8 16 (colorOf pixel), rfl,
    padded_length (by decide) (by decide) (color_lt pixel),
    padded_digits (by decide) (by decide) 8 (colorOf pixel)⟩

theorem color_bytes (pixel : Rgba) :
    bytesOfWord (colorOf pixel) =
      [pixel.a.toNat, pixel.r.toNat, pixel.g.toNat, pixel.b.toNat] := by
  have r := pixel.r.toNat_lt
  have g := pixel.g.toNat_lt
  have b := pixel.b.toNat_lt
  have first : colorOf pixel / 2 ^ 24 = pixel.a.toNat := by
    rw [color_value]
    omega
  have second : colorOf pixel / 2 ^ 16 % 2 ^ 8 = pixel.r.toNat := by
    rw [color_value]
    omega
  have third : colorOf pixel / 2 ^ 8 % 2 ^ 8 = pixel.g.toNat := by
    rw [color_value]
    omega
  have fourth : colorOf pixel % 2 ^ 8 = pixel.b.toNat := by
    rw [color_value]
    omega
  rw [bytesOfWord, first, second, third, fourth]

def imageLiterals (image : RgbaImage) : List (List Char) :=
  (image.pixels.map colorOf).map hexText

theorem image_literals_length (image : RgbaImage) :
    (imageLiterals image).length = image.width * image.height := by
  rw [imageLiterals, List.length_map, List.length_map, image.complete]

theorem image_literal (image : RgbaImage) {k : Nat} (inside : k < image.width * image.height) :
    (imageLiterals image)[k]? =
      some (hexText (colorOf (image.pixelAt (k / image.width) (k % image.width)))) := by
  have listed : k < image.pixels.length := by
    rw [image.complete]
    exact inside
  rw [imageLiterals, List.getElem?_map, List.getElem?_map, List.getElem?_eq_getElem listed,
    RgbaImage.pixelAt, Nat.div_add_mod', List.getD_eq_getElem _ _ listed]
  rfl

theorem image_literals_injective {one other : RgbaImage}
    (same : imageLiterals one = imageLiterals other) : one.pixels = other.pixels := by
  have colors : one.pixels.map colorOf = other.pixels.map colorOf := by
    apply List.map_injective_iff.mpr _ same
    intro first second text
    have values := congrArg constant text
    rw [hexText, hexText, constant_hexadecimal, constant_hexadecimal] at values
    exact Option.some.inj values
  exact List.map_injective_iff.mpr (fun _ _ => color_injective) colors

section Header

variable {filename : List Char}

theorem header_literals (isWord : IsWord .basic filename) (image : RgbaImage) :
    arrayLiterals filename (readText (convertImageToBitmap filename image)).tokens =
      some (imageLiterals image) := by
  have written := read_literals_written (imageLiterals image) []
  rw [read_image_header isWord]
  dsimp only
  rw [declarationTokens, row_tokens_flatten]
  exact array_literals_written "uint64_t".toList filename _ _ written

theorem decode_header (isWord : IsWord .basic filename) (image : RgbaImage) :
    decodeHeader filename (convertImageToBitmap filename image) =
      some ⟨image.width, image.height, imageLiterals image⟩ := by
  unfold decodeHeader
  dsimp only
  rw [header_width isWord, header_height isWord, header_literals isWord]

theorem convert_injective (isWord : IsWord .basic filename) {one other : RgbaImage}
    (same : convertImageToBitmap filename one = convertImageToBitmap filename other) :
    one = other := by
  have decoded := decode_header isWord one
  rw [same, decode_header isWord other] at decoded
  have parts := DecodedHeader.mk.inj (Option.some.inj decoded)
  have pixels := image_literals_injective parts.2.2.symm
  cases one
  cases other
  simp only at parts pixels
  simp only [RgbaImage.mk.injEq]
  exact ⟨parts.1.symm, parts.2.1.symm, pixels⟩

/-- The header of an image decodes to the image. -/
theorem header_round_trip (identifier : IsIdentifier filename) (image : RgbaImage) :
    ∃ literals, decodeHeader filename (convertImageToBitmap filename image) =
        some ⟨image.width, image.height, literals⟩ ∧
      literals.length = image.width * image.height ∧
      ∀ k, k < image.width * image.height → ∃ literal value,
        literals[k]? = some literal ∧ IsHexLiteral 8 literal ∧ constant literal = some value ∧
          bytesOfWord value =
            let pixel := image.pixelAt (k / image.width) (k % image.width)
            [pixel.a.toNat, pixel.r.toNat, pixel.g.toNat, pixel.b.toNat] := by
  refine ⟨imageLiterals image, decode_header identifier.1 image, image_literals_length image, ?_⟩
  intro k inside
  have literal := image_literal image inside
  generalize image.pixelAt (k / image.width) (k % image.width) = pixel at literal ⊢
  exact ⟨hexText (colorOf pixel), colorOf pixel, literal, hex_text_literal pixel,
    constant_hexadecimal 8 (colorOf pixel), color_bytes pixel⟩

end Header

def column : RgbaImage where
  width := 1
  height := 3
  pixels := [⟨255, 0, 0, 255⟩, ⟨1, 2, 3, 0⟩, ⟨0, 0, 0, 128⟩]
  complete := rfl

theorem header_round_trip_column :
    ∃ literals, decodeHeader "column_1".toList (convertImageToBitmap "column_1".toList column) =
        some ⟨column.width, column.height, literals⟩ ∧
      literals.length = column.width * column.height ∧
      ∀ k, k < column.width * column.height → ∃ literal value,
        literals[k]? = some literal ∧ IsHexLiteral 8 literal ∧ constant literal = some value ∧
          bytesOfWord value =
            let pixel := column.pixelAt (k / column.width) (k % column.width)
            [pixel.a.toNat, pixel.r.toNat, pixel.g.toNat, pixel.b.toNat] :=
  header_round_trip (by decide) column

end FractionsOS.Encode
