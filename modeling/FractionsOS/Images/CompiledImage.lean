import FractionsOS.Images.HeaderReading
import Mathlib.Data.List.GetD

/-!
# Compiled image headers

What a C program that includes the header of an image gets: the two numbers its
macros stand for and the bytes of its array, eight for each pixel.
-/

namespace FractionsOS.Encode

open Library.CHeader Library.DataLayout Library.Numerals

set_option autoImplicit false

structure CompiledImage where
  width : Nat
  height : Nat
  bytes : List UInt8
  deriving DecidableEq, Repr

def compileImage (filename text : List Char) : Option CompiledImage :=
  let header := readText text
  let upper := filename.map Char.toUpper
  match header.number (macroName upper "_WIDTH"), header.number (macroName upper "_HEIGHT"),
    header.object filename with
  | some width, some height, some bytes => some ⟨width, height, bytes⟩
  | _, _, _ => none

theorem macro_lookup_other (upper : List Char) {suffix other : String}
    (apart : suffix.toList ≠ other.toList) (tokens : List Token)
    (macros : List (List Char × List Token)) :
    ((macroName upper other, tokens) :: macros).lookup (macroName upper suffix) =
      macros.lookup (macroName upper suffix) := by
  have differ : (macroName upper suffix == macroName upper other) = false :=
    beq_eq_false_iff_ne.mpr fun same => apart (List.append_cancel_left same)
  rw [List.lookup_cons, differ]

theorem flat_map_rows {Item : Type} (item : Nat → List Item) (width height : Nat) :
    ((List.range height).flatMap fun y => (List.range width).flatMap fun x => item (y * width + x)) =
      (List.range (height * width)).flatMap item := by
  induction height with
  | zero => rw [Nat.zero_mul, List.range_zero, List.flatMap_nil, List.flatMap_nil]
  | succ height induction =>
      rw [List.range_succ, List.flatMap_append, induction, List.flatMap_singleton, Nat.succ_mul,
        List.range_add, List.flatMap_append, List.flatMap_map]

theorem pixels_by_index (image : RgbaImage) :
    (List.range (image.height * image.width)).map (fun index => image.pixels.getD index default) =
      image.pixels := by
  rw [Nat.mul_comm, ← image.complete]
  apply List.ext_getElem
  · rw [List.length_map, List.length_range]
  · intro index _ inside
    rw [List.getElem_map, List.getElem_range, List.getD_eq_getElem _ _ inside]

theorem row_tokens_flatten (image : RgbaImage) :
    ((List.range image.height).map (rowTokens image)).flatten =
      ((image.pixels.map colorOf).map hexText).flatMap fun text => [.word text, .mark ','] := by
  have rows := flat_map_rows
    (fun index => [Token.word (hexText (colorOf (image.pixels.getD index default))), .mark ','])
    image.width image.height
  rw [← List.flatMap_def]
  refine rows.trans ?_
  conv_rhs => rw [← pixels_by_index image]
  rw [List.flatMap_map, List.flatMap_map, List.flatMap_map]

/-- The declaration of an image is read up to what follows it. -/
theorem declaration_read (filename : List Char) (image : RgbaImage) (rest : List Token) :
    readDeclaration (declarationTokens filename image ++ rest) =
      some (⟨"uint64_t".toList, filename, image.pixels.map colorOf⟩, rest) := by
  have constants : ((image.pixels.map colorOf).map hexText).map constant =
      (image.pixels.map colorOf).map some := by
    rw [List.map_map]
    apply List.map_congr_left
    intro color _
    exact constant_hexadecimal 8 color
  have initialisers := read_initialisers_written _ _ constants rest
  rw [declarationTokens, row_tokens_flatten, List.append_assoc, List.append_assoc]
  exact read_declaration_written "uint64_t".toList filename _ _ rest initialisers

section Header

variable {filename : List Char} (isWord : IsWord .basic filename) (image : RgbaImage)

include isWord

theorem read_image_header :
    readText (convertImageToBitmap filename image) =
      ⟨headerMacros (filename.map Char.toUpper) image, declarationTokens filename image, 0⟩ :=
  read_header image isWord (upper_word_chars isWord.2)

theorem header_width : (readText (convertImageToBitmap filename image)).number
    (macroName (filename.map Char.toUpper) "_WIDTH") = some image.width := by
  have name : (headerMacros (filename.map Char.toUpper) image).lookup
      (macroName (filename.map Char.toUpper) "_WIDTH") = some [.word (numeral 10 image.width)] := by
    rw [headerMacros, macro_lookup_other _ (by decide), List.lookup_cons_self]
  rw [read_image_header isWord, Reading.number, name]
  exact constant_decimal image.width

theorem header_height : (readText (convertImageToBitmap filename image)).number
    (macroName (filename.map Char.toUpper) "_HEIGHT") = some image.height := by
  have name : (headerMacros (filename.map Char.toUpper) image).lookup
      (macroName (filename.map Char.toUpper) "_HEIGHT") =
        some [.word (numeral 10 image.height)] := by
    rw [headerMacros, List.lookup_cons_self]
  rw [read_image_header isWord, Reading.number, name]
  exact constant_decimal image.height

theorem header_object : (readText (convertImageToBitmap filename image)).object filename =
    some (arrayBytes 8 (image.pixels.map colorOf)) := by
  have declaration := declaration_read filename image []
  rw [List.append_nil] at declaration
  have element : elementSize "uint64_t".toList = some 8 := by decide
  rw [read_image_header isWord, Reading.object, declaration]
  dsimp only
  rw [if_pos rfl, element, Option.map_some]

theorem compile_image_header : compileImage filename (convertImageToBitmap filename image) =
    some ⟨image.width, image.height, arrayBytes 8 (image.pixels.map colorOf)⟩ := by
  unfold compileImage
  dsimp only
  rw [header_width isWord, header_height isWord, header_object isWord]

end Header

end FractionsOS.Encode
