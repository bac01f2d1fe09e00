import FractionsOS.Images.CompiledImage
import FractionsOS.Video.VbePixels

/-!
# Drawing encoded images

`vbe_draw_bitmap` reads its bitmap as words of four bytes, the header of an image
declares elements of eight. Compiled and drawn, an image keeps its colours exactly
when it is transparent black behind its first pixel.
-/

namespace FractionsOS.Encode

open Library.CHeader Library.DataLayout Vbe

set_option autoImplicit false

/-- `bitmap[index]` for an array that begins with the given bytes. -/
def bitmapWord (beyond : Nat → UInt8) (bytes : List UInt8) (index : UInt32) : UInt32 :=
  UInt32.ofNat (loadNumber (placed beyond bytes) (4 * index.toNat) 4)

/-- Every second word is the upper half of an element, which no colour reaches. -/
theorem bitmap_word_value (beyond : Nat → UInt8) (image : RgbaImage) (index : UInt32)
    (inside : index.toNat / 2 < image.pixels.length) :
    (bitmapWord beyond (arrayBytes 8 (image.pixels.map colorOf)) index).toNat =
      if index.toNat % 2 = 0 then colorOf (image.pixels.getD (index.toNat / 2) default) else 0 := by
  have element : (image.pixels.map colorOf).getD (index.toNat / 2) 0 =
      colorOf (image.pixels.getD (index.toNat / 2) default) :=
    List.getD_map image.pixels default colorOf
  have bound := color_lt (image.pixels.getD (index.toNat / 2) default)
  have address : 4 * index.toNat = 8 * (index.toNat / 2) + 4 * (index.toNat % 2) := by omega
  have loaded := load_element_part 8 (image.pixels.map colorOf) (index.toNat / 2)
    (by rw [List.length_map]; exact inside) (4 * (index.toNat % 2)) 4 (by omega) beyond
  rw [bitmapWord, address, loaded, element]
  rcases Nat.mod_two_eq_zero_or_one index.toNat with lower | upper
  · rw [lower, if_pos rfl]
    change colorOf _ / 1 % 2 ^ 32 % 2 ^ 32 = _
    omega
  · rw [upper, if_neg (by decide)]
    change colorOf _ / 2 ^ 32 % 2 ^ 32 % 2 ^ 32 = _
    omega

theorem bitmap_color_iff (state : VbeState) (width height : UInt32) (bitmap : UInt32 → UInt32)
    {i j : UInt32} (column : i < width) (row : j < height) (columns : width ≤ state.width)
    (rows : height ≤ state.height) (color : UInt32) :
    ⟨i, j, color⟩ ∈ bitmapPixels state 0 0 width height bitmap ↔
      color = bitmap (j * width + i) := by
  have onScreen : i < state.width ∧ j < state.height :=
    ⟨Nat.lt_of_lt_of_le column columns, Nat.lt_of_lt_of_le row rows⟩
  unfold bitmapPixels
  simp only [List.mem_filterMap, UInt32.zero_add, Prod.exists, Option.ite_none_right_eq_some,
    Option.some.injEq, PixelCall.mk.injEq, mem_row_major]
  constructor
  · rintro ⟨_, _, -, -, rfl, rfl, rfl⟩
    rfl
  · rintro rfl
    exact ⟨j, i, ⟨row, column⟩, onScreen, rfl, rfl, rfl⟩

/-- Each pixel of the image is given its colour at its place, and no other. -/
def ShowsImage (image : RgbaImage) (pixels : List PixelCall) : Prop :=
  ∀ i j, i < image.width → j < image.height → ∀ color,
    ⟨UInt32.ofNat i, UInt32.ofNat j, color⟩ ∈ pixels ↔
      color = UInt32.ofNat (colorOf (image.pixels.getD (j * image.width + i) default))

/-- A sequence whose entries are those at half their index, or zero, has no other
entry than its first. -/
theorem halved_entries_iff (entry : Nat → Nat) (period count : Nat) (positive : 0 < period) :
    (∀ k, k < count → entry k = if k % period % 2 = 0 then entry (k % period / 2) else 0) ↔
      ∀ k, k < count → entry k = if k % period = 0 then entry 0 else 0 := by
  constructor
  · intro halved k
    induction k using Nat.strong_induction_on with
    | h k induction =>
        intro inside
        have entered := halved k inside
        by_cases first : k % period = 0
        · rw [first] at entered
          rw [if_pos first]
          exact entered
        rw [if_neg first]
        by_cases odd : k % period % 2 = 0
        · have half : k % period / 2 < k := by
            have reduced : k % period ≤ k := Nat.mod_le k period
            omega
          have below : k % period / 2 < period := by
            have reduced := Nat.mod_lt k positive
            omega
          have earlier := induction (k % period / 2) half (half.trans inside)
          rw [Nat.mod_eq_of_lt below, if_neg (by omega)] at earlier
          rw [if_pos odd, earlier] at entered
          exact entered
        · rw [if_neg odd] at entered
          exact entered
  · intro entries k inside
    have reduced : k % period < count := (Nat.mod_le k period).trans_lt inside
    have below := Nat.mod_lt k positive
    rw [entries k inside]
    by_cases first : k % period = 0
    · rw [if_pos first, first]
      rfl
    rw [if_neg first]
    by_cases odd : k % period % 2 = 0
    · have half := entries (k % period / 2) (by omega)
      rw [Nat.mod_eq_of_lt (by omega : k % period / 2 < period), if_neg (by omega)] at half
      rw [if_pos odd, half]
    · rw [if_neg odd]

theorem shows_image_iff_words (image : RgbaImage) (state : VbeState) (bitmap : UInt32 → UInt32)
    (columns : image.width ≤ state.width.toNat) (rows : image.height ≤ state.height.toNat) :
    ShowsImage image (bitmapPixels state 0 0 (UInt32.ofNat image.width)
        (UInt32.ofNat image.height) bitmap) ↔
      ∀ k, k < image.pixels.length →
        bitmap (UInt32.ofNat k) = UInt32.ofNat (colorOf (image.pixels.getD k default)) := by
  have width : (UInt32.ofNat image.width).toNat = image.width :=
    UInt32.toNat_ofNat_of_lt' (columns.trans_lt state.width.toNat_lt)
  have height : (UInt32.ofNat image.height).toNat = image.height :=
    UInt32.toNat_ofNat_of_lt' (rows.trans_lt state.height.toNat_lt)
  have calls : ∀ i j, i < image.width → j < image.height → ∀ color,
      ⟨UInt32.ofNat i, UInt32.ofNat j, color⟩ ∈ bitmapPixels state 0 0 (UInt32.ofNat image.width)
          (UInt32.ofNat image.height) bitmap ↔
        color = bitmap (UInt32.ofNat (j * image.width + i)) := by
    intro i j column row color
    rw [UInt32.ofNat_add, UInt32.ofNat_mul]
    apply bitmap_color_iff
    · rw [UInt32.lt_iff_toNat_lt, width]
      exact (Nat.mod_le i _).trans_lt column
    · rw [UInt32.lt_iff_toNat_lt, height]
      exact (Nat.mod_le j _).trans_lt row
    · rw [UInt32.le_iff_toNat_le, width]
      exact columns
    · rw [UInt32.le_iff_toNat_le, height]
      exact rows
  rw [image.complete]
  constructor
  · intro shows k inside
    have row : k / image.width < image.height := Nat.div_lt_of_lt_mul inside
    have column : k % image.width < image.width := by
      apply Nat.mod_lt
      exact Nat.pos_of_mul_pos_right (Nat.zero_lt_of_lt inside)
    have drawn := shows (k % image.width) (k / image.width) column row (bitmap (UInt32.ofNat k))
    rw [calls _ _ column row, Nat.div_add_mod'] at drawn
    exact drawn.mp rfl
  · intro words i j column row color
    have inside : j * image.width + i < image.width * image.height := by
      have next : (j + 1) * image.width ≤ image.height * image.width :=
        Nat.mul_le_mul_right _ row
      rw [Nat.add_mul, Nat.one_mul, Nat.mul_comm image.height] at next
      omega
    rw [calls i j column row, words _ inside]

theorem words_agree_iff (beyond : Nat → UInt8) (image : RgbaImage) :
    (∀ k, k < image.pixels.length →
      bitmapWord beyond (arrayBytes 8 (image.pixels.map colorOf)) (UInt32.ofNat k) =
        UInt32.ofNat (colorOf (image.pixels.getD k default))) ↔
      ∀ k, k < image.pixels.length →
        image.pixels.getD k default =
          if k % 2 ^ 32 = 0 then image.pixels.getD 0 default else default := by
  have word : ∀ k, k < image.pixels.length →
      (bitmapWord beyond (arrayBytes 8 (image.pixels.map colorOf)) (UInt32.ofNat k) =
          UInt32.ofNat (colorOf (image.pixels.getD k default)) ↔
        colorOf (image.pixels.getD k default) =
          if k % 2 ^ 32 % 2 = 0 then colorOf (image.pixels.getD (k % 2 ^ 32 / 2) default)
          else 0) := by
    intro k inside
    have reduced := Nat.mod_le k (2 ^ 32)
    have index : (UInt32.ofNat k).toNat = k % 2 ^ 32 := UInt32.toNat_ofNat'
    rw [← UInt32.toNat_inj, bitmap_word_value beyond image _ (by rw [index]; omega), index,
      UInt32.toNat_ofNat_of_lt' (color_lt _)]
    exact eq_comm
  have pixel : ∀ k, colorOf (image.pixels.getD k default) =
        (if k % 2 ^ 32 = 0 then colorOf (image.pixels.getD 0 default) else 0) ↔
      image.pixels.getD k default =
        if k % 2 ^ 32 = 0 then image.pixels.getD 0 default else default := by
    intro k
    split_ifs
    · exact ⟨color_injective, congrArg colorOf⟩
    · exact ⟨fun same => color_injective same, congrArg colorOf⟩
  have halved := halved_entries_iff (fun k => colorOf (image.pixels.getD k default)) (2 ^ 32)
    image.pixels.length (by decide)
  rw [forall₂_congr word, halved]
  exact forall₂_congr fun k _ => pixel k

/-- What a compiled image shows depends on the pixels behind the first one, which
must be transparent black. Indices repeat after `2 ^ 32` pixels. -/
theorem encoded_image_shown_iff {filename : List Char} (identifier : IsIdentifier filename)
    (image : RgbaImage) (state : VbeState) (columns : image.width ≤ state.width.toNat)
    (rows : image.height ≤ state.height.toNat) (beyond : Nat → UInt8) :
    ∃ compiled, compileImage filename (convertImageToBitmap filename image) = some compiled ∧
      (ShowsImage image (bitmapPixels state 0 0 (UInt32.ofNat compiled.width)
          (UInt32.ofNat compiled.height) (bitmapWord beyond compiled.bytes)) ↔
        ∀ k, k < image.width * image.height →
          image.pixels.getD k default =
            if k % 2 ^ 32 = 0 then image.pixels.getD 0 default else ⟨0, 0, 0, 0⟩) := by
  refine ⟨_, compile_image_header identifier.1 image, ?_⟩
  rw [shows_image_iff_words image state _ columns rows, words_agree_iff, image.complete]
  rfl

def blackAndWhite : RgbaImage where
  width := 2
  height := 1
  pixels := [⟨0, 0, 0, 255⟩, ⟨255, 255, 255, 255⟩]
  complete := rfl

def smallScreen : VbeState := vbeInit (fun _ => 0) (fun _ => 0) [] 2 1 32

theorem encoded_image_shown_two_pixels :
    ∃ compiled, compileImage "dots".toList (convertImageToBitmap "dots".toList blackAndWhite) =
        some compiled ∧
      (ShowsImage blackAndWhite (bitmapPixels smallScreen 0 0 (UInt32.ofNat compiled.width)
          (UInt32.ofNat compiled.height) (bitmapWord (fun _ => 0) compiled.bytes)) ↔
        ∀ k, k < blackAndWhite.width * blackAndWhite.height →
          blackAndWhite.pixels.getD k default =
            if k % 2 ^ 32 = 0 then blackAndWhite.pixels.getD 0 default else ⟨0, 0, 0, 0⟩) :=
  encoded_image_shown_iff (by decide) blackAndWhite smallScreen (by decide) (by decide) fun _ => 0

/-- The second word of the array is the upper half of the first pixel. -/
theorem encoded_image_not_shown :
    ¬∀ (filename : List Char) (image : RgbaImage) (state : VbeState) (beyond : Nat → UInt8),
      IsIdentifier filename → image.width ≤ state.width.toNat →
        image.height ≤ state.height.toNat →
          ∃ compiled, compileImage filename (convertImageToBitmap filename image) = some compiled ∧
            ShowsImage image (bitmapPixels state 0 0 (UInt32.ofNat compiled.width)
              (UInt32.ofNat compiled.height) (bitmapWord beyond compiled.bytes)) := by
  intro agree
  obtain ⟨compiled, written, shows⟩ := agree "dots".toList blackAndWhite smallScreen (fun _ => 0)
    (by decide) (by decide) (by decide)
  rw [compile_image_header (by decide)] at written
  cases written
  have white := (shows 1 0 (by decide) (by decide) 0xFFFFFFFF).mpr (by decide)
  exact absurd white (by decide +kernel)

end FractionsOS.Encode
