import FractionsOS.Video.VbePixels

/-!
# The glyph bytes read

`vbe_draw_char` takes its loop bounds from the font that was set last and its bytes from
`default_font`, which has 16 of them for each character.
-/

namespace FractionsOS.Vbe

set_option autoImplicit false

/-- The byte is one of the character's glyph, and the shift stays in a byte. -/
structure GlyphAccess.Safe (access : GlyphAccess) : Prop where
  first : access.c.toNat * 16 ≤ access.offset
  last : access.offset < access.c.toNat * 16 + 16
  shift : access.shift.toNat ≤ 7

def stringAccesses (state : VbeState) : List UInt8 → List GlyphAccess
  | [] => []
  | c :: str =>
      if c = 0 then []
      else if c = 10 then stringAccesses state str
      else charAccesses state c ++ stringAccesses state str

inductive FontCall where
  | init (allocated framebuffer : Nat → UInt32) (width height : UInt32) (bpp : UInt8)
  | setFont (bitmap : Nat → UInt8) (width height : UInt32)
  | drawChar (c : UInt8) (x y fg bg : UInt32)
  | drawString (str : List UInt8) (x y fg bg : UInt32)

def fontStep (state : VbeState) : FontCall → VbeState
  | .init allocated framebuffer width height bpp =>
      vbeInit allocated framebuffer state.ports width height bpp
  | .setFont bitmap width height => vbeSetFont state bitmap width height
  | .drawChar c x y fg bg => vbeDrawChar state c x y fg bg
  | .drawString str x y fg bg => vbeDrawString state str x y fg bg

def accessesOf (state : VbeState) : FontCall → List GlyphAccess
  | .init _ _ _ _ _ => []
  | .setFont _ _ _ => []
  | .drawChar c _ _ _ _ => charAccesses state c
  | .drawString str _ _ _ _ => stringAccesses state str

def accessesAlong (state : VbeState) : List FontCall → List GlyphAccess
  | [] => []
  | call :: calls => accessesOf state call ++ accessesAlong (fontStep state call) calls

def sizesAfter (sizes : UInt32 × UInt32) : FontCall → UInt32 × UInt32
  | .init _ _ _ _ _ => (8, 16)
  | .setFont _ width height => (width, height)
  | .drawChar _ _ _ _ _ => sizes
  | .drawString _ _ _ _ _ => sizes

def charactersOf : FontCall → List UInt8
  | .init _ _ _ _ _ => []
  | .setFont _ _ _ => []
  | .drawChar c _ _ _ _ => [c]
  | .drawString str _ _ _ _ => (str.takeWhile (· ≠ 0)).filter (· ≠ 10)

/-- The sizes keep to the glyphs of `default_font`, or leave nothing to draw. -/
def FitsDefaultFont (sizes : UInt32 × UInt32) : Prop :=
  sizes.1 = 0 ∨ sizes.2 = 0 ∨ (sizes.1 ≤ 8 ∧ sizes.2 ≤ 16)

def fontSizes (state : VbeState) : UInt32 × UInt32 := (state.fontWidth, state.fontHeight)

theorem step_sizes (state : VbeState) (call : FontCall) :
    fontSizes (fontStep state call) = sizesAfter (fontSizes state) call := by
  cases call with
  | init allocated framebuffer width height bpp => rfl
  | setFont bitmap width height => rfl
  | drawChar c x y fg bg =>
      obtain ⟨backbuffer, drawn⟩ := draw_pixels_frame state (charPixels state c x y fg bg)
      rw [fontStep, vbeDrawChar, drawn]
      rfl
  | drawString str x y fg bg =>
      obtain ⟨backbuffer, drawn⟩ := draw_string_frame state str x y fg bg
      rw [fontStep, drawn]
      rfl

theorem string_accesses (state : VbeState) (str : List UInt8) :
    stringAccesses state str =
      ((str.takeWhile (· ≠ 0)).filter (· ≠ 10)).flatMap (charAccesses state) := by
  induction str with
  | nil => rfl
  | cons c str induction =>
      rw [stringAccesses, induction]
      by_cases terminator : c = 0
      · simp [terminator]
      · by_cases newline : c = 10
        · simp [newline]
        · simp [terminator, newline]

theorem accesses_of_call (state : VbeState) (call : FontCall) :
    accessesOf state call = (charactersOf call).flatMap (charAccesses state) := by
  cases call with
  | init allocated framebuffer width height bpp => rfl
  | setFont bitmap width height => rfl
  | drawChar c x y fg bg => exact (List.flatMap_singleton _ _).symm
  | drawString str x y fg bg => exact string_accesses state str

theorem mem_char_accesses (state : VbeState) (c : UInt8) (access : GlyphAccess) :
    access ∈ charAccesses state c ↔
      ∃ j i : UInt32, j.toNat < state.fontHeight.toNat ∧ i.toNat < state.fontWidth.toNat ∧
        access = ⟨c, j, i⟩ :=
  mem_row_major_map _ _ _ access

theorem shift_small_iff (i : UInt32) : (7 - i).toNat ≤ 7 ↔ i.toNat ≤ 7 := by
  have bound := i.toNat_lt
  have seven : (7 : UInt32).toNat = 7 := rfl
  rw [UInt32.toNat_sub, seven]
  omega

theorem fits_default_font_iff (state : VbeState) :
    FitsDefaultFont (fontSizes state) ↔ state.fontWidth.toNat = 0 ∨ state.fontHeight.toNat = 0 ∨
      (state.fontWidth.toNat ≤ 8 ∧ state.fontHeight.toNat ≤ 16) := by
  rw [FitsDefaultFont, ← UInt32.toNat_inj, ← UInt32.toNat_inj, UInt32.le_iff_toNat_le,
    UInt32.le_iff_toNat_le]
  rfl

/-- A character is drawn safely exactly in the sizes that fit. -/
theorem char_accesses_safe_iff (state : VbeState) (c : UInt8) :
    (∀ access ∈ charAccesses state c, access.Safe) ↔ FitsDefaultFont (fontSizes state) := by
  rw [fits_default_font_iff]
  constructor
  · intro safe
    by_contra outside
    -- the last row and the last column
    have row : (UInt32.ofNat (state.fontHeight.toNat - 1)).toNat = state.fontHeight.toNat - 1 :=
      UInt32.toNat_ofNat_of_lt' (Nat.lt_of_le_of_lt (Nat.sub_le _ 1) state.fontHeight.toNat_lt)
    have column : (UInt32.ofNat (state.fontWidth.toNat - 1)).toNat = state.fontWidth.toNat - 1 :=
      UInt32.toNat_ofNat_of_lt' (Nat.lt_of_le_of_lt (Nat.sub_le _ 1) state.fontWidth.toNat_lt)
    have corner := safe _ ((mem_char_accesses state c _).mpr
      ⟨UInt32.ofNat (state.fontHeight.toNat - 1), UInt32.ofNat (state.fontWidth.toNat - 1),
        by omega, by omega, rfl⟩)
    have last := corner.last
    have shift := (shift_small_iff _).mp corner.shift
    rw [GlyphAccess.offset, row] at last
    dsimp only at last shift
    rw [column] at shift
    omega
  · intro fits access member
    obtain ⟨j, i, row, column, rfl⟩ := (mem_char_accesses state c access).mp member
    constructor
    · exact Nat.le_add_right _ _
    · have inRow : j.toNat < 16 := by omega
      exact Nat.add_lt_add_left inRow _
    · exact (shift_small_iff i).mpr (by omega)

theorem call_accesses_safe_iff (state : VbeState) (call : FontCall) :
    (∀ access ∈ accessesOf state call, access.Safe) ↔
      (charactersOf call ≠ [] → FitsDefaultFont (fontSizes state)) := by
  rw [accesses_of_call]
  constructor
  · intro safe some
    obtain ⟨c, member⟩ := List.exists_mem_of_ne_nil _ some
    apply (char_accesses_safe_iff state c).mp
    intro access inside
    exact safe access (List.mem_flatMap.mpr ⟨c, member, inside⟩)
  · intro fits access inside
    obtain ⟨c, member, inChar⟩ := List.mem_flatMap.mp inside
    exact (char_accesses_safe_iff state c).mpr (fits (List.ne_nil_of_mem member)) access inChar

/-- All glyph bytes that a run reads belong to the characters drawn, and all shifts are of
at most 7 bits, exactly when each character is drawn in sizes that fit `default_font`. -/
theorem glyph_accesses_safe_iff (state : VbeState) (calls : List FontCall) :
    (∀ access ∈ accessesAlong state calls, access.Safe) ↔
      ∀ earlier call later, calls = earlier ++ call :: later → charactersOf call ≠ [] →
        FitsDefaultFont (earlier.foldl sizesAfter (fontSizes state)) := by
  induction calls generalizing state with
  | nil => simp [accessesAlong]
  | cons first calls induction =>
      have split : (∀ access ∈ accessesAlong state (first :: calls), access.Safe) ↔
          (∀ access ∈ accessesOf state first, access.Safe) ∧
            ∀ access ∈ accessesAlong (fontStep state first) calls, access.Safe :=
        List.forall_mem_append
      rw [split, induction, call_accesses_safe_iff, step_sizes]
      constructor
      · rintro ⟨here, rest⟩ earlier call later same some
        cases earlier with
        | nil =>
            obtain ⟨rfl, rfl⟩ := List.cons.inj same
            exact here some
        | cons other earlier =>
            obtain ⟨rfl, behind⟩ := List.cons.inj same
            exact rest earlier call later behind some
      · intro each
        constructor
        · exact each [] first calls rfl
        · intro earlier call later same
          exact each (first :: earlier) call later (congrArg (List.cons first) same)

/-- A font of one row of nine pixels. -/
theorem wide_font_shifts_out :
    ¬∀ (state : VbeState) (calls : List FontCall), ∀ access ∈ accessesAlong state calls,
      access.Safe := by
  intro safe
  have access := safe (vbeInit (fun _ => 0) (fun _ => 0) [] 0 0 32)
    [.setFont (fun _ => 0) 9 1, .drawChar 1 0 0 0 0] ⟨1, 0, 8⟩ (by decide)
  exact absurd access.shift (by decide)

end FractionsOS.Vbe
