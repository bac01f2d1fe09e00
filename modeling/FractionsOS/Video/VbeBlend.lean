import FractionsOS.Video.VbePixels

/-!
# Blending

The channels of a colour as numbers, and what a blend leaves of them.
-/

namespace FractionsOS.Vbe

open Library Library.Raster Library.WordBytes

set_option autoImplicit false

def channel (color : UInt32) (shift : Nat) : Nat := color.toNat / 2 ^ shift % 256

theorem channel_lt (color : UInt32) (shift : Nat) : channel color shift < 256 :=
  Nat.mod_lt _ (by decide)

theorem alpha_channel (color : UInt32) : (alphaOf color).toNat = channel color 24 :=
  shifted_byte color 24 (by decide)

theorem red_channel (color : UInt32) : (redOf color).toNat = channel color 16 :=
  shifted_byte color 16 (by decide)

theorem green_channel (color : UInt32) : (greenOf color).toNat = channel color 8 :=
  shifted_byte color 8 (by decide)

theorem blue_channel (color : UInt32) : (blueOf color).toNat = channel color 0 := by
  rw [blueOf, low_byte, channel, Nat.pow_zero, Nat.div_one]

theorem rgb_value (r g b : UInt8) :
    (rgb r.toUInt32 g.toUInt32 b.toUInt32).toNat =
      255 * 2 ^ 24 + (r.toNat * 2 ^ 16 + (g.toNat * 2 ^ 8 + b.toNat)) :=
  packed_word_value 255 r g b

theorem rgb_channels (r g b : UInt8) :
    channel (rgb r.toUInt32 g.toUInt32 b.toUInt32) 24 = 255 ∧
      channel (rgb r.toUInt32 g.toUInt32 b.toUInt32) 16 = r.toNat ∧
      channel (rgb r.toUInt32 g.toUInt32 b.toUInt32) 8 = g.toNat ∧
      channel (rgb r.toUInt32 g.toUInt32 b.toUInt32) 0 = b.toNat := by
  have red := r.toNat_lt
  have green := g.toNat_lt
  have blue := b.toNat_lt
  unfold channel
  rw [rgb_value]
  omega

def mixChannel (c bg alpha : Nat) : Nat := (c * alpha + bg * (255 - alpha)) / 255

/-- A mix is a mean of the two, so it leaves no interval that holds both. -/
theorem mix_channel_between {c bg alpha lo hi : Nat} (weight : alpha ≤ 255)
    (color : lo ≤ c ∧ c ≤ hi) (background : lo ≤ bg ∧ bg ≤ hi) :
    lo ≤ mixChannel c bg alpha ∧ mixChannel c bg alpha ≤ hi := by
  have parts : ∀ bound, bound * alpha + bound * (255 - alpha) = bound * 255 := by
    intro bound
    rw [← Nat.mul_add, Nat.add_sub_cancel' weight]
  have lower : lo * 255 ≤ c * alpha + bg * (255 - alpha) := by
    rw [← parts]
    exact Nat.add_le_add (Nat.mul_le_mul_right _ color.1) (Nat.mul_le_mul_right _ background.1)
  have upper : c * alpha + bg * (255 - alpha) ≤ hi * 255 := by
    rw [← parts]
    exact Nat.add_le_add (Nat.mul_le_mul_right _ color.2) (Nat.mul_le_mul_right _ background.2)
  unfold mixChannel
  omega

/-- No product, sum or store of the blend is cut. -/
theorem blend_channel_value (c bg alpha : UInt8) :
    (blendChannel c bg alpha).toNat = mixChannel c.toNat bg.toNat alpha.toNat := by
  have weight : alpha.toNat ≤ 255 := Nat.le_of_lt_succ alpha.toNat_lt
  have mixed := (mix_channel_between weight ⟨Nat.zero_le _, Nat.le_of_lt_succ c.toNat_lt⟩
    ⟨Nat.zero_le _, Nat.le_of_lt_succ bg.toNat_lt⟩).2
  have rest : (255 - alpha.toUInt32).toNat = 255 - alpha.toNat := by
    apply UInt32.toNat_sub_of_le
    rw [UInt32.le_iff_toNat_le, UInt8.toNat_toUInt32]
    exact weight
  have front : c.toNat * alpha.toNat ≤ 255 * 255 :=
    Nat.mul_le_mul (Nat.le_of_lt_succ c.toNat_lt) weight
  have back : bg.toNat * (255 - alpha.toNat) ≤ 255 * 255 :=
    Nat.mul_le_mul (Nat.le_of_lt_succ bg.toNat_lt) (Nat.sub_le 255 _)
  have frontValue : (c.toUInt32 * alpha.toUInt32).toNat = c.toNat * alpha.toNat := by
    rw [product_value, UInt8.toNat_toUInt32, UInt8.toNat_toUInt32]
    rw [UInt8.toNat_toUInt32, UInt8.toNat_toUInt32]
    omega
  have backValue : (bg.toUInt32 * (255 - alpha.toUInt32)).toNat =
      bg.toNat * (255 - alpha.toNat) := by
    rw [product_value, UInt8.toNat_toUInt32, rest]
    rw [UInt8.toNat_toUInt32, rest]
    omega
  unfold mixChannel at mixed ⊢
  rw [blendChannel, UInt32.toNat_toUInt8, UInt32.toNat_div, UInt32.toNat_add, frontValue, backValue]
  change (_ % 2 ^ 32 / 255) % 2 ^ 8 = _
  rw [Nat.mod_eq_of_lt (by omega : _ < 2 ^ 32)]
  exact Nat.mod_eq_of_lt (by omega)

def mixed (color old : UInt32) : Nat :=
  let alpha := channel color 24
  if alpha = 255 then color.toNat
  else if alpha = 0 then old.toNat
  else
    255 * 2 ^ 24 + (mixChannel (channel color 16) (channel old 16) alpha * 2 ^ 16 +
      (mixChannel (channel color 8) (channel old 8) alpha * 2 ^ 8 +
        mixChannel (channel color 0) (channel old 0) alpha))

theorem alpha_full (color : UInt32) : alphaOf color = 0xFF ↔ channel color 24 = 255 := by
  rw [← UInt8.toNat_inj, alpha_channel]
  rfl

theorem alpha_positive (color : UInt32) : alphaOf color > 0 ↔ channel color 24 ≠ 0 := by
  rw [gt_iff_lt, UInt8.lt_iff_toNat_lt, alpha_channel]
  exact Nat.pos_iff_ne_zero

theorem blend_value (color old : UInt32) : (blend color old).toNat = mixed color old := by
  unfold blend mixed
  simp only [alpha_full, alpha_positive]
  by_cases full : channel color 24 = 255
  · rw [if_pos full, if_pos full]
  · rw [if_neg full, if_neg full]
    by_cases transparent : channel color 24 = 0
    · rw [if_neg (not_not.mpr transparent), if_pos transparent]
    · rw [if_pos transparent, if_neg transparent, rgb_value, blend_channel_value,
        blend_channel_value, blend_channel_value, alpha_channel, red_channel, red_channel,
        green_channel, green_channel, blue_channel, blue_channel]

end FractionsOS.Vbe
