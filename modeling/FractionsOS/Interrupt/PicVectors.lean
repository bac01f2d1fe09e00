import FractionsOS.Interrupt.IsrStub
import FractionsOS.Interrupt.PicRemap

/-!
# The vectors of the IRQs

A controller puts the number of its line below the five bits of its vector base. What
`pic_remap` makes of the sixteen vectors depends on the two offsets only, and the
offsets of the kernel keep them apart from each other and from the exceptions.
-/

namespace FractionsOS.Pic

open Library.PortPrograms Library.WordBytes

set_option autoImplicit false

def Pic8259.vector (pic : Pic8259) (line : UInt8) : UInt8 := pic.base ||| line

/-- IRQs from 8 on are the lines of the slave. -/
def PicPair.vector (state : PicPair) (number : Fin 16) : UInt8 :=
  if number.val < 8 then state.master.vector (UInt8.ofNat number.val)
  else state.slave.vector (UInt8.ofNat (number.val - 8))

def offsetFor (o1 o2 : UInt8) (number : Fin 16) : UInt8 := if number.val < 8 then o1 else o2

theorem high_bits_value (offset : UInt8) : (offset &&& 0xF8).toNat = offset.toNat / 8 * 8 := by
  rw [UInt8.toNat_and]
  exact and_high_bits offset.toNat_lt (by decide : 3 ≤ 8)

theorem line_below_base (offset : UInt8) {line : Nat} (small : line < 8) :
    ((offset &&& 0xF8) ||| UInt8.ofNat line).toNat = offset.toNat / 8 * 8 + line := by
  have value : (UInt8.ofNat line).toNat = line := by
    rw [UInt8.toNat_ofNat']
    omega
  have below : line < 2 ^ 3 := small
  rw [UInt8.toNat_or, high_bits_value, value, ← Nat.shiftLeft_eq (offset.toNat / 8) 3,
    ← Nat.shiftLeft_add_eq_or_of_lt below]

theorem remapped_vector (o1 o2 : UInt8) (state : PicPair) (number : Fin 16) :
    ((remapped o1 o2 state).vector number).toNat =
      (offsetFor o1 o2 number).toNat / 8 * 8 + number.val % 8 := by
  have bound := number.isLt
  unfold PicPair.vector offsetFor
  by_cases master : number.val < 8
  · rw [if_pos master, if_pos master, Nat.mod_eq_of_lt master]
    exact line_below_base o1 master
  · have line : number.val % 8 = number.val - 8 := by omega
    rw [if_neg master, if_neg master, line]
    exact line_below_base o2 (by omega)

def VectorsApart (state : PicPair) : Prop := Function.Injective state.vector

/-- No vector is one of the 32 that exceptions use. -/
def AboveExceptions (state : PicPair) : Prop := ∀ number, 32 ≤ (state.vector number).toNat

theorem vectors_apart_iff (o1 o2 : UInt8) (state : PicPair) :
    VectorsApart (remapped o1 o2 state) ↔ o1.toNat / 8 ≠ o2.toNat / 8 := by
  constructor
  · intro apart same
    have shared : (remapped o1 o2 state).vector 0 = (remapped o1 o2 state).vector 8 := by
      apply UInt8.toNat_inj.mp
      rw [remapped_vector, remapped_vector]
      change o1.toNat / 8 * 8 + 0 = o2.toNat / 8 * 8 + 0
      rw [same]
    exact absurd (apart shared) (by decide)
  · intro different left right shared
    have values := congrArg UInt8.toNat shared
    rw [remapped_vector, remapped_vector] at values
    have leftBound := left.isLt
    have rightBound := right.isLt
    apply Fin.ext
    unfold offsetFor at values
    split_ifs at values
    all_goals omega

theorem above_exceptions_iff (o1 o2 : UInt8) (state : PicPair) :
    AboveExceptions (remapped o1 o2 state) ↔ 32 ≤ o1.toNat ∧ 32 ≤ o2.toNat := by
  constructor
  · intro above
    have first := above 0
    have eighth := above 8
    rw [remapped_vector] at first eighth
    change 32 ≤ o1.toNat / 8 * 8 + 0 at first
    change 32 ≤ o2.toNat / 8 * 8 + 0 at eighth
    omega
  · rintro ⟨master, slave⟩ number
    rw [remapped_vector]
    unfold offsetFor
    split_ifs
    all_goals omega

/-- From every state of the controllers, `pic_remap` leaves sixteen different vectors if
and only if its offsets differ in their five high bits, and vectors that no exception
uses if and only if both are 32 or more. Then no IRQ enters through a vector that has an
error code. -/
theorem remap_vectors (o1 o2 : UInt8) (state : PicPair) :
    ∃ outcome, Returns picPair (picRemap o1 o2) state outcome ∧
      (VectorsApart outcome.state ↔ o1.toNat / 8 ≠ o2.toNat / 8) ∧
      (AboveExceptions outcome.state ↔ 32 ≤ o1.toNat ∧ 32 ≤ o2.toNat) ∧
      (32 ≤ o1.toNat ∧ 32 ≤ o2.toNat →
        ∀ number, ¬Isr.HasErrorCode (outcome.state.vector number)) := by
  rcases remap_returns o1 o2 state with ⟨trace, returned⟩
  refine ⟨_, returned, vectors_apart_iff o1 o2 state, above_exceptions_iff o1 o2 state, ?_⟩
  intro high number coded
  have above := (above_exceptions_iff o1 o2 state).mpr high number
  have exceptions : (Isr.errorCodeVectors.all fun vector => vector.toNat < 32) = true := by decide
  have below := of_decide_eq_true (List.all_eq_true.mp exceptions _ coded)
  exact absurd below (Nat.not_lt_of_le above)

example (state : PicPair) : VectorsApart (remapped 32 40 state) :=
  (vectors_apart_iff 32 40 state).mpr (by decide)

end FractionsOS.Pic
