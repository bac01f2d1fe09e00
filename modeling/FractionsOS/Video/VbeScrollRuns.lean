import FractionsOS.Video.VbeScroll
import Mathlib.Algebra.GroupWithZero.Nat

/-!
# Scrolling again and again

Scrolls one after the other move the picture by the sum of their row counts, each count
cut to 32 bits and the sum not. One scroll of all the lines cuts the sum as well.
-/

namespace FractionsOS.Vbe

open Library TracedMemory

set_option autoImplicit false

def scrolledRows (fontHeight : UInt32) (counts : List UInt32) : Nat :=
  (counts.map fun lines => (lines * fontHeight).toNat).sum

def joinedLines : List UInt32 → UInt32
  | [] => 0
  | lines :: counts => lines + joinedLines counts

def movedUp (state : VbeState) (rows : Nat) (x y : UInt32) : UInt32 :=
  if y.toNat + rows < state.height.toNat then
    state.backbuffer.cells ((y.toNat + rows) * state.width.toNat + x.toNat)
  else 0

def scrollAll (state : VbeState) (counts : List UInt32) : VbeState :=
  run state (counts.map VbeCall.scroll)

section Scrolls

variable {state : VbeState} (fits : SizeFits state.width state.height)

include fits

theorem moved_up_scrolled (lines : UInt32) {rows : Nat} {x y : UInt32}
    (onScreen : OnScreen state x y) :
    movedUp (vbeScroll state lines) rows x y =
      movedUp state ((lines * state.fontHeight).toNat + rows) x y := by
  rcases scroll_frame state lines with ⟨backbuffer, scrolled⟩
  have sameHeight : (vbeScroll state lines).height = state.height := by
    rw [scrolled]
  have sameWidth : (vbeScroll state lines).width = state.width := by
    rw [scrolled]
  unfold movedUp
  rw [sameHeight, sameWidth]
  by_cases kept : y.toNat + rows < state.height.toNat
  · have few : rows < state.height.toNat := by omega
    have value : (UInt32.ofNat rows).toNat = rows :=
      UInt32.toNat_ofNat_of_lt' (few.trans state.height.toNat_lt)
    rw [← value] at kept ⊢
    rcases row_below onScreen kept with ⟨below, place⟩
    have pixel := scroll_pixel state fits lines x (y + UInt32.ofNat rows) below
    unfold pixelAt at pixel
    rw [sameWidth, place, Nat.add_assoc, Nat.add_comm (UInt32.ofNat rows).toNat] at pixel
    rw [if_pos kept]
    exact pixel
  · rw [if_neg kept, if_neg (by omega)]

theorem scroll_all_pixel (counts : List UInt32) {x y : UInt32} (onScreen : OnScreen state x y) :
    pixelAt (scrollAll state counts) x y =
      movedUp state (scrolledRows state.fontHeight counts) x y := by
  induction counts generalizing state with
  | nil =>
      have row := UInt32.lt_iff_toNat_lt.mp onScreen.2
      exact (if_pos row).symm
  | cons lines counts induction =>
      have moved := @moved_up_scrolled state fits lines (scrolledRows state.fontHeight counts) x y
        onScreen
      have rest : pixelAt (scrollAll (vbeScroll state lines) counts) x y =
          movedUp (vbeScroll state lines) (scrolledRows state.fontHeight counts) x y := by
        rcases scroll_frame state lines with ⟨backbuffer, scrolled⟩
        rw [scrolled]
        exact @induction { state with backbuffer } fits onScreen
      exact rest.trans moved

omit fits in
theorem summed_rows (fontHeight : UInt32) (counts : List UInt32) :
    (joinedLines counts * fontHeight).toNat = scrolledRows fontHeight counts % 2 ^ 32 := by
  induction counts with
  | nil =>
      change (0 * fontHeight).toNat = 0 % 2 ^ 32
      rw [UInt32.zero_mul]
      rfl
  | cons lines counts induction =>
      have rows : scrolledRows fontHeight (lines :: counts) =
          (lines * fontHeight).toNat + scrolledRows fontHeight counts := rfl
      rw [joinedLines, UInt32.add_mul, UInt32.toNat_add, induction, rows, Nat.add_mod_mod]

theorem single_scroll_pixel (counts : List UInt32) {x y : UInt32}
    (onScreen : OnScreen state x y) :
    pixelAt (vbeScroll state (joinedLines counts)) x y =
      movedUp state (scrolledRows state.fontHeight counts % 2 ^ 32) x y := by
  rw [scroll_pixel state fits _ _ _ onScreen, summed_rows]
  rfl

/-- The picture after the scrolls is the one after a single scroll of all their lines. -/
def ScrollsJoin (state : VbeState) (counts : List UInt32) : Prop :=
  ∀ x y, OnScreen state x y →
    pixelAt (scrollAll state counts) x y = pixelAt (vbeScroll state (joinedLines counts)) x y

theorem scrolls_join (counts : List UInt32)
    (condition : scrolledRows state.fontHeight counts < 2 ^ 32 ∨
      state.height.toNat ≤ scrolledRows state.fontHeight counts % 2 ^ 32) :
    ScrollsJoin state counts := by
  intro x y onScreen
  rw [scroll_all_pixel fits counts onScreen, single_scroll_pixel fits counts onScreen]
  rcases condition with small | gone
  · rw [Nat.mod_eq_of_lt small]
  · have more := Nat.mod_le (scrolledRows state.fontHeight counts) (2 ^ 32)
    unfold movedUp
    rw [if_neg (by omega), if_neg (by omega)]

end Scrolls

def filled (state : VbeState) (color : UInt32) : VbeState :=
  { state with backbuffer := { cells := fun _ => color, trace := [] } }

/-- In a mode with pixels, scrolls may be joined into one for every picture if and only if
their rows together fit 32 bits, or what is left of them when cut is at least the height. -/
theorem scrolls_join_iff (state : VbeState) (fits : SizeFits state.width state.height)
    (wide : 0 < state.width) (high : 0 < state.height) (counts : List UInt32) :
    (∀ backbuffer, ScrollsJoin { state with backbuffer } counts) ↔
      scrolledRows state.fontHeight counts < 2 ^ 32 ∨
        state.height.toNat ≤ scrolledRows state.fontHeight counts % 2 ^ 32 := by
  have height := state.height.toNat_lt
  constructor
  · intro joins
    by_contra! otherwise
    rcases otherwise with ⟨large, left⟩
    have corner : OnScreen (filled state 1) 0 0 := ⟨wide, high⟩
    have same : pixelAt (scrollAll (filled state 1) counts) 0 0 =
        pixelAt (vbeScroll (filled state 1) (joinedLines counts)) 0 0 := joins _ 0 0 corner
    rw [@scroll_all_pixel (filled state 1) fits counts 0 0 corner,
      @single_scroll_pixel (filled state 1) fits counts 0 0 corner] at same
    -- Moved by all the rows the picture is black, moved by those left it is not.
    have gone : ¬(0 : UInt32).toNat + scrolledRows state.fontHeight counts <
        state.height.toNat := by
      omega
    have kept : (0 : UInt32).toNat + scrolledRows state.fontHeight counts % 2 ^ 32 <
        state.height.toNat := by
      change 0 + _ < _
      omega
    have black : movedUp (filled state 1) (scrolledRows state.fontHeight counts) 0 0 = 0 :=
      if_neg gone
    have white : movedUp (filled state 1) (scrolledRows state.fontHeight counts % 2 ^ 32) 0 0 =
        1 := if_pos kept
    exact absurd (black.symm.trans (same.trans white)) (by decide)
  · intro condition backbuffer
    exact @scrolls_join { state with backbuffer } fits counts condition

theorem scrolls_join_lines :
    let state := vbeInit (fun _ => 0) (fun _ => 0) [] 4 64 32
    (∀ backbuffer, ScrollsJoin { state with backbuffer } [1, 2]) ↔
      scrolledRows state.fontHeight [1, 2] < 2 ^ 32 ∨
        state.height.toNat ≤ scrolledRows state.fontHeight [1, 2] % 2 ^ 32 := by
  apply scrolls_join_iff (vbeInit (fun _ => 0) (fun _ => 0) [] 4 64 32)
  · unfold SizeFits
    decide
  · decide
  · decide

end FractionsOS.Vbe
