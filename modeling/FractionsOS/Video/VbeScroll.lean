import FractionsOS.Video.VbePixels

/-!
# Scrolling

`vbe_scroll` counts the pixel rows it moves in 32 bits. Where that count wraps it
moves too few rows, which shows unless the rows it moves are black.
-/

namespace FractionsOS.Vbe

open Library TracedMemory

set_option autoImplicit false

/-- The rows move up by the product of lines and font height in 32 bits. -/
theorem scroll_pixel (state : VbeState) (fits : SizeFits state.width state.height)
    (lines x y : UInt32) (onScreen : OnScreen state x y) :
    pixelAt (vbeScroll state lines) x y =
      if y.toNat + (lines * state.fontHeight).toNat < state.height.toNat then
        state.backbuffer.cells
          ((y.toNat + (lines * state.fontHeight).toNat) * state.width.toNat + x.toNat)
      else 0 := by
  have inside := cell_inside onScreen.1 onScreen.2
  unfold vbeScroll
  generalize lines * state.fontHeight = scrollPixels
  by_cases cleared : scrollPixels ≥ state.height
  · have gone := UInt32.le_iff_toNat_le.mp cleared
    rw [if_pos cleared, if_neg (by omega)]
    unfold pixelAt
    rw [clear_cells, pixel_count_value fits]
    exact if_pos inside
  · have part := UInt32.not_le.mp cleared
    have partRows := UInt32.lt_iff_toNat_lt.mp part
    have column := UInt32.lt_iff_toNat_lt.mp onScreen.1
    have row := UInt32.lt_iff_toNat_lt.mp onScreen.2
    have parts := @scroll_rows state.width state.height scrollPixels part
    rcases scroll_sizes fits part with ⟨scrolledCells, keptCells, scrolledBytes, keptBytes⟩
    rw [if_neg cleared]
    simp only [pixelAt, scrolledCells, keptCells, scrolledBytes, keptBytes]
    rw [fill_cells, move_cells]
    by_cases kept : y.toNat + scrollPixels.toNat < state.height.toNat
    · have above : (y.toNat + 1) * state.width.toNat ≤
          (state.height.toNat - scrollPixels.toNat) * state.width.toNat :=
        Nat.mul_le_mul_right _ (by omega)
      rw [Nat.add_mul, Nat.one_mul] at above
      have source : scrollPixels.toNat * state.width.toNat +
          (y.toNat * state.width.toNat + x.toNat - 0) =
            (y.toNat + scrollPixels.toNat) * state.width.toNat + x.toNat := by
        rw [Nat.add_mul]
        omega
      rw [if_neg (by omega), if_pos (by omega), if_pos kept, source]
    · have below : (state.height.toNat - scrollPixels.toNat) * state.width.toNat ≤
          y.toNat * state.width.toNat := Nat.mul_le_mul_right _ (by omega)
      rw [if_pos (by omega), if_neg kept]

/-- The pixel shown at each place is the one so many lines below it, the picture being
black behind its last row. -/
def ScrollsLines (state : VbeState) (lines : UInt32) : Prop :=
  ∀ x y, OnScreen state x y →
    pixelAt (vbeScroll state lines) x y =
      if y.toNat + lines.toNat * state.fontHeight.toNat < state.height.toNat then
        state.backbuffer.cells
          ((y.toNat + lines.toNat * state.fontHeight.toNat) * state.width.toNat + x.toNat)
      else 0

section Rows

variable {state : VbeState} {x y count : UInt32} (onScreen : OnScreen state x y)

include onScreen

theorem row_above (enough : count.toNat ≤ y.toNat) :
    OnScreen state x (y - count) ∧ (y - count).toNat = y.toNat - count.toNat := by
  have row := UInt32.lt_iff_toNat_lt.mp onScreen.2
  have value : (y - count).toNat = y.toNat - count.toNat :=
    UInt32.toNat_sub_of_le _ _ (UInt32.le_iff_toNat_le.mpr enough)
  refine ⟨⟨onScreen.1, UInt32.lt_iff_toNat_lt.mpr ?_⟩, value⟩
  omega

theorem row_below (kept : y.toNat + count.toNat < state.height.toNat) :
    OnScreen state x (y + count) ∧ (y + count).toNat = y.toNat + count.toNat := by
  have height := state.height.toNat_lt
  have value : (y + count).toNat = y.toNat + count.toNat := by
    rw [UInt32.toNat_add]
    exact Nat.mod_eq_of_lt (by omega)
  refine ⟨⟨onScreen.1, UInt32.lt_iff_toNat_lt.mpr ?_⟩, value⟩
  omega

end Rows

/-- A scroll is by whole lines exactly when its row count fits 32 bits, or the wrapped
count is at least the height, or all that it moves is black. -/
theorem scrolls_lines_iff (state : VbeState) (fits : SizeFits state.width state.height)
    (lines : UInt32) :
    ScrollsLines state lines ↔
      lines.toNat * state.fontHeight.toNat < 2 ^ 32 ∨
        state.height.toNat ≤ lines.toNat * state.fontHeight.toNat % 2 ^ 32 ∨
        ∀ x y, OnScreen state x y →
          lines.toNat * state.fontHeight.toNat % 2 ^ 32 ≤ y.toNat → pixelAt state x y = 0 := by
  have product : (lines * state.fontHeight).toNat =
      lines.toNat * state.fontHeight.toNat % 2 ^ 32 := UInt32.toNat_mul _ _
  have height := state.height.toNat_lt
  unfold ScrollsLines
  generalize lines.toNat * state.fontHeight.toNat = rows at product
  by_cases narrow : rows < 2 ^ 32
  · rw [Nat.mod_eq_of_lt narrow] at product
    refine iff_of_true ?_ (Or.inl narrow)
    intro x y onScreen
    rw [scroll_pixel state fits lines x y onScreen, product]
  · rw [← product]
    constructor
    · intro scrolls
      right
      by_cases gone : state.height.toNat ≤ (lines * state.fontHeight).toNat
      · exact Or.inl gone
      · right
        intro x y onScreen moved
        have row := UInt32.lt_iff_toNat_lt.mp onScreen.2
        -- the place that the wrapped count moves the pixel to
        obtain ⟨target, value⟩ := row_above onScreen moved
        have shown := scrolls x (y - lines * state.fontHeight) target
        rw [scroll_pixel state fits lines _ _ target, value, if_pos (by omega),
          if_neg (by omega), Nat.sub_add_cancel moved] at shown
        exact shown
    · intro condition x y onScreen
      rw [scroll_pixel state fits lines x y onScreen, if_neg (by omega : ¬y.toNat + rows < _)]
      by_cases kept : y.toNat + (lines * state.fontHeight).toNat < state.height.toNat
      · rw [if_pos kept]
        rcases condition with fitting | gone | black
        · exact absurd fitting narrow
        · omega
        · obtain ⟨source, value⟩ := row_below onScreen kept
          have shown := black x (y + lines * state.fontHeight) source (by omega)
          rw [pixelAt, value] at shown
          exact shown
      · rw [if_neg kept]

theorem scrolls_one_line : ScrollsLines (vbeInit (fun _ => 0) (fun _ => 0) [] 4 32 32) 1 := by
  have fits : SizeFits 4 32 := by
    unfold SizeFits
    decide
  exact (scrolls_lines_iff (vbeInit (fun _ => 0) (fun _ => 0) [] 4 32 32) fits 1).mpr
    (Or.inl (by decide))

/-- 2^28 lines of 16 rows are 2^32 rows, and none is moved. -/
theorem scroll_leaves_screen :
    ¬ScrollsLines (run (vbeInit (fun _ => 0) (fun _ => 0) [] 1 1 32) [.clear 0xFFFFFFFF])
      0x10000000 := by
  intro scrolls
  exact absurd (scrolls 0 0 (by decide)) (by decide +kernel)

end FractionsOS.Vbe
