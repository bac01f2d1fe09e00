import FractionsOS.Video.VbeDrawing

/-!
# What the display shows

A Bochs VBE display scans the framebuffer by the values in its own registers,
which `vbe_init` sends through a 16-bit port. `vbe_swap_buffers` copies four bytes
a pixel, whatever those registers hold.
-/

namespace FractionsOS.Vbe

open Library Library.Raster

set_option autoImplicit false

/-- The selected register and the registers that the scan reads. -/
structure BochsDisplay where
  index : UInt16
  xres : UInt16
  yres : UInt16
  bpp : UInt16

def BochsDisplay.write (display : BochsDisplay) (written : UInt16 × UInt16) : BochsDisplay :=
  if written.1 = vbeDispiIoportIndex then { display with index := written.2 }
  else if written.1 = vbeDispiIoportData then
    if display.index = vbeDispiIndexXres then { display with xres := written.2 }
    else if display.index = vbeDispiIndexYres then { display with yres := written.2 }
    else if display.index = vbeDispiIndexBpp then { display with bpp := written.2 }
    else display
  else display

def BochsDisplay.after (display : BochsDisplay) (ports : List (UInt16 × UInt16)) : BochsDisplay :=
  ports.foldl BochsDisplay.write display

def framebufferByte (framebuffer : Nat → UInt32) (offset : Nat) : Nat :=
  channel (framebuffer (offset / 4)) (8 * (offset % 4))

/-- Red, green and blue at a pixel, or nothing where the scan does not come. -/
def BochsDisplay.shown (display : BochsDisplay) (framebuffer : Nat → UInt32) (x y : UInt32) :
    Option (Nat × Nat × Nat) :=
  if x.toNat < display.xres.toNat ∧ y.toNat < display.yres.toNat then
    let offset := (y.toNat * display.xres.toNat + x.toNat) * display.bpp.toNat / 8
    some (framebufferByte framebuffer (offset + 2), framebufferByte framebuffer (offset + 1),
      framebufferByte framebuffer offset)
  else none

/-- Every pixel of the mode is shown in the colours of its back buffer cell. -/
def ShowsBackbuffer (display : BochsDisplay) (state : VbeState) : Prop :=
  ∀ x y, OnScreen state x y →
    (display.after state.ports).shown state.framebuffer x y =
      some (channel (pixelAt state x y) 16, channel (pixelAt state x y) 8,
        channel (pixelAt state x y) 0)

/-- The registers that `vbe_init` leaves, sizes cut to 16 bits. -/
def modeRegisters (width height : UInt32) (bpp : UInt8) : BochsDisplay :=
  ⟨vbeDispiIndexEnable, width.toUInt16, height.toUInt16, bpp.toUInt16⟩

theorem registers_after_init (display : BochsDisplay) (allocated framebuffer : Nat → UInt32)
    (ports : List (UInt16 × UInt16)) (width height : UInt32) (bpp : UInt8) :
    display.after (vbeInit allocated framebuffer ports width height bpp).ports =
      modeRegisters width height bpp := by
  unfold BochsDisplay.after vbeInit vbeWrite
  simp only [List.append_assoc, List.foldl_append]
  generalize ports.foldl BochsDisplay.write display = before
  rfl

theorem swapped_byte {state : VbeState} (fits : SizeFits state.width state.height) {cell : Nat}
    (inside : cell < state.width.toNat * state.height.toNat) {part : Nat} (small : part < 4) :
    framebufferByte (vbeSwapBuffers state).framebuffer (4 * cell + part) =
      channel (state.backbuffer.cells cell) (8 * part) := by
  have count : (state.width * state.height * 4).toNat / 4 =
      state.width.toNat * state.height.toNat := by
    rw [byte_count_value fits]
    exact Nat.mul_div_cancel _ (by decide)
  have word : (4 * cell + part) / 4 = cell := by omega
  have place : (4 * cell + part) % 4 = part := by omega
  unfold framebufferByte vbeSwapBuffers
  simp only [word, place, count]
  rw [if_pos inside]

/-- The display shows what a mode's pixels hold after any drawing, as far as its scan
with the mode's registers goes. -/
theorem shows_after_swap_iff (display : BochsDisplay) (allocated framebuffer : Nat → UInt32)
    (ports : List (UInt16 × UInt16)) (width height : UInt32) (bpp : UInt8)
    (calls : List VbeCall) :
    ∃ drawn : VbeState, run (vbeInit allocated framebuffer ports width height bpp) calls = drawn ∧
      drawn.width = width ∧ drawn.height = height ∧
      (ShowsBackbuffer display (vbeSwapBuffers drawn) ↔
        ∀ x y, OnScreen drawn x y →
          (modeRegisters width height bpp).shown (vbeSwapBuffers drawn).framebuffer x y =
            some (channel (pixelAt drawn x y) 16, channel (pixelAt drawn x y) 8,
              channel (pixelAt drawn x y) 0)) := by
  rcases run_frame (vbeInit allocated framebuffer ports width height bpp) calls with
    ⟨backbuffer, copied, same⟩
  refine ⟨_, same, rfl, rfl, ?_⟩
  rw [← registers_after_init display allocated framebuffer ports width height bpp]
  exact Iff.rfl

theorem shown_inside {width height : UInt32} {bpp : UInt8} {framebuffer : Nat → UInt32}
    {x y : UInt32} (column : x.toNat < width.toNat % 65536) (row : y.toNat < height.toNat % 65536)
    {offset : Nat}
    (place : (y.toNat * (width.toNat % 65536) + x.toNat) * bpp.toNat / 8 = offset) :
    (modeRegisters width height bpp).shown framebuffer x y =
      some (framebufferByte framebuffer (offset + 2), framebufferByte framebuffer (offset + 1),
        framebufferByte framebuffer offset) := by
  subst place
  exact if_pos ⟨column, row⟩

theorem shown_outside {width height : UInt32} {bpp : UInt8} {framebuffer : Nat → UInt32}
    {x y : UInt32} (outside : ¬(x.toNat < width.toNat % 65536 ∧ y.toNat < height.toNat % 65536)) :
    (modeRegisters width height bpp).shown framebuffer x y = none :=
  if_neg outside

/-- A size that the registers cut leaves a row or column without a scan. -/
theorem sizes_fit_registers {width height : UInt32} {bpp : UInt8} {framebuffer : Nat → UInt32}
    (wide : 0 < width.toNat) (high : 0 < height.toNat)
    (scanned : ∀ x y : UInt32, x < width → y < height →
      (modeRegisters width height bpp).shown framebuffer x y ≠ none) :
    width.toNat < 65536 ∧ height.toNat < 65536 := by
  have zero : (0 : UInt32).toNat = 0 := rfl
  constructor
  · by_contra cut
    have column : width.toNat % 65536 < width.toNat := by omega
    have value : (UInt32.ofNat (width.toNat % 65536)).toNat = width.toNat % 65536 :=
      UInt32.toNat_ofNat_of_lt' (column.trans width.toNat_lt)
    apply scanned (UInt32.ofNat (width.toNat % 65536)) 0
    · rw [UInt32.lt_iff_toNat_lt, value]
      exact column
    · rw [UInt32.lt_iff_toNat_lt]
      exact high
    · apply shown_outside
      rw [value]
      omega
  · by_contra cut
    have row : height.toNat % 65536 < height.toNat := by omega
    have value : (UInt32.ofNat (height.toNat % 65536)).toNat = height.toNat % 65536 :=
      UInt32.toNat_ofNat_of_lt' (row.trans height.toNat_lt)
    apply scanned 0 (UInt32.ofNat (height.toNat % 65536))
    · rw [UInt32.lt_iff_toNat_lt]
      exact wide
    · rw [UInt32.lt_iff_toNat_lt, value]
      exact row
    · apply shown_outside
      rw [value]
      omega

theorem second_pixel {width height : UInt32} (wide : 0 < width.toNat) (high : 0 < height.toNat)
    (several : ¬(width = 1 ∧ height = 1)) :
    ∃ x y : UInt32, x < width ∧ y < height ∧ y.toNat * width.toNat + x.toNat = 1 := by
  by_cases column : width = 1
  · have row : height.toNat ≠ 1 := fun one => several ⟨column, UInt32.toNat_inj.mp one⟩
    subst column
    refine ⟨0, 1, by decide, ?_, rfl⟩
    rw [UInt32.lt_iff_toNat_lt]
    change 1 < height.toNat
    omega
  · have columns : width.toNat ≠ 1 := fun one => column (UInt32.toNat_inj.mp one)
    refine ⟨1, 0, ?_, UInt32.lt_iff_toNat_lt.mpr high, ?_⟩
    · rw [UInt32.lt_iff_toNat_lt]
      change 1 < width.toNat
      omega
    · change 0 * width.toNat + 1 = 1
      rw [Nat.zero_mul]

section Modes

variable {drawn : VbeState} (fits : SizeFits drawn.width drawn.height)

include fits

theorem shown_at_cell {bpp : UInt8} {x y : UInt32} (onScreen : OnScreen drawn x y)
    (columns : drawn.width.toNat < 65536) (rows : drawn.height.toNat < 65536)
    (place : (y.toNat * drawn.width.toNat + x.toNat) * bpp.toNat / 8 =
      4 * (y.toNat * drawn.width.toNat + x.toNat)) :
    (modeRegisters drawn.width drawn.height bpp).shown (vbeSwapBuffers drawn).framebuffer x y =
      some (channel (pixelAt drawn x y) 16, channel (pixelAt drawn x y) 8,
        channel (pixelAt drawn x y) 0) := by
  have column := UInt32.lt_iff_toNat_lt.mp onScreen.1
  have row := UInt32.lt_iff_toNat_lt.mp onScreen.2
  have inside := cell_inside onScreen.1 onScreen.2
  have red := swapped_byte fits inside (by decide : 2 < 4)
  have green := swapped_byte fits inside (by decide : 1 < 4)
  have blue := swapped_byte fits inside (by decide : 0 < 4)
  rw [← Nat.mod_eq_of_lt columns] at column place
  rw [← Nat.mod_eq_of_lt rows] at row
  rw [shown_inside column row place, Nat.mod_eq_of_lt columns, red, green]
  exact congrArg some (congrArg₂ Prod.mk rfl (congrArg₂ Prod.mk rfl blue))

/-- With three bytes a pixel, the second pixel of the picture starts at the alpha
of the first. -/
theorem second_pixel_blue {x y : UInt32} (onScreen : OnScreen drawn x y)
    (columns : drawn.width.toNat < 65536) (rows : drawn.height.toNat < 65536)
    (second : y.toNat * drawn.width.toNat + x.toNat = 1)
    (shown : (modeRegisters drawn.width drawn.height 24).shown (vbeSwapBuffers drawn).framebuffer
      x y = some (channel (pixelAt drawn x y) 16, channel (pixelAt drawn x y) 8,
        channel (pixelAt drawn x y) 0)) :
    channel (drawn.backbuffer.cells 1) 0 = channel (drawn.backbuffer.cells 0) 24 := by
  have column := UInt32.lt_iff_toNat_lt.mp onScreen.1
  have row := UInt32.lt_iff_toNat_lt.mp onScreen.2
  have inside := cell_inside onScreen.1 onScreen.2
  have first := swapped_byte fits (by omega : 0 < _) (by decide : 3 < 4)
  have place : (y.toNat * (drawn.width.toNat % 65536) + x.toNat) * (24 : UInt8).toNat / 8 = 3 := by
    rw [Nat.mod_eq_of_lt columns, second]
    rfl
  rw [← Nat.mod_eq_of_lt columns] at column
  rw [← Nat.mod_eq_of_lt rows] at row
  rw [shown_inside column row place] at shown
  have blue := (Prod.mk.inj (Prod.mk.inj (Option.some.inj shown)).2).2
  rw [pixelAt, second] at blue
  exact blue.symm.trans first

theorem shown_in_mode {bpp : UInt8} {x y : UInt32} (onScreen : OnScreen drawn x y)
    (mode : (bpp = 32 ∧ drawn.width.toNat < 65536 ∧ drawn.height.toNat < 65536) ∨
      (drawn.width = 1 ∧ drawn.height = 1)) :
    (modeRegisters drawn.width drawn.height bpp).shown (vbeSwapBuffers drawn).framebuffer x y =
      some (channel (pixelAt drawn x y) 16, channel (pixelAt drawn x y) 8,
        channel (pixelAt drawn x y) 0) := by
  rcases mode with ⟨rfl, columns, rows⟩ | ⟨one, single⟩
  · apply shown_at_cell fits onScreen columns rows
    change _ * 32 / 8 = _
    omega
  · have column := UInt32.lt_iff_toNat_lt.mp onScreen.1
    have row := UInt32.lt_iff_toNat_lt.mp onScreen.2
    rw [one] at column
    rw [single] at row
    apply shown_at_cell fits onScreen
    · rw [one]
      decide
    · rw [single]
      decide
    · rw [one, Nat.lt_one_iff.mp column, Nat.lt_one_iff.mp row]
      rw [Nat.zero_mul, Nat.zero_add, Nat.zero_mul]

theorem black_not_shown (columns : drawn.width.toNat < 65536) (rows : drawn.height.toNat < 65536)
    {x y : UInt32} (onScreen : OnScreen drawn x y)
    (second : y.toNat * drawn.width.toNat + x.toNat = 1)
    (black : ∀ cell, cell < drawn.width.toNat * drawn.height.toNat →
      drawn.backbuffer.cells cell = 0xFF000000) :
    (modeRegisters drawn.width drawn.height 24).shown (vbeSwapBuffers drawn).framebuffer x y ≠
      some (channel (pixelAt drawn x y) 16, channel (pixelAt drawn x y) 8,
        channel (pixelAt drawn x y) 0) := by
  intro shown
  have blue := second_pixel_blue fits onScreen columns rows second shown
  have inside := cell_inside onScreen.1 onScreen.2
  rw [black 0 (by omega), black 1 (by omega)] at blue
  exact absurd blue (by decide)

end Modes

/-- What is drawn is shown exactly in modes of 32 bits whose sizes fit the registers,
and where there is at most one pixel. -/
theorem backbuffer_shown_iff (display : BochsDisplay) (allocated framebuffer : Nat → UInt32)
    (ports : List (UInt16 × UInt16)) (width height : UInt32) (bpp : UInt8)
    (depth : bpp = 24 ∨ bpp = 32) (fits : SizeFits width height) :
    (∀ calls, ShowsBackbuffer display
        (vbeSwapBuffers (run (vbeInit allocated framebuffer ports width height bpp) calls))) ↔
      width = 0 ∨ height = 0 ∨
        (bpp = 32 ∧ width.toNat < 65536 ∧ height.toNat < 65536) ∨ (width = 1 ∧ height = 1) := by
  constructor
  · intro shows
    by_contra otherwise
    simp only [not_or, not_and] at otherwise
    rcases otherwise with ⟨wide, high, deep, several⟩
    have widePositive : 0 < width.toNat :=
      Nat.pos_of_ne_zero fun zero => wide (UInt32.toNat_inj.mp zero)
    have highPositive : 0 < height.toNat :=
      Nat.pos_of_ne_zero fun zero => high (UInt32.toNat_inj.mp zero)
    have cleared := shows [.clear 0xFF000000]
    rcases shows_after_swap_iff display allocated framebuffer ports width height bpp
      [.clear 0xFF000000] with ⟨drawn, same, rfl, rfl, shown⟩
    rw [same, shown] at cleared
    have sizes := sizes_fit_registers widePositive highPositive fun x y column row => by
      rw [cleared x y ⟨column, row⟩]
      exact Option.some_ne_none _
    rcases depth with rfl | rfl
    · rcases second_pixel widePositive highPositive (not_and.mpr several) with
        ⟨x, y, column, row, second⟩
      refine black_not_shown fits sizes.1 sizes.2 ⟨column, row⟩ second ?_ (cleared x y ⟨column, row⟩)
      intro cell inside
      rw [← same]
      change (vbeClear _ 0xFF000000).backbuffer.cells cell = _
      rw [clear_cells, if_pos]
      change cell < (drawn.width * drawn.height).toNat
      rw [pixel_count_value fits]
      exact inside
    · exact deep rfl sizes.1 sizes.2
  · rintro condition calls
    rcases shows_after_swap_iff display allocated framebuffer ports width height bpp calls with
      ⟨drawn, same, rfl, rfl, shown⟩
    rw [same, shown]
    intro x y onScreen
    have column := UInt32.lt_iff_toNat_lt.mp onScreen.1
    have row := UInt32.lt_iff_toNat_lt.mp onScreen.2
    rcases condition with empty | empty | mode
    · rw [empty] at column
      exact absurd column (Nat.not_lt_zero _)
    · rw [empty] at row
      exact absurd row (Nat.not_lt_zero _)
    · exact shown_in_mode fits onScreen mode

theorem backbuffer_shown_wide :
    ShowsBackbuffer ⟨0, 0, 0, 0⟩ (vbeSwapBuffers (run (vbeInit (fun _ => 0) (fun _ => 0) [] 4 3 32)
      [.drawPixel 1 1 0x80402010])) := by
  have fits : SizeFits 4 3 := by
    unfold SizeFits
    decide
  exact (backbuffer_shown_iff ⟨0, 0, 0, 0⟩ (fun _ => 0) (fun _ => 0) [] 4 3 32 (Or.inr rfl)
    fits).mpr (Or.inr (Or.inr (Or.inl (by decide)))) [.drawPixel 1 1 0x80402010]

/-- With 24 bits the second of two black pixels shows the alpha of the first as blue. -/
theorem black_shown_blue :
    ¬ShowsBackbuffer ⟨0, 0, 0, 0⟩ (vbeSwapBuffers
      (run (vbeInit (fun _ => 0) (fun _ => 0) [] 2 1 24) [.clear 0xFF000000])) := by
  intro shows
  exact absurd (shows 1 0 (by decide)) (by decide +kernel)

end FractionsOS.Vbe
