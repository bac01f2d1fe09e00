import FractionsOS.Video.VbeDisplay

/-!
# Frames

Only `vbe_swap_buffers` writes to the framebuffer. In a whole run the display therefore
shows finished pictures only: the back buffer as it was at the last swap, whatever was
drawn, cleared or scrolled since.
-/

namespace FractionsOS.Vbe

open Library

set_option autoImplicit false

theorem step_framebuffer (state : VbeState) {call : VbeCall} (drawing : call ≠ .swapBuffers) :
    (step state call).framebuffer = state.framebuffer := by
  cases call with
  | drawPixel x y color =>
      rcases draw_pixel_frame state x y color with ⟨backbuffer, drawn⟩
      rw [step, drawn]
  | drawBitmap x y width height bitmap =>
      rcases draw_pixels_frame state (bitmapPixels state x y width height bitmap) with
        ⟨backbuffer, drawn⟩
      rw [step, vbeDrawBitmap, drawn]
  | drawChar c x y fg bg =>
      rcases draw_pixels_frame state (charPixels state c x y fg bg) with ⟨backbuffer, drawn⟩
      rw [step, vbeDrawChar, drawn]
  | drawString str x y fg bg =>
      rcases draw_string_frame state str x y fg bg with ⟨backbuffer, drawn⟩
      rw [step, drawn]
  | clear color => rfl
  | scroll lines =>
      rcases scroll_frame state lines with ⟨backbuffer, scrolled⟩
      rw [step, scrolled]
  | swapBuffers => exact absurd rfl drawing

theorem run_framebuffer (state : VbeState) {calls : List VbeCall}
    (drawing : VbeCall.swapBuffers ∉ calls) :
    (run state calls).framebuffer = state.framebuffer := by
  induction calls generalizing state with
  | nil => rfl
  | cons call calls induction =>
      rw [List.mem_cons, not_or] at drawing
      have first := step_framebuffer state (Ne.symm drawing.1)
      exact (induction (step state call) drawing.2).trans first

theorem run_append (state : VbeState) (first second : List VbeCall) :
    run state (first ++ second) = run (run state first) second := List.foldl_append

theorem framebuffer_since_swap (state : VbeState) (earlier : List VbeCall) {later : List VbeCall}
    (drawing : VbeCall.swapBuffers ∉ later) :
    (run state (earlier ++ .swapBuffers :: later)).framebuffer =
      (vbeSwapBuffers (run state earlier)).framebuffer := by
  rw [run_append]
  exact run_framebuffer (vbeSwapBuffers (run state earlier)) drawing

def AtLastSwap (calls earlier : List VbeCall) : Prop :=
  ∃ later, calls = earlier ++ .swapBuffers :: later ∧ VbeCall.swapBuffers ∉ later

/-- In a mode of 32 bits whose sizes fit the registers, the display shows at every moment
of every run the picture that the back buffer held at the last swap. Before the first
swap it shows what it showed without any call. -/
theorem display_shows_last_swap (display : BochsDisplay) (allocated framebuffer : Nat → UInt32)
    (ports : List (UInt16 × UInt16)) (width height : UInt32) (fits : SizeFits width height)
    (columns : width.toNat < 65536) (rows : height.toNat < 65536) (calls : List VbeCall) :
    let start := vbeInit allocated framebuffer ports width height 32
    (∀ earlier, AtLastSwap calls earlier → ∀ x y, OnScreen start x y →
      (display.after (run start calls).ports).shown (run start calls).framebuffer x y =
        some (channel (pixelAt (run start earlier) x y) 16,
          channel (pixelAt (run start earlier) x y) 8,
          channel (pixelAt (run start earlier) x y) 0)) ∧
    (VbeCall.swapBuffers ∉ calls → ∀ x y,
      (display.after (run start calls).ports).shown (run start calls).framebuffer x y =
        (display.after start.ports).shown framebuffer x y) := by
  intro start
  have samePorts : (run start calls).ports = start.ports := by
    rcases run_frame start calls with ⟨backbuffer, copied, same⟩
    rw [same]
  have registers := registers_after_init display allocated framebuffer ports width height 32
  constructor
  · rintro earlier ⟨later, rfl, drawing⟩ x y onScreen
    rcases run_frame start earlier with ⟨backbuffer, copied, same⟩
    rw [samePorts, registers, framebuffer_since_swap start earlier drawing, same]
    exact @shown_in_mode { start with backbuffer, framebuffer := copied } fits 32 x y onScreen
      (Or.inl ⟨rfl, columns, rows⟩)
  · intro drawing x y
    rw [samePorts, run_framebuffer start drawing]
    rfl

theorem display_shows_last_swap_small :
    let start := vbeInit (fun _ => 0) (fun _ => 0) [] 4 3 32
    let calls := [VbeCall.drawPixel 1 1 0xFF402010, .swapBuffers, .clear 0xFFFFFFFF, .scroll 1]
    (∀ earlier, AtLastSwap calls earlier → ∀ x y, OnScreen start x y →
      ((⟨0, 0, 0, 0⟩ : BochsDisplay).after (run start calls).ports).shown
          (run start calls).framebuffer x y =
        some (channel (pixelAt (run start earlier) x y) 16,
          channel (pixelAt (run start earlier) x y) 8,
          channel (pixelAt (run start earlier) x y) 0)) ∧
    (VbeCall.swapBuffers ∉ calls → ∀ x y,
      ((⟨0, 0, 0, 0⟩ : BochsDisplay).after (run start calls).ports).shown
          (run start calls).framebuffer x y =
        ((⟨0, 0, 0, 0⟩ : BochsDisplay).after start.ports).shown (fun _ => 0) x y) :=
  display_shows_last_swap ⟨0, 0, 0, 0⟩ (fun _ => 0) (fun _ => 0) [] 4 3
    (by unfold SizeFits; decide) (by decide) (by decide) _

end FractionsOS.Vbe
