import FractionsOS.Video.VbeCanvas

/-!
# Drawing that is never seen

A pixel is live before a run when its colour can still come to a frame, or to the picture at
the end: no opaque colour is drawn over it first, and it is not scrolled away. Calls that put
colours on other pixels only need not be made.
-/

namespace FractionsOS.Vbe

open Library Library.DoubleBuffer

set_option autoImplicit false

theorem mixed_with_black {alpha : Nat} (part : alpha < 255) (c : Nat) :
    mixChannel c 0 alpha < mixChannel c 255 alpha := by
  unfold mixChannel
  rw [Nat.zero_mul, Nat.add_zero, Nat.add_mul_div_left _ _ (by decide : 0 < 255)]
  omega

theorem covering_iff (color : UInt32) : Covering blend color ↔ channel color 24 = 255 := by
  constructor
  · intro covering
    by_contra part
    have same := covering 0 0xFF
    by_cases transparent : channel color 24 = 0
    · unfold blend at same
      rw [if_neg (mt (alpha_full color).mp part), if_neg (mt (alpha_full color).mp part),
        if_neg (mt (alpha_positive color).mp (not_not.mpr transparent)),
        if_neg (mt (alpha_positive color).mp (not_not.mpr transparent))] at same
      exact absurd same (by decide)
    · have black := (@blend_channels color 0 part transparent).2 0 (by decide)
      have blue := (@blend_channels color 0xFF part transparent).2 0 (by decide)
      rw [same, blue] at black
      have low : channel color 24 < 255 := by
        have small := channel_lt color 24
        omega
      exact absurd black (Nat.ne_of_gt (mixed_with_black low (channel color 0)))
  · intro full old other
    have opaqueColor := (alpha_full color).mpr full
    unfold blend
    rw [if_pos opaqueColor, if_pos opaqueColor]

/-- What the framebuffer holds of the mode's pixels after each swap of a run. -/
def frames (width height : UInt32) (state : VbeState) :
    List VbeCall → List (Pixel width height → UInt32)
  | [] => []
  | .swapBuffers :: calls =>
      (canvas width height (vbeSwapBuffers state)).shown ::
        frames width height (vbeSwapBuffers state) calls
  | call :: calls => frames width height (step state call) calls

theorem changes_unpublished (state : VbeState) {call : VbeCall} (drawing : call ≠ .swapBuffers) :
    Change.publish ∉ changesOf state call := by
  intro published
  cases call with
  | drawString str x y fg bg =>
      rcases List.mem_flatMap.mp published with ⟨⟨line, row⟩, _, inLine⟩
      rcases List.mem_map.mp inLine with ⟨⟨c, column⟩, _, same⟩
      cases same
  | swapBuffers => exact drawing rfl
  | _ => cases List.mem_singleton.mp published

theorem frames_on_canvas {state : VbeState} (fits : SizeFits state.width state.height)
    (calls : List VbeCall) :
    frames state.width state.height state calls =
      (canvas state.width state.height state).frames blend (calls.flatMap (changesOf state)) := by
  induction calls generalizing state with
  | nil => rfl
  | cons call calls induction =>
      have first := call_on_canvas call state fits
      rcases step_frame state call with ⟨backbuffer, framebuffer, stepped⟩
      have rest : frames state.width state.height (step state call) calls =
          (canvas state.width state.height (step state call)).frames blend
            (calls.flatMap (changesOf state)) := by
        rw [stepped]
        exact @induction { state with backbuffer, framebuffer } fits
      rw [List.flatMap_cons]
      by_cases swap : call = .swapBuffers
      · subst swap
        have shown := congrArg Canvas.shown first
        refine congrArg₂ List.cons shown (rest.trans ?_)
        exact congrArg (fun canvas => canvas.frames blend (calls.flatMap (changesOf state))) first
      · have later : frames state.width state.height state (call :: calls) =
            frames state.width state.height (step state call) calls := by
          cases call with
          | swapBuffers => exact absurd rfl swap
          | _ => rfl
        rw [later, frames_unpublished blend _ (changes_unpublished state swap), ← first]
        exact rest

/-- The pixel counts for a frame of the calls, or for the picture behind them. -/
def LivePixel (state : VbeState) (calls : List VbeCall) :
    Pixel state.width state.height → Prop :=
  Live blend (calls.flatMap (changesOf state))

/-- What the call draws is on pixels only that are not live before the calls behind it. -/
def Hidden (state : VbeState) (call : VbeCall) (later : List VbeCall) : Prop :=
  ∀ change ∈ changesOf state call, change.Within fun pixel => ¬LivePixel state later pixel

theorem figure_inside {state : VbeState} {x y width height : UInt32}
    {color : UInt32 → UInt32 → UInt32} {pixel : Pixel state.width state.height} {placed : UInt32}
    (found : cellFigure state x y width height color pixel = some placed) :
    pixel.x - x < width ∧ pixel.y - y < height := by
  unfold cellFigure at found
  split_ifs at found with inside
  exact inside

theorem under_bitmap {state : VbeState} {x y width height : UInt32} {bitmap : UInt32 → UInt32}
    (whole : ∀ cell, channel (bitmap cell) 24 = 255) (later : List VbeCall)
    {pixel : Pixel state.width state.height}
    (inside : pixel.x - x < width ∧ pixel.y - y < height) :
    ¬LivePixel state (.drawBitmap x y width height bitmap :: later) pixel := by
  intro live
  have placed : cellFigure state x y width height (fun j i => bitmap (j * width + i)) pixel =
      some (bitmap ((pixel.y - y) * width + (pixel.x - x))) := if_pos inside
  exact live.2 _ placed ((covering_iff _).mpr (whole _))

theorem char_hidden {state : VbeState} {c : UInt8} {x y fg bg : UInt32} {later : List VbeCall}
    (dead : ∀ pixel : Pixel state.width state.height,
      pixel.x - x < state.fontWidth ∧ pixel.y - y < state.fontHeight →
        ¬LivePixel state later pixel) :
    Hidden state (.drawChar c x y fg bg) later := by
  intro change made
  rw [List.mem_singleton.mp made]
  intro pixel color placed
  exact dead pixel (figure_inside placed)

/-- Calls and those of them that are kept, the others being hidden by calls that are. -/
inductive HiddenLeftOut (state : VbeState) : List VbeCall → List VbeCall → Prop where
  | nil : HiddenLeftOut state [] []
  | keep (call : VbeCall) {calls kept : List VbeCall} :
      HiddenLeftOut state calls kept → HiddenLeftOut state (call :: calls) (call :: kept)
  | leave {call : VbeCall} {calls kept : List VbeCall} :
      Hidden state call kept → HiddenLeftOut state calls kept →
        HiddenLeftOut state (call :: calls) kept

theorem hidden_pruned {state : VbeState} {calls kept : List VbeCall}
    (leftOut : HiddenLeftOut state calls kept) :
    Pruned blend (calls.flatMap (changesOf state)) (kept.flatMap (changesOf state)) := by
  induction leftOut with
  | nil => exact .nil
  | keep call _ induction =>
      rw [List.flatMap_cons, List.flatMap_cons]
      exact pruned_keep_all _ induction
  | leave hidden _ induction =>
      rw [List.flatMap_cons]
      exact pruned_drop_all hidden induction

/-- Whatever hidden calls are left out of a run, and whatever the pixels held that are not
live before it: every frame is the same, and so are both pictures at the end. -/
theorem hidden_calls_left_out (state : VbeState) (fits : SizeFits state.width state.height)
    (calls kept : List VbeCall) (leftOut : HiddenLeftOut state calls kept)
    (backbuffer : TracedMemory UInt32)
    (same : ∀ pixel, LivePixel state kept pixel →
      backbuffer.cells pixel.cell = state.backbuffer.cells pixel.cell) :
    frames state.width state.height { state with backbuffer } calls =
        frames state.width state.height state kept ∧
      canvas state.width state.height (run { state with backbuffer } calls) =
        canvas state.width state.height (run state kept) := by
  have alike : Alike (LivePixel state kept)
      (canvas state.width state.height { state with backbuffer })
      (canvas state.width state.height state) := ⟨same, rfl⟩
  have pruned := pruned_frames (hidden_pruned leftOut) alike
  have firstFrames := @frames_on_canvas { state with backbuffer } fits calls
  have firstCanvas := @canvas_of_run { state with backbuffer } fits calls fun call _ => call_on_canvas call
  constructor
  · rw [frames_on_canvas fits]
    exact firstFrames.trans pruned.1
  · rw [canvas_of_run fits fun call _ => call_on_canvas call]
    exact firstCanvas.trans pruned.2

/-- A smiley before the screen is cleared, and another one under an opaque bitmap. -/
theorem hidden_calls_left_out_smileys :
    let state := vbeInit (fun _ => 0) (fun _ => 0) [] 16 32 32
    let kept := [VbeCall.clear 0xFF000000, .drawBitmap 0 0 12 16 fun _ => 0xFF0000FF, .swapBuffers,
      .scroll 1, .swapBuffers]
    let calls := [VbeCall.drawChar 1 4 4 0x80FFFFFF 0, .clear 0xFF000000,
      .drawChar 1 0 0 0xFFFFFFFF 0, .drawBitmap 0 0 12 16 fun _ => 0xFF0000FF, .swapBuffers,
      .scroll 1, .swapBuffers]
    let older : TracedMemory UInt32 := { cells := fun index => UInt32.ofNat index, trace := [] }
    frames state.width state.height { state with backbuffer := older } calls =
        frames state.width state.height state kept ∧
      canvas state.width state.height (run { state with backbuffer := older } calls) =
        canvas state.width state.height (run state kept) := by
  intro state kept calls older
  have leftOut : HiddenLeftOut state calls kept := by
    apply HiddenLeftOut.leave
    · exact char_hidden fun _ _ live => live
    · apply HiddenLeftOut.keep
      apply HiddenLeftOut.leave
      · apply char_hidden
        intro pixel inside
        have column : pixel.x - 0 < 12 := UInt32.lt_trans inside.1 (by decide : (8 : UInt32) < 12)
        exact under_bitmap (fun _ => by decide) _ ⟨column, inside.2⟩
      · exact .keep _ (.keep _ (.keep _ (.keep _ .nil)))
  apply hidden_calls_left_out state _ calls kept leftOut
  · intro pixel live
    exact live.elim
  · unfold SizeFits
    decide

theorem init_drawn (allocated framebuffer : Nat → UInt32) (ports : List (UInt16 × UInt16))
    {width height : UInt32} (fits : SizeFits width height) (bpp : UInt8) :
    (canvas width height (vbeInit allocated framebuffer ports width height bpp)).drawn =
      fun _ => 0 := by
  funext pixel
  have inside := cell_inside pixel.column pixel.row
  change (TracedMemory.fill _ 0 _ 0).cells pixel.cell = 0
  rw [TracedMemory.fill_cells, word_count_value fits, Nat.zero_add]
  exact if_pos ⟨Nat.zero_le _, inside⟩

/-- The frames of a mode and the picture at their end do not depend on what came before
`vbe_init`: on what the allocated block held, what was displayed, or what was written to the
ports. -/
theorem init_forgets (allocated framebuffer otherAllocated otherFramebuffer : Nat → UInt32)
    (ports otherPorts : List (UInt16 × UInt16)) (width height : UInt32)
    (fits : SizeFits width height) (bpp : UInt8) (calls : List VbeCall) :
    let one := vbeInit allocated framebuffer ports width height bpp
    let other := vbeInit otherAllocated otherFramebuffer otherPorts width height bpp
    frames width height one calls = frames width height other calls ∧
      (canvas width height (run one calls)).drawn = (canvas width height (run other calls)).drawn := by
  intro one other
  have changes : changesOf one = changesOf other := by
    funext call
    cases call with
    | _ => rfl
  have start := (init_drawn allocated framebuffer ports fits bpp).trans
    (init_drawn otherAllocated otherFramebuffer otherPorts fits bpp).symm
  have runs := same_drawn blend start (calls.flatMap (changesOf other))
  constructor
  · have oneFrames := @frames_on_canvas one fits calls
    have otherFrames := @frames_on_canvas other fits calls
    rw [changes] at oneFrames
    exact oneFrames.trans (runs.1.trans otherFrames.symm)
  · have oneCanvas := @canvas_of_run one fits calls fun call _ => call_on_canvas call
    have otherCanvas := @canvas_of_run other fits calls fun call _ => call_on_canvas call
    rw [changes] at oneCanvas
    exact (congrArg Canvas.drawn oneCanvas).trans
      (runs.2.trans (congrArg Canvas.drawn otherCanvas).symm)

theorem init_forgets_small :
    let one := vbeInit (fun index => UInt32.ofNat index) (fun _ => 0xFFFFFFFF) [] 16 16 32
    let other := vbeInit (fun _ => 0) (fun _ => 0) [(0x1CE, 4)] 16 16 32
    let calls := [VbeCall.drawChar 1 4 4 0x80FFFFFF 0, .swapBuffers]
    frames 16 16 one calls = frames 16 16 other calls ∧
      (canvas 16 16 (run one calls)).drawn = (canvas 16 16 (run other calls)).drawn := by
  apply init_forgets
  unfold SizeFits
  decide

end FractionsOS.Vbe
