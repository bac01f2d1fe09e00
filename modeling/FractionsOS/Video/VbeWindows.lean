import FractionsOS.Video.VbePixels

/-!
# Drawing in windows

Tasks whose drawing calls are run in any order, each task with its own part of the
screen. As drawing a pixel changes that pixel only, what a window shows is what its own
task drew, and the order of the calls of different tasks leaves no mark.
-/

namespace FractionsOS.Vbe

open Library Library.Raster

set_option autoImplicit false

/-- The calls of `vbe_draw_pixel` that a call makes. Clearing and scrolling do not go
through it. -/
def callPixels (state : VbeState) : VbeCall → List PixelCall
  | .drawPixel x y color => [⟨x, y, color⟩]
  | .drawBitmap x y width height bitmap => bitmapPixels state x y width height bitmap
  | .drawChar c x y fg bg => charPixels state c x y fg bg
  | .drawString str x y fg bg => stringPixels state x fg bg x y str
  | .clear _ => []
  | .scroll _ => []
  | .swapBuffers => []

/-- The call draws inside a part of the screen, and does nothing to the whole of it. -/
def StaysIn (window : UInt32 × UInt32 → Prop) (state : VbeState) : VbeCall → Prop
  | .clear _ => False
  | .scroll _ => False
  | call => ∀ pixel ∈ callPixels state call, window (pixel.x, pixel.y)

theorem stays_in_pixels {window : UInt32 × UInt32 → Prop} {state : VbeState} {call : VbeCall}
    (stays : StaysIn window state call) :
    ∀ pixel ∈ callPixels state call, window (pixel.x, pixel.y) := by
  cases call with
  | clear color => exact stays.elim
  | scroll lines => exact stays.elim
  | _ => exact stays

/-- The points of a rectangle, which goes on at the other side where it wraps. -/
def rectangle (x y width height : UInt32) (point : UInt32 × UInt32) : Prop :=
  (point.1 - x).toNat < width.toNat ∧ (point.2 - y).toNat < height.toNat

theorem in_rectangle {x y width height i j : UInt32} (column : i.toNat < width.toNat)
    (row : j.toNat < height.toNat) : rectangle x y width height (x + i, y + j) := by
  unfold rectangle
  rw [UInt32.add_comm x i, UInt32.add_comm y j, UInt32.add_sub_cancel, UInt32.add_sub_cancel]
  exact ⟨column, row⟩

theorem bitmap_stays_in (state : VbeState) (x y width height : UInt32)
    (bitmap : UInt32 → UInt32) :
    StaysIn (rectangle x y width height) state (.drawBitmap x y width height bitmap) := by
  intro pixel drawn
  rcases List.mem_filterMap.mp drawn with ⟨⟨j, i⟩, inside, made⟩
  rw [mem_row_major] at inside
  dsimp only at made
  split_ifs at made
  rw [← Option.some.inj made]
  exact in_rectangle inside.2 inside.1

theorem char_stays_in (state : VbeState) (c : UInt8) (x y fg bg : UInt32) :
    StaysIn (rectangle x y state.fontWidth state.fontHeight) state (.drawChar c x y fg bg) := by
  intro pixel drawn
  rw [callPixels, char_pixels_cells] at drawn
  rcases (mem_row_major_map _ _ _ _).mp drawn with ⟨j, i, row, column, rfl⟩
  exact in_rectangle column row

/-- What a call draws depends on the mode and the font, not on what was drawn before. -/
theorem call_pixels_frame (state : VbeState) (backbuffer : TracedMemory UInt32)
    (framebuffer : Nat → UInt32) (call : VbeCall) :
    callPixels { state with backbuffer, framebuffer } call = callPixels state call := by
  cases call with
  | drawString str x y fg bg =>
      have font := @string_pixels_font state { state with backbuffer, framebuffer } rfl rfl
      exact font x fg bg x y str
  | _ => rfl

theorem stays_in_frame {window : UInt32 × UInt32 → Prop} (state : VbeState)
    (backbuffer : TracedMemory UInt32) (framebuffer : Nat → UInt32) {call : VbeCall}
    (stays : StaysIn window state call) :
    StaysIn window { state with backbuffer, framebuffer } call := by
  cases call with
  | clear color => exact stays.elim
  | scroll lines => exact stays.elim
  | drawString str x y fg bg =>
      intro pixel drawn
      rw [call_pixels_frame] at drawn
      exact stays pixel drawn
  | _ => exact stays

def callDabs (state : VbeState) (call : VbeCall) : List (Dab (UInt32 × UInt32) UInt32) :=
  (callPixels state call).map PixelCall.dab

theorem call_painted {window : UInt32 × UInt32 → Prop} {state : VbeState}
    (fits : SizeFits state.width state.height) {px py : UInt32} (onScreen : OnScreen state px py)
    {call : VbeCall} (stays : StaysIn window state call) :
    pixelAt (step state call) px py =
      paintAll blend (picture state) (callDabs state call) (px, py) := by
  cases call with
  | drawPixel x y color => exact pixels_painted fits onScreen [⟨x, y, color⟩]
  | drawBitmap x y width height bitmap => exact pixels_painted fits onScreen _
  | drawChar c x y fg bg => exact pixels_painted fits onScreen _
  | drawString str x y fg bg =>
      change pixelAt (drawStringFrom state x fg bg x y str) px py = _
      rw [draw_string_pixels]
      exact pixels_painted fits onScreen _
  | clear color => exact stays.elim
  | scroll lines => exact stays.elim
  | swapBuffers => rfl

theorem run_painted {state : VbeState} (fits : SizeFits state.width state.height)
    {px py : UInt32} (onScreen : OnScreen state px py) {calls : List VbeCall}
    (stays : ∀ call ∈ calls, ∃ window, StaysIn window state call) :
    pixelAt (run state calls) px py =
      paintAll blend (picture state) (calls.flatMap (callDabs state)) (px, py) := by
  induction calls generalizing state with
  | nil => rfl
  | cons call calls induction =>
      rcases stays call List.mem_cons_self with ⟨window, first⟩
      have painted := call_painted fits onScreen first
      rcases step_frame state call with ⟨backbuffer, framebuffer, stepped⟩
      have sameDabs : callDabs { state with backbuffer, framebuffer } = callDabs state := by
        funext other
        exact congrArg (List.map PixelCall.dab) (call_pixels_frame state backbuffer framebuffer other)
      have later : ∀ other ∈ calls,
          ∃ window, StaysIn window { state with backbuffer, framebuffer } other := by
        intro other member
        rcases stays other (List.mem_cons_of_mem call member) with ⟨window, inside⟩
        exact ⟨window, stays_in_frame state backbuffer framebuffer inside⟩
      have rest := @induction { state with backbuffer, framebuffer } fits onScreen later
      change pixelAt (run (step state call) calls) px py = _
      rw [stepped] at painted ⊢
      rw [rest, sameDabs, List.flatMap_cons, paint_all_append]
      exact painted_locally painted _

section Tasks

variable {Task : Type}

def Windowed (window : Task → UInt32 × UInt32 → Prop) (state : VbeState)
    (calls : List (Task × VbeCall)) : Prop :=
  ∀ call ∈ calls, StaysIn (window call.1) state call.2

theorem windowed_calls {window : Task → UInt32 × UInt32 → Prop} {state : VbeState}
    {calls : List (Task × VbeCall)} (inside : Windowed window state calls) :
    ∀ call ∈ calls.map Prod.snd, ∃ window, StaysIn window state call := by
  intro call member
  rcases List.mem_map.mp member with ⟨labelled, made, rfl⟩
  exact ⟨_, inside labelled made⟩

theorem outside_pixel {window : Task → UInt32 × UInt32 → Prop} {state : VbeState}
    (fits : SizeFits state.width state.height) {calls : List (Task × VbeCall)}
    (inside : Windowed window state calls) {px py : UInt32} (onScreen : OnScreen state px py)
    (outside : ∀ task, ¬window task (px, py)) :
    pixelAt (run state (calls.map Prod.snd)) px py = pixelAt state px py := by
  rw [run_painted fits onScreen (windowed_calls inside)]
  apply painted_elsewhere
  intro dab drawn same
  rcases List.mem_flatMap.mp drawn with ⟨call, made, member⟩
  rcases List.mem_map.mp made with ⟨labelled, member', rfl⟩
  rcases List.mem_map.mp member with ⟨pixel, reached, rfl⟩
  have shown := stays_in_pixels (inside labelled member') pixel reached
  exact outside labelled.1 (same ▸ shown)

variable [DecidableEq Task]

def ownCalls (task : Task) (calls : List (Task × VbeCall)) : List VbeCall :=
  (calls.filter fun call => call.1 = task).map Prod.snd

theorem own_calls_own {task owner : Task} (own : owner = task) (call : VbeCall)
    (calls : List (Task × VbeCall)) :
    ownCalls task ((owner, call) :: calls) = call :: ownCalls task calls := by
  unfold ownCalls
  rw [List.filter_cons, if_pos (decide_eq_true own), List.map_cons]

theorem own_calls_other {task owner : Task} (other : owner ≠ task) (call : VbeCall)
    (calls : List (Task × VbeCall)) :
    ownCalls task ((owner, call) :: calls) = ownCalls task calls := by
  unfold ownCalls
  rw [List.filter_cons, if_neg]
  rw [decide_eq_true_eq]
  exact other

theorem mem_own_calls {task : Task} {calls : List (Task × VbeCall)} {call : VbeCall} :
    call ∈ ownCalls task calls ↔ (task, call) ∈ calls := by
  unfold ownCalls
  rw [List.mem_map]
  constructor
  · rintro ⟨⟨owner, made⟩, member, rfl⟩
    rw [List.mem_filter, decide_eq_true_eq] at member
    rw [← member.2]
    exact member.1
  · intro member
    refine ⟨(task, call), ?_, rfl⟩
    rw [List.mem_filter]
    exact ⟨member, decide_eq_true rfl⟩

theorem own_calls_stay {window : Task → UInt32 × UInt32 → Prop} {state : VbeState}
    {calls : List (Task × VbeCall)} (inside : Windowed window state calls) (task : Task) :
    ∀ call ∈ ownCalls task calls, ∃ window, StaysIn window state call := by
  intro call member
  exact ⟨_, inside (task, call) (mem_own_calls.mp member)⟩

theorem own_dabs {window : Task → UInt32 × UInt32 → Prop} {state : VbeState}
    {calls : List (Task × VbeCall)} (inside : Windowed window state calls) {task : Task}
    {point : UInt32 × UInt32} (others : ∀ other, other ≠ task → ¬window other point)
    (picture : UInt32 × UInt32 → UInt32) :
    paintAll blend picture ((calls.map Prod.snd).flatMap (callDabs state)) point =
      paintAll blend picture ((ownCalls task calls).flatMap (callDabs state)) point := by
  induction calls generalizing picture with
  | nil => rfl
  | cons call calls induction =>
      rcases call with ⟨owner, call⟩
      have later : Windowed window state calls :=
        fun other member => inside other (List.mem_cons_of_mem _ member)
      rw [List.map_cons, List.flatMap_cons, paint_all_append]
      by_cases own : owner = task
      · rw [own_calls_own own, List.flatMap_cons, paint_all_append]
        exact induction later _
      · have elsewhere : ∀ dab ∈ callDabs state call, dab.point ≠ point := by
          intro dab drawn same
          rcases List.mem_map.mp drawn with ⟨pixel, member, rfl⟩
          have reached := stays_in_pixels (inside _ List.mem_cons_self) pixel member
          exact others owner own (same ▸ reached)
        rw [own_calls_other own, ← induction later picture]
        exact painted_locally (painted_elsewhere elsewhere) _

theorem window_pixel {window : Task → UInt32 × UInt32 → Prop}
    (apart : ∀ left right, left ≠ right → ∀ point, window left point → ¬window right point)
    {state : VbeState} (fits : SizeFits state.width state.height)
    {calls : List (Task × VbeCall)} (inside : Windowed window state calls) {px py : UInt32}
    (onScreen : OnScreen state px py) {task : Task} (own : window task (px, py)) :
    pixelAt (run state (calls.map Prod.snd)) px py =
      pixelAt (run state (ownCalls task calls)) px py := by
  rw [run_painted fits onScreen (windowed_calls inside),
    run_painted fits onScreen (own_calls_stay inside task)]
  exact own_dabs inside (fun other different => apart task other different.symm _ own) _

/-- However the drawing of tasks with windows apart from each other is interleaved, each
window shows what its own task's calls alone make of it, the rest of the screen is left
as it was, and any other interleaving of the same calls leaves the same picture. -/
theorem windows_isolated (window : Task → UInt32 × UInt32 → Prop)
    (apart : ∀ left right, left ≠ right → ∀ point, window left point → ¬window right point)
    (state : VbeState) (fits : SizeFits state.width state.height)
    (calls : List (Task × VbeCall)) (inside : Windowed window state calls) :
    (∀ px py, OnScreen state px py →
      (∀ task, window task (px, py) →
        pixelAt (run state (calls.map Prod.snd)) px py =
          pixelAt (run state (ownCalls task calls)) px py) ∧
      ((∀ task, ¬window task (px, py)) →
        pixelAt (run state (calls.map Prod.snd)) px py = pixelAt state px py)) ∧
    ∀ others : List (Task × VbeCall), (∀ task, ownCalls task others = ownCalls task calls) →
      ∀ px py, OnScreen state px py →
        pixelAt (run state (others.map Prod.snd)) px py =
          pixelAt (run state (calls.map Prod.snd)) px py := by
  constructor
  · intro px py onScreen
    exact ⟨fun task => window_pixel apart fits inside onScreen,
      outside_pixel fits inside onScreen⟩
  · intro others same px py onScreen
    have othersInside : Windowed window state others := by
      intro call made
      have own : call.2 ∈ ownCalls call.1 others := mem_own_calls.mpr made
      rw [same] at own
      exact inside (call.1, call.2) (mem_own_calls.mp own)
    by_cases owned : ∃ task, window task (px, py)
    · rcases owned with ⟨task, own⟩
      rw [window_pixel apart fits othersInside onScreen own,
        window_pixel apart fits inside onScreen own, same]
    · rw [not_exists] at owned
      rw [outside_pixel fits othersInside onScreen owned,
        outside_pixel fits inside onScreen owned]

end Tasks

def bitmapAndLetter : List (Bool × VbeCall) :=
  [(true, .drawBitmap 0 0 8 16 fun _ => 0x80FF0000), (false, .drawChar 1 8 0 0xFFFFFFFF 0),
    (true, .drawBitmap 0 0 8 16 fun _ => 0x800000FF)]

def besides (task : Bool) : UInt32 × UInt32 → Prop := rectangle (if task then 0 else 8) 0 8 16

theorem besides_apart (point : UInt32 × UInt32) : besides true point → ¬besides false point := by
  intro left right
  have columns : (point.1 - 0).toNat < 8 := left.1
  have others : (point.1 - 8).toNat < 8 := right.1
  rw [UInt32.toNat_sub] at columns others
  change (2 ^ 32 - 0 + point.1.toNat) % 2 ^ 32 < 8 at columns
  change (2 ^ 32 - 8 + point.1.toNat) % 2 ^ 32 < 8 at others
  have small := point.1.toNat_lt
  omega

theorem windows_isolated_two_tasks :
    let state := vbeInit (fun _ => 0) (fun _ => 0) [] 16 16 32
    (∀ px py, OnScreen state px py →
      (∀ task, besides task (px, py) →
        pixelAt (run state (bitmapAndLetter.map Prod.snd)) px py =
          pixelAt (run state (ownCalls task bitmapAndLetter)) px py) ∧
      ((∀ task, ¬besides task (px, py)) →
        pixelAt (run state (bitmapAndLetter.map Prod.snd)) px py = pixelAt state px py)) ∧
    ∀ others : List (Bool × VbeCall),
      (∀ task, ownCalls task others = ownCalls task bitmapAndLetter) →
      ∀ px py, OnScreen state px py →
        pixelAt (run state (others.map Prod.snd)) px py =
          pixelAt (run state (bitmapAndLetter.map Prod.snd)) px py := by
  apply windows_isolated besides
  · intro left right different point
    cases left with
    | true =>
        cases right with
        | true => exact absurd rfl different
        | false => exact besides_apart point
    | false =>
        cases right with
        | false => exact absurd rfl different
        | true => exact fun inFalse inTrue => besides_apart point inTrue inFalse
  · unfold SizeFits
    decide
  · intro call made
    rcases List.mem_cons.mp made with rfl | made
    · exact bitmap_stays_in _ 0 0 8 16 _
    · rcases List.mem_cons.mp made with rfl | made
      · exact char_stays_in _ 1 8 0 0xFFFFFFFF 0
      · rw [List.mem_singleton.mp made]
        exact bitmap_stays_in _ 0 0 8 16 _

end FractionsOS.Vbe
