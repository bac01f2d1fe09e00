import Mathlib.Data.List.Basic

/-!
# A picture drawn behind the one that is shown

Changes work on the drawn picture and publishing shows it. A point of the drawn picture is
live before changes when its colour can still come to a published picture or to the one at
the end: no covering colour is put on it first. Changes of other points can be left out.
-/

namespace Library.DoubleBuffer

set_option autoImplicit false

@[ext] structure Canvas (Point Color : Type*) where
  drawn : Point → Color
  shown : Point → Color

inductive Change (Point Color : Type*) where
  /-- Colours that are mixed with those at some points. -/
  | stamp (figure : Point → Option Color)
  | fill (color : Color)
  /-- Each point takes the colour of another one, or else the blank colour. -/
  | shift (source : Point → Option Point) (blank : Color)
  | publish

section Changes

variable {Point Color : Type*} (mix : Color → Color → Color)

def stamped (figure : Point → Option Color) (picture : Point → Color) : Point → Color :=
  fun point => match figure point with
  | none => picture point
  | some color => mix color (picture point)

def shifted (source : Point → Option Point) (blank : Color) (picture : Point → Color) :
    Point → Color :=
  fun point => match source point with
  | none => blank
  | some origin => picture origin

def Canvas.change (canvas : Canvas Point Color) : Change Point Color → Canvas Point Color
  | .stamp figure => { canvas with drawn := stamped mix figure canvas.drawn }
  | .fill color => { canvas with drawn := fun _ => color }
  | .shift source blank => { canvas with drawn := shifted source blank canvas.drawn }
  | .publish => { canvas with shown := canvas.drawn }

def Canvas.changeAll (canvas : Canvas Point Color) (changes : List (Change Point Color)) :
    Canvas Point Color :=
  changes.foldl (Canvas.change mix) canvas

theorem change_all_append (canvas : Canvas Point Color) (first second : List (Change Point Color)) :
    canvas.changeAll mix (first ++ second) = (canvas.changeAll mix first).changeAll mix second :=
  List.foldl_append

def Canvas.frames (canvas : Canvas Point Color) : List (Change Point Color) → List (Point → Color)
  | [] => []
  | .publish :: changes => canvas.drawn :: Canvas.frames (canvas.change mix .publish) changes
  | .stamp figure :: changes => Canvas.frames (canvas.change mix (.stamp figure)) changes
  | .fill color :: changes => Canvas.frames (canvas.change mix (.fill color)) changes
  | .shift source blank :: changes => Canvas.frames (canvas.change mix (.shift source blank)) changes

theorem frames_unpublished (canvas : Canvas Point Color) {first : List (Change Point Color)}
    (unpublished : Change.publish ∉ first) (second : List (Change Point Color)) :
    canvas.frames mix (first ++ second) = (canvas.changeAll mix first).frames mix second := by
  induction first generalizing canvas with
  | nil => rfl
  | cons change first induction =>
      rw [List.mem_cons, not_or] at unpublished
      cases change with
      | stamp figure => exact induction _ unpublished.2
      | fill color => exact induction _ unpublished.2
      | shift source blank => exact induction _ unpublished.2
      | publish => exact absurd rfl unpublished.1

/-- What was shown before matters for neither the frames nor the drawn picture. -/
theorem same_drawn {one other : Canvas Point Color} (same : one.drawn = other.drawn)
    (changes : List (Change Point Color)) :
    one.frames mix changes = other.frames mix changes ∧
      (one.changeAll mix changes).drawn = (other.changeAll mix changes).drawn := by
  induction changes generalizing one other with
  | nil => exact ⟨rfl, same⟩
  | cons change changes induction =>
      cases change with
      | stamp figure => exact induction (congrArg (stamped mix figure) same)
      | fill color => exact induction rfl
      | shift source blank => exact induction (congrArg (shifted source blank) same)
      | publish =>
          have rest := @induction (one.change mix .publish) (other.change mix .publish) same
          exact ⟨congrArg₂ List.cons same rest.1, rest.2⟩

/-- Whatever is under the colour, the same is left of it. -/
def Covering (color : Color) : Prop := ∀ old other, mix color old = mix color other

/-- The point's colour still counts before the changes: for a frame, or at their end. -/
def Live : List (Change Point Color) → Point → Prop
  | [], _ => True
  | .stamp figure :: changes, point =>
      Live changes point ∧ ∀ color, figure point = some color → ¬Covering mix color
  | .fill _ :: _, _ => False
  | .shift source _ :: changes, point =>
      ∃ target, Live changes target ∧ source target = some point
  | .publish :: _, _ => True

/-- One picture is shown, and one is drawn as far as some points go. -/
structure Alike (points : Point → Prop) (one other : Canvas Point Color) : Prop where
  drawn : ∀ point, points point → one.drawn point = other.drawn point
  shown : one.shown = other.shown

variable {mix}

theorem alike_whole {one other : Canvas Point Color} (alike : Alike (fun _ => True) one other) :
    one = other := by
  apply Canvas.ext
  · funext point
    exact alike.drawn point trivial
  · exact alike.shown

theorem alike_change {change : Change Point Color} {changes : List (Change Point Color)}
    {one other : Canvas Point Color} (alike : Alike (Live mix (change :: changes)) one other) :
    Alike (Live mix changes) (one.change mix change) (other.change mix change) := by
  cases change with
  | stamp figure =>
      refine ⟨?_, alike.shown⟩
      intro point live
      change stamped mix figure one.drawn point = stamped mix figure other.drawn point
      unfold stamped
      cases placed : figure point with
      | none =>
          have uncovered : ∀ color, figure point = some color → ¬Covering mix color := by
            intro color found
            rw [placed] at found
            cases found
          exact alike.drawn point ⟨live, uncovered⟩
      | some color =>
          by_cases covering : Covering mix color
          · exact covering _ _
          · have uncovered : ∀ other, figure point = some other → ¬Covering mix other := by
              intro other found
              rw [placed] at found
              rw [← Option.some.inj found]
              exact covering
            exact congrArg (mix color) (alike.drawn point ⟨live, uncovered⟩)
  | fill color => exact ⟨fun _ _ => rfl, alike.shown⟩
  | shift source blank =>
      refine ⟨?_, alike.shown⟩
      intro point live
      change shifted source blank one.drawn point = shifted source blank other.drawn point
      unfold shifted
      cases taken : source point with
      | none => rfl
      | some origin => exact alike.drawn origin ⟨point, live, taken⟩
  | publish =>
      have whole := alike_whole alike
      rw [whole]
      exact ⟨fun _ _ => rfl, rfl⟩

def Change.Within (points : Point → Prop) : Change Point Color → Prop
  | .stamp figure => ∀ point color, figure point = some color → points point
  | .fill _ => ∀ point, points point
  | .shift _ _ => ∀ point, points point
  | .publish => False

theorem within_change {points : Point → Prop} {change : Change Point Color}
    (within : change.Within points) (canvas : Canvas Point Color) :
    Alike (fun point => ¬points point) (canvas.change mix change) canvas := by
  cases change with
  | stamp figure =>
      refine ⟨?_, rfl⟩
      intro point outside
      change stamped mix figure canvas.drawn point = canvas.drawn point
      unfold stamped
      cases placed : figure point with
      | none => rfl
      | some color => exact absurd (within point color placed) outside
  | fill color => exact ⟨fun point outside => absurd (within point) outside, rfl⟩
  | shift source blank => exact ⟨fun point outside => absurd (within point) outside, rfl⟩
  | publish => exact within.elim

variable (mix) in
/-- Changes and those of them that are kept: what each of the others does is within points
that are not live before the ones kept behind it. -/
inductive Pruned : List (Change Point Color) → List (Change Point Color) → Prop where
  | nil : Pruned [] []
  | keep (change : Change Point Color) {changes kept : List (Change Point Color)} :
      Pruned changes kept → Pruned (change :: changes) (change :: kept)
  | drop {change : Change Point Color} {changes kept : List (Change Point Color)} :
      change.Within (fun point => ¬Live mix kept point) → Pruned changes kept →
        Pruned (change :: changes) kept

theorem pruned_keep_all (first : List (Change Point Color)) {changes kept : List (Change Point Color)}
    (pruned : Pruned mix changes kept) : Pruned mix (first ++ changes) (first ++ kept) := by
  induction first with
  | nil => exact pruned
  | cons change first induction => exact .keep change induction

theorem pruned_drop_all {first changes kept : List (Change Point Color)}
    (within : ∀ change ∈ first, change.Within fun point => ¬Live mix kept point)
    (pruned : Pruned mix changes kept) : Pruned mix (first ++ changes) kept := by
  induction first with
  | nil => exact pruned
  | cons change first induction =>
      rw [List.forall_mem_cons] at within
      exact .drop within.1 (induction within.2)

/-- All frames and the canvas at the end come of the changes that are kept, and of the
colours of the live points. -/
theorem pruned_frames {changes kept : List (Change Point Color)} (pruned : Pruned mix changes kept)
    {one other : Canvas Point Color} (alike : Alike (Live mix kept) one other) :
    one.frames mix changes = other.frames mix kept ∧
      one.changeAll mix changes = other.changeAll mix kept := by
  induction pruned generalizing one other with
  | nil => exact ⟨rfl, alike_whole alike⟩
  | keep change _ induction =>
      have rest := induction (alike_change alike)
      cases change with
      | stamp figure => exact rest
      | fill color => exact rest
      | shift source blank => exact rest
      | publish =>
          have whole := alike_whole alike
          exact ⟨congrArg₂ List.cons (congrArg Canvas.drawn whole) rest.1, rest.2⟩
  | @drop change changes kept within _ induction =>
      have unchanged := @within_change _ _ mix _ _ within one
      have rest := @induction (one.change mix change) other
        ⟨fun point live => (unchanged.drawn point (not_not.mpr live)).trans (alike.drawn point live),
          unchanged.shown.trans alike.shown⟩
      cases change with
      | stamp figure => exact rest
      | fill color => exact rest
      | shift source blank => exact rest
      | publish => exact within.elim

end Changes

end Library.DoubleBuffer
