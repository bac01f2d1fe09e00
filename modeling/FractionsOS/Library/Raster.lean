import Mathlib.Data.List.Induction
import Mathlib.Data.List.Nodup
import Mathlib.Logic.Function.Basic

/-!
# Painting a picture dab by dab

A picture gives each point a colour. A dab mixes its colour with the one at its
point and leaves all other points alone, so what a point shows after many dabs
depends on the dabs at that point only.
-/

namespace Library.Raster

set_option autoImplicit false

structure Dab (Point Color : Type*) where
  point : Point
  color : Color

section Painting

variable {Point Color : Type*} [DecidableEq Point] (mix : Color → Color → Color)

def paint (picture : Point → Color) (dab : Dab Point Color) : Point → Color := fun point =>
  if point = dab.point then mix dab.color (picture point) else picture point

def paintAll (picture : Point → Color) (dabs : List (Dab Point Color)) : Point → Color :=
  dabs.foldl (paint mix) picture

theorem paint_all_append (picture : Point → Color) (first second : List (Dab Point Color)) :
    paintAll mix picture (first ++ second) = paintAll mix (paintAll mix picture first) second :=
  List.foldl_append

variable {mix}

/-- What a point shows depends on what it showed before, not on other points. -/
theorem painted_locally {picture other : Point → Color} {point : Point}
    (same : picture point = other point) (dabs : List (Dab Point Color)) :
    paintAll mix picture dabs point = paintAll mix other dabs point := by
  induction dabs generalizing picture other with
  | nil => exact same
  | cons dab dabs induction =>
      apply induction
      unfold paint
      rw [same]

theorem painted_elsewhere {picture : Point → Color} {dabs : List (Dab Point Color)} {point : Point}
    (elsewhere : ∀ dab ∈ dabs, dab.point ≠ point) :
    paintAll mix picture dabs point = picture point := by
  induction dabs generalizing picture with
  | nil => rfl
  | cons dab dabs induction =>
      have rest : paintAll mix (paint mix picture dab) dabs point = paint mix picture dab point :=
        induction fun other member => elsewhere other (List.mem_cons_of_mem dab member)
      have first : paint mix picture dab point = picture point :=
        if_neg (elsewhere dab List.mem_cons_self).symm
      exact rest.trans first

/-- The dab at a point, where the cells of a figure without repetitions are dabbed
one after the other and only one of them comes to that point. -/
theorem painted_once {Cell : Type*} {cells : List Cell} (distinct : cells.Nodup)
    {place : Cell → Option (Dab Point Color)} {cell : Cell} (member : cell ∈ cells)
    {dab : Dab Point Color} (placed : place cell = some dab)
    (only : ∀ other ∈ cells, ∀ dabbed, place other = some dabbed → dabbed.point = dab.point →
      other = cell) (picture : Point → Color) :
    paintAll mix picture (cells.filterMap place) dab.point = mix dab.color (picture dab.point) := by
  obtain ⟨before, after, rfl⟩ := List.append_of_mem member
  have apart : ∀ other ∈ before ++ after, ∀ dabbed, place other = some dabbed →
      dabbed.point ≠ dab.point := by
    intro other elsewhere dabbed found samePoint
    have inside : other ∈ before ++ cell :: after :=
      (List.Sublist.append_left (List.sublist_cons_self cell after) before).subset elsewhere
    have same := only other inside dabbed found samePoint
    rw [List.nodup_middle, List.nodup_cons] at distinct
    exact distinct.1 (same ▸ elsewhere)
  have unhit : ∀ part : List Cell, (∀ other ∈ part, other ∈ before ++ after) →
      ∀ dabbed ∈ part.filterMap place, dabbed.point ≠ dab.point := by
    intro part contained dabbed found
    rcases List.mem_filterMap.mp found with ⟨other, inPart, placedOther⟩
    exact apart other (contained other inPart) dabbed placedOther
  have earlier := unhit before fun other => List.mem_append_left after
  have later := unhit after fun other => List.mem_append_right before
  rw [List.filterMap_append, List.filterMap_cons, placed, paint_all_append]
  change paintAll mix (paint mix (paintAll mix picture (before.filterMap place)) dab)
    (after.filterMap place) dab.point = _
  rw [painted_elsewhere later, paint, if_pos rfl, painted_elsewhere earlier]

/-- What a point shows that is dabbed, and with one covering colour only. -/
theorem painted_alike {color : Color} {dabs : List (Dab Point Color)} {point : Point}
    (alike : ∀ dab ∈ dabs, dab.point = point → ∀ old, mix dab.color old = color)
    {dab : Dab Point Color} (member : dab ∈ dabs) (here : dab.point = point)
    (picture : Point → Color) : paintAll mix picture dabs point = color := by
  induction dabs using List.reverseRecOn with
  | nil => cases member
  | append_singleton dabs last induction =>
      rw [paint_all_append]
      change paint mix (paintAll mix picture dabs) last point = color
      unfold paint
      by_cases reached : point = last.point
      · rw [if_pos reached]
        exact alike last (List.mem_append_right dabs List.mem_cons_self) reached.symm _
      · rw [if_neg reached]
        apply induction fun other inside => alike other (List.mem_append_left [last] inside)
        rcases List.mem_append.mp member with earlier | same
        · exact earlier
        · rw [List.mem_singleton.mp same] at here
          exact absurd here.symm reached

theorem painted_moved {move : Point → Point} (injective : Function.Injective move)
    (picture : Point → Color) (dabs : List (Dab Point Color)) (point : Point) :
    paintAll mix picture (dabs.map fun dab => ⟨move dab.point, dab.color⟩) (move point) =
      paintAll mix (fun point => picture (move point)) dabs point := by
  induction dabs generalizing picture with
  | nil => rfl
  | cons dab dabs induction =>
      have first : (fun point => paint mix picture ⟨move dab.point, dab.color⟩ (move point)) =
          paint mix (fun point => picture (move point)) dab := by
        funext point
        simp only [paint, injective.eq_iff]
      have rest := induction (paint mix picture ⟨move dab.point, dab.color⟩)
      rw [first] at rest
      exact rest

/-- A set of colours that every dab keeps is kept by all of them. -/
theorem painted_allowed {allowed : Color → Prop} {dabs : List (Dab Point Color)}
    (kept : ∀ dab ∈ dabs, ∀ color, allowed color → allowed (mix dab.color color))
    {picture : Point → Color} {point : Point} (before : allowed (picture point)) :
    allowed (paintAll mix picture dabs point) := by
  induction dabs generalizing picture with
  | nil => exact before
  | cons dab dabs induction =>
      apply induction (fun other member => kept other (List.mem_cons_of_mem dab member))
      unfold paint
      split_ifs
      · exact kept dab List.mem_cons_self _ before
      · exact before

end Painting

end Library.Raster
