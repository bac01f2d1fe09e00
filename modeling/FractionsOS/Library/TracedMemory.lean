import Mathlib.Logic.Function.Basic
import Mathlib.Data.List.Basic

/-!
# Memory that remembers what was accessed

Cells are addressed by natural numbers and never end: a program that leaves the
block it was given still computes something. Whether it left it is read off the
trace, which lists every cell that was read or written, latest first.
-/

namespace Library

set_option autoImplicit false

structure TracedMemory (Cell : Type*) where
  cells : Nat → Cell
  trace : List Nat

namespace TracedMemory

variable {Cell : Type*} (memory : TracedMemory Cell)

/-- A read of one cell. The value read is `memory.cells index`. -/
def touch (index : Nat) : TracedMemory Cell :=
  { memory with trace := index :: memory.trace }

def store (index : Nat) (value : Cell) : TracedMemory Cell where
  cells := Function.update memory.cells index value
  trace := index :: memory.trace

def touchRange (first count : Nat) : TracedMemory Cell :=
  { memory with trace := List.range' first count ++ memory.trace }

def fill (first count : Nat) (value : Cell) : TracedMemory Cell where
  cells index := if first ≤ index ∧ index < first + count then value else memory.cells index
  trace := List.range' first count ++ memory.trace

/-- A block copied to a block that may overlap it: every cell is read before
any is written. -/
def move (target source count : Nat) : TracedMemory Cell where
  cells index :=
    if target ≤ index ∧ index < target + count then memory.cells (source + (index - target))
    else memory.cells index
  trace := List.range' target count ++ List.range' source count ++ memory.trace

@[simp] theorem touch_cells (index : Nat) : (memory.touch index).cells = memory.cells := rfl

@[simp] theorem touch_trace (index : Nat) :
    (memory.touch index).trace = index :: memory.trace := rfl

@[simp] theorem store_trace (index : Nat) (value : Cell) :
    (memory.store index value).trace = index :: memory.trace := rfl

theorem store_cells (index other : Nat) (value : Cell) :
    (memory.store index value).cells other = if other = index then value else memory.cells other := by
  simp [store, Function.update_apply]

theorem fill_cells (first count index : Nat) (value : Cell) :
    (memory.fill first count value).cells index =
      if first ≤ index ∧ index < first + count then value else memory.cells index := rfl

theorem move_cells (target source count index : Nat) :
    (memory.move target source count).cells index =
      if target ≤ index ∧ index < target + count then memory.cells (source + (index - target))
      else memory.cells index := rfl

def Within (bound : Nat) : Prop := ∀ index ∈ memory.trace, index < bound

variable {memory} {bound : Nat}

theorem within_touch {index : Nat} (before : memory.Within bound) (inside : index < bound) :
    (memory.touch index).Within bound := by
  intro accessed member
  rcases List.mem_cons.mp member with same | earlier
  · exact same ▸ inside
  · exact before accessed earlier

theorem within_store {index : Nat} {value : Cell} (before : memory.Within bound)
    (inside : index < bound) : (memory.store index value).Within bound :=
  by
  simpa only [Within, store_trace, touch_trace] using within_touch before inside

theorem within_touch_range {first count : Nat} (before : memory.Within bound)
    (inside : first + count ≤ bound) : (memory.touchRange first count).Within bound := by
  intro accessed member
  rcases List.mem_append.mp member with fresh | earlier
  · have range := List.mem_range'_1.mp fresh
    omega
  · exact before accessed earlier

theorem within_fill {first count : Nat} {value : Cell} (before : memory.Within bound)
    (inside : first + count ≤ bound) : (memory.fill first count value).Within bound :=
  by
  simpa only [Within, fill, touchRange] using within_touch_range before inside

theorem within_move {target source count : Nat} (before : memory.Within bound)
    (targetInside : target + count ≤ bound) (sourceInside : source + count ≤ bound) :
    (memory.move target source count).Within bound := by
  intro accessed member
  simp only [move, List.mem_append, List.mem_range'_1] at member
  rcases member with (written | read) | earlier
  · omega
  · omega
  · exact before accessed earlier

end TracedMemory

end Library
