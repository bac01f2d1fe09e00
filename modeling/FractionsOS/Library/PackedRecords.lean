import Mathlib.Data.List.Basic
import Mathlib.Algebra.GroupWithZero.Nat

/-!
# Packed records

A record is its fields one after the other, without gaps. A field is found behind the
sizes of the fields in front of it, whatever these hold.
-/

namespace Library.PackedRecords

set_option autoImplicit false

section Records

variable {Name : Type}

def pack (fields : List (Name × Nat)) (contents : Name → Nat → UInt8) : List UInt8 :=
  fields.flatMap fun field => (List.range field.2).map (contents field.1)

theorem pack_length (fields : List (Name × Nat)) (contents : Name → Nat → UInt8) :
    (pack fields contents).length = (fields.map Prod.snd).sum := by
  unfold pack
  rw [List.length_flatMap]
  simp only [List.length_map, List.length_range]

variable [DecidableEq Name]

def offsetOf (fields : List (Name × Nat)) (name : Name) : Nat :=
  ((fields.takeWhile fun field => field.1 ≠ name).map Prod.snd).sum

def sizeOf (fields : List (Name × Nat)) (name : Name) : Nat := (fields.lookup name).getD 0

variable {fields : List (Name × Nat)} {name : Name}

theorem offset_here (size : Nat) : offsetOf ((name, size) :: fields) name = 0 := by
  unfold offsetOf
  rw [List.takeWhile_cons_of_neg (by simp)]
  rfl

theorem offset_behind {other : Name} (different : other ≠ name) (size : Nat) :
    offsetOf ((other, size) :: fields) name = size + offsetOf fields name := by
  unfold offsetOf
  rw [List.takeWhile_cons_of_pos (by simpa using different)]
  rfl

theorem size_here (size : Nat) : sizeOf ((name, size) :: fields) name = size := by
  unfold sizeOf
  rw [List.lookup_cons_self]
  rfl

theorem size_behind {other : Name} (different : other ≠ name) (size : Nat) :
    sizeOf ((other, size) :: fields) name = sizeOf fields name := by
  unfold sizeOf
  rw [List.lookup_cons, beq_false_of_ne different.symm]

/-- Each byte of a field is where the sizes say. -/
theorem packed_byte (contents : Name → Nat → UInt8) {index : Nat}
    (inside : index < sizeOf fields name) :
    (pack fields contents)[offsetOf fields name + index]? = some (contents name index) := by
  induction fields with
  | nil => cases inside
  | cons field fields induction =>
      rcases field with ⟨other, size⟩
      have bytes : ((List.range size).map (contents other)).length = size := by
        rw [List.length_map, List.length_range]
      unfold pack
      rw [List.flatMap_cons]
      by_cases here : other = name
      · subst here
        rw [size_here] at inside
        rw [offset_here, Nat.zero_add, List.getElem?_append_left (by rw [bytes]; exact inside),
          List.getElem?_map, List.getElem?_range inside]
        rfl
      · rw [size_behind here] at inside
        rw [offset_behind here, List.getElem?_append_right (by rw [bytes]; omega), bytes,
          Nat.add_assoc, Nat.add_sub_cancel_left]
        exact induction inside

theorem packed_get (contents : Name → Nat → UInt8) (behind : List UInt8) {index : Nat}
    (inside : index < sizeOf fields name) :
    (pack fields contents ++ behind).getD (offsetOf fields name + index) 0 =
      contents name index := by
  have byte := packed_byte contents inside
  have within : offsetOf fields name + index < (pack fields contents).length := by
    by_contra outside
    rw [List.getElem?_eq_none (Nat.le_of_not_lt outside)] at byte
    cases byte
  rw [List.getD_eq_getElem?_getD, List.getElem?_append_left within, byte, Option.getD_some]

end Records

end Library.PackedRecords
