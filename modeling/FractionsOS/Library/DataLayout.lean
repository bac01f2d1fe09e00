import Mathlib.Algebra.Group.Nat.Defs
import Mathlib.Data.List.Basic

/-!
# Arrays in memory

Arrays of numbers of a fixed size as a little-endian machine lays them out, and
what reads of another size find in them.
-/

namespace Library.DataLayout

set_option autoImplicit false

def byteOf (value offset : Nat) : UInt8 := UInt8.ofNat (value / 256 ^ offset)

def bytesOf (size value : Nat) : List UInt8 := (List.range size).map (byteOf value)

def arrayBytes (size : Nat) (values : List Nat) : List UInt8 := values.flatMap (bytesOf size)

def placed (beyond : Nat → UInt8) (bytes : List UInt8) : Nat → UInt8 :=
  fun address => bytes.getD address (beyond address)

def loadNumber (memory : Nat → UInt8) (address : Nat) : Nat → Nat
  | 0 => 0
  | size + 1 => (memory address).toNat + 256 * loadNumber memory (address + 1) size

theorem bytes_of_length (size value : Nat) : (bytesOf size value).length = size := by
  rw [bytesOf, List.length_map, List.length_range]

theorem array_byte (size : Nat) (values : List Nat) (index : Nat) (inside : index < values.length)
    (offset : Nat) (inElement : offset < size) :
    (arrayBytes size values)[size * index + offset]? = some (byteOf (values.getD index 0) offset) := by
  induction values generalizing index with
  | nil => cases inside
  | cons value values induction =>
      rw [arrayBytes, List.flatMap_cons]
      cases index with
      | zero =>
          have first : offset < (bytesOf size value).length := by
            rw [bytes_of_length]
            exact inElement
          rw [Nat.mul_zero, Nat.zero_add, List.getElem?_append_left first, bytesOf, List.getElem?_map,
            List.getElem?_range inElement]
          rfl
      | succ index =>
          have later := induction index (Nat.lt_of_succ_lt_succ inside)
          have behind : (bytesOf size value).length ≤ size * (index + 1) + offset := by
            rw [bytes_of_length, Nat.mul_succ]
            omega
          have address : size * (index + 1) + offset - size = size * index + offset := by
            rw [Nat.mul_succ]
            omega
          rw [List.getElem?_append_right behind, bytes_of_length, address]
          exact later

theorem load_number_part (memory : Nat → UInt8) (value address offset size : Nat)
    (held : ∀ step, step < size → memory (address + step) = byteOf value (offset + step)) :
    loadNumber memory address size = value / 256 ^ offset % 256 ^ size := by
  induction size generalizing address offset with
  | zero => rw [loadNumber, Nat.pow_zero, Nat.mod_one]
  | succ size induction =>
      have first : memory address = byteOf value offset := held 0 (Nat.succ_pos size)
      have later := induction (address + 1) (offset + 1) fun step bound => by
        rw [Nat.add_assoc, Nat.add_assoc, Nat.add_comm 1 step]
        exact held (step + 1) (Nat.succ_lt_succ bound)
      have byte : (byteOf value offset).toNat = value / 256 ^ offset % 256 := UInt8.toNat_ofNat'
      have shifted : value / 256 ^ (offset + 1) = value / 256 ^ offset / 256 := by
        rw [Nat.pow_succ, Nat.div_div_eq_div_mul]
      rw [loadNumber, first, later, byte, shifted, Nat.pow_succ', Nat.mod_mul]

theorem load_element_part (size : Nat) (values : List Nat) (index : Nat)
    (inside : index < values.length) (offset width : Nat) (inElement : offset + width ≤ size)
    (beyond : Nat → UInt8) :
    loadNumber (placed beyond (arrayBytes size values)) (size * index + offset) width =
      values.getD index 0 / 256 ^ offset % 256 ^ width := by
  apply load_number_part
  intro step bound
  rw [Nat.add_assoc, placed, List.getD_eq_getElem?_getD,
    array_byte size values index inside _ (by omega), Option.getD_some]

end Library.DataLayout
