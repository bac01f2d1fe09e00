import Mathlib.Data.Nat.Digits.Lemmas

/-!
# Numerals in text

Digits up to sixteen, upper case when written and either case when read. A
numeral, padded with zeros or not, is read back as the number it was written for.
-/

namespace Library.Numerals

set_option autoImplicit false

def digitChar (digit : Nat) : Char :=
  ['0', '1', '2', '3', '4', '5', '6', '7', '8', '9', 'A', 'B', 'C', 'D', 'E', 'F'].getD digit '?'

def digitValue (c : Char) : Option Nat :=
  if '0' ≤ c ∧ c ≤ '9' then some (c.toNat - 48)
  else if 'A' ≤ c ∧ c ≤ 'F' then some (c.toNat - 55)
  else if 'a' ≤ c ∧ c ≤ 'f' then some (c.toNat - 87)
  else none

/-- The digits of a number, the highest one first, without leading zeros. -/
def digitsOf (base number : Nat) : List Nat :=
  if number = 0 then [0] else (Nat.digits base number).reverse

def numeral (base number : Nat) : List Char := (digitsOf base number).map digitChar

def paddedNumeral (width base number : Nat) : List Char :=
  (numeral base number).leftpad width '0'

def readFrom (base value : Nat) : List Char → Option Nat
  | [] => some value
  | c :: text =>
      match digitValue c with
      | none => none
      | some digit => if digit < base then readFrom base (value * base + digit) text else none

def readNumeral (base : Nat) (text : List Char) : Option Nat :=
  if text = [] then none else readFrom base 0 text

theorem digit_value_char : ∀ digit, digit < 16 → digitValue (digitChar digit) = some digit := by
  decide

section Reading

variable {base : Nat}

theorem read_digits (few : base ≤ 16) (digits : List Nat) (value : Nat)
    (valid : ∀ digit ∈ digits, digit < base) :
    readFrom base value (digits.map digitChar) =
      some (digits.foldl (fun value digit => value * base + digit) value) := by
  induction digits generalizing value with
  | nil => rfl
  | cons digit digits induction =>
      have small := valid digit List.mem_cons_self
      have rest := induction (value * base + digit) fun other member =>
        valid other (List.mem_cons_of_mem digit member)
      rw [List.map_cons, readFrom, digit_value_char digit (Nat.lt_of_lt_of_le small few)]
      dsimp only
      rw [if_pos small, rest]
      rfl

theorem read_zeros (positive : 0 < base) (count : Nat) (text : List Char) :
    readFrom base 0 (List.replicate count '0' ++ text) = readFrom base 0 text := by
  induction count with
  | zero => rfl
  | succ count induction =>
      rw [List.replicate_succ, List.cons_append, readFrom]
      have zero : digitValue '0' = some 0 := by decide
      rw [zero]
      dsimp only
      rw [if_pos positive, Nat.zero_mul, Nat.zero_add, induction]

theorem fold_digits_of (number : Nat) :
    (digitsOf base number).foldl (fun value digit => value * base + digit) 0 = number := by
  unfold digitsOf
  split_ifs with zero
  · rw [zero, List.foldl_cons, List.foldl_nil, Nat.zero_mul]
  · have folded : (Nat.digits base number).foldr (fun digit value => value * base + digit) 0 =
        Nat.ofDigits base (Nat.digits base number) := by
      rw [Nat.ofDigits_eq_foldr]
      congr 1
      funext digit value
      rw [Nat.mul_comm, Nat.add_comm]
      rfl
    rw [List.foldl_reverse, folded, Nat.ofDigits_digits]

theorem digits_of_valid (least : 1 < base) (number : Nat) :
    ∀ digit ∈ digitsOf base number, digit < base := by
  unfold digitsOf
  split_ifs with zero
  · intro digit member
    rw [List.mem_singleton.mp member]
    exact Nat.lt_of_succ_lt least
  · intro digit member
    exact Nat.digits_lt_base least (List.mem_reverse.mp member)

theorem digits_of_nonempty (number : Nat) : digitsOf base number ≠ [] := by
  unfold digitsOf
  split_ifs with zero
  · exact List.cons_ne_nil _ _
  · intro empty
    exact zero (Nat.digits_eq_nil_iff_eq_zero.mp (List.reverse_eq_nil_iff.mp empty))

theorem numeral_nonempty (number : Nat) : numeral base number ≠ [] := fun empty =>
  digits_of_nonempty number (List.map_eq_nil_iff.mp empty)

theorem read_numeral_text (least : 1 < base) (few : base ≤ 16) (number : Nat) :
    readFrom base 0 (numeral base number) = some number := by
  rw [numeral, read_digits few _ 0 (digits_of_valid least number), fold_digits_of]

theorem read_numeral_written (least : 1 < base) (few : base ≤ 16) (number : Nat) :
    readNumeral base (numeral base number) = some number := by
  rw [readNumeral, if_neg (numeral_nonempty number), read_numeral_text least few]

theorem read_padded_written (least : 1 < base) (few : base ≤ 16) (width number : Nat) :
    readNumeral base (paddedNumeral width base number) = some number := by
  have nonempty : paddedNumeral width base number ≠ [] := fun empty =>
    numeral_nonempty number (List.append_eq_nil_iff.mp empty).2
  rw [readNumeral, if_neg nonempty]
  exact (read_zeros (Nat.lt_of_succ_lt least) _ _).trans (read_numeral_text least few number)

theorem digits_of_length (least : 1 < base) {width number : Nat} (positive : 0 < width)
    (fits : number < base ^ width) : (digitsOf base number).length ≤ width := by
  unfold digitsOf
  split_ifs
  · exact positive
  · rw [List.length_reverse]
    exact (Nat.digits_length_le_iff least number).mpr fits

theorem padded_length (least : 1 < base) {width number : Nat} (positive : 0 < width)
    (fits : number < base ^ width) : (paddedNumeral width base number).length = width := by
  rw [paddedNumeral, List.length_leftpad, numeral, List.length_map]
  exact Nat.max_eq_left (digits_of_length least positive fits)

theorem padded_digits (least : 1 < base) (few : base ≤ 16) (width number : Nat) :
    ∀ c ∈ paddedNumeral width base number, ∃ digit < base, digitValue c = some digit := by
  intro c member
  rcases List.mem_append.mp member with zeros | digits
  · rw [List.eq_of_mem_replicate zeros]
    exact ⟨0, Nat.lt_of_succ_lt least, by decide⟩
  · rcases List.mem_map.mp digits with ⟨digit, isDigit, rfl⟩
    have valid := digits_of_valid least number digit isDigit
    exact ⟨digit, valid, digit_value_char digit (Nat.lt_of_lt_of_le valid few)⟩

/-- Only zero is written with a zero in front. -/
theorem numeral_head {number : Nat} (positive : 0 < number) (least : 1 < base)
    (few : base ≤ 16) : ∃ c text, numeral base number = c :: text ∧ c ≠ '0' := by
  have nonzero : number ≠ 0 := Nat.ne_of_gt positive
  have nonempty : Nat.digits base number ≠ [] := Nat.digits_ne_nil_iff_ne_zero.mpr nonzero
  have last := Nat.getLast_digit_ne_zero base nonzero
  have valid := Nat.digits_lt_base least (List.getLast_mem nonempty)
  have ends := List.dropLast_append_getLast nonempty
  generalize (Nat.digits base number).getLast nonempty = digit at last valid ends
  refine ⟨digitChar digit, ((Nat.digits base number).dropLast.reverse).map digitChar, ?_, ?_⟩
  · rw [numeral, digitsOf, if_neg nonzero]
    nth_rewrite 1 [← ends]
    rw [List.reverse_concat, List.map_cons]
  · intro same
    have read := digit_value_char digit (Nat.lt_of_lt_of_le valid few)
    rw [same] at read
    exact last (Option.some.inj read).symm

end Reading

end Library.Numerals
