import Mathlib.Algebra.Group.Nat.Defs
import Mathlib.Data.List.Basic

/-!
# A downward stack of words in byte-addressed memory

A 32-bit machine's memory, its little-endian words, and the stack that a stack
pointer into it makes. `Holds` names the words a stack is known to hold from its
pointer on; pushes and pops keep it, so a run is followed on a list of words.
-/

namespace Library.StackMemory

set_option autoImplicit false

abbrev Memory : Type := UInt32 → UInt8

def byteOf (word : UInt32) (offset : Nat) : UInt8 := UInt8.ofNat (word.toNat / 256 ^ offset)

def loadWord (memory : Memory) (address : UInt32) : UInt32 :=
  UInt32.ofNat ((memory address).toNat + 256 * (memory (address + 1)).toNat +
    256 ^ 2 * (memory (address + 2)).toNat + 256 ^ 3 * (memory (address + 3)).toNat)

/-- Addresses wrap at the end of memory. -/
def storeWord (memory : Memory) (address word : UInt32) : Memory := fun byte =>
  if (byte - address).toNat < 4 then byteOf word (byte - address).toNat else memory byte

theorem add_sub_self (address offset : UInt32) : address + offset - address = offset := by
  rw [UInt32.add_comm, UInt32.add_sub_cancel]

theorem store_byte_same (memory : Memory) (address word offset : UInt32) (small : offset.toNat < 4) :
    (storeWord memory address word (address + offset)).toNat =
      word.toNat / 256 ^ offset.toNat % 256 := by
  unfold storeWord
  rw [add_sub_self, if_pos small, byteOf, UInt8.toNat_ofNat']

theorem load_store_same (memory : Memory) (address word : UInt32) :
    loadWord (storeWord memory address word) address = word := by
  have bound := word.toNat_lt
  have first := store_byte_same memory address word 0 (by decide)
  have second := store_byte_same memory address word 1 (by decide)
  have third := store_byte_same memory address word 2 (by decide)
  have fourth := store_byte_same memory address word 3 (by decide)
  rw [UInt32.add_zero] at first
  apply UInt32.toNat_inj.mp
  rw [loadWord, UInt32.toNat_ofNat', first, second, third, fourth]
  change (word.toNat / 256 ^ 0 % 256 + 256 * (word.toNat / 256 ^ 1 % 256) +
    256 ^ 2 * (word.toNat / 256 ^ 2 % 256) + 256 ^ 3 * (word.toNat / 256 ^ 3 % 256)) % 2 ^ 32 = _
  omega

def Apart (left right : UInt32) : Prop := 4 ≤ (left - right).toNat ∧ (left - right).toNat ≤ 2 ^ 32 - 4

theorem load_store_apart (memory : Memory) {address other : UInt32} (word : UInt32)
    (apart : Apart other address) :
    loadWord (storeWord memory address word) other = loadWord memory other := by
  have outside : ∀ offset : UInt32, offset.toNat < 4 →
      storeWord memory address word (other + offset) = memory (other + offset) := by
    intro offset small
    have moved : other + offset - address = other - address + offset := by
      grind
    apply if_neg
    rw [moved, UInt32.toNat_add]
    rcases apart with ⟨above, below⟩
    omega
  have first := outside 0 (by decide)
  rw [UInt32.add_zero] at first
  unfold loadWord
  rw [first, outside 1 (by decide), outside 2 (by decide), outside 3 (by decide)]

structure WordStack where
  memory : Memory
  pointer : UInt32

namespace WordStack

def push (stack : WordStack) (word : UInt32) : WordStack :=
  ⟨storeWord stack.memory (stack.pointer - 4) word, stack.pointer - 4⟩

def top (stack : WordStack) : UInt32 := loadWord stack.memory stack.pointer

def below (stack : WordStack) : UInt32 := loadWord stack.memory (stack.pointer - 4)

def drop (stack : WordStack) : WordStack := { stack with pointer := stack.pointer + 4 }

/-- The words from the pointer on, as far as they are known. -/
def Holds (stack : WordStack) : List UInt32 → Prop
  | [] => True
  | word :: words => stack.top = word ∧ stack.drop.Holds words

@[simp] theorem push_pointer (stack : WordStack) (word : UInt32) :
    (stack.push word).pointer = stack.pointer - 4 := rfl

@[simp] theorem drop_pointer (stack : WordStack) : stack.drop.pointer = stack.pointer + 4 := rfl

@[simp] theorem push_top (stack : WordStack) (word : UInt32) : (stack.push word).top = word :=
  load_store_same stack.memory (stack.pointer - 4) word

theorem holds_of_store_below (stack : WordStack) (address word : UInt32) (words : List UInt32)
    (above : 4 ≤ (stack.pointer - address).toNat)
    (fits : (stack.pointer - address).toNat + 4 * words.length < 2 ^ 32)
    (holds : stack.Holds words) :
    (⟨storeWord stack.memory address word, stack.pointer⟩ : WordStack).Holds words := by
  induction words generalizing stack with
  | nil => trivial
  | cons first words induction =>
      rw [List.length_cons] at fits
      have moved : stack.pointer + 4 - address = stack.pointer - address + 4 := by
        grind
      have next : (stack.drop.pointer - address).toNat = (stack.pointer - address).toNat + 4 := by
        rw [drop_pointer, moved, UInt32.toNat_add]
        apply Nat.mod_eq_of_lt
        change (stack.pointer - address).toNat + 4 < 2 ^ 32
        omega
      constructor
      · exact (load_store_apart stack.memory word ⟨above, by omega⟩).trans holds.1
      · exact induction stack.drop (by omega) (by omega) holds.2

theorem push_holds {stack : WordStack} {words : List UInt32} (word : UInt32)
    (holds : stack.Holds words) (fits : words.length < 2 ^ 30 - 1) :
    (stack.push word).Holds (word :: words) := by
  have distance : (stack.pointer - (stack.pointer - 4)).toNat = 4 := by
    have same : stack.pointer - (stack.pointer - 4) = 4 := by
      grind
    rw [same]
    rfl
  have back : (stack.push word).drop =
      ⟨storeWord stack.memory (stack.pointer - 4) word, stack.pointer⟩ := by
    have pointer : stack.pointer - 4 + 4 = stack.pointer := by
      grind
    exact congrArg (WordStack.mk _) pointer
  constructor
  · exact push_top stack word
  · rw [back]
    exact holds_of_store_below stack _ word words (by omega) (by omega) holds

def wordOffset (count : Nat) : UInt32 := 4 * UInt32.ofNat count

theorem word_offset_zero : wordOffset 0 = 0 := rfl

theorem word_offset_succ (count : Nat) : wordOffset (count + 1) = wordOffset count + 4 := by
  rw [wordOffset, UInt32.ofNat_add, wordOffset]
  change 4 * (UInt32.ofNat count + 1) = _
  grind

theorem word_offset_value (count : Nat) : (wordOffset count).toNat = 4 * count % 2 ^ 32 := by
  rw [wordOffset, UInt32.toNat_mul, UInt32.toNat_ofNat']
  change 4 * (count % 2 ^ 32) % 2 ^ 32 = _
  omega

def KeepsWords (before after : Memory) (address : UInt32) (count : Nat) : Prop :=
  ∀ index, index < count →
    loadWord after (address + wordOffset index) = loadWord before (address + wordOffset index)

theorem keeps_words_self (memory : Memory) (address : UInt32) (count : Nat) :
    KeepsWords memory memory address count := fun _ _ => rfl

theorem holds_of_kept {stack : WordStack} {after : Memory} {words : List UInt32}
    (kept : KeepsWords stack.memory after stack.pointer words.length) (holds : stack.Holds words) :
    (⟨after, stack.pointer⟩ : WordStack).Holds words := by
  induction words generalizing stack with
  | nil => trivial
  | cons word words induction =>
      have later : KeepsWords stack.drop.memory after stack.drop.pointer words.length := by
        intro index below
        have one := kept (index + 1) (Nat.succ_lt_succ below)
        rw [word_offset_succ, UInt32.add_comm (wordOffset index), ← UInt32.add_assoc] at one
        exact one
      have first := kept 0 (Nat.succ_pos _)
      rw [word_offset_zero, UInt32.add_zero] at first
      exact ⟨first.trans holds.1, induction later holds.2⟩

def pushAll (stack : WordStack) (words : List UInt32) : WordStack := words.foldl push stack

theorem push_all_holds {stack : WordStack} {words : List UInt32} (pushed : List UInt32)
    (holds : stack.Holds words) (fits : pushed.length + words.length < 2 ^ 30) :
    (stack.pushAll pushed).Holds (pushed.reverse ++ words) := by
  induction pushed generalizing stack words with
  | nil => exact holds
  | cons word pushed induction =>
      rw [List.length_cons] at fits
      rw [List.reverse_cons, List.append_assoc]
      apply induction (push_holds word holds (by omega))
      rw [List.length_cons]
      omega

theorem push_all_pointer (stack : WordStack) (pushed : List UInt32) :
    (stack.pushAll pushed).pointer = stack.pointer - wordOffset pushed.length := by
  induction pushed generalizing stack with
  | nil => exact (UInt32.sub_zero _).symm
  | cons word pushed induction =>
      change ((stack.push word).pushAll pushed).pointer = _
      rw [induction, push_pointer, List.length_cons, word_offset_succ]
      grind

/-- Pops a number of words and gives the last of them back, if there is one. -/
def popWords (stack : WordStack) : Nat → Option UInt32 × WordStack
  | 0 => (none, stack)
  | count + 1 => (some (stack.popWords count).2.top, (stack.popWords count).2.drop)

theorem pop_words_below (stack : WordStack) (count : Nat) :
    (stack.popWords count).2 = ⟨stack.memory, stack.pointer + wordOffset count⟩ := by
  induction count with
  | zero =>
      rw [word_offset_zero, UInt32.add_zero]
      rfl
  | succ count induction =>
      change (stack.popWords count).2.drop = _
      rw [induction, word_offset_succ, ← UInt32.add_assoc]
      rfl

end WordStack

end Library.StackMemory
