import FractionsOS.Library.StackMemory

/-!
# Stacks that agree

Two stacks agree on words from their pointers on, of some of which only the low half counts.
Pushes and pops keep the agreement, whatever the memory below the pointers holds.
-/

namespace Library.StackAgreement

open StackMemory StackMemory.WordStack

set_option autoImplicit false

inductive Extent where
  | whole
  | low
  deriving DecidableEq, Repr

def Extent.Same : Extent → UInt32 → UInt32 → Prop
  | .whole, one, other => one = other
  | .low, one, other => one.toUInt16 = other.toUInt16

theorem same_self (extent : Extent) (word : UInt32) : extent.Same word word := by
  cases extent with
  | whole => rfl
  | low => rfl

theorem same_symm {extent : Extent} {one other : UInt32} (same : extent.Same one other) :
    extent.Same other one := by
  cases extent with
  | whole => exact Eq.symm same
  | low => exact Eq.symm same

theorem same_trans {extent : Extent} {one other third : UInt32} (first : extent.Same one other)
    (second : extent.Same other third) : extent.Same one third := by
  cases extent with
  | whole => exact Eq.trans first second
  | low => exact Eq.trans first second

/-- From the pointers on the stacks have the same words, as far as these count. -/
def Agree : List Extent → WordStack → WordStack → Prop
  | [], _, _ => True
  | extent :: extents, one, other =>
      extent.Same one.top other.top ∧ Agree extents one.drop other.drop

section Stacks

variable {extents : List Extent} {one other : WordStack}

theorem agree_self (extents : List Extent) (stack : WordStack) : Agree extents stack stack := by
  induction extents generalizing stack with
  | nil => trivial
  | cons extent extents induction => exact ⟨same_self extent _, induction stack.drop⟩

theorem agree_symm (agree : Agree extents one other) : Agree extents other one := by
  induction extents generalizing one other with
  | nil => trivial
  | cons extent extents induction => exact ⟨same_symm agree.1, induction agree.2⟩

theorem agree_trans {third : WordStack} (first : Agree extents one other)
    (second : Agree extents other third) : Agree extents one third := by
  induction extents generalizing one other third with
  | nil => trivial
  | cons extent extents induction =>
      exact ⟨same_trans first.1 second.1, induction first.2 second.2⟩

theorem stack_from_parts {stack : WordStack} {memory : Memory} {pointer : UInt32}
    (sameMemory : stack.memory = memory) (samePointer : stack.pointer = pointer) :
    stack = ⟨memory, pointer⟩ := by
  rw [← sameMemory, ← samePointer]

theorem push_all_append (stack : WordStack) (first second : List UInt32) :
    stack.pushAll (first ++ second) = (stack.pushAll first).pushAll second := List.foldl_append

theorem push_keeps_words (stack : WordStack) (word : UInt32) {count : Nat}
    (fits : count < 2 ^ 30 - 1) :
    KeepsWords stack.memory (stack.push word).memory stack.pointer count := by
  intro index below
  apply load_store_apart
  have distance : stack.pointer + wordOffset index - (stack.pointer - 4) =
      wordOffset (index + 1) := by
    rw [word_offset_succ]
    grind
  have small : 4 * (index + 1) < 2 ^ 32 := by omega
  unfold Apart
  rw [distance, word_offset_value, Nat.mod_eq_of_lt small]
  omega

theorem push_all_keeps_words (stack : WordStack) (words : List UInt32) {count : Nat}
    (fits : words.length + count < 2 ^ 30) :
    KeepsWords stack.memory (stack.pushAll words).memory stack.pointer count := by
  induction words generalizing stack count with
  | nil => exact keeps_words_self _ _ _
  | cons word words induction =>
      rw [List.length_cons] at fits
      have first := @push_keeps_words stack word count (by omega)
      have later := @induction (stack.push word) (count + 1) (by omega)
      intro index below
      have moved : (stack.push word).pointer + wordOffset (index + 1) =
          stack.pointer + wordOffset index := by
        rw [push_pointer, word_offset_succ]
        grind
      have kept := later (index + 1) (Nat.succ_lt_succ below)
      rw [moved] at kept
      exact kept.trans (first index below)

theorem agree_kept {after : Memory} (kept : KeepsWords one.memory after one.pointer extents.length)
    (agree : Agree extents one other) : Agree extents ⟨after, one.pointer⟩ other := by
  induction extents generalizing one other with
  | nil => trivial
  | cons extent extents induction =>
      have later : KeepsWords one.drop.memory after one.drop.pointer extents.length := by
        intro index below
        have word := kept (index + 1) (Nat.succ_lt_succ below)
        rw [word_offset_succ, UInt32.add_comm (wordOffset index), ← UInt32.add_assoc] at word
        exact word
      have first := kept 0 (Nat.succ_pos _)
      rw [word_offset_zero, UInt32.add_zero] at first
      refine ⟨?_, induction later agree.2⟩
      change extent.Same (loadWord after one.pointer) other.top
      rw [first]
      exact agree.1

theorem push_drop (stack : WordStack) (word : UInt32) :
    (stack.push word).drop = ⟨(stack.push word).memory, stack.pointer⟩ := by
  have pointer : stack.pointer - 4 + 4 = stack.pointer := by
    grind
  exact congrArg (WordStack.mk _) pointer

theorem agree_push {extent : Extent} {word otherWord : UInt32} (same : extent.Same word otherWord)
    (agree : Agree extents one other) (fits : extents.length < 2 ^ 30 - 1) :
    Agree (extent :: extents) (one.push word) (other.push otherWord) := by
  constructor
  · rw [push_top, push_top]
    exact same
  · rw [push_drop, push_drop]
    have first := agree_kept (push_keeps_words one word fits) agree
    exact agree_symm (agree_kept (push_keeps_words other otherWord fits) (agree_symm first))

theorem agree_push_all (words : List UInt32) (agree : Agree extents one other)
    (fits : words.length + extents.length < 2 ^ 30) :
    Agree (List.replicate words.length .whole ++ extents) (one.pushAll words)
      (other.pushAll words) := by
  induction words generalizing extents one other with
  | nil => exact agree
  | cons word words induction =>
      rw [List.length_cons] at fits ⊢
      have pushed := agree_push (same_self .whole word) agree (by omega)
      rw [List.replicate_succ', List.append_assoc]
      apply induction pushed
      rw [List.length_cons]
      omega

end Stacks

end Library.StackAgreement
