import Mathlib.Data.List.Basic
import Mathlib.Logic.Function.Basic

/-!
# A ring of commands

A producer stores commands in the slots of a ring and tells the consumer where the
next one will go. The consumer fetches the slots from where it stopped up to there.
-/

namespace Library.SubmissionRing

set_option autoImplicit false

inductive RingWrite (Command : Type*) where
  | store (slot : Nat) (command : Command)
  | tail (value : Nat)
  deriving DecidableEq

/-- The consumer's view: what the slots hold, where it stopped and what it fetched. -/
structure Consumer (Command : Type*) where
  slots : Nat → Command
  head : Nat
  fetched : List Command

section Fetching

variable {Command : Type*} (size : Nat)

def slotsUpTo (head tail : Nat) : List Nat :=
  (List.range ((tail + size - head) % size)).map fun i => (head + i) % size

def Consumer.write (consumer : Consumer Command) : RingWrite Command → Consumer Command
  | .store slot command => { consumer with slots := Function.update consumer.slots slot command }
  | .tail value =>
      { consumer with
        head := value
        fetched := consumer.fetched ++ (slotsUpTo size consumer.head value).map consumer.slots }

def Consumer.run (consumer : Consumer Command) (writes : List (RingWrite Command)) :
    Consumer Command :=
  writes.foldl (Consumer.write size) consumer

/-- What the protocol asks of the `k`-th command, counted from 0. -/
def submission (k : Nat) (command : Command) : List (RingWrite Command) :=
  [.store (k % size) command, .tail ((k + 1) % size)]

def submissions (k : Nat) : List Command → List (RingWrite Command)
  | [] => []
  | command :: commands => submission size k command ++ submissions (k + 1) commands

variable {size}

/-- The next slot is the only one between two consecutive tails. -/
theorem slots_up_to_next (several : 1 < size) (k : Nat) :
    slotsUpTo size (k % size) ((k + 1) % size) = [k % size] := by
  have positive : 0 < size := by omega
  have inside : k % size < size := Nat.mod_lt _ positive
  have one : ((k + 1) % size + size - k % size) % size = 1 := by
    have step : (k + 1) % size = (k % size + 1) % size := (Nat.mod_add_mod k size 1).symm
    rw [step]
    by_cases wraps : k % size + 1 = size
    · have gap : 0 + size - k % size = 1 := by omega
      rw [wraps, Nat.mod_self, gap, Nat.mod_eq_of_lt several]
    · have gap : k % size + 1 + size - k % size = 1 + size := by omega
      rw [Nat.mod_eq_of_lt (by omega : k % size + 1 < size), gap, Nat.add_mod_right,
        Nat.mod_eq_of_lt several]
  rw [slotsUpTo, one]
  change [(k % size + 0) % size] = _
  rw [Nat.add_zero, Nat.mod_mod]

theorem submission_fetched (several : 1 < size) {consumer : Consumer Command} {k : Nat}
    (stopped : consumer.head = k % size) (command : Command) :
    (consumer.run size (submission size k command)).head = (k + 1) % size ∧
      (consumer.run size (submission size k command)).fetched = consumer.fetched ++ [command] := by
  constructor
  · rfl
  · change consumer.fetched ++ (slotsUpTo size consumer.head ((k + 1) % size)).map
      (Function.update consumer.slots (k % size) command) = _
    rw [stopped, slots_up_to_next several, List.map_singleton, Function.update_self]

/-- Under the protocol every command is fetched once, in order. -/
theorem submissions_fetched (several : 1 < size) {consumer : Consumer Command} {k : Nat}
    (stopped : consumer.head = k % size) (commands : List Command) :
    (consumer.run size (submissions size k commands)).fetched = consumer.fetched ++ commands := by
  induction commands generalizing consumer k with
  | nil => exact (List.append_nil consumer.fetched).symm
  | cons command commands induction =>
      have first := submission_fetched several stopped command
      have rest := induction first.1
      rw [first.2, List.append_assoc] at rest
      rw [submissions, Consumer.run, List.foldl_append]
      exact rest

end Fetching

end Library.SubmissionRing
