import FractionsOS.Interrupt.ContextOwnership
import FractionsOS.Library.MemoryRegions
import FractionsOS.Library.WordBytes
import Mathlib.Data.List.Induction

/-!
# The stacks of new tasks

`scheduler_create_task` rounds the top of the stack it is given down to 16 bytes and
puts three words below it, without a look at how much room there is.
-/

namespace FractionsOS.Scheduler

open Library.MemoryRegions Library.StackMemory Library.StackMemory.WordStack Library.WordBytes

set_option autoImplicit false

def Task.create (task : Task) (state : SchedulerState) : UInt32 × SchedulerState :=
  schedulerCreateTask task.f task.arg task.st task.sz task.prio state

/-- The byte is written: there are contents of memory that the call changes there. -/
def Writes (task : Task) (state : SchedulerState) (address : UInt32) : Prop :=
  ∃ memory : Memory, (task.create { state with memory }).2.memory address ≠ memory address

def InStack (task : Task) (address : UInt32) : Prop :=
  task.st.toNat ≤ address.toNat ∧ address.toNat < task.st.toNat + task.sz.toNat

/-- The call writes to the stack it is given only, and stores a stack pointer into it. -/
structure RespectsStack (task : Task) (state : SchedulerState) : Prop where
  writes : ∀ address, Writes task state address → InStack task address
  low : task.st.toNat ≤ ((task.create state).2.tasks (task.create state).1).toNat
  high : ((task.create state).2.tasks (task.create state).1).toNat ≤
    task.st.toNat + task.sz.toNat

/-- The three words fit between the base and the rounded top. -/
def FrameFits (task : Task) : Prop :=
  task.st.toNat + 12 ≤ (task.st.toNat + task.sz.toNat) / 16 * 16

def createAll (state : SchedulerState) (tasks : List Task) : SchedulerState :=
  tasks.foldl (fun state task => (task.create state).2) state

def Creates (state : SchedulerState) (tasks earlier : List Task) (task : Task) : Prop :=
  earlier ++ [task] <+: tasks ∧ (task.create (createAll state earlier)).1 ≠ -1

def DisjointStacks (tasks : List Task) : Prop :=
  tasks.Pairwise fun one other => ∀ address, InStack one address → ¬InStack other address

def InFrame (task : Task) (address : UInt32) : Prop :=
  InRegion (stackTop task.st task.sz - 12) 12 address

/-- Each creation respects its stack, and where the stacks are disjoint no later creation
changes the frame that it made. -/
structure StacksRespected (state : SchedulerState) (tasks : List Task) : Prop where
  inside : ∀ earlier task, Creates state tasks earlier task →
    RespectsStack task (createAll state earlier)
  frames : DisjointStacks tasks → ∀ earlier task, Creates state tasks earlier task →
    ∀ address, InFrame task address →
      (createAll state tasks).memory address =
        (createAll state (earlier ++ [task])).memory address

theorem stack_top_value {st sz : UInt32} (fits : st.toNat + sz.toNat < 2 ^ 32) :
    (stackTop st sz).toNat = (st.toNat + sz.toNat) / 16 * 16 := by
  rw [stackTop, UInt32.toNat_and, UInt32.toNat_add, Nat.mod_eq_of_lt fits]
  exact @and_high_bits _ 32 4 fits (by decide)

theorem frame_words (base address : UInt32) :
    InRegion base 12 address ↔
      InRegion base 4 address ∨ InRegion (base + 4) 4 address ∨ InRegion (base + 8) 4 address := by
  have first := @region_split base address 4 8 (by decide) (by decide)
  have second := @region_split (base + 4) address 4 4 (by decide) (by decide)
  have last : byteAddress (base + 4) 4 = base + 8 := by
    change base + 4 + 4 = _
    grind
  rw [last] at second
  exact first.trans (or_congr Iff.rfl second)

section Frame

variable (f arg st sz : UInt32)

theorem initial_stack_memory (memory : Memory) :
    (initialStack memory f arg st sz).memory =
      storeWord (storeWord (storeWord memory (stackTop st sz - 12 + 8) arg)
        (stackTop st sz - 12 + 4) 0) (stackTop st sz - 12) f := by
  have first : stackTop st sz - 12 + 8 = stackTop st sz - 4 := by
    grind
  have second : stackTop st sz - 12 + 4 = stackTop st sz - 4 - 4 := by
    grind
  have third : stackTop st sz - 12 = stackTop st sz - 4 - 4 - 4 := by
    grind
  rw [first, second, third]
  rfl

theorem initial_stack_outside (memory : Memory) {address : UInt32}
    (outside : ¬InRegion (stackTop st sz - 12) 12 address) :
    (initialStack memory f arg st sz).memory address = memory address := by
  rw [frame_words, not_or, not_or] at outside
  rw [initial_stack_memory, store_word_outside _ _ outside.1, store_word_outside _ _ outside.2.1,
    store_word_outside _ _ outside.2.2]

/-- What a frame's byte becomes does not depend on what memory held. -/
theorem initial_stack_inside (memory other : Memory) {address : UInt32}
    (inside : InRegion (stackTop st sz - 12) 12 address) :
    (initialStack memory f arg st sz).memory address =
      (initialStack other f arg st sz).memory address := by
  rw [frame_words] at inside
  rw [initial_stack_memory, initial_stack_memory]
  unfold storeWord
  unfold InRegion at inside
  split_ifs
  · rfl
  · rfl
  · rfl
  · omega

end Frame

section Creation

variable {task : Task} {state : SchedulerState}

theorem created_slot (created : (task.create state).1 ≠ -1) : state.total.toNat < 32 := by
  by_contra full
  apply created
  have noSlot : maxTasks ≤ state.total := UInt32.le_iff_toNat_le.mpr (Nat.le_of_not_lt full)
  rw [Task.create, schedulerCreateTask, if_pos noSlot]

theorem not_created (failed : ¬(task.create state).1 ≠ -1) : (task.create state).2 = state := by
  by_cases slot : state.total.toNat < 32
  · rw [Task.create, create_task_of_slot slot, not_not] at failed
    have full : state.total = -1 := failed
    rw [full] at slot
    exact absurd slot (by decide)
  · have noSlot : maxTasks ≤ state.total := UInt32.le_iff_toNat_le.mpr (Nat.le_of_not_lt slot)
    rw [Task.create, schedulerCreateTask, if_pos noSlot]

theorem create_memory (slot : state.total.toNat < 32) :
    (task.create state).2.memory =
      (initialStack state.memory task.f task.arg task.st task.sz).memory := by
  rw [Task.create, create_task_of_slot slot]

theorem create_stack_pointer (slot : state.total.toNat < 32) :
    (task.create state).2.tasks (task.create state).1 = stackTop task.st task.sz - 12 := by
  have pointer : stackTop task.st task.sz - 4 - 4 - 4 = stackTop task.st task.sz - 12 := by
    grind
  rw [Task.create, create_task_of_slot slot]
  change setTask state.tasks state.total _ state.total = _
  rw [set_task_same, ← pointer]
  rfl

theorem writes_iff (slot : state.total.toNat < 32) (address : UInt32) :
    Writes task state address ↔ InFrame task address := by
  have memories : ∀ memory : Memory, (task.create { state with memory }).2.memory =
      (initialStack memory task.f task.arg task.st task.sz).memory := by
    intro memory
    exact @create_memory task { state with memory } slot
  unfold Writes
  simp only [memories]
  constructor
  · rintro ⟨memory, changed⟩
    by_contra outside
    exact changed (initial_stack_outside _ _ _ _ memory outside)
  · intro inside
    -- a memory that holds another byte than the one stored
    let stored := (initialStack (fun _ => 0) task.f task.arg task.st task.sz).memory address
    refine ⟨fun _ => stored + 1, ?_⟩
    rw [initial_stack_inside _ _ _ _ _ (fun _ => 0) inside]
    change stored ≠ stored + 1
    grind

theorem frame_in_stack (fits : task.st.toNat + task.sz.toNat < 2 ^ 32) (frame : FrameFits task)
    {address : UInt32} (inside : InFrame task address) : InStack task address := by
  have top := stack_top_value fits
  have small : (stackTop task.st task.sz - 12).toNat = (stackTop task.st task.sz).toNat - 12 := by
    apply UInt32.toNat_sub_of_le
    rw [UInt32.le_iff_toNat_le, top]
    unfold FrameFits at frame
    change 12 ≤ _
    omega
  have place := UInt32.sub_add_cancel address (stackTop task.st task.sz - 12)
  have sum := congrArg UInt32.toNat place
  rw [UInt32.toNat_add, small, top] at sum
  unfold InFrame InRegion at inside
  unfold FrameFits at frame
  unfold InStack
  omega

/-- A creation respects its stack exactly when its words fit. -/
theorem respects_stack_iff (slot : state.total.toNat < 32)
    (fits : task.st.toNat + task.sz.toNat < 2 ^ 32) :
    RespectsStack task state ↔ FrameFits task := by
  have top := stack_top_value fits
  constructor
  · intro respects
    have low := respects.low
    have high := respects.high
    rw [create_stack_pointer slot, UInt32.toNat_sub, top] at low high
    unfold FrameFits
    change _ ≤ (2 ^ 32 - 12 + _) % 2 ^ 32 at low
    change (2 ^ 32 - 12 + _) % 2 ^ 32 ≤ _ at high
    omega
  · intro frame
    have first : InFrame task (stackTop task.st task.sz - 12) := by
      unfold InFrame InRegion
      rw [UInt32.sub_self]
      decide
    have inside := frame_in_stack fits frame first
    constructor
    · intro address written
      exact frame_in_stack fits frame ((writes_iff slot address).mp written)
    · rw [create_stack_pointer slot]
      exact inside.1
    · rw [create_stack_pointer slot]
      exact Nat.le_of_lt inside.2

end Creation

theorem create_all_append (state : SchedulerState) (earlier : List Task) (task : Task) :
    createAll state (earlier ++ [task]) = (task.create (createAll state earlier)).2 := by
  rw [createAll, List.foldl_append]
  rfl

section Runs

variable {state : SchedulerState} {tasks : List Task}
  (fits : ∀ task ∈ tasks, task.st.toNat + task.sz.toNat < 2 ^ 32)
  (frames : ∀ earlier task, Creates state tasks earlier task → FrameFits task)

include fits frames

theorem frame_kept (disjoint : DisjointStacks tasks) {earlier : List Task} {task : Task}
    (creates : Creates state tasks earlier task) {address : UInt32}
    (inside : InFrame task address) {later : List Task}
    (made : earlier ++ [task] ++ later <+: tasks) :
    (createAll state (earlier ++ [task] ++ later)).memory address =
      (createAll state (earlier ++ [task])).memory address := by
  have own : InStack task address := by
    apply frame_in_stack (fits task _) (frames earlier task creates) inside
    exact creates.1.subset (List.mem_append_right earlier List.mem_cons_self)
  induction later using List.reverseRecOn with
  | nil => rw [List.append_nil]
  | append_singleton later other induction =>
      have before : earlier ++ [task] ++ later <+: tasks := by
        apply List.IsPrefix.trans _ made
        rw [← List.append_assoc]
        exact List.prefix_append _ [other]
      rw [← List.append_assoc, create_all_append, ← induction before]
      rw [← List.append_assoc] at made
      by_cases created : (other.create (createAll state (earlier ++ [task] ++ later))).1 ≠ -1
      · rw [create_memory (created_slot created)]
        apply initial_stack_outside
        intro overlap
        have otherInside : InStack other address := by
          apply frame_in_stack (fits other _) (frames _ other ⟨made, created⟩) overlap
          exact made.subset (List.mem_append_right _ List.mem_cons_self)
        have pairs := disjoint.sublist made.sublist
        rw [List.append_assoc, List.pairwise_append] at pairs
        exact pairs.2.2 task (List.mem_append_right earlier List.mem_cons_self) other
          (List.mem_append_right later List.mem_cons_self) address own otherInside
      · rw [not_created created]

end Runs

/-- Every creation of a run respects its stack, and so no frame is changed by a later one
on another stack, exactly when the words of all tasks that are created fit. -/
theorem stacks_respected_iff (state : SchedulerState) (tasks : List Task)
    (fits : ∀ task ∈ tasks, task.st.toNat + task.sz.toNat < 2 ^ 32) :
    StacksRespected state tasks ↔
      ∀ earlier task, Creates state tasks earlier task → FrameFits task := by
  have each : ∀ earlier task, Creates state tasks earlier task →
      (RespectsStack task (createAll state earlier) ↔ FrameFits task) := by
    intro earlier task creates
    apply respects_stack_iff (created_slot creates.2) (fits task _)
    exact creates.1.subset (List.mem_append_right earlier List.mem_cons_self)
  constructor
  · intro respected earlier task creates
    exact (each earlier task creates).mp (respected.inside earlier task creates)
  · intro frames
    constructor
    · intro earlier task creates
      exact (each earlier task creates).mpr (frames earlier task creates)
    · intro disjoint earlier task creates address inside
      obtain ⟨later, rfl⟩ := creates.1
      exact frame_kept fits frames disjoint creates inside (List.prefix_refl _)

/-- Two stacks of 64 bytes, one after the other. -/
theorem stacks_respected_neighbours :
    StacksRespected (bootState fun _ => 0)
      [⟨0x1000, 1, 0x8000, 64, 0⟩, ⟨0x2000, 2, 0x8040, 64, 0⟩] := by
  have fits : ∀ task ∈ [(⟨0x1000, 1, 0x8000, 64, 0⟩ : Task), ⟨0x2000, 2, 0x8040, 64, 0⟩],
      task.st.toNat + task.sz.toNat < 2 ^ 32 ∧ FrameFits task := by
    unfold FrameFits
    simp
  apply (stacks_respected_iff _ _ fun task member => (fits task member).1).mpr
  intro earlier task creates
  exact (fits task (creates.1.subset (List.mem_append_right earlier List.mem_cons_self))).2

/-- An empty stack is accepted, and the bytes below it are overwritten. -/
theorem empty_stack_overrun :
    ¬StacksRespected (bootState fun _ => 0) [⟨0x1000, 1, 0x8000, 0, 0⟩] := by
  intro respected
  have respects := respected.inside [] ⟨0x1000, 1, 0x8000, 0, 0⟩ ⟨List.prefix_refl _, by decide⟩
  exact absurd respects.low (by decide)

end FractionsOS.Scheduler
