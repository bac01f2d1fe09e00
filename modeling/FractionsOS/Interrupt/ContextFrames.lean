import FractionsOS.Interrupt.Scheduler

/-!
# The layouts of saved contexts

`schedule` saves the address of a frame that starts with the saved EBP and the
return address. `scheduler_create_task` builds a frame that starts with the
function and a return address for it. Restoring pops a number of words before
`ret`, and no number of words fits both.
-/

namespace FractionsOS.Scheduler

open Library.StackMemory Library.StackMemory.WordStack

set_option autoImplicit false

structure Cpu where
  stack : WordStack
  ebp : UInt32
  eip : UInt32

/-- A call to `schedule` and its prologue: the return address and EBP are
pushed, and EBP becomes the frame address. -/
def enterSchedule (returnAddress : UInt32) (cpu : Cpu) : Cpu :=
  let stack := (cpu.stack.push returnAddress).push cpu.ebp
  { cpu with stack, ebp := stack.pointer }

/-- The end of `schedule`: ESP is loaded from a slot, `p` words are popped, the
last of them into EBP, and `ret` pops EIP. -/
def restore (p : Nat) (sp : UInt32) (cpu : Cpu) : Cpu :=
  let (last, stack) := (⟨cpu.stack.memory, sp⟩ : WordStack).popWords p
  { stack := stack.drop, ebp := last.getD cpu.ebp, eip := stack.top }

/-- Any context saved by `schedule` continues behind its call, with its EBP, when
its frame is still there. -/
def SavedContextsContinue (p : Nat) : Prop :=
  ∀ (caller : Cpu) (returnAddress : UInt32) (cpu : Cpu),
    let saved := enterSchedule returnAddress caller
    KeepsWords saved.stack.memory cpu.stack.memory saved.ebp 2 →
      let resumed := restore p saved.ebp cpu
      resumed.eip = returnAddress ∧ resumed.ebp = caller.ebp

/-- A task function is entered as if it was called, with nowhere to return to. -/
def EntersTask (cpu : Cpu) (f arg : UInt32) : Prop :=
  cpu.eip = f ∧ cpu.stack.top = 0 ∧ cpu.stack.drop.top = arg

def NewContextsEnter (p : Nat) : Prop :=
  ∀ (f arg st sz : UInt32) (prio : UInt8) (state : SchedulerState) (cpu : Cpu),
    let (pid, created) := schedulerCreateTask f arg st sz prio state
    let sp := created.tasks pid
    state.total.toNat < 32 → KeepsWords created.memory cpu.stack.memory sp 3 →
      EntersTask (restore p sp cpu) f arg

theorem restore_eip (p : Nat) (sp : UInt32) (cpu : Cpu) :
    (restore p sp cpu).eip = loadWord cpu.stack.memory (sp + wordOffset p) := by
  change (popWords ⟨cpu.stack.memory, sp⟩ p).2.top = _
  rw [pop_words_below]
  rfl

theorem restore_stack (p : Nat) (sp : UInt32) (cpu : Cpu) :
    (restore p sp cpu).stack = ⟨cpu.stack.memory, sp + wordOffset (p + 1)⟩ := by
  change (popWords ⟨cpu.stack.memory, sp⟩ p).2.drop = _
  rw [pop_words_below, word_offset_succ, ← UInt32.add_assoc]
  rfl

theorem restore_ebp (p : Nat) (sp : UInt32) (cpu : Cpu) :
    (restore (p + 1) sp cpu).ebp = loadWord cpu.stack.memory (sp + wordOffset p) := by
  change (popWords ⟨cpu.stack.memory, sp⟩ p).2.top = _
  rw [pop_words_below]
  rfl

theorem saved_holds (returnAddress : UInt32) (cpu : Cpu) :
    (enterSchedule returnAddress cpu).stack.Holds [cpu.ebp, returnAddress] := by
  have called : (cpu.stack.push returnAddress).Holds [returnAddress] :=
    push_holds returnAddress trivial (Nat.zero_lt_succ _)
  exact push_holds cpu.ebp called (Nat.succ_lt_succ (Nat.zero_lt_succ _))

theorem word_offset_one_iff (p : Nat) : wordOffset p = 4 ↔ p % 2 ^ 30 = 1 := by
  rw [← UInt32.toNat_inj, word_offset_value]
  change 4 * p % 2 ^ 32 = 4 ↔ _
  omega

def singleWord : Memory := storeWord (fun _ => 0) 4 1

theorem single_word_elsewhere {p : Nat} (other : p % 2 ^ 30 ≠ 1) :
    loadWord singleWord (wordOffset p) = 0 := by
  have apart : Apart (wordOffset p) 4 := by
    rw [Apart, UInt32.toNat_sub, word_offset_value]
    change 4 ≤ (2 ^ 32 - 4 + 4 * p % 2 ^ 32) % 2 ^ 32 ∧ (2 ^ 32 - 4 + 4 * p % 2 ^ 32) % 2 ^ 32 ≤ _
    omega
  rw [singleWord, load_store_apart _ 1 apart]
  rfl

theorem saved_context_continues {p : Nat} (one : p % 2 ^ 30 = 1) : SavedContextsContinue p := by
  intro caller returnAddress cpu saved kept resumed
  have holds := holds_of_kept kept (saved_holds returnAddress caller)
  obtain ⟨count, rfl⟩ : ∃ count, p = count + 1 := ⟨p - 1, by omega⟩
  have none : wordOffset count = 0 := by
    rw [← UInt32.toNat_inj, word_offset_value]
    change 4 * count % 2 ^ 32 = 0
    omega
  constructor
  · rw [restore_eip, (word_offset_one_iff _).mpr one]
    exact holds.2.1
  · rw [restore_ebp, none, UInt32.add_zero]
    exact holds.1

theorem saved_contexts_continue_iff (p : Nat) : SavedContextsContinue p ↔ p % 2 ^ 30 = 1 := by
  constructor
  · intro continues
    by_contra other
    let caller : Cpu := ⟨⟨fun _ => 0, 8⟩, 0, 0⟩
    have frame : (enterSchedule 1 caller).ebp = 0 := by
      change (8 : UInt32) - 4 - 4 = 0
      decide
    have holds : loadWord (enterSchedule 1 caller).stack.memory 0 = 0 ∧
        loadWord (enterSchedule 1 caller).stack.memory 4 = 1 := by
      rcases saved_holds 1 caller with ⟨ebp, returnAddress, -⟩
      change loadWord _ (enterSchedule 1 caller).ebp = 0 at ebp
      change loadWord _ ((enterSchedule 1 caller).ebp + 4) = 1 at returnAddress
      rw [frame] at ebp returnAddress
      exact ⟨ebp, returnAddress⟩
    have kept : KeepsWords (enterSchedule 1 caller).stack.memory singleWord 0 2 := by
      intro index below
      rcases Nat.lt_succ_iff_lt_or_eq.mp below with zero | one
      · rw [Nat.lt_one_iff.mp zero]
        exact Eq.trans (by decide) holds.1.symm
      · rw [one]
        exact Eq.trans (by decide) holds.2.symm
    rw [← frame] at kept
    have returned := (continues caller 1 ⟨⟨singleWord, 0⟩, 0, 0⟩ kept).1
    rw [restore_eip, frame, UInt32.zero_add, single_word_elsewhere other] at returned
    exact absurd returned (by decide)
  · exact saved_context_continues

theorem initial_stack_holds (memory : Memory) (f arg st sz : UInt32) :
    (initialStack memory f arg st sz).Holds [f, 0, arg] := by
  have argument : ((⟨memory, stackTop st sz⟩ : WordStack).push arg).Holds [arg] :=
    push_holds arg trivial (Nat.zero_lt_succ _)
  have returnAddress := push_holds 0 argument (Nat.succ_lt_succ (Nat.zero_lt_succ _))
  exact push_holds f returnAddress (Nat.succ_lt_succ (Nat.succ_lt_succ (Nat.zero_lt_succ _)))

/-- Restored as saved contexts are, a new task starts at its return address. -/
theorem new_context_enters_iff {p : Nat} (one : p % 2 ^ 30 = 1) {sp f arg : UInt32} {cpu : Cpu}
    (holds : (⟨cpu.stack.memory, sp⟩ : WordStack).Holds [f, 0, arg]) :
    EntersTask (restore p sp cpu) f arg ↔
      f = 0 ∧ arg = 0 ∧ loadWord cpu.stack.memory (sp + 12) = 0 := by
  have four := (word_offset_one_iff p).mpr one
  have eip : (restore p sp cpu).eip = 0 := by
    rw [restore_eip, four]
    exact holds.2.1
  have stack : (restore p sp cpu).stack = ⟨cpu.stack.memory, sp + 4 + 4⟩ := by
    rw [restore_stack, word_offset_succ, four, ← UInt32.add_assoc]
  have top : (restore p sp cpu).stack.top = arg := by
    rw [stack]
    exact holds.2.2.1
  have next : (restore p sp cpu).stack.drop.top = loadWord cpu.stack.memory (sp + 12) := by
    have address : sp + 12 = sp + 4 + 4 + 4 := by
      grind
    rw [stack, address]
    rfl
  rw [EntersTask, eip, top, next]
  constructor
  · rintro ⟨entered, returnAddress, argument⟩
    exact ⟨entered.symm, returnAddress, argument.trans returnAddress⟩
  · rintro ⟨entered, argument, above⟩
    exact ⟨entered.symm, argument, above.trans argument.symm⟩

/-- A number of popped words lets saved contexts continue and enters a new task
exactly when it is one word, the task's function and argument are null and the
word above its frame is zero. -/
theorem contexts_restored_iff (p : Nat) (f arg st sz : UInt32) (prio : UInt8)
    (state : SchedulerState) (slot : state.total.toNat < 32) (cpu : Cpu) :
    let (pid, created) := schedulerCreateTask f arg st sz prio state
    let sp := created.tasks pid
    KeepsWords created.memory cpu.stack.memory sp 3 →
      (SavedContextsContinue p ∧ EntersTask (restore p sp cpu) f arg ↔
        p % 2 ^ 30 = 1 ∧ f = 0 ∧ arg = 0 ∧ loadWord cpu.stack.memory (sp + 12) = 0) := by
  rw [create_task_of_slot slot]
  dsimp only
  rw [set_task_same]
  intro kept
  have holds := holds_of_kept kept (initial_stack_holds state.memory f arg st sz)
  rw [saved_contexts_continue_iff]
  constructor
  · rintro ⟨one, enters⟩
    exact ⟨one, (new_context_enters_iff one holds).mp enters⟩
  · rintro ⟨one, null⟩
    exact ⟨one, (new_context_enters_iff one holds).mpr null⟩

theorem contexts_restored_null_task :
    let (pid, created) := schedulerCreateTask 0 0 0x00200000 1024 0 (bootState fun _ => 0)
    let sp := created.tasks pid
    SavedContextsContinue 1 ∧ EntersTask (restore 1 sp ⟨⟨created.memory, sp⟩, 0, 0⟩) 0 0 ↔
      1 % 2 ^ 30 = 1 ∧ (0 : UInt32) = 0 ∧ (0 : UInt32) = 0 ∧
        loadWord created.memory (sp + 12) = 0 :=
  contexts_restored_iff 1 0 0 0x00200000 1024 0 (bootState fun _ => 0) (by decide) _
    fun _ _ => rfl

theorem null_function_of_enters {p : Nat} (one : p % 2 ^ 30 = 1) (enters : NewContextsEnter p)
    (f arg st sz : UInt32) (state : SchedulerState) (slot : state.total.toNat < 32) : f = 0 := by
  have holds := initial_stack_holds state.memory f arg st sz
  have entered := enters f arg st sz 0 state ⟨initialStack state.memory f arg st sz, 0, 0⟩
  rw [create_task_of_slot slot] at entered
  dsimp only at entered
  rw [set_task_same] at entered
  generalize initialStack state.memory f arg st sz = stack at holds entered
  have entry := @new_context_enters_iff p one stack.pointer f arg ⟨stack, 0, 0⟩ holds
  exact (entry.mp (entered slot (keeps_words_self _ _ _))).1

/-- No number of popped words serves saved contexts and new tasks: the task at
0x00101000 is not entered. -/
theorem no_restore_discipline : ¬∃ p, SavedContextsContinue p ∧ NewContextsEnter p := by
  rintro ⟨p, continues, enters⟩
  have one := (saved_contexts_continue_iff p).mp continues
  have null := null_function_of_enters one enters 0x00101000 0 0x00200000 1024
    (bootState fun _ => 0) (by decide)
  exact absurd null (by decide)

end FractionsOS.Scheduler
