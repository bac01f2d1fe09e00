import FractionsOS.Interrupt.ContextOwnership

/-!
# Runs of the scheduler

Calls of `scheduler_create_task` and of the functions that switch, in any order
from the boot state. Only the creation checks `total`: a switch before there is a
task takes a remainder by zero, and otherwise all indices stay in the array.
-/

namespace FractionsOS.Scheduler

open Library.StackMemory

set_option autoImplicit false

inductive SchedulerEvent where
  | create (task : Task)
  | switch (call : SchedulerCall)

/-- `none` is the trap of a remainder by zero. -/
def stepEvent (state : SchedulerState) : SchedulerEvent → Option SchedulerState
  | .create task => some (schedulerCreateTask task.f task.arg task.st task.sz task.prio state).2
  | .switch call => (call.switch state).map Switch.state

/-- `total` and `current` are in range, and so are all indices at which `tasks` was
accessed. -/
structure InRange (state : SchedulerState) : Prop where
  total : state.total.toNat ≤ 32
  current : 0 < state.total.toNat → state.current.toNat < state.total.toNat
  used : ∀ index ∈ state.used, index.toNat < 32

/-- No call of a run takes a remainder by zero, and each leaves the state in range. -/
def SafeRun (state : SchedulerState) : List SchedulerEvent → Prop
  | [] => InRange state
  | event :: events =>
      InRange state ∧ ∃ next, stepEvent state event = some next ∧ SafeRun next events

structure Populated (state : SchedulerState) : Prop where
  total : state.total.toNat ≤ 32
  current : state.current.toNat < state.total.toNat
  used : ∀ index ∈ state.used, index.toNat < 32

theorem next_current_value {state : SchedulerState} (populated : Populated state) :
    ((state.current + 1) % state.total).toNat =
      (state.current.toNat + 1) % state.total.toNat := by
  have current := populated.current
  have total := populated.total
  rw [UInt32.toNat_mod, UInt32.toNat_add]
  change (state.current.toNat + 1) % 2 ^ 32 % state.total.toNat = _
  rw [Nat.mod_eq_of_lt (by omega : state.current.toNat + 1 < 2 ^ 32)]

/-- A creation either finds no slot and changes nothing, or takes the next slot. -/
theorem create_step {state : SchedulerState} (total : state.total.toNat ≤ 32) (task : Task) :
    ∃ next, stepEvent state (.create task) = some next ∧ next.current = state.current ∧
      (state.total.toNat = 32 ∧ next = state ∨
        state.total.toNat < 32 ∧ next.total.toNat = state.total.toNat + 1 ∧
          next.used = state.total :: state.used) := by
  by_cases full : state.total.toNat = 32
  · refine ⟨state, ?_, rfl, Or.inl ⟨full, rfl⟩⟩
    have noSlot : maxTasks ≤ state.total := by
      rw [UInt32.le_iff_toNat_le, full]
      exact Nat.le_refl 32
    exact congrArg (fun result : UInt32 × SchedulerState => some result.2) (if_pos noSlot)
  · have slot : state.total.toNat < 32 := by omega
    have created := create_task_of_slot slot task.f task.arg task.st task.sz task.prio
    refine ⟨_, rfl, ?_, Or.inr ⟨slot, ?_, ?_⟩⟩
    · rw [created]
    · rw [created, UInt32.toNat_add]
      change (state.total.toNat + 1) % 2 ^ 32 = _
      omega
    · rw [created]

theorem switch_step {state : SchedulerState} (populated : Populated state) (call : SchedulerCall) :
    ∃ next, stepEvent state (.switch call) = some next ∧ next.total = state.total ∧
      next.current.toNat = (state.current.toNat + 1) % state.total.toNat ∧
      next.used = next.current :: state.current :: state.used := by
  have positive : 0 < state.total :=
    UInt32.lt_iff_toNat_lt.mpr (Nat.zero_lt_of_lt populated.current)
  refine ⟨(nextSwitch call.frameAddress state).state, ?_, rfl, next_current_value populated, rfl⟩
  rw [stepEvent, call_switch, schedule_of_tasks positive]
  rfl

theorem step_populated {state : SchedulerState} (populated : Populated state)
    (event : SchedulerEvent) :
    ∃ next, stepEvent state event = some next ∧ Populated next ∧
      state.total.toNat ≤ next.total.toNat := by
  have total := populated.total
  have current := populated.current
  cases event with
  | create task =>
      rcases create_step total task with
        ⟨next, stepped, same, ⟨_, unchanged⟩ | ⟨slot, grown, used⟩⟩
      · rw [unchanged] at stepped
        exact ⟨state, stepped, populated, Nat.le_refl _⟩
      · refine ⟨next, stepped, ⟨?_, ?_, ?_⟩, ?_⟩
        · omega
        · rw [same]
          omega
        · rw [used]
          exact List.forall_mem_cons.mpr ⟨slot, populated.used⟩
        · omega
  | switch call =>
      rcases switch_step populated call with ⟨next, stepped, same, moved, used⟩
      have inRound : next.current.toNat < state.total.toNat := by
        rw [moved]
        exact Nat.mod_lt _ (Nat.zero_lt_of_lt current)
      refine ⟨next, stepped, ⟨?_, ?_, ?_⟩, ?_⟩
      · rw [same]
        exact total
      · rw [same]
        exact inRound
      · rw [used]
        refine List.forall_mem_cons.mpr ⟨?_, List.forall_mem_cons.mpr ⟨?_, populated.used⟩⟩
        · exact Nat.lt_of_lt_of_le inRound total
        · exact Nat.lt_of_lt_of_le current total
      · exact Nat.le_of_eq (congrArg UInt32.toNat same.symm)

theorem populated_in_range {state : SchedulerState} (populated : Populated state) :
    InRange state :=
  ⟨populated.total, fun _ => populated.current, populated.used⟩

theorem populated_run_safe {state : SchedulerState} (populated : Populated state)
    (events : List SchedulerEvent) : SafeRun state events := by
  induction events generalizing state with
  | nil => exact populated_in_range populated
  | cons event events induction =>
      rcases step_populated populated event with ⟨next, stepped, stays, _⟩
      exact ⟨populated_in_range populated, next, stepped, induction stays⟩

theorem boot_in_range (memory : Memory) : InRange (bootState memory) :=
  ⟨Nat.zero_le 32, fun tasks => absurd tasks (Nat.lt_irrefl 0),
    fun _ used => absurd used List.not_mem_nil⟩

theorem first_creation (memory : Memory) (task : Task) :
    ∃ next, stepEvent (bootState memory) (.create task) = some next ∧ Populated next := by
  rcases create_step (boot_in_range memory).total task with
    ⟨next, stepped, same, ⟨full, _⟩ | ⟨slot, grown, used⟩⟩
  · exact absurd full (Nat.zero_ne_add_one 31)
  · refine ⟨next, stepped, ?_, ?_, ?_⟩
    · rw [grown]
      exact Nat.le_add_left 1 31
    · rw [grown, same]
      exact Nat.zero_lt_one
    · rw [used]
      exact List.forall_mem_singleton.mpr slot

theorem boot_switch_traps (memory : Memory) (call : SchedulerCall) :
    stepEvent (bootState memory) (.switch call) = none := by
  rw [stepEvent, call_switch]
  rfl

/-- A run from the boot state is safe exactly when its first call, if there is one,
creates a task. -/
theorem safe_run_iff (memory : Memory) (events : List SchedulerEvent) :
    SafeRun (bootState memory) events ↔ ∀ call, events.head? ≠ some (.switch call) := by
  cases events with
  | nil =>
      apply iff_of_true
      · exact boot_in_range memory
      · intro call first
        cases first
  | cons event events =>
      constructor
      · rintro ⟨_, next, stepped, _⟩ call first
        obtain rfl := Option.some.inj first
        rw [boot_switch_traps] at stepped
        cases stepped
      · intro created
        cases event with
        | switch call => exact absurd rfl (created call)
        | create task =>
            rcases first_creation memory task with ⟨next, stepped, populated⟩
            exact ⟨boot_in_range memory, next, stepped, populated_run_safe populated events⟩

/-- Nothing keeps a yield from coming before the first task. -/
theorem yield_before_tasks : ¬SafeRun (bootState fun _ => 0) [.switch (.yield 0)] := by
  rintro ⟨_, next, stepped, _⟩
  rw [boot_switch_traps] at stepped
  cases stepped

end FractionsOS.Scheduler
