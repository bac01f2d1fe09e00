import FractionsOS.Interrupt.Fairness

/-!
# The numbers and the turns of tasks

The numbers that `scheduler_create_task` gives out in a run, and how many of the turns of
a run each task gets at least. There are 32 slots, so nobody waits for more than 32 turns.
-/

namespace FractionsOS.Scheduler

open Library.RoundRobin Library.StackMemory

set_option autoImplicit false

def pids (state : SchedulerState) : List SchedulerEvent → Option (List UInt32)
  | [] => some []
  | .create task :: events =>
      let created := schedulerCreateTask task.f task.arg task.st task.sz task.prio state
      (pids created.2 events).map fun later => created.1 :: later
  | .switch call :: events =>
      (stepEvent state (.switch call)).bind fun next => pids next events

def creations (events : List SchedulerEvent) : Nat :=
  events.countP fun | .create _ => true | .switch _ => false

/-- The numbers given out by `count` creations when there are `total` tasks already. -/
def pidsFrom (total count : Nat) : List UInt32 :=
  (List.range' total (min count (32 - total))).map UInt32.ofNat ++
    List.replicate (count - (32 - total)) (-1)

theorem pids_from_slot {total : Nat} (slot : total < 32) (count : Nat) :
    pidsFrom total (count + 1) = UInt32.ofNat total :: pidsFrom (total + 1) count := by
  have first : min (count + 1) (32 - total) = min count (32 - (total + 1)) + 1 := by omega
  have rest : count + 1 - (32 - total) = count - (32 - (total + 1)) := by omega
  unfold pidsFrom
  rw [first, rest, List.range'_succ]
  rfl

theorem pids_from_full (count : Nat) : pidsFrom 32 (count + 1) = (-1) :: pidsFrom 32 count := by
  unfold pidsFrom
  rw [Nat.sub_self, Nat.min_zero, Nat.min_zero]
  rfl

theorem pids_given {state : SchedulerState} (populated : Populated state)
    (events : List SchedulerEvent) :
    pids state events = some (pidsFrom state.total.toNat (creations events)) := by
  induction events generalizing state with
  | nil =>
      change some [] = some (pidsFrom state.total.toNat 0)
      unfold pidsFrom
      rw [Nat.zero_min, Nat.zero_sub]
      rfl
  | cons event events induction =>
      rcases step_populated populated event with ⟨next, stepped, stays, _⟩
      have rest := induction stays
      cases event with
      | switch call =>
          rcases switch_step populated call with ⟨moved, same, total, _⟩
          rw [stepped] at same
          rw [Option.some.inj same, total] at rest
          rw [pids, stepped, Option.some.inj same]
          exact rest
      | create task =>
          have count : creations (.create task :: events) = creations events + 1 :=
            List.countP_cons_of_pos rfl
          have created : (schedulerCreateTask task.f task.arg task.st task.sz task.prio state).2 =
              next := Option.some.inj stepped
          rw [pids, count]
          rw [created, rest]
          by_cases slot : state.total.toNat < 32
          · have given := create_task_of_slot slot task.f task.arg task.st task.sz task.prio
            have grown : next.total.toNat = state.total.toNat + 1 := by
              rw [← created, given, UInt32.toNat_add]
              change (state.total.toNat + 1) % 2 ^ 32 = _
              omega
            rw [grown, pids_from_slot slot, given, UInt32.ofNat_toNat]
            rfl
          · have full : state.total.toNat = 32 := by
              have total := populated.total
              omega
            have noSlot : maxTasks ≤ state.total := by
              rw [UInt32.le_iff_toNat_le, full]
              exact Nat.le_refl 32
            have refused : schedulerCreateTask task.f task.arg task.st task.sz task.prio state =
                (-1, state) := if_pos noSlot
            rw [refused] at created ⊢
            rw [← created, full, pids_from_full]
            rfl

/-- From the boot state on, whatever switches come between them, creations return 0, 1, 2
and so on, and after the thirty-second one each returns `uint32_t` -1. -/
theorem pids_in_order (memory : Memory) (task : Task) (events : List SchedulerEvent) :
    pids (bootState memory) (.create task :: events) =
      some (pidsFrom 0 (creations (.create task :: events))) := by
  have slot : (bootState memory).total.toNat < 32 := Nat.zero_lt_succ 31
  have given := create_task_of_slot slot task.f task.arg task.st task.sz task.prio
  have count : creations (.create task :: events) = creations events + 1 :=
    List.countP_cons_of_pos rfl
  rcases first_creation memory task with ⟨next, stepped, populated⟩
  have created : (schedulerCreateTask task.f task.arg task.st task.sz task.prio
      (bootState memory)).2 = next := Option.some.inj stepped
  have one : next.total.toNat = 1 := by
    rw [← created, given]
    rfl
  rw [pids, count, pids_from_slot (Nat.zero_lt_succ 31)]
  rw [created, pids_given populated, one, given]
  rfl

theorem turn_sizes {state : SchedulerState} (populated : Populated state)
    (events : List SchedulerEvent) :
    ∃ later, turns state events = some later ∧ ∀ turn ∈ later, turn.size ≤ 32 := by
  induction events generalizing state with
  | nil =>
      refine ⟨[], rfl, ?_⟩
      intro turn member
      cases member
  | cons event events induction =>
      rcases step_populated populated event with ⟨next, stepped, stays, _⟩
      rcases induction stays with ⟨later, run, small⟩
      cases event with
      | create task =>
          refine ⟨later, ?_, small⟩
          rw [turns, stepped]
          exact run
      | switch call =>
          refine ⟨turnOf next :: later, ?_, ?_⟩
          · rw [turns, stepped]
            change (turns next events).map _ = _
            rw [run]
            rfl
          · intro turn member
            rcases List.mem_cons.mp member with rfl | earlier
            · exact stays.total
            · exact small turn earlier

/-- In every run and from every turn of it on, a task that exists by then gets at least
one of as many turns as there are tasks, and so its share of any number of turns. As there
are never more than 32 tasks, it waits for less than 32 turns. -/
theorem turns_shared (memory : Memory) (task : Task) (events : List SchedulerEvent) :
    ∃ run, turns (bootState memory) (.create task :: events) = some run ∧
      (∀ turn ∈ run, turn.size ≤ 32) ∧
      ∀ before first window after, run = before ++ first :: (window ++ after) →
        ∀ bound, (∀ turn ∈ first :: window, turn.size ≤ bound) → ∀ k, k < first.size →
          window.length / bound ≤ (window.map Turn.member).count k := by
  rcases first_creation memory task with ⟨next, stepped, populated⟩
  rcases turns_rotate populated events with ⟨run, runs, rotation⟩
  rcases turn_sizes populated events with ⟨same, runsSame, small⟩
  rw [runs] at runsSame
  rw [← Option.some.inj runsSame] at small
  refine ⟨run, ?_, small, ?_⟩
  · rw [turns, stepped]
    exact runs
  · rintro before first window after rfl bound sizes k existed
    rw [List.forall_mem_cons] at sizes
    rcases rotation_suffix populated.current rotation with ⟨inGroup, rest⟩
    have onward := rotation_prefix rest
    exact share_of_turns sizes.2 inGroup existed sizes.1 onward

end FractionsOS.Scheduler
