import FractionsOS.Interrupt.SchedulerRuns
import FractionsOS.Library.RoundRobin

/-!
# Round-robin fairness

The task that `schedule` makes current has the turn. Whenever tasks are created,
the turns are a rotation of a growing group.
-/

namespace FractionsOS.Scheduler

open Library.RoundRobin Library.StackMemory

set_option autoImplicit false

def turnOf (state : SchedulerState) : Turn := ⟨state.current.toNat, state.total.toNat⟩

def turns (state : SchedulerState) : List SchedulerEvent → Option (List Turn)
  | [] => some []
  | .create task :: events =>
      (stepEvent state (.create task)).bind fun next => turns next events
  | .switch call :: events =>
      (stepEvent state (.switch call)).bind fun next =>
        (turns next events).map fun later => turnOf next :: later

theorem turns_rotate {state : SchedulerState} (populated : Populated state)
    (events : List SchedulerEvent) :
    ∃ later, turns state events = some later ∧
      Rotation state.current.toNat state.total.toNat later := by
  induction events generalizing state with
  | nil => exact ⟨[], rfl, trivial⟩
  | cons event events induction =>
      rcases step_populated populated event with ⟨next, stepped, stays, grown⟩
      rcases induction stays with ⟨later, run, rotation⟩
      cases event with
      | create task =>
          refine ⟨later, ?_, ?_⟩
          · rw [turns, stepped]
            exact run
          · rcases create_step populated.total task with ⟨created, same, current, _⟩
            rw [stepped] at same
            rw [Option.some.inj same, current] at rotation
            rw [Option.some.inj same] at grown
            exact rotation_grown grown rotation
      | switch call =>
          refine ⟨turnOf next :: later, ?_, grown, ?_, rotation⟩
          · rw [turns, stepped]
            change (turns next events).map _ = _
            rw [run]
            rfl
          · rcases switch_step populated call with ⟨moved, same, total, current, _⟩
            rw [stepped] at same
            rw [Option.some.inj same]
            change moved.current.toNat = _ % moved.total.toNat
            rw [total]
            exact current

/-- Between two consecutive turns of a task no task has two turns, and every other task
that existed at the first of them has one. -/
theorem round_robin_fair (memory : Memory) (task : Task) (events : List SchedulerEvent) :
    ∃ run, turns (bootState memory) (.create task :: events) = some run ∧
      ∀ before first between second after, run = before ++ first :: (between ++ second :: after) →
        first.member = second.member → first.member ∉ between.map Turn.member →
          (∀ k, (between.map Turn.member).count k ≤ 1) ∧
            ∀ k, k < first.size → k ≠ first.member → (between.map Turn.member).count k = 1 := by
  rcases first_creation memory task with ⟨next, stepped, populated⟩
  rcases turns_rotate populated events with ⟨run, runs, rotation⟩
  refine ⟨run, ?_, ?_⟩
  · rw [turns, stepped]
    exact runs
  · rintro before first between second after rfl same absent
    rcases rotation_suffix populated.current rotation with ⟨inGroup, rest⟩
    have split : between ++ second :: after = between ++ [second] ++ after := by
      rw [List.append_assoc]
      rfl
    rw [split] at rest
    have round : Rotation first.member first.size (between ++ [⟨first.member, second.size⟩]) := by
      rw [same]
      rw [same] at rest
      exact rotation_prefix rest
    rcases fair_between inGroup round absent with ⟨distinct, everybody⟩
    constructor
    · exact List.nodup_iff_count_le_one.mp distinct
    · intro k existed different
      exact List.count_eq_one_of_mem distinct (everybody k existed different)

end FractionsOS.Scheduler
