import FractionsOS.Interrupt.Scheduler

/-!
# Whose context a slot holds

Beside the scheduler's own state it is tracked where the stack pointer of each
slot comes from and who executes. Behind a switch that is the owner of the slot
loaded, or still the caller. The first switch, made from the boot context on slot 0,
loses the only context that the first task had; as long as owners resume, no other
slot changes hands. What lies on the stacks is not looked at.
-/

namespace FractionsOS.Scheduler

open Library.StackMemory

set_option autoImplicit false

inductive Context where
  | boot
  | task (k : UInt32)
  deriving DecidableEq, Repr

inductive Origin where
  | initialFrame (k sp : UInt32)
  | savedBy (context : Context) (frameAddress : UInt32)
  deriving DecidableEq, Repr

def Origin.context : Origin → Context
  | .initialFrame k _ => .task k
  | .savedBy context _ => context

def Origin.sp : Origin → UInt32
  | .initialFrame _ sp => sp
  | .savedBy _ frameAddress => frameAddress

structure TrackedState where
  scheduler : SchedulerState
  origins : UInt32 → Origin
  running : Context

namespace TrackedState

def boot (memory : Memory) : TrackedState where
  scheduler := bootState memory
  origins := fun _ => .savedBy .boot 0
  running := .boot

def owner (state : TrackedState) (k : UInt32) : Context := (state.origins k).context

/-- `tasks[k].sp` is a context of task `k`: its initial frame, or a frame
address saved while it was running. -/
def Owned (state : TrackedState) (k : UInt32) : Prop :=
  state.scheduler.tasks k = (state.origins k).sp ∧ state.owner k = .task k

end TrackedState

def setOrigin (origins : UInt32 → Origin) (index : UInt32) (origin : Origin) : UInt32 → Origin :=
  fun other => if other = index then origin else origins other

structure Task where
  f : UInt32
  arg : UInt32
  st : UInt32
  sz : UInt32
  prio : UInt8

def createTask (state : TrackedState) (task : Task) : TrackedState :=
  let (pid, scheduler) :=
    schedulerCreateTask task.f task.arg task.st task.sz task.prio state.scheduler
  if pid = -1 then { state with scheduler }
  else
    { state with
      scheduler
      origins := setOrigin state.origins pid (.initialFrame pid (scheduler.tasks pid)) }

def createTasks (state : TrackedState) (tasks : List Task) : TrackedState :=
  tasks.foldl createTask state

/-- Who executes behind a switch. -/
inductive Resumed where
  | owner
  | caller
  deriving DecidableEq, Repr

/-- What a switch from a frame does to origins: the one who runs is saved. -/
def track (state : TrackedState) (frameAddress : UInt32) (resumed : Resumed) (switch : Switch) :
    TrackedState :=
  let origins := setOrigin state.origins state.scheduler.current (.savedBy state.running frameAddress)
  { scheduler := switch.state
    origins
    running :=
      match resumed with
      | .owner => (origins switch.state.current).context
      | .caller => state.running }

inductive SchedulerCall where
  | start (frameAddress : UInt32)
  | yield (frameAddress : UInt32)
  | timer (frameAddress : UInt32)

def SchedulerCall.frameAddress : SchedulerCall → UInt32
  | .start frameAddress => frameAddress
  | .yield frameAddress => frameAddress
  | .timer frameAddress => frameAddress

def SchedulerCall.switch : SchedulerCall → SchedulerState → Option Switch
  | .start frameAddress => fun state => (schedulerStart frameAddress state).2
  | .yield frameAddress => schedulerYield frameAddress
  | .timer frameAddress => fun state => (timerHandler frameAddress state).2

structure Pass where
  call : SchedulerCall
  resumed : Resumed

def runPass (state : TrackedState) (pass : Pass) : Option TrackedState :=
  (pass.call.switch state.scheduler).map (track state pass.call.frameAddress pass.resumed)

def runPasses (state : TrackedState) : List Pass → Option TrackedState
  | [] => some state
  | pass :: passes => (runPass state pass).bind fun next => runPasses next passes

theorem call_switch (call : SchedulerCall) (state : SchedulerState) :
    call.switch state = schedule call.frameAddress state := by
  cases call <;> rfl

/-- All slots in use hold the initial frames of their tasks. -/
structure Fresh (state : TrackedState) (count : Nat) : Prop where
  total : state.scheduler.total.toNat = count
  current : state.scheduler.current = 0
  running : state.running = .boot
  owned : ∀ k, k < state.scheduler.total → state.Owned k

theorem boot_fresh (memory : Memory) : Fresh (TrackedState.boot memory) 0 where
  total := rfl
  current := rfl
  running := rfl
  owned := fun k below => absurd below (by
    rw [UInt32.lt_iff_toNat_lt]
    exact Nat.not_lt_zero _)

theorem set_origin_same (origins : UInt32 → Origin) (index : UInt32) (origin : Origin) :
    setOrigin origins index origin index = origin := if_pos rfl

theorem set_origin_other (origins : UInt32 → Origin) {index other : UInt32} (origin : Origin)
    (different : other ≠ index) : setOrigin origins index origin other = origins other :=
  if_neg different

theorem create_task_tracked {state : TrackedState} (slot : state.scheduler.total.toNat < 32)
    (task : Task) :
    createTask state task =
      let total := state.scheduler.total
      let stack := initialStack state.scheduler.memory task.f task.arg task.st task.sz
      { state with
        scheduler := { state.scheduler with
          memory := stack.memory
          tasks := setTask state.scheduler.tasks total stack.pointer
          used := total :: state.scheduler.used
          total := total + 1 }
        origins := setOrigin state.origins total (.initialFrame total stack.pointer) } := by
  have valid : state.scheduler.total ≠ -1 := by
    intro same
    rw [same] at slot
    exact absurd slot (by decide)
  rw [createTask, create_task_of_slot slot]
  dsimp only
  rw [if_neg valid, set_task_same]

theorem create_task_fresh {state : TrackedState} {count : Nat} (fresh : Fresh state count)
    (slot : count < 32) (task : Task) : Fresh (createTask state task) (count + 1) := by
  have total := fresh.total
  rw [← total] at slot
  have next : (state.scheduler.total + 1).toNat = count + 1 := by
    rw [UInt32.toNat_add, total]
    change (count + 1) % 2 ^ 32 = _
    omega
  rw [create_task_tracked slot]
  refine ⟨next, fresh.current, fresh.running, ?_⟩
  intro k below
  unfold TrackedState.Owned TrackedState.owner
  dsimp only
  by_cases created : k = state.scheduler.total
  · rw [created, set_task_same, set_origin_same]
    exact ⟨rfl, rfl⟩
  · rw [set_task_other _ _ created, set_origin_other _ _ created]
    apply fresh.owned
    have different : k.toNat ≠ state.scheduler.total.toNat := fun same =>
      created (UInt32.toNat_inj.mp same)
    rw [UInt32.lt_iff_toNat_lt] at below ⊢
    dsimp only at below
    omega

theorem create_tasks_fresh {state : TrackedState} {count : Nat} (fresh : Fresh state count)
    (tasks : List Task) (few : count + tasks.length ≤ 32) :
    Fresh (createTasks state tasks) (count + tasks.length) := by
  induction tasks generalizing state count with
  | nil => exact fresh
  | cons task tasks induction =>
      rw [List.length_cons] at few ⊢
      have created := create_task_fresh fresh (by omega) task
      have rest := induction created (by omega)
      rw [Nat.add_right_comm, Nat.add_assoc] at rest
      exact rest

/-- Slot 0 belongs to the boot context, every other slot to its task. -/
def switchedOwner (k : UInt32) : Context := if k = 0 then .boot else .task k

/-- Every slot belongs to its switched owner, and the owner of the current one runs. -/
structure Switched (state : TrackedState) : Prop where
  current : state.scheduler.current < state.scheduler.total
  running : state.running = state.owner state.scheduler.current
  saved : ∀ k, k < state.scheduler.total → state.scheduler.tasks k = (state.origins k).sp
  owners : ∀ k, k < state.scheduler.total → state.owner k = switchedOwner k

def ownerOnceSaved (state : TrackedState) (k : UInt32) : Context :=
  if k = state.scheduler.current then state.running else state.owner k

def switched (state : TrackedState) (frameAddress : UInt32) (resumed : Resumed) : TrackedState :=
  track state frameAddress resumed (nextSwitch frameAddress state.scheduler)

theorem switched_current_slot (state : TrackedState) (frameAddress : UInt32) (resumed : Resumed) :
    (switched state frameAddress resumed).scheduler.tasks state.scheduler.current = frameAddress ∧
      (switched state frameAddress resumed).origins state.scheduler.current =
        .savedBy state.running frameAddress :=
  ⟨set_task_same _ _ _, set_origin_same _ _ _⟩

theorem switched_other_slot (state : TrackedState) (frameAddress : UInt32) (resumed : Resumed)
    {k : UInt32} (other : k ≠ state.scheduler.current) :
    (switched state frameAddress resumed).scheduler.tasks k = state.scheduler.tasks k ∧
      (switched state frameAddress resumed).origins k = state.origins k :=
  ⟨set_task_other _ _ other, set_origin_other _ _ other⟩

theorem switched_slot_owner (state : TrackedState) (frameAddress : UInt32) (resumed : Resumed)
    (k : UInt32) :
    (switched state frameAddress resumed).owner k = ownerOnceSaved state k := by
  rw [ownerOnceSaved, TrackedState.owner]
  by_cases current : k = state.scheduler.current
  · rw [if_pos current, current, (switched_current_slot state frameAddress resumed).2,
      Origin.context]
  · rw [if_neg current, (switched_other_slot state frameAddress resumed current).2]
    rfl

theorem run_pass_of_tasks {state : TrackedState} (tasks : 0 < state.scheduler.total)
    (pass : Pass) :
    runPass state pass = some (switched state pass.call.frameAddress pass.resumed) := by
  rw [runPass, call_switch, schedule_of_tasks tasks, Option.map_some]
  rfl

/-- No slot holds a context of the first task, and it does not run. -/
structure FirstLost (state : TrackedState) : Prop where
  current : state.scheduler.current < state.scheduler.total
  running : state.running ≠ .task 0
  owners : ∀ k, k < state.scheduler.total → state.owner k ≠ .task 0

/-- The first task stays lost, whoever executes behind a switch. -/
theorem pass_loses_first {state : TrackedState} (tasks : 0 < state.scheduler.total)
    (running : state.running ≠ .task 0)
    (owners : ∀ k, k < state.scheduler.total → ownerOnceSaved state k ≠ .task 0) (pass : Pass) :
    ∃ next, runPass state pass = some next ∧
      next.scheduler.total = state.scheduler.total ∧ FirstLost next := by
  refine ⟨switched state pass.call.frameAddress pass.resumed, run_pass_of_tasks tasks pass, rfl, ?_⟩
  have below : (state.scheduler.current + 1) % state.scheduler.total < state.scheduler.total :=
    UInt32.mod_lt _ tasks
  have saved : ∀ k, k < state.scheduler.total →
      (switched state pass.call.frameAddress pass.resumed).owner k ≠ .task 0 := by
    intro k inside
    rw [switched_slot_owner]
    exact owners k inside
  refine ⟨below, ?_, saved⟩
  cases resumed : pass.resumed with
  | owner =>
      rw [resumed] at saved
      exact saved _ below
  | caller => exact running

theorem fresh_pass_loses_first {state : TrackedState} {count : Nat} (fresh : Fresh state count)
    (tasks : 0 < count) (pass : Pass) :
    ∃ next, runPass state pass = some next ∧
      next.scheduler.total = state.scheduler.total ∧ FirstLost next := by
  have boot : Context.boot ≠ .task 0 := by decide
  apply pass_loses_first
  · rw [UInt32.lt_iff_toNat_lt, fresh.total]
    exact tasks
  · rw [fresh.running]
    exact boot
  · intro k below
    rw [ownerOnceSaved, fresh.current, fresh.running]
    by_cases first : k = 0
    · rw [if_pos first]
      exact boot
    · rw [if_neg first, (fresh.owned k below).2]
      intro same
      exact first (Context.task.inj same)

theorem lost_pass_loses_first {state : TrackedState} (lost : FirstLost state) (pass : Pass) :
    ∃ next, runPass state pass = some next ∧
      next.scheduler.total = state.scheduler.total ∧ FirstLost next := by
  apply pass_loses_first
  · exact UInt32.lt_of_le_of_lt UInt32.zero_le lost.current
  · exact lost.running
  · intro k below
    rw [ownerOnceSaved]
    split_ifs
    · exact lost.running
    · exact lost.owners k below

theorem lost_passes {state : TrackedState} (lost : FirstLost state) (passes : List Pass) :
    ∃ final, runPasses state passes = some final ∧
      final.scheduler.total = state.scheduler.total ∧ FirstLost final := by
  induction passes generalizing state with
  | nil => exact ⟨state, rfl, rfl, lost⟩
  | cons pass passes induction =>
      rcases lost_pass_loses_first lost pass with ⟨next, found, total, nextLost⟩
      rcases induction nextLost with ⟨final, rest, same, finalLost⟩
      refine ⟨final, ?_, same.trans total, finalLost⟩
      rw [runPasses, found]
      exact rest

/-- One switch. The owner of the current slot changes to whoever runs. -/
theorem pass_switches {state : TrackedState} (tasks : 0 < state.scheduler.total)
    (saved : ∀ k, k < state.scheduler.total → state.scheduler.tasks k = (state.origins k).sp)
    (owners : ∀ k, k < state.scheduler.total → ownerOnceSaved state k = switchedOwner k)
    {pass : Pass} (resumes : pass.resumed = .owner) {next : TrackedState}
    (found : runPass state pass = some next) : Switched next := by
  rw [run_pass_of_tasks tasks, resumes] at found
  cases found
  constructor
  · exact UInt32.mod_lt _ tasks
  · rfl
  · intro k below
    by_cases current : k = state.scheduler.current
    · rcases switched_current_slot state pass.call.frameAddress .owner with ⟨sp, origin⟩
      rw [current, sp, origin, Origin.sp]
    · rcases switched_other_slot state pass.call.frameAddress .owner current with ⟨sp, origin⟩
      rw [sp, origin]
      exact saved k below
  · intro k below
    rw [switched_slot_owner]
    exact owners k below

theorem fresh_pass_switches {state : TrackedState} {count : Nat} (fresh : Fresh state count)
    (tasks : 0 < count) {pass : Pass} (resumes : pass.resumed = .owner) {next : TrackedState}
    (found : runPass state pass = some next) : Switched next := by
  apply pass_switches _ _ _ resumes found
  · rw [UInt32.lt_iff_toNat_lt, fresh.total]
    exact tasks
  · intro k below
    exact (fresh.owned k below).1
  · intro k below
    rw [ownerOnceSaved, switchedOwner, fresh.current, fresh.running]
    by_cases first : k = 0
    · rw [if_pos first, if_pos first]
    · rw [if_neg first, if_neg first]
      exact (fresh.owned k below).2

theorem switched_pass_switches {state : TrackedState} (switched : Switched state) {pass : Pass}
    (resumes : pass.resumed = .owner) {next : TrackedState}
    (found : runPass state pass = some next) : Switched next := by
  apply pass_switches _ switched.saved _ resumes found
  · exact UInt32.lt_of_le_of_lt UInt32.zero_le switched.current
  · intro k below
    rw [← switched.owners k below, ownerOnceSaved]
    by_cases current : k = state.scheduler.current
    · rw [if_pos current, current, switched.running]
    · rw [if_neg current]

theorem switched_passes {state final : TrackedState} (switched : Switched state)
    {passes : List Pass} (resume : ∀ pass ∈ passes, pass.resumed = .owner)
    (found : runPasses state passes = some final) :
    Switched final := by
  induction passes generalizing state with
  | nil =>
      cases found
      exact switched
  | cons pass passes induction =>
      rw [List.forall_mem_cons] at resume
      rw [runPasses, Option.bind_eq_some_iff] at found
      rcases found with ⟨next, first, rest⟩
      exact induction (switched_pass_switches switched resume.1 first) resume.2 rest

theorem switched_owned_iff {state : TrackedState} (switched : Switched state) {k : UInt32}
    (below : k < state.scheduler.total) : state.Owned k ↔ k ≠ 0 := by
  rw [TrackedState.Owned, switched.owners k below, switchedOwner]
  by_cases first : k = 0
  · rw [if_pos first]
    constructor
    · intro owned
      cases owned.2
    · intro different
      exact absurd first different
  · rw [if_neg first]
    exact ⟨fun _ => first, fun _ => ⟨switched.saved k below, rfl⟩⟩

/-- Before `scheduler_start` every slot holds a context of its task. From then on that of the
first task never does, and the slots of the others do as long as switches resume owners. -/
theorem context_owned_iff (memory : Memory) (tasks : List Task) (nonempty : 0 < tasks.length)
    (few : tasks.length ≤ 32) (frameAddress : UInt32) (resumed : Resumed) (passes : List Pass) :
    let created := createTasks (TrackedState.boot memory) tasks
    (∀ k, k < created.scheduler.total → created.Owned k) ∧
      ∃ state, runPasses created (⟨.start frameAddress, resumed⟩ :: passes) = some state ∧
        state.scheduler.total.toNat = tasks.length ∧ ¬state.Owned 0 ∧
        ((∀ pass ∈ Pass.mk (.start frameAddress) resumed :: passes, pass.resumed = .owner) →
          ∀ k, k < state.scheduler.total → (state.Owned k ↔ k ≠ 0)) := by
  intro created
  have fresh : Fresh created tasks.length := by
    have all := create_tasks_fresh (boot_fresh memory) tasks (by omega)
    rwa [Nat.zero_add] at all
  rcases fresh_pass_loses_first fresh nonempty ⟨.start frameAddress, resumed⟩ with
    ⟨next, found, total, nextLost⟩
  rcases lost_passes nextLost passes with ⟨state, rest, same, lost⟩
  refine ⟨fresh.owned, state, ?_, ?_, ?_, ?_⟩
  · rw [runPasses, found]
    exact rest
  · rw [same, total, fresh.total]
  · intro owned
    exact lost.owners 0 (UInt32.lt_of_le_of_lt UInt32.zero_le lost.current) owned.2
  · intro resume k below
    rw [List.forall_mem_cons] at resume
    have switched := fresh_pass_switches fresh nonempty resume.1 found
    exact switched_owned_iff (switched_passes switched resume.2 rest) below

def kernelTasks : List Task :=
  [⟨0x00101000, 0, 0x00200000, 1024, 0⟩, ⟨0x00101040, 0, 0x00200400, 1024, 0⟩]

theorem context_owned_kernel_tasks :
    let created := createTasks (TrackedState.boot fun _ => 0) kernelTasks
    let passes : List Pass := [⟨.yield 0x002007C0, .owner⟩, ⟨.timer 0x0018FF00, .owner⟩]
    (∀ k, k < created.scheduler.total → created.Owned k) ∧
      ∃ state, runPasses created (⟨.start 0x0018FF00, .owner⟩ :: passes) = some state ∧
        state.scheduler.total.toNat = 2 ∧ ¬state.Owned 0 ∧
        ((∀ pass ∈ Pass.mk (.start 0x0018FF00) .owner :: passes, pass.resumed = .owner) →
          ∀ k, k < state.scheduler.total → (state.Owned k ↔ k ≠ 0)) :=
  context_owned_iff (fun _ => 0) kernelTasks (by decide) (by decide) 0x0018FF00 .owner
    [⟨.yield 0x002007C0, .owner⟩, ⟨.timer 0x0018FF00, .owner⟩]

/-- `scheduler_start` overwrites the initial frame of the first task. -/
theorem first_task_overwritten :
    ∃ state,
      runPasses (createTasks (TrackedState.boot fun _ => 0) kernelTasks)
          [⟨.start 0x0018FF00, .owner⟩] = some state ∧
        0 < state.scheduler.total ∧ state.scheduler.tasks 0 = 0x0018FF00 ∧
          state.origins 0 = .savedBy .boot 0x0018FF00 ∧ ¬state.Owned 0 := by
  refine ⟨_, rfl, by decide, by decide, by decide, ?_⟩
  intro owned
  exact absurd owned.2 (by decide)

end FractionsOS.Scheduler
