import FractionsOS.Interrupt.Pic
import FractionsOS.Library.StackMemory

/-!
# The scheduler

The functions of `scheduler.c`. A task is the stack pointer of its slot. What
`schedule` stores there is the frame address of whoever calls it, and what it
loads into ESP is given back. `scheduler_start` and `timer_handler` also talk to
the interrupt controllers, which is given as a port program of its own.
-/

namespace FractionsOS.Scheduler

open Library.PortPrograms Library.StackMemory Pic

set_option autoImplicit false

def maxTasks : UInt32 := 32
def stackAlign : UInt32 := 16

structure SchedulerState where
  memory : Memory
  /-- `tasks[i].sp` -/
  tasks : UInt32 → UInt32
  /-- The indices at which `tasks` was read or written, latest first. -/
  used : List UInt32
  current : UInt32
  total : UInt32

/-- The state before `kernel_main`: static variables are zero. -/
def bootState (memory : Memory) : SchedulerState where
  memory
  tasks := fun _ => 0
  used := []
  current := 0
  total := 0

def setTask (tasks : UInt32 → UInt32) (index sp : UInt32) : UInt32 → UInt32 := fun other =>
  if other = index then sp else tasks other

theorem set_task_same (tasks : UInt32 → UInt32) (index sp : UInt32) :
    setTask tasks index sp index = sp := if_pos rfl

theorem set_task_other (tasks : UInt32 → UInt32) {index other : UInt32} (sp : UInt32)
    (different : other ≠ index) : setTask tasks index sp other = tasks other := if_neg different

structure Switch where
  esp : UInt32
  state : SchedulerState

/-- `none` is the trap of a remainder by zero. -/
def schedule (frameAddress : UInt32) (state : SchedulerState) : Option Switch :=
  let tasks := setTask state.tasks state.current frameAddress
  if state.total = 0 then none
  else
    let current := (state.current + 1) % state.total
    some ⟨tasks current,
      { state with tasks, used := current :: state.current :: state.used, current }⟩

def timerHandler (frameAddress : UInt32) (state : SchedulerState) :
    PortProgram Unit × Option Switch :=
  (picSendEoi 0, schedule frameAddress state)

def stackTop (st sz : UInt32) : UInt32 := (st + sz) &&& ~~~(stackAlign - 1)

def initialStack (memory : Memory) (f arg st sz : UInt32) : WordStack :=
  (((⟨memory, stackTop st sz⟩ : WordStack).push arg).push 0).push f

/-- The value returned, `uint32_t` -1 when there is no slot left. -/
def schedulerCreateTask (f arg st sz : UInt32) (_prio : UInt8) (state : SchedulerState) :
    UInt32 × SchedulerState :=
  if maxTasks ≤ state.total then (-1, state)
  else
    let stack := initialStack state.memory f arg st sz
    let total := state.total + 1
    (total - 1,
      { state with
        memory := stack.memory
        tasks := setTask state.tasks state.total stack.pointer
        used := state.total :: state.used
        total })

/-- A call that finds a slot takes the next one and returns its index. -/
theorem create_task_of_slot {state : SchedulerState} (slot : state.total.toNat < 32)
    (f arg st sz : UInt32) (prio : UInt8) :
    schedulerCreateTask f arg st sz prio state =
      (state.total,
        { state with
          memory := (initialStack state.memory f arg st sz).memory
          tasks := setTask state.tasks state.total (initialStack state.memory f arg st sz).pointer
          used := state.total :: state.used
          total := state.total + 1 }) := by
  have notFull : ¬maxTasks ≤ state.total := by
    rw [UInt32.le_iff_toNat_le]
    exact Nat.not_le_of_lt slot
  rw [schedulerCreateTask, if_neg notFull]
  dsimp only
  rw [UInt32.add_sub_cancel]

/-- `init_interrupts`, whose `sti` no state modelled here depends on. -/
def initInterrupts : PortProgram Unit := picRemap 32 40

/-- `register_interrupt_handler` does nothing. -/
def schedulerStart (frameAddress : UInt32) (state : SchedulerState) :
    PortProgram Unit × Option Switch :=
  (initInterrupts, schedule frameAddress state)

def schedulerYield (frameAddress : UInt32) (state : SchedulerState) : Option Switch :=
  schedule frameAddress state

def nextSwitch (frameAddress : UInt32) (state : SchedulerState) : Switch :=
  let tasks := setTask state.tasks state.current frameAddress
  let current := (state.current + 1) % state.total
  ⟨tasks current, { state with tasks, used := current :: state.current :: state.used, current }⟩

theorem schedule_of_tasks {state : SchedulerState} (tasks : 0 < state.total)
    (frameAddress : UInt32) :
    schedule frameAddress state = some (nextSwitch frameAddress state) := by
  have some : state.total ≠ 0 := by
    intro zero
    rw [zero] at tasks
    exact absurd tasks (by decide)
  exact if_neg some

end FractionsOS.Scheduler
