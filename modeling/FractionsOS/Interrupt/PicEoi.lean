import FractionsOS.Interrupt.Pic
import FractionsOS.Interrupt.PicNesting

/-!
# Handlers that end their interrupts with `pic_send_eoi`

Handlers of the IRQs that interrupt each other, on the two cascaded 8259s. Each ends its
interrupt with one call of `pic_send_eoi`, as `timer_handler` does, which from 8 on
writes to the slave before it writes to the master.

An IRQ of the master that names a number from 8 on writes to the slave for nothing. That
harms only where the master passes it on while the slave is busy.
-/

namespace FractionsOS.Pic

open Library.PortPrograms Library.NestedService Isr

set_option autoImplicit false

def sendEoiWrites (irq : UInt8) : List (UInt16 × UInt8) :=
  if 8 ≤ irq then [(pic2Cmd, 0x20), (pic1Cmd, 0x20)] else [(pic1Cmd, 0x20)]

theorem send_eoi_emits (irq : UInt8) : Emits (picSendEoi irq) (sendEoiWrites irq) 0 := by
  unfold picSendEoi sendEoiWrites
  by_cases fromSlave : 8 ≤ irq
  · rw [if_pos fromSlave, if_pos fromSlave]
    exact emits_written pic2Cmd 0x20 fun _ => emits_outb pic1Cmd 0x20
  · rw [if_neg fromSlave, if_neg fromSlave]
    exact emits_outb pic1Cmd 0x20

def eoiAt (write : UInt16 × UInt8) : Option Controller :=
  if write = (pic1Cmd, 0x20) then some .master
  else if write = (pic2Cmd, 0x20) then some .slave
  else none

def sendEois (irq : UInt8) : List Controller := (sendEoiWrites irq).filterMap eoiAt

theorem send_eois_slave {irq : UInt8} (fromSlave : 8 ≤ irq) :
    sendEois irq = [.slave, .master] := by
  unfold sendEois sendEoiWrites
  rw [if_pos fromSlave]
  decide

theorem send_eois_master {irq : UInt8} (fromMaster : ¬8 ≤ irq) : sendEois irq = [.master] := by
  unfold sendEois sendEoiWrites
  rw [if_neg fromMaster]
  decide

theorem slave_in_send_eois {irq : UInt8} (named : Controller.slave ∈ sendEois irq) : 8 ≤ irq := by
  by_contra fromMaster
  rw [send_eois_master fromMaster] at named
  exact absurd named (by decide)

/-- The number each handler gives to `pic_send_eoi`. Those of the slave end their
interrupt in the slave. -/
structure EoiArguments where
  argument : Fin 16 → UInt8
  slaves : ∀ number : Fin 16, 8 ≤ number.val → 8 ≤ argument number

def handlerService (arguments : EoiArguments) (number : Fin 16) : Service Controller where
  level := irqLevel number
  acks := sendEois (arguments.argument number)
  distinct := by
    by_cases fromSlave : 8 ≤ arguments.argument number
    · rw [send_eois_slave fromSlave]
      decide
    · rw [send_eois_master fromSlave]
      decide
  acknowledged controller marked := by
    by_cases fromSlave : 8 ≤ arguments.argument number
    · rw [send_eois_slave fromSlave]
      cases controller with
      | master => decide
      | slave => decide
    · rw [send_eois_master fromSlave]
      cases controller with
      | master => decide
      | slave =>
          have master : number.val < 8 := by
            by_contra slave
            exact fromSlave (arguments.slaves number (Nat.le_of_not_lt slave))
          exact absurd (if_pos master) marked

def exceptionService : Service Controller where
  level _ := none
  acks := []
  distinct := List.nodup_nil
  acknowledged _ marked := absurd rfl marked

inductive HandlerEvent where
  /-- A hardware IRQ is accepted. The input of the slave is none. -/
  | irq (number : Fin 16) (input : number.val ≠ 2)
  | exception
  /-- The next write of the running handler's `pic_send_eoi`. -/
  | eoi
  | iret

def HandlerEvent.meaning (arguments : EoiArguments) : HandlerEvent → Event Controller
  | .irq number _ => .enter (handlerService arguments number)
  | .exception => .enter exceptionService
  | .eoi => .acknowledge
  | .iret => .leave

/-- A run from idle controllers, each event good in the state it meets. -/
def HandlerRun (arguments : EoiArguments)
    (good : ServiceState Controller → HandlerEvent → Prop) :
    List HandlerEvent → ServiceState Controller → Prop :=
  RunsWith 8 (HandlerEvent.meaning arguments) good (idle Controller)

/-- A write of the running handler clears no bit that another one set. -/
def HandlerClearsOwn (arguments : EoiArguments) (state : ServiceState Controller)
    (event : HandlerEvent) : Prop :=
  ClearsOwn 8 state (event.meaning arguments)

/-- Until a handler has ended its interrupt in the slave it is in service in the master,
at the input of the slave. -/
def SlaveFirst (activation : Activation Controller) : Prop :=
  (Controller.slave ∈ activation.acks → activation.acks = [.slave, .master]) ∧
    (activation.level .slave ≠ none → activation.level .master = some 2)

theorem slave_first_irq (arguments : EoiArguments) (number : Fin 16) (id : Nat) :
    SlaveFirst ⟨id, irqLevel number, sendEois (arguments.argument number)⟩ := by
  constructor
  · intro named
    exact send_eois_slave (slave_in_send_eois named)
  · intro marked
    have slave : ¬number.val < 8 := fun master => marked (if_pos master)
    exact congrArg some (if_neg slave)

theorem slave_first_step {arguments : EoiArguments} {state next : ServiceState Controller}
    {event : HandlerEvent} (first : ∀ activation ∈ state.stack, SlaveFirst activation)
    (stepped : Step 8 state (event.meaning arguments) next) :
    ∀ activation ∈ next.stack, SlaveFirst activation := by
  cases event with
  | irq number input =>
      cases stepped
      intro activation member
      rcases List.mem_cons.mp member with rfl | earlier
      · exact slave_first_irq arguments number _
      · exact first activation earlier
  | exception =>
      cases stepped
      intro activation member
      rcases List.mem_cons.mp member with rfl | earlier
      · exact ⟨fun named => absurd named List.not_mem_nil, fun marked => absurd rfl marked⟩
      · exact first activation earlier
  | eoi =>
      cases stepped with
      | acknowledge running pending =>
          rename_i top controller acks below
          rw [running, List.forall_mem_cons] at first
          rw [List.forall_mem_cons]
          refine ⟨⟨?_, first.1.2⟩, first.2⟩
          intro named
          have whole := first.1.1 (by rw [pending]; exact List.mem_cons_of_mem controller named)
          -- The slave was acknowledged by the first of the two writes.
          rw [pending] at whole
          cases whole
          have absent : Controller.slave ∉ [Controller.master] := by decide
          exact absurd named absent
  | iret =>
      cases stepped with
      | leave running nothing =>
          rw [running, List.forall_mem_cons] at first
          exact first.2

theorem slave_busy {state : ServiceState Controller} (consistent : Consistent 8 state)
    (first : ∀ activation ∈ state.stack, SlaveFirst activation) {level owner : Nat}
    (busy : state.inService .slave level = some owner) :
    state.inService .master 2 = some owner := by
  rcases (consistent.levels .slave level owner).mp busy with ⟨holder, member, same, holds⟩
  have shape := first holder member
  have marks := shape.2 (by rw [holds.2]; exact Option.some_ne_none level)
  rw [consistent.levels]
  refine ⟨holder, member, same, ?_, marks⟩
  rw [shape.1 holds.1]
  decide

/-- IRQs 0 and 1, the only ones that the master passes on while the slave's input is in
service, do not write to the slave. -/
def UrgentApart (arguments : EoiArguments) : Prop :=
  ∀ number : Fin 16, number.val < 2 → arguments.argument number < 8

instance (arguments : EoiArguments) : Decidable (UrgentApart arguments) :=
  inferInstanceAs (Decidable (∀ number : Fin 16, number.val < 2 → _))

theorem argument_small {arguments : EoiArguments} (apart : UrgentApart arguments)
    {number : Fin 16} (urgent : number.val < 2) : ¬8 ≤ arguments.argument number :=
  UInt8.not_le.mpr (apart number urgent)

theorem master_levels {number : Fin 16} (master : number.val < 8) :
    irqLevel number .slave = none ∧ irqLevel number .master = some number.val := by
  unfold irqLevel
  rw [if_pos master, if_pos master]
  exact ⟨rfl, rfl⟩

theorem handler_careful {arguments : EoiArguments} (apart : UrgentApart arguments)
    {state next : ServiceState Controller} {event : HandlerEvent}
    (consistent : Consistent 8 state) (first : ∀ activation ∈ state.stack, SlaveFirst activation)
    (stepped : Step 8 state (event.meaning arguments) next) :
    Careful state (event.meaning arguments) := by
  cases event with
  | eoi => trivial
  | iret => trivial
  | exception =>
      intro controller acknowledges
      cases acknowledges
  | irq number input =>
      cases stepped with
      | enter accepts =>
          intro controller acknowledges unmarked level
          cases controller with
          | master => cases unmarked
          | slave =>
              have argument := slave_in_send_eois acknowledges
              have master : number.val < 8 := by
                by_contra slave
                have marked : irqLevel number .slave = some (number.val - 8) := if_neg slave
                exact absurd (marked.symm.trans unmarked) (Option.some_ne_none _)
              have late : 2 ≤ number.val := by
                by_contra urgent
                exact argument_small apart (Nat.lt_of_not_le urgent) argument
              -- The master accepts it, so the slave's input is not in service.
              have free := (accepts .master number.val (master_levels master).2).2 2 late
              cases busy : state.inService .slave level with
              | none => rfl
              | some owner =>
                  have waiting := slave_busy consistent first busy
                  exact absurd (waiting.symm.trans free) (Option.some_ne_none owner)

theorem handlers_run {arguments : EoiArguments} (apart : UrgentApart arguments)
    {events : List HandlerEvent} {final : ServiceState Controller}
    (runs : HandlerRun arguments (fun _ _ => True) events final) :
    HandlerRun arguments (HandlerClearsOwn arguments) events final ∧ Consistent 8 final := by
  have none : ∀ activation ∈ (idle Controller).stack, SlaveFirst activation := by
    intro activation member
    cases member
  exact invariant_run (fun consistent first => handler_careful apart consistent first)
    slave_first_step idle_consistent List.Pairwise.nil none runs

theorem irq_accepted (arguments : EoiArguments) (number : Fin 16) :
    Accepts 8 (idle Controller) (handlerService arguments number) :=
  fun _ _ marks => ⟨irq_level_lt marks, fun _ _ => rfl⟩

/-- While IRQ 8 is handled, the master passes on IRQs 0 and 1. -/
theorem urgent_accepted (arguments : EoiArguments) {number : Fin 16} (urgent : number.val < 2) :
    Accepts 8 (entered (idle Controller) (handlerService arguments 8))
      (handlerService arguments number) := by
  have levels := @master_levels number (by omega)
  intro controller level marks
  refine ⟨irq_level_lt marks, fun other le => ?_⟩
  cases controller with
  | slave => exact absurd (levels.1.symm.trans marks) (Option.some_ne_none level).symm
  | master =>
      have value : number.val = level := Option.some.inj (levels.2.symm.trans marks)
      apply if_neg
      intro same
      have two : 2 = other := Option.some.inj same
      omega

theorem slave_untouched (state : ServiceState Controller) (arguments : EoiArguments)
    {number : Fin 16} (master : number.val < 8) (level : Nat) :
    (entered state (handlerService arguments number)).inService .slave level =
      state.inService .slave level := by
  apply if_neg
  intro marks
  exact absurd ((master_levels master).1.symm.trans marks) (Option.some_ne_none level).symm

/-- A handler of IRQ 0 or 1 interrupts that of IRQ 8 and clears its bit in the slave. -/
theorem urgent_clears_slave {arguments : EoiArguments} {number : Fin 16}
    (urgent : number.val < 2) (argument : 8 ≤ arguments.argument number) :
    ¬∀ events final, HandlerRun arguments (fun _ _ => True) events final →
      HandlerRun arguments (HandlerClearsOwn arguments) events final := by
  intro every
  have input : number.val ≠ 2 := Nat.ne_of_lt urgent
  let waiting := entered (idle Controller) (handlerService arguments 8)
  have shape := send_eois_slave argument
  have run : HandlerRun arguments (fun _ _ => True)
      [.irq 8 (by decide), .irq number input, .eoi] _ :=
    .cons trivial (.enter (irq_accepted arguments 8))
      (.cons trivial (.enter (urgent_accepted arguments urgent))
        (.cons trivial (.acknowledge rfl shape) (.nil _)))
  cases every _ _ run with
  | cons _ accepted rest =>
      cases accepted
      cases rest with
      | cons _ accepted rest =>
          cases accepted
          cases rest with
          | cons own _ _ =>
              have untouched := @slave_untouched waiting arguments number (by omega)
              have busy : (entered waiting (handlerService arguments number)).inService .slave 0 =
                  some 0 := untouched 0
              rcases highest_exists (by decide : 0 < 8) busy with ⟨level, found⟩
              rcases highest_in_service found with ⟨owner, marked⟩
              have mine := own _ _ .slave _ rfl shape level owner found marked
              rw [untouched] at marked
              by_cases same : irqLevel 8 .slave = some level
              · have owned : waiting.inService .slave level = some 0 := if_pos same
                rw [owned] at marked
                rw [← Option.some.inj marked] at mine
                exact absurd mine Nat.zero_ne_one
              · have free : waiting.inService .slave level = none := if_neg same
                rw [free] at marked
                cases marked

/-- With the writes of `pic_send_eoi`, handlers clear bits of their own only, in every run, if
and only if those of IRQs 0 and 1 give it a number below 8. Then a run that leaves no handler
unfinished leaves no bit in service. -/
theorem send_eoi_discipline_iff (arguments : EoiArguments) :
    (∀ irq, Emits (picSendEoi irq) (sendEoiWrites irq) 0) ∧
    ((∀ events final, HandlerRun arguments (fun _ _ => True) events final →
      HandlerRun arguments (HandlerClearsOwn arguments) events final) ↔ UrgentApart arguments) ∧
    (UrgentApart arguments → ∀ events final,
      HandlerRun arguments (fun _ _ => True) events final → final.stack = [] →
        ∀ controller level, final.inService controller level = none) := by
  refine ⟨send_eoi_emits, ?_, ?_⟩
  · constructor
    · intro every number urgent
      by_contra large
      exact urgent_clears_slave urgent (UInt8.not_lt.mp large) every
    · intro apart events final runs
      exact (handlers_run apart runs).1
  · intro apart events final runs finished
    exact finished_idle (handlers_run apart runs).2 finished

def ownArguments : EoiArguments where
  argument number := UInt8.ofNat number.val
  slaves := by decide

example : UrgentApart ownArguments := by decide

end FractionsOS.Pic
