import FractionsOS.Interrupt.IsrStub
import FractionsOS.Library.NestedService

/-!
# Nested interrupts and end of interrupt

Two cascaded 8259s in fully nested mode, the slave on IR2, and activations of
`isr_common_stub` that interrupt each other. A non-specific EOI clears the highest
bit in service of its controller. The stub sends one to both controllers, whatever
it was entered for.
-/

namespace FractionsOS.Isr

open Library.NestedService

set_option autoImplicit false

inductive Controller where
  | master
  | slave
  deriving DecidableEq, Repr

def stubWrites : List (UInt8 × UInt8) := [(0x20, 0x20), (0xA0, 0x20)]

theorem al_loaded (eax : UInt32) (value : UInt8) :
    (eax &&& 0xFFFFFF00 ||| value.toUInt32).toUInt8 = value := by
  have cleared : (0xFFFFFF00 : UInt32).toUInt8 = 0 := by decide
  rw [UInt32.toUInt8_or, UInt32.toUInt8_and, cleared, UInt8.and_zero, UInt8.zero_or,
    UInt8.toUInt8_toUInt32]

theorem stub_writes (processor : Processor) (machine : Machine) :
    (run processor machine isrCommonStub).ports = stubWrites.reverse ++ machine.ports := by
  let eax := (machine.eax &&& 0xFFFF0000 ||| (0x10 : UInt16).toUInt32) &&& 0xFFFFFF00 |||
    (0x20 : UInt8).toUInt32
  have al : eax.toUInt8 = 0x20 := al_loaded _ _
  have ports : (run processor machine isrCommonStub).ports =
      (0xA0, eax.toUInt8) :: (0x20, eax.toUInt8) :: machine.ports := rfl
  rw [ports, al]
  rfl

/-- The controller that takes a write as a non-specific EOI. -/
def eoiController (write : UInt8 × UInt8) : Option Controller :=
  if write = (0x20, 0x20) then some .master
  else if write = (0xA0, 0x20) then some .slave
  else none

def stubEois : List Controller := stubWrites.filterMap eoiController

theorem stub_eois : stubEois = [.master, .slave] := by decide

def irqLevel (number : Fin 16) : Controller → Option Nat
  | .master => some (if number.val < 8 then number.val else 2)
  | .slave => if number.val < 8 then none else some (number.val - 8)

def stubService (level : Controller → Option Nat) : Service Controller where
  level
  acks := stubEois
  distinct := by decide
  acknowledged controller _ := by cases controller <;> decide

inductive InterruptEvent where
  /-- A hardware IRQ is accepted. The input of the slave is none. -/
  | irq (number : Fin 16) (input : number ≠ 2)
  | exception
  /-- The running stub makes its next write. -/
  | eoi
  | iret

def InterruptEvent.meaning : InterruptEvent → Event Controller
  | .irq number _ => .enter (stubService (irqLevel number))
  | .exception => .enter (stubService fun _ => none)
  | .eoi => .acknowledge
  | .iret => .leave

def InterruptRun (good : ServiceState Controller → InterruptEvent → Prop) :
    List InterruptEvent → ServiceState Controller → Prop :=
  RunsWith 8 InterruptEvent.meaning good (idle Controller)

/-- A write of the running stub clears no bit that another activation set. -/
def ClearsOwnBits (state : ServiceState Controller) (event : InterruptEvent) : Prop :=
  ClearsOwn 8 state event.meaning

/-- Exceptions come with no bit in service, and IRQs of the master with none in
service in the slave. -/
def AcceptedAlone (state : ServiceState Controller) : InterruptEvent → Prop
  | .irq number _ => number.val < 8 → ∀ level, state.inService .slave level = none
  | .exception => ∀ controller level, state.inService controller level = none
  | .eoi | .iret => True

theorem careful_iff (state : ServiceState Controller) (event : InterruptEvent) :
    Careful state event.meaning ↔ AcceptedAlone state event := by
  cases event with
  | eoi => exact Iff.rfl
  | iret => exact Iff.rfl
  | irq number input =>
      change (∀ controller ∈ stubEois, irqLevel number controller = none → _) ↔ _
      rw [stub_eois]
      constructor
      · intro careful master
        exact careful .slave (by decide) (if_pos master)
      · intro alone controller _ unmarked
        cases controller with
        | master => cases unmarked
        | slave =>
            apply alone
            by_contra notMaster
            have marked : irqLevel number .slave = some (number.val - 8) := if_neg notMaster
            rw [unmarked] at marked
            cases marked
  | exception =>
      change (∀ controller ∈ stubEois, none = none → _) ↔ _
      rw [stub_eois]
      constructor
      · intro careful controller
        cases controller with
        | master => exact careful .master (by decide) rfl
        | slave => exact careful .slave (by decide) rfl
      · intro alone controller _ _
        exact alone controller

/-- With the two writes of `isr_common_stub`, bits are cleared by their own activations in
every run whose exceptions and master IRQs are accepted alone, and of the runs that leave no
stub unfinished only in these. -/
theorem eoi_discipline_iff (events : List InterruptEvent) (final : ServiceState Controller) :
    (∀ (processor : Processor) (machine : Machine),
        (run processor machine isrCommonStub).ports = stubWrites.reverse ++ machine.ports) ∧
      (InterruptRun AcceptedAlone events final → InterruptRun ClearsOwnBits events final) ∧
      (final.stack = [] →
        (InterruptRun ClearsOwnBits events final ↔ InterruptRun AcceptedAlone events final)) := by
  have enough : InterruptRun AcceptedAlone events final →
      InterruptRun ClearsOwnBits events final := by
    intro alone
    apply careful_run idle_consistent List.Pairwise.nil
    exact runs_with_imp (fun state event => (careful_iff state event).mpr) alone
  refine ⟨stub_writes, ?_, ?_⟩
  · exact enough
  · intro finished
    constructor
    · intro own
      have careful := (own_run idle_consistent own finished).2
      exact runs_with_imp (fun state event => (careful_iff state event).mp) careful
    · exact enough

theorem irq_level_lt {number : Fin 16} {controller : Controller} {level : Nat}
    (marks : irqLevel number controller = some level) : level < 8 := by
  have bound := number.isLt
  cases controller with
  | master =>
      have value := Option.some.inj marks
      split_ifs at value
      · omega
      · omega
  | slave =>
      by_cases master : number.val < 8
      · rw [irqLevel, if_pos master] at marks
        cases marks
      · rw [irqLevel, if_neg master] at marks
        have value := Option.some.inj marks
        omega

/-- IRQ 1 interrupts the stub of IRQ 8 and clears its bit in the slave. -/
theorem nested_stub_clears_slave :
    ¬∀ events final, InterruptRun (fun _ _ => True) events final →
      InterruptRun ClearsOwnBits events final := by
  intro every
  have first : Accepts 8 (idle Controller) (stubService (irqLevel 8)) := fun controller level marks =>
    ⟨irq_level_lt marks, fun _ _ => rfl⟩
  have second : Accepts 8 (entered (idle Controller) (stubService (irqLevel 8)))
      (stubService (irqLevel 1)) := by
    intro controller level marks
    refine ⟨irq_level_lt marks, fun other le => ?_⟩
    cases controller with
    | slave => cases marks
    | master =>
        have value : level = 1 := (Option.some.inj marks).symm
        apply if_neg
        intro same
        have two : 2 = other := Option.some.inj same
        omega
  have run : InterruptRun (fun _ _ => True)
      [.irq 8 (by decide), .irq 1 (by decide), .eoi, .eoi] _ :=
    .cons trivial (.enter first) (.cons trivial (.enter second) (.cons trivial
      (.acknowledge rfl rfl) (.cons trivial (.acknowledge rfl rfl) (.nil _))))
  cases every _ _ run with
  | cons _ accepted rest =>
      cases accepted
      cases rest with
      | cons _ accepted rest =>
          cases accepted
          cases rest with
          | cons _ written rest =>
              cases written with
              | acknowledge running pending =>
                  cases running
                  cases pending
                  cases rest with
                  | cons own _ _ =>
                      exact absurd (own _ _ .slave [] rfl rfl 0 0 (by decide +kernel)
                        (by decide +kernel)) (by decide)

end FractionsOS.Isr
