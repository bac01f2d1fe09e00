import FractionsOS.Library.StackMemory

/-!
# The interrupt stub

`isr_stubs.S` on a machine with a stack: how the processor enters a handler at
the same privilege, the instructions of `isr_common_stub`, and the table of 256
entries that all lead to it. What the manuals leave to the processor is left
open: the upper half of a pushed selector and the flags in a handler.
-/

namespace FractionsOS.Isr

open Library.StackMemory

set_option autoImplicit false

structure Machine where
  eax : UInt32
  ecx : UInt32
  edx : UInt32
  ebx : UInt32
  ebp : UInt32
  esi : UInt32
  edi : UInt32
  /-- ESP and what it points into. -/
  stack : WordStack
  ds : UInt16
  es : UInt16
  cs : UInt16
  eip : UInt32
  eflags : UInt32
  /-- What was written to ports, the last write first. -/
  ports : List (UInt8 × UInt8)

structure Processor where
  /-- The word that a pushed selector makes of the one it is pushed on. -/
  selectorWord : UInt32 → UInt16 → UInt32
  selector_low : ∀ old selector, (selectorWord old selector).toUInt16 = selector
  /-- EFLAGS after the entry through a gate. -/
  gateFlags : UInt32 → UInt32
  /-- EFLAGS after the addition of two words. -/
  addFlags : UInt32 → UInt32 → UInt32 → UInt32

structure Gate where
  selector : UInt16
  offset : UInt32

inductive Segment where
  | ds
  | es
  deriving DecidableEq, Repr

inductive Instruction where
  | pusha
  | pushSegment (segment : Segment)
  | movAx (value : UInt16)
  | movSegmentAx (segment : Segment)
  | movAl (value : UInt8)
  | outAl (port : UInt8)
  | popSegment (segment : Segment)
  | popa
  | addEsp (amount : UInt32)
  | iret
  deriving DecidableEq, Repr

def Machine.segment (machine : Machine) : Segment → UInt16
  | .ds => machine.ds
  | .es => machine.es

def Machine.setSegment (machine : Machine) (selector : UInt16) : Segment → Machine
  | .ds => { machine with ds := selector }
  | .es => { machine with es := selector }

def pushSelector (processor : Processor) (stack : WordStack) (selector : UInt16) : WordStack :=
  stack.push (processor.selectorWord stack.below selector)

def step (processor : Processor) (machine : Machine) : Instruction → Machine
  | .pusha =>
      { machine with
        stack := machine.stack.pushAll [machine.eax, machine.ecx, machine.edx, machine.ebx,
          machine.stack.pointer, machine.ebp, machine.esi, machine.edi] }
  | .pushSegment segment =>
      { machine with stack := pushSelector processor machine.stack (machine.segment segment) }
  | .movAx value => { machine with eax := machine.eax &&& 0xFFFF0000 ||| value.toUInt32 }
  | .movSegmentAx segment => machine.setSegment machine.eax.toUInt16 segment
  | .movAl value => { machine with eax := machine.eax &&& 0xFFFFFF00 ||| value.toUInt32 }
  | .outAl port => { machine with ports := (port, machine.eax.toUInt8) :: machine.ports }
  | .popSegment segment =>
      ({ machine with stack := machine.stack.drop } : Machine).setSegment
        machine.stack.top.toUInt16 segment
  | .popa =>
      -- The word of ESP is skipped.
      let ebp := machine.stack.drop.drop
      let ebx := ebp.drop.drop
      { machine with
        edi := machine.stack.top
        esi := machine.stack.drop.top
        ebp := ebp.top
        ebx := ebx.top
        edx := ebx.drop.top
        ecx := ebx.drop.drop.top
        eax := ebx.drop.drop.drop.top
        stack := ebx.drop.drop.drop.drop }
  | .addEsp amount =>
      { machine with
        stack := { machine.stack with pointer := machine.stack.pointer + amount }
        eflags := processor.addFlags machine.eflags machine.stack.pointer amount }
  | .iret =>
      { machine with
        eip := machine.stack.top
        cs := machine.stack.drop.top.toUInt16
        eflags := machine.stack.drop.drop.top
        stack := machine.stack.drop.drop.drop }

def run (processor : Processor) (machine : Machine) (instructions : List Instruction) : Machine :=
  instructions.foldl (step processor) machine

def isrCommonStub : List Instruction :=
  [.pusha, .pushSegment .ds, .pushSegment .es,
    .movAx 0x10, .movSegmentAx .ds, .movSegmentAx .es,
    .movAl 0x20, .outAl 0x20, .outAl 0xA0,
    .popSegment .es, .popSegment .ds, .popa,
    .addEsp 4, .iret]

/-- `times 256 dd isr_common_stub` -/
def isrStubTable : List (List Instruction) := List.replicate 256 isrCommonStub

/-- The exceptions for which the processor pushes an error code: #DF, #TS, #NP,
#SS, #GP, #PF, #AC, #CP, #VC and #SX. -/
def errorCodeVectors : List UInt8 := [8, 10, 11, 12, 13, 14, 17, 21, 29, 30]

def HasErrorCode (vector : UInt8) : Prop := vector ∈ errorCodeVectors

instance (vector : UInt8) : Decidable (HasErrorCode vector) :=
  inferInstanceAs (Decidable (_ ∈ _))

/-- An interrupt at the same privilege: no stack is switched. -/
def deliver (processor : Processor) (gate : Gate) (vector : UInt8) (errorCode : UInt32)
    (machine : Machine) : Machine :=
  let flags := machine.stack.push machine.eflags
  let returnAddress := (pushSelector processor flags machine.cs).push machine.eip
  { machine with
    stack := if HasErrorCode vector then returnAddress.push errorCode else returnAddress
    cs := gate.selector
    eip := gate.offset
    eflags := processor.gateFlags machine.eflags }

def handle (processor : Processor) (gate : Gate) (vector : UInt8) (errorCode : UInt32)
    (machine : Machine) : Machine :=
  run processor (deliver processor gate vector errorCode machine)
    (isrStubTable.getD vector.toNat [])

end FractionsOS.Isr
