import FractionsOS.Interrupt.IsrTransparency
import FractionsOS.Library.StackAgreement

/-!
# Interrupts inside interrupts

Other interrupts come before any instruction of the stub, and others again inside these.
What their handlers leave below the stack pointer is never popped, so that those with an
error code are not noticed, at any depth that the stack has room for.
-/

namespace FractionsOS.Isr

open Library.StackMemory Library.StackMemory.WordStack Library.StackAgreement

set_option autoImplicit false

/-- What happens while instructions are left to run. -/
inductive Course where
  /-- They run to their end. -/
  | undisturbed
  | instruction (rest : Course)
  /-- An interrupt, what happens inside its handler and what happens behind it. -/
  | interrupt (gate : Gate) (vector : UInt8) (errorCode : UInt32) (inside rest : Course)

def Course.depth : Course → Nat
  | .undisturbed => 0
  | .instruction rest => rest.depth
  | .interrupt _ _ _ inside rest => max (inside.depth + 1) rest.depth

def Course.ErrorCodes : Course → Prop
  | .undisturbed => True
  | .instruction rest => rest.ErrorCodes
  | .interrupt _ vector _ inside rest => HasErrorCode vector ∧ inside.ErrorCodes ∧ rest.ErrorCodes

/-- The instructions go on where they were interrupted: EIP, which is not followed from one
to the next, is a part of the context that handlers give back. -/
def follow (processor : Processor) : Course → List Instruction → Machine → Machine
  | .undisturbed, instructions, machine => run processor machine instructions
  | .instruction rest, [], machine => follow processor rest [] machine
  | .instruction rest, instruction :: instructions, machine =>
      follow processor rest instructions (step processor machine instruction)
  | .interrupt gate vector errorCode inside rest, instructions, machine =>
      follow processor rest instructions
        (follow processor inside (isrStubTable.getD vector.toNat [])
          (deliver processor gate vector errorCode machine))

/-- Each handler gives back the context that its interrupt found. -/
def GivesBack (processor : Processor) : Course → List Instruction → Machine → Prop
  | .undisturbed, _, _ => True
  | .instruction rest, [], machine => GivesBack processor rest [] machine
  | .instruction rest, instruction :: instructions, machine =>
      GivesBack processor rest instructions (step processor machine instruction)
  | .interrupt gate vector errorCode inside rest, instructions, machine =>
      let entered := deliver processor gate vector errorCode machine
      let handled := follow processor inside (isrStubTable.getD vector.toNat []) entered
      GivesBack processor inside (isrStubTable.getD vector.toNat []) entered ∧
        SameContext machine handled ∧ GivesBack processor rest instructions handled

/-- The instruction takes stacks that agree on the first words to ones that agree on the
second. Of a pushed selector only the low half is known. -/
inductive Passes : Instruction → List Extent → List Extent → Prop where
  | pusha (extents : List Extent) : Passes .pusha extents (List.replicate 8 .whole ++ extents)
  | pushSegment (segment : Segment) (extents : List Extent) :
      Passes (.pushSegment segment) extents (.low :: extents)
  | movAx (value : UInt16) (extents : List Extent) : Passes (.movAx value) extents extents
  | movSegmentAx (segment : Segment) (extents : List Extent) :
      Passes (.movSegmentAx segment) extents extents
  | movAl (value : UInt8) (extents : List Extent) : Passes (.movAl value) extents extents
  | outAl (port : UInt8) (extents : List Extent) : Passes (.outAl port) extents extents
  | popSegment (segment : Segment) (extent : Extent) (extents : List Extent) :
      Passes (.popSegment segment) (extent :: extents) extents
  | popa (extents : List Extent) : Passes .popa (List.replicate 8 .whole ++ extents) extents
  | addEsp (extent : Extent) (extents : List Extent) :
      Passes (.addEsp 4) (extent :: extents) extents
  | iret (extent : Extent) (extents : List Extent) :
      Passes .iret (.whole :: extent :: .whole :: extents) extents

inductive PassesAll : List Instruction → List Extent → List Extent → Prop where
  | nil (extents : List Extent) : PassesAll [] extents extents
  | cons {instruction : Instruction} {instructions : List Instruction}
      {extents passed after : List Extent} : Passes instruction extents passed →
      PassesAll instructions passed after → PassesAll (instruction :: instructions) extents after

/-- The stub needs four words below the interrupted ones, the frame with its error code. -/
theorem stub_passes (extents : List Extent) :
    PassesAll isrCommonStub (List.replicate 4 .whole ++ extents) extents :=
  .cons (.pusha _) <| .cons (.pushSegment .ds _) <| .cons (.pushSegment .es _) <|
    .cons (.movAx 0x10 _) <| .cons (.movSegmentAx .ds _) <| .cons (.movSegmentAx .es _) <|
    .cons (.movAl 0x20 _) <| .cons (.outAl 0x20 _) <| .cons (.outAl 0xA0 _) <|
    .cons (.popSegment .es .low _) <| .cons (.popSegment .ds .low _) <| .cons (.popa _) <|
    .cons (.addEsp .whole _) <| .cons (.iret .whole _) <| .nil extents

def pushedWords : Instruction → Nat
  | .pusha => 8
  | .pushSegment _ => 1
  | _ => 0

def pushedBy : List Instruction → Nat
  | [] => 0
  | instruction :: instructions => pushedWords instruction + pushedBy instructions

theorem stub_pushes : pushedBy isrCommonStub = 10 := rfl

theorem passes_length {instruction : Instruction} {extents passed : List Extent}
    (passes : Passes instruction extents passed) :
    passed.length ≤ pushedWords instruction + extents.length := by
  cases passes with
  | pusha =>
      rw [List.length_append, List.length_replicate]
      exact Nat.le_refl _
  | pushSegment =>
      rw [List.length_cons, Nat.add_comm]
      exact Nat.le_refl _
  | movAx => exact Nat.le_add_left _ _
  | movSegmentAx => exact Nat.le_add_left _ _
  | movAl => exact Nat.le_add_left _ _
  | outAl => exact Nat.le_add_left _ _
  | popSegment => exact Nat.le_add_left_of_le (Nat.le_succ _)
  | popa =>
      rw [List.length_append]
      omega
  | addEsp => exact Nat.le_add_left_of_le (Nat.le_succ _)
  | iret =>
      rw [List.length_cons, List.length_cons, List.length_cons]
      omega

structure Alike (extents : List Extent) (one other : Machine) : Prop where
  context : SameContext one other
  words : Agree extents one.stack other.stack

theorem context_self (machine : Machine) : SameContext machine machine := by
  constructor <;> rfl

theorem context_trans {one other third : Machine} (first : SameContext one other)
    (second : SameContext other third) : SameContext one third where
  eax := second.eax.trans first.eax
  ecx := second.ecx.trans first.ecx
  edx := second.edx.trans first.edx
  ebx := second.ebx.trans first.ebx
  ebp := second.ebp.trans first.ebp
  esi := second.esi.trans first.esi
  edi := second.edi.trans first.edi
  esp := second.esp.trans first.esp
  ds := second.ds.trans first.ds
  es := second.es.trans first.es
  cs := second.cs.trans first.cs
  eip := second.eip.trans first.eip
  eflags := second.eflags.trans first.eflags

theorem alike_self (extents : List Extent) (machine : Machine) : Alike extents machine machine :=
  ⟨context_self machine, agree_self extents machine.stack⟩

theorem alike_trans {extents : List Extent} {one other third : Machine}
    (first : Alike extents one other) (second : Alike extents other third) :
    Alike extents one third :=
  ⟨context_trans first.context second.context, agree_trans first.words second.words⟩

section Steps

variable {processor : Processor} {extents : List Extent} {one other : Machine}

theorem context_on_stacks (context : SameContext one other) {stack otherStack : WordStack}
    (esp : otherStack.pointer = stack.pointer) :
    SameContext { one with stack } { other with stack := otherStack } where
  eax := context.eax
  ecx := context.ecx
  edx := context.edx
  ebx := context.ebx
  ebp := context.ebp
  esi := context.esi
  edi := context.edi
  esp := esp
  ds := context.ds
  es := context.es
  cs := context.cs
  eip := context.eip
  eflags := context.eflags

theorem context_with_eax (context : SameContext one other) {eax otherEax : UInt32}
    (same : otherEax = eax) : SameContext { one with eax } { other with eax := otherEax } :=
  { context with eax := same }

theorem context_with_segment (context : SameContext one other) (segment : Segment)
    {selector otherSelector : UInt16} (same : otherSelector = selector) :
    SameContext (one.setSegment selector segment) (other.setSegment otherSelector segment) := by
  cases segment with
  | ds => exact { context with ds := same }
  | es => exact { context with es := same }

theorem segment_stack (machine : Machine) (selector : UInt16) (segment : Segment) :
    (machine.setSegment selector segment).stack = machine.stack := by
  cases segment with
  | ds => rfl
  | es => rfl

theorem low_same {extent : Extent} {word otherWord : UInt32} (same : extent.Same word otherWord) :
    otherWord.toUInt16 = word.toUInt16 := by
  cases extent with
  | whole => exact congrArg UInt32.toUInt16 (Eq.symm same)
  | low => exact Eq.symm same

def generalRegisters (machine : Machine) : List UInt32 :=
  [machine.eax, machine.ecx, machine.edx, machine.ebx, machine.stack.pointer, machine.ebp,
    machine.esi, machine.edi]

theorem step_pusha (machine : Machine) :
    step processor machine .pusha =
      { machine with stack := machine.stack.pushAll (generalRegisters machine) } := rfl

theorem same_registers (context : SameContext one other) :
    generalRegisters other = generalRegisters one := by
  unfold generalRegisters
  rw [context.eax, context.ecx, context.edx, context.ebx, context.esp, context.ebp, context.esi,
    context.edi]

theorem pusha_alike (alike : Alike extents one other) (fits : extents.length + 8 < 2 ^ 30) :
    Alike (List.replicate 8 .whole ++ extents) (step processor one .pusha)
      (step processor other .pusha) := by
  have registers := same_registers alike.context
  have room : (generalRegisters one).length + extents.length < 2 ^ 30 := by
    change 8 + extents.length < 2 ^ 30
    omega
  rw [step_pusha, step_pusha, registers]
  constructor
  · apply context_on_stacks alike.context
    rw [push_all_pointer, push_all_pointer, alike.context.esp]
  · exact agree_push_all (generalRegisters one) alike.words room

theorem push_segment_alike (alike : Alike extents one other) (segment : Segment)
    (fits : extents.length + 1 < 2 ^ 30) :
    Alike (.low :: extents) (step processor one (.pushSegment segment))
      (step processor other (.pushSegment segment)) := by
  have selectors : other.segment segment = one.segment segment := by
    cases segment with
    | ds => exact alike.context.ds
    | es => exact alike.context.es
  constructor
  · apply context_on_stacks alike.context
    exact congrArg (· - 4) alike.context.esp
  · refine agree_push ?_ alike.words (by omega)
    exact (processor.selector_low _ _).trans
      (selectors.symm.trans (processor.selector_low _ _).symm)

theorem popa_alike (alike : Alike (List.replicate 8 .whole ++ extents) one other) :
    Alike extents (step processor one .popa) (step processor other .popa) := by
  rcases alike with ⟨context, edi, esi, ebp, _, ebx, edx, ecx, eax, rest⟩
  refine ⟨?_, rest⟩
  exact {
    eax := Eq.symm eax
    ecx := Eq.symm ecx
    edx := Eq.symm edx
    ebx := Eq.symm ebx
    ebp := Eq.symm ebp
    esi := Eq.symm esi
    edi := Eq.symm edi
    esp := congrArg (· + 4 + 4 + 4 + 4 + 4 + 4 + 4 + 4) context.esp
    ds := context.ds
    es := context.es
    cs := context.cs
    eip := context.eip
    eflags := context.eflags }

theorem iret_alike {extent : Extent}
    (alike : Alike (.whole :: extent :: .whole :: extents) one other) :
    Alike extents (step processor one .iret) (step processor other .iret) := by
  rcases alike with ⟨context, eip, cs, eflags, rest⟩
  refine ⟨?_, rest⟩
  exact { context with
    esp := congrArg (· + 4 + 4 + 4) context.esp
    cs := low_same cs
    eip := Eq.symm eip
    eflags := Eq.symm eflags }

theorem step_alike {instruction : Instruction} {passed : List Extent}
    (passes : Passes instruction extents passed) (alike : Alike extents one other)
    (fits : extents.length + pushedWords instruction < 2 ^ 30) :
    Alike passed (step processor one instruction) (step processor other instruction) := by
  have context := alike.context
  cases passes with
  | pusha => exact pusha_alike alike fits
  | pushSegment segment => exact push_segment_alike alike segment fits
  | movAx value =>
      refine ⟨context_with_eax context ?_, alike.words⟩
      rw [context.eax]
  | movSegmentAx segment =>
      have selector : other.eax.toUInt16 = one.eax.toUInt16 := congrArg UInt32.toUInt16 context.eax
      refine ⟨context_with_segment context segment selector, ?_⟩
      unfold step
      rw [segment_stack, segment_stack]
      exact alike.words
  | movAl value =>
      refine ⟨context_with_eax context ?_, alike.words⟩
      rw [context.eax]
  | outAl port => exact ⟨{ context with }, alike.words⟩
  | popSegment segment extent =>
      have popped := @context_on_stacks one other context one.stack.drop other.stack.drop
        (congrArg (· + 4) context.esp)
      refine ⟨context_with_segment popped segment (low_same alike.words.1), ?_⟩
      unfold step
      rw [segment_stack, segment_stack]
      exact alike.words.2
  | popa => exact popa_alike alike
  | addEsp extent =>
      refine ⟨{ context with esp := ?_, eflags := ?_ }, alike.words.2⟩
      · exact congrArg (· + 4) context.esp
      · unfold step
        rw [context.eflags, context.esp]
  | iret extent => exact iret_alike alike

end Steps

theorem run_alike {processor : Processor} {instructions : List Instruction}
    {extents after : List Extent} (passes : PassesAll instructions extents after)
    {one other : Machine} (alike : Alike extents one other)
    (room : extents.length + pushedBy instructions < 2 ^ 30) :
    Alike after (run processor one instructions) (run processor other instructions) := by
  induction passes generalizing one other with
  | nil => exact alike
  | cons first _ induction =>
      have longer := passes_length first
      rw [pushedBy] at room
      exact induction (step_alike first alike (by omega)) (by omega)

section Handlers

variable (processor : Processor) (gate : Gate) (vector : UInt8) (errorCode : UInt32)
  (machine : Machine)

theorem handled_pointer :
    (handle processor gate vector errorCode machine).stack.pointer =
      machine.stack.pointer + if HasErrorCode vector then 0 else 4 := by
  rw [handle, table_entry, stub_pointer, delivered_pointer]
  split_ifs with hasErrorCode
  · grind
  · grind

variable {vector} (hasErrorCode : HasErrorCode vector)

include hasErrorCode

theorem handled_context : SameContext machine (handle processor gate vector errorCode machine) := by
  have restored := stub_restores processor _
    (delivered_holds processor gate vector errorCode machine hasErrorCode)
  have esp := handled_pointer processor gate vector errorCode machine
  rw [if_pos hasErrorCode, UInt32.add_zero] at esp
  rw [handle, table_entry] at esp ⊢
  exact { restored with
    esp
    cs := restored.cs.trans (processor.selector_low _ _) }

theorem handled_stack :
    ∃ words : List UInt32, words.length = 14 ∧
      (handle processor gate vector errorCode machine).stack =
        ⟨(machine.stack.pushAll words).memory, machine.stack.pointer⟩ := by
  let entered := deliver processor gate vector errorCode machine
  have delivered : (deliveredWords processor vector errorCode machine).length = 4 := by
    rw [deliveredWords, if_pos hasErrorCode]
    rfl
  refine ⟨deliveredWords processor vector errorCode machine ++ savedWords processor entered, ?_, ?_⟩
  · rw [List.length_append, delivered]
    rfl
  · have esp := (handled_context processor gate errorCode machine hasErrorCode).esp
    have popped := stub_stack processor entered
    rw [pop_words_below, savedStack, delivered_stack, ← push_all_append] at popped
    have memory : (run processor entered isrCommonStub).stack.memory =
        (machine.stack.pushAll (deliveredWords processor vector errorCode machine ++
          savedWords processor entered)).memory := by
      rw [popped]
    rw [handle, table_entry] at esp ⊢
    exact stack_from_parts memory esp

theorem handled_alike {extents : List Extent} (room : 14 + extents.length < 2 ^ 30) :
    Alike extents machine (handle processor gate vector errorCode machine) := by
  refine ⟨handled_context processor gate errorCode machine hasErrorCode, ?_⟩
  rcases handled_stack processor gate errorCode machine hasErrorCode with ⟨words, length, stack⟩
  rw [stack]
  rw [← length] at room
  exact agree_symm (agree_kept (push_all_keeps_words machine.stack words room) (agree_self _ _))

end Handlers

section Courses

variable {processor : Processor} {course : Course}

/-- Interrupts that have error codes are not noticed by the instructions among which they
come. -/
theorem follow_alike (codes : course.ErrorCodes) {instructions : List Instruction}
    {extents after : List Extent} (passes : PassesAll instructions extents after)
    {one other : Machine} (alike : Alike extents one other)
    (room : extents.length + pushedBy instructions + 14 * course.depth < 2 ^ 30) :
    Alike after (run processor one instructions) (follow processor course instructions other) := by
  induction course generalizing instructions extents after one other with
  | undisturbed => exact run_alike passes alike (Nat.lt_of_le_of_lt (Nat.le_add_right _ _) room)
  | instruction rest induction =>
      cases passes with
      | nil => exact induction codes (.nil _) alike room
      | cons first later =>
          have longer := passes_length first
          rw [pushedBy, Course.depth] at room
          exact induction codes later (step_alike first alike (by omega)) (by omega)
  | interrupt gate vector errorCode inside rest inner outer =>
      rw [Course.depth] at room
      have entered := alike_self (List.replicate 4 .whole ++ extents)
        (deliver processor gate vector errorCode other)
      have handledRoom : (List.replicate 4 Extent.whole ++ extents).length +
          pushedBy isrCommonStub + 14 * inside.depth < 2 ^ 30 := by
        rw [List.length_append, List.length_replicate, stub_pushes]
        omega
      have noticed := inner codes.2.1 (stub_passes extents) entered handledRoom
      have back := handled_alike processor gate errorCode other codes.1
        (show 14 + extents.length < 2 ^ 30 by omega)
      rw [handle, table_entry] at back
      rw [follow, table_entry]
      exact outer codes.2.2 passes (alike_trans alike (alike_trans back noticed)) (by omega)

/-- Whatever interrupts with error codes come while an interrupt is handled, and inside
their handlers, its handling ends in the same context as on its own, with the same words
from the stack pointer on. -/
theorem nested_interrupts_unnoticed (processor : Processor) (gate : Gate) (vector : UInt8)
    (errorCode : UInt32) (machine : Machine) (course : Course) (codes : course.ErrorCodes)
    (count : Nat) (room : count + 14 * (course.depth + 1) < 2 ^ 30) :
    Alike (List.replicate count .whole) (handle processor gate vector errorCode machine)
      (follow processor course (isrStubTable.getD vector.toNat [])
        (deliver processor gate vector errorCode machine)) := by
  rw [handle, table_entry]
  apply follow_alike codes (stub_passes _) (alike_self _ _)
  rw [List.length_append, List.length_replicate, List.length_replicate, stub_pushes]
  omega

def stubGate : Gate := ⟨0x08, 0x00100000⟩

def faultsInside : Course :=
  .instruction (.interrupt stubGate 14 2
    (.instruction (.instruction (.interrupt stubGate 13 0x10 .undisturbed .undisturbed)))
    .undisturbed)

theorem nested_interrupts_unnoticed_faults :
    Alike (List.replicate 1000 .whole) (handle zeroExtending stubGate 32 0 interruptedTask)
      (follow zeroExtending faultsInside (isrStubTable.getD (32 : UInt8).toNat [])
        (deliver zeroExtending stubGate 32 0 interruptedTask)) :=
  nested_interrupts_unnoticed zeroExtending stubGate 32 0 interruptedTask faultsInside
    ⟨by decide, ⟨by decide, trivial, trivial⟩, trivial⟩ 1000 (by decide)

/-- In a course of interrupts every handler gives back the context that it interrupted if
and only if they all have an error code, at every depth that the stack has room for. -/
theorem course_gives_back_iff (processor : Processor) (course : Course)
    (room : 14 * course.depth < 2 ^ 30) (instructions : List Instruction) (machine : Machine) :
    GivesBack processor course instructions machine ↔ course.ErrorCodes := by
  induction course generalizing instructions machine with
  | undisturbed => exact Iff.rfl
  | instruction rest induction =>
      cases instructions with
      | nil => exact induction room [] machine
      | cons instruction instructions =>
          exact induction room instructions (step processor machine instruction)
  | interrupt gate vector errorCode inside rest inner outer =>
      rw [Course.depth] at room
      let entered := deliver processor gate vector errorCode machine
      have insideBack := inner (by omega) (isrStubTable.getD vector.toNat []) entered
      have restBack := outer (by omega) instructions
        (follow processor inside (isrStubTable.getD vector.toNat []) entered)
      have alone : inside.ErrorCodes →
          SameContext (handle processor gate vector errorCode machine)
            (follow processor inside (isrStubTable.getD vector.toNat []) entered) := by
        intro codes
        rw [handle, table_entry]
        have noticed := @follow_alike processor inside codes _ _ _ (stub_passes []) _ _
          (alike_self (List.replicate 4 .whole ++ []) entered)
        rw [List.length_append, List.length_replicate, List.length_nil, stub_pushes] at noticed
        exact (noticed (by omega)).context
      constructor
      · rintro ⟨insideGives, same, restGives⟩
        have codes := insideBack.mp insideGives
        refine ⟨?_, codes, restBack.mp restGives⟩
        by_contra none
        have shifted := handled_pointer processor gate vector errorCode machine
        rw [if_neg none, ← (alone codes).esp] at shifted
        have balanced := same.esp.symm.trans shifted
        have impossible : (4 : UInt32) = 0 := by
          grind
        exact absurd impossible (by decide)
      · rintro ⟨hasErrorCode, codes, restCodes⟩
        refine ⟨insideBack.mpr codes, ?_, restBack.mpr restCodes⟩
        exact context_trans (handled_context processor gate errorCode machine hasErrorCode)
          (alone codes)

theorem course_gives_back_faults :
    GivesBack zeroExtending faultsInside isrCommonStub interruptedTask ↔ faultsInside.ErrorCodes :=
  course_gives_back_iff zeroExtending faultsInside (by decide) isrCommonStub interruptedTask

end Courses

end FractionsOS.Isr
