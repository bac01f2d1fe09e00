import FractionsOS.Interrupt.IsrStub

/-!
# What the stub gives back

The stub restores all it pushed and then drops one word before `iret`. That word
is the error code when there is one, and the return address otherwise.
-/

namespace FractionsOS.Isr

open Library.StackMemory Library.StackMemory.WordStack

set_option autoImplicit false

structure SameContext (before after : Machine) : Prop where
  eax : after.eax = before.eax
  ecx : after.ecx = before.ecx
  edx : after.edx = before.edx
  ebx : after.ebx = before.ebx
  ebp : after.ebp = before.ebp
  esi : after.esi = before.esi
  edi : after.edi = before.edi
  esp : after.stack.pointer = before.stack.pointer
  ds : after.ds = before.ds
  es : after.es = before.es
  cs : after.cs = before.cs
  eip : after.eip = before.eip
  eflags : after.eflags = before.eflags

theorem table_entry (vector : UInt8) : isrStubTable.getD vector.toNat [] = isrCommonStub := by
  rw [isrStubTable, List.getD_eq_getElem?_getD, List.getElem?_replicate, if_pos vector.toNat_lt]
  rfl

section Stub

variable (processor : Processor) (entered : Machine)

def dsWord : UInt32 :=
  processor.selectorWord (step processor entered .pusha).stack.below entered.ds

def esWord : UInt32 :=
  let pushed := (step processor entered .pusha).stack.push (dsWord processor entered)
  processor.selectorWord pushed.below entered.es

def savedWords : List UInt32 :=
  [entered.eax, entered.ecx, entered.edx, entered.ebx, entered.stack.pointer, entered.ebp,
    entered.esi, entered.edi, dsWord processor entered, esWord processor entered]

def savedStack : WordStack := entered.stack.pushAll (savedWords processor entered)

theorem saved_stack_holds {words : List UInt32} (holds : entered.stack.Holds words)
    (few : words.length ≤ 4) :
    (savedStack processor entered).Holds ((savedWords processor entered).reverse ++ words) := by
  apply push_all_holds _ holds
  change 10 + words.length < 2 ^ 30
  omega

/-- The stub takes 14 words from the stack that its pushes leave, the last three
of them by `iret`. -/
theorem stub_stack :
    (run processor entered isrCommonStub).stack = ((savedStack processor entered).popWords 14).2 := by
  simp only [run, isrCommonStub, List.foldl_cons, List.foldl_nil, step, Machine.setSegment]
  rfl

theorem stub_pointer :
    (run processor entered isrCommonStub).stack.pointer = entered.stack.pointer + 16 := by
  have pops : wordOffset 14 = wordOffset 10 + 16 := by decide
  rw [stub_stack, pop_words_below, savedStack, push_all_pointer, pops]
  change entered.stack.pointer - wordOffset 10 + (wordOffset 10 + 16) = _
  grind

/-- Under the saved words the stub drops one word and pops the next three into
EIP, CS and EFLAGS. -/
theorem stub_restores {dropped eip csWord eflags : UInt32}
    (holds : entered.stack.Holds [dropped, eip, csWord, eflags]) :
    SameContext
      { entered with
        stack := { entered.stack with pointer := entered.stack.pointer + 16 }
        eip
        cs := csWord.toUInt16
        eflags }
      (run processor entered isrCommonStub) := by
  rcases saved_stack_holds processor entered holds (Nat.le_refl 4) with
    ⟨es, ds, edi, esi, ebp, -, ebx, edx, ecx, eax, -, returnAddress, cs, flags, -⟩
  have esp := stub_pointer processor entered
  revert esp
  simp only [run, isrCommonStub, List.foldl_cons, List.foldl_nil, step, Machine.setSegment]
  intro esp
  exact {
    eax, ecx, edx, ebx, ebp, esi, edi, esp
    ds := (congrArg UInt32.toUInt16 ds).trans (processor.selector_low _ _)
    es := (congrArg UInt32.toUInt16 es).trans (processor.selector_low _ _)
    cs := congrArg UInt32.toUInt16 cs
    eip := returnAddress
    eflags := flags }

end Stub

section Delivery

variable (processor : Processor) (gate : Gate) (vector : UInt8) (errorCode : UInt32)
  (machine : Machine)

def csWord : UInt32 :=
  processor.selectorWord (machine.stack.push machine.eflags).below machine.cs

def deliveredWords : List UInt32 :=
  let returnAddress := [machine.eflags, csWord processor machine, machine.eip]
  if HasErrorCode vector then returnAddress ++ [errorCode] else returnAddress

theorem delivered_stack :
    (deliver processor gate vector errorCode machine).stack =
      machine.stack.pushAll (deliveredWords processor vector errorCode machine) := by
  unfold deliver deliveredWords
  dsimp only
  split_ifs <;> rfl

theorem delivered_pointer :
    (deliver processor gate vector errorCode machine).stack.pointer =
      machine.stack.pointer - if HasErrorCode vector then 16 else 12 := by
  rw [delivered_stack, push_all_pointer, deliveredWords]
  split_ifs <;> rfl

theorem delivered_holds (hasErrorCode : HasErrorCode vector) :
    (deliver processor gate vector errorCode machine).stack.Holds
      [errorCode, machine.eip, csWord processor machine, machine.eflags] := by
  rw [delivered_stack, deliveredWords, if_pos hasErrorCode]
  exact push_all_holds _ trivial (show 4 + 0 < 2 ^ 30 by decide)

/-- The interrupted context comes back exactly after the exceptions that have an
error code. Without one ESP ends four bytes too high, and EIP is popped from
where CS was pushed. -/
theorem stub_transparent_iff :
    SameContext machine (handle processor gate vector errorCode machine) ↔ HasErrorCode vector := by
  have pointer := stub_pointer processor (deliver processor gate vector errorCode machine)
  rw [delivered_pointer] at pointer
  rw [handle, table_entry]
  constructor
  · intro same
    by_contra none
    rw [if_neg none, same.esp] at pointer
    have shifted : (4 : UInt32) = 0 := by
      grind
    exact absurd shifted (by decide)
  · intro hasErrorCode
    have restored := stub_restores processor _
      (delivered_holds processor gate vector errorCode machine hasErrorCode)
    rw [if_pos hasErrorCode] at pointer
    have balanced : machine.stack.pointer - 16 + 16 = machine.stack.pointer := by
      grind
    exact {
      eax := restored.eax
      ecx := restored.ecx
      edx := restored.edx
      ebx := restored.ebx
      ebp := restored.ebp
      esi := restored.esi
      edi := restored.edi
      esp := pointer.trans balanced
      ds := restored.ds
      es := restored.es
      cs := restored.cs.trans (processor.selector_low _ _)
      eip := restored.eip
      eflags := restored.eflags }

end Delivery

def zeroExtending : Processor where
  selectorWord := fun _ selector => selector.toUInt32
  selector_low := fun _ selector => UInt16.toUInt16_toUInt32 selector
  gateFlags := fun eflags => eflags &&& 0xFFFFFCFF
  addFlags := fun eflags _ _ => eflags

def interruptedTask : Machine where
  eax := 0
  ecx := 0
  edx := 0
  ebx := 0
  ebp := 0x00200400
  esi := 0
  edi := 0
  stack := ⟨fun _ => 0, 0x00200400⟩
  ds := 0x10
  es := 0x10
  cs := 0x08
  eip := 0x00101000
  eflags := 0x202
  ports := []

/-- A timer interrupt returns to the selector of CS. -/
theorem timer_interrupt_not_transparent :
    let after := handle zeroExtending ⟨0x08, 0x00100000⟩ 32 0 interruptedTask
    after.eip = 0x08 ∧ after.stack.pointer = 0x00200404 ∧ ¬SameContext interruptedTask after := by
  intro after
  have eip : after.eip = 0x08 := by decide +kernel
  have esp : after.stack.pointer = 0x00200404 := by decide +kernel
  refine ⟨eip, esp, ?_⟩
  intro same
  rw [same.esp] at esp
  exact absurd esp (by decide)

end FractionsOS.Isr
