import FractionsOS.Storage.AtaTaskFile

/-!
# Devices that answer

A device answers each command after a finite time, with data or with an error, and shows
its answer until something else is asked of it. The wait for DRQ looks at no other bit, so
an error ends a call only if `ata_identify` sees it in the error register first.
-/

namespace FractionsOS.Ata

open Library.PortPrograms Library.BlockHandshake

set_option autoImplicit false

/-- What a status without BSY stands for; an error comes with the error register. -/
inductive Answer where
  | none
  | data
  | error (register : UInt8)

def IsDataCommand (command : UInt8) : Prop :=
  command = ataCmdIdentify ∨ command = ataCmdRead ∨ command = ataCmdWrite

/-- The ports of a device, how often a state still shows BSY and what it shows then. -/
structure AnsweringDevice (State : Type) where
  ports : PortDevice State
  busyPolls : State → Nat
  answer : State → Answer
  busy : ∀ state, 0 < busyPolls state → (ports.inb state ataStatus).1 &&& ataStatusBsy ≠ 0
  free : ∀ state, busyPolls state = 0 → (ports.inb state ataStatus).1 &&& ataStatusBsy = 0
  data : ∀ state, busyPolls state = 0 → answer state = .data →
    (ports.inb state ataStatus).1 &&& ataStatusDrq ≠ 0
  error : ∀ state register, busyPolls state = 0 → answer state = .error register →
    (ports.inb state ataStatus).1 &&& ataStatusDrq = 0 ∧
      (ports.inb state ataStatus).1 &&& ataStatusErr ≠ 0 ∧
      (ports.inb state ataError).1 = register
  polled : ∀ state, busyPolls (ports.inb state ataStatus).2 = busyPolls state - 1 ∧
    answer (ports.inb state ataStatus).2 = answer state
  errorRead : ∀ state, busyPolls (ports.inb state ataError).2 = busyPolls state ∧
    answer (ports.inb state ataError).2 = answer state
  registers : ∀ state port value, busyPolls state = 0 → port ≠ ataStatus →
    busyPolls (ports.outb state port value) = 0
  commands : ∀ state command, busyPolls state = 0 → IsDataCommand command →
    answer (ports.outb state ataStatus command) ≠ .none

def AtaCall.registers : AtaCall → List (UInt16 × UInt8)
  | .identify drive =>
      [(ataDrive, (0xA0 : UInt8) ||| (drive <<< 4)), (ataSectorCnt, 0), (ataLbaLow, 0),
        (ataLbaMid, 0), (ataLbaHigh, 0)]
  | .read drive lba count => sectorRegisters drive lba count
  | .write drive lba count _ => sectorRegisters drive lba count

def AtaCall.command : AtaCall → UInt8
  | .identify _ => ataCmdIdentify
  | .read _ _ _ => ataCmdRead
  | .write _ _ _ _ => ataCmdWrite

theorem data_command (call : AtaCall) : IsDataCommand call.command := by
  cases call with
  | identify drive => exact Or.inl rfl
  | read drive lba count => exact Or.inr (Or.inl rfl)
  | write drive lba count buffer => exact Or.inr (Or.inr rfl)

theorem register_ports (call : AtaCall) :
    call.registers.map Prod.fst = [ataDrive, ataSectorCnt, ataLbaLow, ataLbaMid, ataLbaHigh] := by
  cases call with
  | identify drive => rfl
  | read drive lba count => rfl
  | write drive lba count buffer => rfl

namespace AnsweringDevice

variable {State : Type} (device : AnsweringDevice State)

def poll (state : State) : State := (device.ports.inb state ataStatus).2

def waited (state : State) : State := device.poll^[device.busyPolls state + 1] state

def written (writes : List (UInt16 × UInt8)) (state : State) : State :=
  writes.foldl (fun state written => device.ports.outb state written.1 written.2) state

def commanded (call : AtaCall) (state : State) : State :=
  device.ports.outb (device.written call.registers (device.waited state)) ataStatus call.command

def answerTo (call : AtaCall) (state : State) : Answer := device.answer (device.commanded call state)

def Reports (call : AtaCall) (state : State) (result : Bool × List UInt16) : Prop :=
  ∀ drive register, call = .identify drive → device.answerTo call state = .error register →
    result.1 = false

theorem polled_many (count : Nat) (state : State) :
    device.busyPolls (device.poll^[count] state) = device.busyPolls state - count ∧
      device.answer (device.poll^[count] state) = device.answer state := by
  induction count generalizing state with
  | zero => exact ⟨rfl, rfl⟩
  | succ count induction =>
      obtain ⟨polls, answer⟩ := induction (device.poll state)
      obtain ⟨once, same⟩ := device.polled state
      rw [Function.iterate_succ_apply]
      constructor
      · rw [polls, poll, once, Nat.sub_sub, Nat.add_comm]
      · rw [answer, poll, same]

@[simp] theorem waited_busy (state : State) : device.busyPolls (device.waited state) = 0 := by
  rw [waited, (device.polled_many _ state).1]
  omega

@[simp] theorem waited_answer (state : State) :
    device.answer (device.waited state) = device.answer state :=
  (device.polled_many _ state).2

theorem wait_bsy_ends (state : State) :
    ∃ trace, Returns device.ports ataWaitBsy state ⟨(), device.waited state, trace⟩ := by
  generalize polls : device.busyPolls state = busy
  induction busy generalizing state with
  | zero =>
      have stop : decide ((device.ports.inb state ataStatus).1 &&& ataStatusBsy ≠ 0) = false := by
        simpa using device.free state polls
      have after : device.waited state = device.poll state := by
        rw [waited, polls]
        rfl
      rw [after]
      exact ⟨_, returns_spin_stop stop⟩
  | succ busy induction =>
      have repeated : decide ((device.ports.inb state ataStatus).1 &&& ataStatusBsy ≠ 0) = true := by
        simpa using device.busy state (by omega)
      have fewer : device.busyPolls (device.poll state) = busy := by
        rw [poll, (device.polled state).1, polls, Nat.add_sub_cancel]
      obtain ⟨trace, rest⟩ := induction (device.poll state) fewer
      have after : device.waited state = device.waited (device.poll state) := by
        rw [waited, waited, polls, fewer, Function.iterate_succ_apply]
      rw [after]
      exact ⟨_, returns_spin_again repeated rest⟩

theorem wait_drq_ends {state : State} (idle : device.busyPolls state = 0)
    (answered : device.answer state = .data) :
    ∃ trace, Returns device.ports ataWaitDrq state ⟨(), device.poll state, trace⟩ := by
  have stop : decide (¬((device.ports.inb state ataStatus).1 &&& ataStatusDrq ≠ 0)) = false := by
    simpa using device.data state idle answered
  exact ⟨_, returns_spin_stop stop⟩

/-- An error keeps the wait for DRQ polling. -/
theorem wait_drq_endless {state : State} (idle : device.busyPolls state = 0) {register : UInt8}
    (answered : device.answer state = .error register) (outcome : Outcome Unit State) :
    ¬Returns device.ports ataWaitDrq state outcome := by
  apply @spin_endless _ device.ports _ _
    (fun state => device.busyPolls state = 0 ∧ device.answer state = .error register)
  · rintro state ⟨idle, answered⟩
    obtain ⟨polls, answer⟩ := device.polled state
    refine ⟨?_, by rw [polls, idle], by rw [answer, answered]⟩
    simpa using (device.error state register idle answered).1
  · exact ⟨idle, answered⟩

theorem status_shown {state : State} (answered : device.answer state ≠ .none) :
    (device.ports.inb state ataStatus).1 ≠ 0 := by
  intro zero
  rcases Nat.eq_zero_or_pos (device.busyPolls state) with idle | busy
  · cases answer : device.answer state with
    | none => exact answered answer
    | data => exact device.data state idle answer (by simp [zero])
    | error register => exact (device.error state register idle answer).2.1 (by simp [zero])
  · exact device.busy state busy (by simp [zero])

theorem written_idle {writes : List (UInt16 × UInt8)}
    (registers : ataStatus ∉ writes.map Prod.fst) {state : State}
    (idle : device.busyPolls state = 0) : device.busyPolls (device.written writes state) = 0 := by
  induction writes generalizing state with
  | nil => exact idle
  | cons first writes induction =>
      rw [List.map_cons, List.mem_cons, not_or] at registers
      apply induction registers.2
      exact device.registers state _ _ idle (Ne.symm registers.1)

theorem answered (call : AtaCall) (state : State) : device.answerTo call state ≠ .none := by
  apply device.commands _ _ _ (data_command call)
  apply device.written_idle _ (device.waited_busy state)
  rw [register_ports]
  decide

section Sector

variable {device} {Result : Type} {drive : UInt8} {lba : UInt32} {count command : UInt8}
  {onward : PortProgram Result} {state : State} {allowed : Result → Prop}

theorem sector_command_ends_iff {reached : State}
    (reaches : device.ports.outb
      (device.written (sectorRegisters drive lba count) (device.waited state)) ataStatus command =
        reached)
    (answered : device.answer reached ≠ .none)
    (always : ∀ state, EndsIn device.ports onward state allowed) :
    EndsIn device.ports (sectorCommand drive lba count command onward) state allowed ↔
      device.answer reached = .data := by
  obtain ⟨trace, waits⟩ := device.wait_bsy_ends state
  rw [sectorCommand, ends_bind waits, ends_bind (returns_outb _ _ _), ends_bind (returns_outb _ _ _),
    ends_bind (returns_outb _ _ _), ends_bind (returns_outb _ _ _),
    ends_bind (returns_outb _ _ _), ends_bind (returns_outb _ _ _)]
  change EndsIn _ _ (device.ports.outb
    (device.written (sectorRegisters drive lba count) (device.waited state)) ataStatus command) _ ↔ _
  rw [reaches]
  obtain ⟨again, waitsAgain⟩ := device.wait_bsy_ends reached
  rw [ends_bind waitsAgain]
  cases shown : device.answer reached with
  | none => exact absurd shown answered
  | data =>
      obtain ⟨polls, ready⟩ := device.wait_drq_ends (device.waited_busy reached)
        ((device.waited_answer reached).trans shown)
      rw [ends_bind ready]
      exact iff_of_true (always _) rfl
  | error register =>
      apply iff_of_false
      · exact not_ends_bind (device.wait_drq_endless (device.waited_busy reached)
          ((device.waited_answer reached).trans shown))
      · exact Answer.noConfusion

end Sector

theorem read_ends_iff (drive : UInt8) (lba : UInt32) (count : UInt8) (state : State)
    {allowed : Bool × List UInt16 → Prop} (all : ∀ result, allowed result) :
    EndsIn device.ports (AtaCall.read drive lba count).program state allowed ↔
      device.answerTo (.read drive lba count) state = .data := by
  refine (ends_return fun words => (true, words)).trans ?_
  apply sector_command_ends_iff rfl (device.answered (.read drive lba count) state)
  intro state
  exact ⟨_, returns_insw _ _ state, all _⟩

theorem write_ends_iff (drive : UInt8) (lba : UInt32) (count : UInt8) (buffer : Nat → UInt16)
    (state : State) {allowed : Bool × List UInt16 → Prop} (all : ∀ result, allowed result) :
    EndsIn device.ports (AtaCall.write drive lba count buffer).program state allowed ↔
      device.answerTo (.write drive lba count buffer) state = .data := by
  refine (ends_return fun _ => (true, [])).trans ?_
  apply sector_command_ends_iff rfl (device.answered (.write drive lba count buffer) state)
  intro state
  rw [ends_bind (returns_outsw _ _ _), ends_bind (returns_outb _ _ _)]
  obtain ⟨trace, waits⟩ := device.wait_bsy_ends _
  exact ⟨_, waits, all _⟩

theorem identify_ends_iff (drive : UInt8) (state : State) :
    EndsIn device.ports (AtaCall.identify drive).program state
        (device.Reports (.identify drive) state) ↔
      device.answerTo (.identify drive) state = .data ∨
        ∃ register, device.answerTo (.identify drive) state = .error register ∧
          register &&& 0x01 ≠ 0 := by
  let reached := device.commanded (.identify drive) state
  have answered := device.answered (.identify drive) state
  obtain ⟨trace, waits⟩ := device.wait_bsy_ends state
  rw [AtaCall.program, ataIdentify, ends_bind waits, ends_bind (returns_outb _ _ _),
    ends_bind (returns_outb _ _ _), ends_bind (returns_outb _ _ _),
    ends_bind (returns_outb _ _ _), ends_bind (returns_outb _ _ _),
    ends_bind (returns_outb _ _ _)]
  change EndsIn _ _ reached _ ↔ _
  rw [ends_bind (returns_inb ataStatus reached)]
  dsimp only
  rw [if_neg (device.status_shown answered)]
  obtain ⟨again, waitsAgain⟩ := device.wait_bsy_ends (device.poll reached)
  -- the error register is read from here
  let settled := device.waited (device.poll reached)
  have idle : device.busyPolls settled = 0 := device.waited_busy _
  have shown : device.answer settled = device.answerTo (.identify drive) state :=
    (device.waited_answer _).trans (device.polled reached).2
  obtain ⟨idleAfter, shownAfter⟩ := device.errorRead settled
  change EndsIn _ _ (device.poll reached) _ ↔ _
  rw [ends_bind waitsAgain, ends_bind (returns_inb ataError settled)]
  dsimp only
  rw [idle] at idleAfter
  rw [shown] at shownAfter
  cases answer : device.answerTo (.identify drive) state with
  | none => exact absurd answer answered
  | data =>
      rw [answer] at shownAfter
      refine iff_of_true ?_ (Or.inl rfl)
      have noError : ∀ result, device.Reports (.identify drive) state result := by
        intro result other register _ failed
        rw [answer] at failed
        cases failed
      split_ifs
      · exact ⟨_, returns_pure _ _, noError _⟩
      · obtain ⟨polls, ready⟩ := device.wait_drq_ends idleAfter shownAfter
        rw [ends_bind ready, ends_bind (returns_insw _ _ _)]
        exact ⟨_, returns_pure _ _, noError _⟩
  | error register =>
      rw [answer] at shownAfter
      have read : (device.ports.inb settled ataError).1 = register :=
        (device.error settled register idle (shown.trans answer)).2.2
      rw [read]
      by_cases seen : register &&& 0x01 ≠ 0
      · rw [if_pos seen]
        apply iff_of_true
        · exact ⟨_, returns_pure _ _, fun _ _ _ _ => rfl⟩
        · exact Or.inr ⟨register, rfl, seen⟩
      · rw [if_neg seen]
        apply iff_of_false
        · exact not_ends_bind (device.wait_drq_endless idleAfter shownAfter)
        · rintro (impossible | ⟨other, same, bit⟩)
          · cases impossible
          · cases same
            exact seen bit

/-- A call ends, and reports an error of `ata_identify`, exactly when it is answered with
data, or it is `ata_identify` and the error shows in bit 0 of the error register. -/
theorem call_ends_iff (call : AtaCall) (state : State) :
    EndsIn device.ports call.program state (device.Reports call state) ↔
      device.answerTo call state = .data ∨
        ∃ drive register, call = .identify drive ∧
          device.answerTo call state = .error register ∧ register &&& 0x01 ≠ 0 := by
  cases call with
  | identify drive =>
      rw [identify_ends_iff]
      constructor
      · rintro (data | ⟨register, failed, bit⟩)
        · exact Or.inl data
        · exact Or.inr ⟨drive, register, rfl, failed, bit⟩
      · rintro (data | ⟨_, register, -, failed, bit⟩)
        · exact Or.inl data
        · exact Or.inr ⟨register, failed, bit⟩
  | read drive lba count =>
      have notIdentify : ∀ result, device.Reports (.read drive lba count) state result := by
        intro result other register impossible
        cases impossible
      rw [device.read_ends_iff drive lba count state notIdentify]
      simp
  | write drive lba count buffer =>
      have notIdentify : ∀ result, device.Reports (.write drive lba count buffer) state result := by
        intro result other register impossible
        cases impossible
      rw [device.write_ends_iff drive lba count buffer state notIdentify]
      simp

end AnsweringDevice

namespace AtaDevice

def answer (device : AtaDevice) : Answer :=
  if 0 < device.line.left then .data
  else if device.failed then .error device.error
  else .none

theorem words_of_data {device : AtaDevice} (shown : device.answer = .data) :
    0 < device.line.left := by
  unfold answer at shown
  split_ifs at shown with words failed
  exact words

theorem answer_of_error {device : AtaDevice} {register : UInt8}
    (shown : device.answer = .error register) :
    device.line.left = 0 ∧ device.failed = true ∧ device.error = register := by
  unfold answer at shown
  split_ifs at shown with words failed
  cases shown
  exact ⟨Nat.eq_zero_of_not_pos words, failed, rfl⟩

theorem status_of_error {device : AtaDevice} (idle : device.line.busy = 0)
    (settled : device.line.settling = 0) {register : UInt8}
    (shown : device.answer = .error register) : device.status = ataStatusDrdy ||| ataStatusErr := by
  obtain ⟨left, failed, -⟩ := answer_of_error shown
  simp [status, idle, settled, left, failed]

variable {behaviour : Behaviour}

theorem read_register_settled (device : AtaDevice) (settled : device.line.settling = 0)
    (port : UInt16) : (device.readRegister port).2.line.settling = 0 := by
  unfold readRegister Line.poll
  split_ifs
  · exact settled
  · simp [settled]
  · exact settled
  · exact settled

section Unsettled

variable (unsettled : ∀ number, (behaviour.pause number).settling = 0)

include unsettled

theorem begin_transfer_settled (device : AtaDevice) (words : Nat) (transfer : Transfer) :
    (device.beginTransfer behaviour words transfer).line.settling = 0 := by
  unfold beginTransfer
  cases behaviour.fails device.commands with
  | none => exact unsettled _
  | some error => exact unsettled _

theorem write_register_settled (device : AtaDevice) (settled : device.line.settling = 0)
    (port : UInt16) (value : UInt8) :
    (device.writeRegister behaviour port value).line.settling = 0 := by
  have taken : (device.takeCommand behaviour value).line.settling = 0 := by
    unfold takeCommand
    split_ifs <;> exact begin_transfer_settled unsettled _ _ _
  unfold writeRegister
  split_ifs <;> first | exact settled | exact taken

theorem moved_settled {line : Line} (settled : line.settling = 0) :
    (line.moved sectorWords behaviour.pause).settling = 0 := by
  unfold Line.moved
  dsimp only
  split_ifs
  · exact unsettled _
  · exact settled

theorem read_data_settled (device : AtaDevice) (settled : device.line.settling = 0)
    (port : UInt16) : (device.readData behaviour port).2.line.settling = 0 := by
  have moved := moved_settled unsettled settled
  unfold readData
  split_ifs
  · cases device.transfer <;> first | exact moved | exact settled
  · exact settled

theorem write_data_settled (device : AtaDevice) (settled : device.line.settling = 0)
    (port word : UInt16) : (device.writeData behaviour port word).line.settling = 0 := by
  have moved := moved_settled unsettled settled
  unfold writeData
  split_ifs
  · cases device.transfer <;> first | exact moved | exact settled
  · exact settled

end Unsettled

theorem begin_transfer_answer (device : AtaDevice) {words : Nat} (some : 0 < words)
    (transfer : Transfer) : (device.beginTransfer behaviour words transfer).answer ≠ .none := by
  unfold beginTransfer
  cases behaviour.fails device.commands with
  | none => simp [answer, Line.beginPause, some]
  | some error => simp [answer, Line.beginPause]

theorem command_answered (device : AtaDevice) (notBusy : device.line.busy = 0) {command : UInt8}
    (known : IsDataCommand command) :
    (device.writeRegister behaviour ataStatus command).answer ≠ .none := by
  have sectors : 0 < sectorWords * device.selectedSectors :=
    Nat.mul_pos (by decide) (sectors_positive device.sectorCnt)
  rw [write_command behaviour device command notBusy]
  split_ifs with idle
  · rcases known with rfl | rfl | rfl
    · exact begin_transfer_answer device (by decide) _
    · exact begin_transfer_answer device sectors _
    · exact begin_transfer_answer device sectors _
  · simp [answer, Nat.pos_of_ne_zero idle]

theorem register_keeps_line (device : AtaDevice) {port : UInt16} (register : port ≠ ataStatus)
    (value : UInt8) : (device.writeRegister behaviour port value).line = device.line := by
  unfold writeRegister
  split_ifs with _ _ _ _ _ _ command
  all_goals first | rfl | exact absurd command.1 register

end AtaDevice

def answering (behaviour : Behaviour) (unsettled : ∀ number, (behaviour.pause number).settling = 0) :
    AnsweringDevice { device : AtaDevice // device.line.settling = 0 } where
  ports :=
    { inb := fun state port =>
        ((state.1.readRegister port).1, ⟨_, state.1.read_register_settled state.2 port⟩)
      outb := fun state port value =>
        ⟨_, AtaDevice.write_register_settled unsettled state.1 state.2 port value⟩
      inw := fun state port =>
        ((state.1.readData behaviour port).1,
          ⟨_, AtaDevice.read_data_settled unsettled state.1 state.2 port⟩)
      outw := fun state port word =>
        ⟨_, AtaDevice.write_data_settled unsettled state.1 state.2 port word⟩ }
  busyPolls state := state.1.line.busy
  answer state := state.1.answer
  busy state waiting := (bsy_shown_iff state.1).mpr waiting
  free state idle := by
    by_contra shown
    exact Nat.ne_of_gt ((bsy_shown_iff state.1).mp shown) idle
  data state idle shown := by
    exact (drq_shown_iff state.1).mpr ⟨idle, state.2, AtaDevice.words_of_data shown⟩
  error state register idle shown := by
    have status := AtaDevice.status_of_error idle state.2 shown
    refine ⟨?_, ?_, (AtaDevice.answer_of_error shown).2.2⟩
    · change state.1.status &&& _ = 0
      rw [status]
      decide
    · change state.1.status &&& _ ≠ 0
      rw [status]
      decide
  polled state := by
    refine ⟨state.1.line.poll_busy, ?_⟩
    change AtaDevice.answer { state.1 with line := state.1.line.poll } = _
    simp [AtaDevice.answer]
  errorRead state := ⟨rfl, rfl⟩
  registers state port value idle register := by
    change (state.1.writeRegister behaviour port value).line.busy = 0
    rw [AtaDevice.register_keeps_line state.1 register, idle]
  commands state command idle known := AtaDevice.command_answered state.1 idle known

/-- An aborted command leaves bit 2 in the error register, and a read polls for ever. -/
theorem aborted_read_endless :
    ¬∀ (State : Type) (device : AnsweringDevice State) (call : AtaCall) (state : State),
      EndsIn device.ports call.program state (device.Reports call state) := by
  intro ends
  let aborting := answering ⟨fun _ => Pause.none, fun _ => some 0x04⟩ fun _ => rfl
  have ended := ends _ aborting (.read 0 0 1) ⟨blankDevice, rfl⟩
  rw [aborting.read_ends_iff 0 0 1 ⟨blankDevice, rfl⟩ (by intro _ _ _ impossible; cases impossible)]
    at ended
  have failed : aborting.answerTo (.read 0 0 1) ⟨blankDevice, rfl⟩ = .error 0x04 := rfl
  rw [failed] at ended
  cases ended

end FractionsOS.Ata
