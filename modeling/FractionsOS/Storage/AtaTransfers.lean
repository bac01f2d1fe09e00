import FractionsOS.Storage.AtaDevice

/-!
# One call of the driver against the device

Every call first waits out the pause it finds, programs the task file and gives
its command, then waits for data and moves its words. The lemmas below say in
which state the device is when the first word is moved.
-/

namespace FractionsOS.Ata

open Library.PortPrograms Library.BlockHandshake

set_option autoImplicit false

variable {behaviour : Behaviour}

theorem bsy_shown_iff (device : AtaDevice) :
    device.status &&& ataStatusBsy ≠ 0 ↔ 0 < device.line.busy := by
  unfold AtaDevice.status
  split_ifs with busy settling words failed
  all_goals simp only [busy, iff_true, iff_false]
  all_goals decide

theorem drq_shown_iff (device : AtaDevice) :
    device.status &&& ataStatusDrq ≠ 0 ↔ device.line.Ready := by
  constructor
  · intro shown
    apply (shows_data_iff_ready device).mp
    refine ⟨?_, shown⟩
    revert shown
    unfold AtaDevice.status
    split_ifs <;> decide
  · intro ready
    exact ((shows_data_iff_ready device).mpr ready).2

/-- The state the first wait leaves: the busy part of the pause is over, and one
poll of what follows it was made. -/
def unbusied (device : AtaDevice) : AtaDevice :=
  { device with
    line := { device.line with busy := 0, settling := device.line.settling - 1 } }

def settled (device : AtaDevice) : AtaDevice :=
  { device with line := { device.line with busy := 0, settling := 0 } }

@[simp] theorem unbusied_left (device : AtaDevice) :
    (unbusied device).line.left = device.line.left := rfl

@[simp] theorem unbusied_transfer (device : AtaDevice) :
    (unbusied device).transfer = device.transfer := rfl

@[simp] theorem settled_left (device : AtaDevice) :
    (settled device).line.left = device.line.left := rfl

@[simp] theorem settled_transfer (device : AtaDevice) :
    (settled device).transfer = device.transfer := rfl

theorem wait_bsy_returns (device : AtaDevice) :
    ReturnsMoving (ataPorts behaviour) ataWaitBsy device () (unbusied device) [] := by
  generalize polls : device.line.busy = busy
  induction busy generalizing device with
  | zero =>
      have shown : decide (device.status &&& ataStatusBsy ≠ 0) = false := by
        rw [decide_eq_false_iff_not, bsy_shown_iff, polls]
        exact Nat.lt_irrefl 0
      have after : ({ device with line := device.line.poll } : AtaDevice) = unbusied device := by
        simp [unbusied, Line.poll, polls]
      rw [← after]
      exact moving_spin_stop shown
  | succ busy induction =>
      have shown : decide (device.status &&& ataStatusBsy ≠ 0) = true := by
        rw [decide_eq_true_iff, bsy_shown_iff, polls]
        exact Nat.succ_pos busy
      have next := induction { device with line := device.line.poll } (by
        simp [Line.poll, polls])
      have after : unbusied { device with line := device.line.poll } = unbusied device := by
        simp [unbusied, Line.poll, polls]
      rw [after] at next
      exact moving_spin_again shown next

theorem wait_drq_returns (device : AtaDevice) (words : 0 < device.line.left) :
    ReturnsMoving (ataPorts behaviour) ataWaitDrq device () (settled device) [] := by
  generalize polls : device.line.busy + device.line.settling = remaining
  induction remaining generalizing device with
  | zero =>
      have ready : device.line.Ready := ⟨by omega, by omega, words⟩
      have shown : decide (¬(device.status &&& ataStatusDrq ≠ 0)) = false := by
        rw [decide_eq_false_iff_not, drq_shown_iff, not_not]
        exact ready
      have after : ({ device with line := device.line.poll } : AtaDevice) = settled device := by
        simp [settled, Line.poll, ready.1, ready.2.1]
      rw [← after]
      exact moving_spin_stop shown
  | succ remaining induction =>
      have shown : decide (¬(device.status &&& ataStatusDrq ≠ 0)) = true := by
        rw [decide_eq_true_iff, drq_shown_iff]
        intro ready
        have busy := ready.1
        have settling := ready.2.1
        omega
      have left := device.line.poll_left
      have nearer : device.line.poll.busy + device.line.poll.settling = remaining := by
        unfold Line.poll
        split_ifs <;> dsimp only <;> omega
      have next := induction { device with line := device.line.poll } (left ▸ words) nearer
      have after : settled { device with line := device.line.poll } = settled device := by
        simp only [settled, Line.poll]
        split_ifs <;> rfl
      rw [after] at next
      exact moving_spin_again shown next

def programmed (device : AtaDevice) (drive : UInt8) (lba : UInt32) (count : UInt8) : AtaDevice :=
  { device with
    drive := driveSelect drive lba
    sectorCnt := count
    lbaLow := (lba &&& 0xFF).toUInt8
    lbaMid := ((lba >>> 8) &&& 0xFF).toUInt8
    lbaHigh := ((lba >>> 16) &&& 0xFF).toUInt8 }

def commanded (behaviour : Behaviour) (device : AtaDevice) (drive : UInt8) (lba : UInt32)
    (count command : UInt8) : AtaDevice :=
  (programmed (unbusied device) drive lba count).writeRegister behaviour ataStatus command

/-- The part `ata_read_sectors` and `ata_write_sectors` share, up to the first
word. -/
def sectorCommand {Result : Type} (drive : UInt8) (lba : UInt32) (count command : UInt8)
    (onward : PortProgram Result) : PortProgram Result := do
  ataWaitBsy
  outb ataDrive (driveSelect drive lba)
  outb ataSectorCnt count
  outb ataLbaLow (lba &&& 0xFF).toUInt8
  outb ataLbaMid ((lba >>> 8) &&& 0xFF).toUInt8
  outb ataLbaHigh ((lba >>> 16) &&& 0xFF).toUInt8
  outb ataStatus command
  ataWaitBsy
  ataWaitDrq
  onward

theorem sector_command_returns {Result : Type} (device : AtaDevice) (drive : UInt8) (lba : UInt32)
    (count command : UInt8) (words : 0 < (commanded behaviour device drive lba count command).line.left)
    (onward : PortProgram Result) (result : Result) (after : AtaDevice)
    (moves : List (PortEvent AtaDevice))
    (rest : ReturnsMoving (ataPorts behaviour) onward
      (settled (commanded behaviour device drive lba count command)) result after moves) :
    ReturnsMoving (ataPorts behaviour) (sectorCommand drive lba count command onward) device result
      after moves := by
  let taken := commanded behaviour device drive lba count command
  have second : ReturnsMoving (ataPorts behaviour) ataWaitBsy taken () (unbusied taken) [] :=
    wait_bsy_returns taken
  have third : ReturnsMoving (ataPorts behaviour) ataWaitDrq (unbusied taken) () (settled taken) [] :=
    wait_drq_returns (unbusied taken) words
  apply quiet_bind (wait_bsy_returns device)
  apply quiet_bind (moving_outb _ _ _)
  apply quiet_bind (moving_outb _ _ _)
  apply quiet_bind (moving_outb _ _ _)
  apply quiet_bind (moving_outb _ _ _)
  apply quiet_bind (moving_outb _ _ _)
  apply quiet_bind (moving_outb _ _ _)
  apply quiet_bind second
  apply quiet_bind third
  exact rest

def dataPhase (behaviour : Behaviour) (device : AtaDevice) (drive : UInt8) (lba : UInt32)
    (count command : UInt8) : AtaDevice :=
  settled (commanded behaviour device drive lba count command)

def sectorsOf (count : UInt8) : Nat := if count = 0 then 256 else count.toNat

theorem sectors_positive (count : UInt8) : 0 < sectorsOf count := by
  unfold sectorsOf
  split_ifs with zero
  · decide
  · exact Nat.pos_of_ne_zero fun value => zero (UInt8.toNat_inj.mp value)

theorem sectors_of_nonzero {count : UInt8} (positive : 0 < count.toNat) :
    sectorsOf count = count.toNat := by
  unfold sectorsOf
  rw [if_neg]
  rintro rfl
  cases positive

def IsSectorCommand (command : UInt8) : Prop := command = ataCmdRead ∨ command = ataCmdWrite

/-- Where the sectors of a command lie, decoded from what was programmed. -/
def sectorTransfer (command : UInt8) (device : AtaDevice) : Transfer :=
  if command = ataCmdRead then
    .fromMedium device.selectedDrive (sectorWords * device.selectedLba)
  else .toMedium device.selectedDrive (sectorWords * device.selectedLba)

section ErrorFree

variable {pause : Nat → Pause}

variable (pause) in
theorem data_phase_of_idle (device : AtaDevice) (idle : device.line.left = 0) (drive : UInt8)
    (lba : UInt32) (count command : UInt8) (sectors : IsSectorCommand command) :
    dataPhase (errorFree pause) device drive lba count command =
      { programmed device drive lba count with
        error := 0
        failed := false
        commands := device.commands + 1
        line := ⟨sectorWords * sectorsOf count, 0, 0, device.line.pauses + 1⟩
        transfer := sectorTransfer command (programmed device drive lba count) } := by
  have taken : commanded (errorFree pause) device drive lba count command =
      (programmed (unbusied device) drive lba count).takeCommand (errorFree pause) command :=
    AtaDevice.command_taken _ _ _ rfl idle
  rw [dataPhase, taken]
  rcases sectors with rfl | rfl <;> rfl

/-- A device with words of an earlier command left ignores the command. -/
theorem data_phase_of_words_left (device : AtaDevice) (words : 0 < device.line.left)
    (drive : UInt8) (lba : UInt32) (count command : UInt8) :
    dataPhase (errorFree pause) device drive lba count command =
      settled (programmed device drive lba count) := by
  have ignored : commanded (errorFree pause) device drive lba count command =
      programmed (unbusied device) drive lba count :=
    AtaDevice.command_ignored _ _ _ rfl words
  rw [dataPhase, ignored]
  rfl

theorem commanded_words_left (device : AtaDevice) (drive : UInt8) (lba : UInt32)
    (count command : UInt8) (sectors : IsSectorCommand command) :
    0 < (commanded (errorFree pause) device drive lba count command).line.left := by
  rcases Nat.eq_zero_or_pos device.line.left with idle | words
  · have left : (commanded (errorFree pause) device drive lba count command).line.left =
        sectorWords * sectorsOf count :=
      congrArg (fun state : AtaDevice => state.line.left)
        (data_phase_of_idle pause device idle drive lba count command sectors)
    rw [left]
    exact Nat.mul_pos (by decide) (sectors_positive count)
  · have same : commanded (errorFree pause) device drive lba count command =
        programmed (unbusied device) drive lba count :=
      AtaDevice.command_ignored _ _ _ rfl words
    rw [same]
    exact words

end ErrorFree

def Reading (device : AtaDevice) : Prop :=
  (∃ drive address, device.transfer = .fromMedium drive address) ∨
    ∃ drive offset, device.transfer = .fromIdentity drive offset

def Writing (device : AtaDevice) : Prop :=
  ∃ drive address, device.transfer = .toMedium drive address

theorem reading_of_transfer {device next : AtaDevice} (same : next.transfer = device.transfer)
    (reading : Reading device) : Reading next := by
  unfold Reading
  rw [same]
  exact reading

theorem read_data_line (device : AtaDevice) (reading : Reading device) :
    Reading ((ataPorts behaviour).inw device ataData).2 ∧
      ((ataPorts behaviour).inw device ataData).2.line =
        device.line.attempt sectorWords behaviour.pause := by
  change Reading (device.readData behaviour ataData).2 ∧
    (device.readData behaviour ataData).2.line = _
  unfold AtaDevice.readData Line.attempt
  by_cases ready : device.line.Ready
  · rw [if_pos ⟨rfl, ready⟩, if_pos ready]
    rcases reading with ⟨drive, address, transfer⟩ | ⟨drive, offset, transfer⟩
    · rw [transfer]
      exact ⟨Or.inl ⟨drive, address + 1, rfl⟩, rfl⟩
    · rw [transfer]
      exact ⟨Or.inr ⟨drive, offset + 1, rfl⟩, rfl⟩
  · rw [if_neg fun both => ready both.2, if_neg ready]
    exact ⟨reading, rfl⟩

theorem write_data_line (device : AtaDevice) (word : UInt16) (writing : Writing device) :
    Writing ((ataPorts behaviour).outw device ataData word) ∧
      ((ataPorts behaviour).outw device ataData word).line =
        device.line.attempt sectorWords behaviour.pause := by
  change Writing (device.writeData behaviour ataData word) ∧
    (device.writeData behaviour ataData word).line = _
  unfold AtaDevice.writeData Line.attempt
  by_cases ready : device.line.Ready
  · rw [if_pos ⟨rfl, ready⟩, if_pos ready]
    obtain ⟨drive, address, transfer⟩ := writing
    rw [transfer]
    exact ⟨⟨drive, address + 1, rfl⟩, rfl⟩
  · rw [if_neg fun both => ready both.2, if_neg ready]
    exact ⟨writing, rfl⟩

theorem read_data_refused (device : AtaDevice) (other : ¬Reading device) :
    ((ataPorts behaviour).inw device ataData).2 = device := by
  change (device.readData behaviour ataData).2 = device
  unfold AtaDevice.readData
  split_ifs
  · cases transfer : device.transfer with
    | idle => rfl
    | fromMedium drive address => exact absurd (Or.inl ⟨drive, address, transfer⟩) other
    | fromIdentity drive offset => exact absurd (Or.inr ⟨drive, offset, transfer⟩) other
    | toMedium drive address => rfl
  · rfl

theorem write_data_refused (device : AtaDevice) (word : UInt16) (other : ¬Writing device) :
    (ataPorts behaviour).outw device ataData word = device := by
  change device.writeData behaviour ataData word = device
  unfold AtaDevice.writeData
  split_ifs
  · cases transfer : device.transfer with
    | idle => rfl
    | fromMedium drive address => rfl
    | fromIdentity drive offset => rfl
    | toMedium drive address => exact absurd ⟨drive, address, transfer⟩ other
  · rfl

/-- The accesses of a data phase meet the line as it is attempted again and again. -/
def AttemptsFrom (behaviour : Behaviour) (line : Line) (count : Nat)
    (moves : List (PortEvent AtaDevice)) : Prop :=
  moves.map (fun event => event.before.line) =
    (List.range count).map fun index => line.attempts sectorWords behaviour.pause index

theorem moves_ready_iff {line : Line} {count : Nat} {moves : List (PortEvent AtaDevice)}
    (attempted : AttemptsFrom behaviour line count moves) :
    (∀ event ∈ moves, ShowsData event.before) ↔
      ∀ index, index < count → (line.attempts sectorWords behaviour.pause index).Ready := by
  have asLines : (∀ event ∈ moves, ShowsData event.before) ↔
      ∀ met ∈ moves.map (fun event => event.before.line), met.Ready := by
    simp only [shows_data_iff_ready, List.forall_mem_map]
  rw [asLines, attempted]
  simp only [List.forall_mem_map, List.mem_range]

variable (behaviour) in
theorem read_words_line (device : AtaDevice) (reading : Reading device) (count : Nat) :
    (readWords (ataPorts behaviour) ataData count device).state.line =
        device.line.attempts sectorWords behaviour.pause count ∧
      AttemptsFrom behaviour device.line count
        (readWords (ataPorts behaviour) ataData count device).trace :=
  (read_words_aspect AtaDevice.line _ Reading read_data_line count device reading).2

variable (behaviour) in
theorem write_words_line (device : AtaDevice) (writing : Writing device) (words : List UInt16) :
    (writeWords (ataPorts behaviour) ataData words device).state.line =
        device.line.attempts sectorWords behaviour.pause words.length ∧
      AttemptsFrom behaviour device.line words.length
        (writeWords (ataPorts behaviour) ataData words device).trace :=
  (write_words_aspect AtaDevice.line _ Writing write_data_line words device writing).2

def AllMeet (state : AtaDevice) (moves : List (PortEvent AtaDevice)) : Prop :=
  ∀ event ∈ moves, event.before = state

theorem all_meet_of_refused {state : AtaDevice} {moves : List (PortEvent AtaDevice)} {count : Nat}
    (met : moves.map (fun event => event.before) =
      (List.range count).map fun index => id^[index] state) : AllMeet state moves := by
  intro event member
  have before : event.before ∈ moves.map (fun event => event.before) :=
    List.mem_map_of_mem member
  rw [met, List.mem_map] at before
  obtain ⟨index, _, same⟩ := before
  rw [← same, Function.iterate_id]
  rfl

variable (behaviour) in
theorem read_words_refused (device : AtaDevice) (other : ¬Reading device) (count : Nat) :
    AllMeet device (readWords (ataPorts behaviour) ataData count device).trace := by
  apply @all_meet_of_refused _ _ count
  refine (read_words_aspect (fun state => state) id (fun state => ¬Reading state) ?_ count device
    other).2.2
  intro state stays
  rw [read_data_refused state stays]
  exact ⟨stays, rfl⟩

variable (behaviour) in
theorem write_words_refused (device : AtaDevice) (other : ¬Writing device) (words : List UInt16) :
    AllMeet device (writeWords (ataPorts behaviour) ataData words device).trace := by
  apply @all_meet_of_refused _ _ words.length
  refine (write_words_aspect (fun state => state) id (fun state => ¬Writing state) ?_ words device
    other).2.2
  intro state word stays
  rw [write_data_refused state word stays]
  exact ⟨stays, rfl⟩

section Calls

variable {pause : Nat → Pause}

theorem read_sectors_returns (device : AtaDevice) (drive : UInt8) (lba : UInt32) (count : UInt8) :
    let moved := readWords (ataPorts (errorFree pause)) ataData (256 * count.toNat)
      (dataPhase (errorFree pause) device drive lba count ataCmdRead)
    ReturnsMoving (ataPorts (errorFree pause)) (ataReadSectors drive lba count) device
      moved.result moved.state moved.trace :=
  sector_command_returns device drive lba count ataCmdRead
    (commanded_words_left device drive lba count ataCmdRead (Or.inl rfl)) _ _ _ _
    (moving_insw ataData (256 * count.toNat) _)

def flushed (behaviour : Behaviour) (device : AtaDevice) : AtaDevice :=
  unbusied (device.writeRegister behaviour ataStatus ataCmdFlush)

def bufferWords (count : UInt8) (buffer : Nat → UInt16) : List UInt16 :=
  (List.range (256 * count.toNat)).map buffer

theorem write_sectors_returns (device : AtaDevice) (drive : UInt8) (lba : UInt32) (count : UInt8)
    (buffer : Nat → UInt16) :
    let moved := writeWords (ataPorts (errorFree pause)) ataData (bufferWords count buffer)
      (dataPhase (errorFree pause) device drive lba count ataCmdWrite)
    ReturnsMoving (ataPorts (errorFree pause)) (ataWriteSectors drive lba count buffer) device
      () (flushed (errorFree pause) moved.state) moved.trace := by
  intro moved
  apply sector_command_returns device drive lba count ataCmdWrite
    (commanded_words_left device drive lba count ataCmdWrite (Or.inr rfl))
  rw [← List.append_nil moved.trace]
  apply moving_bind (moving_outsw ataData (bufferWords count buffer) _)
  apply quiet_bind (moving_outb ataStatus ataCmdFlush _)
  exact wait_bsy_returns _

end Calls

end FractionsOS.Ata
