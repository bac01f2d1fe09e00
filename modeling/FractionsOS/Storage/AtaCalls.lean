import FractionsOS.Storage.AtaTransfers

/-!
# Runs of driver calls

Both sector functions poll the status once for a whole command and then move
its words blindly, so they follow the device exactly when it makes no pause
between two sectors. `ata_identify` moves the 64 words of its struct, out of the
256 that its command offers.
-/

namespace FractionsOS.Ata

open Library.PortPrograms Library.BlockHandshake

set_option autoImplicit false

inductive AtaCall where
  | identify (drive : UInt8)
  | read (drive : UInt8) (lba : UInt32) (count : UInt8)
  | write (drive : UInt8) (lba : UInt32) (count : UInt8) (buffer : Nat → UInt16)

def AtaCall.program : AtaCall → PortProgram (Bool × List UInt16)
  | .identify drive => ataIdentify drive
  | .read drive lba count => do
      let words ← ataReadSectors drive lba count
      return (true, words)
  | .write drive lba count buffer => do
      ataWriteSectors drive lba count buffer
      return (true, [])

def AtaCall.sectorCount : AtaCall → Nat
  | .identify _ => 0
  | .read _ _ count => count.toNat
  | .write _ _ count _ => count.toNat

section ErrorFree

variable {pause : Nat → Pause}

/-- The line when the first word of a command of `count` sectors is moved. -/
def sectorLine (device : AtaDevice) (count : UInt8) : Line :=
  ⟨sectorWords * sectorsOf count, 0, 0, device.line.pauses + 1⟩

/-- The device goes from one sector of its next command to the following one
without a pause. -/
def Uninterrupted (pause : Nat → Pause) (device : AtaDevice) (sectors : Nat) : Prop :=
  ∀ sector, 1 ≤ sector → sector < sectors → pause (device.line.pauses + sector) = Pause.none

theorem data_phase_line (device : AtaDevice) (idle : device.line.left = 0) (drive : UInt8)
    (lba : UInt32) (count command : UInt8) (sectors : IsSectorCommand command) :
    (dataPhase (errorFree pause) device drive lba count command).line = sectorLine device count :=
  congrArg AtaDevice.line (data_phase_of_idle pause device idle drive lba count command sectors)

theorem sector_line_words (device : AtaDevice) {count : UInt8} (positive : 0 < count.toNat) :
    (sectorLine device count).left = 256 * count.toNat := by
  change 256 * sectorsOf count = _
  rw [sectors_of_nonzero positive]

theorem sector_line_ready (device : AtaDevice) (count : UInt8) : (sectorLine device count).Ready :=
  ⟨rfl, rfl, Nat.mul_pos (by decide) (sectors_positive count)⟩

theorem sector_words_ready_iff (device : AtaDevice) {count : UInt8} (positive : 0 < count.toNat) :
    (∀ index, index < 256 * count.toNat →
        ((sectorLine device count).attempts sectorWords pause index).Ready) ↔
      Uninterrupted pause device count.toNat := by
  have whole : (sectorLine device count).left = count.toNat * sectorWords := by
    rw [sector_line_words device positive, Nat.mul_comm]
    rfl
  rw [← sector_line_words device positive,
    Line.all_ready_iff count.toNat _ (sector_line_ready device count) (by decide) whole]
  constructor
  · intro empty sector first last
    have sameSector : device.line.pauses + sector =
        (sectorLine device count).pauses + (sector - 1) := by
      change _ = device.line.pauses + 1 + (sector - 1)
      omega
    rw [sameSector]
    exact empty (sector - 1) (by omega)
  · intro uninterrupted block between
    have sameSector : (sectorLine device count).pauses + block =
        device.line.pauses + (block + 1) := by
      change device.line.pauses + 1 + block = _
      omega
    rw [sameSector]
    exact uninterrupted (block + 1) (by omega) between

theorem sector_words_drained_iff (device : AtaDevice) (count : UInt8) :
    ((sectorLine device count).attempts sectorWords pause (256 * count.toNat)).left = 0 ↔
      0 < count.toNat ∧ Uninterrupted pause device count.toNat := by
  rcases Nat.eq_zero_or_pos count.toNat with zero | positive
  · rw [zero]
    constructor
    · intro drained
      exact absurd drained (Nat.ne_of_gt (sector_line_ready device count).2.2)
    · intro both
      cases both.1
  · rw [← sector_words_ready_iff device positive, ← sector_line_words device positive,
      Line.drained_iff_all_ready]
    constructor
    · intro every
      exact ⟨positive, every⟩
    · intro both
      exact both.2

theorem flushed_left (device : AtaDevice) :
    (flushed (errorFree pause) device).line.left = device.line.left := by
  change (device.writeRegister (errorFree pause) ataStatus ataCmdFlush).line.left = _
  rcases Nat.eq_zero_or_pos device.line.busy with notBusy | busy
  · rcases Nat.eq_zero_or_pos device.line.left with idle | words
    · rw [AtaDevice.command_taken _ _ _ notBusy idle, idle]
      rfl
    · rw [AtaDevice.command_ignored _ _ _ notBusy words]
  · rw [AtaDevice.writeRegister, if_pos busy]

theorem data_phase_reading (device : AtaDevice) (idle : device.line.left = 0) (drive : UInt8)
    (lba : UInt32) (count : UInt8) :
    Reading (dataPhase (errorFree pause) device drive lba count ataCmdRead) := by
  rw [data_phase_of_idle pause device idle drive lba count ataCmdRead (Or.inl rfl)]
  exact Or.inl ⟨_, _, rfl⟩

theorem data_phase_writing (device : AtaDevice) (idle : device.line.left = 0) (drive : UInt8)
    (lba : UInt32) (count : UInt8) :
    Writing (dataPhase (errorFree pause) device drive lba count ataCmdWrite) := by
  rw [data_phase_of_idle pause device idle drive lba count ataCmdWrite (Or.inr rfl)]
  exact ⟨_, _, rfl⟩

/-- A call returns after as many attempts as `count` sectors have words, from a line on that
its waits leave, and leaves what these attempts leave. -/
def AttemptsSectors (pause : Nat → Pause) (device : AtaDevice) (line : Line) (count : UInt8)
    (call : AtaCall) : Prop :=
  ∃ result after moves,
    ReturnsMoving (ataPorts (errorFree pause)) call.program device result after moves ∧
      after.line.left = (line.attempts sectorWords pause (256 * count.toNat)).left ∧
      AttemptsFrom (errorFree pause) line (256 * count.toNat) moves

theorem read_call_returns (device : AtaDevice) (drive : UInt8) (lba : UInt32) (count : UInt8) :
    let moved := readWords (ataPorts (errorFree pause)) ataData (256 * count.toNat)
      (dataPhase (errorFree pause) device drive lba count ataCmdRead)
    ReturnsMoving (ataPorts (errorFree pause)) (AtaCall.read drive lba count).program device
      (true, moved.result) moved.state moved.trace := by
  intro moved
  rw [← List.append_nil moved.trace]
  exact moving_bind (read_sectors_returns device drive lba count) (moving_pure _ _)

theorem write_call_returns (device : AtaDevice) (drive : UInt8) (lba : UInt32) (count : UInt8)
    (buffer : Nat → UInt16) :
    let moved := writeWords (ataPorts (errorFree pause)) ataData (bufferWords count buffer)
      (dataPhase (errorFree pause) device drive lba count ataCmdWrite)
    ReturnsMoving (ataPorts (errorFree pause)) (AtaCall.write drive lba count buffer).program device
      (true, []) (flushed (errorFree pause) moved.state) moved.trace := by
  intro moved
  rw [← List.append_nil moved.trace]
  exact moving_bind (write_sectors_returns device drive lba count buffer) (moving_pure _ _)

theorem read_attempts_sectors (device : AtaDevice) (drive : UInt8) (lba : UInt32) (count : UInt8)
    (reading : Reading (dataPhase (errorFree pause) device drive lba count ataCmdRead)) :
    AttemptsSectors pause device
      (dataPhase (errorFree pause) device drive lba count ataCmdRead).line count
      (.read drive lba count) := by
  have line := read_words_line (errorFree pause) _ reading (256 * count.toNat)
  exact ⟨_, _, _, read_call_returns device drive lba count, congrArg Line.left line.1, line.2⟩

theorem write_attempts_sectors (device : AtaDevice) (drive : UInt8) (lba : UInt32) (count : UInt8)
    (buffer : Nat → UInt16)
    (writing : Writing (dataPhase (errorFree pause) device drive lba count ataCmdWrite)) :
    AttemptsSectors pause device
      (dataPhase (errorFree pause) device drive lba count ataCmdWrite).line count
      (.write drive lba count buffer) := by
  have line := write_words_line (errorFree pause) _ writing (bufferWords count buffer)
  have words : (bufferWords count buffer).length = 256 * count.toNat := by
    rw [bufferWords, List.length_map, List.length_range]
  rw [words] at line
  refine ⟨_, _, _, write_call_returns device drive lba count buffer, ?_, line.2⟩
  rw [flushed_left]
  exact congrArg Line.left line.1

theorem status_nonzero (device : AtaDevice) : device.status ≠ 0 := by
  unfold AtaDevice.status
  split_ifs <;> decide

def identifyProgrammed (device : AtaDevice) (drive : UInt8) : AtaDevice :=
  { device with
    drive := (0xA0 : UInt8) ||| (drive <<< 4)
    sectorCnt := 0
    lbaLow := 0
    lbaMid := 0
    lbaHigh := 0 }

def identifying (behaviour : Behaviour) (device : AtaDevice) (drive : UInt8) : AtaDevice :=
  (identifyProgrammed (unbusied device) drive).writeRegister behaviour ataStatus ataCmdIdentify

theorem identifying_of_idle (device : AtaDevice) (idle : device.line.left = 0) (drive : UInt8) :
    (identifying (errorFree pause) device drive).line.left = sectorWords ∧
      Reading (identifying (errorFree pause) device drive) := by
  have taken : identifying (errorFree pause) device drive =
      (identifyProgrammed (unbusied device) drive).takeCommand (errorFree pause) ataCmdIdentify :=
    AtaDevice.command_taken _ _ _ rfl idle
  rw [taken]
  exact ⟨rfl, Or.inr ⟨_, _, rfl⟩⟩

theorem identifying_words_left (device : AtaDevice) (drive : UInt8) :
    0 < (identifying (errorFree pause) device drive).line.left := by
  rcases Nat.eq_zero_or_pos device.line.left with idle | words
  · rw [(identifying_of_idle device idle drive).1]
    decide
  · have ignored : identifying (errorFree pause) device drive =
        identifyProgrammed (unbusied device) drive :=
      AtaDevice.command_ignored _ _ _ rfl words
    rw [ignored]
    exact words

def statusRead (device : AtaDevice) : AtaDevice := { device with line := device.line.poll }

@[simp] theorem status_read_transfer (device : AtaDevice) :
    (statusRead device).transfer = device.transfer := rfl

@[simp] theorem status_read_left (device : AtaDevice) :
    (statusRead device).line.left = device.line.left := device.line.poll_left

theorem identify_command_returns (device : AtaDevice) (drive : UInt8) (count : Nat)
    (size : ataIdentifySize / 2 = count) (result : Bool × List UInt16)
    (after : AtaDevice) (moves : List (PortEvent AtaDevice))
    (rest : ReturnsMoving (ataPorts (errorFree pause))
      (if (identifying (errorFree pause) device drive).error &&& 0x01 ≠ 0 then
        return (false, [])
      else do
        ataWaitDrq
        let words ← insw ataData count
        return (true, words))
      (unbusied (statusRead (identifying (errorFree pause) device drive))) result after moves) :
    ReturnsMoving (ataPorts (errorFree pause)) (ataIdentify drive) device result after moves := by
  subst size
  let taken := identifying (errorFree pause) device drive
  apply quiet_bind (wait_bsy_returns device)
  apply quiet_bind (moving_outb _ _ _)
  apply quiet_bind (moving_outb _ _ _)
  apply quiet_bind (moving_outb _ _ _)
  apply quiet_bind (moving_outb _ _ _)
  apply quiet_bind (moving_outb _ _ _)
  apply quiet_bind (moving_outb _ _ _)
  apply quiet_bind (moving_inb ataStatus taken)
  change ReturnsMoving _ (if taken.status = 0 then _ else _) _ _ _ _
  rw [if_neg (status_nonzero taken)]
  apply quiet_bind (wait_bsy_returns (statusRead taken))
  apply quiet_bind (moving_inb ataError (unbusied (statusRead taken)))
  exact rest

def identifyWaited (behaviour : Behaviour) (device : AtaDevice) (drive : UInt8) : AtaDevice :=
  unbusied (statusRead (identifying behaviour device drive))

@[simp] theorem identify_waited_left (device : AtaDevice) (drive : UInt8) :
    (identifyWaited (errorFree pause) device drive).line.left =
      (identifying (errorFree pause) device drive).line.left := by
  rw [identifyWaited, unbusied_left, status_read_left]

@[simp] theorem identify_waited_transfer (device : AtaDevice) (drive : UInt8) :
    (identifyWaited (errorFree pause) device drive).transfer =
      (identifying (errorFree pause) device drive).transfer := by
  rw [identifyWaited, unbusied_transfer, status_read_transfer]

theorem identify_words_remain (device : AtaDevice) (idle : device.line.left = 0) (drive : UInt8)
    (count : Nat) :
    sectorWords ≤ (readWords (ataPorts (errorFree pause)) ataData count
      (settled (identifyWaited (errorFree pause) device drive))).state.line.left + count := by
  rcases identifying_of_idle device idle drive with ⟨offered, reading⟩
  generalize waited : settled (identifyWaited (errorFree pause) device drive) = start
  have same : start.transfer = (identifying (errorFree pause) device drive).transfer := by
    rw [← waited, settled_transfer, identify_waited_transfer]
  have left : start.line.left = sectorWords := by
    rw [← waited, settled_left, identify_waited_left, offered]
  rw [(read_words_line (errorFree pause) start (reading_of_transfer same reading) count).1, ← left]
  exact Line.attempts_left_ge count start.line

/-- The struct has 64 of the 256 words that the command offers. -/
theorem identify_returns (device : AtaDevice) (drive : UInt8) :
    ∃ result after moves,
      ReturnsMoving (ataPorts (errorFree pause)) (ataIdentify drive) device result after moves ∧
        (device.line.left = 0 → after.line.left ≠ 0) := by
  let waited := identifyWaited (errorFree pause) device drive
  have words : 0 < waited.line.left := by
    rw [identify_waited_left]
    exact identifying_words_left device drive
  obtain ⟨count, size⟩ : ∃ count, ataIdentifySize / 2 = count := ⟨_, rfl⟩
  have fewer : count < sectorWords := by
    rw [← size]
    decide
  by_cases failed : (identifying (errorFree pause) device drive).error &&& 0x01 ≠ 0
  · refine ⟨(false, []), waited, [], ?_, fun _ => Nat.ne_of_gt words⟩
    apply identify_command_returns device drive count size
    rw [if_pos failed]
    exact moving_pure _ _
  · let moved := readWords (ataPorts (errorFree pause)) ataData count (settled waited)
    refine ⟨(true, moved.result), moved.state, moved.trace, ?_, ?_⟩
    · apply identify_command_returns device drive count size
      rw [if_neg failed]
      apply quiet_bind (wait_drq_returns waited words)
      rw [← List.append_nil moved.trace]
      exact moving_bind (moving_insw ataData count _) (moving_pure _ _)
    · intro idle drained
      have remain : sectorWords ≤ moved.state.line.left + count :=
        identify_words_remain device idle drive count
      omega

/-- The call moves all words of its command: it moves sectors, at least one, and
the device makes no pause between them. -/
def Drains (pause : Nat → Pause) (device : AtaDevice) (call : AtaCall) : Prop :=
  0 < call.sectorCount ∧ Uninterrupted pause device call.sectorCount

theorem sector_call_attempts (device : AtaDevice) (idle : device.line.left = 0) (call : AtaCall) :
    (∃ drive, call = .identify drive) ∨
      ∃ count, call.sectorCount = count.toNat ∧
        AttemptsSectors pause device (sectorLine device count) count call := by
  cases call with
  | identify drive => exact Or.inl ⟨drive, rfl⟩
  | read drive lba count =>
      have attempts := read_attempts_sectors device drive lba count
        (@data_phase_reading pause device idle drive lba count)
      rw [data_phase_line device idle drive lba count ataCmdRead (Or.inl rfl)] at attempts
      exact Or.inr ⟨count, rfl, attempts⟩
  | write drive lba count buffer =>
      have attempts := write_attempts_sectors device drive lba count buffer
        (@data_phase_writing pause device idle drive lba count)
      rw [data_phase_line device idle drive lba count ataCmdWrite (Or.inr rfl)] at attempts
      exact Or.inr ⟨count, rfl, attempts⟩

theorem call_returns (device : AtaDevice) (call : AtaCall) :
    ∃ outcome, Returns (ataPorts (errorFree pause)) call.program device outcome := by
  cases call with
  | identify drive =>
      rcases identify_returns device drive with ⟨_, _, _, ⟨trace, returns, _⟩, _⟩
      exact ⟨_, returns⟩
  | read drive lba count =>
      rcases read_call_returns device drive lba count with ⟨trace, returns, _⟩
      exact ⟨_, returns⟩
  | write drive lba count buffer =>
      rcases write_call_returns device drive lba count buffer with ⟨trace, returns, _⟩
      exact ⟨_, returns⟩

theorem idle_call_drains_iff (device : AtaDevice) (idle : device.line.left = 0) (call : AtaCall) :
    ∃ outcome, Returns (ataPorts (errorFree pause)) call.program device outcome ∧
      (outcome.state.line.left = 0 ↔ Drains pause device call) := by
  rcases sector_call_attempts device idle call with ⟨drive, rfl⟩ | ⟨count, same, attempts⟩
  · rcases identify_returns device drive with ⟨_, _, _, ⟨trace, returns, _⟩, left⟩
    refine ⟨_, returns, ?_⟩
    constructor
    · intro drained
      exact absurd drained (left idle)
    · intro drains
      cases drains.1
  · rcases attempts with ⟨_, _, _, ⟨trace, returns, _⟩, left, _⟩
    refine ⟨_, returns, ?_⟩
    rw [Drains, same, ← sector_words_drained_iff, ← left]

def AllDrain (pause : Nat → Pause) :
    AtaDevice → List AtaCall → List (Outcome (Bool × List UInt16) AtaDevice) → Prop
  | device, call :: calls, outcome :: outcomes =>
      Drains pause device call ∧ AllDrain pause outcome.state calls outcomes
  | _, _, _ => True

theorem calls_served (device : AtaDevice) (calls : List AtaCall) :
    ∃ outcomes, Serves (ataPorts (errorFree pause)) device (calls.map AtaCall.program) outcomes := by
  induction calls generalizing device with
  | nil => exact ⟨[], Serves.nil device⟩
  | cons call calls induction =>
      rcases call_returns device call with ⟨outcome, returns⟩
      rcases induction outcome.state with ⟨outcomes, rest⟩
      exact ⟨outcome :: outcomes, Serves.cons returns rest⟩

/-- No call of a run leaves a word of its command to be moved exactly when every
call moves sectors, at least one, without a pause of the device between them. -/
theorem idle_between_calls_iff (pause : Nat → Pause) (device : AtaDevice)
    (idle : device.line.left = 0) (calls : List AtaCall) :
    ∃ outcomes,
      Serves (ataPorts (errorFree pause)) device (calls.map AtaCall.program) outcomes ∧
        ((∀ outcome ∈ outcomes, outcome.state.line.left = 0) ↔ AllDrain pause device calls outcomes) := by
  induction calls generalizing device with
  | nil =>
      refine ⟨[], Serves.nil device, ?_⟩
      simp only [List.not_mem_nil, false_imp_iff, implies_true, AllDrain]
  | cons call calls induction =>
      rcases idle_call_drains_iff device idle call with ⟨outcome, returns, drained⟩
      by_cases again : outcome.state.line.left = 0
      · rcases induction outcome.state again with ⟨outcomes, rest, later⟩
        refine ⟨outcome :: outcomes, Serves.cons returns rest, ?_⟩
        rw [List.forall_mem_cons, AllDrain, drained, later]
      · rcases calls_served outcome.state calls with ⟨outcomes, rest⟩
        refine ⟨outcome :: outcomes, Serves.cons returns rest, ?_⟩
        rw [List.forall_mem_cons, AllDrain, ← drained]
        simp only [again, false_and]

theorem idle_between_calls_sector_then_identify :
    ∃ outcomes,
      Serves (ataPorts alwaysReady) blankDevice
        ([AtaCall.read 0 0 1, AtaCall.identify 1].map AtaCall.program) outcomes ∧
        ((∀ outcome ∈ outcomes, outcome.state.line.left = 0) ↔
          AllDrain (fun _ => Pause.none) blankDevice [AtaCall.read 0 0 1, AtaCall.identify 1]
            outcomes) :=
  idle_between_calls_iff _ _ rfl _

/-- After `ata_identify` 192 words of the command are left. -/
theorem identify_leaves_words :
    blankDevice.line.left = 0 ∧
      ∃ outcome, Returns (ataPorts alwaysReady) (AtaCall.identify 0).program blankDevice outcome ∧
        outcome.state.line.left = 192 :=
  ⟨rfl, returns_tested 1 (by decide +kernel)⟩

/-- The words that an earlier command has left go the way that the words of the call do. -/
def SameWay (device : AtaDevice) : AtaCall → Prop
  | .identify _ => Reading device
  | .read _ _ _ => Reading device
  | .write _ _ _ _ => Writing device

/-- A sector call finds data on the line for every word. An idle device must make no pause
between two of its sectors. A device that has words of an earlier command left ignores the
command of the call: either these words go the other way, and none of them is moved, or there
are as many as the call moves and no pause falls between them. -/
def MeetsData (pause : Nat → Pause) (device : AtaDevice) (call : AtaCall) : Prop :=
  if device.line.left = 0 then Uninterrupted pause device call.sectorCount
  else SameWay device call →
    device.line.Flows sectorWords pause (256 * call.sectorCount)

theorem words_on_data_iff {trace moves : List (PortEvent AtaDevice)}
    (events : wordEvents trace = moves) :
    (∀ event ∈ trace, event.access.isWord → ShowsData event.before) ↔
      ∀ event ∈ moves, ShowsData event.before := by
  rw [← events, wordEvents]
  simp only [List.mem_filter, and_imp]

/-- The line of a device that ignored a command, once the pause it was in is over. -/
def resumedLine (device : AtaDevice) : Line := (settled device).line

theorem resumed_ready (device : AtaDevice) (words : 0 < device.line.left) :
    (resumedLine device).Ready :=
  ⟨rfl, rfl, words⟩

/-- With words of an earlier command left a sector call attempts these words if they go its
way, and meets the same ready line again and again if they do not. -/
theorem resumed_call (device : AtaDevice) (words : 0 < device.line.left) (call : AtaCall) :
    (∃ drive, call = .identify drive) ∨
      ∃ count, call.sectorCount = count.toNat ∧
        (SameWay device call →
          AttemptsSectors pause device (resumedLine device) count call) ∧
        (¬SameWay device call → ∃ result after moves state,
          ReturnsMoving (ataPorts (errorFree pause)) call.program device result after moves ∧
            AllMeet state moves ∧ state.line = resumedLine device) := by
  cases call with
  | identify drive => exact Or.inl ⟨drive, rfl⟩
  | read drive lba count =>
      have phase := @data_phase_of_words_left pause device words drive lba count ataCmdRead
      refine Or.inr ⟨count, rfl, fun reading => ?_, fun other => ?_⟩
      · have attempts := @read_attempts_sectors pause device drive lba count
          (phase ▸ reading)
        rw [phase] at attempts
        exact attempts
      · refine ⟨_, _, _, _, read_call_returns device drive lba count,
          read_words_refused (errorFree pause) _ ?_ _, ?_⟩
        · rw [phase]
          exact other
        · rw [phase]
          rfl
  | write drive lba count buffer =>
      have phase := @data_phase_of_words_left pause device words drive lba count ataCmdWrite
      refine Or.inr ⟨count, rfl, fun writing => ?_, fun other => ?_⟩
      · have attempts := @write_attempts_sectors pause device drive lba count buffer
          (phase ▸ writing)
        rw [phase] at attempts
        exact attempts
      · refine ⟨_, _, _, _, write_call_returns device drive lba count buffer,
          write_words_refused (errorFree pause) _ ?_ _, ?_⟩
        · rw [phase]
          exact other
        · rw [phase]
          rfl

/-- Every word of a sector call goes through the data port while the device shows DRQ without
BSY exactly when the device offers that many words without a pause between them. -/
theorem words_moved_on_data_iff (pause : Nat → Pause) (device : AtaDevice) (call : AtaCall)
    (sectors : 0 < call.sectorCount) :
    ∃ outcome, Returns (ataPorts (errorFree pause)) call.program device outcome ∧
      ((∀ event ∈ outcome.trace, event.access.isWord → ShowsData event.before) ↔
        MeetsData pause device call) := by
  rcases Nat.eq_zero_or_pos device.line.left with idle | words
  · rcases sector_call_attempts device idle call with ⟨drive, rfl⟩ | ⟨count, same, attempts⟩
    · cases sectors
    · obtain ⟨result, after, moves, ⟨trace, returns, events⟩, _, attempted⟩ := attempts
      rw [same] at sectors
      refine ⟨⟨result, after, trace⟩, returns, ?_⟩
      rw [words_on_data_iff events, moves_ready_iff attempted, MeetsData, if_pos idle, same]
      exact sector_words_ready_iff device sectors
  · rcases resumed_call device words call with ⟨drive, rfl⟩ | ⟨count, same, onward, refused⟩
    · cases sectors
    · by_cases way : SameWay device call
      · obtain ⟨result, after, moves, ⟨trace, returns, events⟩, _, attempted⟩ := onward way
        refine ⟨⟨result, after, trace⟩, returns, ?_⟩
        rw [words_on_data_iff events, moves_ready_iff attempted, MeetsData,
          if_neg (Nat.ne_of_gt words), same, forall_prop_of_true way]
        exact Line.first_ready_iff _ _ (resumed_ready device words) (by decide)
      · obtain ⟨result, after, moves, state, ⟨trace, returns, events⟩, met, line⟩ := refused way
        refine ⟨⟨result, after, trace⟩, returns, ?_⟩
        rw [words_on_data_iff events, MeetsData, if_neg (Nat.ne_of_gt words)]
        refine iff_of_true ?_ fun there => absurd there way
        intro event member
        rw [met event member, shows_data_iff_ready, line]
        exact resumed_ready device words

theorem words_moved_on_data_two_sectors :
    ∃ outcome,
      Returns (ataPorts alwaysReady) (AtaCall.read 0 0 2).program blankDevice outcome ∧
        ((∀ event ∈ outcome.trace, event.access.isWord → ShowsData event.before) ↔
          MeetsData (fun _ => Pause.none) blankDevice (AtaCall.read 0 0 2)) :=
  words_moved_on_data_iff _ _ _ (by decide)

def busyAfterSector : Behaviour := errorFree fun _ => ⟨1, 0⟩

/-- The second sector of a command is moved while the device shows BSY. -/
theorem words_moved_while_busy :
    ∃ outcome,
      Returns (ataPorts busyAfterSector) (AtaCall.read 0 0 2).program blankDevice outcome ∧
        ∃ event ∈ outcome.trace, event.access.isWord ∧ ¬ShowsData event.before :=
  returns_tested 2 (by decide +kernel)

end ErrorFree

end FractionsOS.Ata
