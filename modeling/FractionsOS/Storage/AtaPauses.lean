import FractionsOS.Storage.AtaStore

/-!
# Sector calls on slow devices

A device may be busy for any time after a command, as the driver waits there. Between two
sectors of a command it does not wait. Calls of single sectors are served right however
long the device takes.
-/

namespace FractionsOS.Ata

open Library.PortPrograms Library.BlockHandshake Library.BlockArrays

set_option autoImplicit false

variable {pause : Nat → Pause}

def ReadyThrough (pause : Nat → Pause) (line : Line) (count : Nat) : Prop :=
  ∀ index, index < count → (line.attempts sectorWords pause index).Ready

theorem ready_through_succ {device : AtaDevice} {count : Nat}
    (ready : ReadyThrough pause device.line (count + 1)) (transfer : Transfer) :
    device.line.Ready ∧
      ReadyThrough pause (device.advance (errorFree pause) transfer).line count := by
  have now : device.line.Ready := ready 0 (Nat.succ_pos count)
  refine ⟨now, ?_⟩
  intro index inside
  have later := ready (index + 1) (Nat.succ_lt_succ inside)
  rw [Line.attempts_succ, Line.attempt, if_pos now] at later
  exact later

theorem read_words_through (device : AtaDevice) (drive : Bool) (address count : Nat)
    (transfer : device.transfer = .fromMedium drive address)
    (ready : ReadyThrough pause device.line count) :
    (readWords (ataPorts (errorFree pause)) ataData count device).result =
        flatRead device.medium drive address count ∧
      (readWords (ataPorts (errorFree pause)) ataData count device).state.medium =
        device.medium := by
  induction count generalizing device address with
  | zero => exact ⟨rfl, rfl⟩
  | succ count induction =>
      rcases ready_through_succ ready (.fromMedium drive (address + 1)) with ⟨now, later⟩
      have one : (ataPorts (errorFree pause)).inw device ataData =
          (device.medium drive address,
            device.advance (errorFree pause) (.fromMedium drive (address + 1))) := by
        change device.readData (errorFree pause) ataData = _
        rw [AtaDevice.readData, if_pos ⟨rfl, now⟩, transfer]
      have rest := induction _ (address + 1) rfl later
      rw [readWords, one, flat_read_succ]
      exact ⟨congrArg (List.cons _) rest.1, rest.2⟩

theorem write_words_through (device : AtaDevice) (drive : Bool) (address : Nat)
    (words : List UInt16) (transfer : device.transfer = .toMedium drive address)
    (ready : ReadyThrough pause device.line words.length) :
    (writeWords (ataPorts (errorFree pause)) ataData words device).state.medium =
      flatWrite device.medium drive address words := by
  induction words generalizing device address with
  | nil => rfl
  | cons word words induction =>
      rcases ready_through_succ ready (.toMedium drive (address + 1)) with ⟨now, later⟩
      have one : (ataPorts (errorFree pause)).outw device ataData word =
          { device.advance (errorFree pause) (.toMedium drive (address + 1)) with
            medium := flatSet device.medium drive address word } := by
        change device.writeData (errorFree pause) ataData word = _
        rw [AtaDevice.writeData, if_pos ⟨rfl, now⟩, transfer]
        rfl
      rw [writeWords, one]
      exact induction _ (address + 1) rfl later

theorem range_phase_through (device : AtaDevice) (idle : device.line.left = 0)
    (range : SectorRange) (smooth : Uninterrupted pause device range.count.toNat)
    (command : UInt8) (sectorCommand : IsSectorCommand command) :
    let phase := dataPhase (errorFree pause) device range.second.toUInt8 range.lba range.count
      command
    phase.medium = device.medium ∧ ReadyThrough pause phase.line (256 * range.count.toNat) ∧
      phase.transfer =
        if command = ataCmdRead then .fromMedium range.second (sectorWords * range.lba.toNat)
        else .toMedium range.second (sectorWords * range.lba.toNat) := by
  intro phase
  have reached := data_phase_of_idle pause device idle range.second.toUInt8 range.lba range.count
    command sectorCommand
  have line := @data_phase_line pause device idle range.second.toUInt8 range.lba range.count command
    sectorCommand
  have drive := selected_drive_programmed device range.second range.lba range.count
  have lba := selected_lba_programmed device range.second range.lba range.count
    (range_address_small range)
  refine ⟨?_, ?_, ?_⟩
  · rw [show phase = _ from reached]
    rfl
  · rw [show phase.line = _ from line]
    exact (sector_words_ready_iff device range.positive).mpr smooth
  · rw [show phase = _ from reached, sectorTransfer, drive, lba]

theorem read_serves_through (device : AtaDevice) (idle : device.line.left = 0)
    (range : SectorRange) (smooth : Uninterrupted pause device range.count.toNat) :
    let moved := readWords (ataPorts (errorFree pause)) ataData (256 * range.count.toNat)
      (dataPhase (errorFree pause) device range.second.toUInt8 range.lba range.count ataCmdRead)
    (moved.result, sectors moved.state) =
      (sectors device).serve (SectorCall.read range).request := by
  intro moved
  rcases range_phase_through device idle range smooth ataCmdRead (Or.inl rfl) with
    ⟨medium, ready, transfer⟩
  rcases read_words_through _ _ _ _ transfer ready with ⟨result, unchanged⟩
  have stored : moved.result =
      (sectors device).read range.second range.lba.toNat range.count.toNat := by
    rw [sectors, ← flat_read_blocks, ← medium]
    exact result
  have same : sectors moved.state = sectors device :=
    congrArg (ofFlat sectorWords) (unchanged.trans medium)
  rw [stored, same]
  rfl

theorem write_serves_through (device : AtaDevice) (idle : device.line.left = 0)
    (range : SectorRange) (smooth : Uninterrupted pause device range.count.toNat)
    (buffer : Nat → UInt16) :
    let moved := writeWords (ataPorts (errorFree pause)) ataData (bufferWords range.count buffer)
      (dataPhase (errorFree pause) device range.second.toUInt8 range.lba range.count ataCmdWrite)
    ([], sectors (flushed (errorFree pause) moved.state)) =
      (sectors device).serve (SectorCall.write range buffer).request := by
  intro moved
  rcases range_phase_through device idle range smooth ataCmdWrite (Or.inr rfl) with
    ⟨medium, ready, transfer⟩
  have words : (bufferWords range.count buffer).length = 256 * range.count.toNat := by
    rw [bufferWords, List.length_map, List.length_range]
  rw [← words] at ready
  have written := write_words_through _ _ _ _ transfer ready
  have stored : sectors (flushed (errorFree pause) moved.state) =
      (sectors device).write range.second range.lba.toNat range.count.toNat buffer := by
    rw [sectors, flushed_medium, sectors, ← flat_write_blocks, ← medium]
    exact congrArg (ofFlat sectorWords) written
  rw [stored]
  rfl

/-- A call is served whenever the device makes no pause between its sectors. -/
theorem uninterrupted_call_serves (device : AtaDevice) (idle : device.line.left = 0)
    (call : SectorCall) (drains : Drains pause device call.call) :
    ∃ outcome, Returns (ataPorts (errorFree pause)) call.call.program device outcome ∧
      outcome.state.line.left = 0 ∧
      (outcome.result.2, sectors outcome.state) = (sectors device).serve call.request := by
  rcases @idle_call_drains_iff pause device idle call.call with ⟨outcome, returns, drained⟩
  refine ⟨outcome, returns, drained.mpr drains, ?_⟩
  cases call with
  | read range =>
      rcases @read_call_returns pause device range.second.toUInt8 range.lba range.count
        with ⟨trace, reads, _⟩
      rw [returns_unique returns reads]
      exact read_serves_through device idle range drains.2
  | write range buffer =>
      rcases @write_call_returns pause device range.second.toUInt8 range.lba range.count buffer
        with ⟨trace, writes, _⟩
      rw [returns_unique returns writes]
      exact write_serves_through device idle range drains.2 buffer

/-- `ata_init` waits for nothing: it takes the device four polls further. -/
theorem ata_init_polls (behaviour : Behaviour) (device : AtaDevice) :
    ∃ outcome, Returns (ataPorts behaviour) ataInit device outcome ∧
      outcome.state = { device with line := Line.poll^[4] device.line } :=
  ⟨_, ⟨0, rfl⟩, rfl⟩

theorem single_sector_drains (pause : Nat → Pause) (device : AtaDevice) {call : AtaCall}
    (single : call.sectorCount = 1) : Drains pause device call := by
  constructor
  · rw [single]
    exact Nat.one_pos
  · intro sector first last
    omega

/-- The call moves one sector, or the device never pauses. -/
def Seamless (pause : Nat → Pause) (call : SectorCall) : Prop :=
  call.call.sectorCount = 1 ∨ ∀ number, pause number = Pause.none

theorem seamless_serves {pause : Nat → Pause} (device : AtaDevice) (idle : device.line.left = 0)
    {call : SectorCall} (seamless : Seamless pause call) :
    ∃ outcome, Returns (ataPorts (errorFree pause)) call.call.program device outcome ∧
      outcome.state.line.left = 0 ∧
      (outcome.result.2, sectors outcome.state) = (sectors device).serve call.request := by
  apply uninterrupted_call_serves device idle call
  rcases seamless with single | never
  · exact single_sector_drains pause device single
  · rw [funext never]
    exact sector_call_drains device call

/-- With calls of single sectors the driver serves the two arrays of sectors on any device
without errors, however long its pauses are and wherever it makes them. -/
theorem single_sectors_served (pause : Nat → Pause) (device : AtaDevice)
    (idle : device.line.left = 0) (calls : List SectorCall)
    (single : ∀ call ∈ calls, call.call.sectorCount = 1) :
    ∃ outcomes,
      Serves (ataPorts (errorFree pause)) device (calls.map fun call => call.call.program)
        outcomes ∧
      outcomes.map (fun outcome => (outcome.result.2, sectors outcome.state)) =
        (sectors device).serveAll (calls.map SectorCall.request) := by
  induction calls generalizing device with
  | nil => exact ⟨[], Serves.nil device, rfl⟩
  | cons call calls induction =>
      have seamless : Seamless pause call := Or.inl (single call List.mem_cons_self)
      rcases seamless_serves device idle seamless with ⟨outcome, returns, drained, served⟩
      rcases induction outcome.state drained
        (fun other member => single other (List.mem_cons_of_mem call member)) with
        ⟨outcomes, rest, later⟩
      refine ⟨outcome :: outcomes, Serves.cons returns rest, ?_⟩
      rw [List.map_cons, List.map_cons, BlockStore.serveAll, ← served, later]

/-- A sector written and read on a device whose pauses grow longer and longer. -/
theorem single_sectors_served_slow :
    let calls := [SectorCall.write lastSectorOfSecond fun index => UInt16.ofNat index,
      SectorCall.read lastSectorOfSecond]
    ∃ outcomes,
      Serves (ataPorts (errorFree fun number => ⟨7 * number, number⟩)) blankDevice
        (calls.map fun call => call.call.program) outcomes ∧
      outcomes.map (fun outcome => (outcome.result.2, sectors outcome.state)) =
        (sectors blankDevice).serveAll (calls.map SectorCall.request) := by
  intro calls
  apply single_sectors_served _ blankDevice rfl
  intro call member
  rcases List.mem_pair.mp member with rfl | rfl <;> rfl

end FractionsOS.Ata
