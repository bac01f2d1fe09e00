import FractionsOS.Library.BlockArrays
import FractionsOS.Library.WordBytes
import FractionsOS.Storage.AtaCalls

/-!
# The driver as a block store

On a device pair that is ready whenever it is polled, calls of
`ata_read_sectors` and `ata_write_sectors` serve two arrays of 256-word sectors.
-/

namespace FractionsOS.Ata

open Library.PortPrograms Library.BlockHandshake Library.BlockArrays Library.WordBytes

set_option autoImplicit false

theorem low_nibble (value : UInt32) : (value &&& 0x0F).toUInt8.toNat = value.toNat % 16 := by
  have masked : value.toNat &&& 15 = value.toNat % 16 :=
    Nat.and_two_pow_sub_one_eq_mod value.toNat 4
  rw [UInt32.toNat_toUInt8, UInt32.toNat_and]
  change (value.toNat &&& 15) % 2 ^ 8 = _
  rw [masked]
  omega

/-- The drive register keeps the drive bit and the four high bits of the address apart. -/
theorem drive_register_decodes : ∀ second : Bool, ∀ high : Fin 16,
    let register := (0xE0 : UInt8) ||| (second.toUInt8 <<< 4) ||| UInt8.ofNat high
    decide (register &&& 0x10 ≠ 0) = second ∧ (register &&& 0x0F).toNat = high := by
  decide

theorem drive_select_decodes (second : Bool) (lba : UInt32) :
    decide (driveSelect second.toUInt8 lba &&& 0x10 ≠ 0) = second ∧
      (driveSelect second.toUInt8 lba &&& 0x0F).toNat = (lba >>> 24).toNat % 16 := by
  have small : (lba >>> 24).toNat % 16 < 16 := Nat.mod_lt _ (by decide)
  have nibble : ((lba >>> 24) &&& 0x0F).toUInt8 = UInt8.ofNat ((lba >>> 24).toNat % 16) := by
    rw [← low_nibble, UInt8.ofNat_toNat]
  rw [driveSelect, nibble]
  exact drive_register_decodes second ⟨_, small⟩

section TaskFile

variable (device : AtaDevice) (second : Bool) (lba : UInt32) (count : UInt8)

theorem selected_drive_programmed :
    (programmed device second.toUInt8 lba count).selectedDrive = second :=
  (drive_select_decodes second lba).1

/-- Whatever the task file held before, the device reassembles 28 bits of the address. -/
theorem selected_lba_value :
    (programmed device second.toUInt8 lba count).selectedLba = lba.toNat % 2 ^ 28 := by
  have low : (lba &&& 0xFF).toUInt8.toNat = lba.toNat % 256 := low_byte lba
  have mid : ((lba >>> 8) &&& 0xFF).toUInt8.toNat = lba.toNat / 2 ^ 8 % 256 :=
    shifted_byte lba 8 (by decide)
  have high : ((lba >>> 16) &&& 0xFF).toUInt8.toNat = lba.toNat / 2 ^ 16 % 256 :=
    shifted_byte lba 16 (by decide)
  have top : (driveSelect second.toUInt8 lba &&& 0x0F).toNat = lba.toNat / 2 ^ 24 % 16 := by
    rw [(drive_select_decodes second lba).2, UInt32.toNat_shiftRight, Nat.shiftRight_eq_div_pow]
    rfl
  unfold AtaDevice.selectedLba programmed
  dsimp only
  rw [low, mid, high, top]
  omega

theorem selected_lba_programmed (small : lba.toNat < 2 ^ 28) :
    (programmed device second.toUInt8 lba count).selectedLba = lba.toNat := by
  rw [selected_lba_value, Nat.mod_eq_of_lt small]

end TaskFile

def ReadyToMove (device : AtaDevice) (words : Nat) : Prop :=
  device.line.busy = 0 ∧ device.line.settling = 0 ∧ words ≤ device.line.left

theorem ready_of_words {device : AtaDevice} {words : Nat} (ready : ReadyToMove device (words + 1)) :
    device.line.Ready :=
  ⟨ready.1, ready.2.1, Nat.lt_of_lt_of_le (Nat.succ_pos words) ready.2.2⟩

theorem advance_ready {device : AtaDevice} {words : Nat} (transfer : Transfer)
    (ready : ReadyToMove device (words + 1)) :
    ReadyToMove (device.advance alwaysReady transfer) words := by
  have unpaused : (device.line.moved sectorWords alwaysReady.pause).busy = 0 ∧
      (device.line.moved sectorWords alwaysReady.pause).settling = 0 :=
    Line.moved_unpaused ready.1 ready.2.1
  refine ⟨unpaused.1, unpaused.2, ?_⟩
  change words ≤ (device.line.moved sectorWords _).left
  rw [Line.moved_left]
  exact Nat.le_sub_of_add_le ready.2.2

theorem read_words_medium (device : AtaDevice) (drive : Bool) (address count : Nat)
    (transfer : device.transfer = .fromMedium drive address) (ready : ReadyToMove device count) :
    (readWords (ataPorts alwaysReady) ataData count device).result =
        flatRead device.medium drive address count ∧
      (readWords (ataPorts alwaysReady) ataData count device).state.medium = device.medium := by
  induction count generalizing device address with
  | zero => exact ⟨rfl, rfl⟩
  | succ count induction =>
      have one : (ataPorts alwaysReady).inw device ataData =
          (device.medium drive address,
            device.advance alwaysReady (.fromMedium drive (address + 1))) := by
        change device.readData alwaysReady ataData = _
        rw [AtaDevice.readData, if_pos ⟨rfl, ready_of_words ready⟩, transfer]
      have rest := induction _ (address + 1) rfl (advance_ready (.fromMedium drive (address + 1)) ready)
      rw [readWords, one, flat_read_succ]
      exact ⟨congrArg (List.cons _) rest.1, rest.2⟩

theorem write_words_medium (device : AtaDevice) (drive : Bool) (address : Nat) (words : List UInt16)
    (transfer : device.transfer = .toMedium drive address) (ready : ReadyToMove device words.length) :
    (writeWords (ataPorts alwaysReady) ataData words device).state.medium =
      flatWrite device.medium drive address words := by
  induction words generalizing device address with
  | nil => rfl
  | cons word words induction =>
      have one : (ataPorts alwaysReady).outw device ataData word =
          { device.advance alwaysReady (.toMedium drive (address + 1)) with
            medium := flatSet device.medium drive address word } := by
        change device.writeData alwaysReady ataData word = _
        rw [AtaDevice.writeData, if_pos ⟨rfl, ready_of_words ready⟩, transfer]
        rfl
      rw [writeWords, one]
      exact induction _ (address + 1) rfl (advance_ready (.toMedium drive (address + 1)) ready)

section Registers

variable {behaviour : Behaviour}

theorem begin_transfer_medium (device : AtaDevice) (words : Nat) (transfer : Transfer) :
    (device.beginTransfer behaviour words transfer).medium = device.medium := by
  unfold AtaDevice.beginTransfer
  cases behaviour.fails device.commands <;> rfl

theorem take_command_medium (device : AtaDevice) (command : UInt8) :
    (device.takeCommand behaviour command).medium = device.medium := by
  unfold AtaDevice.takeCommand
  split_ifs <;> exact begin_transfer_medium device _ _

theorem write_register_medium (device : AtaDevice) (port : UInt16) (value : UInt8) :
    (device.writeRegister behaviour port value).medium = device.medium := by
  unfold AtaDevice.writeRegister
  split_ifs
  all_goals first | rfl | exact take_command_medium device value

theorem flushed_medium (device : AtaDevice) :
    (flushed behaviour device).medium = device.medium :=
  write_register_medium device ataStatus ataCmdFlush

end Registers

/-- Sectors of one of two drives, as a call names them: at least one, and all
below the end of the 28-bit address space. -/
structure SectorRange where
  second : Bool
  lba : UInt32
  count : UInt8
  positive : 0 < count.toNat
  fits : lba.toNat + count.toNat ≤ 2 ^ 28

inductive SectorCall where
  | read (range : SectorRange)
  | write (range : SectorRange) (buffer : Nat → UInt16)

def SectorCall.call : SectorCall → AtaCall
  | .read range => .read range.second.toUInt8 range.lba range.count
  | .write range buffer => .write range.second.toUInt8 range.lba range.count buffer

def SectorCall.request : SectorCall → Request Bool UInt16
  | .read range => .read range.second range.lba.toNat range.count.toNat
  | .write range buffer => .write range.second range.lba.toNat range.count.toNat buffer

def sectors (device : AtaDevice) : BlockStore Bool UInt16 sectorWords :=
  ofFlat sectorWords device.medium

theorem range_address_small (range : SectorRange) : range.lba.toNat < 2 ^ 28 := by
  have positive := range.positive
  have fits := range.fits
  omega

theorem sector_call_drains (device : AtaDevice) (call : SectorCall) :
    Drains (fun _ => Pause.none) device call.call := by
  cases call with
  | read range => exact ⟨range.positive, fun _ _ _ => rfl⟩
  | write range buffer => exact ⟨range.positive, fun _ _ _ => rfl⟩

theorem range_data_phase (device : AtaDevice) (idle : device.line.left = 0) (range : SectorRange)
    (command : UInt8) (sectorCommand : IsSectorCommand command) :
    let phase := dataPhase alwaysReady device range.second.toUInt8 range.lba range.count command
    phase.medium = device.medium ∧ ReadyToMove phase (256 * range.count.toNat) ∧
      phase.transfer =
        if command = ataCmdRead then .fromMedium range.second (sectorWords * range.lba.toNat)
        else .toMedium range.second (sectorWords * range.lba.toNat) := by
  intro phase
  have reached := data_phase_of_idle (fun _ => Pause.none) device idle range.second.toUInt8
    range.lba range.count command sectorCommand
  have drive := selected_drive_programmed device range.second range.lba range.count
  have lba := selected_lba_programmed device range.second range.lba range.count
    (range_address_small range)
  have words : 256 * range.count.toNat ≤ sectorWords * sectorsOf range.count :=
    Nat.le_of_eq (sector_line_words device range.positive).symm
  rw [show phase = _ from reached, sectorTransfer, drive, lba]
  exact ⟨rfl, ⟨rfl, rfl, words⟩, rfl⟩

theorem read_serves (device : AtaDevice) (idle : device.line.left = 0) (range : SectorRange) :
    let moved := readWords (ataPorts alwaysReady) ataData (256 * range.count.toNat)
      (dataPhase alwaysReady device range.second.toUInt8 range.lba range.count ataCmdRead)
    (moved.result, sectors moved.state) =
      (sectors device).serve (SectorCall.read range).request := by
  intro moved
  rcases range_data_phase device idle range ataCmdRead (Or.inl rfl) with ⟨medium, ready, transfer⟩
  rcases read_words_medium _ _ _ _ transfer ready with ⟨result, unchanged⟩
  have stored : moved.result =
      (sectors device).read range.second range.lba.toNat range.count.toNat := by
    rw [sectors, ← flat_read_blocks, ← medium]
    exact result
  have same : sectors moved.state = sectors device :=
    congrArg (ofFlat sectorWords) (unchanged.trans medium)
  rw [stored, same]
  rfl

theorem write_serves (device : AtaDevice) (idle : device.line.left = 0) (range : SectorRange)
    (buffer : Nat → UInt16) :
    let moved := writeWords (ataPorts alwaysReady) ataData (bufferWords range.count buffer)
      (dataPhase alwaysReady device range.second.toUInt8 range.lba range.count ataCmdWrite)
    ([], sectors (flushed alwaysReady moved.state)) =
      (sectors device).serve (SectorCall.write range buffer).request := by
  intro moved
  rcases range_data_phase device idle range ataCmdWrite (Or.inr rfl) with ⟨medium, ready, transfer⟩
  have words : (bufferWords range.count buffer).length = 256 * range.count.toNat := by
    rw [bufferWords, List.length_map, List.length_range]
  rw [← words] at ready
  have written := write_words_medium _ _ _ _ transfer ready
  have stored : sectors (flushed alwaysReady moved.state) =
      (sectors device).write range.second range.lba.toNat range.count.toNat buffer := by
    rw [sectors, flushed_medium, sectors, ← flat_write_blocks, ← medium]
    exact congrArg (ofFlat sectorWords) written
  rw [stored]
  rfl

theorem sector_call_serves (device : AtaDevice) (idle : device.line.left = 0) (call : SectorCall) :
    ∃ outcome, Returns (ataPorts alwaysReady) call.call.program device outcome ∧
      outcome.state.line.left = 0 ∧
      (outcome.result.2, sectors outcome.state) = (sectors device).serve call.request := by
  rcases idle_call_drains_iff device idle call.call with ⟨outcome, returns, drained⟩
  refine ⟨outcome, returns, drained.mpr (sector_call_drains device call), ?_⟩
  cases call with
  | read range =>
      rcases read_call_returns device range.second.toUInt8 range.lba range.count
        with ⟨trace, reads, -⟩
      rw [returns_unique returns reads]
      exact read_serves device idle range
  | write range buffer =>
      rcases write_call_returns device range.second.toUInt8 range.lba range.count buffer
        with ⟨trace, writes, -⟩
      rw [returns_unique returns writes]
      exact write_serves device idle range buffer

/-- Any run of reads and writes gives back what the two arrays of sectors give
back, and after each call the media hold what the arrays hold. -/
theorem ata_serves_block_store (device : AtaDevice) (idle : device.line.left = 0)
    (calls : List SectorCall) :
    ∃ outcomes,
      Serves (ataPorts alwaysReady) device (calls.map fun call => call.call.program) outcomes ∧
        outcomes.map (fun outcome => (outcome.result.2, sectors outcome.state)) =
          (sectors device).serveAll (calls.map SectorCall.request) := by
  induction calls generalizing device with
  | nil => exact ⟨[], Serves.nil device, rfl⟩
  | cons call calls induction =>
      rcases sector_call_serves device idle call with ⟨outcome, returns, drained, served⟩
      rcases induction outcome.state drained with ⟨outcomes, rest, later⟩
      refine ⟨outcome :: outcomes, Serves.cons returns rest, ?_⟩
      rw [List.map_cons, List.map_cons, BlockStore.serveAll, ← served, later]

def lastSectorOfSecond : SectorRange := ⟨true, 0x0FFFFFFF, 1, by decide, by decide⟩

theorem ata_serves_block_store_write_then_read :
    let calls := [SectorCall.write lastSectorOfSecond fun index => UInt16.ofNat index,
      SectorCall.read lastSectorOfSecond]
    ∃ outcomes,
      Serves (ataPorts alwaysReady) blankDevice (calls.map fun call => call.call.program) outcomes ∧
        outcomes.map (fun outcome => (outcome.result.2, sectors outcome.state)) =
          (sectors blankDevice).serveAll (calls.map SectorCall.request) :=
  ata_serves_block_store blankDevice rfl _

end FractionsOS.Ata
