import FractionsOS.Storage.AtaStore

/-!
# The task file of a sector call

Both sector functions program the same five registers before their command. A device
decodes them by the rules of 28-bit addresses, where a sector count of zero stands for
256, whatever the caller meant.
-/

namespace FractionsOS.Ata

open Library.PortPrograms

set_option autoImplicit false

structure SectorRequest where
  second : Bool
  lba : UInt32
  count : UInt8
  stored : Option (Nat → UInt16)

namespace SectorRequest

def call (request : SectorRequest) : AtaCall :=
  match request.stored with
  | none => .read request.second.toUInt8 request.lba request.count
  | some buffer => .write request.second.toUInt8 request.lba request.count buffer

def InRange (request : SectorRequest) : Prop := request.lba.toNat < 2 ^ 28 ∧ request.count ≠ 0

end SectorRequest

def latch (device : AtaDevice) (written : UInt16 × UInt8) : AtaDevice :=
  if written.1 = ataSectorCnt then { device with sectorCnt := written.2 }
  else if written.1 = ataLbaLow then { device with lbaLow := written.2 }
  else if written.1 = ataLbaMid then { device with lbaMid := written.2 }
  else if written.1 = ataLbaHigh then { device with lbaHigh := written.2 }
  else if written.1 = ataDrive then { device with drive := written.2 }
  else device

def taskFile (writes : List (UInt16 × UInt8)) : AtaDevice :=
  (writes.takeWhile fun written => written.1 ≠ ataStatus).foldl latch blankDevice

section Traces

variable {State : Type}

/-- The task file selects what the request names, and as many words are moved as the
device was told. -/
structure Encodes (request : SectorRequest) (trace : List (PortEvent State)) : Prop where
  drive : (taskFile (byteWrites trace)).selectedDrive = request.second
  lba : (taskFile (byteWrites trace)).selectedLba = request.lba.toNat
  words : (wordEvents trace).length = 256 * (taskFile (byteWrites trace)).selectedSectors

end Traces

def AlwaysEncodes (request : SectorRequest) : Prop :=
  ∀ (State : Type) (device : PortDevice State) (state : State)
    (outcome : Outcome (Bool × List UInt16) State),
    Returns device request.call.program state outcome → Encodes request outcome.trace

/-- The requests are told to the device as they are meant, and two different addresses
never come to one sector. -/
structure EncodedApart (one other : SectorRequest) : Prop where
  first : AlwaysEncodes one
  second : AlwaysEncodes other
  apart : one.lba ≠ other.lba → ∀ (State : Type) (device : PortDevice State)
    (state next : State) (oneOutcome otherOutcome : Outcome (Bool × List UInt16) State),
    Returns device one.call.program state oneOutcome →
    Returns device other.call.program next otherOutcome →
    (taskFile (byteWrites oneOutcome.trace)).selectedLba ≠
      (taskFile (byteWrites otherOutcome.trace)).selectedLba

def sectorRegisters (drive : UInt8) (lba : UInt32) (count : UInt8) : List (UInt16 × UInt8) :=
  [(ataDrive, driveSelect drive lba), (ataSectorCnt, count), (ataLbaLow, (lba &&& 0xFF).toUInt8),
    (ataLbaMid, ((lba >>> 8) &&& 0xFF).toUInt8), (ataLbaHigh, ((lba >>> 16) &&& 0xFF).toUInt8)]

def registerWrites (drive : UInt8) (lba : UInt32) (count command : UInt8) :
    List (UInt16 × UInt8) := sectorRegisters drive lba count ++ [(ataStatus, command)]

theorem sector_command_emits {Result : Type} (drive : UInt8) (lba : UInt32) (count command : UInt8)
    {onward : PortProgram Result} {writes : List (UInt16 × UInt8)} {words : Nat}
    (rest : Emits onward writes words) :
    Emits (sectorCommand drive lba count command onward)
      (registerWrites drive lba count command ++ writes) words := by
  apply emits_silent (emits_spin _ _)
  intro _
  apply emits_written ataDrive
  intro _
  apply emits_written ataSectorCnt
  intro _
  apply emits_written ataLbaLow
  intro _
  apply emits_written ataLbaMid
  intro _
  apply emits_written ataLbaHigh
  intro _
  apply emits_written ataStatus
  intro _
  apply emits_silent (emits_spin _ _)
  intro _
  apply emits_silent (emits_spin _ _)
  intro _
  exact rest

def SectorRequest.writes (request : SectorRequest) : List (UInt16 × UInt8) :=
  match request.stored with
  | none => registerWrites request.second.toUInt8 request.lba request.count ataCmdRead
  | some _ =>
      registerWrites request.second.toUInt8 request.lba request.count ataCmdWrite ++
        [(ataStatus, ataCmdFlush)]

theorem request_emits (request : SectorRequest) :
    Emits request.call.program request.writes (256 * request.count.toNat) := by
  rcases request with ⟨second, lba, count, stored⟩
  cases stored with
  | none =>
      have read := sector_command_emits second.toUInt8 lba count ataCmdRead
        (emits_insw ataData (256 * count.toNat))
      rw [List.append_nil] at read
      have call := emits_bind read fun words => emits_pure (true, words)
      rw [List.append_nil] at call
      exact call
  | some buffer =>
      have flush := emits_written ataStatus ataCmdFlush fun _ =>
        emits_spin ataStatus fun status => status &&& ataStatusBsy ≠ 0
      have words := emits_bind
        (emits_outsw ataData ((List.range (256 * count.toNat)).map buffer)) fun _ => flush
      rw [List.length_map, List.length_range, List.nil_append] at words
      have write := sector_command_emits second.toUInt8 lba count ataCmdWrite words
      have call := emits_bind write fun _ => emits_pure (true, ([] : List UInt16))
      rw [List.append_nil] at call
      exact call

theorem request_task_file (request : SectorRequest) :
    taskFile request.writes =
      programmed blankDevice request.second.toUInt8 request.lba request.count := by
  rcases request with ⟨second, lba, count, stored⟩
  cases stored with
  | none => rfl
  | some buffer => rfl

section Outcomes

variable {State : Type} {device : PortDevice State} {state : State}
  {outcome : Outcome (Bool × List UInt16) State} {request : SectorRequest}
  (returned : Returns device request.call.program state outcome)

include returned

theorem task_file_of_call :
    taskFile (byteWrites outcome.trace) =
      programmed blankDevice request.second.toUInt8 request.lba request.count := by
  rw [(request_emits request State device state outcome returned).1, request_task_file]

theorem words_of_call : (wordEvents outcome.trace).length = 256 * request.count.toNat :=
  (request_emits request State device state outcome returned).2

theorem encodes_iff : Encodes request outcome.trace ↔ request.InRange := by
  have file := task_file_of_call returned
  have words := words_of_call returned
  have lba := selected_lba_value blankDevice request.second request.lba request.count
  have sectors : (programmed blankDevice request.second.toUInt8 request.lba
      request.count).selectedSectors = sectorsOf request.count := rfl
  constructor
  · intro encodes
    have address := encodes.lba
    have moved := encodes.words
    rw [file, lba] at address
    rw [file, words, sectors] at moved
    constructor
    · omega
    · intro zero
      rw [zero] at moved
      exact absurd moved (by decide)
  · rintro ⟨small, nonzero⟩
    constructor
    · rw [file, selected_drive_programmed]
    · rw [file, lba, Nat.mod_eq_of_lt small]
    · rw [file, words, sectors, sectorsOf, if_neg nonzero]

end Outcomes

theorem always_encodes_iff (request : SectorRequest) : AlwaysEncodes request ↔ request.InRange := by
  constructor
  · intro encodes
    obtain ⟨outcome, returned⟩ := @call_returns (fun _ => .none) blankDevice request.call
    exact (encodes_iff returned).mp (encodes AtaDevice _ blankDevice outcome returned)
  · intro inRange State device state outcome returned
    exact (encodes_iff returned).mpr inRange

/-- Two requests are encoded as they are meant exactly when both addresses have 28 bits
and both counts are not zero. -/
theorem encoded_apart_iff (one other : SectorRequest) :
    EncodedApart one other ↔ one.InRange ∧ other.InRange := by
  rw [← always_encodes_iff, ← always_encodes_iff]
  constructor
  · intro encoded
    exact ⟨encoded.first, encoded.second⟩
  · rintro ⟨first, second⟩
    refine ⟨first, second, ?_⟩
    intro different State device state next oneOutcome otherOutcome oneReturned otherReturned same
    have oneLba := (first State device state oneOutcome oneReturned).lba
    have otherLba := (second State device next otherOutcome otherReturned).lba
    rw [oneLba, otherLba] at same
    exact different (UInt32.toNat_inj.mp same)

/-- The 29th bit of the address is dropped, and the call comes to sector 0. -/
theorem high_address_comes_to_zero :
    ¬∀ one other : SectorRequest, EncodedApart one other := by
  intro encoded
  have apart := encoded ⟨false, 0, 1, none⟩ ⟨false, 0x10000000, 1, none⟩
  obtain ⟨outcome, returned⟩ :=
    @call_returns (fun _ => .none) blankDevice (SectorRequest.mk false 0x10000000 1 none).call
  have lba := (apart.second AtaDevice _ blankDevice outcome returned).lba
  rw [task_file_of_call returned, selected_lba_value] at lba
  exact absurd lba (by decide)

end FractionsOS.Ata
