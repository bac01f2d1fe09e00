import FractionsOS.Library.BlockHandshake
import FractionsOS.Storage.Ata

/-!
# An LBA28 PIO device pair

The other side of the ports of `ata.c`. Status polls are the only clock: after a
command and after each 256-word sector the device pauses for a number of polls
that `Behaviour` chooses. It takes a command only when it shows neither BSY nor
DRQ, and moves a word only when it shows DRQ without BSY.
-/

namespace FractionsOS.Ata

open Library.PortPrograms Library.BlockHandshake

set_option autoImplicit false

/-- What is left open about a device: how long each pause lasts and which
commands it answers with an error. -/
structure Behaviour where
  pause : Nat → Pause
  fails : Nat → Option UInt8

def errorFree (pause : Nat → Pause) : Behaviour := ⟨pause, fun _ => none⟩

def alwaysReady : Behaviour := errorFree fun _ => Pause.none

def sectorWords : Nat := 256

/-- Where the next word of the data phase comes from or goes to. An address
counts the words of a drive. -/
inductive Transfer where
  | idle
  | fromMedium (drive : Bool) (address : Nat)
  | fromIdentity (drive : Bool) (offset : Nat)
  | toMedium (drive : Bool) (address : Nat)
  deriving DecidableEq, Repr

structure AtaDevice where
  sectorCnt : UInt8
  lbaLow : UInt8
  lbaMid : UInt8
  lbaHigh : UInt8
  drive : UInt8
  error : UInt8
  failed : Bool
  /-- How many commands were taken. -/
  commands : Nat
  line : Line
  transfer : Transfer
  medium : Bool → Nat → UInt16
  identity : Bool → Nat → UInt16

def blankDevice : AtaDevice where
  sectorCnt := 0
  lbaLow := 0
  lbaMid := 0
  lbaHigh := 0
  drive := 0
  error := 0
  failed := false
  commands := 0
  line := ⟨0, 0, 0, 0⟩
  transfer := .idle
  medium := fun _ _ => 0
  identity := fun _ _ => 0

namespace AtaDevice

def selectedDrive (device : AtaDevice) : Bool := device.drive &&& 0x10 ≠ 0

def selectedLba (device : AtaDevice) : Nat :=
  device.lbaLow.toNat + 2 ^ 8 * device.lbaMid.toNat + 2 ^ 16 * device.lbaHigh.toNat +
    2 ^ 24 * (device.drive &&& 0x0F).toNat

def selectedSectors (device : AtaDevice) : Nat :=
  if device.sectorCnt = 0 then 256 else device.sectorCnt.toNat

def status (device : AtaDevice) : UInt8 :=
  if 0 < device.line.busy then ataStatusBsy
  else if 0 < device.line.settling then ataStatusDrdy
  else if 0 < device.line.left then ataStatusDrdy ||| ataStatusDrq
  else if device.failed then ataStatusDrdy ||| ataStatusErr
  else ataStatusDrdy

/-- The words of a data phase, the place they start at and the pause before them. -/
def beginTransfer (behaviour : Behaviour) (device : AtaDevice) (words : Nat)
    (transfer : Transfer) : AtaDevice :=
  match behaviour.fails device.commands with
  | some error =>
      { device with
        error
        failed := true
        commands := device.commands + 1
        line := ({ device.line with left := 0 } : Line).beginPause behaviour.pause
        transfer := .idle }
  | none =>
      { device with
        error := 0
        failed := false
        commands := device.commands + 1
        line := ({ device.line with left := words } : Line).beginPause behaviour.pause
        transfer }

def takeCommand (behaviour : Behaviour) (device : AtaDevice) (command : UInt8) : AtaDevice :=
  if command = ataCmdRead then
    beginTransfer behaviour device (sectorWords * device.selectedSectors)
      (.fromMedium device.selectedDrive (sectorWords * device.selectedLba))
  else if command = ataCmdWrite then
    beginTransfer behaviour device (sectorWords * device.selectedSectors)
      (.toMedium device.selectedDrive (sectorWords * device.selectedLba))
  else if command = ataCmdIdentify then
    beginTransfer behaviour device sectorWords (.fromIdentity device.selectedDrive 0)
  else beginTransfer behaviour device 0 .idle

def writeRegister (behaviour : Behaviour) (device : AtaDevice) (port : UInt16) (value : UInt8) :
    AtaDevice :=
  if 0 < device.line.busy then device
  else if port = ataSectorCnt then { device with sectorCnt := value }
  else if port = ataLbaLow then { device with lbaLow := value }
  else if port = ataLbaMid then { device with lbaMid := value }
  else if port = ataLbaHigh then { device with lbaHigh := value }
  else if port = ataDrive then { device with drive := value }
  else if port = ataStatus ∧ device.line.left = 0 then takeCommand behaviour device value
  else device

theorem write_command (behaviour : Behaviour) (device : AtaDevice) (command : UInt8)
    (notBusy : device.line.busy = 0) :
    device.writeRegister behaviour ataStatus command =
      if device.line.left = 0 then device.takeCommand behaviour command else device := by
  have accepted : ¬0 < device.line.busy := by
    rw [notBusy]
    exact Nat.lt_irrefl 0
  unfold writeRegister
  rw [if_neg accepted, if_neg (by decide), if_neg (by decide), if_neg (by decide),
    if_neg (by decide), if_neg (by decide)]
  simp only [true_and]

theorem command_taken (behaviour : Behaviour) (device : AtaDevice) (command : UInt8)
    (notBusy : device.line.busy = 0) (idle : device.line.left = 0) :
    device.writeRegister behaviour ataStatus command = device.takeCommand behaviour command := by
  rw [write_command behaviour device command notBusy, if_pos idle]

theorem command_ignored (behaviour : Behaviour) (device : AtaDevice) (command : UInt8)
    (notBusy : device.line.busy = 0) (words : 0 < device.line.left) :
    device.writeRegister behaviour ataStatus command = device := by
  rw [write_command behaviour device command notBusy, if_neg (Nat.ne_of_gt words)]

def readRegister (device : AtaDevice) (port : UInt16) : UInt8 × AtaDevice :=
  if port = ataStatus then (device.status, { device with line := device.line.poll })
  else if port = ataError then (device.error, device)
  else (0xFF, device)

def advance (behaviour : Behaviour) (device : AtaDevice) (transfer : Transfer) : AtaDevice :=
  { device with
    line := device.line.moved sectorWords behaviour.pause
    transfer }

def readData (behaviour : Behaviour) (device : AtaDevice) (port : UInt16) : UInt16 × AtaDevice :=
  if port = ataData ∧ device.line.Ready then
    match device.transfer with
    | .fromMedium drive address =>
        (device.medium drive address,
          device.advance behaviour (.fromMedium drive (address + 1)))
    | .fromIdentity drive offset =>
        (device.identity drive offset,
          device.advance behaviour (.fromIdentity drive (offset + 1)))
    | .toMedium _ _ => (0xFFFF, device)
    | .idle => (0xFFFF, device)
  else (0xFFFF, device)

def writeData (behaviour : Behaviour) (device : AtaDevice) (port : UInt16) (word : UInt16) :
    AtaDevice :=
  if port = ataData ∧ device.line.Ready then
    match device.transfer with
    | .toMedium drive address =>
        { device.advance behaviour (.toMedium drive (address + 1)) with
          medium := fun other index =>
            if other = drive ∧ index = address then word else device.medium other index }
    | .fromMedium _ _ => device
    | .fromIdentity _ _ => device
    | .idle => device
  else device

end AtaDevice

def ataPorts (behaviour : Behaviour) : PortDevice AtaDevice where
  inb := AtaDevice.readRegister
  outb := AtaDevice.writeRegister behaviour
  inw := AtaDevice.readData behaviour
  outw := AtaDevice.writeData behaviour

def ShowsData (device : AtaDevice) : Prop :=
  device.status &&& ataStatusBsy = 0 ∧ device.status &&& ataStatusDrq ≠ 0

instance (device : AtaDevice) : Decidable (ShowsData device) :=
  inferInstanceAs (Decidable (_ ∧ _))

theorem shows_data_iff_ready (device : AtaDevice) : ShowsData device ↔ device.line.Ready := by
  unfold ShowsData AtaDevice.status Line.Ready
  split_ifs with busy settling words failed
  all_goals simp only [ataStatusBsy, ataStatusDrdy, ataStatusDrq, ataStatusErr]
  · constructor
    · intro shown
      exact absurd shown.1 (by decide)
    · intro ready
      omega
  · constructor
    · intro shown
      exact absurd shown.2 (by decide)
    · intro ready
      omega
  · constructor
    · intro _
      omega
    · intro _
      decide
  · constructor
    · intro shown
      exact absurd shown.2 (by decide)
    · intro ready
      omega
  · constructor
    · intro shown
      exact absurd shown.2 (by decide)
    · intro ready
      omega

end FractionsOS.Ata
