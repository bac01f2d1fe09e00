import FractionsOS.Library.PortPrograms
import Mathlib.Algebra.GroupWithZero.Nat

/-!
# The ATA driver

The functions of `ata.c` as port programs, instruction by instruction. The two
polling loops are spins; `insw` and `outsw` move their words without a look at
the status. A buffer to be written is what memory holds from its address on.
-/

namespace FractionsOS.Ata

open Library.PortPrograms

set_option autoImplicit false

def ataData : UInt16 := 0x1F0
def ataError : UInt16 := 0x1F1
def ataSectorCnt : UInt16 := 0x1F2
def ataLbaLow : UInt16 := 0x1F3
def ataLbaMid : UInt16 := 0x1F4
def ataLbaHigh : UInt16 := 0x1F5
def ataDrive : UInt16 := 0x1F6
def ataStatus : UInt16 := 0x1F7

def ataCmdRead : UInt8 := 0x20
def ataCmdWrite : UInt8 := 0x30
def ataCmdIdentify : UInt8 := 0xEC
def ataCmdFlush : UInt8 := 0xE7

def ataStatusBsy : UInt8 := 0x80
def ataStatusDrdy : UInt8 := 0x40
def ataStatusDrq : UInt8 := 0x08
def ataStatusErr : UInt8 := 0x01

def ataIdentifyFields : List (String × Nat) :=
  [("flags", 2), ("unused1", 2 * 9), ("serial", 20), ("unused2", 2 * 3), ("firmware", 8),
    ("model", 40), ("sectors_per_int", 2), ("unused3", 2), ("capabilities", 2 * 2),
    ("unused4", 2 * 2), ("valid_ext_data", 2), ("unused5", 2 * 5), ("size_of_sector", 2),
    ("total_sectors", 2 * 4)]

def ataIdentifySize : Nat := (ataIdentifyFields.map Prod.snd).sum

def ataDelay : PortProgram Unit :=
  (List.range 4).forM fun _ => do
    let _ ← inb ataStatus
    return

def ataInit : PortProgram Unit := ataDelay

def ataWaitBsy : PortProgram Unit :=
  spin ataStatus fun status => status &&& ataStatusBsy ≠ 0

def ataWaitDrq : PortProgram Unit :=
  spin ataStatus fun status => ¬(status &&& ataStatusDrq ≠ 0)

/-- The result and the words stored to `data`, none when the call gives up. -/
def ataIdentify (drive : UInt8) : PortProgram (Bool × List UInt16) := do
  ataWaitBsy
  outb ataDrive ((0xA0 : UInt8) ||| (drive <<< 4))
  outb ataSectorCnt 0
  outb ataLbaLow 0
  outb ataLbaMid 0
  outb ataLbaHigh 0
  outb ataStatus ataCmdIdentify
  let status ← inb ataStatus
  if status = 0 then return (false, [])
  ataWaitBsy
  let error ← inb ataError
  if error &&& 0x01 ≠ 0 then return (false, [])
  ataWaitDrq
  let words ← insw ataData (ataIdentifySize / 2)
  return (true, words)

/-- The task file that `ata_read_sectors` and `ata_write_sectors` both program,
up to the command. -/
def driveSelect (drive : UInt8) (lba : UInt32) : UInt8 :=
  (0xE0 : UInt8) ||| (drive <<< 4) ||| ((lba >>> 24) &&& 0x0F).toUInt8

def ataReadSectors (drive : UInt8) (lba : UInt32) (count : UInt8) :
    PortProgram (List UInt16) := do
  ataWaitBsy
  outb ataDrive (driveSelect drive lba)
  outb ataSectorCnt count
  outb ataLbaLow (lba &&& 0xFF).toUInt8
  outb ataLbaMid ((lba >>> 8) &&& 0xFF).toUInt8
  outb ataLbaHigh ((lba >>> 16) &&& 0xFF).toUInt8
  outb ataStatus ataCmdRead
  ataWaitBsy
  ataWaitDrq
  insw ataData (256 * count.toNat)

def ataWriteSectors (drive : UInt8) (lba : UInt32) (count : UInt8) (buffer : Nat → UInt16) :
    PortProgram Unit := do
  ataWaitBsy
  outb ataDrive (driveSelect drive lba)
  outb ataSectorCnt count
  outb ataLbaLow (lba &&& 0xFF).toUInt8
  outb ataLbaMid ((lba >>> 8) &&& 0xFF).toUInt8
  outb ataLbaHigh ((lba >>> 16) &&& 0xFF).toUInt8
  outb ataStatus ataCmdWrite
  ataWaitBsy
  ataWaitDrq
  outsw ataData ((List.range (256 * count.toNat)).map buffer)
  outb ataStatus ataCmdFlush
  ataWaitBsy

end FractionsOS.Ata
