import FractionsOS.Library.PortPrograms

/-!
# The interrupt controllers

The functions of `pic.c` as port programs.
-/

namespace FractionsOS.Pic

open Library.PortPrograms

set_option autoImplicit false

def pic1Cmd : UInt16 := 0x20
def pic1Data : UInt16 := 0x21
def pic2Cmd : UInt16 := 0xA0
def pic2Data : UInt16 := 0xA1

def picRemap (o1 o2 : UInt8) : PortProgram Unit := do
  let m ← inb pic1Data
  let s ← inb pic2Data
  outb pic1Cmd 0x11
  outb pic2Cmd 0x11
  outb pic1Data o1
  outb pic2Data o2
  outb pic1Data 0x04
  outb pic2Data 0x02
  outb pic1Data 0x01
  outb pic2Data 0x01
  outb pic1Data m
  outb pic2Data s

def picSendEoi (irq : UInt8) : PortProgram Unit := do
  if 8 ≤ irq then outb pic2Cmd 0x20
  outb pic1Cmd 0x20

end FractionsOS.Pic
