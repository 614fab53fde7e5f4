/-!
# The status register

Seven flags share one byte; from bit 7 down they are negative, overflow, an unused bit that
always reads as one, break, decimal, interrupt disable, zero and carry. Flags are named by
their masks, and a mask of several bits counts as set when any of its bits is. The break
bit exists only in the copies on the stack: PHP and BRK push it set, an interrupt pushes it
clear, and pulling ignores it.
-/

namespace NesMachine

namespace Flag

def carry : UInt8 := 0x01
def zero : UInt8 := 0x02
def interruptDisable : UInt8 := 0x04
def decimal : UInt8 := 0x08
def breakMark : UInt8 := 0x10
def unused : UInt8 := 0x20
def overflow : UInt8 := 0x40
def negative : UInt8 := 0x80

end Flag

/-- The status register P. -/
structure Status where
  byte : UInt8
deriving DecidableEq

namespace Status

/-! ### Forms of the byte -/

/-- The status with the given flags; the unused bit is set. -/
def ofByte (value : UInt8) : Status := ⟨value ||| Flag.unused⟩

/-- The status that a pulled byte stands for: break is dropped and the unused bit set. -/
def ofStack (value : UInt8) : Status := ⟨(value ||| Flag.unused) &&& ~~~Flag.breakMark⟩

/-- The byte that PHP and BRK push: break and the unused bit are set. -/
def pushedByProgram (p : Status) : UInt8 := p.byte ||| Flag.unused ||| Flag.breakMark

/-- The byte that an interrupt pushes: the unused bit is set and break is clear. -/
def pushedByInterrupt (p : Status) : UInt8 := (p.byte ||| Flag.unused) &&& ~~~Flag.breakMark

/-! ### Single flags -/

/-- Whether any bit of a mask is set. -/
def has (p : Status) (mask : UInt8) : Bool := p.byte &&& mask != 0

/-- Sets every bit of a mask. -/
def set (p : Status) (mask : UInt8) : Status := ⟨p.byte ||| mask⟩

/-- Clears every bit of a mask. -/
def clear (p : Status) (mask : UInt8) : Status := ⟨p.byte &&& ~~~mask⟩

/-- Sets or clears every bit of a mask. -/
def put (p : Status) (mask : UInt8) (on : Bool) : Status := if on then p.set mask else p.clear mask

end Status

end NesMachine
