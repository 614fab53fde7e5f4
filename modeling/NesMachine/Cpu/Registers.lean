import NesMachine.Cpu.Alu
import NesMachine.Memory.Word

/-!
# The register file

The registers that a program sees, and the instructions' effects on registers alone: loads,
addition with carry, comparison and the bit test. The stack pointer is the offset of the
next free slot in page one.
-/

namespace NesMachine

/-- The program counter, three data registers, the stack pointer and the status. -/
structure Registers where
  a : UInt8
  x : UInt8
  y : UInt8
  s : UInt8
  pc : UInt16
  p : Status
deriving DecidableEq

/-- The registers that instructions load, store and compare. -/
inductive Reg where
  | a
  | x
  | y
deriving DecidableEq

namespace Registers

/-- The registers after power-on: the stack is empty and execution starts at `$8000`. -/
def powerOn : Registers := ⟨0, 0, 0, 0xFF, 0x8000, ⟨Flag.unused⟩⟩

/-- The address of the next free stack slot. -/
def stackAddress (r : Registers) : UInt16 := wordOf r.s 1

/-- The content of a data register. -/
def get (r : Registers) : Reg → UInt8
  | .a => r.a
  | .x => r.x
  | .y => r.y

/-- Replaces the content of a data register. -/
def set (r : Registers) : Reg → UInt8 → Registers
  | .a, value => { r with a := value }
  | .x, value => { r with x := value }
  | .y, value => { r with y := value }

/-- Replaces the status. -/
def setStatus (r : Registers) (p : Status) : Registers := { r with p := p }

/-- Sets or clears a flag. -/
def putFlag (r : Registers) (mask : UInt8) (on : Bool) : Registers := r.setStatus (r.p.put mask on)

/-- Loads a data register, with the zero and negative flags. -/
def load (r : Registers) (reg : Reg) (value : UInt8) : Registers :=
  (r.set reg value).setStatus (r.p.delivered value)

/-- The carry flag as a number. -/
def carryIn (r : Registers) : UInt16 := if r.p.has Flag.carry then 1 else 0

/-- Adds a byte and the carry to A. The decimal flag has no effect. -/
def add (r : Registers) (value : UInt8) : Registers :=
  let out : AluOutput := ⟨r.a.toUInt16 + value.toUInt16 + r.carryIn, r.a, value⟩
  ((r.putFlag Flag.carry out.carry).putFlag Flag.overflow out.overflow).load .a out.byte

/-- Subtracts a byte and the missing carry from A, by adding the complement. -/
def subtract (r : Registers) (value : UInt8) : Registers := r.add (~~~value)

/-- Sets carry, zero and negative as the difference of two bytes has them. -/
def compare (r : Registers) (left right : UInt8) : Registers :=
  let out : AluOutput := ⟨left.toUInt16 - right.toUInt16, left, right⟩
  ((r.putFlag Flag.carry out.carrySubtract).putFlag Flag.zero out.zero).putFlag
    Flag.negative out.negative

/-- Sets zero from the bits that A and the byte share, and negative and overflow from bits 7
and 6 of the byte. -/
def bitTest (r : Registers) (value : UInt8) : Registers :=
  ((r.putFlag Flag.zero (AluOutput.ofByte (r.a &&& value)).zero).putFlag
    Flag.negative (AluOutput.ofByte value).negative).putFlag
    Flag.overflow (value &&& 0x40 != 0)

end Registers

end NesMachine
