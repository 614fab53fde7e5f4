import NesMachine.Cpu.Status

/-!
# Flag rules

Arithmetic, shifts and comparisons produce an `AluOutput`: the operands as the adder saw
them and a sixteen-bit result whose bit 8 keeps the carry. Every instruction takes its flags
from the rules below, so there is one definition of carry, overflow and the others.
-/

namespace NesMachine

/-- What the arithmetic unit delivers. For a subtraction by addition `b` is the complement
of the operand. -/
structure AluOutput where
  result : UInt16
  a : UInt8
  b : UInt8
deriving DecidableEq

namespace AluOutput

/-- The output that passes a byte on. -/
def ofByte (value : UInt8) : AluOutput := ⟨value.toUInt16, value, 0⟩

/-- The low eight bits of the result. -/
def byte (r : AluOutput) : UInt8 := r.result.toUInt8

/-- The carry out of bit 7. -/
def carry (r : AluOutput) : Bool := r.result &&& 0x100 != 0

/-- The carry of a right shift: the bit that was shifted out. -/
def carryShiftRight (r : AluOutput) : Bool := r.a &&& 0x01 != 0

/-- The carry of a wrapping difference: set when nothing was borrowed. -/
def carrySubtract (r : AluOutput) : Bool := r.result &&& 0x100 == 0

/-- Whether the low eight bits of the result are zero. -/
def zero (r : AluOutput) : Bool := r.result &&& 0xFF == 0

/-- Bit 7 of the result. -/
def negative (r : AluOutput) : Bool := r.result &&& 0x80 != 0

/-- Signed overflow: the operands share a sign that the result does not have. -/
def overflow (r : AluOutput) : Bool :=
  (r.a ^^^ r.b) &&& 0x80 == 0 && (r.a ^^^ r.byte) &&& 0x80 != 0

theorem byte_ofByte (value : UInt8) : (ofByte value).byte = value := by
  simp [byte, ofByte]

end AluOutput

/-- Sets the zero and negative flags for a delivered byte. -/
def Status.delivered (p : Status) (value : UInt8) : Status :=
  let r := AluOutput.ofByte value
  (p.put Flag.zero r.zero).put Flag.negative r.negative

end NesMachine
