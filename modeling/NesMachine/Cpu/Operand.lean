import NesMachine.Cpu.Board
import NesMachine.Cpu.Opcode

/-!
# Operands

Resolving an operand consumes the bytes after the opcode, so that the program counter names
the next instruction, works out the effective address and, unless only the address is asked
for, reads the byte there. Pointers in page zero wrap within the page, and so does the
pointer of an indirect jump within its own page. Sums with an index register wrap at the end
of the address space.
-/

namespace NesMachine

/-- A resolved operand. -/
structure Operand where
  mode : Mode
  /-- The operand byte; zero when there is none or it was not read, and the offset byte of a
  relative operand. -/
  value : UInt8
  /-- The effective address, in the modes that have one. -/
  address : Option UInt16
  /-- Whether the operand is the accumulator. -/
  accumulator : Bool
  /-- Whether the index moved the effective address to another page. -/
  pageCrossed : Bool
deriving DecidableEq

namespace Operand

/-- An operand without an address. -/
def bare (mode : Mode) (value : UInt8) : Operand := ⟨mode, value, none, false, false⟩

/-- An operand in memory. -/
def located (mode : Mode) (value : UInt8) (a : UInt16) (crossed : Bool) : Operand :=
  ⟨mode, value, some a, false, crossed⟩

end Operand

/-- Whether two addresses lie on different pages. -/
def crossesPage (base a : UInt16) : Bool := highByte base != highByte a

/-- The address after `a` on the same page; the last one is followed by the first. -/
def nextInPage (a : UInt16) : UInt16 := wordOf (lowByte a + 1) (highByte a)

/-- A signed offset as a summand of addresses. -/
def signedOffset (offset : UInt8) : UInt16 := offset.toInt8.toInt16.toUInt16

namespace Board

variable {β : Type} [Bus β]

/-- Reads a pointer in page zero, whose high byte lies in page zero too. -/
def readZeroPagePointer (pointer : UInt8) : Run β UInt16 :=
  readPair pointer.toUInt16 (pointer + 1).toUInt16

/-- Reads the pointer of an indirect jump, whose high byte lies on the page of the low one. -/
def readJumpPointer (pointer : UInt16) : Run β UInt16 := readPair pointer (nextInPage pointer)

/-- The operand at an address. -/
def locate (mode : Mode) (a : UInt16) (crossed : Bool) : Fetch → Run β Operand
  | .value => do
    let value ← read a
    return .located mode value a crossed
  | .addressOnly => return .located mode 0 a crossed

/-- An operand in page zero, an index away from the operand byte. -/
def resolveZeroPage (mode : Mode) (index : Registers → UInt8) (kind : Fetch) : Run β Operand := do
  let base ← fetch
  let regs ← registers
  locate mode (base + index regs).toUInt16 false kind

/-- An operand an index away from the operand word. -/
def resolveAbsolute (mode : Mode) (index : Registers → UInt8) (kind : Fetch) : Run β Operand := do
  let base ← fetchWord
  let regs ← registers
  let a := base + (index regs).toUInt16
  locate mode a (crossesPage base a) kind

/-- Resolves the operand of the instruction whose opcode has just been read. -/
def resolve (mode : Mode) (kind : Fetch) : Run β Operand :=
  match mode with
  | .implicit => return .bare .implicit 0
  | .accumulator => do
    let regs ← registers
    return ⟨.accumulator, regs.a, none, true, false⟩
  | .immediate => do
    let value ← fetch
    return .bare .immediate value
  | .zeroPage => resolveZeroPage .zeroPage (fun _ => 0) kind
  | .zeroPageX => resolveZeroPage .zeroPageX Registers.x kind
  | .zeroPageY => resolveZeroPage .zeroPageY Registers.y kind
  | .relative => do
    let offset ← fetch
    let regs ← registers
    return .located .relative offset (regs.pc + signedOffset offset) false
  | .absolute => resolveAbsolute .absolute (fun _ => 0) kind
  | .absoluteX => resolveAbsolute .absoluteX Registers.x kind
  | .absoluteY => resolveAbsolute .absoluteY Registers.y kind
  | .indirect => do
    let pointer ← fetchWord
    let target ← readJumpPointer pointer
    locate .indirect target false .addressOnly
  | .indexedIndirect => do
    let base ← fetch
    let regs ← registers
    let a ← readZeroPagePointer (base + regs.x)
    locate .indexedIndirect a false kind
  | .indirectIndexed => do
    let pointer ← fetch
    let base ← readZeroPagePointer pointer
    let regs ← registers
    let a := base + regs.y.toUInt16
    locate .indirectIndexed a (crossesPage base a) kind

end Board

end NesMachine
